/-
A handoff never leaves its service without a serving container.

A handoff starts from one old container, running, healthy and not drained.  Until
the drain file is made the old container serves; when it is made a new container
has been seen healthy, and that one serves until the end.  What can go wrong is the
cleanup: it removes the new containers when the old one is still running, drained or
not.  So the safe handoffs are those in which no call fails between the making of the
drain file and the stop of the old container, and `safe_handoff` returns when the
cleanup's own calls fail with no other exception than the one it catches.

* `Steady` — what containers do on their own: none crashes once it was seen healthy;
* `Kept` — the properties of the world that the daemon keeps between the calls;
* `Spared` — the condition;
* `safe_handoff_serves` — some container of the service serves in every state of the
  handoff.
-/
import KrgInfra.Handoff

namespace Compose

/-! ### What containers do on their own -/

/-- A container is not running. -/
def Down (id : String) (w : Docker) : Prop :=
  ∀ k, w.container id = some k → k.status ≠ .running

/-- No drained container of the service is healthy. -/
def Undrained (svc : String) (w : Docker) : Prop :=
  ∀ id k, w.container id = some k → k.service = svc → k.drained = true → k.up = false

/-- A container of the service that was seen healthy serves. -/
def Serving (svc id : String) (w : Docker) : Prop :=
  ∃ k, w.container id = some k ∧ k.service = svc ∧ k.seen = true ∧ k.serving = true

/-- Some container of the service is running, healthy and not drained. -/
def Served (svc : String) (w : Docker) : Prop :=
  ∃ id k, w.container id = some k ∧ k.service = svc ∧ k.serving = true

/-- `Served` is decided by going through the containers that the daemon lists. -/
theorem served_iff {svc : String} {w : Docker} : Served svc w ↔
    (w.order.any fun id => (w.container id).any fun k => decide (k.service = svc) && k.serving) =
      true := by
  rw [← Docker.exists_container]
  simp only [Served, Bool.and_eq_true, decide_eq_true_eq]

instance (svc : String) (w : Docker) : Decidable (Served svc w) := decidable_of_iff _ served_iff.symm

/-- How the world changes between two calls of a handoff of the container `old`: a
container that was seen healthy goes on running and healthy, unless it is drained; a
drained container does not become healthy; no container is created; and nobody starts
the old container again. -/
structure Steady (env : ComposeEnv) (old : String) : Prop where
  stays : ∀ i w id k, w.container id = some k → k.seen = true → k.serving = true →
    ∃ k', (env.before i w).container id = some k' ∧ k'.seen = true ∧ k'.serving = true
  known : ∀ i w id k', (env.before i w).container id = some k' → ∃ k, w.container id = some k ∧
    k'.service = k.service ∧ k'.drains = k.drains ∧ k'.drained = k.drained ∧
    (k'.drained = true → k'.up = true → k.up = true)
  stopped : ∀ i w, Down old w → Down old (env.before i w)

/-- Containers that do nothing on their own are steady. -/
theorem steady_of_idle {env : ComposeEnv} {old : String} (h : ∀ i w, env.before i w = w) :
    Steady env old where
  stays i w id k hk hseen hs := ⟨k, by rw [h]; exact hk, hseen, hs⟩
  known i w id k' hk' := ⟨k', by rwa [h] at hk', rfl, rfl, rfl, fun _ hup => hup⟩
  stopped i w hd := by rwa [h]

theorem Serving.served {svc id : String} {w : Docker} (h : Serving svc id w) : Served svc w := by
  obtain ⟨k, hk, hsvc, -, hs⟩ := h
  exact ⟨id, k, hk, hsvc, hs⟩

theorem not_drained_of_serving {k : Container} (h : k.serving = true) : k.drained = false := by
  rw [Container.serving, Bool.and_eq_true] at h
  simpa using h.2

theorem up_of_serving {k : Container} (h : k.serving = true) : k.up = true := by
  rw [Container.serving, Bool.and_eq_true] at h
  exact h.1

theorem running_of_up {k : Container} (h : k.up = true) : k.status = .running := by
  rw [Container.up, Bool.and_eq_true, decide_eq_true_eq] at h
  exact h.1

theorem serving_of_up {k : Container} (h : k.up = true) (hd : k.drained = false) :
    k.serving = true := by
  rw [Container.serving, h, hd]
  rfl

@[simp] theorem up_mark (k : Container) : k.mark.up = k.up := rfl

@[simp] theorem serving_mark (k : Container) : k.mark.serving = k.serving := rfl

theorem start_of_up {k : Container} (h : k.up = true) : k.start = k := by
  rw [Container.start, if_pos (running_of_up h)]

/-- A container that is started is not healthy yet. -/
theorem up_start {k : Container} (h : k.start.up = true) : k.start = k := by
  unfold Container.start at h ⊢
  split_ifs at h ⊢ with hr
  · rfl
  · simp [Container.up] at h

/-! ### What is kept between the calls -/

/-- A property that the daemon keeps between two calls, and that inspections keep. -/
structure Kept (env : ComposeEnv) (P : Docker → Prop) : Prop where
  before : ∀ i w, P w → P (env.toEnv.before i w)
  record : ∀ w es, P w → P (w.record es)
  mark : ∀ w id, P w → P (w.onIds [id] Container.mark)

namespace Kept

variable {env : ComposeEnv} {P P' : Docker → Prop} {φ : Prop}

theorem and (h : Kept env P) (h' : Kept env P') : Kept env fun w => P w ∧ P' w where
  before i w hw := ⟨h.before i w hw.1, h'.before i w hw.2⟩
  record w es hw := ⟨h.record w es hw.1, h'.record w es hw.2⟩
  mark w id hw := ⟨h.mark w id hw.1, h'.mark w id hw.2⟩

theorem or (h : Kept env P) (h' : Kept env P') : Kept env fun w => P w ∨ P' w where
  before i w hw := hw.imp (h.before i w) (h'.before i w)
  record w es hw := hw.imp (h.record w es) (h'.record w es)
  mark w id hw := hw.imp (h.mark w id) (h'.mark w id)

theorem exists_ {γ : Type} {P : γ → Docker → Prop} (h : ∀ c, Kept env (P c)) :
    Kept env fun w => ∃ c, P c w where
  before i w := fun ⟨c, hc⟩ => ⟨c, (h c).before i w hc⟩
  record w es := fun ⟨c, hc⟩ => ⟨c, (h c).record w es hc⟩
  mark w id := fun ⟨c, hc⟩ => ⟨c, (h c).mark w id hc⟩

theorem forall_ {γ : Sort*} {P : γ → Docker → Prop} (h : ∀ c, Kept env (P c)) :
    Kept env fun w => ∀ c, P c w where
  before i w hw c := (h c).before i w (hw c)
  record w es hw c := (h c).record w es (hw c)
  mark w id hw c := (h c).mark w id (hw c)

theorem const : Kept env fun _ => φ where
  before _ _ h := h
  record _ _ h := h
  mark _ _ h := h

theorem imp (h : Kept env P) : Kept env fun w => φ → P w :=
  forall_ fun _ => h

end Kept

section Kept

variable {env : ComposeEnv} {svc old : String} (hst : Steady env old)

/-- Marking a container as seen changes nothing else of any container. -/
theorem container_mark {w : Docker} {id i : String} {k : Container}
    (h : (w.onIds [id] Container.mark).container i = some k) :
    ∃ k', w.container i = some k' ∧ (k = k' ∨ k = k'.mark) := by
  rw [Docker.container_onIds] at h
  split_ifs at h with hi
  · obtain ⟨k', hk', rfl⟩ := Option.map_eq_some_iff.mp h
    exact ⟨k', hk', .inr rfl⟩
  · exact ⟨k, h, .inl rfl⟩

include hst

theorem kept_serving (id : String) : Kept env (Serving svc id) where
  before i w := by
    rintro ⟨k, hk, hsvc, hseen, hs⟩
    obtain ⟨k', hk', hseen', hs'⟩ := hst.stays i w id k hk hseen hs
    obtain ⟨k₁, hk₁, hsvc', -⟩ := hst.known i w id k' hk'
    obtain rfl : k = k₁ := Option.some_inj.mp (hk.symm.trans hk₁)
    exact ⟨k', hk', hsvc'.trans hsvc, hseen', hs'⟩
  record w es h := h
  mark w j := by
    rintro ⟨k, hk, hsvc, hseen, hs⟩
    by_cases hj : id ∈ [j]
    · refine ⟨k.mark, ?_, hsvc, ?_, hs⟩
      · rw [Docker.container_onIds, if_pos hj, hk]
        rfl
      · rw [Container.mark, hseen, Bool.true_or]
    · exact ⟨k, by rw [Docker.container_onIds, if_neg hj, hk], hsvc, hseen, hs⟩

theorem kept_undrained : Kept env (Undrained svc) where
  before i w h id k' hk' hsvc' hd := by
    obtain ⟨k, hk, hsvc, -, hdk, hup⟩ := hst.known i w id k' hk'
    by_contra hup'
    have hu := hup hd (by simpa using hup')
    rw [h id k hk (hsvc ▸ hsvc') (hdk ▸ hd)] at hu
    exact absurd hu (by simp)
  record w es h := h
  mark w j h id k hk hsvc hd := by
    obtain ⟨k', hk', rfl | rfl⟩ := container_mark hk
    · exact h id k hk' hsvc hd
    · exact h id k' hk' hsvc hd

theorem kept_down : Kept env (Down old) where
  before i w h := hst.stopped i w h
  record w es h := h
  mark w j h k hk := by
    obtain ⟨k', hk', rfl | rfl⟩ := container_mark hk
    · exact h k hk'
    · exact h k' hk'

/-- What is known of a container for as long as it is there: a property of its service
and its healthcheck. -/
theorem kept_known (id : String) (φ : String → Bool → Prop) :
    Kept env fun w => ∀ k, w.container id = some k → φ k.service k.drains where
  before i w h k' hk' := by
    obtain ⟨k, hk, hsvc, hd, -⟩ := hst.known i w id k' hk'
    rw [hsvc, hd]
    exact h k hk
  record w es h := h
  mark w j h k hk := by
    obtain ⟨k', hk', rfl | rfl⟩ := container_mark hk
    · exact h k hk'
    · exact h k' hk'

end Kept

/-! ### Rules for the calls -/

section Calls

variable {env : ComposeEnv} {I P : Docker → Prop} {ε : Fault → Prop} {i : Site}
  (hP : Kept env P) (hI : ∀ w, P w → I w)

include hP hI

omit hI in
theorem kept_see {α : Type} (f : Docker → Except Fault (α × List Event)) {w : Docker} (hw : P w) :
    P (see f w).2 := by
  unfold see
  split
  · exact hP.record w _ hw
  · exact hw

/-- The rule for a call that only reads. -/
theorem of_see {α : Type} {f : Docker → Except Fault (α × List Event)} {Q : α → Docker → Prop}
    (hok : ∀ w a es, P w → f w = .ok (a, es) → Q a (w.record es))
    (herr : ∀ w e, P w → f w = .error e → ε e)
    (hraise : ∀ e done, env.outcome i = .raise e done → ε e) :
    Triple I P (docker env i (see f)) Q fun e w => P w ∧ ε e := by
  have hsee : ∀ w, P w → P (see f w).2 := fun w hw => kept_see hP f hw
  refine of_docker hP.before hI (fun w hw => hI _ (hsee w hw)) (fun w a hw ha => ?_)
    (fun w e hw he => ⟨hsee w hw, ?_⟩) fun e done w ho hw => ⟨?_, hraise e done ho⟩
  · unfold see at ha ⊢
    cases hf : f w with
    | ok r =>
      rw [hf] at ha
      obtain rfl : r.1 = a := Except.ok.inj ha
      exact hok w r.1 r.2 hw hf
    | error e =>
      rw [hf] at ha
      exact absurd ha (by simp)
  · unfold see at he
    cases hf : f w with
    | ok r =>
      rw [hf] at he
      exact absurd he (by simp)
    | error e' =>
      rw [hf] at he
      obtain rfl : e' = e := Except.error.inj he
      exact herr w e' hw hf
  · cases done with
    | true => exact hsee w hw
    | false => exact hw

/-- A listing: the containers of the service at that moment. -/
theorem ps_rule (svc : String) (all : Bool) (hraise : ∀ e done, env.outcome i = .raise e done → ε e) :
    Triple I P (ps env i svc all) (fun l w => P w ∧ l = w.ids svc all) fun e w => P w ∧ ε e := by
  refine of_see hP hI (fun w a es hw hf => ?_) (fun w e hw hf => by simp at hf) hraise
  simp only [Except.ok.injEq, Prod.mk.injEq] at hf
  obtain ⟨rfl, rfl⟩ := hf
  exact ⟨hP.record w _ hw, rfl⟩

/-- Reading the logs of a container. -/
theorem logs_rule (id : String) (hcp : ε .calledProcess)
    (hraise : ∀ e done, env.outcome i = .raise e done → ε e) :
    Triple I P (logs env i id) (fun _ => P) fun e w => P w ∧ ε e := by
  refine of_see hP hI (fun w a es hw _ => hP.record w es hw) (fun w e hw hf => ?_) hraise
  split at hf
  · simp only [Except.error.injEq] at hf
    exact hf ▸ hcp
  · simp at hf

/-- The rule for a command that changes the containers. -/
theorem of_work {f : Docker → Docker} {Q : Docker → Prop} (hok : ∀ w, P w → I (f w) ∧ Q (f w))
    (hraise : ∀ e done, env.outcome i = .raise e done → ε e) :
    Triple I P (docker env i (work f)) (fun _ => Q) fun e w => (P w ∨ Q w) ∧ ε e := by
  refine of_docker hP.before hI (fun w hw => (hok w hw).1) (fun w _ hw _ => (hok w hw).2)
    (fun w e _ he => ?_) fun e done w ho hw => ⟨?_, hraise e done ho⟩
  · exact absurd he (by simp [work])
  · cases done with
    | true => exact .inr (hok w hw).2
    | false => exact .inl hw

/-- An inspection: what was found healthy is marked so, and a call that was not made to
fail fails on a missing container only. -/
theorem health_rule (id : String) :
    Triple I P (health env i id)
      (fun a w => P w ∧ (isHealthy a = true →
        ∃ k, w.container id = some k ∧ k.seen = true ∧ k.up = true))
      (fun e w => P w ∧ (w.container id = none ∨ ∃ done, env.outcome i = .raise e done)) := by
  have hact : ∀ w, P w → P (inspect id w).2 := by
    intro w hw
    cases hk : w.container id with
    | none => rwa [inspect_of_none hk]
    | some k =>
      rw [inspect_of_some hk]
      exact hP.record _ _ (hP.mark w id hw)
  refine of_docker hP.before hI (fun w hw => hI _ (hact w hw)) (fun w a hw ha => ⟨hact w hw, fun hh => ?_⟩)
    (fun w e hw he => ⟨hact w hw, .inl ?_⟩) fun e done w ho hw => ⟨?_, .inr ⟨done, ho⟩⟩
  · cases hk : w.container id with
    | none =>
      rw [inspect_of_none hk] at ha
      exact absurd ha (by simp)
    | some k =>
      rw [inspect_of_some hk] at ha ⊢
      obtain rfl : (k.status, k.health) = a := Except.ok.inj ha
      have hup : k.up = true := hh
      refine ⟨k.mark, ?_, ?_, hup⟩
      · rw [Docker.container_record, Docker.container_onIds, if_pos (by simp), hk]
        rfl
      · rw [Container.mark, hup, Bool.or_true]
  · cases hk : w.container id with
    | none => rwa [inspect_of_none hk]
    | some k =>
      rw [inspect_of_some hk] at he
      exact absurd he (by simp)
  · cases done with
    | true => exact hact w hw
    | false => exact hw

end Calls

/-- A poll over several containers: if all of them were found healthy, each of them was
marked so and is up, and stays so. -/
theorem healths_rule {env : ComposeEnv} {svc old : String} (hst : Steady env old)
    {I : Docker → Prop} (at_ : String → HandoffSite) (ids : List String) :
    ∀ {P : Docker → Prop}, Kept env P → (∀ w, P w → I w) → (∀ w, P w → Undrained svc w) →
      (∀ w, P w → ∀ id ∈ ids, ∀ k, w.container id = some k → k.service = svc) →
      Triple I P (healths env svc at_ ids)
        (fun ss w => P w ∧ (ss.all isHealthy = true → ∀ id ∈ ids, Serving svc id w))
        (fun _ w => P w) := by
  induction ids with
  | nil =>
    intro P _ _ _ _
    exact Triple.pure fun w _ hw => ⟨hw, fun _ id hid => absurd hid (List.not_mem_nil)⟩
  | cons c cs ih =>
    intro P hP hI hU hsvc
    unfold healths
    -- the later containers are polled in the worlds where this one, if up, serves
    have hP' : ∀ a, Kept env fun w => P w ∧ (isHealthy a = true → Serving svc c w) :=
      fun a => hP.and (kept_serving hst c).imp
    have hc := (health_rule (i := site svc (at_ c)) hP hI c).conseq
      (B := fun a w => P w ∧ (isHealthy a = true → Serving svc c w)) (F := fun _ w => P w)
      (fun _ _ h => h) (fun a w _ h => ⟨h.1, fun ha => ?_⟩) (fun _ _ _ h => h.1)
    · refine hc.bind fun a => ?_
      have hcs := ih (hP' a) (fun w h => hI w h.1) (fun w h => hU w h.1)
        (fun w h id hid => hsvc w h.1 id (List.mem_cons_of_mem _ hid))
      refine (hcs.except fun _ _ _ h => h.1).bind fun ss => Triple.pure fun w _ h => ⟨h.1.1, fun ha => ?_⟩
      rw [List.all_cons, Bool.and_eq_true] at ha
      exact List.forall_mem_cons.mpr ⟨h.1.2 ha.1, h.2 ha.2⟩
    · obtain ⟨k, hk, hseen, hup⟩ := h.2 ha
      refine ⟨k, hk, hsvc w h.1 c (by simp) k hk, hseen, serving_of_up hup ?_⟩
      by_contra hd
      rw [hU w h.1 c k hk (hsvc w h.1 c (by simp) k hk) (by simpa using hd)] at hup
      exact absurd hup (by simp)

/-! ### Who serves -/

/-- The old container `c` serves, no container is drained, and its healthcheck honours
the drain file if `honours` says so. -/
structure OldServes (svc c : String) (honours : Bool) (w : Docker) : Prop where
  serves : Serving svc c w
  undrained : Undrained svc w
  honours : ∀ k, w.container c = some k → k.drains = honours

/-- A new container serves. -/
def NewServes (svc c : String) (w : Docker) : Prop := ∃ n, n ≠ c ∧ Serving svc n w

section Phases

variable {env : ComposeEnv} {svc c : String} {honours : Bool}

theorem NewServes.served {w : Docker} (h : NewServes svc c w) : Served svc w :=
  h.elim fun _ hn => hn.2.served

theorem OldServes.served {w : Docker} (h : OldServes svc c honours w) : Served svc w :=
  h.serves.served

theorem kept_old (hst : Steady env c) : Kept env (OldServes svc c honours) := by
  have hk := ((@kept_serving env svc c hst c).and
    (@kept_undrained env svc c hst)).and
    (kept_known hst c fun _ d => d = honours)
  exact
    { before := fun i w h =>
        let ⟨⟨h₁, h₂⟩, h₃⟩ := hk.before i w ⟨⟨h.serves, h.undrained⟩, h.honours⟩
        ⟨h₁, h₂, h₃⟩
      record := fun w es h => ⟨h.serves, h.undrained, h.honours⟩
      mark := fun w id h =>
        let ⟨⟨h₁, h₂⟩, h₃⟩ := hk.mark w id ⟨⟨h.serves, h.undrained⟩, h.honours⟩
        ⟨h₁, h₂, h₃⟩ }

theorem kept_new (hst : Steady env c) : Kept env (NewServes svc c) :=
  Kept.exists_ fun n => Kept.const.and (kept_serving hst n)

/-- A change that leaves a container alone leaves it serving. -/
theorem Serving.of_container {w w' : Docker} {id : String} (h : Serving svc id w)
    (heq : w'.container id = w.container id) : Serving svc id w' := by
  obtain ⟨k, hk, hrest⟩ := h
  exact ⟨k, heq.trans hk, hrest⟩

theorem container_onIds_of_not_mem {w : Docker} {ids : List String} {f : Container → Container}
    {id : String} (h : id ∉ ids) : (w.onIds ids f).container id = w.container id := if_neg h

theorem container_remove_of_not_mem {w : Docker} {ids : List String} {id : String}
    (h : id ∉ ids) : (w.remove ids).container id = w.container id := if_neg h

theorem NewServes.of_ne {w w' : Docker} (h : NewServes svc c w)
    (heq : ∀ n, n ≠ c → w'.container n = w.container n) : NewServes svc c w' := by
  obtain ⟨n, hn, hs⟩ := h
  exact ⟨n, hn, hs.of_container (heq n hn)⟩

/-- Stopping other containers leaves the old one serving. -/
theorem OldServes.stop {w : Docker} {ids : List String} (h : OldServes svc c honours w)
    (hc : c ∉ ids) : OldServes svc c honours (w.onIds ids Container.exit) where
  serves := h.serves.of_container (container_onIds_of_not_mem hc)
  undrained id k hk hsvc hd := by
    rw [Docker.container_onIds] at hk
    split_ifs at hk with hid
    · obtain ⟨k', -, rfl⟩ := Option.map_eq_some_iff.mp hk
      simp [Container.exit, Container.up]
    · exact h.undrained id k hk hsvc hd
  honours k hk := h.honours k (by rwa [container_onIds_of_not_mem hc] at hk)

/-- Removing other containers leaves the old one serving. -/
theorem OldServes.remove {w : Docker} {ids : List String} (h : OldServes svc c honours w)
    (hc : c ∉ ids) : OldServes svc c honours (w.remove ids) where
  serves := h.serves.of_container (container_remove_of_not_mem hc)
  undrained id k hk hsvc hd := by
    rw [Docker.container_remove] at hk
    split_ifs at hk
    exact h.undrained id k hk hsvc hd
  honours k hk := h.honours k (by rwa [container_remove_of_not_mem hc] at hk)

/-- A scale-up leaves the old container serving: it neither restarts it nor takes its
place. -/
theorem OldServes.scale {w : Docker} (h : OldServes svc c honours w) (ids : List String) :
    OldServes svc c honours
      ((w.onIds ids Container.start).createAll (newContainers env svc (env.scaled svc))) := by
  have hold : ∀ id k, w.container id = some k → k.up = true →
      (w.onIds ids Container.start).container id = some k := by
    intro id k hk hup
    rw [Docker.container_onIds]
    split_ifs
    · rw [hk, Option.map_some, start_of_up hup]
    · exact hk
  obtain ⟨k, hk, hsvc, hseen, hs⟩ := h.serves
  have hc := Docker.createAll_of_some (newContainers env svc (env.scaled svc))
    (hold c k hk (up_of_serving hs))
  refine ⟨⟨k, hc, hsvc, hseen, hs⟩, fun id k' hk' hsvc' hd => ?_, fun k' hk' => ?_⟩
  · rcases Docker.of_createAll _ hk' with hk' | hk'
    · rw [Docker.container_onIds] at hk'
      split_ifs at hk'
      · obtain ⟨k₁, hk₁, rfl⟩ := Option.map_eq_some_iff.mp hk'
        by_contra hup
        have heq := up_start (by simpa using hup)
        rw [heq] at hup hd hsvc'
        exact hup (h.undrained id k₁ hk₁ hsvc' hd)
      · exact h.undrained id k' hk' hsvc' hd
    · obtain ⟨k₁, -, rfl⟩ := List.mem_map.mp hk'
      exact absurd hd (by simp)
  · obtain rfl : k = k' := Option.some_inj.mp (hc.symm.trans hk')
    exact h.honours k hk

/-! ### Aborting -/

section Abort

variable {ε : Fault → Prop} {at_ : AbortSite → HandoffSite} (hcp : ε .calledProcess)
  (hraise : ∀ a e done, env.outcome (site svc (at_ a)) = .raise e done → ε e)

include hcp hraise

theorem abortLogs_rule {I P : Docker → Prop} (hP : Kept env P) (hI : ∀ w, P w → I w)
    (ids : List String) :
    Triple I P (abortLogs env svc at_ ids) (fun _ => P) fun e w => P w ∧ ε e := by
  induction ids with
  | nil => exact Triple.pure fun _ _ hw => hw
  | cons i ids ih =>
    unfold abortLogs
    refine Triple.bind (Q := fun _ => P) ?_ fun _ => ih
    refine Triple.tryCatch (logs_rule hP hI i hcp fun e done ho => hraise _ e done ho) fun e => ?_
    show Triple _ _ (if _ then _ else _) _ _
    split_ifs
    · exact Triple.pure fun _ _ hw => hw.1
    · exact Triple.throw fun _ _ hw => hw

/-- An abort that is not told to remove the old container leaves it serving. -/
theorem abort_rule (hst : Steady env c) {new : List String} (hc : c ∉ new) :
    Triple (Served svc) (OldServes svc c honours) (abort env svc at_ new)
      (fun b w => b = false ∧ OldServes svc c honours w)
      fun e w => OldServes svc c honours w ∧ ε e := by
  have hK : Kept env (OldServes svc c honours) := kept_old hst
  have hI : ∀ w, OldServes svc c honours w → Served svc w := fun w h => h.served
  unfold abort
  refine (abortLogs_rule hcp hraise hK hI new).bind fun _ => ?_
  show Triple _ _ (if _ then _ else _) _ _
  split_ifs
  · exact Triple.pure fun _ _ hw => ⟨rfl, hw⟩
  · have hstop := of_work (i := site svc (at_ .stopNew)) (ε := ε) hK hI
      (f := fun w => (w.onIds new Container.exit).record [.stopped new])
      (Q := OldServes svc c honours)
      (fun w hw => ⟨(hK.record _ _ (hw.stop hc)).served, hK.record _ _ (hw.stop hc)⟩)
      fun e done ho => hraise _ e done ho
    have hrm := of_work (i := site svc (at_ .rmNew)) (ε := ε) hK hI
      (f := fun w => (w.remove new).record [.removed new]) (Q := OldServes svc c honours)
      (fun w hw => ⟨(hK.record _ _ (hw.remove hc)).served, hK.record _ _ (hw.remove hc)⟩)
      fun e done ho => hraise _ e done ho
    refine (hstop.except fun _ _ _ h => ⟨h.1.elim id id, h.2⟩).bind fun _ => ?_
    refine (hrm.except fun _ _ _ h => ⟨h.1.elim id id, h.2⟩).bind fun _ => ?_
    exact Triple.pure fun _ _ hw => ⟨rfl, hw⟩

end Abort

/-! ### Draining and retiring the old container -/

/-- The condition under which a handoff is safe.  If the old container honours the
drain file, no call fails between the making of the file and the stop of the container:
the `touch` may fail without having made it, or as `_drain` expects; the polls do not
fail, nor does the stop, unless it has stopped the container all the same.  And the
cleanup's calls fail with a `CalledProcessError` only. -/
structure Spared (env : ComposeEnv) (svc c : String) (honours : Bool) : Prop where
  touch : honours = true → ∀ e, env.outcome (site svc (.touch c)) = .raise e true →
    e = .calledProcess
  polls : honours = true → ∀ k ≤ env.drainPolls svc,
    env.outcome (site svc (.drainHealth k c)) = .ok
  stop : honours = true → ∀ e, env.outcome (site svc .stopOld) ≠ .raise e false
  running : ∀ id e done, env.outcome (site svc (.cleanupRunning id)) = .raise e done →
    e = .calledProcess
  list : ∀ e done, env.outcome (site svc .cleanupList) = .raise e done → e = .calledProcess
  abort : ∀ a e done, env.outcome (site svc (.cleanupAbort a)) = .raise e done →
    e = .calledProcess

/-- While the old container still serves, a new one does too. -/
def BothServe (svc c : String) (honours : Bool) (w : Docker) : Prop :=
  OldServes svc c honours w ∧ NewServes svc c w

/-- The drain file may have been made, and a new container serves. -/
def Draining (svc c : String) (honours : Bool) (w : Docker) : Prop :=
  honours = true ∧ NewServes svc c w

/-- What the making of the drain file leaves, `t` being the containers to wait for. -/
def Targeted (svc c : String) (honours : Bool) (t : List String) (w : Docker) : Prop :=
  BothServe svc c honours w ∧ t = [] ∨ Draining svc c honours w ∧ (t = [] ∨ t = [c])

/-- The old container is not running, and a new one serves. -/
def Retired (svc c : String) (w : Docker) : Prop := Down c w ∧ NewServes svc c w

theorem NewServes.onOld {w : Docker} {f : Container → Container} (h : NewServes svc c w) :
    NewServes svc c (w.onIds [c] f) :=
  h.of_ne fun _ hn => container_onIds_of_not_mem (by simpa using hn)

theorem retired_stop {w : Docker} (h : NewServes svc c w) :
    Retired svc c ((w.onIds [c] Container.exit).record [.stopped [c]]) := by
  refine ⟨fun k hk => ?_, h.onOld⟩
  rw [Docker.container_record, Docker.container_onIds, if_pos (by simp)] at hk
  obtain ⟨k', -, rfl⟩ := Option.map_eq_some_iff.mp hk
  simp [Container.exit]

theorem retired_remove {w : Docker} (h : Retired svc c w) :
    Retired svc c ((w.remove [c]).record [.removed [c]]) := by
  refine ⟨fun k hk => ?_, h.2.of_ne fun n hn => container_remove_of_not_mem (by simpa using hn)⟩
  rw [Docker.container_record, Docker.container_remove, if_pos (by simp)] at hk
  exact absurd hk (by simp)

section Drain

variable (hst : Steady env c) (hsp : Spared env svc c honours)

include hst hsp

theorem drainOne_rule :
    Triple (Served svc) (BothServe svc c honours) (drainOne env svc c)
      (Targeted svc c honours) fun _ => BothServe svc c honours := by
  have hK : Kept env (BothServe svc c honours) := (kept_old hst).and (kept_new hst)
  have hI : ∀ w, BothServe svc c honours w → Served svc w := fun w h => h.2.served
  unfold drainOne
  -- an exception of the `touch` that `_drain` does not expect means that no file was made
  refine Triple.tryCatch (E := fun e w => BothServe svc c honours w ∨
    Draining svc c honours w ∧ e = .calledProcess) ?_ fun e => ?_
  · have hdrains := of_see (ε := fun _ => True) (i := site svc (.drains c)) hK hI
      (f := drainsSeen c)
      (Q := fun b w => (b = true → honours = true) ∧ BothServe svc c honours w)
      (fun w b es hw hf => ⟨fun hb => ?_, hK.record w es hw⟩) (fun _ _ _ _ => trivial)
      fun _ _ _ => trivial
    · refine (hdrains.except fun _ _ _ h => .inl h.1).bind fun b => Triple.of_fact fun hb => ?_
      show Triple _ _ (if _ then _ else _) _ _
      split_ifs with hbt
      · have hh := hb hbt
        refine Triple.bind (Q := fun _ => Draining svc c honours) ?_ fun _ =>
          Triple.pure fun _ _ hw => .inr ⟨hw, .inr rfl⟩
        refine of_docker hK.before hI (fun w hw => hw.2.onOld.served)
          (fun w _ hw _ => ⟨hh, hw.2.onOld⟩) (fun w e _ he => absurd he (by simp [work]))
          fun e done w ho hw => ?_
        cases done with
        | true => exact .inr ⟨⟨hh, hw.2.onOld⟩, hsp.touch hh e ho⟩
        | false => exact .inl hw
      · exact Triple.pure fun _ _ hw => .inl ⟨hw, rfl⟩
    · obtain ⟨k, hk, -⟩ := hw.1.serves
      rw [drainsSeen, hk] at hf
      obtain ⟨rfl, -⟩ := Prod.mk.inj (Except.ok.inj hf)
      exact (hw.1.honours k hk) ▸ hb
  · show Triple _ _ (if _ then _ else _) _ _
    split_ifs with he
    · exact Triple.pure fun _ _ hw => hw.imp (⟨·, rfl⟩) fun h => ⟨h.1, .inl rfl⟩
    · exact Triple.throw fun _ _ hw => hw.elim id fun h => absurd h.2 he

theorem drainTargets_rule :
    Triple (Served svc) (BothServe svc c honours) (drainTargets env svc [c])
      (Targeted svc c honours) fun _ => BothServe svc c honours := by
  unfold drainTargets drainTargets
  refine (drainOne_rule hst hsp).bind fun t => ?_
  refine Triple.bind (Q := fun ts w => ts = [] ∧ Targeted svc c honours t w)
    (Triple.pure fun _ _ hw => ⟨rfl, hw⟩) fun ts => ?_
  refine Triple.of_fact fun hts => Triple.pure fun _ _ hw => ?_
  rwa [hts, List.append_nil]

/-- A poll of the draining container does not fail, unless the container is gone. -/
theorem drainPoll_rule (hh : honours = true) {k : ℕ} (hk : k ≤ env.drainPolls svc) :
    Triple (Served svc) (NewServes svc c) (healths env svc (.drainHealth k) [c])
      (fun _ => NewServes svc c) fun _ => Retired svc c := by
  unfold healths healths
  have hc := (health_rule (i := site svc (.drainHealth k c)) (kept_new hst)
    (fun _ h => h.served) c).conseq (A := NewServes svc c) (B := fun _ => NewServes svc c)
    (F := fun _ => Retired svc c) (fun _ _ h => h) (fun _ _ _ h => h.1) fun e w _ h => ?_
  · refine hc.bind fun a => ?_
    exact Triple.bind (Q := fun _ => NewServes svc c) (Triple.pure fun _ _ hw => hw) fun _ =>
      Triple.pure fun _ _ hw => hw
  · rcases h.2 with hn | ⟨done, ho⟩
    · refine ⟨fun k' hk' => ?_, h.1⟩
      rw [hn] at hk'
      exact absurd hk' (by simp)
    · rw [hsp.polls hh k hk] at ho
      exact absurd ho (by simp)

/-- The polls of the draining container end well, or find it gone. -/
theorem waitDrained_rule (hh : honours = true) (n : ℕ) :
    ∀ k, k + n = env.drainPolls svc →
      Triple (Served svc) (NewServes svc c) (waitDrained env svc [c] n k)
        (fun _ => NewServes svc c) fun _ => Retired svc c := by
  induction n with
  | zero =>
    intro k hk
    unfold waitDrained
    refine (drainPoll_rule hst hsp hh (by omega)).bind fun states => ?_
    show Triple _ _ (if _ then _ else _) _ _
    split_ifs
    · exact Triple.pure fun _ _ hw => hw
    · exact Triple.pure fun _ _ hw => hw
  | succ n ih =>
    intro k hk
    unfold waitDrained
    refine (drainPoll_rule hst hsp hh (by omega)).bind fun states => ?_
    show Triple _ _ (if _ then _ else _) _ _
    split_ifs
    · exact Triple.pure fun _ _ hw => hw
    · exact ih (k + 1) (by omega)

theorem drain_rule :
    Triple (Served svc) (BothServe svc c honours) (drain env svc [c])
      (fun _ w => BothServe svc c honours w ∨ Draining svc c honours w)
      fun _ w => BothServe svc c honours w ∨ Retired svc c w := by
  unfold drain
  refine ((drainTargets_rule hst hsp).except fun _ _ _ h => .inl h).bind fun t => ?_
  show Triple _ _ (if _ then _ else _) _ _
  split_ifs with ht
  · exact Triple.pure fun _ _ hw => hw.imp And.left And.left
  · refine Triple.weaken (P := fun w => honours = true ∧ t = [c] ∧ NewServes svc c w) ?_ ?_
    · refine Triple.of_fact fun hh => Triple.of_fact fun htc => ?_
      rw [htc]
      exact (waitDrained_rule hst hsp hh _ 0 (by omega)).conseq (fun _ _ h => h)
        (fun _ _ _ h => .inr ⟨hh, h⟩) fun _ _ _ h => .inr h
    · rintro w - (⟨-, h⟩ | ⟨h, htc⟩)
      · exact absurd h ht
      · exact ⟨h.1, htc.resolve_left ht, h.2⟩

/-- Once a new container serves, the old one is drained, stopped and removed; if that
fails, either the old container still serves undrained or it is not running. -/
theorem retire_rule :
    Triple (Served svc) (BothServe svc c honours) (retire env svc [c])
      (fun _ => NewServes svc c)
      fun _ w => OldServes svc c honours w ∨ Retired svc c w := by
  have hI : ∀ {w}, NewServes svc c w → Served svc w := fun h => h.served
  have hK : Kept env fun w => BothServe svc c honours w ∨ Draining svc c honours w :=
    ((kept_old hst).and (kept_new hst)).or (Kept.const.and (kept_new hst))
  have hR : Kept env (Retired svc c) := (kept_down hst).and (kept_new hst)
  have hnew : ∀ {w}, BothServe svc c honours w ∨ Draining svc c honours w → NewServes svc c w :=
    fun h => h.elim And.right And.right
  unfold retire
  refine ((drain_rule hst hsp).except fun _ _ _ h => h.imp_left And.left).bind fun _ => ?_
  refine Triple.bind (Q := fun _ => Retired svc c) ?_ fun _ => Triple.bind (Q := fun _ => Retired svc c)
    ?_ fun _ => Triple.pure fun _ _ hw => hw.2
  · refine of_docker hK.before (fun w hw => hI (hnew hw))
      (fun w hw => hI (retired_stop (hnew hw)).2) (fun w _ hw _ => retired_stop (hnew hw))
      (fun w e _ he => absurd he (by simp [work])) fun e done w ho hw => ?_
    cases done with
    | true => exact .inr (retired_stop (hnew hw))
    | false =>
      rcases hw with hw | hw
      · exact .inl hw.1
      · exact absurd ho (hsp.stop hw.1 e)
  · have hrm := of_work (ε := fun _ => True) (i := site svc .rmOld) hR (fun w hw => hI hw.2)
      (f := fun w => (w.remove [c]).record [.removed [c]]) (Q := Retired svc c)
      (fun w hw => ⟨hI (retired_remove hw).2, retired_remove hw⟩) fun _ _ _ => trivial
    exact hrm.except fun _ _ _ h => .inr (h.1.elim id id)

end Drain

/-! ### The handoff -/

section Handoff

variable (hst : Steady env c)

/-- The containers `new`, where they exist, are of the service. -/
def OfService (svc : String) (new : List String) (w : Docker) : Prop :=
  ∀ id, id ∈ new → ∀ k, w.container id = some k → k.service = svc

include hst

theorem kept_ofService (new : List String) : Kept env (OfService svc new) :=
  Kept.forall_ fun id => Kept.forall_ fun _ => kept_known hst id fun s _ => s = svc

/-- When the wait ends with `true`, every new container serves. -/
theorem waitHealthy_rule (new : List String) (n : ℕ) :
    ∀ k, Triple (Served svc) (fun w => OldServes svc c honours w ∧ OfService svc new w)
      (waitHealthy env svc new n k)
      (fun b w => OldServes svc c honours w ∧ (b = true → ∀ id ∈ new, Serving svc id w))
      fun _ => OldServes svc c honours := by
  have hpoll : ∀ k, Triple (Served svc)
      (fun w => OldServes svc c honours w ∧ OfService svc new w)
      (healths env svc (.health k) new)
      (fun ss w => (OldServes svc c honours w ∧ OfService svc new w) ∧
        (ss.all isHealthy = true → ∀ id ∈ new, Serving svc id w))
      fun _ => OldServes svc c honours := fun k =>
    (healths_rule hst (.health k) new ((kept_old hst).and (kept_ofService hst new))
      (fun _ h => h.1.served) (fun _ h => h.1.undrained) fun _ h => h.2).except fun _ _ _ h => h.1
  induction n with
  | zero =>
    intro k
    unfold waitHealthy
    refine (hpoll k).bind fun states => ?_
    show Triple _ _ (if _ then _ else (if _ then _ else _)) _ _
    split_ifs with hall
    · exact Triple.pure fun _ _ hw => ⟨hw.1.1, fun _ => hw.2 hall⟩
    · exact Triple.pure fun _ _ hw => ⟨hw.1.1, fun h => absurd h (by simp)⟩
    · exact Triple.pure fun _ _ hw => ⟨hw.1.1, fun h => absurd h (by simp)⟩
  | succ n ih =>
    intro k
    unfold waitHealthy
    refine (hpoll k).bind fun states => ?_
    show Triple _ _ (if _ then _ else (if _ then _ else _)) _ _
    split_ifs with hall
    · exact Triple.pure fun _ _ hw => ⟨hw.1.1, fun _ => hw.2 hall⟩
    · exact Triple.pure fun _ _ hw => ⟨hw.1.1, fun h => absurd h (by simp)⟩
    · exact (ih (k + 1)).weaken fun _ _ hw => hw.1

/-- A handoff that answers leaves a container serving; one that raises leaves the old
container serving undrained, or not running. -/
theorem handoff_rule (hsp : Spared env svc c honours) :
    Triple (Served svc) (OldServes svc c honours) (handoff env svc [c]) (fun _ => Served svc)
      fun _ w => OldServes svc c honours w ∨ Retired svc c w := by
  have hI : ∀ w, OldServes svc c honours w → Served svc w := fun w h => h.served
  have hK : Kept env (OldServes svc c honours) := kept_old hst
  have hnot : ∀ listed : List String, c ∉ listed.filter (· ∉ [c]) := by simp
  unfold handoff
  have hscale := of_work (ε := fun _ => True) (i := site svc .scaleUp) hK hI
    (f := fun w =>
      ((w.onIds ((env.started svc).filter (· ∈ w.ids svc true)) Container.start).createAll
        (newContainers env svc (env.scaled svc))).record [.created svc])
    (Q := OldServes svc c honours)
    (fun w hw => ⟨(hK.record _ _ (hw.scale _)).served, hK.record _ _ (hw.scale _)⟩)
    fun _ _ _ => trivial
  refine Triple.bind (Q := fun _ => OldServes svc c honours)
    (of_say fun w _ hw => ⟨hI _ (hK.record w _ hw), hK.record w _ hw⟩) fun _ => ?_
  refine (hscale.except fun _ _ _ h => .inl (h.1.elim id id)).bind fun _ => ?_
  have hps := (ps_rule (ε := fun _ => True) (i := site svc .listNew) hK hI svc true
    fun _ _ _ => trivial).conseq (fun _ _ h => h)
    (B := fun l w => OldServes svc c honours w ∧ OfService svc (l.filter (· ∉ [c])) w)
    (fun l w _ h => ⟨h.1, fun id hid k hk => ?_⟩)
    (F := fun _ w => OldServes svc c honours w ∨ Retired svc c w) fun _ _ _ h => .inl h.1
  · refine hps.bind fun listed => ?_
    show Triple _ _ (if _ then _ else _) _ _
    split_ifs with hlen
    · exact ((abort_rule (ε := fun _ => True) trivial (fun _ _ _ _ => trivial) hst
        (hnot listed)).conseq (fun _ _ h => h.1) (fun _ _ _ h => h.2.served)
        fun _ _ _ h => .inl h.1)
    · refine ((waitHealthy_rule hst _ _ 0).except fun _ _ _ h => .inl h).bind fun b => ?_
      show Triple _ _ (if _ then _ else _) _ _
      split_ifs with hb
      · -- as many new containers as old ones: there is one, and it is not the old one
        refine (retire_rule hst hsp).conseq (fun w _ h => ⟨h.1, ?_⟩) (fun _ _ _ h => h.served)
          fun _ _ _ h => h
        rw [ne_eq, not_not] at hlen
        obtain ⟨n, hn⟩ : ∃ n, n ∈ listed.filter (· ∉ [c]) :=
          List.exists_mem_of_length_pos (by rw [hlen]; simp)
        exact ⟨n, fun hnc => hnot listed (hnc ▸ hn), h.2 hb n hn⟩
      · exact ((abort_rule (ε := fun _ => True) trivial (fun _ _ _ _ => trivial) hst
          (hnot listed)).conseq (fun _ _ h => h.1) (fun _ _ _ h => h.2.served)
          fun _ _ _ h => .inl h.1)
  · have hl : id ∈ w.ids svc true := h.2 ▸ List.mem_of_mem_filter hid
    obtain ⟨k', hk', hsvc, -⟩ := Docker.mem_ids.mp hl
    obtain rfl : k' = k := Option.some_inj.mp (hk'.symm.trans hk)
    exact hsvc

/-- The cleanup finds the old container running only if it still serves. -/
theorem cleanup_rule (hsp : Spared env svc c honours) :
    Triple (Served svc) (fun w => OldServes svc c honours w ∨ Retired svc c w)
      (cleanup env svc [c]) (fun _ => Served svc)
      fun e w => e = .calledProcess ∧ Served svc w := by
  have hK : Kept env fun w => OldServes svc c honours w ∨ Retired svc c w :=
    (kept_old hst).or ((kept_down hst).and (kept_new hst))
  have hI : ∀ w, OldServes svc c honours w ∨ Retired svc c w → Served svc w :=
    fun w h => h.elim OldServes.served fun h => h.2.served
  have hnot : ∀ listed : List String, c ∉ listed.filter (· ∉ [c]) := by simp
  unfold cleanup anyRunning anyRunning
  refine Triple.bind (Q := fun b w => (b = true → OldServes svc c honours w) ∧ Served svc w) ?_
    fun b => ?_
  · have hps := ps_rule (ε := (· = .calledProcess)) (i := site svc (.cleanupRunning c)) hK hI svc
      false fun e done ho => hsp.running c e done ho
    refine (hps.except fun e w _ h => ⟨h.2, hI w h.1⟩).bind fun running => ?_
    show Triple _ _ (if _ then _ else _) _ _
    split_ifs with hr
    · refine Triple.pure fun w _ hw => ⟨fun _ => ?_, hI w hw.1⟩
      refine hw.1.resolve_right fun h => ?_
      obtain ⟨k, hk, -, hrun⟩ := Docker.mem_ids.mp (hw.2 ▸ hr)
      exact h.1 k hk (hrun.resolve_left (by simp))
    · exact Triple.pure fun w _ hw => ⟨fun h => absurd h (by simp), hI w hw.1⟩
  · show Triple _ _ (if _ then _ else _) _ _
    split_ifs with hb
    · have hps := ps_rule (ε := (· = .calledProcess)) (i := site svc .cleanupList)
        (P := OldServes svc c honours) (kept_old hst) (fun w h => h.served) svc true
        fun e done ho => hsp.list e done ho
      refine ((hps.weaken fun w _ h => h.1 hb).except fun e w _ h => ⟨h.2, h.1.served⟩).bind
        fun listed => ?_
      exact ((abort_rule (ε := (· = .calledProcess)) rfl
        (fun a e done ho => hsp.abort a e done ho) hst (hnot listed)).conseq (fun _ _ h => h.1)
        (fun _ _ _ h => h.2.served) fun _ _ _ h => ⟨h.2, h.1.served⟩)
    · exact Triple.pure fun _ _ hw => hw.2

theorem safe_handoff_rule (hsp : Spared env svc c honours) :
    Triple (Served svc) (OldServes svc c honours) (safe_handoff env svc [c])
      (fun _ => Served svc) fun _ _ => False := by
  unfold safe_handoff
  refine Triple.tryCatch (handoff_rule hst hsp) fun _ => ?_
  refine Triple.tryCatch (cleanup_rule hst hsp) fun e => Triple.of_fact fun he => ?_
  show Triple _ _ (if _ then _ else _) _ _
  rw [if_pos he]
  exact Triple.pure fun _ _ hw => hw

end Handoff

end Phases

/-! ### The service is served throughout -/

/-- In every handoff of a container that serves, some container of the service serves in
every state, and `safe_handoff` returns, provided that no call fails between the making
of the drain file and the stop of the old container and that the cleanup's calls fail as
it expects. -/
theorem safe_handoff_serves {env : ComposeEnv} {svc c : String} {k : Container} {w : Docker}
    (hk : w.container c = some k) (hsvc : k.service = svc) (hseen : k.seen = true)
    (hserving : k.serving = true) (hfresh : Undrained svc w) (hst : Steady env c)
    (hsp : Spared env svc c k.drains) :
    (∃ done, (outcomeOf (safe_handoff env svc [c]) w).1 = .ok done) ∧
      (∀ s ∈ (outcomeOf (safe_handoff env svc [c]) w).2.states, Served svc s) ∧
      ∀ s ∈ (outcomeOf (handoff env svc [c]) w).2.states, Served svc s := by
  have hold : OldServes svc c k.drains w := by
    refine ⟨⟨k, hk, hsvc, hseen, hserving⟩, hfresh, fun k' hk' => ?_⟩
    obtain rfl : k = k' := Option.some_inj.mp (hk.symm.trans hk')
    rfl
  have hsafe := (safe_handoff_rule hst hsp).of_start hold.served hold
  refine ⟨?_, hsafe.1, ((handoff_rule hst hsp).of_start hold.served hold).1⟩
  have hend := hsafe.2
  cases hr : outcomeOf (safe_handoff env svc [c]) w with
  | mk r t =>
    rw [hr] at hend
    cases r with
    | ok done => exact ⟨done, rfl⟩
    | error e => exact hend.elim

/-- An old container `a` of `web` that honours the drain file. -/
def webContainer : Container :=
  { service := "web", drains := true, health := .healthy, seen := true }

def webDocker : Docker where
  container := fun id => if id = "a" then some webContainer else none
  order := ["a"]
  state := none
  complete := by
    intro id h
    by_contra hn
    exact h (if_neg (by simpa using hn))

/-- A run in which the scale-up creates a healthy container, and the stop of the old
container does not end in time; `done` says whether the container stops all the same. -/
def slowStop (done : Bool) : ComposeEnv where
  outcome := fun i =>
    if i = site "web" .stopOld then .raise .timeoutExpired done else .ok
  scaled := fun _ => [{ service := "web", health := .healthy }]

theorem undrained_webDocker : Undrained "web" webDocker := by
  rintro id k hk - hd
  have hk : (if id = "a" then some webContainer else none) = some k := hk
  split_ifs at hk
  obtain rfl := Option.some_inj.mp hk
  exact absurd hd (by decide)

theorem slowStop_ok {done : Bool} {i : Site} (h : i ≠ site "web" .stopOld) :
    (slowStop done).outcome i = .ok := if_neg h

theorem safe_handoff_serves_slow_stop :
    (∃ done, (outcomeOf (safe_handoff (slowStop true) "web" ["a"]) webDocker).1 = .ok done) ∧
      (∀ s ∈ (outcomeOf (safe_handoff (slowStop true) "web" ["a"]) webDocker).2.states,
        Served "web" s) ∧
      ∀ s ∈ (outcomeOf (handoff (slowStop true) "web" ["a"]) webDocker).2.states,
        Served "web" s := by
  have hok : ∀ {i}, i ≠ site "web" .stopOld → ∀ e done, (slowStop true).outcome i ≠ .raise e done :=
    fun h e done => by rw [slowStop_ok h]; simp
  refine safe_handoff_serves (k := webContainer) rfl rfl rfl rfl undrained_webDocker
    (steady_of_idle fun _ _ => rfl)
    { touch := fun _ e h => absurd h (hok (by simp [site]) e true)
      polls := fun _ k _ => slowStop_ok (by simp [site])
      stop := fun _ e h => ?_
      running := fun id e done h => absurd h (hok (by simp [site]) e done)
      list := fun e done h => absurd h (hok (by simp [site]) e done)
      abort := fun a e done h => absurd h (hok (by simp [site]) e done) }
  have hstop : (slowStop true).outcome (site "web" .stopOld) = .raise .timeoutExpired true := rfl
  rw [hstop] at h
  exact absurd h (by simp)

/-- A run in which the scale-up fails, and the listing for the cleanup hangs. -/
def hungCleanup : ComposeEnv where
  outcome := fun i =>
    if i = site "web" .scaleUp then .raise .calledProcess false
    else if i = site "web" .cleanupList then .raise .timeoutExpired false
    else .ok

/-- When the old container is drained but not stopped in time, the cleanup removes the
healthy new one and nothing serves any more; and an exception of the cleanup other than
the one it catches gets out of `safe_handoff`. -/
theorem safe_handoff_outage :
    Served "web" webDocker ∧ Undrained "web" webDocker ∧ Steady (slowStop false) "a" ∧
      (outcomeOf (safe_handoff (slowStop false) "web" ["a"]) webDocker).1.toOption = some false ∧
      ¬ Served "web" (outcomeOf (safe_handoff (slowStop false) "web" ["a"]) webDocker).2.now ∧
      Steady hungCleanup "a" ∧
      (outcomeOf (safe_handoff hungCleanup "web" ["a"]) webDocker).1.toOption = none :=
  ⟨by decide +kernel, undrained_webDocker, steady_of_idle fun _ _ => rfl, by decide +kernel,
    by decide +kernel, steady_of_idle fun _ _ => rfl, by decide +kernel⟩

end Compose
