/-
The order of events in a run of compose-reload.

An old container is stopped or removed only after a poll that found as many new
containers as old ones running and healthy, and nothing of the stack is recreated in
place, nor the state recorded, unless every handoff has succeeded.  This holds whatever
the containers do between the calls: it is read off the log, stretch by stretch.

* `Guarded` — the order of the events of one handoff;
* `safe_handoff_log` — the log of a handoff, however it ends;
* `Ordered`, `AllHanded` — the order of the events of a run;
* `reload_order` — the log of a run.
-/
import KrgInfra.ReloadPlan

namespace Compose

/-! ### Logs -/

/-- An answer of the daemon. -/
def Event.quiet : Event → Bool
  | .listed _ _ => true
  | .health _ _ _ => true
  | _ => false

/-- An event of a handoff, apart from its beginning. -/
def Event.inner : Event → Bool
  | .created _ => true
  | .stopped _ => true
  | .removed _ => true
  | e => e.quiet

/-- The beginning of a handoff, or its answer. -/
def Event.hand : Event → Bool
  | .handing _ _ => true
  | .handed _ _ => true
  | _ => false

/-- What a run does only when every handoff has succeeded. -/
def Event.final : Event → Bool
  | .up => true
  | .saved => true
  | .forceRecreated _ => true
  | _ => false

/-- An inspection that found a container running and healthy. -/
def healthy (id : String) : Event := .health id .running .healthy

theorem Event.taken_of_quiet {e : Event} (h : e.quiet = true) : e.taken = [] := by
  cases e <;> simp_all [Event.quiet, Event.taken]

theorem Event.makes_of_quiet {e : Event} (h : e.quiet = true) : e.makes = [] := by
  cases e <;> simp_all [Event.quiet, Event.makes]

theorem Event.inner_of_quiet {e : Event} (h : e.quiet = true) : e.inner = true := by
  cases e <;> simp_all [Event.quiet, Event.inner]

theorem Event.hand_of_inner {e : Event} (h : e.inner = true) : e.hand = false := by
  cases e <;> simp_all [Event.quiet, Event.inner, Event.hand]

theorem Event.final_of_inner {e : Event} (h : e.inner = true) : e.final = false := by
  cases e <;> simp_all [Event.quiet, Event.inner, Event.final]

/-- All events of a log are quiet. -/
def Quiet (L : List Event) : Prop := ∀ e ∈ L, e.quiet = true

/-- No event of the log takes one of the containers `old` down. -/
def Harmless (old : List String) (L : List Event) : Prop :=
  ∀ e ∈ L, ∀ id ∈ old, id ∉ e.taken

/-- A listing of the service, and later one poll that found the listed containers other
than `old` running and healthy, as many as `old` has. -/
def SeenHealthy (svc : String) (old : List String) (L : List Event) : Prop :=
  ∃ A listed B C, L = A ++ .listed svc listed :: B ++ (listed.filter (· ∉ old)).map healthy ++ C ∧
    (listed.filter (· ∉ old)).length = old.length

/-- The containers `old` are taken down together, and only after such a poll. -/
def Guarded (svc : String) (old : List String) (L : List Event) : Prop :=
  ∀ A e B, L = A ++ e :: B → ∀ id ∈ old, id ∈ e.taken → e.taken = old ∧ SeenHealthy svc old A

section Logs

variable {svc : String} {old : List String} {L L' : List Event}

theorem Quiet.harmless (h : Quiet L) : Harmless old L := by
  intro e he id _ hid
  rw [Event.taken_of_quiet (h e he)] at hid
  exact absurd hid List.not_mem_nil

theorem Quiet.append (h : Quiet L) (h' : Quiet L') : Quiet (L ++ L') :=
  List.forall_mem_append.mpr ⟨h, h'⟩

theorem Harmless.append (h : Harmless old L) (h' : Harmless old L') : Harmless old (L ++ L') :=
  List.forall_mem_append.mpr ⟨h, h'⟩

theorem SeenHealthy.append (h : SeenHealthy svc old L) (L' : List Event) :
    SeenHealthy svc old (L ++ L') := by
  obtain ⟨A, listed, B, C, rfl, hlen⟩ := h
  exact ⟨A, listed, B, C ++ L', by simp, hlen⟩

theorem Harmless.guarded (h : Harmless old L) : Guarded svc old L := by
  rintro A e B rfl id hid hmem
  exact absurd hmem (h e (by simp) id hid)

/-- An event of `L ++ L'` is one of `L`, or one of `L'` and all of `L` is before it. -/
theorem split_append {A B : List Event} {e : Event} (h : L ++ L' = A ++ e :: B) :
    (∃ B', L = A ++ e :: B' ∧ B = B' ++ L') ∨ ∃ A', A = L ++ A' ∧ L' = A' ++ e :: B := by
  rcases List.append_eq_append_iff.mp h with ⟨A', hA, hL'⟩ | ⟨B', hL, hB⟩
  · exact .inr ⟨A', hA, hL'⟩
  · cases B' with
    | nil => exact .inr ⟨[], by simpa using hL.symm, by simpa using hB.symm⟩
    | cons x B' =>
      obtain ⟨rfl, hB'⟩ := List.cons.inj hB
      exact .inl ⟨B', hL, hB'⟩

theorem Guarded.append (h : Guarded svc old L) (h' : Harmless old L') :
    Guarded svc old (L ++ L') := by
  intro A e B heq id hid hmem
  rcases split_append heq with ⟨B', hL, -⟩ | ⟨A', -, hL'⟩
  · exact h A e B' hL id hid hmem
  · exact absurd hmem (h' e (by rw [hL']; simp) id hid)

/-- After such a poll the old containers may be taken down. -/
theorem Guarded.append_old (h : Guarded svc old L) (hseen : SeenHealthy svc old L)
    (h' : ∀ e ∈ L', e.taken = old ∨ e.taken = []) : Guarded svc old (L ++ L') := by
  intro A e B heq id hid hmem
  rcases split_append heq with ⟨B', hL, -⟩ | ⟨A', rfl, hL'⟩
  · exact h A e B' hL id hid hmem
  · rcases h' e (by rw [hL']; simp) with ht | ht
    · exact ⟨ht, hseen.append A'⟩
    · rw [ht] at hmem
      exact absurd hmem List.not_mem_nil

end Logs

/-! ### The log of a program -/

/-- The log is `base`, and then a log with `R`. -/
def Adds (base : List Event) (R : List Event → Prop) (w : Docker) : Prop :=
  ∃ M, w.log = base ++ M ∧ R M

/-- A log with `R`, and then `es`. -/
def After (R : List Event → Prop) (es M : List Event) : Prop := ∃ M₀, R M₀ ∧ M = M₀ ++ es

/-- A log with `R`, and then quiet events. -/
def Ext (R : List Event → Prop) (M : List Event) : Prop := ∃ es, Quiet es ∧ After R es M

/-- `R` holds on after events of a handoff that create nothing and take down none but the
containers `ids`. -/
def ClosedUnder (ids : List String) (R : List Event → Prop) : Prop :=
  ∀ M es, R M → (∀ e ∈ es, e.inner = true ∧ e.makes = [] ∧ ∀ id ∈ e.taken, id ∈ ids) →
    R (M ++ es)

theorem Adds.mono {base : List Event} {R R' : List Event → Prop} {w : Docker}
    (h : Adds base R w) (hR : ∀ M, R M → R' M) : Adds base R' w :=
  h.imp fun M hM => ⟨hM.1, hR M hM.2⟩

theorem Ext.of {R : List Event → Prop} {M : List Event} (h : R M) : Ext R M :=
  ⟨[], fun _ he => absurd he List.not_mem_nil, M, h, by simp⟩

theorem ClosedUnder.ext {ids : List String} {R : List Event → Prop} (hR : ClosedUnder ids R)
    {M : List Event} (h : Ext R M) : R M := by
  obtain ⟨es, hes, M₀, h₀, rfl⟩ := h
  refine hR M₀ es h₀ fun e he =>
    ⟨Event.inner_of_quiet (hes e he), Event.makes_of_quiet (hes e he), fun id hid => ?_⟩
  rw [Event.taken_of_quiet (hes e he)] at hid
  exact absurd hid List.not_mem_nil

section Programs

variable {env : ComposeEnv} {base : List Event} {R : List Event → Prop} {i : Site}

/-- The rule for one call, read off what it writes to the log. -/
theorem of_adds {α : Type} {act : Work Fault Docker α} {Q : α → List Event → Prop}
    {E : List Event → Prop}
    (hlog : ∀ w, ∃ es, (act w).2.log = w.log ++ es ∧
      (∀ a M, (act w).1 = .ok a → R M → Q a (M ++ es)) ∧ ∀ M, R M → E (M ++ es))
    (hE : ∀ M, R M → E M) :
    Triple (fun _ => True) (Adds base R) (docker env i act) (fun a => Adds base (Q a))
      fun _ => Adds base E := by
  refine of_docker (fun _ _ h => h) (fun _ _ => trivial) (fun _ _ => trivial) ?_ ?_ ?_
  · rintro w a ⟨M, hM, hR⟩ ha
    obtain ⟨es, hes, hQ, -⟩ := hlog w
    exact ⟨M ++ es, by rw [hes, hM, List.append_assoc], hQ a M ha hR⟩
  · rintro w e ⟨M, hM, hR⟩ -
    obtain ⟨es, hes, -, hE⟩ := hlog w
    exact ⟨M ++ es, by rw [hes, hM, List.append_assoc], hE M hR⟩
  · rintro e done w - ⟨M, hM, hR⟩
    cases done with
    | true =>
      obtain ⟨es, hes, -, hE⟩ := hlog w
      exact ⟨M ++ es, by rw [if_pos rfl, hes, hM, List.append_assoc], hE M hR⟩
    | false => exact ⟨M, hM, hE M hR⟩

/-- The rule for a call that reads. -/
theorem see_log {α : Type} {f : Docker → Except Fault (α × List Event)}
    {Q : α → List Event → Prop}
    (hf : ∀ w a es, f w = .ok (a, es) → Quiet es ∧ ∀ M, R M → Q a (M ++ es)) :
    Triple (fun _ => True) (Adds base R) (docker env i (see f)) (fun a => Adds base (Q a))
      fun _ => Adds base (Ext R) := by
  refine of_adds (fun w => ?_) fun _ => Ext.of
  unfold see
  cases hw : f w with
  | ok r =>
    obtain ⟨hq, hQ⟩ := hf w r.1 r.2 hw
    refine ⟨r.2, rfl, fun a M ha hM => ?_, fun M hM => ⟨r.2, hq, M, hM, rfl⟩⟩
    obtain rfl : r.1 = a := Except.ok.inj ha
    exact hQ M hM
  | error e =>
    exact ⟨[], by simp, fun a M ha _ => absurd ha (by simp), fun M hM => by simpa using Ext.of hM⟩

/-- The rule for a command, from the one thing it writes to the log. -/
theorem work_log {f : Docker → Docker} {es : List Event} (hf : ∀ w, (f w).log = w.log ++ es) :
    Triple (fun _ => True) (Adds base R) (docker env i (work f))
      (fun _ => Adds base (After R es)) fun _ => Adds base fun M => R M ∨ After R es M :=
  of_adds (fun w => ⟨es, hf w, fun _ M _ hM => ⟨M, hM, rfl⟩, fun M hM => .inr ⟨M, hM, rfl⟩⟩)
    fun _ hM => .inl hM

theorem ps_log (svc : String) (all : Bool) :
    Triple (fun _ => True) (Adds base R) (ps env i svc all)
      (fun l => Adds base (After R [.listed svc l])) fun _ => Adds base (Ext R) := by
  refine see_log fun w a es hf => ?_
  obtain ⟨rfl, rfl⟩ := Prod.mk.inj (Except.ok.inj hf)
  exact ⟨by simp [Quiet, Event.quiet], fun M hM => ⟨M, hM, rfl⟩⟩

/-- A call that reads without being noted. -/
theorem peek_log {α : Type} {f : Docker → Except Fault (α × List Event)}
    (hf : ∀ w a es, f w = .ok (a, es) → es = []) :
    Triple (fun _ => True) (Adds base R) (docker env i (see f)) (fun _ => Adds base R)
      fun _ => Adds base (Ext R) := by
  refine see_log fun w a es hw => ?_
  rw [hf w a es hw]
  exact ⟨fun _ he => absurd he List.not_mem_nil, fun M hM => by simpa using hM⟩

theorem health_log (id : String) :
    Triple (fun _ => True) (Adds base R) (health env i id)
      (fun s => Adds base (After R [.health id s.1 s.2])) fun _ => Adds base (Ext R) := by
  refine of_adds (fun w => ?_) fun _ => Ext.of
  cases hk : w.container id with
  | none =>
    rw [inspect_of_none hk]
    exact ⟨[], by simp, fun a M ha _ => absurd ha (by simp), fun M hM => by simpa using Ext.of hM⟩
  | some k =>
    rw [inspect_of_some hk]
    refine ⟨[.health id k.status k.health], rfl, fun a M ha hM => ?_, fun M hM => ?_⟩
    · obtain rfl : (k.status, k.health) = a := Except.ok.inj ha
      exact ⟨M, hM, rfl⟩
    · exact ⟨_, by simp [Quiet, Event.quiet], M, hM, rfl⟩

/-- What a poll of the containers `ids` writes to the log. -/
def pollEvents (ids : List String) (ss : List (Status × Health)) : List Event :=
  List.zipWith (fun id s => .health id s.1 s.2) ids ss

theorem quiet_pollEvents (ids : List String) : ∀ ss, Quiet (pollEvents ids ss) := by
  induction ids with
  | nil => exact fun _ _ he => absurd he List.not_mem_nil
  | cons id ids ih =>
    intro ss
    cases ss with
    | nil => exact fun _ he => absurd he List.not_mem_nil
    | cons s ss => exact List.forall_mem_cons.mpr ⟨rfl, ih ss⟩

/-- A poll in which all were running and healthy. -/
theorem pollEvents_of_healthy (ids : List String) :
    ∀ ss, ss.length = ids.length → ss.all isHealthy = true →
      pollEvents ids ss = ids.map healthy := by
  induction ids with
  | nil => exact fun _ _ _ => rfl
  | cons id ids ih =>
    intro ss hlen hall
    cases ss with
    | nil => exact absurd hlen (by simp)
    | cons s ss =>
      rw [List.all_cons, Bool.and_eq_true] at hall
      obtain ⟨h₁, h₂⟩ := hall
      rw [isHealthy, Bool.and_eq_true, decide_eq_true_eq, decide_eq_true_eq] at h₁
      have ht := ih ss (by simpa using hlen) h₂
      unfold pollEvents at ht ⊢
      rw [List.zipWith_cons_cons, List.map_cons, ht, h₁.1, h₁.2]
      rfl

theorem healths_log (svc : String) (at_ : String → HandoffSite) (ids : List String) :
    ∀ R, Triple (fun _ => True) (Adds base R) (healths env svc at_ ids)
      (fun ss w => ss.length = ids.length ∧ Adds base (After R (pollEvents ids ss)) w)
      fun _ => Adds base (Ext R) := by
  induction ids with
  | nil =>
    exact fun R => Triple.pure fun w _ h => ⟨rfl, h.mono fun M hM => ⟨M, hM, by simp [pollEvents]⟩⟩
  | cons c cs ih =>
    intro R
    unfold healths
    refine (health_log c).bind fun s => ?_
    refine ((ih _).except fun _ w _ h => h.mono ?_).bind fun ss => Triple.pure fun w _ h =>
      ⟨by rw [List.length_cons, List.length_cons, h.1], h.2.mono ?_⟩
    · rintro M ⟨es, hes, M₁, ⟨M₀, h₀, rfl⟩, rfl⟩
      refine ⟨.health c s.1 s.2 :: es, List.forall_mem_cons.mpr ⟨rfl, hes⟩, M₀, h₀, by simp⟩
    · rintro M ⟨M₁, ⟨M₀, h₀, rfl⟩, rfl⟩
      exact ⟨M₀, h₀, by simp [pollEvents]⟩

/-! ### The log of a handoff -/

theorem logs_log (id : String) :
    Triple (fun _ => True) (Adds base R) (logs env i id) (fun _ => Adds base R)
      fun _ => Adds base (Ext R) := by
  refine peek_log fun w a es hf => ?_
  split at hf
  · exact absurd hf (by simp)
  · exact (Prod.mk.inj (Except.ok.inj hf)).2.symm

/-- An abort stops and removes the containers it is told to, and no others. -/
theorem abort_log {svc : String} {at_ : AbortSite → HandoffSite} {new : List String}
    (hR : ClosedUnder new R) :
    Triple (fun _ => True) (Adds base R) (abort env svc at_ new)
      (fun b w => b = false ∧ Adds base R w) fun _ => Adds base R := by
  have hlogs : ∀ ids, Triple (fun _ => True) (Adds base R) (abortLogs env svc at_ ids)
      (fun _ => Adds base R) fun _ => Adds base R := by
    intro ids
    induction ids with
    | nil => exact Triple.pure fun _ _ h => h
    | cons c cs ih =>
      unfold abortLogs
      refine Triple.bind (Q := fun _ => Adds base R) ?_ fun _ => ih
      refine Triple.tryCatch ((logs_log c).except fun _ _ _ h => h.mono fun _ => hR.ext) fun e => ?_
      show Triple _ _ (if _ then _ else _) _ _
      split_ifs
      · exact Triple.pure fun _ _ h => h
      · exact Triple.throw fun _ _ h => h
  have hes : ∀ {es : List Event} {e : Event}, es = [e] → e.inner = true → e.makes = [] →
      e.taken = new → ∀ M, After R es M → R M := by
    rintro es e rfl hin hmk htk M ⟨M₀, h₀, rfl⟩
    refine hR M₀ _ h₀ fun e' he' => ?_
    obtain rfl := List.mem_singleton.mp he'
    exact ⟨hin, hmk, fun id hid => htk ▸ hid⟩
  unfold abort
  refine (hlogs new).bind fun _ => ?_
  show Triple _ _ (if _ then _ else _) _ _
  split_ifs
  · exact Triple.pure fun _ _ h => ⟨rfl, h⟩
  · refine Triple.bind (Q := fun _ => Adds base R) ?_ fun _ =>
      Triple.bind (Q := fun _ => Adds base R) ?_ fun _ => Triple.pure fun _ _ h => ⟨rfl, h⟩
    · exact (work_log fun _ => rfl).conseq (fun _ _ h => h)
        (fun _ _ _ h => h.mono (hes rfl rfl rfl rfl)) fun _ _ _ h => h.mono fun M hM =>
          hM.elim id (hes rfl rfl rfl rfl M)
    · exact (work_log fun _ => rfl).conseq (fun _ _ h => h)
        (fun _ _ _ h => h.mono (hes rfl rfl rfl rfl)) fun _ _ _ h => h.mono fun M hM =>
          hM.elim id (hes rfl rfl rfl rfl M)

/-- The wait answers `true` after a poll in which all were running and healthy. -/
theorem waitHealthy_log {svc : String} {new : List String} (n : ℕ) :
    ∀ k R, Triple (fun _ => True) (Adds base R) (waitHealthy env svc new n k)
      (fun b => Adds base fun M =>
        if b = true then After (Ext R) (new.map healthy) M else Ext R M)
      fun _ => Adds base (Ext R) := by
  have hpoll : ∀ k R, Triple (fun _ => True) (Adds base R) (healths env svc (.health k) new)
      (fun ss => Adds base fun M => Ext R M ∧
        (ss.all isHealthy = true → After (Ext R) (new.map healthy) M))
      fun _ => Adds base (Ext R) := by
    intro k R
    refine (healths_log svc (.health k) new R).conseq (fun _ _ h => h) (fun ss w _ h => ?_)
      fun _ _ _ h => h
    refine h.2.mono fun M hM => ⟨⟨_, quiet_pollEvents new ss, hM⟩, fun hall => ?_⟩
    obtain ⟨M₀, h₀, hM⟩ := hM
    exact ⟨M₀, Ext.of h₀, by rw [hM, pollEvents_of_healthy new ss h.1 hall]⟩
  have hext : ∀ {R M}, Ext (Ext R) M → Ext R M := by
    rintro R M ⟨es, hes, M₁, ⟨es₀, hes₀, M₀, h₀, rfl⟩, rfl⟩
    exact ⟨es₀ ++ es, hes₀.append hes, M₀, h₀, by simp⟩
  induction n with
  | zero =>
    intro k R
    unfold waitHealthy
    refine (hpoll k R).bind fun states => ?_
    show Triple _ _ (if _ then _ else (if _ then _ else _)) _ _
    split_ifs with hall
    · exact Triple.pure fun w _ h => h.mono fun M hM => hM.2 hall
    · exact Triple.pure fun w _ h => h.mono fun M hM => hM.1
    · exact Triple.pure fun w _ h => h.mono fun M hM => hM.1
  | succ n ih =>
    intro k R
    unfold waitHealthy
    refine (hpoll k R).bind fun states => ?_
    show Triple _ _ (if _ then _ else (if _ then _ else _)) _ _
    split_ifs with hall
    · exact Triple.pure fun w _ h => h.mono fun M hM => hM.2 hall
    · exact Triple.pure fun w _ h => h.mono fun M hM => hM.1
    · refine (ih (k + 1) (Ext R)).conseq (fun w _ h => h.mono fun M hM => hM.1)
        (fun b w _ h => h.mono fun M hM => ?_) fun _ _ _ h => h.mono fun _ => hext
      split_ifs at hM ⊢
      · obtain ⟨M₀, h₀, hM⟩ := hM
        exact ⟨M₀, hext h₀, hM⟩
      · exact hext hM

section Drain

variable {svc : String} (hR : ClosedUnder [] R)

theorem touch_log (c : String) :
    Triple (fun _ => True) (Adds base R) (exec_touch env i c) (fun _ => Adds base R)
      fun _ => Adds base R := by
  have hf : ∀ w : Docker, (w.onIds [c] Container.touch).log = w.log ++ [] := fun w => by simp
  have hR' : ∀ M, After R [] M → R M := by
    rintro M ⟨M₀, h₀, rfl⟩
    rwa [List.append_nil]
  exact (work_log hf).conseq (fun _ _ h => h) (fun _ _ _ h => h.mono hR')
    fun _ _ _ h => h.mono fun M hM => hM.elim id (hR' M)

include hR

theorem drainOne_log (c : String) :
    Triple (fun _ => True) (Adds base R) (drainOne env svc c) (fun _ => Adds base R)
      fun _ => Adds base R := by
  unfold drainOne
  refine Triple.tryCatch (E := fun _ => Adds base R) ?_ fun e => ?_
  · have hd := (@peek_log env base R (site svc (.drains c)) _
      (f := drainsSeen c) fun w a es hf => ?_).except
          fun _ _ _ h => h.mono fun _ => hR.ext
    · refine hd.bind fun b => ?_
      show Triple _ _ (if _ then _ else _) _ _
      split_ifs
      · exact (touch_log c).bind fun _ => Triple.pure fun _ _ h => h
      · exact Triple.pure fun _ _ h => h
    · rw [drainsSeen] at hf
      split at hf
      · exact absurd hf (by simp)
      · exact (Prod.mk.inj (Except.ok.inj hf)).2.symm
  · show Triple _ _ (if _ then _ else _) _ _
    split_ifs
    · exact Triple.pure fun _ _ h => h
    · exact Triple.throw fun _ _ h => h

theorem drainTargets_log (ids : List String) :
    Triple (fun _ => True) (Adds base R) (drainTargets env svc ids) (fun _ => Adds base R)
      fun _ => Adds base R := by
  induction ids with
  | nil => exact Triple.pure fun _ _ h => h
  | cons c cs ih =>
    unfold drainTargets
    exact (drainOne_log hR c).bind fun _ => ih.bind fun _ => Triple.pure fun _ _ h => h

theorem waitDrained_log (targets : List String) (n : ℕ) :
    ∀ k, Triple (fun _ => True) (Adds base R) (waitDrained env svc targets n k)
      (fun _ => Adds base R) fun _ => Adds base R := by
  have hpoll : ∀ k, Triple (fun _ => True) (Adds base R)
      (healths env svc (.drainHealth k) targets) (fun _ => Adds base R) fun _ => Adds base R :=
    fun k => (healths_log svc (.drainHealth k) targets R).conseq (fun _ _ h => h)
      (fun ss _ _ h => h.2.mono fun M hM => hR.ext ⟨_, quiet_pollEvents targets ss, hM⟩)
      fun _ _ _ h => h.mono fun _ => hR.ext
  induction n with
  | zero =>
    intro k
    unfold waitDrained
    refine (hpoll k).bind fun states => ?_
    show Triple _ _ (if _ then _ else _) _ _
    split_ifs
    · exact Triple.pure fun _ _ h => h
    · exact Triple.pure fun _ _ h => h
  | succ n ih =>
    intro k
    unfold waitDrained
    refine (hpoll k).bind fun states => ?_
    show Triple _ _ (if _ then _ else _) _ _
    split_ifs
    · exact Triple.pure fun _ _ h => h
    · exact ih (k + 1)

/-- Draining takes no container down. -/
theorem drain_log (old : List String) :
    Triple (fun _ => True) (Adds base R) (drain env svc old) (fun _ => Adds base R)
      fun _ => Adds base R := by
  unfold drain
  refine (drainTargets_log hR old).bind fun t => ?_
  show Triple _ _ (if _ then _ else _) _ _
  split_ifs
  · exact Triple.pure fun _ _ h => h
  · exact waitDrained_log hR t _ 0

end Drain

/-- An event of a handoff of `svc`, apart from its beginning. -/
structure Event.InHandoff (svc : String) (e : Event) : Prop where
  inner : e.inner = true
  makes : ∀ s ∈ e.makes, s = svc

theorem Event.inHandoff {svc : String} {e : Event} (h : e.inner = true) (hm : e.makes = []) :
    e.InHandoff svc :=
  ⟨h, by simp [hm]⟩

/-- The events of one handoff, after its beginning. -/
structure Proper (svc : String) (old : List String) (M : List Event) : Prop where
  inner : ∀ e ∈ M, e.InHandoff svc
  guarded : Guarded svc old M

/-- The events of a handoff that has taken none of the containers `old` down. -/
structure Calm (svc : String) (old : List String) (M : List Event) : Prop where
  inner : ∀ e ∈ M, e.InHandoff svc
  harmless : Harmless old M

section Handoff

variable {svc : String} {old : List String}

theorem Calm.proper {M : List Event} (h : Calm svc old M) : Proper svc old M :=
  ⟨h.inner, h.harmless.guarded⟩

theorem closedUnder_calm {new : List String} (h : ∀ id ∈ new, id ∉ old) :
    ClosedUnder new (Calm svc old) := fun _ _ hM hes =>
  ⟨List.forall_mem_append.mpr ⟨hM.inner, fun e he => Event.inHandoff (hes e he).1 (hes e he).2.1⟩,
    hM.harmless.append fun e he id hid htk => h id ((hes e he).2.2 id htk) hid⟩

theorem closedUnder_proper {new : List String} (h : ∀ id ∈ new, id ∉ old) :
    ClosedUnder new (Proper svc old) := fun _ _ hM hes =>
  ⟨List.forall_mem_append.mpr ⟨hM.inner, fun e he => Event.inHandoff (hes e he).1 (hes e he).2.1⟩,
    hM.guarded.append fun e he id hid htk => h id ((hes e he).2.2 id htk) hid⟩

theorem not_mem_of_filter {listed : List String} :
    ∀ id ∈ listed.filter (· ∉ old), id ∉ old := fun id hid => by
  simpa using (List.mem_filter.mp hid).2

/-- The old containers are retired only after the poll that found the new ones healthy. -/
theorem retire_log :
    Triple (fun _ => True) (Adds base fun M => Calm svc old M ∧ SeenHealthy svc old M)
      (retire env svc old) (fun _ => Adds base (Proper svc old))
      fun _ => Adds base (Proper svc old) := by
  -- from the poll on, whatever is taken down is `old`
  set R : List Event → Prop := fun M => ∃ M₀ es, M = M₀ ++ es ∧ Calm svc old M₀ ∧
    SeenHealthy svc old M₀ ∧ ∀ e ∈ es, e.InHandoff svc ∧ (e.taken = old ∨ e.taken = []) with hdef
  have hgrow : ∀ M es, R M → (∀ e ∈ es, e.InHandoff svc ∧ (e.taken = old ∨ e.taken = [])) →
      R (M ++ es) := by
    rintro M es ⟨M₀, es₀, rfl, h₁, h₂, h₃⟩ hes
    exact ⟨M₀, es₀ ++ es, by simp, h₁, h₂, List.forall_mem_append.mpr ⟨h₃, hes⟩⟩
  have hR : ClosedUnder [] R := fun M es hM hes => hgrow M es hM fun e he =>
    ⟨Event.inHandoff (hes e he).1 (hes e he).2.1, .inr (List.eq_nil_iff_forall_not_mem.mpr
      fun id hid => absurd ((hes e he).2.2 id hid) List.not_mem_nil)⟩
  have hafter : ∀ {e : Event}, e.InHandoff svc → e.taken = old → ∀ M, After R [e] M → R M := by
    rintro e hin htk M ⟨M₀, h₀, rfl⟩
    refine hgrow M₀ _ h₀ fun e' he' => ?_
    obtain rfl := List.mem_singleton.mp he'
    exact ⟨hin, .inl htk⟩
  have hproper : ∀ M, R M → Proper svc old M := by
    rintro M ⟨M₀, es, rfl, h₁, h₂, h₃⟩
    exact ⟨List.forall_mem_append.mpr ⟨h₁.inner, fun e he => (h₃ e he).1⟩,
      h₁.harmless.guarded.append_old h₂ fun e he => (h₃ e he).2⟩
  have hrun : Triple (fun _ => True) (Adds base R) (retire env svc old) (fun _ => Adds base R)
      fun _ => Adds base R := by
    unfold retire
    refine (drain_log hR old).bind fun _ => ?_
    refine Triple.bind (Q := fun _ => Adds base R) ?_ fun _ =>
      Triple.bind (Q := fun _ => Adds base R) ?_ fun _ => Triple.pure fun _ _ h => h
    · exact (work_log fun _ => rfl).conseq (fun _ _ h => h)
        (fun _ _ _ h => h.mono (hafter (Event.inHandoff rfl rfl) rfl)) fun _ _ _ h => h.mono fun M hM =>
          hM.elim id (hafter (Event.inHandoff rfl rfl) rfl M)
    · exact (work_log fun _ => rfl).conseq (fun _ _ h => h)
        (fun _ _ _ h => h.mono (hafter (Event.inHandoff rfl rfl) rfl)) fun _ _ _ h => h.mono fun M hM =>
          hM.elim id (hafter (Event.inHandoff rfl rfl) rfl M)
  exact hrun.conseq (fun w _ h => h.mono fun M hM => ⟨M, [], by simp, hM.1, hM.2, by simp⟩)
    (fun _ _ _ h => h.mono hproper) fun _ _ _ h => h.mono hproper

/-- The log of a handoff: its beginning, and then events in the proper order. -/
def Stretch (svc : String) (old : List String) (M : List Event) : Prop :=
  ∃ M', M = .handing svc old :: M' ∧ Proper svc old M'

theorem Adds.stretch {w : Docker} (h : Adds (base ++ [.handing svc old]) (Proper svc old) w) :
    Adds base (Stretch svc old) w := by
  obtain ⟨M, hM, hp⟩ := h
  exact ⟨.handing svc old :: M, by rw [hM, List.append_assoc]; rfl, M, rfl, hp⟩

/-- The new containers are waited for, and the old ones retired. -/
theorem handoff_log :
    Triple (fun _ => True) (fun w => w.log = base) (handoff env svc old)
      (fun _ => Adds (base ++ [.handing svc old]) (Proper svc old))
      fun _ => Adds (base ++ [.handing svc old]) (Proper svc old) := by
  set base' := base ++ [.handing svc old] with hbase
  have hcalm : ClosedUnder [] (Calm svc old) := closedUnder_calm fun _ h => absurd h List.not_mem_nil
  have hcreated : ∀ M, After (Calm svc old) [.created svc] M → Calm svc old M := by
    rintro M ⟨M₀, h₀, rfl⟩
    exact ⟨List.forall_mem_append.mpr ⟨h₀.inner, by simpa using ⟨rfl, by simp [Event.makes]⟩⟩,
      h₀.harmless.append (by simp [Harmless, Event.taken])⟩
  have hlisted : ∀ l M, Ext (After (Calm svc old) [.listed svc l]) M → Calm svc old M := by
    rintro l M ⟨es, hes, M₁, ⟨M₀, h₀, rfl⟩, rfl⟩
    refine hcalm.ext ⟨[.listed svc l] ++ es, ?_, M₀, h₀, by simp⟩
    exact List.forall_mem_append.mpr ⟨by simp [Event.quiet], hes⟩
  have habort : ∀ l : List String, Triple (fun _ => True) (Adds base' (Calm svc old))
      (abort env svc .abort (l.filter (· ∉ old))) (fun _ => Adds base' (Proper svc old))
      fun _ => Adds base' (Proper svc old) := fun l =>
    (abort_log (closedUnder_calm not_mem_of_filter)).conseq (fun _ _ h => h)
      (fun _ _ _ h => h.2.mono fun _ => Calm.proper) fun _ _ _ h => h.mono fun _ => Calm.proper
  unfold handoff
  refine Triple.bind (Q := fun _ => Adds base' (Calm svc old)) (of_say fun w _ hw => ⟨trivial, [], ?_, ?_⟩)
    fun _ => ?_
  · rw [Docker.log_record, hw, List.append_nil]
  · exact ⟨by simp, fun e he => absurd he List.not_mem_nil⟩
  refine Triple.bind (Q := fun _ => Adds base' (Calm svc old)) ?_ fun _ => ?_
  · refine (work_log fun w => ?_).conseq (fun _ _ h => h)
      (fun _ _ _ h => h.mono hcreated)
      fun _ _ _ h => h.mono fun M hM => (hM.elim id (hcreated M)).proper
    rw [Docker.log_record, Docker.log_createAll, Docker.log_onIds]
  refine ((ps_log svc true).except fun _ _ _ h => h.mono fun _ hM => (hcalm.ext hM).proper).bind
    fun l => ?_
  show Triple _ _ (if _ then _ else _) _ _
  split_ifs with hlen
  · exact (habort l).weaken fun w _ h => h.mono fun M hM => hlisted l M (Ext.of hM)
  · refine ((waitHealthy_log _ 0 _).except fun _ _ _ h =>
      h.mono fun M hM => (hlisted l M hM).proper).bind fun b => ?_
    show Triple _ _ (if _ then _ else _) _ _
    split_ifs with hb
    · refine retire_log.weaken fun w _ h => h.mono fun M hM => ?_
      obtain ⟨M₂, hM₂, rfl⟩ := hM
      have hnew : Quiet ((l.filter (· ∉ old)).map healthy) := by
        intro e he
        obtain ⟨id, -, rfl⟩ := List.mem_map.mp he
        rfl
      refine ⟨hcalm.ext ⟨_, hnew, M₂, hlisted l M₂ hM₂, rfl⟩, ?_⟩
      obtain ⟨es, -, M₁, ⟨M₀, -, rfl⟩, rfl⟩ := hM₂
      exact ⟨M₀, l, es, [], by simp, not_not.mp hlen⟩
    · exact (habort l).weaken fun w _ h => h.mono fun M hM => hlisted l M hM

theorem anyRunning_log {R : List Event → Prop} (hR : ClosedUnder [] R) (ids : List String) :
    Triple (fun _ => True) (Adds base R) (anyRunning env svc ids) (fun _ => Adds base R)
      fun _ => Adds base R := by
  induction ids with
  | nil => exact Triple.pure fun _ _ h => h
  | cons c cs ih =>
    unfold anyRunning
    refine ((ps_log svc false).conseq (fun _ _ h => h) (B := fun _ => Adds base R)
      (fun l _ _ h => h.mono fun M hM => hR.ext ⟨[.listed svc l], ?_, hM⟩)
      fun _ _ _ h => h.mono fun _ => hR.ext).bind fun running => ?_
    · simp [Quiet, Event.quiet]
    · show Triple _ _ (if _ then _ else _) _ _
      split_ifs
      · exact Triple.pure fun _ _ h => h
      · exact ih

theorem cleanup_log :
    Triple (fun _ => True) (Adds base (Proper svc old)) (cleanup env svc old)
      (fun _ => Adds base (Proper svc old)) fun _ => Adds base (Proper svc old) := by
  have hR : ClosedUnder [] (Proper svc old) :=
    closedUnder_proper fun _ h => absurd h List.not_mem_nil
  unfold cleanup
  refine (anyRunning_log hR old).bind fun b => ?_
  show Triple _ _ (if _ then _ else _) _ _
  split_ifs
  · refine ((ps_log svc true).conseq (fun _ _ h => h) (B := fun _ => Adds base (Proper svc old))
      (fun l _ _ h => h.mono fun M hM => hR.ext ⟨[.listed svc l], ?_, hM⟩)
      fun _ _ _ h => h.mono fun _ => hR.ext).bind fun l => ?_
    · simp [Quiet, Event.quiet]
    · exact (abort_log (closedUnder_proper not_mem_of_filter)).conseq (fun _ _ h => h)
        (fun _ _ _ h => h.2) fun _ _ _ h => h
  · exact Triple.pure fun _ _ h => h

/-- The log of a handoff, however it ends. -/
theorem safe_handoff_log :
    Triple (fun _ => True) (fun w => w.log = base) (safe_handoff env svc old)
      (fun _ => Adds base (Stretch svc old)) fun _ => Adds base (Stretch svc old) := by
  unfold safe_handoff
  refine Triple.conseq (Q := fun _ => Adds (base ++ [.handing svc old]) (Proper svc old))
    (E := fun _ => Adds (base ++ [.handing svc old]) (Proper svc old)) ?_ (fun _ _ h => h)
    (fun _ _ _ h => h.stretch) fun _ _ _ h => h.stretch
  refine Triple.tryCatch handoff_log fun _ => Triple.tryCatch cleanup_log fun e => ?_
  show Triple _ _ (if _ then _ else _) _ _
  split_ifs
  · exact Triple.pure fun _ _ h => h
  · exact Triple.throw fun _ _ h => h

end Handoff

end Programs

/-! ### The log of a run -/

/-- In a handoff of the containers `old`, none of them is taken down before a poll found
as many new containers running and healthy. -/
def Ordered (L : List Event) : Prop :=
  ∀ A svc old B e C, L = A ++ .handing svc old :: (B ++ e :: C) → (∀ x ∈ B, x.hand = false) →
    ∀ id ∈ old, id ∈ e.taken → e.taken = old ∧ SeenHealthy svc old B

/-- Every handoff that has begun has answered, and answered `true`. -/
def AllHanded (L : List Event) : Prop :=
  (∀ svc, .handed svc false ∉ L) ∧ ∀ A svc old B, L = A ++ .handing svc old :: B →
    ∃ C D, B = C ++ .handed svc true :: D ∧ ∀ x ∈ C, x.hand = false

/-- Nothing is done that comes after the handoffs. -/
def NoFinal (L : List Event) : Prop := ∀ e ∈ L, e.final = false

/-- All events are of the plan: none takes a container down or creates one. -/
def Idle (L : List Event) : Prop := ∀ e ∈ L, e.inner = true ∧ e.taken = [] ∧ e.makes = []

section Runs

variable {L L' M : List Event} {svc : String} {old : List String}

theorem Ordered.append (h : Ordered L) (h' : ∀ e ∈ L', e.taken = []) : Ordered (L ++ L') := by
  intro A svc old B e C heq hB id hid hmem
  have heq' : L ++ L' = (A ++ .handing svc old :: B) ++ e :: C := by rw [heq]; simp
  rcases split_append heq' with ⟨B', hL, -⟩ | ⟨A', -, hL'⟩
  · exact h A svc old B e B' (by rw [hL]; simp) hB id hid hmem
  · rw [h' e (by rw [hL']; simp)] at hmem
    exact absurd hmem List.not_mem_nil

/-- Where the last beginning of a handoff stands in a log is unique. -/
theorem last_hand {A B L B' : List Event} {x y : Event} (h : A ++ x :: B = L ++ y :: B')
    (hx : x.hand = true) (hy : y.hand = true) (hB : ∀ z ∈ B, z.hand = false)
    (hB' : ∀ z ∈ B', z.hand = false) : x = y ∧ B = B' := by
  rcases split_append h with ⟨B₁, -, h₁⟩ | ⟨A', -, h₁⟩
  · exact absurd hx (by rw [hB' x (by rw [h₁]; simp)]; simp)
  · cases A' with
    | nil => exact List.cons.inj h₁
    | cons z A' =>
      obtain ⟨-, h₂⟩ := List.cons.inj h₁
      exact absurd hy (by rw [hB y (by rw [h₂]; simp)]; simp)

theorem Ordered.append_stretch (h : Ordered L) (hM : Proper svc old M) :
    Ordered (L ++ .handing svc old :: M) := by
  intro A svc' old' B e C heq hB id hid hmem
  have heq' : L ++ .handing svc old :: M = (A ++ .handing svc' old' :: B) ++ e :: C := by
    rw [heq]
    simp
  rcases split_append heq' with ⟨B', hL, -⟩ | ⟨A', hA, hS⟩
  · exact h A svc' old' B e B' (by rw [hL]; simp) hB id hid hmem
  · cases A' with
    | nil =>
      obtain ⟨rfl, -⟩ := List.cons.inj hS
      exact absurd hmem List.not_mem_nil
    | cons z A' =>
      obtain ⟨rfl, hM'⟩ := List.cons.inj hS
      obtain ⟨hx, rfl⟩ := last_hand hA rfl rfl hB fun z hz =>
        Event.hand_of_inner (hM.inner z (by rw [hM']; simp [hz])).inner
      obtain ⟨rfl, rfl⟩ := Event.handing.inj hx
      exact hM.guarded B e C hM' id hid hmem

theorem Idle.ordered (h : Idle L) : Ordered L := by
  rintro A svc old B e C rfl - id - hmem
  rw [(h e (by simp)).2.1] at hmem
  exact absurd hmem List.not_mem_nil

theorem AllHanded.append (h : AllHanded L) (h' : AllHanded L') : AllHanded (L ++ L') := by
  refine ⟨fun svc hmem => (List.mem_append.mp hmem).elim (h.1 svc) (h'.1 svc), ?_⟩
  intro A svc old B heq
  rcases split_append heq with ⟨B', hL, rfl⟩ | ⟨A', -, hL'⟩
  · obtain ⟨C, D, rfl, hC⟩ := h.2 A svc old B' hL
    exact ⟨C, D ++ L', by simp, hC⟩
  · exact h'.2 A' svc old B hL'

theorem allHanded_of_hand (h : ∀ x ∈ L, x.hand = false) : AllHanded L := by
  refine ⟨fun svc hmem => absurd (h _ hmem) (by simp [Event.hand]), ?_⟩
  rintro A svc old B rfl
  exact absurd (h (.handing svc old) (by simp)) (by simp [Event.hand])

theorem Proper.allHanded (hM : Proper svc old M) :
    AllHanded (.handing svc old :: (M ++ [.handed svc true])) := by
  have hhand : ∀ x ∈ M, x.hand = false := fun x hx => Event.hand_of_inner (hM.inner x hx).inner
  refine ⟨fun svc' hmem => ?_, fun A svc' old' B heq => ?_⟩
  · simp only [List.mem_cons, List.mem_append, reduceCtorEq, Event.handed.injEq, Bool.false_eq_true,
      and_false, List.not_mem_nil, or_false, false_or] at hmem
    exact absurd (hhand _ hmem) (by simp [Event.hand])
  · cases A with
    | nil =>
      obtain ⟨hx, rfl⟩ := List.cons.inj heq
      obtain ⟨rfl, rfl⟩ := Event.handing.inj hx
      exact ⟨M, [], rfl, hhand⟩
    | cons z A =>
      obtain ⟨rfl, hM'⟩ := List.cons.inj heq
      have hmem : Event.handing svc' old' ∈ M ++ [.handed svc true] := by rw [hM']; simp
      simp only [List.mem_append, List.mem_singleton, reduceCtorEq, or_false] at hmem
      exact absurd (hhand _ hmem) (by simp [Event.hand])

theorem NoFinal.append (h : NoFinal L) (h' : NoFinal L') : NoFinal (L ++ L') :=
  List.forall_mem_append.mpr ⟨h, h'⟩

theorem Idle.noFinal (h : Idle L) : NoFinal L := fun e he => Event.final_of_inner (h e he).1

theorem Proper.noFinal (h : Proper svc old M) : NoFinal (.handing svc old :: M) :=
  List.forall_mem_cons.mpr ⟨rfl, fun e he => Event.final_of_inner (h.inner e he).inner⟩

end Runs

section Main

variable {env : ComposeEnv} {base : List Event}

/-- The plan takes nothing down. -/
theorem planKept_idle : PlanKept env (Adds base Idle) where
  before _ _ _ h := h
  listed w svc l h := by
    obtain ⟨M, hM, hi⟩ := h
    refine ⟨M ++ [.listed svc l], by rw [Docker.log_record, hM, List.append_assoc], ?_⟩
    exact List.forall_mem_append.mpr
      ⟨hi, by simp [Event.inner, Event.quiet, Event.taken, Event.makes]⟩
  images _ _ h := h

/-- The log of a run up to the end of some handoff, `ok` saying that none has failed. -/
structure Handing (ok : Prop) (M : List Event) : Prop where
  ordered : Ordered M
  noFinal : NoFinal M
  handed : ok → AllHanded M

theorem Handing.append_stretch {ok : Prop} {M S : List Event} {svc : String} {old : List String}
    (h : Handing ok M) (hS : Stretch svc old S) (done : Bool) :
    Handing (ok ∧ done = true) (M ++ S ++ [.handed svc done]) := by
  obtain ⟨S', rfl, hp⟩ := hS
  refine ⟨(h.ordered.append_stretch hp).append (by simp [Event.taken]),
    (h.noFinal.append hp.noFinal).append (by simp [NoFinal, Event.final]), ?_⟩
  rintro ⟨hok, rfl⟩
  have hall := (h.handed hok).append hp.allHanded
  rwa [← List.cons_append, ← List.append_assoc] at hall

/-- The handoffs: when none has failed, each of them has answered `true`. -/
theorem handoffs_log (todo : List (String × List String)) :
    ∀ ok, Triple (fun _ => True) (Adds base (Handing ok)) (handoffs env todo)
      (fun failed => Adds base (Handing (ok ∧ failed = [])))
      fun _ => Adds base (Handing False) := by
  induction todo with
  | nil =>
    exact fun ok => Triple.pure fun w _ h => h.mono fun M hM =>
      ⟨hM.ordered, hM.noFinal, fun h => hM.handed h.1⟩
  | cons x todo ih =>
    intro ok
    obtain ⟨svc, old⟩ := x
    unfold handoffs
    have hone : Triple (fun _ => True) (Adds base (Handing ok)) (safe_handoff env svc old)
        (fun _ => Adds base fun M => ∃ M₀ S, M = M₀ ++ S ∧ Handing ok M₀ ∧ Stretch svc old S)
        fun _ => Adds base fun M => ∃ M₀ S, M = M₀ ++ S ∧ Handing ok M₀ ∧ Stretch svc old S := by
      refine Triple.exists_pre fun M₀ => ?_
      refine Triple.weaken (P := fun w => Handing ok M₀ ∧ w.log = base ++ M₀)
        (Triple.of_fact fun h₀ => ?_) fun _ _ h => ⟨h.2, h.1⟩
      have hadds : ∀ w, Adds (base ++ M₀) (Stretch svc old) w →
          Adds base (fun M => ∃ M₀ S, M = M₀ ++ S ∧ Handing ok M₀ ∧ Stretch svc old S) w := by
        rintro w ⟨S, hS, hst⟩
        exact ⟨M₀ ++ S, by rw [hS, List.append_assoc], M₀, S, rfl, h₀, hst⟩
      exact safe_handoff_log.conseq (fun _ _ h => h) (fun _ w _ h => hadds w h)
        fun _ w _ h => hadds w h
    refine (hone.except fun _ w _ h => h.mono ?_).bind fun done => ?_
    · rintro M ⟨M₀, S, rfl, h₀, S', rfl, hp⟩
      exact ⟨h₀.ordered.append_stretch hp, h₀.noFinal.append hp.noFinal, False.elim⟩
    · refine Triple.bind (Q := fun _ => Adds base (Handing (ok ∧ done = true))) ?_ fun _ => ?_
      · refine of_say fun w _ h => ⟨trivial, ?_⟩
        obtain ⟨M, hM, M₀, S, rfl, h₀, hS⟩ := h
        exact ⟨M₀ ++ S ++ [.handed svc done], by rw [Docker.log_record, hM, List.append_assoc],
          h₀.append_stretch hS done⟩
      · refine (ih _).bind fun failed => Triple.pure fun w _ h => h.mono fun M hM =>
          ⟨hM.ordered, hM.noFinal, fun hok => hM.handed ?_⟩
        cases done with
        | true => exact ⟨⟨hok.1, rfl⟩, hok.2⟩
        | false => exact absurd hok.2 (by simp)

/-- What follows the handoffs neither begins a handoff nor takes a container down. -/
theorem finish_log {args : Args} {recreate : List String}
    {mounts : List (String × List String)} :
    Triple (fun _ => True) (Adds base fun M => Ordered M ∧ AllHanded M)
      (finish env args recreate mounts) (fun _ => Adds base fun M => Ordered M ∧ AllHanded M)
      fun _ => Adds base fun M => Ordered M ∧ AllHanded M := by
  set R : List Event → Prop := fun M => Ordered M ∧ AllHanded M with hR
  have hafter : ∀ {es : List Event}, (∀ e ∈ es, e.taken = [] ∧ e.hand = false) →
      ∀ M, After R es M → R M := by
    rintro es hes M ⟨M₀, h₀, rfl⟩
    exact ⟨h₀.1.append fun e he => (hes e he).1,
      h₀.2.append (allHanded_of_hand fun e he => (hes e he).2)⟩
  have hwork : ∀ {i : Site} {f : Docker → Docker} {es : List Event},
      (∀ w, (f w).log = w.log ++ es) → (∀ e ∈ es, e.taken = [] ∧ e.hand = false) →
      Triple (fun _ => True) (Adds base R) (docker env i (work f)) (fun _ => Adds base R)
        fun _ => Adds base R := fun hf hes =>
    (work_log hf).conseq (fun _ _ h => h) (fun _ _ _ h => h.mono (hafter hes))
      fun _ _ _ h => h.mono fun M hM => hM.elim id (hafter hes M)
  have hforce : Triple (fun _ => True) (Adds base R) (force_recreate env recreate)
      (fun _ => Adds base R) fun _ => Adds base R :=
    hwork (fun w => by rw [Docker.log_record, log_foldl_recreate])
      (by simp [Event.taken, Event.hand])
  have hup : Triple (fun _ => True) (Adds base R) (up env) (fun _ => Adds base R)
      fun _ => Adds base R := by
    refine hwork (fun w => by rw [Docker.log_record, log_foldl_upService]; rfl) ?_
    refine List.forall_mem_append.mpr ⟨fun e he => ?_, by simp [Event.taken, Event.hand]⟩
    obtain ⟨s, -, rfl⟩ := List.mem_map.mp he
    cases s <;> exact ⟨rfl, rfl⟩
  have hsave : Triple (fun _ => True) (Adds base R) (save_state env mounts)
      (fun _ => Adds base R) fun _ => Adds base R :=
    hwork (fun w => rfl) (by simp [Event.taken, Event.hand])
  unfold finish
  refine Triple.bind (Q := fun _ => Adds base R) ?_ fun _ => hup.bind fun _ =>
    Triple.bind (Q := fun _ => Adds base R) ?_ fun _ => Triple.pure fun _ _ h => h
  · unfold recreateInPlace
    split_ifs
    · exact Triple.pure fun _ _ h => h
    · exact hforce
  · unfold record_state
    split_ifs
    · exact hsave
    · exact Triple.pure fun _ _ h => h

theorem main_log (content_hash : String → String) (args : Args) :
    Triple (fun _ => True) (fun w => w.log = base) (main env content_hash args)
      (fun _ => Adds base fun M => Ordered M ∧ (NoFinal M ∨ AllHanded M))
      fun _ => Adds base fun M => Ordered M ∧ (NoFinal M ∨ AllHanded M) := by
  have hidle : ∀ M, Idle M → Ordered M ∧ (NoFinal M ∨ AllHanded M) :=
    fun M h => ⟨h.ordered, .inl h.noFinal⟩
  have hkept : PlanKept env (Adds base Idle) := planKept_idle
  have hcompare := compareState_rule (S := fun _ => True) content_hash args hkept fun _ _ => trivial
  unfold main
  refine Triple.bind (Q := fun _ => Adds base Idle) ?_ fun r => ?_
  · exact hcompare.conseq (fun w _ h => ⟨[], by rw [h, List.append_nil],
      fun e he => absurd he List.not_mem_nil⟩) (fun _ _ _ h => h.1) fun _ _ _ h => h.mono hidle
  obtain ⟨forced, mounts⟩ := r
  refine ((plan_keeps planKept_idle forced).except fun _ _ _ h => h.mono hidle).bind fun todo => ?_
  unfold execute
  split_ifs
  · exact Triple.pure fun _ _ h => h.mono hidle
  · refine Triple.bind (Q := fun failed => Adds base (Handing (True ∧ failed = [])))
      ((handoffs_log todo True).conseq (fun w _ h => h.mono fun M hM => ?_) (fun _ _ _ h => h)
        fun _ _ _ h => h.mono fun M hM => ⟨hM.ordered, .inl hM.noFinal⟩) fun failed => ?_
    · exact ⟨hM.ordered, hM.noFinal, fun _ =>
        allHanded_of_hand fun e he => Event.hand_of_inner (hM e he).1⟩
    · show Triple _ _ (if _ then _ else _) _ _
      split_ifs with hf
      · exact Triple.pure fun _ _ h => h.mono fun M hM => ⟨hM.ordered, .inl hM.noFinal⟩
      · exact finish_log.conseq
          (fun w _ h => h.mono fun M hM => ⟨hM.ordered, hM.handed ⟨trivial, not_not.mp hf⟩⟩)
          (fun _ _ _ h => h.mono fun M hM => ⟨hM.1, .inr hM.2⟩)
          fun _ _ _ h => h.mono fun M hM => ⟨hM.1, .inr hM.2⟩

end Main

/-- In every run of compose-reload, whatever fails and whatever the containers do: no old
container of a handoff is stopped or removed before a poll has found as many new ones
running and healthy; an abort takes down none of the old ones; and when the run has gone
on to the final `up`, to a force-recreate or to recording the state, every handoff has
succeeded. -/
theorem reload_order (env : ComposeEnv) (content_hash : String → String) (args : Args)
    (w : Docker) :
    (∃ M, (outcomeOf (main env content_hash args) w).2.now.log = w.log ++ M ∧ Ordered M ∧
      ((∃ e ∈ M, e.final = true) → AllHanded M)) ∧
    ∀ svc at_ (listed old : List String), ∃ M,
      (outcomeOf (abort env svc at_ (listed.filter (· ∉ old))) w).2.now.log = w.log ++ M ∧
        Harmless old M := by
  constructor
  · obtain ⟨M, hM, hord, hfin⟩ := (main_log content_hash args).of_end trivial (rfl : w.log = w.log)
    refine ⟨M, hM, hord, ?_⟩
    rintro ⟨e, he, hef⟩
    exact hfin.resolve_left fun h => absurd hef (by rw [h e he]; simp)
  · intro svc at_ listed old
    have hcalm : Triple _ (Adds w.log (Calm svc old))
        (abort env svc at_ (listed.filter (· ∉ old))) _ _ :=
      abort_log (closedUnder_calm not_mem_of_filter)
    have habort := hcalm.conseq
      (A := fun w' => w'.log = w.log) (B := fun _ => Adds w.log (Calm svc old))
      (fun w' _ h => ⟨[], by rw [h, List.append_nil], by simp, fun e he => absurd he List.not_mem_nil⟩)
      (fun _ _ _ h => h.2) fun _ _ _ h => h
    obtain ⟨M, hM, hcalm⟩ := habort.of_end trivial rfl
    exact ⟨M, hM, hcalm.harmless⟩

end Compose
