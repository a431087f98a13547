/-
The containers follow the mounted config over a history of reloads.

The recorded fingerprints are one file for the whole stack, while containers are
replaced one at a time.  A run that fails half way leaves containers that were made from
other contents than the recorded ones; when the config is then reverted, the next run
compares the recorded fingerprints with equal ones and leaves those containers alone.
So a history converges if, whenever a run starts, each container that is out of date is
of a service whose fingerprint differs from the recorded one (`Traceable`).

* `OnlyOutdated` — which containers are out of date: nothing that a run does adds to them;
* `Traceable` — the condition on the start of a run;
* `reload_run` — a run that answers 0 leaves the stack on the current contents;
* `reload_converges` — over every history of such runs.
-/
import KrgInfra.HandoffSafety
import KrgInfra.ReloadOrder
import Mathlib.Logic.Relation

namespace Compose

/-- The container was not made from what the bind mounts of its service show now. -/
def Container.Outdated (env : ComposeEnv) (k : Container) : Prop := k.mounts ≠ env.shown k.service

/-- Every container that is out of date is one of `X`, given by id and service. -/
def OnlyOutdated (env : ComposeEnv) (X : String → String → Prop) (w : Docker) : Prop :=
  ∀ id k, w.container id = some k → k.Outdated env → X id k.service

/-- What a container is made of, as far as the mounted config goes. -/
def Docker.origins (w : Docker) (id : String) : Option (String × List Shown) :=
  (w.container id).map fun k => (k.service, k.mounts)

/-- Nobody else creates, removes or remakes containers during the run; no container stops
while the run is being planned, or after `up` has answered. -/
structure OnlyReload (env : ComposeEnv) : Prop where
  origins : ∀ i w, (env.before i w).origins = w.origins
  running : ∀ i w id k, i.planning = true ∨ i = .saveState → w.container id = some k →
    k.status = .running → ∃ k', (env.before i w).container id = some k' ∧ k'.status = .running

section Outdated

variable {env : ComposeEnv} {X X' : String → String → Prop} {w : Docker}

theorem origins_of_some {id : String} {k : Container} (h : w.container id = some k) :
    w.origins id = some (k.service, k.mounts) := by
  rw [Docker.origins, h]
  rfl

theorem exists_of_origins {id s : String} {m : List Shown} (h : w.origins id = some (s, m)) :
    ∃ k, w.container id = some k ∧ k.service = s ∧ k.mounts = m := by
  obtain ⟨k, hk, heq⟩ := Option.map_eq_some_iff.mp h
  obtain ⟨hs, hm⟩ := Prod.mk.inj heq
  exact ⟨k, hk, hs, hm⟩

theorem OnlyOutdated.mono (h : OnlyOutdated env X w) (hX : ∀ id s, X id s → X' id s) :
    OnlyOutdated env X' w := fun id k hk ho => hX id _ (h id k hk ho)

theorem OnlyOutdated.of_origins {w' : Docker} (h : OnlyOutdated env X w)
    (heq : w'.origins = w.origins) : OnlyOutdated env X w' := by
  intro id k hk ho
  have hk' := origins_of_some hk
  rw [heq] at hk'
  obtain ⟨k₁, hk₁, hs, hm⟩ := exists_of_origins hk'
  have h₁ := h id k₁ hk₁ (by rw [Container.Outdated, hs, hm]; exact ho)
  rwa [hs] at h₁

/-- A change of containers that keeps what they are made of. -/
theorem origins_onIds (w : Docker) (ids : List String) {f : Container → Container}
    (hf : ∀ k, (f k).service = k.service ∧ (f k).mounts = k.mounts) :
    (w.onIds ids f).origins = w.origins := by
  funext id
  unfold Docker.origins
  rw [Docker.container_onIds]
  split_ifs
  · rw [Option.map_map]
    congr 1
    funext k
    exact Prod.ext (hf k).1 (hf k).2
  · rfl

theorem start_origin (k : Container) : k.start.service = k.service ∧ k.start.mounts = k.mounts := by
  unfold Container.start
  split_ifs <;> exact ⟨rfl, rfl⟩

/-- Removing containers takes them out of those that are out of date. -/
theorem OnlyOutdated.remove (h : OnlyOutdated env X w) (ids : List String) :
    OnlyOutdated env (fun id s => X id s ∧ id ∉ ids) (w.remove ids) := by
  intro id k hk ho
  rw [Docker.container_remove] at hk
  split_ifs at hk with hid
  exact ⟨h id k hk ho, hid⟩

/-- What compose creates is not out of date. -/
theorem OnlyOutdated.createAll (h : OnlyOutdated env X w) (svc : String) (cs : List Container) :
    OnlyOutdated env X (w.createAll (newContainers env svc cs)) := by
  intro id k hk ho
  rcases Docker.of_createAll _ hk with hk | hk
  · exact h id k hk ho
  · obtain ⟨k', -, rfl⟩ := List.mem_map.mp hk
    exact absurd rfl ho

theorem kept_outdated (hor : OnlyReload env) : Kept env (OnlyOutdated env X) where
  before i w h := h.of_origins (hor.origins i w)
  record _ _ h := h
  mark w id h := h.of_origins (origins_onIds w [id] fun _ => ⟨rfl, rfl⟩)

theorem planKept_outdated (hor : OnlyReload env) : PlanKept env (OnlyOutdated env X) where
  before i w _ h := h.of_origins (hor.origins i w)
  listed _ _ _ h := h
  images _ _ h := h

end Outdated

/-! ### A handoff -/

section Handoff

variable {env : ComposeEnv} {svc : String} {P : Docker → Prop}

/-- What all calls of a handoff keep: it survives every change of containers that keeps what
they are made of, and the removing and creating of containers. -/
structure HandoffKept (env : ComposeEnv) (P : Docker → Prop) : Prop where
  kept : Kept env P
  onIds : ∀ w ids f, (∀ k, (f k).service = k.service ∧ (f k).mounts = k.mounts) → P w →
    P (w.onIds ids f)
  remove : ∀ w ids, P w → P (w.remove ids)
  create : ∀ w svc cs, P w → P (w.createAll (newContainers env svc cs))

section Keep

variable (hP : HandoffKept env P)

include hP

theorem ps_keep (i : Site) (svc : String) (all : Bool) :
    Triple (fun _ => True) P (ps env i svc all) (fun _ => P) fun _ => P :=
  (ps_rule (ε := fun _ => True) hP.kept (fun _ _ => trivial) svc all fun _ _ _ => trivial).conseq
    (fun _ _ h => h) (fun _ _ _ h => h.1) fun _ _ _ h => h.1

/-- A command that keeps `P`. -/
theorem work_keep {i : Site} {f : Docker → Docker} (hf : ∀ w, P w → P (f w)) :
    Triple (fun _ => True) P (docker env i (work f)) (fun _ => P) fun _ => P :=
  (of_work (ε := fun _ => True) hP.kept (fun _ _ => trivial) (fun w hw => ⟨trivial, hf w hw⟩)
    fun _ _ _ => trivial).except fun _ _ _ h => h.1.elim id id

theorem healths_keep (at_ : String → HandoffSite) (ids : List String) :
    Triple (fun _ => True) P (healths env svc at_ ids) (fun _ => P) fun _ => P := by
  induction ids with
  | nil => exact Triple.pure fun _ _ h => h
  | cons c cs ih =>
    unfold healths
    refine Triple.bind (Q := fun _ => P) ?_ fun _ => ih.bind fun _ => Triple.pure fun _ _ h => h
    exact (health_rule hP.kept (fun _ _ => trivial) c).conseq (fun _ _ h => h) (fun _ _ _ h => h.1)
      fun _ _ _ h => h.1

theorem waitHealthy_keep (new : List String) (n : ℕ) :
    ∀ k, Triple (fun _ => True) P (waitHealthy env svc new n k) (fun _ => P) fun _ => P := by
  induction n with
  | zero =>
    intro k
    unfold waitHealthy
    refine (healths_keep hP _ new).bind fun states => ?_
    show Triple _ _ (if _ then _ else (if _ then _ else _)) _ _
    split_ifs
    · exact Triple.pure fun _ _ h => h
    · exact Triple.pure fun _ _ h => h
    · exact Triple.pure fun _ _ h => h
  | succ n ih =>
    intro k
    unfold waitHealthy
    refine (healths_keep hP _ new).bind fun states => ?_
    show Triple _ _ (if _ then _ else (if _ then _ else _)) _ _
    split_ifs
    · exact Triple.pure fun _ _ h => h
    · exact Triple.pure fun _ _ h => h
    · exact ih (k + 1)

theorem waitDrained_keep (targets : List String) (n : ℕ) :
    ∀ k, Triple (fun _ => True) P (waitDrained env svc targets n k) (fun _ => P)
      fun _ => P := by
  induction n with
  | zero =>
    intro k
    unfold waitDrained
    refine (healths_keep hP _ targets).bind fun states => ?_
    show Triple _ _ (if _ then _ else _) _ _
    split_ifs
    · exact Triple.pure fun _ _ h => h
    · exact Triple.pure fun _ _ h => h
  | succ n ih =>
    intro k
    unfold waitDrained
    refine (healths_keep hP _ targets).bind fun states => ?_
    show Triple _ _ (if _ then _ else _) _ _
    split_ifs
    · exact Triple.pure fun _ _ h => h
    · exact ih (k + 1)

theorem drainOne_keep (c : String) :
    Triple (fun _ => True) P (drainOne env svc c) (fun _ => P) fun _ => P := by
  unfold drainOne
  refine Triple.tryCatch (E := fun _ => P) ?_ fun e => ?_
  · refine Triple.bind (Q := fun _ => P) ?_ fun b => ?_
    · exact (of_see (ε := fun _ => True) hP.kept (fun _ _ => trivial)
        (fun w a es hw _ => hP.kept.record w es hw) (fun _ _ _ _ => trivial)
        fun _ _ _ => trivial).except fun _ _ _ h => h.1
    · show Triple _ _ (if _ then _ else _) _ _
      split_ifs
      · refine Triple.bind (Q := fun _ => P) ?_ fun _ => Triple.pure fun _ _ h => h
        exact work_keep hP fun w hw => hP.onIds w [c] _ (fun _ => ⟨rfl, rfl⟩) hw
      · exact Triple.pure fun _ _ h => h
  · show Triple _ _ (if _ then _ else _) _ _
    split_ifs
    · exact Triple.pure fun _ _ h => h
    · exact Triple.throw fun _ _ h => h

theorem drainTargets_keep (ids : List String) :
    Triple (fun _ => True) P (drainTargets env svc ids) (fun _ => P) fun _ => P := by
  induction ids with
  | nil => exact Triple.pure fun _ _ h => h
  | cons c cs ih =>
    unfold drainTargets
    exact (drainOne_keep hP c).bind fun _ => ih.bind fun _ => Triple.pure fun _ _ h => h

theorem drain_keep (old : List String) :
    Triple (fun _ => True) P (drain env svc old) (fun _ => P) fun _ => P := by
  unfold drain
  refine (drainTargets_keep hP old).bind fun t => ?_
  show Triple _ _ (if _ then _ else _) _ _
  split_ifs
  · exact Triple.pure fun _ _ h => h
  · exact waitDrained_keep hP t _ 0

theorem stop_keep (i : Site) (ids : List String) :
    Triple (fun _ => True) P (stop env i ids) (fun _ => P) fun _ => P :=
  work_keep hP fun w hw =>
    hP.kept.record _ _ (hP.onIds w ids Container.exit (fun _ => ⟨rfl, rfl⟩) hw)

theorem rm_keep (i : Site) (ids : List String) :
    Triple (fun _ => True) P (rm env i ids) (fun _ => P) fun _ => P :=
  work_keep hP fun w hw => hP.kept.record _ _ (hP.remove w ids hw)

theorem up_scale_keep (i : Site) (svc : String) :
    Triple (fun _ => True) P (up_scale env i svc) (fun _ => P) fun _ => P :=
  work_keep hP fun w hw => hP.kept.record _ _ (hP.create _ svc _ (hP.onIds w _ _ start_origin hw))

theorem abort_keep (at_ : AbortSite → HandoffSite) (new : List String) :
    Triple (fun _ => True) P (abort env svc at_ new) (fun _ => P) fun _ => P := by
  have hlogs : Triple (fun _ => True) P (abortLogs env svc at_ new) (fun _ => P)
      fun _ w => P w ∧ True :=
    abortLogs_rule (ε := fun _ => True) trivial (fun _ _ _ _ => trivial) hP.kept
      (fun _ _ => trivial) new
  unfold abort
  refine (hlogs.except fun _ _ _ h => h.1).bind fun _ => ?_
  show Triple _ _ (if _ then _ else _) _ _
  split_ifs
  · exact Triple.pure fun _ _ h => h
  · exact (stop_keep hP _ new).bind fun _ => (rm_keep hP _ new).bind fun _ =>
      Triple.pure fun _ _ h => h

theorem handoff_keep (old : List String) :
    Triple (fun _ => True) P (handoff env svc old) (fun _ => P) fun _ => P := by
  unfold handoff
  refine Triple.bind (Q := fun _ => P) (of_say fun w _ h => ⟨trivial, hP.kept.record w _ h⟩)
    fun _ => (up_scale_keep hP _ svc).bind fun _ => (ps_keep hP _ svc true).bind fun l => ?_
  show Triple _ _ (if _ then _ else _) _ _
  split_ifs
  · exact abort_keep hP _ _
  · refine (waitHealthy_keep hP _ _ 0).bind fun b => ?_
    show Triple _ _ (if _ then _ else _) _ _
    split_ifs
    · exact (drain_keep hP old).bind fun _ => (stop_keep hP _ old).bind fun _ =>
        (rm_keep hP _ old).bind fun _ => Triple.pure fun _ _ h => h
    · exact abort_keep hP _ _

theorem anyRunning_keep (ids : List String) :
    Triple (fun _ => True) P (anyRunning env svc ids) (fun _ => P) fun _ => P := by
  induction ids with
  | nil => exact Triple.pure fun _ _ h => h
  | cons c cs ih =>
    unfold anyRunning
    refine (ps_keep hP _ svc false).bind fun l => ?_
    show Triple _ _ (if _ then _ else _) _ _
    split_ifs
    · exact Triple.pure fun _ _ h => h
    · exact ih

theorem cleanup_keep (old : List String) :
    Triple (fun _ => True) P (cleanup env svc old) (fun _ => P) fun _ => P := by
  unfold cleanup
  refine (anyRunning_keep hP old).bind fun b => ?_
  show Triple _ _ (if _ then _ else _) _ _
  split_ifs
  · exact (ps_keep hP _ svc true).bind fun l => abort_keep hP _ _
  · exact Triple.pure fun _ _ h => h

theorem safe_handoff_keep (old : List String) :
    Triple (fun _ => True) P (safe_handoff env svc old) (fun _ => P) fun _ => P := by
  unfold safe_handoff
  refine Triple.tryCatch (handoff_keep hP old) fun _ => Triple.tryCatch (cleanup_keep hP old) fun e => ?_
  show Triple _ _ (if _ then _ else _) _ _
  split_ifs
  · exact Triple.pure fun _ _ h => h
  · exact Triple.throw fun _ _ h => h

theorem handoffs_keep (todo : List (String × List String)) :
    Triple (fun _ => True) P (handoffs env todo) (fun _ => P) fun _ => P := by
  induction todo with
  | nil => exact Triple.pure fun _ _ h => h
  | cons x todo ih =>
    unfold handoffs
    refine (safe_handoff_keep hP x.2).bind fun done => ?_
    exact Triple.bind (Q := fun _ => P) (of_say fun w _ h => ⟨trivial, hP.kept.record w _ h⟩)
      fun _ => ih.bind fun _ => Triple.pure fun _ _ h => h

end Keep

/-- An abort answers `false`. -/
theorem abort_false (at_ : AbortSite → HandoffSite) (new : List String) :
    Triple (fun _ => True) P (abort env svc at_ new) (fun b _ => b = false) fun _ _ => True :=
  (@abort_log env [] (fun _ => True) svc at_ new fun _ _ _ _ => trivial).conseq
    (fun w _ _ => ⟨w.log, rfl, trivial⟩) (fun _ _ _ h => h.1) fun _ _ _ _ => trivial

theorem cleanup_false (old : List String) :
    Triple (fun _ => True) P (cleanup env svc old) (fun b _ => b = false) fun _ _ => True := by
  unfold cleanup
  refine Triple.top.bind fun b => ?_
  show Triple _ _ (if _ then _ else _) _ _
  split_ifs
  · exact Triple.top.bind fun l => abort_false _ _
  · exact Triple.pure fun _ _ _ => rfl

variable {X : String → String → Prop}

theorem handoffKept_outdated (hor : OnlyReload env) : HandoffKept env (OnlyOutdated env X) where
  kept := kept_outdated hor
  onIds w ids _ hf h := h.of_origins (origins_onIds w ids hf)
  remove _ ids h := (h.remove ids).mono fun _ _ hX => hX.1
  create _ svc cs h := h.createAll svc cs

theorem handoff_outdated (hor : OnlyReload env) (old : List String) :
    Triple (fun _ => True) (OnlyOutdated env X) (handoff env svc old)
      (fun b w => b = true → OnlyOutdated env (fun id s => X id s ∧ id ∉ old) w)
      fun _ _ => True := by
  have hP : HandoffKept env (OnlyOutdated env X) := handoffKept_outdated hor
  have habort : ∀ new, Triple (fun _ => True) (OnlyOutdated env X) (abort env svc .abort new)
      (fun b w => b = true → OnlyOutdated env (fun id s => X id s ∧ id ∉ old) w)
      fun _ _ => True := fun new => (abort_false _ new).conseq (fun _ _ h => h)
    (fun _ _ _ h hb => absurd (h.symm.trans hb) (by simp)) fun _ _ _ h => h
  have htop : ∀ {α : Type} {x : Reload α}, Triple (fun _ => True) (OnlyOutdated env X) x
      (fun _ => OnlyOutdated env X) (fun _ => OnlyOutdated env X) →
      Triple (fun _ => True) (OnlyOutdated env X) x (fun _ => OnlyOutdated env X)
        fun _ _ => True := fun h => h.except fun _ _ _ _ => trivial
  unfold handoff
  refine Triple.bind (Q := fun _ => OnlyOutdated env X) (of_say fun w _ h => ⟨trivial, h⟩)
    fun _ => (htop (up_scale_keep hP _ svc)).bind fun _ => (htop (ps_keep hP _ svc true)).bind
      fun l => ?_
  show Triple _ _ (if _ then _ else _) _ _
  split_ifs
  · exact habort _
  · refine (htop (waitHealthy_keep hP _ _ 0)).bind fun b => ?_
    show Triple _ _ (if _ then _ else _) _ _
    split_ifs
    · unfold retire
      refine (htop (drain_keep hP old)).bind fun _ => (htop (stop_keep hP _ old)).bind fun _ => ?_
      refine Triple.bind (Q := fun _ => OnlyOutdated env fun id s => X id s ∧ id ∉ old) ?_
        fun _ => Triple.pure fun _ _ h _ => h
      exact (of_work (ε := fun _ => True) hP.kept (fun _ _ => trivial)
        (fun w hw => ⟨trivial, (kept_outdated hor).record _ _ (hw.remove old)⟩)
        fun _ _ _ => trivial).except fun _ _ _ _ => trivial
    · exact habort _

/-- A handoff that succeeds has removed the old containers, and has made nothing that is
out of date. -/
theorem safe_handoff_outdated (hor : OnlyReload env) (old : List String) :
    Triple (fun _ => True) (OnlyOutdated env X) (safe_handoff env svc old)
      (fun b w => b = true → OnlyOutdated env (fun id s => X id s ∧ id ∉ old) w)
      fun _ _ => True := by
  unfold safe_handoff
  refine Triple.tryCatch (handoff_outdated hor old) fun _ => ?_
  refine Triple.tryCatch (E := fun _ _ => True) ?_ fun e => ?_
  · exact (cleanup_false old).conseq (fun _ _ h => h)
      (fun _ _ _ h hb => absurd (h.symm.trans hb) (by simp)) fun _ _ _ h => h
  · show Triple _ _ (if _ then _ else _) _ _
    split_ifs
    · exact Triple.pure fun _ _ _ h => absurd h (by simp)
    · exact Triple.throw fun _ _ _ => trivial

theorem handoffs_outdated (hor : OnlyReload env) (todo : List (String × List String)) :
    ∀ X, Triple (fun _ => True) (OnlyOutdated env X) (handoffs env todo)
      (fun failed w => failed = [] →
        OnlyOutdated env (fun id s => X id s ∧ ∀ x ∈ todo, id ∉ x.2) w) fun _ _ => True := by
  induction todo with
  | nil => exact fun X => Triple.pure fun w _ h _ => h.mono fun id s hX => ⟨hX, by simp⟩
  | cons x todo ih =>
    intro X
    obtain ⟨svc, old⟩ := x
    unfold handoffs
    refine (safe_handoff_outdated hor old).bind fun done => ?_
    cases done with
    | false =>
      refine Triple.top.bind fun _ => Triple.top.bind fun failed => Triple.pure fun w _ _ h => ?_
      exact absurd h (by simp)
    | true =>
      refine Triple.bind (Q := fun _ => OnlyOutdated env fun id s => X id s ∧ id ∉ old)
        (of_say fun w _ h => ⟨trivial, h rfl⟩) fun _ => ?_
      refine (ih _).bind fun failed => Triple.pure fun w _ h hf => (h hf).mono fun id s hX => ?_
      exact ⟨hX.1.1, List.forall_mem_cons.mpr ⟨hX.1.2, hX.2⟩⟩

end Handoff

/-! ### Recreating in place -/

section Finish

variable {env : ComposeEnv} {X : String → String → Prop} {w : Docker}

/-- Recreating a service leaves none of its containers but those kept. -/
theorem OnlyOutdated.recreate (h : OnlyOutdated env X w) (svc : String) (kept : List String)
    (cs : List Container) :
    OnlyOutdated env (fun id s => X id s ∧ (s = svc → id ∈ kept))
      (w.recreate svc kept (newContainers env svc cs)) := by
  unfold Docker.recreate
  refine OnlyOutdated.createAll ?_ svc cs
  refine OnlyOutdated.of_origins ?_ (origins_onIds _ _ start_origin)
  intro id k hk ho
  rw [Docker.container_remove] at hk
  split_ifs at hk with hid
  refine ⟨h id k hk ho, fun hs => ?_⟩
  by_contra hkept
  refine hid (List.mem_filter.mpr ⟨?_, by simpa using hkept⟩)
  exact Docker.mem_ids.mpr ⟨k, hk, hs, .inl rfl⟩

/-- Recreating other services leaves a container as it is. -/
theorem container_recreate {id svc : String} {k : Container} (hk : w.container id = some k)
    (hs : k.service ≠ svc) (kept : List String) (new : List Container) :
    (w.recreate svc kept new).container id = some k := by
  have hid : id ∉ w.ids svc true := by
    intro hid
    obtain ⟨k', hk', hs', -⟩ := Docker.mem_ids.mp hid
    obtain rfl : k = k' := Option.some_inj.mp (hk.symm.trans hk')
    exact hs hs'
  unfold Docker.recreate
  refine Docker.createAll_of_some _ ?_
  rw [Docker.container_onIds, if_neg fun h => hid (List.mem_of_mem_filter h),
    Docker.container_remove, if_neg fun h => hid (List.mem_of_mem_filter h), hk]

/-- A service with a running container. -/
def Runs (svc : String) (w : Docker) : Prop :=
  ∃ id k, w.container id = some k ∧ k.service = svc ∧ k.status = .running

theorem running_start (k : Container) : k.start.status = .running := by
  unfold Container.start
  split_ifs with h
  · exact h
  · rfl

theorem runs_newContainer (svc : String) :
    ∃ k ∈ newContainer env svc, k.service = svc ∧ k.status = .running :=
  ⟨_, List.mem_singleton_self _, rfl, rfl⟩

/-- `up` leaves a service running. -/
theorem runs_upService (svc : String) : Runs svc (upService env w svc) := by
  unfold upService
  dsimp only
  split_ifs with hkept
  · obtain ⟨k, hk, hs, hr⟩ := runs_newContainer svc
    obtain ⟨id, hid⟩ := Docker.exists_of_createAll (k := k) (newContainer env svc) hk
    exact ⟨id, k, hid, hs, hr⟩
  · obtain ⟨id, hid⟩ := List.exists_mem_of_ne_nil _ hkept
    have hin := List.mem_of_mem_filter hid
    obtain ⟨k, hk, hs, -⟩ := Docker.mem_ids.mp hin
    refine ⟨id, k.start, ?_, (start_origin k).1.trans hs, running_start k⟩
    refine Docker.createAll_of_some _ ?_
    rw [Docker.container_onIds, if_pos (List.mem_filter.mpr ⟨hin, by simpa using hid⟩),
      Docker.container_remove, if_neg (by simp [List.mem_filter, List.mem_filter.mp hid |>.2, hin]), hk]
    rfl

theorem Runs.upService {svc : String} (h : Runs svc w) (s : String) :
    Runs svc (upService env w s) := by
  by_cases hs : svc = s
  · exact hs ▸ runs_upService svc
  · obtain ⟨id, k, hk, hks, hr⟩ := h
    exact ⟨id, k, container_recreate hk (by rw [hks]; exact hs) _ _, hks, hr⟩

theorem Runs.foldl_upService {svc : String} (services : List String) :
    ∀ {w : Docker}, Runs svc w → Runs svc (services.foldl (Compose.upService env) w) := by
  induction services with
  | nil => exact fun h => h
  | cons s services ih => exact fun h => ih (h.upService s)

/-- `up` leaves every service of the compose file running. -/
theorem runs_foldl_upService {svc : String} (services : List String) (hsvc : svc ∈ services) :
    ∀ w : Docker, Runs svc (services.foldl (upService env) w) := by
  induction services with
  | nil => exact absurd hsvc List.not_mem_nil
  | cons s services ih =>
    intro w
    rcases List.mem_cons.mp hsvc with rfl | hmem
    · exact (runs_upService svc).foldl_upService services
    · exact ih hmem _

theorem OnlyOutdated.upService (h : OnlyOutdated env X w) (s : String) :
    OnlyOutdated env X (upService env w s) := by
  unfold Compose.upService
  dsimp only
  split_ifs
  · exact (h.recreate s _ [_]).mono fun id s hX => hX.1
  · exact (h.recreate s _ []).mono fun id s hX => hX.1

theorem OnlyOutdated.foldl_upService (services : List String) :
    ∀ {w : Docker}, OnlyOutdated env X w →
      OnlyOutdated env X (services.foldl (Compose.upService env) w) := by
  induction services with
  | nil => exact fun h => h
  | cons s services ih => exact fun h => ih (h.upService s)

/-- After a force-recreate no container of the services is out of date. -/
theorem OnlyOutdated.foldl_recreate (services : List String) :
    ∀ {X : String → String → Prop} {w : Docker}, OnlyOutdated env X w →
      OnlyOutdated env (fun id s => X id s ∧ s ∉ services)
        (services.foldl (fun w s => w.recreate s [] (newContainer env s)) w) := by
  induction services with
  | nil => exact fun h => h.mono fun id s hX => ⟨hX, List.not_mem_nil⟩
  | cons svc services ih =>
    intro X w h
    refine (ih (h.recreate svc [] _)).mono fun id s hX => ⟨hX.1.1, ?_⟩
    rw [List.mem_cons, not_or]
    exact ⟨fun hs => absurd (hX.1.2 hs) List.not_mem_nil, hX.2⟩

/-- A call of `finish` that answers has done its work on all its services. -/
theorem finishCall_rule {i : Site} {f : Docker → Docker} {P Q : Docker → Prop}
    (hb : ∀ w, P w → P (env.toEnv.before i w)) (hf : env.outcome i = .ok → ∀ w, P w → Q (f w)) :
    Triple (fun _ => True) P (docker env i (work f)) (fun _ => Q) fun _ _ => True := by
  cases ho : env.outcome i with
  | raise e done => exact Triple.of_raise ho
  | ok =>
    exact Triple.of_call P (fun w _ hw => ⟨trivial, hb w hw⟩) (fun w _ hw => ⟨trivial, hf ho w hw⟩)
      fun _ _ _ _ _ _ => trivial

theorem reachedOf_ok {i : Site} (h : env.outcome i = .ok) (services : List String) :
    reachedOf env i services = services := by
  rw [reachedOf, h]

/-- What the run leaves: the containers out of date are of `X` and of no recreated service,
every service of the compose file runs, and the fingerprints are recorded. -/
theorem finish_outdated (hor : OnlyReload env) {args : Args} (hargs : args.state = true)
    (recreate : List String) (mounts : List (String × List String)) :
    Triple (fun _ => True) (OnlyOutdated env X) (finish env args recreate mounts)
      (fun _ w => (OnlyOutdated env (fun id s => X id s ∧ s ∉ recreate) w ∧
        ∀ svc ∈ env.specs.map Prod.fst, Runs svc w) ∧
        w.state = some ⟨STATE_VERSION, some mounts⟩) fun _ _ => True := by
  set X' : String → String → Prop := fun id s => X id s ∧ s ∉ recreate with hX'
  have hK : ∀ {Y}, Kept env (OnlyOutdated env Y) := kept_outdated hor
  unfold finish
  refine Triple.bind (Q := fun _ => OnlyOutdated env X') ?_ fun _ => ?_
  · unfold recreateInPlace
    split_ifs with hnil
    · exact Triple.pure fun w _ h => h.mono fun id s hX => ⟨hX, by rw [hnil]; exact List.not_mem_nil⟩
    · refine finishCall_rule (fun w h => hK.before _ w h) fun ho w h => ?_
      rw [reachedOf_ok ho]
      exact hK.record _ _ (h.foldl_recreate recreate)
  refine Triple.bind (Q := fun _ w => OnlyOutdated env X' w ∧
    ∀ svc ∈ env.specs.map Prod.fst, Runs svc w) ?_ fun _ => ?_
  · refine finishCall_rule (fun w h => hK.before _ w h) fun ho w h => ?_
    rw [reachedOf_ok ho]
    refine ⟨hK.record _ _ (OnlyOutdated.foldl_upService _ ?_), fun svc hsvc =>
      runs_foldl_upService _ hsvc _⟩
    exact (h.remove _).mono fun id s hX => hX.1
  unfold record_state
  rw [if_pos hargs]
  refine Triple.bind (Q := fun _ w => (OnlyOutdated env X' w ∧
    ∀ svc ∈ env.specs.map Prod.fst, Runs svc w) ∧ w.state = some ⟨STATE_VERSION, some mounts⟩) ?_
      fun _ => Triple.pure fun _ _ h => h
  refine finishCall_rule (fun w h => ⟨hK.before _ w h.1, fun svc hsvc => ?_⟩) fun _ w h => ⟨h, rfl⟩
  obtain ⟨id, k, hk, hs, hr⟩ := h.2 svc hsvc
  obtain ⟨k', hk', hr'⟩ := hor.running .saveState w id k (.inr rfl) hk hr
  have horig := congrFun (hor.origins .saveState w) id
  rw [origins_of_some hk', origins_of_some hk] at horig
  exact ⟨id, k', hk', (Prod.mk.inj (Option.some_inj.mp horig)).1.trans hs, hr'⟩

end Finish

/-! ### The state file -/

/-- The state file is there, in the current format. -/
def HasRecord (w : Docker) : Prop := ∃ rec_, w.state = some ⟨STATE_VERSION, some rec_⟩

section State

variable {env : ComposeEnv}

@[simp] theorem state_record (w : Docker) (es : List Event) : (w.record es).state = w.state := rfl

@[simp] theorem state_createAll (cs : List Container) :
    ∀ w : Docker, (w.createAll cs).state = w.state := by
  induction cs with
  | nil => exact fun _ => rfl
  | cons c cs ih => exact fun w => ih (w.create c)

@[simp] theorem state_recreate (w : Docker) (svc : String) (kept : List String)
    (new : List Container) : (w.recreate svc kept new).state = w.state := by
  rw [Docker.recreate, state_createAll]
  rfl

theorem state_foldl {f : Docker → String → Docker} (hf : ∀ w s, (f w s).state = w.state)
    (services : List String) : ∀ w, (services.foldl f w).state = w.state := by
  induction services with
  | nil => exact fun _ => rfl
  | cons s services ih => exact fun w => (ih _).trans (hf w s)

theorem handoffKept_record : HandoffKept env HasRecord where
  kept := ⟨fun _ _ h => h, fun _ _ h => h, fun _ _ h => h⟩
  onIds _ _ _ _ h := h
  remove _ _ h := h
  create w svc cs h := by rwa [HasRecord, state_createAll]

/-- A call after the handoffs leaves a state file, if there was one. -/
theorem finishCall_record {i : Site} {f : Docker → Docker} (hf : ∀ w, HasRecord w → HasRecord (f w)) :
    Triple (fun _ => True) HasRecord (docker env i (work f)) (fun _ => HasRecord)
      fun _ => HasRecord :=
  work_keep handoffKept_record hf

/-- However a run ends, a state file in the current format stays one. -/
theorem main_record (content_hash : String → String) (args : Args) :
    Triple (fun _ => True) HasRecord (main env content_hash args) (fun _ => HasRecord)
      fun _ => HasRecord := by
  have hP : PlanKept env HasRecord := ⟨fun _ _ _ h => h, fun _ _ _ h => h, fun _ _ h => h⟩
  have hforce : ∀ recreate, Triple (fun _ => True) HasRecord (force_recreate env recreate)
      (fun _ => HasRecord) fun _ => HasRecord := fun recreate => by
    refine finishCall_record fun w h => ?_
    rwa [HasRecord, state_record, state_foldl fun w s => state_recreate w s [] _]
  have hup : Triple (fun _ => True) HasRecord (up env) (fun _ => HasRecord)
      fun _ => HasRecord := by
    have hf : ∀ w s, (upService env w s).state = w.state := fun w s => state_recreate w s _ _
    refine finishCall_record fun w h => ?_
    rwa [HasRecord, state_record, state_foldl hf]
  unfold main
  refine Triple.bind (Q := fun _ => HasRecord) ?_ fun r => ?_
  · exact (compareState_rule (S := fun _ => True) _ _ hP fun _ _ => trivial).conseq
      (fun _ _ h => h) (fun _ _ _ h => h.1) fun _ _ _ h => h
  obtain ⟨forced, mounts⟩ := r
  refine (plan_keeps hP forced).bind fun todo => ?_
  unfold execute
  split_ifs
  · exact Triple.pure fun _ _ h => h
  · refine (handoffs_keep handoffKept_record todo).bind fun failed => ?_
    show Triple _ _ (if _ then _ else _) _ _
    split_ifs
    · exact Triple.pure fun _ _ h => h
    · unfold finish
      refine Triple.bind (Q := fun _ => HasRecord) ?_ fun _ => hup.bind fun _ =>
        Triple.bind (Q := fun _ => HasRecord) ?_ fun _ => Triple.pure fun _ _ h => h
      · unfold recreateInPlace
        split_ifs
        · exact Triple.pure fun _ _ h => h
        · exact hforce _
      · unfold record_state
        split_ifs
        · exact finishCall_record fun w _ => ⟨mounts, rfl⟩
        · exact Triple.pure fun _ _ h => h

end State

/-! ### One run -/

/-- What the fingerprints make of the contents of a service's mounts. -/
def prints (content_hash : String → String) (shown : List Shown) : List String :=
  sorted (shown.map (fingerprint content_hash))

/-- The condition on the start of a run.  The state file can be read; the fingerprints tell
the contents a container was made from and the current ones apart; a container that is out
of date was made from the recorded contents, or its service's fingerprint is not the
recorded one; and one of a service labelled for handoff is running or the only one. -/
structure Traceable (content_hash : String → String) (env : ComposeEnv) (w : Docker) : Prop where
  readable : env.outcome .loadState = .ok
  told : ∀ id k, w.container id = some k → k.service ∈ env.specs.map Prod.fst →
    prints content_hash k.mounts = prints content_hash (env.shown k.service) → ¬ k.Outdated env
  forced : ∀ rec_, w.state = some ⟨STATE_VERSION, some rec_⟩ → ∀ id k, w.container id = some k →
    k.service ∈ env.specs.map Prod.fst → k.Outdated env →
      rec_.lookup k.service = some (prints content_hash k.mounts) ∨
        ∃ p, rec_.lookup k.service = some p ∧ p ≠ prints content_hash (env.shown k.service)
  alone : ∀ id k, w.container id = some k →
    ((env.specs.lookup k.service).getD {}).labelled = true → k.Outdated env →
      k.status = .running ∨
        ∀ id' k', w.container id' = some k' → k'.service = k.service → id' = id

/-- The stack runs on the current contents, and their fingerprints are recorded. -/
structure Converged (content_hash : String → String) (env : ComposeEnv) (w : Docker) : Prop where
  recorded : w.state =
    some ⟨STATE_VERSION, some (mount_fingerprints content_hash env.files env.specs)⟩
  runs : ∀ svc ∈ (mount_fingerprints content_hash env.files env.specs).map Prod.fst,
    ∃ id k, w.container id = some k ∧ k.service = svc ∧ k.status = .running ∧
      k.mounts = env.shown svc
  current : ∀ id k, w.container id = some k → k.service ∈ env.specs.map Prod.fst →
    k.mounts = env.shown k.service

section Run

variable {content_hash : String → String} {env : ComposeEnv} {w : Docker}

theorem lookup_of_mem {specs : Specs} {svc : String} (h : svc ∈ specs.map Prod.fst) :
    ∃ spec, specs.lookup svc = some spec ∧ (svc, spec) ∈ specs := by
  induction specs with
  | nil => exact absurd h List.not_mem_nil
  | cons s specs ih =>
    by_cases heq : svc = s.1
    · exact ⟨s.2, by rw [List.lookup_cons, heq, beq_self_eq_true], by rw [heq]; simp⟩
    · have hmem : svc ∈ specs.map Prod.fst := by simpa [heq] using h
      obtain ⟨spec, hl, hm⟩ := ih hmem
      refine ⟨spec, ?_, List.mem_cons_of_mem _ hm⟩
      rw [List.lookup_cons, beq_eq_false_iff_ne.mpr heq]
      exact hl

/-- A service whose current fingerprint is not the recorded one is forced. -/
theorem mem_mounts_changed {rec_ : List (String × List String)} {svc : String} {p : List String}
    (hsvc : svc ∈ env.specs.map Prod.fst) (hp : rec_.lookup svc = some p)
    (hne : p ≠ prints content_hash (env.shown svc)) :
    svc ∈ mounts_changed (some rec_) (mount_fingerprints content_hash env.files env.specs) := by
  obtain ⟨spec, hl, hmem⟩ := lookup_of_mem hsvc
  rw [ComposeEnv.shown, hl, Option.getD_some] at hne
  refine List.mem_map.mpr ⟨(svc, prints content_hash (spec.shown env.files)), ?_, rfl⟩
  refine List.mem_filter.mpr ⟨List.mem_map.mpr ⟨_, hmem, rfl⟩, ?_⟩
  rw [hp, Option.any_some]
  exact decide_eq_true hne

/-- Only forced services have containers that are out of date. -/
theorem Traceable.forced_of_outdated (ht : Traceable content_hash env w)
    {rec_ : List (String × List String)} (hrec : w.state = some ⟨STATE_VERSION, some rec_⟩)
    {id : String} {k : Container} (hk : w.container id = some k)
    (hsvc : k.service ∈ env.specs.map Prod.fst) (ho : k.Outdated env) :
    k.service ∈ mounts_changed (some rec_) (mount_fingerprints content_hash env.files env.specs) := by
  rcases ht.forced rec_ hrec id k hk hsvc ho with hp | ⟨p, hp, hne⟩
  · exact mem_mounts_changed hsvc hp fun heq => ht.told id k hk hsvc heq ho
  · exact mem_mounts_changed hsvc hp hne

/-- What is known while the run is being planned: the containers are made of what they were
made of, and those out of date that were running still are. -/
structure Planning (env : ComposeEnv) (w w' : Docker) : Prop where
  origins : w'.origins = w.origins
  state : w'.state = w.state
  running : ∀ id k, w.container id = some k → k.status = .running →
    ∃ k', w'.container id = some k' ∧ k'.status = .running

theorem planKept_planning (hor : OnlyReload env) : PlanKept env (Planning env w) where
  before i w' hi h :=
    { origins := (hor.origins i w').trans h.origins
      state := h.state
      running := fun id k hk hr => by
        obtain ⟨k', hk', hr'⟩ := h.running id k hk hr
        exact hor.running i w' id k' (.inl hi) hk' hr' }
  listed _ _ _ h := ⟨h.origins, h.state, h.running⟩
  images _ _ h := ⟨h.origins, h.state, h.running⟩

/-- When a labelled service has one running container, no other one of it is out of date. -/
theorem Traceable.listed (ht : Traceable content_hash env w) {w' : Docker}
    (h : Planning env w w') {svc c : String}
    (hlab : ((env.specs.lookup svc).getD {}).labelled = true) (hids : w'.ids svc false = [c]) :
    OnlyOutdated env (fun id s => s = svc → id = c) w' := by
  intro id k' hk' ho hs
  have horig := origins_of_some hk'
  rw [h.origins] at horig
  obtain ⟨k, hk, hks, hkm⟩ := exists_of_origins horig
  have hok : k.Outdated env := by rw [Container.Outdated, hks, hkm]; exact ho
  rcases ht.alone id k hk (by rw [hks, hs]; exact hlab) hok with hr | honly
  · obtain ⟨k'', hk'', hr''⟩ := h.running id k hk hr
    obtain rfl : k' = k'' := Option.some_inj.mp (hk'.symm.trans hk'')
    have hmem : id ∈ w'.ids svc false := Docker.mem_ids.mpr ⟨k', hk', hs, .inr hr''⟩
    rwa [hids, List.mem_singleton] at hmem
  · have hmem : c ∈ w'.ids svc false := by rw [hids]; exact List.mem_singleton_self c
    obtain ⟨kc, hkc, hsc, -⟩ := Docker.mem_ids.mp hmem
    have horigc := origins_of_some hkc
    rw [h.origins] at horigc
    obtain ⟨k₁, hk₁, hs₁, -⟩ := exists_of_origins horigc
    exact (honly c k₁ hk₁ (by rw [hs₁, hsc, hks, hs])).symm

/-- A run that answers 0 leaves the stack on the current contents. -/
theorem reload_run (hor : OnlyReload env) {args : Args} (hstate : args.state = true)
    (hdry : args.dry_run = false) (hrec : HasRecord w) (ht : Traceable content_hash env w) :
    Triple (fun _ => True) (fun w' => w' = w) (main env content_hash args)
      (fun n w' => n = 0 → Converged content_hash env w') fun _ _ => True := by
  obtain ⟨rec_, hrec⟩ := hrec
  set mounts := mount_fingerprints content_hash env.files env.specs with hmounts
  have hP : PlanKept env (Planning env w) := planKept_planning hor
  unfold main
  refine Triple.bind (Q := fun r w' => (r.1 = mounts_changed (some rec_) mounts ∧ r.2 = mounts) ∧
    Planning env w w') ?_ fun r => Triple.of_fact fun hr => ?_
  · refine (compareState_rule (S := fun prev => prev = some rec_) content_hash _ hP
      fun w' h => ?_).conseq (fun w' _ h => ?_) (fun r w' _ h => ⟨?_, h.1⟩) fun _ _ _ _ => trivial
    · rw [h.state, hrec]
      rfl
    · exact h ▸ ⟨rfl, rfl, fun id k hk hrun => ⟨k, hk, hrun⟩⟩
    · obtain ⟨hm, prev, hf, hprev⟩ := h.2.1 hstate
      rcases hprev with rfl | ⟨-, ho⟩
      · exact ⟨by rw [hf, hm], hm⟩
      · exact absurd ht.readable ho
  obtain ⟨forced, mounts'⟩ := r
  obtain ⟨rfl, rfl⟩ : forced = _ ∧ mounts' = _ := hr
  -- the containers that may be out of date when the handoffs begin
  have hplan := plan_rule (G := fun _ => True)
    (F := fun svc old => OnlyOutdated env fun id s => s = svc → id ∈ old)
    (mounts_changed (some rec_) mounts) hP
    (fun _ _ => planKept_outdated hor)
    (fun w' svc c h hlab hids => (ht.listed h hlab hids).mono fun id s hX hs =>
      List.mem_singleton.mpr (hX hs))
    fun P' hP' _ svc dep => (oneshotChanged_rule hP' svc dep _).conseq (fun _ _ h => h)
      (fun _ _ _ h => ⟨h, fun _ => trivial⟩) fun _ _ _ h => h
  refine Triple.bind (Q := fun todo => OnlyOutdated env fun id s =>
      s ∈ env.specs.map Prod.fst → s ∈ mounts_changed (some rec_) mounts ∧
        ∀ old, (s, old) ∈ todo → id ∈ old)
    (hplan.conseq (fun _ _ h => h) (fun todo w' _ h => ?_) fun _ _ _ _ => trivial) fun todo => ?_
  · intro id k' hk' ho hsvc
    have horig := origins_of_some hk'
    rw [h.1.origins] at horig
    obtain ⟨k, hk, hks, hkm⟩ := exists_of_origins horig
    refine ⟨?_, fun old hmem => (h.2 _ old hmem).2.2 id k' hk' ho rfl⟩
    rw [← hks]
    exact ht.forced_of_outdated hrec hk (by rwa [hks]) (by rw [Container.Outdated, hks, hkm]; exact ho)
  unfold execute
  rw [if_neg (by rw [hdry]; simp)]
  refine (handoffs_outdated hor todo _).bind fun failed => ?_
  show Triple _ _ (if _ then _ else _) _ _
  split_ifs with hfailed
  · exact Triple.pure fun _ _ _ h => absurd h (by simp)
  · refine ((finish_outdated hor hstate _ mounts).weaken fun w' _ h => h (not_not.mp hfailed)).conseq
      (fun _ _ h => h) (fun n w' _ h _ => ?_) fun _ _ _ h => h
    have hcurrent : ∀ id k, w'.container id = some k → k.service ∈ env.specs.map Prod.fst →
        k.mounts = env.shown k.service := by
      intro id k hk hsvc
      by_contra ho
      obtain ⟨⟨hX, hnot⟩, hnrec⟩ := h.1.1 id k hk ho
      obtain ⟨hforced, hold⟩ := hX hsvc
      refine hnrec (mem_sorted.mpr (List.mem_filter.mpr ⟨hforced, ?_⟩))
      -- handed off: then the container was an old one, and those are gone
      rw [decide_eq_true_eq]
      intro hmem
      obtain ⟨x, hx, hxs⟩ := List.mem_map.mp hmem
      obtain ⟨s, old⟩ := x
      obtain rfl : s = k.service := hxs
      exact hnot _ hx (hold old hx)
    refine ⟨h.2, fun svc hsvc => ?_, hcurrent⟩
    have hsvc' : svc ∈ env.specs.map Prod.fst := by
      rwa [mount_fingerprints, List.map_map] at hsvc
    obtain ⟨id, k, hk, hks, hrun⟩ := h.1.2 svc hsvc'
    exact ⟨id, k, hk, hks, hrun, by rw [hcurrent id k hk (hks ▸ hsvc'), hks]⟩

end Run

/-! ### Histories -/

/-- One run of compose-reload on the stack, with whatever outcome, from a world that meets
the condition; before it the contents of the mounts may have changed. -/
inductive ReloadStep (content_hash : String → String) (specs : Specs) : Docker → Docker → Prop
  | run {env : ComposeEnv} {w : Docker} (args : Args) : env.specs = specs → OnlyReload env →
      Traceable content_hash env w →
      ReloadStep content_hash specs w (outcomeOf (main env content_hash args) w).2.now

/-- Every container of the stack was made from the recorded contents. -/
def Recorded (content_hash : String → String) (specs : Specs) (w : Docker) : Prop :=
  ∃ rec_, w.state = some ⟨STATE_VERSION, some rec_⟩ ∧ ∀ id k, w.container id = some k →
    k.service ∈ specs.map Prod.fst → rec_.lookup k.service = some (prints content_hash k.mounts)

theorem reload_step_record {content_hash : String → String} {specs : Specs} {w w' : Docker}
    (h : ReloadStep content_hash specs w w') (hw : HasRecord w) : HasRecord w' := by
  cases h with
  | run args _ _ _ => exact (main_record content_hash args).of_end trivial hw

theorem reload_history_record {content_hash : String → String} {specs : Specs} {w₀ w : Docker}
    (h₀ : Recorded content_hash specs w₀)
    (hrun : Relation.ReflTransGen (ReloadStep content_hash specs) w₀ w) : HasRecord w := by
  induction hrun with
  | refl => exact h₀.imp fun _ h => h.1
  | tail _ hstep ih => exact reload_step_record hstep ih

/-- In every history of runs that each start from a world that meets the condition, whatever
the contents are changed to between them and however they end, a run that answers 0 leaves
every service of the recorded state running from the current contents. -/
theorem reload_converges {content_hash : String → String} {env : ComposeEnv} {w₀ w : Docker}
    (h₀ : Recorded content_hash env.specs w₀)
    (hrun : Relation.ReflTransGen (ReloadStep content_hash env.specs) w₀ w) {args : Args}
    (hor : OnlyReload env) (hstate : args.state = true)
    (hdry : args.dry_run = false) (ht : Traceable content_hash env w)
    (hzero : (outcomeOf (main env content_hash args) w).1.toOption = some 0) :
    Converged content_hash env (outcomeOf (main env content_hash args) w).2.now := by
  have hrec : HasRecord w := reload_history_record h₀ hrun
  exact (reload_run hor hstate hdry hrec ht).of_answer trivial rfl hzero rfl

/-! ### Two services with mounted config -/

/-- `a` and `b` mount one file of the store, and are labelled for handoff. -/
def pairSpecs : Specs :=
  ["a", "b"].map fun svc =>
    (svc, { image := "app:1", labels := [("krg.rollout", "handoff")],
            healthcheck := some { test := .list ["CMD", "true"] },
            volumes := [.long "bind" "/cfg" "/etc/app"] })

/-- Both run, from the recorded content of the file. -/
def pairDocker : Docker where
  container := fun id =>
    if id = "a1" then some { service := "a", mounts := [.content "one"], health := .healthy }
    else if id = "b1" then some { service := "b", mounts := [.content "one"], health := .healthy }
    else none
  order := ["a1", "b1"]
  state := some ⟨2, some [("a", ["sha256:one"]), ("b", ["sha256:one"])]⟩
  complete := by
    intro id h
    by_contra hn
    rw [List.mem_cons, List.mem_singleton, not_or] at hn
    exact h (by rw [if_neg hn.1, if_neg hn.2])

/-- A run that finds `text` in the file; a handoff of one of `fine` gets a healthy new
container, another one gets none; `up` keeps the containers `keeps`. -/
def pairEnv (text : String) (fine : List String) (keeps : List String) : ComposeEnv where
  specs := pairSpecs
  files := ⟨fun _ => "/nix/store/cfg", fun _ => some text⟩
  scaled := fun svc => if svc ∈ fine then [{ service := svc, health := .healthy }] else []
  keeps := fun _ => keeps

theorem onlyReload_pairEnv (text : String) (fine keeps : List String) :
    OnlyReload (pairEnv text fine keeps) where
  origins _ _ := rfl
  running _ _ _ k _ hk hr := ⟨k, hk, hr⟩

theorem of_pairDocker {id : String} {k : Container} (h : pairDocker.container id = some k) :
    (k.service = "a" ∨ k.service = "b") ∧ k.mounts = [.content "one"] ∧ k.status = .running := by
  have h : (if id = "a1" then _ else if id = "b1" then _ else none) = some k := h
  split_ifs at h
  · obtain rfl := Option.some_inj.mp h
    exact ⟨.inl rfl, rfl, rfl⟩
  · obtain rfl := Option.some_inj.mp h
    exact ⟨.inr rfl, rfl, rfl⟩

theorem recorded_pairDocker : Recorded id pairSpecs pairDocker := by
  refine ⟨_, rfl, fun i k hk _ => ?_⟩
  obtain ⟨hs | hs, hm, -⟩ := of_pairDocker hk <;> rw [hs, hm] <;> decide +kernel

theorem reload_converges_both :
    Converged id (pairEnv "two" ["a", "b"] ["+a1b1", "+a1b1+a1b1"])
      (outcomeOf (main (pairEnv "two" ["a", "b"] ["+a1b1", "+a1b1+a1b1"]) id {}) pairDocker).2.now := by
  refine reload_converges recorded_pairDocker .refl (onlyReload_pairEnv _ _ _) rfl rfl
    ⟨rfl, fun i k hk _ heq => ?_, fun rec_ hrec i k hk _ _ => .inl ?_, fun i k hk _ _ => .inl ?_⟩
    (by decide +kernel)
  · obtain ⟨hs | hs, hm, -⟩ := of_pairDocker hk <;> rw [hs, hm] at heq
    · exact absurd heq (by decide +kernel)
    · exact absurd heq (by decide +kernel)
  · obtain rfl : [("a", ["sha256:one"]), ("b", ["sha256:one"])] = rec_ := by
      have h := Option.some_inj.mp (hrec : pairDocker.state = _)
      exact Option.some_inj.mp (SavedState.mk.inj h).2
    obtain ⟨hs | hs, hm, -⟩ := of_pairDocker hk <;> rw [hs, hm] <;> decide +kernel
  · exact (of_pairDocker hk).2.2

/-- What a run leaves that moves `a` to new contents and fails on `b`. -/
def halfMoved : Docker := (outcomeOf (main (pairEnv "two" ["a"] []) id {}) pairDocker).2.now

/-- When the config is reverted after such a run, the next run answers 0 and leaves `a` on
the contents in between. -/
theorem reverted_after_failure :
    Recorded id pairSpecs pairDocker ∧ OnlyReload (pairEnv "two" ["a"] []) ∧
      (outcomeOf (main (pairEnv "two" ["a"] []) id {}) pairDocker).1.toOption = some 1 ∧
      OnlyReload (pairEnv "one" [] ["+a1b1", "b1"]) ∧
      (outcomeOf (main (pairEnv "one" [] ["+a1b1", "b1"]) id {}) halfMoved).1.toOption = some 0 ∧
      ¬ ∃ i k, (outcomeOf (main (pairEnv "one" [] ["+a1b1", "b1"]) id {}) halfMoved).2.now.container i =
        some k ∧ (decide (k.service = "a") &&
          decide (k.mounts = (pairEnv "one" [] ["+a1b1", "b1"]).shown "a")) = true := by
  refine ⟨recorded_pairDocker, onlyReload_pairEnv _ _ _, by decide +kernel, onlyReload_pairEnv _ _ _,
    by decide +kernel, ?_⟩
  rw [Docker.exists_container]
  decide +kernel

end Compose
