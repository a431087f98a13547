/-
Migrations run before the services that depend on them.

A one-shot whose image changed is a migration that the new version of its dependents
needs.  A dependent is never handed off, since the plan drops it, and the final `up`
honours the dependency.  But a dependent whose mounts changed too is recreated by
`--no-deps --force-recreate`, before that `up`: so the order is kept in the runs in
which no service whose mounts changed depends on a changed one-shot.

* `OneshotChanged` — the image of a one-shot differs from that of its containers;
* `Migrated` — the order, read off the log of a run;
* `migrations_first` — the runs that keep it.
-/
import KrgInfra.ReloadOrder
import Mathlib

namespace Compose

/-- `svc` waits for the one-shot `dep` to have completed. -/
def DependsOnCompleted (specs : Specs) (svc dep : String) : Prop :=
  (dep, some "service_completed_successfully") ∈ ((specs.lookup svc).getD {}).depends_on

/-- The image that the compose file gives the one-shot is not that of its existing
containers, or it has none.  Without an image reference there is nothing to compare. -/
def OneshotChanged (specs : Specs) (w : Docker) (dep : String) : Prop :=
  wantedImage specs dep ≠ "" ∧
    ((∀ id k, w.container id = some k → k.service ≠ dep) ∨
      ∃ id k, w.container id = some k ∧ k.service = dep ∧ k.image ≠ wantedImage specs dep)

/-- No service is created or recreated before each changed one-shot it waits for has been
run on its new image; `w` is the world that the run started in. -/
def Migrated (specs : Specs) (w : Docker) (L : List Event) : Prop :=
  ∀ A e B, L = A ++ e :: B → ∀ svc ∈ e.makes, ∀ dep, DependsOnCompleted specs svc dep →
    OneshotChanged specs w dep → Event.completed dep (wantedImage specs dep) ∈ A

/-- `up` without `--no-deps` makes a service only after the changed one-shots it waits for
have completed on their new images. -/
def HonoursDependsOn (env : ComposeEnv) (w : Docker) : Prop :=
  ∀ A svc B, env.upSteps = A ++ .makes svc :: B → ∀ dep, DependsOnCompleted env.specs svc dep →
    OneshotChanged env.specs w dep → UpStep.completes dep (wantedImage env.specs dep) ∈ A

/-- Nobody else creates or removes containers, or changes what they are, while the run is
being planned. -/
def StillPlanning (env : ComposeEnv) : Prop :=
  ∀ i w id, i.planning = true →
    ((env.before i w).container id).map (fun k => (k.service, k.image)) =
      (w.container id).map fun k => (k.service, k.image)

/-- A service none of whose one-shots changed. -/
def Settled (specs : Specs) (w : Docker) (svc : String) : Prop :=
  ∀ dep, DependsOnCompleted specs svc dep → ¬ OneshotChanged specs w dep

section Logs

variable {specs : Specs} {w : Docker} {L L' : List Event}

theorem Migrated.append (h : Migrated specs w L)
    (h' : ∀ e ∈ L', ∀ svc ∈ e.makes, Settled specs w svc) : Migrated specs w (L ++ L') := by
  intro A e B heq svc hsvc dep hdep hch
  rcases split_append heq with ⟨B', hL, -⟩ | ⟨A', -, hL'⟩
  · exact h A e B' hL svc hsvc dep hdep hch
  · exact absurd hch (h' e (by rw [hL']; simp) svc hsvc dep hdep)

theorem Idle.migrated (h : Idle L) : Migrated specs w L := by
  rintro A e B rfl svc hsvc
  rw [(h e (by simp)).2.2] at hsvc
  exact absurd hsvc List.not_mem_nil

theorem Stretch.makes {svc : String} {old : List String} {S : List Event}
    (h : Stretch svc old S) : ∀ e ∈ S, ∀ s ∈ e.makes, s = svc := by
  obtain ⟨M, rfl, hp⟩ := h
  exact List.forall_mem_cons.mpr ⟨fun s hs => absurd hs List.not_mem_nil,
    fun e he => (hp.inner e he).makes⟩

/-- The order of the steps of `up` is that of its events. -/
theorem Migrated.append_up {env : ComposeEnv} (h : Migrated env.specs w L)
    (hup : HonoursDependsOn env w) :
    Migrated env.specs w (L ++ (env.upSteps.map UpStep.event ++ [.up])) := by
  intro A e B heq svc hsvc dep hdep hch
  rcases split_append heq with ⟨B', hL, -⟩ | ⟨A', rfl, hL'⟩
  · exact h A e B' hL svc hsvc dep hdep hch
  · rcases split_append hL' with ⟨B', hsteps, -⟩ | ⟨A'', -, hlast⟩
    · obtain ⟨A₁, r, hA₁, rfl, hr⟩ := List.map_eq_append_iff.mp hsteps
      obtain ⟨s, B₁, rfl, rfl, -⟩ := List.map_eq_cons_iff.mp hr
      cases s with
      | completes dep' image => exact absurd hsvc List.not_mem_nil
      | makes s =>
        obtain rfl := List.mem_singleton.mp hsvc
        have hmem := hup A₁ svc B₁ hA₁ dep hdep hch
        exact List.mem_append_right _ (List.mem_map_of_mem (f := UpStep.event) hmem)
    · obtain rfl : e = .up := by
        cases A'' with
        | nil => exact (List.cons.inj hlast).1.symm
        | cons z A'' => exact absurd (List.cons.inj hlast).2 (by simp)
      exact absurd hsvc List.not_mem_nil

end Logs

/-! ### The plan sees the changed one-shots -/

/-- What a container is, as far as one-shots are concerned. -/
def Docker.kinds (w : Docker) (id : String) : Option (String × String) :=
  (w.container id).map fun k => (k.service, k.image)

theorem kinds_iff {w : Docker} {id service image : String} :
    w.kinds id = some (service, image) ↔
      ∃ k, w.container id = some k ∧ k.service = service ∧ k.image = image := by
  rw [Docker.kinds, Option.map_eq_some_iff]
  constructor
  · rintro ⟨k, hk, heq⟩
    obtain ⟨hs, hi⟩ := Prod.mk.inj heq
    exact ⟨k, hk, hs, hi⟩
  · rintro ⟨k, hk, rfl, rfl⟩
    exact ⟨k, hk, rfl⟩

section Plan

variable {env : ComposeEnv} {w₀ : Docker}

theorem planKept_kinds (hstill : StillPlanning env) : PlanKept env fun w => w.kinds = w₀.kinds where
  before i w hi h := by
    funext id
    exact (hstill i w id hi).trans (congrFun h id)
  listed _ _ _ h := h
  images _ _ h := h

variable {P : Docker → Prop} (hP : PlanKept env P) (hkinds : ∀ w, P w → w.kinds = w₀.kinds)

include hP hkinds

/-- The images read are those of the containers at the start. -/
theorem imagesRead_rule (svc dep : String) (ids : List String) :
    Triple (fun _ => True) P (images env svc dep ids)
      (fun l w => (l.length = ids.length ∧
        ∀ id ∈ ids, ∃ s i, w₀.kinds id = some (s, i) ∧ i ∈ l) ∧ P w) fun _ => P := by
  induction ids with
  | nil => exact Triple.pure fun _ _ h => ⟨⟨rfl, fun _ hid => absurd hid List.not_mem_nil⟩, h⟩
  | cons c cs ih =>
    unfold images
    refine Triple.bind (Q := fun a w => (∃ s, w₀.kinds c = some (s, a)) ∧ P w) ?_ fun a =>
      Triple.of_fact fun ha => ih.bind fun l => Triple.of_fact fun hl => Triple.pure
        fun w _ h => ⟨⟨by simp [hl.1], List.forall_mem_cons.mpr ⟨?_, fun id hid => ?_⟩⟩, h⟩
    · refine (planImage_rule hP rfl c).conseq (fun _ _ h => h) (fun a w _ h => ⟨?_, h.1⟩)
        fun _ _ _ h => h
      obtain ⟨k, hk, rfl⟩ := h.2
      exact ⟨k.service, by rw [← hkinds w h.1]; exact kinds_iff.mpr ⟨k, hk, rfl, rfl⟩⟩
    · exact ha.elim fun s hs => ⟨s, a, hs, by simp⟩
    · obtain ⟨s, i, hi, hmem⟩ := hl.2 id hid
      exact ⟨s, i, hi, List.mem_cons_of_mem _ hmem⟩

/-- A one-shot that the plan finds unchanged was unchanged at the start. -/
theorem oneshotUnchanged_rule (svc dep : String) :
    Triple (fun _ => True) P (oneshotChanged env svc dep (wantedImage env.specs dep))
      (fun b w => P w ∧ (b = false → ¬ OneshotChanged env.specs w₀ dep)) fun _ => P := by
  unfold oneshotChanged
  refine Triple.bind (Q := fun l w =>
    (∀ id, id ∈ l ↔ ∃ i, w₀.kinds id = some (dep, i)) ∧ P w) ?_ fun l => ?_
  · refine (planPs_rule hP rfl dep true).conseq (fun _ _ h => h) (fun l w _ h => ⟨fun id => ?_, h.1⟩)
      fun _ _ _ h => h
    rw [h.2, Docker.mem_ids, ← hkinds w h.1]
    constructor
    · rintro ⟨k, hk, hs, -⟩
      exact ⟨k.image, kinds_iff.mpr ⟨k, hk, hs, rfl⟩⟩
    · rintro ⟨i, hi⟩
      obtain ⟨k, hk, hs, -⟩ := kinds_iff.mp hi
      exact ⟨k, hk, hs, .inl rfl⟩
  · refine Triple.of_fact fun hl => (imagesRead_rule hP hkinds svc dep l).bind fun have_ =>
      Triple.of_fact fun hhave => Triple.pure fun w _ h => ⟨h, fun hb => ?_⟩
    rw [Bool.or_eq_false_iff, decide_eq_false_iff_not] at hb
    have hall : ∀ i ∈ have_, i = wantedImage env.specs dep := by
      intro i hi
      have := List.any_eq_false.mp hb.2 i hi
      simpa using this
    rintro ⟨-, hnone | ⟨id, k, hk, hs, hi⟩⟩
    · -- some image was read, so there is a container
      obtain ⟨id, hid⟩ : ∃ id, id ∈ l := by
        refine List.exists_mem_of_length_pos ?_
        rw [← hhave.1]
        exact List.length_pos_iff.mpr hb.1
      obtain ⟨i, hi⟩ := (hl id).mp hid
      obtain ⟨k, hk, hs, -⟩ := kinds_iff.mp hi
      exact hnone id k hk hs
    · have hid := (hl id).mpr ⟨k.image, kinds_iff.mpr ⟨k, hk, hs, rfl⟩⟩
      obtain ⟨s, i, hki, hmem⟩ := hhave.2 id hid
      obtain ⟨k', hk', -, hi'⟩ := kinds_iff.mp hki
      obtain rfl : k = k' := Option.some_inj.mp (hk.symm.trans hk')
      exact hi (hi'.trans (hall i hmem))

end Plan

/-! ### The run -/

section Run

variable {env : ComposeEnv} {w₀ : Docker} {base : List Event}

/-- The handoffs create containers of settled services only. -/
theorem handoffs_migrated (todo : List (String × List String))
    (htodo : ∀ x ∈ todo, Settled env.specs w₀ x.1) :
    Triple (fun _ => True) (Adds base (Migrated env.specs w₀)) (handoffs env todo)
      (fun _ => Adds base (Migrated env.specs w₀)) fun _ => Adds base (Migrated env.specs w₀) := by
  induction todo with
  | nil => exact Triple.pure fun _ _ h => h
  | cons x todo ih =>
    obtain ⟨svc, old⟩ := x
    have hsvc : Settled env.specs w₀ svc := htodo _ List.mem_cons_self
    unfold handoffs
    refine Triple.bind (Q := fun _ => Adds base (Migrated env.specs w₀)) ?_ fun done => ?_
    · refine Triple.exists_pre fun M₀ => ?_
      refine Triple.weaken (P := fun w => Migrated env.specs w₀ M₀ ∧ w.log = base ++ M₀)
        (Triple.of_fact fun h₀ => ?_) fun _ _ h => ⟨h.2, h.1⟩
      have hadds : ∀ w, Adds (base ++ M₀) (Stretch svc old) w →
          Adds base (Migrated env.specs w₀) w := by
        rintro w ⟨S, hS, hst⟩
        exact ⟨M₀ ++ S, by rw [hS, List.append_assoc],
          h₀.append fun e he s hs => hst.makes e he s hs ▸ hsvc⟩
      exact safe_handoff_log.conseq (fun _ _ h => h) (fun _ w _ h => hadds w h)
        fun _ w _ h => hadds w h
    · refine Triple.bind (Q := fun _ => Adds base (Migrated env.specs w₀)) ?_ fun _ =>
        (ih fun x hx => htodo x (List.mem_cons_of_mem _ hx)).bind fun _ => Triple.pure fun _ _ h => h
      refine of_say fun w _ h => ⟨trivial, ?_⟩
      obtain ⟨M, hM, hmig⟩ := h
      exact ⟨M ++ [.handed svc done], by rw [Docker.log_record, hM, List.append_assoc],
        hmig.append (by simp [Event.makes])⟩

/-- What follows the handoffs: a force-recreate of settled services, and `up`. -/
theorem finish_migrated {args : Args} {recreate : List String}
    {mounts : List (String × List String)} (hup : HonoursDependsOn env w₀)
    (hrec : ∀ svc ∈ recreate, Settled env.specs w₀ svc) :
    Triple (fun _ => True) (Adds base (Migrated env.specs w₀)) (finish env args recreate mounts)
      (fun _ => Adds base (Migrated env.specs w₀)) fun _ => Adds base (Migrated env.specs w₀) := by
  set R : List Event → Prop := Migrated env.specs w₀ with hR
  have hwork : ∀ {i : Site} {f : Docker → Docker} {es : List Event},
      (∀ w, (f w).log = w.log ++ es) → (∀ M, R M → R (M ++ es)) →
      Triple (fun _ => True) (Adds base R) (docker env i (work f)) (fun _ => Adds base R)
        fun _ => Adds base R := by
    intro i f es hf hes
    have hafter : ∀ M, After R es M → R M := by
      rintro M ⟨M₀, h₀, rfl⟩
      exact hes M₀ h₀
    exact (work_log hf).conseq (fun _ _ h => h) (fun _ _ _ h => h.mono hafter)
      fun _ _ _ h => h.mono fun M hM => hM.elim id (hafter M)
  have hforce : Triple (fun _ => True) (Adds base R) (force_recreate env recreate)
      (fun _ => Adds base R) fun _ => Adds base R := by
    refine hwork (fun w => by rw [Docker.log_record, log_foldl_recreate]) fun M hM =>
      hM.append fun e he svc hsvc => hrec svc ?_
    obtain rfl := List.mem_singleton.mp he
    exact mem_of_reachedOf hsvc
  have hupc : Triple (fun _ => True) (Adds base R) (up env) (fun _ => Adds base R)
      fun _ => Adds base R :=
    hwork (fun w => by rw [Docker.log_record, log_foldl_upService]; rfl) fun M hM =>
      hM.append_up hup
  have hsave : Triple (fun _ => True) (Adds base R) (save_state env mounts)
      (fun _ => Adds base R) fun _ => Adds base R :=
    hwork (fun w => rfl) fun M hM => hM.append (by simp [Event.makes])
  unfold finish
  refine Triple.bind (Q := fun _ => Adds base R) ?_ fun _ => hupc.bind fun _ =>
    Triple.bind (Q := fun _ => Adds base R) ?_ fun _ => Triple.pure fun _ _ h => h
  · unfold recreateInPlace
    split_ifs
    · exact Triple.pure fun _ _ h => h
    · exact hforce
  · unfold record_state
    split_ifs
    · exact hsave
    · exact Triple.pure fun _ _ h => h

end Run

/-- In every run in which no service whose mounts changed waits for a changed one-shot, no
service is created or recreated before the changed one-shots it waits for have been run on
their new images. -/
theorem migrations_first {env : ComposeEnv} {content_hash : String → String} {args : Args}
    {w : Docker} (hstill : StillPlanning env) (hup : HonoursDependsOn env w)
    (hforced : args.state = true →
      ∀ svc ∈ mounts_changed (w.state.bind SavedState.load)
        (mount_fingerprints content_hash env.files env.specs), Settled env.specs w svc) :
    ∃ M, (outcomeOf (main env content_hash args) w).2.now.log = w.log ++ M ∧
      Migrated env.specs w M := by
  set P : Docker → Prop := fun w' =>
    (Adds w.log Idle w' ∧ w'.kinds = w.kinds) ∧ w'.state = w.state with hPdef
  have hP : PlanKept env P := (planKept_idle.and (planKept_kinds hstill)).and
    ⟨fun _ _ _ h => h, fun _ _ _ h => h, fun _ _ h => h⟩
  have hidle : ∀ w', P w' → Adds w.log (Migrated env.specs w) w' :=
    fun w' h => h.1.1.mono fun M hM => hM.migrated
  have hrun : Triple (fun _ => True) P (main env content_hash args)
      (fun _ => Adds w.log (Migrated env.specs w))
      fun _ => Adds w.log (Migrated env.specs w) := by
    have hcompare := compareState_rule (S := fun prev => prev = w.state.bind SavedState.load)
      content_hash args hP fun w' h => by rw [h.2]
    unfold main
    refine Triple.bind (Q := fun r w' => (∀ svc ∈ r.1, Settled env.specs w svc) ∧ P w') ?_
      fun r => Triple.of_fact fun hr => ?_
    · refine hcompare.conseq (fun _ _ h => h) (fun r w' _ h => ⟨fun svc hsvc => ?_, h.1⟩)
        fun _ w' _ h => hidle w' h
      cases hargs : args.state with
      | false =>
        rw [h.2.2 hargs] at hsvc
        exact absurd hsvc List.not_mem_nil
      | true =>
        obtain ⟨hmounts, prev, hforced', hprev⟩ := h.2.1 hargs
        rw [hforced', hmounts] at hsvc
        rcases hprev with rfl | ⟨rfl, -⟩
        · exact hforced hargs svc hsvc
        · exact absurd hsvc List.not_mem_nil
    · obtain ⟨forced, mounts⟩ := r
      have hplan := plan_rule (F := fun _ _ _ => True) (G := fun dep => ¬ OneshotChanged env.specs w dep)
        forced hP
        (fun _ _ => ⟨fun _ _ _ _ => trivial, fun _ _ _ _ => trivial, fun _ _ _ => trivial⟩)
        (fun _ _ _ _ _ _ => trivial) fun P' hP' hPP svc dep =>
          oneshotUnchanged_rule hP' (fun w' h => (hPP w' h).1.2) svc dep
      refine Triple.bind (Q := fun todo w' => (∀ x ∈ todo, Settled env.specs w x.1) ∧ P w') ?_
        fun todo => Triple.of_fact fun htodo => ?_
      · refine hplan.conseq (fun _ _ h => h) (fun todo w' _ h => ⟨fun x hx dep hdep hch => ?_, h.1⟩)
          fun _ w' _ h => hidle w' h
        obtain ⟨-, ⟨changed, he⟩, -⟩ := h.2 x.1 x.2 hx
        exact he.oneshots dep hdep hch.1 hch
      · refine Triple.weaken (P := Adds w.log (Migrated env.specs w)) ?_ fun w' _ h => hidle w' h
        unfold execute
        split_ifs
        · exact Triple.pure fun _ _ h => h
        · refine (handoffs_migrated todo htodo).bind fun failed => ?_
          show Triple _ _ (if _ then _ else _) _ _
          split_ifs
          · exact Triple.pure fun _ _ h => h
          · refine finish_migrated hup fun svc hsvc => hr svc ?_
            exact List.mem_of_mem_filter (mem_sorted.mp hsvc)
  refine hrun.of_end trivial ⟨⟨⟨[], (List.append_nil _).symm, ?_⟩, rfl⟩, rfl⟩
  exact fun e he => absurd he List.not_mem_nil

/-! ### A stack with a migration -/

/-- `app` waits for its migration, whose image is new, and mounts a file of the store. -/
def migrationSpecs : Specs :=
  [("app",
      { image := "app:1", labels := [("krg.rollout", "handoff")],
        healthcheck := some { test := .list ["CMD", "true"] },
        depends_on := [("migrate", some "service_completed_successfully")],
        volumes := [.long "bind" "/cfg" "/etc/app"] }),
    ("migrate", { image := "migrate:2" })]

/-- The running `app`, the container of the last migration, and the recorded fingerprint of
the mounted file. -/
def migrationDocker (recorded : String) : Docker where
  container := fun id =>
    if id = "a" then
      some { service := "app", name := "app-1", image := "app:1", health := .healthy }
    else if id = "m" then some { service := "migrate", image := "migrate:1", status := .exited }
    else none
  order := ["a", "m"]
  state := some ⟨2, some [("app", [recorded]), ("migrate", [])]⟩
  complete := by
    intro id h
    by_contra hn
    rw [List.mem_cons, List.mem_singleton, not_or] at hn
    exact h (by rw [if_neg hn.1, if_neg hn.2])

/-- A run in which compose would recreate `app`, and nothing fails. -/
def migrationEnv (steps : List UpStep) : ComposeEnv where
  specs := migrationSpecs
  files := ⟨fun _ => "/nix/store/cfg", fun _ => some "new"⟩
  recreateNames := ["app-1"]
  upSteps := steps

theorem stillPlanning_migrationEnv (steps : List UpStep) : StillPlanning (migrationEnv steps) :=
  fun _ _ _ _ => rfl

theorem dependsOnCompleted_migrationSpecs {svc dep : String}
    (h : DependsOnCompleted migrationSpecs svc dep) : svc = "app" ∧ dep = "migrate" := by
  unfold DependsOnCompleted migrationSpecs at h
  by_cases h₁ : svc = "app"
  · subst h₁
    simpa using h
  · by_cases h₂ : svc = "migrate"
    · subst h₂
      simp [List.lookup] at h
    · simp [List.lookup, beq_eq_false_iff_ne.mpr h₁, beq_eq_false_iff_ne.mpr h₂] at h

/-- Without a change of its mounts, `app` is recreated by `up`, after its migration. -/
theorem migrations_first_in_up :
    ∃ M, (outcomeOf (main (migrationEnv [.completes "migrate" "migrate:2", .makes "app"]) id {})
        (migrationDocker "sha256:new")).2.now.log = (migrationDocker "sha256:new").log ++ M ∧
      Migrated migrationSpecs (migrationDocker "sha256:new") M := by
  refine migrations_first
    (stillPlanning_migrationEnv _) ?_ fun _ svc hsvc => ?_
  · intro A svc B hsteps dep hdep _
    obtain ⟨-, rfl⟩ := dependsOnCompleted_migrationSpecs hdep
    cases A with
    | nil => exact absurd (List.cons.inj hsteps).1 (by simp)
    | cons s A =>
      obtain ⟨rfl, -⟩ := List.cons.inj hsteps
      exact List.mem_cons_self
  · have hnone : mounts_changed ((migrationDocker "sha256:new").state.bind SavedState.load)
        (mount_fingerprints id (migrationEnv [.completes "migrate" "migrate:2", .makes "app"]).files
          migrationSpecs) = [] := by decide +kernel
    have hsvc : svc ∈ mounts_changed ((migrationDocker "sha256:new").state.bind SavedState.load)
        (mount_fingerprints id (migrationEnv [.completes "migrate" "migrate:2", .makes "app"]).files
          migrationSpecs) := hsvc
    rw [hnone] at hsvc
    exact absurd hsvc List.not_mem_nil

/-- When the mounted file changed along with the migration, `app` is recreated by
`--force-recreate` before `up` runs the migration. -/
theorem forced_before_migration :
    StillPlanning (migrationEnv [.completes "migrate" "migrate:2"]) ∧
      HonoursDependsOn (migrationEnv [.completes "migrate" "migrate:2"])
        (migrationDocker "sha256:old") ∧
      (outcomeOf (main (migrationEnv [.completes "migrate" "migrate:2"]) id {})
        (migrationDocker "sha256:old")).1.toOption = some 0 ∧
      ¬ ∃ M, (outcomeOf (main (migrationEnv [.completes "migrate" "migrate:2"]) id {})
          (migrationDocker "sha256:old")).2.now.log = (migrationDocker "sha256:old").log ++ M ∧
        Migrated migrationSpecs (migrationDocker "sha256:old") M := by
  refine ⟨stillPlanning_migrationEnv _, fun A svc B hsteps => ?_, by decide +kernel, ?_⟩
  · have hmem : UpStep.makes svc ∈ [UpStep.completes "migrate" "migrate:2"] := by
      rw [show [UpStep.completes "migrate" "migrate:2"] = _ from hsteps]
      simp
    exact absurd hmem (by simp)
  · rintro ⟨M, hM, hmig⟩
    have hlog : (outcomeOf (main (migrationEnv [.completes "migrate" "migrate:2"]) id {})
        (migrationDocker "sha256:old")).2.now.log =
          [.listed "app" ["a"], .listed "migrate" ["m"]] ++ .forceRecreated ["app"] ::
            [.completed "migrate" "migrate:2", .up, .saved] := by decide +kernel
    have hM : _ = M := hlog.symm.trans hM
    have hchanged : OneshotChanged migrationSpecs (migrationDocker "sha256:old") "migrate" :=
      ⟨by decide +kernel, .inr ⟨"m", _, rfl, rfl, by decide +kernel⟩⟩
    have hdone := hmig _ _ _ hM.symm "app" List.mem_cons_self "migrate"
      (by decide +kernel : _ ∈ (((migrationSpecs.lookup "app").getD {}).depends_on)) hchanged
    exact absurd hdone (by decide +kernel)

end Compose
