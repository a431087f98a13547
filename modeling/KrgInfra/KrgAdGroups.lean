/-
What the three subcommands of the domain script keep.

* `Created` — the first pass of `cmd_groups`, which creates the groups;
* `sound_nested` — the second pass, which adds their members;
* `Reconciles` — a run is additive, honest, and done once;
* `reconciles_iff` — all three subcommands reconcile, unless a group with members is refused: then a
  run that is not under `--check` says what it would do.
-/
import KrgInfra.KrgAdSteps

namespace KrgAd

variable {σ : Type} {S : Samba σ} {upper : String → String}

/-! ### The first pass -/

/-- What the first pass makes of a world and of the live groups. -/
structure Created (S : Samba σ) (groups : List GroupSpec) (p q : World σ × List String) : Prop where
  follows : Follows p.1 q.1
  live : p.2 ⊆ q.2
  honest : Would q.1 → Would p.1
  grows : (S.dir p.1.state).Le (S.dir q.1.state)
  known : (∀ n ∈ p.2, n ∈ (S.dir p.1.state).groups) → ∀ n ∈ q.2, n ∈ (S.dir q.1.state).groups
  all : ¬ Failed q.1 → ∀ g ∈ groups, g.name ∈ q.2
  same : (∀ g ∈ groups, g.name ∈ p.2) → q = p

theorem Created.nil (p : World σ × List String) : Created S [] p p :=
  ⟨.refl _, List.Subset.refl _, id, .refl _, id, fun _ _ h => (nomatch h), fun _ => rfl⟩

theorem Created.trans {g : GroupSpec} {groups : List GroupSpec} {p q r : World σ × List String}
    (h : Created S [g] p q) (h' : Created S groups q r) : Created S (g :: groups) p r where
  follows := h.follows.trans h'.follows
  live := List.Subset.trans h.live h'.live
  honest hr := h.honest (h'.honest hr)
  grows := h.grows.trans h'.grows
  known hp := h'.known (h.known hp)
  all hr := by
    refine List.forall_mem_cons.mpr ⟨h'.live ?_, h'.all hr⟩
    exact h.all (fun hq => hr (h'.follows.failed hq)) g (List.mem_singleton_self g)
  same hp := by
    obtain ⟨hg, hgroups⟩ := List.forall_mem_cons.mp hp
    obtain rfl := h.same (List.forall_mem_singleton.mpr hg)
    exact h'.same hgroups

/-- One group. -/
theorem created_group (container : String) (p : World σ × List String) (g : GroupSpec) :
    Created S [g] p (create_group S.exec upper false container p g) := by
  rw [create_group]
  by_cases hlive : g.name ∈ p.2
  · rw [if_pos hlive]
    exact ⟨.refl _, List.Subset.refl _, id, .refl _, id,
      fun _ => List.forall_mem_singleton.mpr hlive, fun _ => rfl⟩
  · rw [if_neg hlive, if_neg Bool.false_ne_true]
    set c := Command.groupAdd g.name (groupOptions upper container g) with hc
    have hask : Follows p.1 (p.1.ask S.exec c).2 := .ask _ _ _
    have hgrows : (S.dir p.1.state).Le (S.dir (p.1.ask S.exec c).2.state) :=
      S.dir_le (fun d => .groupAdd d _ _) p.1.state
    by_cases hrc : (p.1.ask S.exec c).1.rc = 0
    · simp only [hrc, ne_eq, not_true_eq_false, ↓reduceIte]
      have hmem : g.name ∈ p.2.insert g.name := List.mem_insert_self
      refine ⟨hask.trans (.say _ _), fun n hn => List.mem_insert_of_mem hn,
        fun h => would_of_say h rfl, hgrows, ?_, fun _ => List.forall_mem_singleton.mpr hmem,
        fun h => absurd (h g (List.mem_singleton_self g)) hlive⟩
      intro hp n hn
      have hdir : S.dir (p.1.ask S.exec c).2.state = c.apply (S.dir p.1.state) :=
        S.effect c _ hrc
      obtain rfl | hn := List.mem_insert_iff.mp hn
      · show _ ∈ (S.dir (p.1.ask S.exec c).2.state).groups
        rw [hdir]
        exact Set.mem_insert _ _
      · exact hgrows.groups (hp n hn)
    · simp only [hrc, ne_eq, not_false_eq_true, ↓reduceIte]
      exact ⟨hask.trans (.say _ _), List.Subset.refl _, fun h => would_of_say h rfl, hgrows,
        fun hp n hn => hgrows.groups (hp n hn), fun h => absurd (failed_say _ _) h,
        fun h => absurd (h g (List.mem_singleton_self g)) hlive⟩

theorem created_groups (container : String) (groups : List GroupSpec) :
    ∀ p : World σ × List String,
      Created S groups p (groups.foldl (create_group S.exec upper false container) p) := by
  induction groups with
  | nil => exact .nil
  | cons g groups ih => exact fun p => (created_group container p g).trans (ih _)

/-- Under `--check` the first pass changes nothing. -/
theorem checked_groups (S : Samba σ) (upper : String → String) (container : String)
    (groups : List GroupSpec) :
    ∀ p : World σ × List String,
      Follows p.1 (groups.foldl (create_group S.exec upper true container) p).1 ∧
      (groups.foldl (create_group S.exec upper true container) p).1.calls = p.1.calls ∧
      (groups.foldl (create_group S.exec upper true container) p).1.state = p.1.state := by
  induction groups with
  | nil => exact fun p => ⟨.refl _, rfl, rfl⟩
  | cons g groups ih =>
    intro p
    obtain ⟨hfollows, hcalls, hstate⟩ := ih (create_group S.exec upper true container p g)
    rw [List.foldl_cons]
    have hone : Follows p.1 (create_group S.exec upper true container p g).1 ∧
        (create_group S.exec upper true container p g).1.calls = p.1.calls ∧
        (create_group S.exec upper true container p g).1.state = p.1.state := by
      rw [create_group]
      by_cases hlive : g.name ∈ p.2
      · rw [if_pos hlive]
        exact ⟨.refl _, rfl, rfl⟩
      · rw [if_neg hlive, if_pos rfl]
        exact ⟨.say _ _, rfl, rfl⟩
    exact ⟨hone.1.trans hfollows, hcalls.trans hone.2.1, hstate.trans hone.2.2⟩

/-- What would be created is said, and else all groups are live. -/
theorem groups_alike (S : Samba σ) (upper : String → String) (container : String)
    (groups : List GroupSpec) (p : World σ × List String) :
    (groups.foldl (create_group S.exec upper true container) p = p ∧
      groups.foldl (create_group S.exec upper false container) p = p ∧
      ∀ g ∈ groups, g.name ∈ p.2) ∨
    Would (groups.foldl (create_group S.exec upper true container) p).1 ∧
      Mutated (groups.foldl (create_group S.exec upper false container) p).1 := by
  induction groups with
  | nil => exact .inl ⟨rfl, rfl, fun _ h => (nomatch h)⟩
  | cons g groups ih =>
    rw [List.foldl_cons, List.foldl_cons]
    by_cases hlive : g.name ∈ p.2
    · rw [create_group, create_group, if_pos hlive, if_pos hlive]
      exact ih.imp_left fun h => ⟨h.1, h.2.1, List.forall_mem_cons.mpr ⟨hlive, h.2.2⟩⟩
    · refine .inr ⟨(checked_groups S upper container groups _).1.would ?_,
        (created_groups container groups _).follows.mutated ?_⟩
      · rw [create_group, if_neg hlive, if_pos rfl]
        exact would_say _ _
      · rw [create_group, if_neg hlive, if_neg Bool.false_ne_true]
        have hissued : ∀ c line, c.mutating = true → Mutated ((p.1.ask S.exec c).2.say line) :=
          fun c line hc => (Follows.say _ line).mutated (mutated_ask.mpr (.inr hc))
        dsimp only
        split_ifs
        · exact hissued _ _ rfl
        · exact hissued _ _ rfl

/-! ### The second pass -/

/-- A group has the members of its entry. -/
def Nested (g : GroupSpec) (d : Directory) : Prop := ∀ m ∈ g.members, HasMember g.name m d

theorem kept_nested (g : GroupSpec) : Kept (Nested g) :=
  fun _ _ hle h m hm => kept_member g.name m hle (h m hm)

/-- A step of the second pass, whether the group is live or not. -/
structure Nests (S : Samba σ) (pending : Prop) (step : Bool → World σ → World σ) : Prop where
  follows : ∀ check w, Follows w (step check w)
  harmless : ∀ w, Mutated (step true w) → Mutated w
  grows : ∀ check w, (S.dir w.state).Le (S.dir (step check w).state)
  would : ∀ w, Would (step false w) ↔ Would w ∨ pending

theorem Nests.foldl {α : Type} {pending : α → Prop} {steps : α → Bool → World σ → World σ}
    (l : List α) (h : ∀ x ∈ l, Nests S (pending x) (steps x)) :
    Nests S (∃ x ∈ l, pending x) fun check w => l.foldl (fun w x => steps x check w) w := by
  induction l with
  | nil =>
    exact ⟨fun _ w => .refl w, fun _ h => h, fun _ _ => .refl _,
      fun _ => ⟨.inl, fun h => h.elim id fun ⟨_, hx, _⟩ => nomatch hx⟩⟩
  | cons x l ih =>
    obtain ⟨hx, hl⟩ := List.forall_mem_cons.mp h
    have hrest := ih hl
    refine ⟨fun check w => (hx.follows check w).trans (hrest.follows check _),
      fun w hw => hx.harmless w (hrest.harmless _ hw),
      fun check w => (hx.grows check w).trans (hrest.grows check _), fun w => ?_⟩
    refine (hrest.would _).trans ?_
    rw [hx.would, or_assoc]
    refine or_congr_right ⟨fun hp => ?_, fun ⟨y, hy, hp⟩ => ?_⟩
    · exact hp.elim (fun hp => ⟨x, List.mem_cons_self, hp⟩) fun ⟨y, hy, hp⟩ =>
        ⟨y, List.mem_cons_of_mem _ hy, hp⟩
    · obtain rfl | hy := List.mem_cons.mp hy
      · exact .inl hp
      · exact .inr ⟨y, hy, hp⟩

theorem nests_member (live : List String) (parent member : String) :
    Nests S (parent ∉ live) fun check w => nest_member S.exec check live parent w member := by
  by_cases hlive : parent ∈ live
  · have h := sound_member S parent member
    simp only [nest_member, hlive, not_true_eq_false, ↓reduceIte]
    exact ⟨h.follows, h.harmless, h.grows, fun w => ⟨fun hw => .inl (h.honest w hw),
      fun hw => (h.follows false w).would (hw.resolve_right id)⟩⟩
  · simp only [nest_member, hlive, not_false_eq_true, ↓reduceIte]
    exact ⟨fun _ w => .say w _, fun _ h => h, fun _ _ => .refl _,
      fun w => ⟨fun _ => .inr trivial, fun _ => would_say w _⟩⟩

theorem nests_members (live : List String) (g : GroupSpec) :
    Nests S (g.name ∉ live ∧ g.members ≠ []) fun check w =>
      nest_members S.exec check live w g := by
  have hfold : Nests S (∃ m ∈ g.members, g.name ∉ live) fun check w =>
      g.members.foldl (fun w m => nest_member S.exec check live g.name w m) w :=
    Nests.foldl g.members fun m _ => nests_member live g.name m
  have hiff : (∃ m ∈ g.members, g.name ∉ live) ↔ g.name ∉ live ∧ g.members ≠ [] := by
    constructor
    · rintro ⟨m, hm, hlive⟩
      exact ⟨hlive, List.ne_nil_of_mem hm⟩
    · rintro ⟨hlive, hne⟩
      obtain ⟨m, hm⟩ := List.exists_mem_of_ne_nil _ hne
      exact ⟨m, hm, hlive⟩
  exact propext hiff ▸ hfold

/-- Where all groups are live, the second pass is sound. -/
theorem sound_nested (S : Samba σ) {groups : List GroupSpec} {live : List String}
    (hlive : ∀ g ∈ groups, g.name ∈ live) :
    Sound S (fun d => ∀ g ∈ groups, Nested g d) fun check w =>
      groups.foldl (nest_members S.exec check live) w := by
  refine Sound.foldl (H := Nested) groups (fun g hg => ?_) kept_nested
  refine Sound.foldl (H := HasMember g.name) g.members (fun m _ => ?_) (kept_member g.name)
  simpa only [nest_member, hlive g hg, not_true_eq_false, ↓reduceIte] using
    sound_member S g.name m

/-! ### A run -/

/-- A run, from a state and with an empty report. -/
structure Reconciles (S : Samba σ) (cmd : Bool → World σ → World σ) (s : σ) : Prop where
  additive : ∀ check, (S.dir s).Le (S.dir (cmd check (.start s)).state)
  harmless : ¬ Mutated (cmd true (.start s))
  announced : Would (cmd true (.start s)) ↔ Mutated (cmd false (.start s))
  honest : ¬ Would (cmd false (.start s))
  settled : ¬ Failed (cmd false (.start s)) →
    ¬ Mutated (cmd false (.start (cmd false (.start s)).state))

theorem not_mutated_start (s : σ) : ¬ Mutated (World.start s) := fun ⟨_, hx, _⟩ => nomatch hx

theorem not_would_start (s : σ) : ¬ Would (World.start s) := fun ⟨_, hx⟩ => nomatch hx

/-- What is said is what is done, where both runs are one or each does its part. -/
theorem announced_of_alike {c a : World σ} (hc : ¬ Mutated c) (ha : ¬ Would a)
    (h : c = a ∨ Would c ∧ Mutated a) : Would c ↔ Mutated a := by
  obtain rfl | ⟨hwould, hmutated⟩ := h
  · exact ⟨fun h => absurd h ha, fun h => absurd h hc⟩
  · exact iff_of_true hwould hmutated

theorem Sound.reconciles {H : Directory → Prop} {cmd : Bool → World σ → World σ}
    (h : Sound S H cmd) (s : σ) : Reconciles S cmd s where
  additive check := h.grows check (.start s)
  harmless hw := not_mutated_start s (h.harmless _ hw)
  announced := announced_of_alike (fun hw => not_mutated_start s (h.harmless _ hw))
    (fun hw => not_would_start s (h.honest _ hw)) (h.alike _)
  honest hw := not_would_start s (h.honest _ hw)
  settled hok hw := not_mutated_start _ (h.stays _ (h.reached _ hok) hw)

/-- The end of `cmd_groups`: groups that no plan has are reported. -/
def finish (desired : List GroupSpec) (live : List String) (w : World σ) : World σ :=
  (if extras desired live ≠ [] then
    w.say (.ok ("drift: live non-builtin groups absent from spec (not removed): " ++
      ", ".intercalate (extras desired live)))
  else w).close

theorem finish_spec (desired : List GroupSpec) (live : List String) (w : World σ) :
    Follows w (finish desired live w) ∧ (finish desired live w).calls = w.calls ∧
      (finish desired live w).state = w.state ∧ (Would (finish desired live w) → Would w) := by
  have hclose : ∀ w : World σ, Follows w w.close ∧ w.close.calls = w.calls ∧
      w.close.state = w.state ∧ (Would w.close → Would w) := by
    intro w
    rw [World.close]
    split_ifs
    · exact ⟨.say _ _, rfl, rfl, fun h => would_of_say h rfl⟩
    · exact ⟨.refl _, rfl, rfl, id⟩
  rw [finish]
  split_ifs
  · obtain ⟨hfollows, hcalls, hstate, hwould⟩ := hclose (w.say (.ok _))
    exact ⟨(Follows.say _ _).trans hfollows, hcalls, hstate, fun h => would_of_say (hwould h) rfl⟩
  · exact hclose w

/-- `samba-tool` is asked for a group that there is not. -/
def Samba.request (S : Samba σ) (upper : String → String) (container : String)
    (p : σ × List String) (g : GroupSpec) : σ × List String :=
  if g.name ∈ p.2 then p
  else
    let (a, s) := S.exec (.groupAdd g.name (groupOptions upper container g)) p.1
    (s, if a.rc = 0 then p.2.insert g.name else p.2)

/-- A group that is not listed, and that is not there either when all groups have been asked for. -/
def Samba.Refuses (S : Samba σ) (upper : String → String) (plan : GroupPlan) (s : σ)
    (name : String) : Prop :=
  let (a, s') := S.exec .groupList s
  a.rc = 0 ∧
    name ∉ (plan.desired.foldl (S.request upper plan.container) (s', parse_name_list a.out)).2

/-- The first pass asks `samba-tool` for the groups. -/
theorem create_group_request (container : String) (p : World σ × List String) (g : GroupSpec) :
    ((create_group S.exec upper false container p g).1.state,
      (create_group S.exec upper false container p g).2) =
    S.request upper container (p.1.state, p.2) g := by
  rw [create_group, Samba.request]
  by_cases hlive : g.name ∈ p.2
  · rw [if_pos hlive, if_pos hlive]
  · rw [if_neg hlive, if_neg hlive, if_neg Bool.false_ne_true]
    by_cases hrc : (S.exec (.groupAdd g.name (groupOptions upper container g)) p.1.state).1.rc = 0
    · simp only [World.ask, hrc, ne_eq, not_true_eq_false, ↓reduceIte]
      rfl
    · simp only [World.ask, hrc, ne_eq, not_false_eq_true, ↓reduceIte]
      rfl

theorem create_groups_request (container : String) (groups : List GroupSpec) :
    ∀ p : World σ × List String,
      (groups.foldl (create_group S.exec upper false container) p).2 =
        (groups.foldl (S.request upper container) (p.1.state, p.2)).2 := by
  induction groups with
  | nil => exact fun _ => rfl
  | cons g groups ih =>
    intro p
    rw [List.foldl_cons, List.foldl_cons, ih, create_group_request]

/-- The two passes, from a world. -/
def passes (S : Samba σ) (upper : String → String) (plan : GroupPlan) (check : Bool)
    (p : World σ × List String) : World σ × List String :=
  plan.desired.foldl (create_group S.exec upper check plan.container) p

def groupsRun (S : Samba σ) (upper : String → String) (plan : GroupPlan) (check : Bool)
    (p : World σ × List String) : World σ :=
  finish plan.desired (passes S upper plan check p).2
    (plan.desired.foldl (nest_members S.exec check (passes S upper plan check p).2)
      (passes S upper plan check p).1)

theorem cmd_groups_listed (plan : GroupPlan) (check : Bool) {w : World σ}
    (h : (S.exec .groupList w.state).1.rc = 0) :
    cmd_groups S.exec upper check plan w = groupsRun S upper plan check
      ((w.ask S.exec .groupList).2, parse_name_list (S.exec .groupList w.state).1.out) := by
  rw [cmd_groups]
  exact if_neg (not_not.mpr h)

theorem cmd_groups_unlisted (upper : String → String) (plan : GroupPlan) (check : Bool) {w : World σ}
    (h : (S.exec .groupList w.state).1.rc ≠ 0) :
    ∃ m, cmd_groups S.exec upper check plan w = (w.ask S.exec .groupList).2.say (.fail m) := by
  rw [cmd_groups]
  exact ⟨_, if_pos h⟩

section Listed

variable (plan : GroupPlan) (p : World σ × List String)

theorem nests_plan (live : List String) :
    Nests S (∃ g ∈ plan.desired, g.name ∉ live ∧ g.members ≠ []) fun check w =>
      plan.desired.foldl (nest_members S.exec check live) w :=
  Nests.foldl plan.desired fun g _ => nests_members live g

theorem groupsRun_grows (check : Bool) :
    (S.dir p.1.state).Le (S.dir (groupsRun S upper plan check p).state) := by
  have hpass : (S.dir p.1.state).Le (S.dir (passes S upper plan check p).1.state) := by
    cases check with
    | false => exact (created_groups plan.container plan.desired p).grows
    | true =>
      have hstate := (checked_groups S upper plan.container plan.desired p).2.2
      rw [passes, hstate]
      exact .refl _
  have hnest := (nests_plan (S := S) plan (passes S upper plan check p).2).grows check
    (passes S upper plan check p).1
  rw [groupsRun, (finish_spec plan.desired _ _).2.2.1]
  exact hpass.trans hnest

theorem groupsRun_harmless (h : Mutated (groupsRun S upper plan true p)) : Mutated p.1 := by
  obtain ⟨-, hcalls, -, -⟩ := finish_spec plan.desired (passes S upper plan true p).2
    (plan.desired.foldl (nest_members S.exec true (passes S upper plan true p).2)
      (passes S upper plan true p).1)
  rw [groupsRun, Mutated, hcalls] at h
  obtain ⟨x, hx, hmutating⟩ := (nests_plan (S := S) plan _).harmless _ h
  have hpass := (checked_groups S upper plan.container plan.desired p).2.1
  rw [passes, hpass] at hx
  exact ⟨x, hx, hmutating⟩

/-- Both runs are one, or the one says what the other does. -/
theorem groupsRun_alike : groupsRun S upper plan true p = groupsRun S upper plan false p ∨
    Would (groupsRun S upper plan true p) ∧ Mutated (groupsRun S upper plan false p) := by
  have hend : ∀ check, Follows (passes S upper plan check p).1 (groupsRun S upper plan check p) :=
    fun check => ((nests_plan plan _).follows check _).trans (finish_spec _ _ _).1
  obtain ⟨htrue, hfalse, hlive⟩ | ⟨hwould, hmutated⟩ :=
    groups_alike S upper plan.container plan.desired p
  · have hsound := sound_nested S hlive
    rw [groupsRun, groupsRun, passes, passes, htrue, hfalse]
    obtain heq | ⟨hwould, hmutated⟩ := hsound.alike p.1
    · exact .inl (congrArg _ heq)
    · exact .inr ⟨(finish_spec _ _ _).1.would hwould, (finish_spec _ _ _).1.mutated hmutated⟩
  · exact .inr ⟨(hend true).would hwould, (hend false).mutated hmutated⟩

/-- What is said in a run that is not under `--check`. -/
theorem groupsRun_would (hp : ¬ Would p.1) : Would (groupsRun S upper plan false p) ↔
    ∃ g ∈ plan.desired, g.name ∉ (passes S upper plan false p).2 ∧ g.members ≠ [] := by
  have hnest := (nests_plan (S := S) plan (passes S upper plan false p).2).would
    (passes S upper plan false p).1
  obtain ⟨hfollows, -, -, hwould⟩ := finish_spec plan.desired (passes S upper plan false p).2
    (plan.desired.foldl (nest_members S.exec false (passes S upper plan false p).2)
      (passes S upper plan false p).1)
  have hpass : ¬ Would (passes S upper plan false p).1 := fun h =>
    hp ((created_groups plan.container plan.desired p).honest h)
  rw [groupsRun]
  exact ⟨fun h => (hnest.mp (hwould h)).resolve_left hpass, fun h => hfollows.would (hnest.mpr (.inr h))⟩

/-- Groups that are live and have their members. -/
def Converged (d : Directory) : Prop := ∀ g ∈ plan.desired, g.name ∈ d.groups ∧ Nested g d

theorem groupsRun_reached (hknown : ∀ n ∈ p.2, n ∈ (S.dir p.1.state).groups)
    (h : ¬ Failed (groupsRun S upper plan false p)) :
    Converged plan (S.dir (groupsRun S upper plan false p).state) := by
  have hcreated : Created S plan.desired p (passes S upper plan false p) :=
    created_groups plan.container plan.desired p
  have hnest := nests_plan (S := S) plan (passes S upper plan false p).2
  obtain ⟨hfollows, -, hstate, -⟩ := finish_spec plan.desired (passes S upper plan false p).2
    (plan.desired.foldl (nest_members S.exec false (passes S upper plan false p).2)
      (passes S upper plan false p).1)
  have hlive := hcreated.all fun hf => h (((hnest.follows false _).trans hfollows).failed hf)
  have hsound := sound_nested S hlive
  have hmembers := hsound.reached _ fun hf => h (hfollows.failed hf)
  intro g hg
  rw [groupsRun, hstate]
  exact ⟨(hsound.grows false _).groups (hcreated.known hknown _ (hlive g hg)), hmembers g hg⟩

theorem groupsRun_stays (hlive : ∀ g ∈ plan.desired, g.name ∈ p.2)
    (hconverged : Converged plan (S.dir p.1.state))
    (h : Mutated (groupsRun S upper plan false p)) : Mutated p.1 := by
  have hsame : passes S upper plan false p = p :=
    (created_groups plan.container plan.desired p).same hlive
  rw [groupsRun, Mutated, (finish_spec _ _ _).2.1, hsame] at h
  exact (sound_nested S hlive).stays _ (fun g hg => (hconverged g hg).2) h

end Listed

theorem not_mutated_list (s : σ) : ¬ Mutated (World.ask S.exec .groupList (.start s)).2 := by
  intro h
  obtain hstart | hlist := mutated_ask.mp h
  · exact not_mutated_start s hstart
  · exact nomatch hlist

/-- Where the groups cannot be listed nothing is done. -/
theorem unlisted_reconciles (plan : GroupPlan) {s : σ} (hrc : (S.exec .groupList s).1.rc ≠ 0) :
    Reconciles S (fun check => cmd_groups S.exec upper check plan) s := by
  have hrun : ∀ check, ∃ m, cmd_groups S.exec upper check plan (.start s) =
      (World.ask S.exec .groupList (.start s)).2.say (.fail m) :=
    fun check => cmd_groups_unlisted upper (w := .start s) plan check hrc
  have hquiet : ∀ check, ¬ Mutated (cmd_groups S.exec upper check plan (.start s)) := by
    intro check hw
    obtain ⟨m, hm⟩ := hrun check
    rw [hm] at hw
    exact not_mutated_list s hw
  have hsilent : ∀ check, ¬ Would (cmd_groups S.exec upper check plan (.start s)) := by
    intro check hw
    obtain ⟨m, hm⟩ := hrun check
    rw [hm] at hw
    exact not_would_start s (would_of_say hw rfl)
  refine ⟨fun check => ?_, hquiet true, iff_of_false (hsilent true) (hquiet false), hsilent false,
    fun hok => absurd ?_ hok⟩
  · obtain ⟨m, hm⟩ := hrun check
    rw [hm]
    show (S.dir s).Le (S.dir (S.exec .groupList s).2)
    rw [S.dir_read rfl s]
    exact .refl _
  · obtain ⟨m, hm⟩ := hrun false
    rw [hm]
    exact failed_say _ m

/-- `cmd_groups` reconciles unless a group with members is refused. -/
theorem groups_reconcile_iff (plan : GroupPlan) (s : σ) :
    Reconciles S (fun check => cmd_groups S.exec upper check plan) s ↔
      ¬ ∃ g ∈ plan.desired, g.members ≠ [] ∧ S.Refuses upper plan s g.name := by
  by_cases hrc : (S.exec .groupList s).1.rc = 0
  · have hmem : ∀ {s' : σ}, (S.exec .groupList s').1.rc = 0 → ∀ n,
        n ∈ parse_name_list (S.exec .groupList s').1.out ↔ n ∈ (S.dir s').groups :=
      fun {s'} h n => mem_parse_name_list (S.group_list s' h) (S.names s').1
    obtain ⟨p, hp⟩ : ∃ p : World σ × List String, p =
      ((World.ask S.exec .groupList (.start s)).2, parse_name_list (S.exec .groupList s).1.out) :=
        ⟨_, rfl⟩
    have hrun : ∀ check, cmd_groups S.exec upper check plan (.start s) =
        groupsRun S upper plan check p :=
      fun check => hp ▸ cmd_groups_listed (w := .start s) plan check hrc
    have hlist : ∀ n ∈ p.2, n ∈ (S.dir p.1.state).groups := by
      rw [hp]
      intro n hn
      exact (S.dir_read rfl s : S.dir (S.exec .groupList s).2 = S.dir s) ▸ (hmem hrc n).mp hn
    have hdir : S.dir p.1.state = S.dir s := by
      rw [hp]
      exact S.dir_read rfl s
    have hmutated : ¬ Mutated p.1 := by
      rw [hp]
      exact not_mutated_list s
    have hwould : ¬ Would p.1 := by
      rw [hp]
      exact fun ⟨_, hx⟩ => nomatch hx
    have hhonest : Would (groupsRun S upper plan false p) ↔
        ∃ g ∈ plan.desired, g.members ≠ [] ∧ S.Refuses upper plan s g.name := by
      rw [groupsRun_would plan p hwould]
      refine exists_congr fun g => and_congr_right fun _ => ?_
      rw [and_comm, passes, create_groups_request, hp]
      exact and_congr_right fun _ => ⟨fun h => ⟨hrc, h⟩, And.right⟩
    rw [← hhonest]
    refine ⟨fun h hw => h.honest (by rwa [hrun]), fun h => ?_⟩
    -- no group with members is refused: the run would have said what it leaves undone
    have hharmless : ¬ Mutated (groupsRun S upper plan true p) :=
      fun hw => hmutated (groupsRun_harmless plan p hw)
    constructor
    case additive =>
      intro check
      rw [hrun, ← hdir]
      exact groupsRun_grows plan p check
    case harmless => rwa [hrun]
    case announced =>
      rw [hrun, hrun]
      exact announced_of_alike hharmless h (groupsRun_alike plan p)
    case honest => rwa [hrun]
    case settled =>
      rw [hrun]
      intro hok
      have hconverged := groupsRun_reached plan p hlist hok
      set s' := (groupsRun S upper plan false p).state with hs'
      by_cases hrc' : (S.exec .groupList s').1.rc = 0
      · rw [cmd_groups_listed (w := .start s') plan false hrc']
        intro hw
        have hdir' : S.dir (World.ask S.exec .groupList (.start s')).2.state = S.dir s' :=
          S.dir_read rfl s'
        have hstart := groupsRun_stays plan _
          (fun g hg => (hmem hrc' _).mpr (hconverged g hg).1) (hdir'.symm ▸ hconverged) hw
        exact not_mutated_list s' hstart
      · obtain ⟨m, hm⟩ := cmd_groups_unlisted upper (w := .start s') plan false hrc'
        rw [hm]
        exact fun hw => not_mutated_list s' hw
  · exact iff_of_true (unlisted_reconciles plan hrc) fun ⟨g, _, _, hlisted, _⟩ => hrc hlisted

/-- The three subcommands reconcile exactly if no group with members is refused. -/
theorem reconciles_iff (S : Samba σ) (upper : String → String) (plan : GroupPlan)
    (accounts : List AccountSpec) (acls : List AceSpec) (s : σ) :
    (Reconciles S (fun check => cmd_groups S.exec upper check plan) s ∧
      Reconciles S (fun check => cmd_service_accounts S.exec check accounts) s ∧
      Reconciles S (fun check => cmd_acls S.exec check acls) s) ↔
    ¬ ∃ g ∈ plan.desired, g.members ≠ [] ∧ S.Refuses upper plan s g.name := by
  have haccounts := (sound_accounts S accounts).reconciles s
  have hacls := (sound_acls S acls).reconciles s
  rw [← groups_reconcile_iff]
  exact ⟨And.left, fun h => ⟨h, haccounts, hacls⟩⟩

/-! ### A small domain -/

instance (n : String) : Decidable (IsName n) :=
  decidable_of_iff (Python.strip n = n ∧ n ≠ "" ∧ ∀ c ∈ n.toList, Python.isLineBreak c = false)
    ⟨fun h => ⟨h.1, h.2.1, h.2.2⟩, fun h => ⟨h.strip_eq, h.ne_empty, h.no_break⟩⟩

/-- An ACE as a descriptor has it: in parentheses, and on one line. -/
def IsAce (ace : String) : Prop :=
  ace.toList.head? = some '(' ∧ '(' ∉ ace.toList.tail ∧ '\n' ∉ ace.toList

instance (ace : String) : Decidable (IsAce ace) := inferInstanceAs (Decidable (_ ∧ _ ∧ _))

/-- What `dsacl get` prints. -/
def descriptor (aces : List String) : String := "D:AI" ++ String.join aces

theorem breakAces_ace {ace : String} (h : IsAce ace) : breakAces ace.toList = '\n' :: ace.toList := by
  obtain ⟨hhead, htail, -⟩ := h
  cases htext : ace.toList with
  | nil =>
    rw [htext] at hhead
    cases hhead
  | cons c l =>
    rw [htext] at hhead htail
    obtain rfl := Option.some.inj hhead
    rw [breakAces, List.flatMap_cons, if_pos rfl, ← breakAces, show breakAces l = l from breakAces_eq_self htail]
    rfl

theorem splitOn_lines {l : List Char} (hl : '\n' ∉ l) {aces : List String}
    (haces : ∀ ace ∈ aces, IsAce ace) :
    (l ++ breakAces (aces.flatMap String.toList)).splitOn '\n' = l :: aces.map String.toList := by
  induction aces generalizing l with
  | nil =>
    rw [List.flatMap_nil, show breakAces [] = [] from rfl, List.append_nil,
      List.splitOn_eq_singleton hl]
    rfl
  | cons ace aces ih =>
    obtain ⟨hace, haces⟩ := List.forall_mem_cons.mp haces
    rw [List.flatMap_cons, breakAces_append, breakAces_ace hace, List.cons_append,
      List.splitOn_append_cons_self_of_not_mem hl, ih hace.2.2 haces]
    rfl

/-- The ACEs of a descriptor are what it is searched for. -/
theorem chunks_descriptor {aces : List String} (h : ∀ ace ∈ aces, IsAce ace) :
    chunks (descriptor aces).toList = "D:AI".toList :: aces.map String.toList := by
  have hstart : breakAces "D:AI".toList = "D:AI".toList := breakAces_eq_self (by decide)
  rw [chunks, descriptor, String.toList_append, breakAces_append, String.toList_join, hstart]
  exact splitOn_lines (by decide) h

theorem prints_descriptor {aces : List String} (h : ∀ ace ∈ aces, IsAce ace) :
    PrintsAces (descriptor aces) {ace | ace ∈ aces} where
  printed ace hace := by
    obtain ⟨before, behind, rfl⟩ := List.append_of_mem hace
    refine ⟨"D:AI".toList ++ before.flatMap String.toList, behind.flatMap String.toList, ?_⟩
    rw [descriptor, String.toList_append, String.toList_join, List.flatMap_append, List.flatMap_cons]
    simp
  found guid sid hfound := by
    rw [ace_present, chunks_descriptor h, List.any_cons, Bool.or_eq_true] at hfound
    obtain hstart | hfound := hfound
    · exact absurd (Bool.and_eq_true_iff.mp (Bool.and_eq_true_iff.mp hstart).1).1 (by decide)
    · obtain ⟨chunk, hchunk, hmatch⟩ := List.any_eq_true.mp hfound
      obtain ⟨ace, hace, rfl⟩ := List.mem_map.mp hchunk
      refine ⟨ace, hace, List.any_eq_true.mpr ⟨ace.toList, ?_, hmatch⟩⟩
      have hown := splitOn_lines (l := []) (by decide) (List.forall_mem_singleton.mpr (h ace hace))
      rw [List.nil_append, List.flatMap_singleton] at hown
      rw [chunks, hown]
      exact List.mem_cons_of_mem _ (List.mem_singleton_self _)

/-- A domain that keeps what it is given. -/
structure Domain where
  groups : List String
  users : List String
  members : String → List String
  aces : String → List String
  named : (∀ n ∈ groups, IsName n) ∧ (∀ n ∈ users, IsName n) ∧ ∀ g, ∀ n ∈ members g, IsName n
  written : ∀ dn, ∀ ace ∈ aces dn, IsAce ace

namespace Domain

def dir (d : Domain) : Directory where
  groups := {n | n ∈ d.groups}
  users := {n | n ∈ d.users}
  members group := {n | n ∈ d.members group}
  aces dn := {ace | ace ∈ d.aces dn}

theorem mem_update_insert {f : String → List String} {p : String → Prop} {name m : String}
    (hm : p m) (h : ∀ g, ∀ n ∈ f g, p n) :
    ∀ g, ∀ n ∈ Function.update f name ((f name).insert m) g, p n := by
  intro g n hn
  rw [Function.update_apply] at hn
  split_ifs at hn with hg
  · obtain rfl | hn := List.mem_insert_iff.mp hn
    · exact hm
    · exact h name n hn
  · exact h g n hn

theorem setOf_update_insert (f : String → List String) (name m : String) :
    (fun g => {n | n ∈ Function.update f name ((f name).insert m) g}) =
      Function.update (fun g => {n | n ∈ f g}) name (insert m {n | n ∈ f name}) := by
  funext g
  rw [Function.update_apply, Function.update_apply]
  split_ifs
  · ext n
    exact List.mem_insert_iff
  · rfl

/-- The SIDs of two accounts. -/
def sid (name : String) : String := if name = "svc-reset" then "S-1-5-21-1104" else "S-1-5-21-1103"

/-- `samba-tool` of a domain that refuses to create some groups. -/
def exec (refuses : String → Bool) : Command → Domain → Answer × Domain
  | .groupList, d => (⟨0, Python.unlines d.groups, ""⟩, d)
  | .userList, d => (⟨0, Python.unlines d.users, ""⟩, d)
  | .listMembers group, d => (⟨0, Python.unlines (d.members group), ""⟩, d)
  | .showSid _ name, d => (⟨0, Python.unlines ["objectSid: " ++ sid name], ""⟩, d)
  | .dsaclGet dn, d => (⟨0, descriptor (d.aces dn), ""⟩, d)
  | .groupAdd name _, d =>
    if h : IsName name ∧ refuses name = false then
      (⟨0, "", ""⟩, { d with
        groups := d.groups.insert name
        named := ⟨fun n hn => (List.mem_insert_iff.mp hn).elim (fun he => he ▸ h.1) (d.named.1 n),
          d.named.2⟩ })
    else (⟨255, "", "ERROR: Failed to add group"⟩, d)
  | .addMembers group member, d =>
    if h : IsName member then
      (⟨0, "", ""⟩, { d with
        members := Function.update d.members group ((d.members group).insert member)
        named := ⟨d.named.1, d.named.2.1, mem_update_insert h d.named.2.2⟩ })
    else (⟨255, "", "ERROR: Failed to add members"⟩, d)
  | .dsaclSet dn sddl, d =>
    if h : IsAce sddl then
      (⟨0, "", ""⟩, { d with
        aces := Function.update d.aces dn ((d.aces dn).insert sddl)
        written := mem_update_insert h d.written })
    else (⟨255, "", "ERROR: Unable to parse SDDL"⟩, d)
  | _, d => (⟨255, "", "ERROR"⟩, d)

theorem not_zero {d : Domain} {err : String} {p : Prop}
    (h : ((⟨255, "", err⟩, d) : Answer × Domain).1.rc = 0) : p :=
  absurd (show (255 : ℤ) = 0 from h) (by decide)

theorem exec_effect (refuses : String → Bool) (c : Command) (d : Domain)
    (h : (exec refuses c d).1.rc = 0) : (exec refuses c d).2.dir = c.apply d.dir := by
  cases c with
  | groupAdd name extra =>
    rw [exec] at h ⊢
    split_ifs at h ⊢
    · have hgroups : {n | n ∈ d.groups.insert name} = insert name {n | n ∈ d.groups} := by
        ext n
        exact List.mem_insert_iff
      exact congrArg (fun groups => { d.dir with groups := groups }) hgroups
    · exact not_zero h
  | addMembers group member =>
    rw [exec] at h ⊢
    split_ifs at h ⊢
    · exact congrArg (fun members => { d.dir with members := members })
        (setOf_update_insert d.members group member)
    · exact not_zero h
  | dsaclSet dn sddl =>
    rw [exec] at h ⊢
    split_ifs at h ⊢
    · exact congrArg (fun aces => { d.dir with aces := aces }) (setOf_update_insert d.aces dn sddl)
    · exact not_zero h
  | groupList | userList | listMembers | showSid | dsaclGet => rfl
  | _ => exact not_zero h

theorem exec_refused (refuses : String → Bool) (c : Command) (d : Domain)
    (h : (exec refuses c d).1.rc ≠ 0) : (exec refuses c d).2.dir = d.dir := by
  cases c with
  | groupAdd | addMembers | dsaclSet =>
    rw [exec] at h ⊢
    split_ifs at h ⊢
    · exact absurd rfl h
    · rfl
  | _ => rfl

theorem isName_sid (name : String) : IsName (sid name) ∧ '(' ∉ (sid name).toList := by
  rw [sid]
  split_ifs
  · exact ⟨by decide, by decide⟩
  · exact ⟨by decide, by decide⟩

theorem prints_sid (name : String) :
    PrintsSid (Python.unlines ["objectSid: " ++ sid name]) (sid name) := by
  have hlabel : ∀ c ∈ "objectSid: ".toList, Python.isLineBreak c = false := by decide
  refine ⟨[], [], Python.splitlines_unlines (List.forall_mem_singleton.mpr fun c hc => ?_),
    fun _ h => (nomatch h)⟩
  rw [String.toList_append] at hc
  exact (List.mem_append.mp hc).elim (hlabel c) ((isName_sid name).1.no_break c)

/-- The domain keeps to what `samba-tool` is documented to do. -/
def samba (refuses : String → Bool) : Samba Domain where
  exec := exec refuses
  dir := dir
  sid := sid
  effect := exec_effect refuses
  refused := exec_refused refuses
  names d := d.named
  sid_name := isName_sid
  group_list d _ := ⟨d.groups, rfl, fun _ => Iff.rfl⟩
  user_list d _ := ⟨d.users, rfl, fun _ => Iff.rfl⟩
  list_members group d _ := ⟨d.members group, rfl, fun _ => Iff.rfl⟩
  show_sid _ name _ _ := prints_sid name
  dsacl_get dn d _ := prints_descriptor (d.written dn)

/-- The domain before a run: a group without members, two users, and no delegation. -/
def fresh : Domain where
  groups := ["Domain Users"]
  users := ["alice", "svc-reset"]
  members _ := []
  aces _ := []
  named := ⟨by decide, by decide, fun _ _ h => absurd h List.not_mem_nil⟩
  written _ _ h := absurd h List.not_mem_nil

end Domain

/-- A group with a member that is to be created. -/
def opsPlan : GroupPlan where
  groups := [{ name := "ops", members := ["alice"] }]

/-- A service account that is to be in that group. -/
def opsAccounts : List AccountSpec := [{ name := "svc-reset", member_of := ["ops"] }]

/-- Its delegation. -/
def opsAcls : List AceSpec :=
  [{ objectdn := "OU=People,DC=krg,DC=local", trustee := "svc-reset", right := "reset-password" }]

/-- In a domain that creates the group the three subcommands reconcile; together they make the
group, add both members, and grant the delegation. -/
theorem domain_reconciles : ((Reconciles (Domain.samba fun _ => false)
      (fun check => cmd_groups (Domain.samba fun _ => false).exec id check opsPlan) Domain.fresh ∧
    Reconciles (Domain.samba fun _ => false)
      (fun check => cmd_service_accounts (Domain.samba fun _ => false).exec check opsAccounts)
      Domain.fresh ∧
    Reconciles (Domain.samba fun _ => false)
      (fun check => cmd_acls (Domain.samba fun _ => false).exec check opsAcls) Domain.fresh)) ∧
    (cmd_groups (Domain.samba fun _ => false).exec id false opsPlan
      (.start Domain.fresh)).state.members "ops" = ["alice"] ∧
    (cmd_service_accounts (Domain.samba fun _ => false).exec false opsAccounts
      (.start Domain.fresh)).state.members "ops" = ["svc-reset"] ∧
    (cmd_acls (Domain.samba fun _ => false).exec false opsAcls
      (.start Domain.fresh)).state.aces "OU=People,DC=krg,DC=local" =
        ["(OA;CI;CR;00299570-246d-11d0-a768-00aa006e0529;;S-1-5-21-1104)"] := by
  refine ⟨(reconciles_iff (Domain.samba fun _ => false) id opsPlan opsAccounts opsAcls
    Domain.fresh).mpr ?_, by decide +kernel, by decide +kernel, by decide +kernel⟩
  rintro ⟨g, hg, -, -, hrefused⟩
  obtain rfl := List.mem_singleton.mp hg
  exact hrefused (by decide +kernel)

/-- A run that is not under `--check` says what it would do, after it could not create a group. -/
theorem ops_refused : ¬ Reconciles (Domain.samba fun name => name = "ops")
    (fun check => cmd_groups (Domain.samba fun name => name = "ops").exec id check opsPlan)
    Domain.fresh := by
  intro h
  refine h.honest ⟨"add 'alice' to group 'ops' (parent pending creation)", ?_⟩
  exact List.mem_cons_of_mem _ List.mem_cons_self

end KrgAd
