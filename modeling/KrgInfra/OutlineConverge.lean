/-
Outline group sync: where a plan leads, and where it has led when it is cut short.

The goal of a sync is a record for every Outline group: the group of an LDAP group bears
its name and external id and has its desired members, a group whose LDAP group is gone
has none, every other group is as it was; and a new group for every LDAP group that has
none.  A plan's operations go toward that goal, in order, and all that it needs.  So a
whole run of them reaches it, and a run that is cut short leaves every group between its
record and its goal.

* `Directory.wanted`, `Directory.start`, `Directory.goal` — the goal, by symbolic id;
* `planned_toward`, `planned_ordered`, `planned_complete` — the plan and the goal;
* `Partial`, `Reached` — the server after some, and after all, of the plan;
* `apply_midway`, `apply_reached`.
-/
import KrgInfra.OutlineApply
import Mathlib

namespace GroupSync

theorem mem_sorted_diff {xs ys : List String} {u : String} :
    u ∈ sorted_diff xs ys ↔ u ∈ xs ∧ u ∉ ys := by
  simp [sorted_diff]

theorem sorted_diff_eq_nil {xs ys : List String} :
    sorted_diff xs ys = [] ↔ ∀ u ∈ xs, u ∈ ys := by
  simp only [List.eq_nil_iff_forall_not_mem, mem_sorted_diff, not_and, not_not]

theorem mem_member_operations {id : String} {desired current : List String} {x : Operation} :
    x ∈ member_operations id desired current ↔
      (∃ u, (u ∈ desired ∧ u ∉ current) ∧ x = .add_user id u) ∨
      (∃ u, (u ∈ current ∧ u ∉ desired) ∧ x = .remove_user id u) := by
  simp [member_operations, mem_sorted_diff, eq_comm]

theorem names_member_operations {id : String} {desired current : List String} {x : Operation}
    (hx : x ∈ member_operations id desired current) : x.names = some id := by
  obtain ⟨u, -, rfl⟩ | ⟨u, -, rfl⟩ := mem_member_operations.mp hx
  · rfl
  · rfl

theorem mem_update_operations {o : OutlineGroup} {external name : String} {x : Operation} :
    x ∈ update_operations o external name ↔
      (o.externalId ≠ some external ∨ o.name ≠ name) ∧ x = .update o.id name external := by
  unfold update_operations
  split_ifs with h
  · simp [h]
  · simp [h]

/-- The dict `memberships` tells the members of the groups it speaks of. -/
def Reads (memberships : List (String × List String)) (S : Outline) : Prop :=
  ∀ id members, memberships.lookup id = some members →
    ∃ s ∈ S.groups, s.id = id ∧ ∀ u, u ∈ members ↔ u ∈ s.members

theorem Outline.outline_ids (S : Outline) :
    S.outline_groups.map OutlineGroup.id = S.groups.map (·.id) := by
  simp [Outline.outline_groups, Function.comp_def]

theorem Outline.outline_ids_nodup (S : Outline) : (S.outline_groups.map OutlineGroup.id).Nodup :=
  S.outline_ids ▸ S.ids_nodup

theorem Outline.mem_outline_groups {S : Outline} {o : OutlineGroup} :
    o ∈ S.outline_groups ↔ ∃ s ∈ S.groups, s.toOutlineGroup = o := by
  simp [Outline.outline_groups]

namespace Directory

variable (D : Directory) (S : Outline)

/-- The LDAP group whose Outline group `o` is. -/
def source (o : OutlineGroup) : Option LdapGroup :=
  D.ldap_groups.find? fun g => D.target S.outline_groups g = some o

/-- The record of the group of `g`. -/
def full (g : LdapGroup) (s : ServerGroup) : ServerGroup :=
  { s with name := g.name, externalId := some (D.ext g), members := D.desired g }

/-- The record of the group that is created for `g`. -/
def fresh (g : LdapGroup) : ServerGroup := D.full g { id := D.ext g, name := "" }

/-- The record an Outline group is to have. -/
def wanted (s : ServerGroup) : ServerGroup :=
  match D.source S s.toOutlineGroup with
  | some g => D.full g s
  | none => if D.Tagged s.toOutlineGroup then { s with members := [] } else s

/-- The record the symbolic id `id` is to have. -/
def goal (id : String) : ServerGroup :=
  match S.group? id with
  | some s => D.wanted S s
  | none =>
    match D.ldap_groups.find? fun g => D.ext g = id with
    | some g => D.fresh g
    | none => { id, name := "" }

/-- The record the symbolic id `id` begins with. -/
def start (id : String) : ServerGroup :=
  (S.group? id).getD { D.goal S id with members := [] }

variable {D S} {memberships : List (String × List String)}

theorem managed_ext (g : LdapGroup) : Managed (D.ext g) := by
  refine ⟨(D.source_id ++ ":" ++ g.pk).toList, ?_⟩
  simp [ext, external_id, prefix_of, String.toList_append]

theorem tagged_of_external {o : OutlineGroup} {g : LdapGroup} (h : o.external = D.ext g) :
    D.Tagged o := by
  rw [Tagged, h]
  exact ⟨g.pk.toList, by simp [ext, external_id, String.toList_append]⟩

/-- An external id of this source is not the id of a group. -/
theorem group?_ext (g : LdapGroup) : S.group? (D.ext g) = none := by
  rw [Outline.group?_eq_none]
  intro h
  obtain ⟨s, hs, hid⟩ := List.mem_map.mp h
  exact S.ids_plain s hs (hid ▸ managed_ext g)

theorem group?_self {s : ServerGroup} (hs : s ∈ S.groups) : S.group? s.id = some s :=
  Outline.group?_eq_some.mpr ⟨hs, rfl⟩

/-- The members an Outline group is to have are Outline users. -/
theorem desired_users {g : LdapGroup} {u : String} (h : u ∈ D.desired g) :
    u ∈ D.outline_users.map OutlineUser.id := by
  unfold desired desired_members index at h
  obtain ⟨⟨address, user⟩, he, h⟩ := List.mem_filterMap.mp h
  obtain ⟨user', hu, he⟩ := List.mem_map.mp he
  obtain ⟨rfl, rfl⟩ := Prod.mk.inj he
  cases hl : (D.addressed.map fun u => (D.address u.email, u)).lookup
      (D.address user'.email) with
  | none => simp [hl] at h
  | some ak =>
    simp only [hl, Option.ite_none_right_eq_some, Option.some.injEq] at h
    exact List.mem_map.mpr ⟨user', hu, h.2⟩

section Accepted

variable (h : D.Accepts S.outline_groups memberships)
include h

theorem Accepts.target_claims {g : LdapGroup} (hg : g ∈ D.ldap_groups) {o : OutlineGroup} :
    D.target S.outline_groups g = some o ↔ o ∈ S.outline_groups ∧ D.Claims g o :=
  h.target_iff S.outline_ids_nodup hg

theorem Accepts.source_iff {o : OutlineGroup} {g : LdapGroup} :
    D.source S o = some g ↔ g ∈ D.ldap_groups ∧ D.target S.outline_groups g = some o := by
  unfold source
  constructor
  · intro hf
    exact ⟨List.mem_of_find?_eq_some hf, by simpa using List.find?_some hf⟩
  · rintro ⟨hg, ht⟩
    cases hf : D.ldap_groups.find? (fun g => D.target S.outline_groups g = some o) with
    | none => exact absurd ht (by simpa using List.find?_eq_none.mp hf g hg)
    | some g' =>
      have ht' : D.target S.outline_groups g' = some o := by simpa using List.find?_some hf
      rw [h.target_inj S.outline_ids_nodup (List.mem_of_find?_eq_some hf) hg ht' ht rfl]

theorem Accepts.used_iff {s : ServerGroup} (hs : s ∈ S.groups) :
    s.id ∈ D.used S.outline_groups ↔
      ∃ g ∈ D.ldap_groups, D.target S.outline_groups g = some s.toOutlineGroup := by
  unfold used
  rw [List.mem_filterMap]
  constructor
  · rintro ⟨g, hg, ho⟩
    obtain ⟨o, ht, hid⟩ := Option.map_eq_some_iff.mp ho
    obtain ⟨s', hs', rfl⟩ := Outline.mem_outline_groups.mp ((h.target_claims hg).mp ht).1
    obtain rfl := Outline.group_inj hs' hs hid
    exact ⟨g, hg, ht⟩
  · rintro ⟨g, hg, ho⟩
    exact ⟨g, hg, by rw [ho]; rfl⟩

theorem Accepts.source_none {s : ServerGroup} (hs : s ∈ S.groups) :
    D.source S s.toOutlineGroup = none ↔ s.id ∉ D.used S.outline_groups := by
  rw [h.used_iff hs, Option.eq_none_iff_forall_ne_some]
  simp only [ne_eq, h.source_iff, not_exists]

/-- The goal of the Outline group that an LDAP group has. -/
theorem Accepts.goal_target {g : LdapGroup} (hg : g ∈ D.ldap_groups) {s : ServerGroup}
    (hs : s ∈ S.groups) (ht : D.target S.outline_groups g = some s.toOutlineGroup) :
    D.goal S s.id = D.full g s := by
  rw [goal, group?_self hs]
  show D.wanted S s = _
  rw [wanted, h.source_iff.mpr ⟨hg, ht⟩]

/-- The goal of the group that is created for an LDAP group. -/
theorem Accepts.goal_ext {g : LdapGroup} (hg : g ∈ D.ldap_groups) :
    D.goal S (D.ext g) = D.fresh g := by
  have hf : D.ldap_groups.find? (fun g' => D.ext g' = D.ext g) = some g := by
    cases hf : D.ldap_groups.find? (fun g' => D.ext g' = D.ext g) with
    | none => simpa using List.find?_eq_none.mp hf g hg
    | some g' =>
      have he : D.ext g' = D.ext g := by simpa using List.find?_some hf
      rw [h.pks.inj (List.mem_of_find?_eq_some hf) hg (ext_inj.mp he)]
  rw [goal, group?_ext, hf]

/-- The goal of a group whose LDAP group is gone. -/
theorem Accepts.goal_orphan {s : ServerGroup} (hs : s ∈ S.groups)
    (ht : D.Tagged s.toOutlineGroup) (hu : s.id ∉ D.used S.outline_groups) :
    D.goal S s.id = { s with members := [] } := by
  rw [goal, group?_self hs]
  show D.wanted S s = _
  rw [wanted, (h.source_none hs).mpr hu]
  exact if_pos ht

/-- The goal of a group that is none of the sync's business. -/
theorem Accepts.goal_other {s : ServerGroup} (hs : s ∈ S.groups)
    (ht : ¬ D.Tagged s.toOutlineGroup) (hu : s.id ∉ D.used S.outline_groups) :
    D.goal S s.id = s := by
  rw [goal, group?_self hs]
  show D.wanted S s = _
  rw [wanted, (h.source_none hs).mpr hu]
  exact if_neg ht

end Accepted

/-! ### The plan goes toward the goal -/

theorem mem_planned {groups : List OutlineGroup} {x : Operation} :
    x ∈ D.planned groups memberships ↔
      (∃ g ∈ D.ldap_groups, x ∈ D.group_operations groups memberships g) ∨
      ∃ o ∈ groups, x ∈ D.orphan_operations groups memberships o := by
  simp [planned]

theorem mem_current (hr : Reads memberships S) {s : ServerGroup} (hs : s ∈ S.groups)
    (hsome : (memberships.lookup s.id).isSome) {u : String} :
    u ∈ current memberships s.id ↔ u ∈ s.members := by
  obtain ⟨members, hl⟩ := Option.isSome_iff_exists.mp hsome
  obtain ⟨s', hs', hid, hm⟩ := hr _ _ hl
  obtain rfl := Outline.group_inj hs' hs hid
  rw [current, hl]
  exact hm u

/-- The Outline group of an LDAP group, as the server stores it. -/
theorem Accepts.target_cases (h : D.Accepts S.outline_groups memberships) {g : LdapGroup}
    (hg : g ∈ D.ldap_groups) : D.target S.outline_groups g = none ∨
      ∃ s ∈ S.groups, D.target S.outline_groups g = some s.toOutlineGroup := by
  cases ht : D.target S.outline_groups g with
  | none => exact .inl rfl
  | some o =>
    obtain ⟨s, hs, rfl⟩ := Outline.mem_outline_groups.mp ((h.target_claims hg).mp ht).1
    exact .inr ⟨s, hs, rfl⟩

/-- The operations on the Outline group of `g` that only name it. -/
theorem names_group_operations {g : LdapGroup} {s : ServerGroup}
    (ht : D.target S.outline_groups g = some s.toOutlineGroup) {x : Operation}
    (hx : x ∈ D.group_operations S.outline_groups memberships g) : x.names = some s.id := by
  rw [group_operations, ht] at hx
  obtain hx | hx := List.mem_append.mp hx
  · obtain ⟨-, rfl⟩ := mem_update_operations.mp hx
    rfl
  · exact names_member_operations hx

/-- The one group that the plan creates for `g`. -/
theorem Accepts.create_mem (h : D.Accepts S.outline_groups memberships) {g : LdapGroup}
    (hg : g ∈ D.ldap_groups) {name externalId : String}
    (hx : .create name externalId ∈ D.group_operations S.outline_groups memberships g) :
    D.target S.outline_groups g = none ∧ name = g.name ∧ externalId = D.ext g := by
  obtain ht | ⟨s, -, ht⟩ := h.target_cases hg
  · rw [group_operations, ht] at hx
    obtain hx | hx := List.mem_cons.mp hx
    · exact ⟨ht, Operation.create.inj hx⟩
    · cases names_member_operations hx
  · cases names_group_operations ht hx

theorem names_orphan_operations {groups : List OutlineGroup} {o : OutlineGroup} {x : Operation}
    (hx : x ∈ D.orphan_operations groups memberships o) : x.names = some o.id := by
  unfold orphan_operations at hx
  split_ifs at hx
  · obtain ⟨u, -, rfl⟩ := List.mem_map.mp hx
    rfl
  · exact nomatch hx

section Planned

variable (h : D.Accepts S.outline_groups memberships) (hr : Reads memberships S)
  (hD : D.outline_users = S.users)
include h

include hD in
theorem group_operations_toward {g : LdapGroup} (hg : g ∈ D.ldap_groups) {x : Operation}
    (hx : x ∈ D.group_operations S.outline_groups memberships g) :
    Toward S.users (D.start S) (D.goal S) x := by
  have husers : ∀ {u}, u ∈ D.desired g → u ∈ S.users.map OutlineUser.id := fun hu =>
    hD ▸ desired_users hu
  unfold group_operations at hx
  obtain ht | ⟨s, hs, ht⟩ := h.target_cases hg
  · rw [ht] at hx
    have hgoal := h.goal_ext hg
    obtain rfl | hx := List.mem_cons.mp hx
    · refine ⟨?_, ?_, ?_, ?_⟩
      · rw [hgoal, fresh, full]
      · rw [hgoal, fresh, full]
      · rw [hgoal, fresh, full]
      · rw [start, group?_ext]
        rfl
    · obtain ⟨u, ⟨hu, -⟩, rfl⟩ | ⟨u, ⟨hu, -⟩, rfl⟩ := mem_member_operations.mp hx
      · refine ⟨?_, husers hu⟩
        rw [hgoal]
        exact hu
      · exact nomatch hu
  · rw [ht] at hx
    have hgoal := h.goal_target hg hs ht
    obtain hx | hx := List.mem_append.mp hx
    · obtain ⟨-, rfl⟩ := mem_update_operations.mp hx
      constructor
      · rw [hgoal, full]
      · rw [hgoal, full]
    · obtain ⟨u, ⟨hu, -⟩, rfl⟩ | ⟨u, ⟨-, hu⟩, rfl⟩ := mem_member_operations.mp hx
      · refine ⟨?_, husers hu⟩
        rw [hgoal]
        exact hu
      · show u ∉ (D.goal S s.id).members
        rw [hgoal]
        exact hu

/-- Every planned operation goes toward the goal. -/
theorem planned_toward (hD : D.outline_users = S.users) {x : Operation}
    (hx : x ∈ D.planned S.outline_groups memberships) :
    Toward S.users (D.start S) (D.goal S) x := by
  obtain ⟨g, hg, hx⟩ | ⟨o, ho, hx⟩ := mem_planned.mp hx
  · exact group_operations_toward h hD hg hx
  · obtain ⟨s, hs, rfl⟩ := Outline.mem_outline_groups.mp ho
    unfold orphan_operations at hx
    split_ifs at hx with hc
    · obtain ⟨u, -, rfl⟩ := List.mem_map.mp hx
      show u ∉ (D.goal S s.id).members
      rw [h.goal_orphan hs hc.1 hc.2]
      exact List.not_mem_nil
    · exact nomatch hx

theorem group_operations_ordered {l : List LdapGroup} (hl : ∀ g ∈ l, g ∈ D.ldap_groups)
    (hn : (l.map LdapGroup.pk).Nodup) {done : List Operation}
    (hdone : ∀ g ∈ l, ∀ name, .create name (D.ext g) ∉ done) :
    Ordered (S.groups.map (·.id)) done
      (l.flatMap (D.group_operations S.outline_groups memberships)) := by
  induction l generalizing done with
  | nil => trivial
  | cons g l ih =>
    obtain ⟨hg, hl⟩ := List.forall_mem_cons.mp hl
    obtain ⟨hgl, hn⟩ := List.nodup_cons.mp hn
    obtain ⟨hgd, hdone⟩ := List.forall_mem_cons.mp hdone
    rw [List.flatMap_cons, ordered_append]
    constructor
    · obtain ht | ⟨s, hs, ht⟩ := h.target_cases hg
      · -- the group is new: nothing before its creation names it
        rw [group_operations, ht]
        refine ⟨?_, ordered_of_known (.inr ⟨g.name, by simp⟩) fun x => names_member_operations⟩
        rintro (hb | ⟨name, hc⟩)
        · exact Outline.group?_eq_none.mp (group?_ext g) hb
        · exact hgd name hc
      · exact ordered_of_known (.inl (List.mem_map_of_mem hs)) fun x => names_group_operations ht
    · refine ih hl hn fun g' hg' name hm => ?_
      obtain hm | hm := List.mem_append.mp hm
      · exact hdone g' hg' name hm
      · have he := (h.create_mem hg hm).2.2
        exact hgl (List.mem_map.mpr ⟨g', hg', ext_inj.mp he⟩)

omit h in
theorem orphan_operations_ordered {l : List OutlineGroup} (hl : ∀ o ∈ l, o ∈ S.outline_groups)
    {done : List Operation} :
    Ordered (S.groups.map (·.id)) done
      (l.flatMap (D.orphan_operations S.outline_groups memberships)) := by
  induction l generalizing done with
  | nil => trivial
  | cons o l ih =>
    obtain ⟨ho, hl⟩ := List.forall_mem_cons.mp hl
    rw [List.flatMap_cons, ordered_append]
    refine ⟨?_, ih hl⟩
    have hid : o.id ∈ S.groups.map (·.id) := S.outline_ids ▸ List.mem_map_of_mem ho
    exact ordered_of_known (.inl hid) fun x => names_orphan_operations

/-- Every planned operation names a group that is there by then. -/
theorem planned_ordered :
    Ordered (S.groups.map (·.id)) [] (D.planned S.outline_groups memberships) := by
  unfold planned
  rw [ordered_append]
  refine ⟨group_operations_ordered h (fun g hg => mem_ordered.mp hg) ?_ (by simp), ?_⟩
  · exact ((List.perm_insertionSort _ _).map _).nodup_iff.mpr h.pks.nodup
  · exact orphan_operations_ordered fun _ ho => ho

include hr in
/-- The plan holds every operation that the Outline group of an LDAP group needs. -/
theorem target_complete {g : LdapGroup} (hg : g ∈ D.ldap_groups) {s t : ServerGroup}
    (hs : s ∈ S.groups) (ht : D.target S.outline_groups g = some s.toOutlineGroup)
    (hal : Along (D.planned S.outline_groups memberships) s.id s (D.full g s) t) :
    Same (D.full g s) t := by
  have hcur := fun u => mem_current hr hs ((h.fits g hg).read _ ht) (u := u)
  have hmem : ∀ {x}, x ∈ update_operations s.toOutlineGroup (D.ext g) g.name ++
      member_operations s.id (D.desired g) (current memberships s.id) →
      x ∈ D.planned S.outline_groups memberships := by
    intro x hx
    refine mem_planned.mpr (.inl ⟨g, hg, ?_⟩)
    rw [group_operations, ht]
    exact hx
  refine hal.same ?_ ?_ ?_
  · by_cases hl : s.externalId = some (D.ext g) ∧ s.name = g.name
    · exact .inl ⟨hl.2, hl.1⟩
    · refine .inr ⟨g.name, D.ext g, hmem (List.mem_append_left _ ?_)⟩
      exact mem_update_operations.mpr ⟨not_and_or.mp hl, rfl⟩
  · intro u hu hn
    refine hmem (List.mem_append_right _ (mem_member_operations.mpr (.inl ⟨u, ⟨hu, ?_⟩, rfl⟩)))
    rwa [hcur]
  · intro u hu hn
    refine hmem (List.mem_append_right _ (mem_member_operations.mpr (.inr ⟨u, ⟨?_, hn⟩, rfl⟩)))
    rwa [hcur]

/-- The plan holds every operation that a new group needs. -/
theorem create_complete {g : LdapGroup} (hg : g ∈ D.ldap_groups)
    (ht : D.target S.outline_groups g = none) {t : ServerGroup}
    (hal : Along (D.planned S.outline_groups memberships) (D.ext g) (D.start S (D.ext g))
      (D.goal S (D.ext g)) t) : Same (D.goal S (D.ext g)) t := by
  have hstart : D.start S (D.ext g) = { D.goal S (D.ext g) with members := [] } := by
    rw [start, group?_ext]
    rfl
  rw [hstart] at hal
  refine hal.same (.inl ⟨rfl, rfl⟩) ?_ (by simp)
  intro u hu hn
  rw [h.goal_ext hg] at hu
  refine mem_planned.mpr (.inl ⟨g, hg, ?_⟩)
  rw [group_operations, ht]
  exact List.mem_cons_of_mem _ (mem_member_operations.mpr (.inl ⟨u, ⟨hu, hn⟩, rfl⟩))

include hr in
/-- The plan holds every operation that the goal needs. -/
theorem planned_complete {id : String}
    (hid : Known (S.groups.map (·.id)) (D.planned S.outline_groups memberships) id)
    {t : ServerGroup}
    (hal : Along (D.planned S.outline_groups memberships) id (D.start S id) (D.goal S id) t) :
    Same (D.goal S id) t := by
  obtain hid | ⟨name, hc⟩ := hid
  · obtain ⟨s, hs, rfl⟩ := List.mem_map.mp hid
    have hstart : D.start S s.id = s := by
      rw [start, group?_self hs]
      rfl
    rw [hstart] at hal
    by_cases hu : s.id ∈ D.used S.outline_groups
    · obtain ⟨g, hg, ht⟩ := (h.used_iff hs).mp hu
      rw [h.goal_target hg hs ht] at hal ⊢
      exact target_complete h hr hg hs ht hal
    by_cases htag : D.Tagged s.toOutlineGroup
    · have ho : s.toOutlineGroup ∈ S.outline_groups := Outline.mem_outline_groups.mpr ⟨s, hs, rfl⟩
      have hcur := fun u => mem_current hr hs (h.orphans _ ho htag hu).2 (u := u)
      rw [h.goal_orphan hs htag hu] at hal ⊢
      refine hal.same (.inl ⟨rfl, rfl⟩) (by simp) fun u hu' _ => ?_
      refine mem_planned.mpr (.inr ⟨_, ho, ?_⟩)
      rw [orphan_operations, if_pos ⟨htag, hu⟩]
      exact List.mem_map_of_mem (mem_sorted_diff.mpr ⟨(hcur u).mpr hu', by simp⟩)
    · rw [h.goal_other hs htag hu] at hal ⊢
      exact hal.same (.inl ⟨rfl, rfl⟩) (fun u hu hn => absurd hu hn) fun u hu hn => absurd hu hn
  · obtain ⟨g, hg, hx⟩ | ⟨o, -, hx⟩ := mem_planned.mp hc
    · obtain ⟨ht, -, rfl⟩ := h.create_mem hg hx
      exact create_complete h hg ht hal
    · exact nomatch names_orphan_operations hx

end Planned

/-! ### The server after some of a plan, and after all of it -/

/-- Every group of `S` is on its way to its goal, and every other group is the one
group of an LDAP group that had none. -/
structure Partial (D : Directory) (S T : Outline) : Prop where
  users : T.users = S.users
  old : ∀ s ∈ S.groups, ∃ t ∈ T.groups, t.id = s.id ∧ Between s (D.wanted S s) t
  new : ∀ t ∈ T.groups, (∀ s ∈ S.groups, s.id ≠ t.id) → ∃ g ∈ D.ldap_groups,
    D.target S.outline_groups g = none ∧ Between { D.fresh g with members := [] } (D.fresh g) t
  apart : ∀ t ∈ T.groups, ∀ t' ∈ T.groups, (∀ s ∈ S.groups, s.id ≠ t.id) →
    (∀ s ∈ S.groups, s.id ≠ t'.id) → t.name = t'.name → t = t'

/-- Every group of `S` is at its goal, and the other groups are those of the LDAP groups
that had none. -/
structure Reached (D : Directory) (S F : Outline) : Prop where
  users : F.users = S.users
  old : ∀ s ∈ S.groups, ∃ t ∈ F.groups, t.id = s.id ∧ Same (D.wanted S s) t
  made : ∀ g ∈ D.ldap_groups, D.target S.outline_groups g = none →
    ∃ t ∈ F.groups, (∀ s ∈ S.groups, s.id ≠ t.id) ∧ Same (D.fresh g) t
  new : ∀ t ∈ F.groups, (∀ s ∈ S.groups, s.id ≠ t.id) → ∃ g ∈ D.ldap_groups,
    D.target S.outline_groups g = none ∧ Same (D.fresh g) t
  apart : ∀ t ∈ F.groups, ∀ t' ∈ F.groups, (∀ s ∈ S.groups, s.id ≠ t.id) →
    (∀ s ∈ S.groups, s.id ≠ t'.id) → t.name = t'.name → t = t'

section Runs

variable (h : D.Accepts S.outline_groups memberships) (hr : Reads memberships S)
  (hD : D.outline_users = S.users)

/-- The server before the first operation. -/
theorem stands_start :
    Stands S.users (D.start S) (D.goal S) (S.groups.map (·.id)) [] [] S where
  same_users := rfl
  found id hid := by
    obtain hid | ⟨name, hc⟩ := hid
    · obtain ⟨s, hs, rfl⟩ := List.mem_map.mp hid
      refine ⟨s, hs, rfl, Between.along ⟨?_, .inl ?_, ?_, ?_⟩ (by simp)⟩
      · rw [goal, group?_self hs]
        show _ = (D.wanted S s).externalGroup
        unfold wanted
        cases D.source S s.toOutlineGroup with
        | some g => rfl
        | none => split_ifs <;> rfl
      · rw [start, group?_self hs]
        exact ⟨rfl, rfl⟩
      · intro u hu
        rw [start, group?_self hs]
        exact .inl hu
      · intro u hu _
        rwa [start, group?_self hs] at hu
    · exact nomatch hc
  only t ht := ⟨t.id, .inl (List.mem_map_of_mem ht), rfl⟩
  inj _ _ _ _ he := he
  dict := by simp
  named := by simp
  toward := by simp

theorem goal_old {s : ServerGroup} (hs : s ∈ S.groups) : D.goal S s.id = D.wanted S s := by
  rw [goal, group?_self hs]

theorem start_old {s : ServerGroup} (hs : s ∈ S.groups) : D.start S s.id = s := by
  rw [start, group?_self hs]
  rfl

theorem start_ext (g : LdapGroup) :
    D.start S (D.ext g) = { D.goal S (D.ext g) with members := [] } := by
  rw [start, group?_ext]
  rfl

section Stands

variable {done : List Operation} {created : List (String × String)} {T : Outline}
  (hst : Stands S.users (D.start S) (D.goal S) (S.groups.map (·.id)) done created T)

include hst in
/-- The id of a group of `S` is its own. -/
theorem resolve_old {s : ServerGroup} (hs : s ∈ S.groups) : resolve created s.id = s.id := by
  have hn : created.lookup s.id = none := by
    rw [List.lookup_eq_none_iff]
    intro p hp
    have hp' := (hst.dict p.1 (List.mem_map_of_mem hp)).1
    simpa using fun he : s.id = p.1 => hp' (he ▸ List.mem_map_of_mem hs)
  rw [resolve, hn]
  rfl

include h hst in
/-- A group that is not of `S` was created for an LDAP group that had none. -/
theorem stands_new (hdone : ∀ x ∈ done, x ∈ D.planned S.outline_groups memberships)
    {t : ServerGroup} (ht : t ∈ T.groups) (hnew : ∀ s ∈ S.groups, s.id ≠ t.id) :
    ∃ g ∈ D.ldap_groups, D.target S.outline_groups g = none ∧
      resolve created (D.ext g) = t.id ∧
      Along done (D.ext g) (D.start S (D.ext g)) (D.goal S (D.ext g)) t := by
  obtain ⟨id, hid, hres⟩ := hst.only t ht
  obtain ⟨t', ht', hid', hal⟩ := hst.found id hid
  obtain rfl := Outline.group_inj ht' ht (hid'.trans hres)
  obtain hid | ⟨name, hc⟩ := hid
  · obtain ⟨s, hs, rfl⟩ := List.mem_map.mp hid
    exact absurd ((resolve_old hst hs).symm.trans hres) (hnew s hs)
  · obtain ⟨g, hg, hx⟩ | ⟨o, -, hx⟩ := mem_planned.mp (hdone _ hc)
    · obtain ⟨htar, -, rfl⟩ := h.create_mem hg hx
      exact ⟨g, hg, htar, hres, hal⟩
    · exact nomatch names_orphan_operations hx

include h hst in
/-- After some of the plan's operations the server is part of the way. -/
theorem stands_midway (hdone : ∀ x ∈ done, x ∈ D.planned S.outline_groups memberships) :
    Partial D S T := by
  refine ⟨hst.same_users, ?_, ?_, ?_⟩
  · intro s hs
    obtain ⟨t, ht, hid, hal⟩ := hst.found s.id (.inl (List.mem_map_of_mem hs))
    rw [start_old hs, goal_old hs] at hal
    exact ⟨t, ht, hid.trans (resolve_old hst hs), hal.toBetween⟩
  · intro t ht hnew
    obtain ⟨g, hg, htar, -, hal⟩ := stands_new h hst hdone ht hnew
    rw [start_ext, h.goal_ext hg] at hal
    exact ⟨g, hg, htar, hal.toBetween⟩
  · intro t ht t' ht' hnew hnew' hname
    obtain ⟨g, hg, -, hres, hal⟩ := stands_new h hst hdone ht hnew
    obtain ⟨g', hg', -, hres', hal'⟩ := stands_new h hst hdone ht' hnew'
    have hn : t.name = g.name := by
      rw [start_ext, h.goal_ext hg] at hal
      obtain hl | hl := hal.label
      · exact hl.1
      · exact hl.1
    have hn' : t'.name = g'.name := by
      rw [start_ext, h.goal_ext hg'] at hal'
      obtain hl | hl := hal'.label
      · exact hl.1
      · exact hl.1
    obtain rfl := h.names.inj hg hg' (hn.symm.trans (hname.trans hn'))
    exact Outline.group_inj ht ht' (hres.symm.trans hres')

end Stands

include h hr in
/-- After all of the plan's operations the server is at its goal. -/
theorem stands_reached {created : List (String × String)} {F : Outline}
    (hst : Stands S.users (D.start S) (D.goal S) (S.groups.map (·.id))
      (D.planned S.outline_groups memberships) created F) : Reached D S F := by
  have hpart := stands_midway h hst fun _ hx => hx
  refine ⟨hst.same_users, ?_, ?_, ?_, hpart.apart⟩
  · intro s hs
    have hid : Known (S.groups.map (·.id)) (D.planned S.outline_groups memberships) s.id :=
      .inl (List.mem_map_of_mem hs)
    obtain ⟨t, ht, htid, hal⟩ := hst.found s.id hid
    have hsame := planned_complete h hr hid hal
    rw [goal_old hs] at hsame
    exact ⟨t, ht, htid.trans (resolve_old hst hs), hsame⟩
  · intro g hg htar
    have hid : Known (S.groups.map (·.id)) (D.planned S.outline_groups memberships) (D.ext g) := by
      refine .inr ⟨g.name, mem_planned.mpr (.inl ⟨g, hg, ?_⟩)⟩
      rw [group_operations, htar]
      exact List.mem_cons_self
    obtain ⟨t, ht, htid, hal⟩ := hst.found _ hid
    have hsame := planned_complete h hr hid hal
    rw [h.goal_ext hg] at hsame
    refine ⟨t, ht, fun s hs he => ?_, hsame⟩
    -- an old group has its own symbolic id, and no two symbolic ids lead to one group
    have hinj := hst.inj s.id (D.ext g) (.inl (List.mem_map_of_mem hs)) hid
      ((resolve_old hst hs).trans (he.trans htid))
    have hm : s.id ∈ S.groups.map (·.id) := List.mem_map_of_mem hs
    rw [hinj] at hm
    exact Outline.group?_eq_none.mp (group?_ext g) hm
  · intro t ht hnew
    obtain ⟨g, hg, htar, -, hal⟩ := stands_new h hst (fun _ hx => hx) ht hnew
    refine ⟨g, hg, htar, ?_⟩
    have hsame := create_complete h hg htar hal
    rwa [h.goal_ext hg] at hsame

include h hD in
/-- **A plan that is cut short.**  The operations applied are all answered, and leave the
server part of the way. -/
theorem apply_midway (ids : IdSource) (n : ℕ) : ∃ T,
    apply_plan ids S ((D.planned S.outline_groups memberships).take n) = .ok T ∧
      Partial D S T := by
  have hsplit := planned_ordered h
  rw [← List.take_append_drop n (D.planned S.outline_groups memberships), ordered_append] at hsplit
  have hmem : ∀ x ∈ (D.planned S.outline_groups memberships).take n,
      x ∈ D.planned S.outline_groups memberships := fun x hx => List.mem_of_mem_take hx
  obtain ⟨created, T, hrun, hst⟩ := stands_start.run hsplit.1 fun x hx =>
    planned_toward h hD (hmem x hx)
  exact ⟨T, hrun, stands_midway h hst hmem⟩

include h hr hD in
/-- **A whole plan.**  All its operations are answered, and lead to the goal. -/
theorem apply_reached (ids : IdSource) : ∃ F,
    apply_plan ids S (D.planned S.outline_groups memberships) = .ok F ∧ Reached D S F := by
  obtain ⟨created, F, hrun, hst⟩ := stands_start.run (planned_ordered h) fun x hx =>
    planned_toward h hD hx
  exact ⟨F, hrun, stands_reached h hr hst⟩

end Runs

end Directory

end GroupSync
