/-
Outline group sync: which snapshots the planner accepts, and what it plans.

`plan_sync` is a chain of checks and two loops with accumulators.  It answers exactly on
the snapshots that meet `Accepts`, and its answer is `planned`: for every LDAP group, in
the order of its key, the operations on its Outline group, then the removals from the
groups whose LDAP group is gone.

* `index_unique_ok`, `lookup_index` — a dict of rows by a key that is unique;
* `Directory` — what a run and its repetition have in common: all but the groups;
* `Accepts`, `planned`, `plan_sync_iff` — the planner as a condition and an answer;
* `target_iff` — the Outline group of an LDAP group is the one with its name or its
  external id.
-/
import KrgInfra.OutlineSync

namespace GroupSync

/-! ### Dicts of rows -/

theorem bind_ok {ε α β : Type} {x : Except ε α} {f : α → Except ε β} {b : β} :
    x >>= f = .ok b ↔ ∃ a, x = .ok a ∧ f a = .ok b := by
  cases x with
  | ok a =>
    refine ⟨fun h => ⟨a, rfl, h⟩, ?_⟩
    rintro ⟨a', ha, h⟩
    obtain rfl : a = a' := Except.ok.inj ha
    exact h
  | error e => exact ⟨nofun, by rintro ⟨_, h, _⟩; exact nomatch h⟩

section Index

variable {α : Type} (key : α → String)

/-- A key that every row has, each its own. -/
structure Indexed (rows : List α) : Prop where
  ne_empty : ∀ row ∈ rows, key row ≠ ""
  nodup : (rows.map key).Nodup

/-- The items of the dict of `rows` by `key`. -/
def index (rows : List α) : List (String × α) := rows.map fun row => (key row, row)

variable {key}

theorem Indexed.inj {rows : List α} (h : Indexed key rows) {a b : α} (ha : a ∈ rows)
    (hb : b ∈ rows) (hab : key a = key b) : a = b :=
  List.inj_on_of_nodup_map h.nodup ha hb hab

theorem index_from_ok {result : List (String × α)} {rows : List α} {d : List (String × α)} :
    index_from key result rows = .ok d ↔
      ((∀ row ∈ rows, key row ≠ "") ∧ (∀ row ∈ rows, key row ∉ result.map Prod.fst) ∧
        (rows.map key).Nodup) ∧ d = result ++ index key rows := by
  induction rows generalizing result with
  | nil =>
    rw [index_from]
    constructor
    · intro h
      exact ⟨by simp, by simpa [index] using (Except.ok.inj h).symm⟩
    · rintro ⟨-, rfl⟩
      simp [index]
  | cons row rows ih =>
    have hmem : (result.lookup (key row)).isSome ↔ key row ∈ result.map Prod.fst := by
      simp [List.lookup_isSome_iff]
    rw [index_from]
    split_ifs with h
    · constructor
      · nofun
      · rintro ⟨⟨hne, hnew, -⟩, -⟩
        obtain h | h := h
        · exact absurd h (hne row List.mem_cons_self)
        · exact absurd (hmem.mp h) (hnew row List.mem_cons_self)
    · obtain ⟨hne, hnew⟩ := not_or.mp h
      rw [ih]
      simp only [List.map_cons, List.nodup_cons, List.forall_mem_cons, List.map_append,
        List.map_nil, List.mem_append, List.mem_singleton, index, List.append_assoc,
        List.singleton_append]
      rw [hmem] at hnew
      constructor
      · rintro ⟨⟨h₁, h₂, h₃⟩, rfl⟩
        refine ⟨⟨⟨hne, h₁⟩, ⟨hnew, fun r hr hm => h₂ r hr (.inl hm)⟩, ?_, h₃⟩, rfl⟩
        rintro hrow
        obtain ⟨r, hr, hk⟩ := List.mem_map.mp hrow
        exact h₂ r hr (.inr hk)
      · rintro ⟨⟨⟨-, h₁⟩, ⟨-, h₂⟩, h₃, h₄⟩, rfl⟩
        refine ⟨⟨h₁, ?_, h₄⟩, rfl⟩
        rintro r hr (hm | hk)
        · exact h₂ r hr hm
        · exact h₃ (hk ▸ List.mem_map_of_mem hr)

/-- `index_unique` accepts the rows whose keys are there and distinct. -/
theorem index_unique_ok {rows : List α} {d : List (String × α)} :
    index_unique key rows = .ok d ↔ Indexed key rows ∧ d = index key rows := by
  rw [index_unique, index_from_ok]
  constructor
  · rintro ⟨⟨h₁, -, h₂⟩, rfl⟩
    exact ⟨⟨h₁, h₂⟩, rfl⟩
  · rintro ⟨⟨h₁, h₂⟩, rfl⟩
    exact ⟨⟨h₁, by simp, h₂⟩, rfl⟩

theorem lookup_rows {β : Type} {val : α → β} {rows : List α} {v : String} :
    (rows.map fun row => (key row, val row)).lookup v =
      (rows.find? fun row => key row = v).map val := by
  induction rows with
  | nil => rfl
  | cons row rows ih =>
    by_cases h : key row = v
    · subst h
      simp
    · have hv : (v == key row) = false := beq_false_of_ne (Ne.symm h)
      rw [List.map_cons, List.lookup_cons, List.find?_cons, hv]
      simpa [h] using ih

theorem lookup_index {rows : List α} {v : String} :
    (index key rows).lookup v = rows.find? fun row => key row = v := by
  rw [index, lookup_rows]
  exact Option.map_id'

theorem Indexed.find?_iff {rows : List α} (h : Indexed key rows) {v : String} {a : α} :
    rows.find? (fun row => key row = v) = some a ↔ a ∈ rows ∧ key a = v := by
  constructor
  · intro hf
    exact ⟨List.mem_of_find?_eq_some hf, by simpa using List.find?_some hf⟩
  · rintro ⟨ha, rfl⟩
    cases hf : rows.find? (fun row => key row = key a) with
    | none => simpa using List.find?_eq_none.mp hf a ha
    | some b =>
      have hb : key b = key a := by simpa using List.find?_some hf
      rw [h.inj (List.mem_of_find?_eq_some hf) ha hb]

end Index

/-! ### The snapshot of the directories -/

/-- What a run and its repetition have in common: the source, the Authentik snapshot and
the Outline users. -/
structure Directory where
  strip : String → String
  casefold : String → String
  source_id : String
  ldap_groups : List LdapGroup
  ak_users : List AkUser
  outline_users : List OutlineUser

namespace Directory

variable (D : Directory)

/-- `plan_sync` on the directory and a state of the Outline groups. -/
def plan (groups : List OutlineGroup) (memberships : List (String × List String)) :
    Result (List Operation) :=
  plan_sync D.strip D.casefold D.source_id D.ldap_groups D.ak_users groups D.outline_users
    memberships

def ext (g : LdapGroup) : String := external_id D.source_id g.pk

def address (value : Option String) : String := email D.strip D.casefold value

/-- An Outline group that carries this source's external ids. -/
def Tagged (o : OutlineGroup) : Prop :=
  (prefix_of D.source_id).toList <+: o.external.toList

instance (o : OutlineGroup) : Decidable (D.Tagged o) := inferInstanceAs (Decidable (_ <+: _))

/-- The Authentik users that have an address. -/
def addressed : List AkUser := D.ak_users.filter fun u => D.address u.email ≠ ""

/-- The Outline accounts that belong in the Outline group of `g`. -/
def desired (g : LdapGroup) : List String :=
  desired_members (index (fun u => D.address u.email) D.addressed)
    (index (fun u => D.address u.email) D.outline_users) g.pk

/-- The Outline group of `g`, by its external id, else by its name. -/
def target (groups : List OutlineGroup) (g : LdapGroup) : Option OutlineGroup :=
  (groups.find? fun o => o.external = D.ext g).or (groups.find? fun o => o.name = g.name)

/-- The ids of the Outline groups that LDAP groups have. -/
def used (groups : List OutlineGroup) : List String :=
  D.ldap_groups.filterMap fun g => (D.target groups g).map OutlineGroup.id

/-- What the planner asks of one LDAP group. -/
structure Fits (groups : List OutlineGroup) (memberships : List (String × List String))
    (g : LdapGroup) : Prop where
  agree : ∀ o o', groups.find? (fun o => o.external = D.ext g) = some o →
    groups.find? (fun o => o.name = g.name) = some o' → o.id = o'.id
  own : ∀ o, D.target groups g = some o →
    o.externalGroup = false ∧ o.externalId ∈ [none, some "", some (D.ext g)]
  read : ∀ o, D.target groups g = some o → (memberships.lookup o.id).isSome

/-- What the planner asks of a snapshot. -/
structure Accepts (groups : List OutlineGroup) (memberships : List (String × List String)) :
    Prop where
  pks : Indexed LdapGroup.pk D.ldap_groups
  names : Indexed LdapGroup.name D.ldap_groups
  outline_names : Indexed OutlineGroup.name groups
  externals : Indexed OutlineGroup.external (groups.filter (·.external ≠ ""))
  ak_emails : Indexed (fun u => D.address u.email) D.addressed
  ol_emails : Indexed (fun u => D.address u.email) D.outline_users
  fits : ∀ g ∈ D.ldap_groups, D.Fits groups memberships g
  apart : (D.used groups).Nodup
  orphans : ∀ o ∈ groups, D.Tagged o → o.id ∉ D.used groups →
    o.externalGroup = false ∧ (memberships.lookup o.id).isSome

/-- The members a group has in the snapshot. -/
def current (memberships : List (String × List String)) (id : String) : List String :=
  (memberships.lookup id).getD []

/-- The operations on the Outline group of `g`. -/
def group_operations (groups : List OutlineGroup) (memberships : List (String × List String))
    (g : LdapGroup) : List Operation :=
  match D.target groups g with
  | some o => update_operations o (D.ext g) g.name ++
      member_operations o.id (D.desired g) (current memberships o.id)
  | none => .create g.name (D.ext g) :: member_operations (D.ext g) (D.desired g) []

/-- The LDAP groups in the order of the loop. -/
def ordered : List LdapGroup := D.ldap_groups.insertionSort fun a b => a.pk ≤ b.pk

/-- The operations on an Outline group whose LDAP group is gone. -/
def orphan_operations (groups : List OutlineGroup) (memberships : List (String × List String))
    (o : OutlineGroup) : List Operation :=
  if D.Tagged o ∧ o.id ∉ D.used groups then
    (sorted_diff (current memberships o.id) []).map (.remove_user o.id)
  else []

/-- The plan of a snapshot. -/
def planned (groups : List OutlineGroup) (memberships : List (String × List String)) :
    List Operation :=
  D.ordered.flatMap (D.group_operations groups memberships) ++
    groups.flatMap (D.orphan_operations groups memberships)

variable {D}

@[simp] theorem mem_ordered {g : LdapGroup} : g ∈ D.ordered ↔ g ∈ D.ldap_groups :=
  List.mem_insertionSort _

theorem ext_ne_empty (g : LdapGroup) : D.ext g ≠ "" := by
  intro h
  have := congrArg String.length h
  simp [ext, external_id, prefix_of] at this

theorem ext_inj {g g' : LdapGroup} : D.ext g = D.ext g' ↔ g.pk = g'.pk := by
  simp [ext, external_id]

/-! ### The loop over the LDAP groups -/

section Loops

variable {groups : List OutlineGroup} {memberships : List (String × List String)}

theorem lookup_external {g : LdapGroup} :
    (index OutlineGroup.external (groups.filter (·.external ≠ ""))).lookup (D.ext g) =
      groups.find? fun o => o.external = D.ext g := by
  rw [lookup_index, List.find?_filter]
  congr 1
  funext o
  by_cases h : o.external = D.ext g
  · simp [h, ext_ne_empty]
  · simp [h]

theorem find_target_ok {external name : String} {by_external by_name : List (String × OutlineGroup)}
    {target : Option OutlineGroup} :
    find_target by_external by_name external name = .ok target ↔
      (∀ o o', by_external.lookup external = some o → by_name.lookup name = some o' →
        o.id = o'.id) ∧
      target = (by_external.lookup external).or (by_name.lookup name) := by
  unfold find_target
  cases he : by_external.lookup external with
  | none => simp [eq_comm]
  | some o =>
    cases hn : by_name.lookup name with
    | none => simp [eq_comm]
    | some o' =>
      by_cases h : o.id = o'.id
      · simp [h, eq_comm]
      · simp [h]

theorem members_of_ok {id : String} {members : List String} :
    members_of memberships id = .ok members ↔
      (memberships.lookup id).isSome ∧ members = current memberships id := by
  unfold members_of current
  cases memberships.lookup id with
  | none => simp
  | some m => simp [eq_comm]

theorem plan_existing_ok {desired : List String} {done done' : Progress} {external name : String}
    {o : OutlineGroup} :
    plan_existing memberships desired done external name o = .ok done' ↔
      ((o.externalGroup = false ∧ o.externalId ∈ [none, some "", some external]) ∧
        (memberships.lookup o.id).isSome ∧ o.id ∉ done.used) ∧
      done' = ⟨done.operations ++ (update_operations o external name ++
        member_operations o.id desired (current memberships o.id)), done.used ++ [o.id]⟩ := by
  unfold plan_existing
  split_ifs with h₁ h₂
  · refine ⟨nofun, ?_⟩
    rintro ⟨⟨⟨h, h'⟩, -⟩, -⟩
    obtain h₁ | h₁ := h₁
    · exact Bool.false_ne_true (h.symm.trans h₁)
    · exact h₁ h'
  · simp [h₂]
  · obtain ⟨hg, he⟩ := not_or.mp h₁
    have h₁ : o.externalGroup = false ∧ o.externalId ∈ [none, some "", some external] :=
      ⟨by simpa using hg, not_not.mp he⟩
    simp only [bind_ok, members_of_ok]
    constructor
    · rintro ⟨_, ⟨hs, rfl⟩, h⟩
      exact ⟨⟨h₁, hs, h₂⟩, (Except.ok.inj h).symm⟩
    · rintro ⟨⟨-, hs, -⟩, rfl⟩
      exact ⟨_, ⟨hs, rfl⟩, rfl⟩

/-- The body of the loop over the LDAP groups, with the dicts of the snapshot. -/
def plan_next (D : Directory) (groups : List OutlineGroup)
    (memberships : List (String × List String)) :
    Progress → String × LdapGroup → Result Progress :=
  plan_group D.source_id (index OutlineGroup.external (groups.filter (·.external ≠ "")))
    (index OutlineGroup.name groups) memberships
    (desired_members (index (fun u => D.address u.email) D.addressed)
      (index (fun u => D.address u.email) D.outline_users))

/-- One LDAP group of the loop: it fits, its Outline group is not taken yet, and its
operations are added. -/
theorem plan_next_ok {done done' : Progress} {g : LdapGroup} :
    D.plan_next groups memberships done (g.pk, g) = .ok done' ↔
      (D.Fits groups memberships g ∧ ∀ o, D.target groups g = some o → o.id ∉ done.used) ∧
      done' = ⟨done.operations ++ D.group_operations groups memberships g,
        done.used ++ ((D.target groups g).map OutlineGroup.id).toList⟩ := by
  unfold plan_next plan_group
  simp only [bind_ok, find_target_ok]
  rw [show external_id D.source_id g.pk = D.ext g from rfl, lookup_external, lookup_index,
    ← target]
  cases ht : D.target groups g with
  | none =>
    constructor
    · rintro ⟨_, ⟨ha, rfl⟩, h⟩
      refine ⟨⟨⟨ha, by simp [ht], by simp [ht]⟩, nofun⟩, ?_⟩
      rw [← Except.ok.inj h]
      simp [plan_new, group_operations, ht, desired]
    · rintro ⟨⟨hf, -⟩, rfl⟩
      refine ⟨none, ⟨hf.agree, rfl⟩, ?_⟩
      simp [plan_new, group_operations, ht, desired, pure, Except.pure]
  | some o =>
    constructor
    · rintro ⟨_, ⟨ha, rfl⟩, h⟩
      obtain ⟨⟨ho, hr, hu⟩, rfl⟩ := plan_existing_ok.mp h
      refine ⟨⟨⟨ha, ?_, ?_⟩, ?_⟩, ?_⟩
      · rintro o' ho'
        obtain rfl : o = o' := Option.some.inj (ht.symm.trans ho')
        exact ho
      · rintro o' ho'
        obtain rfl : o = o' := Option.some.inj (ht.symm.trans ho')
        exact hr
      · rintro o' ho'
        obtain rfl : o = o' := Option.some.inj ho'
        exact hu
      · simp [group_operations, ht, desired]
    · rintro ⟨⟨hf, hu⟩, rfl⟩
      refine ⟨some o, ⟨hf.agree, rfl⟩, plan_existing_ok.mpr ⟨⟨hf.own o ht, hf.read o ht, hu o rfl⟩, ?_⟩⟩
      simp [group_operations, ht, desired]


/-- The loop over the LDAP groups. -/
theorem plan_loop_ok {l : List LdapGroup} {done done' : Progress} :
    (l.map fun g => (g.pk, g)).foldlM (D.plan_next groups memberships) done = .ok done' ↔
      ((∀ g ∈ l, D.Fits groups memberships g) ∧
        (∀ g ∈ l, ∀ o, D.target groups g = some o → o.id ∉ done.used) ∧
        (l.filterMap fun g => (D.target groups g).map OutlineGroup.id).Nodup) ∧
      done' = ⟨done.operations ++ l.flatMap (D.group_operations groups memberships),
        done.used ++ l.filterMap fun g => (D.target groups g).map OutlineGroup.id⟩ := by
  induction l generalizing done with
  | nil =>
    constructor
    · intro h
      exact ⟨by simp, by simpa using (Except.ok.inj h).symm⟩
    · rintro ⟨-, rfl⟩
      simp [pure, Except.pure]
  | cons g l ih =>
    rw [List.map_cons, List.foldlM_cons, bind_ok]
    simp only [plan_next_ok]
    constructor
    · rintro ⟨_, ⟨⟨hf, hu⟩, rfl⟩, h⟩
      obtain ⟨⟨hfs, hus, hn⟩, rfl⟩ := ih.mp h
      refine ⟨⟨List.forall_mem_cons.mpr ⟨hf, hfs⟩, List.forall_mem_cons.mpr ⟨hu, ?_⟩, ?_⟩, ?_⟩
      · intro g' hg' o ho hmem
        exact hus g' hg' o ho (List.mem_append_left _ hmem)
      · cases ht : D.target groups g with
        | none => simpa [ht] using hn
        | some o =>
          rw [List.filterMap_cons, ht]
          refine List.nodup_cons.mpr ⟨fun hmem => ?_, hn⟩
          obtain ⟨g', hg', h'⟩ := List.mem_filterMap.mp hmem
          obtain ⟨o', ho', hid⟩ := Option.map_eq_some_iff.mp h'
          exact hus g' hg' o' ho' (by simp [ht, hid])
      · cases ht : D.target groups g <;> simp [ht]
    · rintro ⟨⟨hf, hu, hn⟩, rfl⟩
      obtain ⟨hf, hfs⟩ := List.forall_mem_cons.mp hf
      obtain ⟨hu, hus⟩ := List.forall_mem_cons.mp hu
      refine ⟨_, ⟨⟨hf, hu⟩, rfl⟩, ih.mpr ⟨⟨hfs, ?_, ?_⟩, ?_⟩⟩
      · intro g' hg' o' ho' hmem
        obtain hmem | hmem := List.mem_append.mp hmem
        · exact hus g' hg' o' ho' hmem
        · obtain ⟨o, ho, hid⟩ := Option.map_eq_some_iff.mp (Option.mem_toList.mp hmem)
          rw [List.filterMap_cons, ho] at hn
          refine (List.nodup_cons.mp hn).1 (List.mem_filterMap.mpr ⟨g', hg', ?_⟩)
          rw [ho', Option.map_some, hid]
      · rw [List.filterMap_cons] at hn
        cases ht : D.target groups g with
        | none => simpa [ht] using hn
        | some o =>
          rw [ht] at hn
          exact (List.nodup_cons.mp hn).2
      · cases ht : D.target groups g <;> simp [ht]

theorem plan_orphan_ok {done done' : Progress} {o : OutlineGroup}
    (hused : ∀ id, id ∈ done.used ↔ id ∈ D.used groups) :
    plan_orphan D.source_id memberships done o = .ok done' ↔
      (D.Tagged o → o.id ∉ D.used groups →
        o.externalGroup = false ∧ (memberships.lookup o.id).isSome) ∧
      done' = { done with
        operations := done.operations ++ D.orphan_operations groups memberships o } := by
  have hiff : ((prefix_of D.source_id).toList <+: o.external.toList ∧ o.id ∉ done.used) ↔
      D.Tagged o ∧ o.id ∉ D.used groups := and_congr Iff.rfl (not_congr (hused _))
  unfold plan_orphan orphan_operations
  by_cases h : D.Tagged o ∧ o.id ∉ D.used groups
  · rw [if_pos (hiff.mpr h), if_pos h]
    split_ifs with h'
    · exact ⟨nofun, by rintro ⟨ho, -⟩; exact absurd (ho h.1 h.2).1 (by simp [h'])⟩
    · simp only [bind_ok, members_of_ok]
      constructor
      · rintro ⟨_, ⟨hs, rfl⟩, hd⟩
        exact ⟨fun _ _ => ⟨by simpa using h', hs⟩, (Except.ok.inj hd).symm⟩
      · rintro ⟨ho, rfl⟩
        exact ⟨_, ⟨(ho h.1 h.2).2, rfl⟩, rfl⟩
  · rw [if_neg (mt hiff.mp h), if_neg h]
    constructor
    · intro hd
      exact ⟨fun ht hu => absurd ⟨ht, hu⟩ h, by simpa using (Except.ok.inj hd).symm⟩
    · rintro ⟨-, rfl⟩
      simp

/-- The loop over the Outline groups whose LDAP group is gone. -/
theorem orphan_loop_ok {l : List OutlineGroup} {done done' : Progress}
    (hused : ∀ id, id ∈ done.used ↔ id ∈ D.used groups) :
    l.foldlM (plan_orphan D.source_id memberships) done = .ok done' ↔
      (∀ o ∈ l, D.Tagged o → o.id ∉ D.used groups →
        o.externalGroup = false ∧ (memberships.lookup o.id).isSome) ∧
      done' = { done with
        operations := done.operations ++ l.flatMap (D.orphan_operations groups memberships) } := by
  induction l generalizing done with
  | nil =>
    constructor
    · intro h
      exact ⟨by simp, by simpa using (Except.ok.inj h).symm⟩
    · rintro ⟨-, rfl⟩
      simp [pure, Except.pure]
  | cons o l ih =>
    rw [List.foldlM_cons, bind_ok]
    simp only [plan_orphan_ok hused]
    constructor
    · rintro ⟨_, ⟨ho, rfl⟩, h⟩
      obtain ⟨hos, rfl⟩ := (ih (by simpa using hused)).mp h
      exact ⟨List.forall_mem_cons.mpr ⟨ho, hos⟩, by simp⟩
    · rintro ⟨ho, rfl⟩
      obtain ⟨ho, hos⟩ := List.forall_mem_cons.mp ho
      exact ⟨_, ⟨ho, rfl⟩, (ih (by simpa using hused)).mpr ⟨hos, by simp⟩⟩

end Loops

variable {groups : List OutlineGroup} {memberships : List (String × List String)}

theorem insertionSort_pks :
    (index LdapGroup.pk D.ldap_groups).insertionSort (fun a b => a.1 ≤ b.1) =
      D.ordered.map fun g => (g.pk, g) :=
  (List.map_insertionSort _ _ (fun g : LdapGroup => (g.pk, g)) _ fun _ _ _ _ => Iff.rfl).symm

/-- **The planner.**  It answers on the snapshots it accepts, with their plan. -/
theorem plan_iff {operations : List Operation} :
    D.plan groups memberships = .ok operations ↔
      D.Accepts groups memberships ∧ operations = D.planned groups memberships := by
  have hperm : (D.ordered.filterMap fun g => (D.target groups g).map OutlineGroup.id).Perm
      (D.used groups) := (List.perm_insertionSort _ _).filterMap _
  unfold plan plan_sync
  simp only [bind_ok, index_unique_ok]
  constructor
  · rintro ⟨_, ⟨h₁, rfl⟩, _, ⟨h₂, rfl⟩, _, ⟨h₃, rfl⟩, _, ⟨h₄, rfl⟩, _, ⟨h₅, rfl⟩, _, ⟨h₆, rfl⟩,
      _, hgroups, _, horphans, h⟩
    rw [insertionSort_pks] at hgroups
    obtain ⟨⟨hf, -, hn⟩, rfl⟩ := plan_loop_ok.mp hgroups
    obtain ⟨ho, rfl⟩ := (orphan_loop_ok (by simpa using fun _ => hperm.mem_iff)).mp horphans
    refine ⟨⟨h₁, h₂, h₃, h₄, h₅, h₆, ?_, hperm.nodup_iff.mp hn, ho⟩, ?_⟩
    · exact fun g hg => hf g (mem_ordered.mpr hg)
    · simpa [planned] using (Except.ok.inj h).symm
  · rintro ⟨h, rfl⟩
    refine ⟨_, ⟨h.pks, rfl⟩, _, ⟨h.names, rfl⟩, _, ⟨h.outline_names, rfl⟩, _, ⟨h.externals, rfl⟩,
      _, ⟨h.ak_emails, rfl⟩, _, ⟨h.ol_emails, rfl⟩, ?_⟩
    rw [insertionSort_pks]
    refine ⟨_, plan_loop_ok.mpr ⟨⟨?_, by simp, hperm.nodup_iff.mpr h.apart⟩, rfl⟩, _,
      (orphan_loop_ok (by simpa using fun _ => hperm.mem_iff)).mpr ⟨h.orphans, rfl⟩, ?_⟩
    · exact fun g hg => h.fits g (mem_ordered.mp hg)
    · simp [planned, pure, Except.pure]

/-! ### The Outline group of an LDAP group -/

/-- `o` bears the name or the external id of `g`. -/
def Claims (D : Directory) (g : LdapGroup) (o : OutlineGroup) : Prop :=
  o.name = g.name ∨ o.external = D.ext g

theorem owner_iff (hx : Indexed OutlineGroup.external (groups.filter (·.external ≠ "")))
    {g : LdapGroup} {o : OutlineGroup} :
    groups.find? (fun o => o.external = D.ext g) = some o ↔ o ∈ groups ∧ o.external = D.ext g := by
  have hf := hx.find?_iff (v := D.ext g) (a := o)
  rw [← lookup_index, lookup_external] at hf
  rw [hf, List.mem_filter]
  constructor
  · rintro ⟨⟨ho, -⟩, he⟩
    exact ⟨ho, he⟩
  · rintro ⟨ho, he⟩
    exact ⟨⟨ho, by simpa [he] using ext_ne_empty g⟩, he⟩

/-- The Outline group of an LDAP group is the one that bears its name or its external
id, where these are one group. -/
theorem target_iff (hn : Indexed OutlineGroup.name groups)
    (hx : Indexed OutlineGroup.external (groups.filter (·.external ≠ "")))
    (hids : (groups.map OutlineGroup.id).Nodup) {g : LdapGroup}
    (hagree : ∀ o o', groups.find? (fun o => o.external = D.ext g) = some o →
      groups.find? (fun o => o.name = g.name) = some o' → o.id = o'.id) {o : OutlineGroup} :
    D.target groups g = some o ↔ o ∈ groups ∧ D.Claims g o := by
  unfold target Claims
  cases hf : groups.find? (fun o => o.external = D.ext g) with
  | none =>
    rw [Option.none_or, hn.find?_iff]
    constructor
    · rintro ⟨ho, hn⟩
      exact ⟨ho, .inl hn⟩
    · rintro ⟨ho, hn | he⟩
      · exact ⟨ho, hn⟩
      · exact nomatch hf.symm.trans ((owner_iff hx).mpr ⟨ho, he⟩)
  | some x =>
    obtain ⟨hxm, hxe⟩ := (owner_iff hx).mp hf
    rw [Option.some_or]
    constructor
    · rintro hxo
      obtain rfl : x = o := Option.some.inj hxo
      exact ⟨hxm, .inr hxe⟩
    · rintro ⟨ho, hno | he⟩
      · have hid := hagree x o hf (hn.find?_iff.mpr ⟨ho, hno⟩)
        rw [List.inj_on_of_nodup_map hids hxm ho hid]
      · exact hf.symm.trans ((owner_iff hx).mpr ⟨ho, he⟩)

theorem Accepts.target_iff (h : D.Accepts groups memberships)
    (hids : (groups.map OutlineGroup.id).Nodup) {g : LdapGroup} (hg : g ∈ D.ldap_groups)
    {o : OutlineGroup} : D.target groups g = some o ↔ o ∈ groups ∧ D.Claims g o :=
  Directory.target_iff h.outline_names h.externals hids (h.fits g hg).agree

/-- Two LDAP groups have different Outline groups. -/
theorem Accepts.target_inj (h : D.Accepts groups memberships)
    (hids : (groups.map OutlineGroup.id).Nodup) {g g' : LdapGroup}
    (hg : g ∈ D.ldap_groups) (hg' : g' ∈ D.ldap_groups) {o o' : OutlineGroup}
    (ho : D.target groups g = some o) (ho' : D.target groups g' = some o') (hid : o.id = o'.id) :
    g = g' := by
  obtain ⟨hom, hc⟩ := (h.target_iff hids hg).mp ho
  obtain ⟨hom', hc'⟩ := (h.target_iff hids hg').mp ho'
  obtain rfl : o = o' := List.inj_on_of_nodup_map hids hom hom' hid
  have hown := ((h.fits g hg).own o ho).2
  have hown' := ((h.fits g' hg').own o ho').2
  -- with an external id of this source the ids agree, without one the names do
  obtain he | he := em (o.external = "")
  · have hn : o.name = g.name := hc.resolve_right fun h' => ext_ne_empty g (h'.symm.trans he)
    have hn' : o.name = g'.name := hc'.resolve_right fun h' => ext_ne_empty g' (h'.symm.trans he)
    exact h.names.inj hg hg' (hn.symm.trans hn')
  · have hx : ∀ {x}, o.externalId ∈ [none, some "", some x] → o.externalId = some x := by
      intro x hx
      simp only [List.mem_cons, List.not_mem_nil, or_false] at hx
      obtain hx | hx | hx := hx
      · exact absurd (by simp [OutlineGroup.external, hx]) he
      · exact absurd (by simp [OutlineGroup.external, hx]) he
      · exact hx
    have := Option.some.inj ((hx hown).symm.trans (hx hown'))
    exact h.pks.inj hg hg' (ext_inj.mp this)

end Directory

end GroupSync
