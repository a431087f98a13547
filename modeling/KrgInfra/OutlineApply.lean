/-
Outline group sync: what a list of operations makes of the server.

Operations name groups symbolically: an Outline group by its id, a group that is to be
created by its external id.  `start` and `goal` say, for every symbolic id, the record
the group begins with and the record it is to have.  Operations that only go toward the
goal, each naming a group that is there by then, are all answered; the group is between
its start and its goal after every prefix of them, and what an operation has done is
never undone.

* `Same`, `Between`, `Along` — a record at its goal, on the way to it, and on the way
  after certain operations;
* `Toward`, `Ordered` — operations that go toward the goal, and name known groups;
* `Stands.step`, `Stands.run` — one operation, and a list of them.
-/
import KrgInfra.OutlinePlan

namespace GroupSync

/-! ### The server's groups by id -/

namespace Outline

variable {T : Outline}

@[simp] theorem group?_eq_some {id : String} {t : ServerGroup} :
    T.group? id = some t ↔ t ∈ T.groups ∧ t.id = id := by
  unfold group?
  constructor
  · intro h
    exact ⟨List.mem_of_find?_eq_some h, by simpa using List.find?_some h⟩
  · rintro ⟨ht, rfl⟩
    cases hf : T.groups.find? (·.id = t.id) with
    | none => simpa using List.find?_eq_none.mp hf t ht
    | some t' =>
      have hid : t'.id = t.id := by simpa using List.find?_some hf
      rw [List.inj_on_of_nodup_map T.ids_nodup (List.mem_of_find?_eq_some hf) ht hid]

theorem group?_eq_none {id : String} : T.group? id = none ↔ id ∉ T.groups.map (·.id) := by
  simp [group?, List.find?_eq_none]

theorem group_inj {t t' : ServerGroup} (ht : t ∈ T.groups) (ht' : t' ∈ T.groups)
    (h : t.id = t'.id) : t = t' :=
  List.inj_on_of_nodup_map T.ids_nodup ht ht' h

theorem mem_edit {id : String} {f : ServerGroup → ServerGroup} {hf : ∀ g, (f g).id = g.id}
    {t : ServerGroup} :
    t ∈ (T.edit id f hf).groups ↔ ∃ g ∈ T.groups, (if g.id = id then f g else g) = t := by
  simp [edit]

theorem mem_insert {ids : IdSource} {name externalId : String} {t : ServerGroup} :
    t ∈ (T.insert ids name externalId).groups ↔ t ∈ T.groups ∨
      t = { id := ids.next (T.groups.map (·.id)), name, externalId := some externalId } := by
  simp [insert]

end Outline

/-! ### Records on the way to a goal -/

/-- `t` is what `b` says, up to its id and the order of its members. -/
structure Same (b t : ServerGroup) : Prop where
  name : t.name = b.name
  externalId : t.externalId = b.externalId
  externalGroup : t.externalGroup = b.externalGroup
  members : ∀ u, u ∈ t.members ↔ u ∈ b.members

theorem Same.trans {a b c : ServerGroup} (hab : Same a b) (hbc : Same b c) : Same a c :=
  ⟨hbc.name.trans hab.name, hbc.externalId.trans hab.externalId,
    hbc.externalGroup.trans hab.externalGroup, fun u => (hbc.members u).trans (hab.members u)⟩

theorem Same.symm {a b : ServerGroup} (h : Same a b) : Same b a :=
  ⟨h.name.symm, h.externalId.symm, h.externalGroup.symm, fun u => (h.members u).symm⟩

/-- `t` is on the way from `a` to `b`. -/
structure Between (a b t : ServerGroup) : Prop where
  externalGroup : t.externalGroup = b.externalGroup
  label : (t.name = a.name ∧ t.externalId = a.externalId) ∨
    (t.name = b.name ∧ t.externalId = b.externalId)
  upper : ∀ u ∈ t.members, u ∈ a.members ∨ u ∈ b.members
  lower : ∀ u ∈ a.members, u ∈ b.members → u ∈ t.members

/-- `t` is on the way from `a` to `b`, and the operations `done` on the symbolic id `id`
have left their mark. -/
structure Along (done : List Operation) (id : String) (a b t : ServerGroup) : Prop
    extends Between a b t where
  updated : ∀ name externalId, .update id name externalId ∈ done →
    t.name = b.name ∧ t.externalId = b.externalId
  added : ∀ u, .add_user id u ∈ done → u ∈ t.members
  removed : ∀ u, .remove_user id u ∈ done → u ∉ t.members

/-- The symbolic id an operation names, and does not create. -/
def Operation.names : Operation → Option String
  | .update id _ _ => some id
  | .create _ _ => none
  | .add_user id _ => some id
  | .remove_user id _ => some id

/-- The groups that are there after `done`, by symbolic id. -/
def Known (base : List String) (done : List Operation) (id : String) : Prop :=
  id ∈ base ∨ ∃ name, .create name id ∈ done

/-- An operation names a group that is there, or creates one that is not. -/
def Operation.Ready (base : List String) (done : List Operation) : Operation → Prop
  | .update id _ _ => Known base done id
  | .create _ externalId => ¬ Known base done externalId
  | .add_user id _ => Known base done id
  | .remove_user id _ => Known base done id

/-- Every operation is ready when its turn comes. -/
def Ordered (base : List String) : List Operation → List Operation → Prop
  | _, [] => True
  | done, operation :: operations =>
    operation.Ready base done ∧ Ordered base (done ++ [operation]) operations

theorem ordered_append {base done xs ys : List _} :
    Ordered base done (xs ++ ys) ↔ Ordered base done xs ∧ Ordered base (done ++ xs) ys := by
  induction xs generalizing done with
  | nil => simp [Ordered]
  | cons x xs ih => simp [Ordered, ih, and_assoc]

theorem Known.mono {base : List String} {done : List Operation} {id : String}
    (h : Known base done id) (more : List Operation) : Known base (done ++ more) id := by
  obtain h | ⟨name, h⟩ := h
  · exact .inl h
  · exact .inr ⟨name, List.mem_append_left _ h⟩

/-- Operations on groups that are there are in order. -/
theorem ordered_of_known {base : List String} {done operations : List Operation} {id : String}
    (hid : Known base done id) (h : ∀ operation ∈ operations, operation.names = some id) :
    Ordered base done operations := by
  induction operations generalizing done with
  | nil => trivial
  | cons operation operations ih =>
    obtain ⟨ho, hos⟩ := List.forall_mem_cons.mp h
    refine ⟨?_, ih (hid.mono _) hos⟩
    cases operation with
    | create name externalId => exact nomatch ho
    | update id' name externalId =>
      obtain rfl : id' = id := Option.some.inj ho
      exact hid
    | add_user id' u =>
      obtain rfl : id' = id := Option.some.inj ho
      exact hid
    | remove_user id' u =>
      obtain rfl : id' = id := Option.some.inj ho
      exact hid

/-- A group none of the operations before names is along them if it is between. -/
theorem Between.along {done : List Operation} {id : String} {a b t : ServerGroup}
    (h : Between a b t) (hnone : ∀ operation ∈ done, operation.names ≠ some id) :
    Along done id a b t :=
  { h with
    updated := fun _ _ hm => absurd rfl (hnone _ hm)
    added := fun _ hm => absurd rfl (hnone _ hm)
    removed := fun _ hm => absurd rfl (hnone _ hm) }

/-- An operation on another group changes nothing for this one. -/
theorem Along.other {done : List Operation} {id : String} {a b t : ServerGroup}
    {operation : Operation} (h : Along done id a b t) (hne : operation.names ≠ some id) :
    Along (done ++ [operation]) id a b t := by
  have hold : ∀ {x : Operation}, x.names = some id → x ∈ done ++ [operation] → x ∈ done := by
    intro x hx hm
    obtain hm | hm := List.mem_append.mp hm
    · exact hm
    · exact absurd (List.mem_singleton.mp hm ▸ hx) hne
  exact { h with
    updated := fun n e hm => h.updated n e (hold rfl hm)
    added := fun u hm => h.added u (hold rfl hm)
    removed := fun u hm => h.removed u (hold rfl hm) }

/-- At the end of all the operations that its goal needs, a group is at its goal. -/
theorem Along.same {done : List Operation} {id : String} {a b t : ServerGroup}
    (h : Along done id a b t)
    (hlabel : (a.name = b.name ∧ a.externalId = b.externalId) ∨
      ∃ name externalId, .update id name externalId ∈ done)
    (hadd : ∀ u ∈ b.members, u ∉ a.members → .add_user id u ∈ done)
    (hremove : ∀ u ∈ a.members, u ∉ b.members → .remove_user id u ∈ done) : Same b t := by
  have hl : t.name = b.name ∧ t.externalId = b.externalId := by
    obtain ⟨hn, he⟩ | ⟨name, externalId, hu⟩ := hlabel
    · obtain ⟨hn', he'⟩ | hl := h.label
      · exact ⟨hn'.trans hn, he'.trans he⟩
      · exact hl
    · exact h.updated _ _ hu
  refine ⟨hl.1, hl.2, h.externalGroup, fun u => ⟨fun hu => ?_, fun hu => ?_⟩⟩
  · by_contra hb
    have ha := (h.upper u hu).resolve_right hb
    exact h.removed u (hremove u ha hb) hu
  · by_cases ha : u ∈ a.members
    · exact h.lower u ha hu
    · exact h.added u (hadd u hu ha)

/-! ### Operations toward a goal -/

section Run

variable (users : List OutlineUser) (start goal : String → ServerGroup)

/-- The operation goes toward the goal of the group it names. -/
def Toward : Operation → Prop
  | .update id name externalId =>
    name = (goal id).name ∧ some externalId = (goal id).externalId
  | .create name externalId =>
    name = (goal externalId).name ∧ some externalId = (goal externalId).externalId ∧
      (goal externalId).externalGroup = false ∧ (start externalId).members = []
  | .add_user id u => u ∈ (goal id).members ∧ u ∈ users.map OutlineUser.id
  | .remove_user id u => u ∉ (goal id).members

/-- The server after the operations `done`: every group that is to be there by then is,
along its way, and there is no other. -/
structure Stands (base : List String) (done : List Operation) (created : List (String × String))
    (T : Outline) : Prop where
  same_users : T.users = users
  found : ∀ id, Known base done id → ∃ t ∈ T.groups, t.id = resolve created id ∧
    Along done id (start id) (goal id) t
  only : ∀ t ∈ T.groups, ∃ id, Known base done id ∧ resolve created id = t.id
  inj : ∀ id id', Known base done id → Known base done id' →
    resolve created id = resolve created id' → id = id'
  dict : ∀ id ∈ created.map Prod.fst, id ∉ base ∧ Known base done id
  named : ∀ operation ∈ done, ∀ id, operation.names = some id → Known base done id
  toward : ∀ operation ∈ done, Toward users start goal operation

variable {users start goal} {base : List String} {done : List Operation}
  {created : List (String × String)} {T : Outline} {ids : IdSource}

theorem known_snoc {operation : Operation} {id₀ id : String} (hn : operation.names = some id₀) :
    Known base (done ++ [operation]) id ↔ Known base done id := by
  unfold Known
  refine or_congr Iff.rfl (exists_congr fun name => ?_)
  rw [List.mem_append, List.mem_singleton]
  refine ⟨fun h => h.resolve_right ?_, .inl⟩
  rintro rfl
  exact nomatch hn

theorem known_create {name externalId id : String} :
    Known base (done ++ [.create name externalId]) id ↔ Known base done id ∨ id = externalId := by
  unfold Known
  constructor
  · rintro (h | ⟨name', h⟩)
    · exact .inl (.inl h)
    · obtain h | h := List.mem_append.mp h
      · exact .inl (.inr ⟨name', h⟩)
      · exact .inr (Operation.create.inj (List.mem_singleton.mp h)).2
  · rintro ((h | ⟨name', h⟩) | rfl)
    · exact .inl h
    · exact .inr ⟨name', List.mem_append_left _ h⟩
    · exact .inr ⟨name, by simp⟩

theorem Stands.toward_snoc (h : Stands users start goal base done created T)
    {operation : Operation} (ht : Toward users start goal operation) :
    ∀ x ∈ done ++ [operation], Toward users start goal x := by
  intro x hx
  obtain hx | hx := List.mem_append.mp hx
  · exact h.toward x hx
  · exact List.mem_singleton.mp hx ▸ ht

/-- An operation that edits the group it names. -/
theorem Stands.edit (h : Stands users start goal base done created T) {operation : Operation}
    {id : String} (hid : Known base done id) (hn : operation.names = some id)
    (htoward : Toward users start goal operation) {f : ServerGroup → ServerGroup} {hf : ∀ g, (f g).id = g.id} {method : String}
    (hstep : ∀ t, Along done id (start id) (goal id) t →
      Along (done ++ [operation]) id (start id) (goal id) (f t)) :
    T.try_edit method (resolve created id) f hf = .ok (T.edit (resolve created id) f hf) ∧
      Stands users start goal base (done ++ [operation]) created
        (T.edit (resolve created id) f hf) := by
  constructor
  · obtain ⟨t, ht, hti, -⟩ := h.found id hid
    rw [Outline.try_edit, if_pos (Option.isSome_iff_exists.mpr
      ⟨t, Outline.group?_eq_some.mpr ⟨ht, hti⟩⟩)]
  refine ⟨h.same_users, ?_, ?_, ?_, ?_, ?_, h.toward_snoc htoward⟩
  · intro id' hid'
    rw [known_snoc hn] at hid'
    obtain ⟨t, ht, hti, hal⟩ := h.found id' hid'
    refine ⟨_, Outline.mem_edit.mpr ⟨t, ht, rfl⟩, ?_⟩
    by_cases hii : id' = id
    · subst hii
      rw [if_pos hti]
      exact ⟨(hf t).trans hti, hstep t hal⟩
    · have hne : t.id ≠ resolve created id := fun ht' =>
        hii (h.inj id' id hid' hid (hti.symm.trans ht'))
      rw [if_neg hne]
      exact ⟨hti, hal.other fun hx => hii (Option.some.inj (hn.symm.trans hx)).symm⟩
  · intro t ht
    obtain ⟨g, hg, rfl⟩ := Outline.mem_edit.mp ht
    obtain ⟨id', hid', hr⟩ := h.only g hg
    refine ⟨id', (known_snoc hn).mpr hid', ?_⟩
    split_ifs
    · rw [hf, hr]
    · exact hr
  · intro id₁ id₂ h₁ h₂
    exact h.inj id₁ id₂ ((known_snoc hn).mp h₁) ((known_snoc hn).mp h₂)
  · intro id' hid'
    exact ⟨(h.dict id' hid').1, (known_snoc hn).mpr (h.dict id' hid').2⟩
  · intro operation' ho id' hn'
    rw [known_snoc hn]
    obtain ho | ho := List.mem_append.mp ho
    · exact h.named operation' ho id' hn'
    · obtain rfl := List.mem_singleton.mp ho
      obtain rfl : id = id' := Option.some.inj (hn.symm.trans hn')
      exact hid

/-- An operation that creates a group. -/
theorem Stands.create (h : Stands users start goal base done created T)
    {name externalId : String} (hnew : ¬ Known base done externalId)
    (htoward : Toward users start goal (.create name externalId)) :
    Stands users start goal base (done ++ [.create name externalId])
      ((externalId, ids.next (T.groups.map (·.id))) :: created) (T.insert ids name externalId) := by
  set new := ids.next (T.groups.map (·.id)) with hnewid
  have hfresh : ∀ t ∈ T.groups, t.id ≠ new := by
    intro t ht he
    have hm : t.id ∈ T.groups.map (·.id) := List.mem_map_of_mem ht
    rw [he, hnewid] at hm
    exact ids.fresh _ hm
  have hself : resolve ((externalId, new) :: created) externalId = new := by simp [resolve]
  have hother : ∀ {id}, Known base done id →
      resolve ((externalId, new) :: created) id = resolve created id := by
    intro id hid
    have hne : id ≠ externalId := fun he => hnew (he ▸ hid)
    simp [resolve, List.lookup_cons, beq_false_of_ne hne]
  have hold : ∀ {id}, Known base done id → resolve created id ≠ new := by
    intro id hid he
    obtain ⟨t, ht, hti, -⟩ := h.found id hid
    exact hfresh t ht (hti.trans he)
  refine ⟨h.same_users, ?_, ?_, ?_, ?_, ?_, h.toward_snoc htoward⟩
  · intro id hid
    obtain hid | rfl := known_create.mp hid
    · obtain ⟨t, ht, hti, hal⟩ := h.found id hid
      exact ⟨t, Outline.mem_insert.mpr (.inl ht), hti.trans (hother hid).symm, hal.other nofun⟩
    · refine ⟨_, Outline.mem_insert.mpr (.inr rfl), hself.symm, ?_⟩
      obtain ⟨hname, hext, hgroup, hmembers⟩ := htoward
      refine Along.other (Between.along ⟨hgroup.symm, .inr ⟨hname, hext⟩, by simp, ?_⟩ ?_) nofun
      · simp [hmembers]
      · exact fun operation ho hn => hnew (h.named operation ho _ hn)
  · intro t ht
    obtain ht | rfl := Outline.mem_insert.mp ht
    · obtain ⟨id, hid, hr⟩ := h.only t ht
      exact ⟨id, known_create.mpr (.inl hid), (hother hid).trans hr⟩
    · exact ⟨externalId, known_create.mpr (.inr rfl), hself⟩
  · intro id id' hid hid' he
    obtain hid | hid := known_create.mp hid
    · obtain hid' | hid' := known_create.mp hid'
      · rw [hother hid, hother hid'] at he
        exact h.inj id id' hid hid' he
      · rw [hother hid, hid', hself] at he
        exact absurd he (hold hid)
    · obtain hid' | hid' := known_create.mp hid'
      · rw [hother hid', hid, hself] at he
        exact absurd he.symm (hold hid')
      · exact hid.trans hid'.symm
  · intro id hid
    obtain rfl | hid := List.mem_cons.mp hid
    · exact ⟨fun hb => hnew (.inl hb), known_create.mpr (.inr rfl)⟩
    · exact ⟨(h.dict id hid).1, known_create.mpr (.inl (h.dict id hid).2)⟩
  · intro operation ho id hn
    obtain ho | ho := List.mem_append.mp ho
    · exact known_create.mpr (.inl (h.named operation ho id hn))
    · rw [List.mem_singleton.mp ho] at hn
      exact nomatch hn

/-- What one operation toward the goal does to the group it names. -/
theorem Along.step_update {id name externalId : String} {t : ServerGroup}
    (ht : Toward users start goal (.update id name externalId))
    (h : Along done id (start id) (goal id) t) :
    Along (done ++ [.update id name externalId]) id (start id) (goal id)
      { t with name, externalId := some externalId } where
  externalGroup := h.externalGroup
  label := .inr ht
  upper := h.upper
  lower := h.lower
  updated _ _ _ := ht
  added u hu := h.added u (by simpa using hu)
  removed u hu := h.removed u (by simpa using hu)

theorem Along.step_add {id u : String} {t : ServerGroup}
    (hdone : ∀ operation ∈ done, Toward users start goal operation)
    (ht : Toward users start goal (.add_user id u))
    (h : Along done id (start id) (goal id) t) :
    Along (done ++ [.add_user id u]) id (start id) (goal id)
      { t with members := t.members.insert u } where
  externalGroup := h.externalGroup
  label := h.label
  upper v hv := by
    obtain rfl | hv := List.mem_insert_iff.mp hv
    · exact .inr ht.1
    · exact h.upper v hv
  lower v hv hg := List.mem_insert_of_mem (h.lower v hv hg)
  updated n e hm := h.updated n e (by simpa using hm)
  added v hv := by
    obtain hv | hv := List.mem_append.mp hv
    · exact List.mem_insert_of_mem (h.added v hv)
    · obtain rfl : v = u := (Operation.add_user.inj (List.mem_singleton.mp hv)).2
      exact List.mem_insert_self
  removed v hv hm := by
    have hv : .remove_user id v ∈ done := by simpa using hv
    obtain he | hm := List.mem_insert_iff.mp hm
    · exact hdone _ hv (he ▸ ht.1)
    · exact h.removed v hv hm

theorem Along.step_remove {id u : String} {t : ServerGroup}
    (hdone : ∀ operation ∈ done, Toward users start goal operation)
    (ht : Toward users start goal (.remove_user id u))
    (h : Along done id (start id) (goal id) t) :
    Along (done ++ [.remove_user id u]) id (start id) (goal id)
      { t with members := t.members.filter (· ≠ u) } where
  externalGroup := h.externalGroup
  label := h.label
  upper v hv := h.upper v (List.mem_of_mem_filter hv)
  lower v hv hg := by
    refine List.mem_filter.mpr ⟨h.lower v hv hg, ?_⟩
    have hne : v ≠ u := fun he => ht (he ▸ hg)
    simpa using hne
  updated n e hm := h.updated n e (by simpa using hm)
  added v hv := by
    have hv : .add_user id v ∈ done := by simpa using hv
    have hne : v ≠ u := fun he => ht (he ▸ (hdone _ hv).1)
    exact List.mem_filter.mpr ⟨h.added v hv, by simpa using hne⟩
  removed v hv hm := by
    obtain ⟨hm, hne⟩ := List.mem_filter.mp hm
    obtain hv | hv := List.mem_append.mp hv
    · exact h.removed v hv hm
    · obtain rfl : v = u := (Operation.remove_user.inj (List.mem_singleton.mp hv)).2
      simp at hne

/-- One operation: the server answers it, and stands after it. -/
theorem Stands.step (h : Stands users start goal base done created T) {operation : Operation}
    (hready : operation.Ready base done) (ht : Toward users start goal operation) :
    ∃ id T', T.answer ids (operation.body created) = .ok (id, T') ∧
      Stands users start goal base (done ++ [operation]) (operation.record created id) T' := by
  cases operation with
  | create name externalId => exact ⟨_, _, rfl, h.create hready ht⟩
  | update id name externalId =>
    obtain ⟨he, hs⟩ := h.edit hready rfl ht (f := fun g => { g with name, externalId := some externalId }) fun _ hal => hal.step_update ht
    refine ⟨resolve created id, _, ?_, hs⟩
    rw [Operation.body, Outline.answer, he]
    rfl
  | add_user id u =>
    obtain ⟨he, hs⟩ := h.edit hready rfl ht (f := fun g => { g with members := g.members.insert u }) fun _ hal => hal.step_add h.toward ht
    refine ⟨resolve created id, _, ?_, hs⟩
    rw [Operation.body, Outline.answer, h.same_users, if_pos ht.2, he]
    rfl
  | remove_user id u =>
    obtain ⟨he, hs⟩ := h.edit hready rfl ht (f := fun g => { g with members := g.members.filter (· ≠ u) }) fun _ hal => hal.step_remove h.toward ht
    refine ⟨resolve created id, _, ?_, hs⟩
    rw [Operation.body, Outline.answer, he]
    rfl

/-- **A run of operations toward the goal.**  All of them are answered. -/
theorem Stands.run {operations : List Operation} (h : Stands users start goal base done created T)
    (hordered : Ordered base done operations)
    (htoward : ∀ operation ∈ operations, Toward users start goal operation) :
    ∃ created' T', apply_from ids created T operations = .ok T' ∧
      Stands users start goal base (done ++ operations) created' T' := by
  induction operations generalizing done created T with
  | nil => exact ⟨created, T, rfl, by simpa using h⟩
  | cons operation operations ih =>
    obtain ⟨hready, hordered⟩ := hordered
    obtain ⟨ht, hts⟩ := List.forall_mem_cons.mp htoward
    obtain ⟨id, T₁, hanswer, h₁⟩ := h.step hready ht
    obtain ⟨created', T', hrun, h'⟩ := ih h₁ hordered hts
    refine ⟨created', T', ?_, by simpa using h'⟩
    rw [apply_from, hanswer]
    exact hrun

end Run

end GroupSync
