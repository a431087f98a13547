/-
Outline group sync: what the planner raises.

`plan_sync` asks for the members of an Outline group where it finds one for an LDAP group, and
where one carries an external id of the source.  Where the members of these have been read, it
ends with a plan or a `SyncError`.

* `RaisesSync` — a computation that raises nothing else, and how such ones are composed;
* `Covers` — the members that the planner can ask for;
* `plan_sync_raises`.
-/
import KrgInfra.OutlinePlan

namespace GroupSync

/-- A computation raises nothing but `SyncError`. -/
def RaisesSync {α : Type} (x : Result α) : Prop := ∀ e, x = .error e → ∃ text, e = .syncError text

section Planner

variable {α β : Type}

theorem RaisesSync.ok {a : α} : RaisesSync (.ok a) := nofun

theorem RaisesSync.syncError {text : String} : RaisesSync (.error (.syncError text) : Result α) := by
  rintro e he
  exact ⟨text, (Except.error.inj he).symm⟩

theorem RaisesSync.bind {x : Result α} {f : α → Result β} (hx : RaisesSync x)
    (hf : ∀ a, x = .ok a → RaisesSync (f a)) : RaisesSync (x >>= f) := by
  cases x with
  | error e =>
    rintro e' he
    exact hx e' (congrArg Except.error (Except.error.inj he))
  | ok a => exact hf a rfl

theorem RaisesSync.foldlM {γ : Type} {f : β → γ → Result β} {l : List γ}
    (h : ∀ b, ∀ x ∈ l, RaisesSync (f b x)) : ∀ b, RaisesSync (l.foldlM f b) := by
  induction l with
  | nil => exact fun _ => RaisesSync.ok
  | cons x l ih =>
    intro b
    rw [List.foldlM_cons]
    refine (h b x List.mem_cons_self).bind fun b' _ => ?_
    exact ih (fun b x hx => h b x (List.mem_cons_of_mem _ hx)) b'

theorem index_unique_raises {key : α → String} {rows : List α} :
    RaisesSync (index_unique key rows) := by
  have hfrom : ∀ result, RaisesSync (index_from key result rows) := by
    induction rows with
    | nil => exact fun _ => RaisesSync.ok
    | cons row rows ih =>
      intro result
      rw [index_from]
      split_ifs
      · exact RaisesSync.syncError
      · exact ih _
  exact hfrom []

variable {source_id : String} {ldap_groups : List LdapGroup} {ak_users : List AkUser}
  {outline_groups : List OutlineGroup} {outline_users : List OutlineUser}
  {memberships : List (String × List String)}

/-- The snapshot has the members of every Outline group that bears the name of an LDAP group or
an external id of this source. -/
def Covers (source_id : String) (ldap_groups : List LdapGroup)
    (outline_groups : List OutlineGroup) (memberships : List (String × List String)) : Prop :=
  ∀ o ∈ outline_groups, o.name ∈ ldap_groups.map LdapGroup.name ∨
    (prefix_of source_id).toList <+: o.external.toList → (memberships.lookup o.id).isSome

theorem members_of_raises {id : String} (h : (memberships.lookup id).isSome) :
    RaisesSync (members_of memberships id) := by
  obtain ⟨members, hl⟩ := Option.isSome_iff_exists.mp h
  rw [members_of, hl]
  exact RaisesSync.ok

/-- The Outline group that is found for an LDAP group is one whose members have been read. -/
theorem find_target_covered (h : Covers source_id ldap_groups outline_groups memberships)
    {pk : String} {g : LdapGroup} (hg : g ∈ ldap_groups) {target : OutlineGroup}
    (ht : find_target
      (index OutlineGroup.external (outline_groups.filter (·.external ≠ "")))
      (index OutlineGroup.name outline_groups) (external_id source_id pk) g.name =
        .ok (some target)) : (memberships.lookup target.id).isSome := by
  obtain ⟨-, htarget⟩ := Directory.find_target_ok.mp ht
  rw [lookup_index, lookup_index] at htarget
  obtain hx | ⟨-, hn⟩ := Option.or_eq_some_iff.mp htarget.symm
  · have hmem := List.mem_of_mem_filter (List.mem_of_find?_eq_some hx)
    have he : target.external = external_id source_id pk := by simpa using List.find?_some hx
    refine h target hmem (.inr ?_)
    rw [he]
    exact ⟨pk.toList, by simp [external_id, String.toList_append]⟩
  · have hname : target.name = g.name := by simpa using List.find?_some hn
    exact h target (List.mem_of_find?_eq_some hn) (.inl (hname ▸ List.mem_map_of_mem hg))

/-- **The planner raises nothing but `SyncError`** on a snapshot with the members that it asks
about. -/
theorem plan_sync_raises {strip casefold : String → String}
    (h : Covers source_id ldap_groups outline_groups memberships) :
    RaisesSync (plan_sync strip casefold source_id ldap_groups ak_users outline_groups
      outline_users memberships) := by
  unfold plan_sync
  refine index_unique_raises.bind fun desired_groups hdesired => ?_
  refine index_unique_raises.bind fun _ _ => ?_
  refine index_unique_raises.bind fun by_name hname => ?_
  refine index_unique_raises.bind fun by_external hexternal => ?_
  refine index_unique_raises.bind fun ak_by_email _ => ?_
  refine index_unique_raises.bind fun ol_by_email _ => ?_
  obtain ⟨-, rfl⟩ := index_unique_ok.mp hdesired
  obtain ⟨-, rfl⟩ := index_unique_ok.mp hname
  obtain ⟨-, rfl⟩ := index_unique_ok.mp hexternal
  refine (RaisesSync.foldlM ?_ _).bind fun done _ => (RaisesSync.foldlM ?_ _).bind fun _ _ =>
    RaisesSync.ok
  · -- an LDAP group: its Outline group is one that has been asked about
    rintro done ⟨pk, g⟩ hsource
    obtain ⟨g', hg, hpair⟩ := List.mem_map.mp ((List.mem_insertionSort _).mp hsource)
    obtain rfl : g' = g := (Prod.mk.inj hpair).2
    refine RaisesSync.bind ?_ fun target htarget => ?_
    · unfold find_target
      split
      · split_ifs
        · exact RaisesSync.syncError
        · exact RaisesSync.ok
      · exact RaisesSync.ok
      · exact RaisesSync.ok
    cases target with
    | none => exact RaisesSync.ok
    | some target =>
      show RaisesSync (plan_existing _ _ _ _ _ _)
      unfold plan_existing
      split_ifs
      · exact RaisesSync.syncError
      · exact RaisesSync.syncError
      · refine (members_of_raises (find_target_covered h hg htarget)).bind fun _ _ => ?_
        exact RaisesSync.ok
  · -- a group whose LDAP group is gone carries the prefix
    intro done o ho
    unfold plan_orphan
    split_ifs with htagged
    · exact RaisesSync.syncError
    · exact (members_of_raises (h o ho (.inr htagged.1))).bind fun _ _ => RaisesSync.ok
    · exact RaisesSync.ok

end Planner

end GroupSync
