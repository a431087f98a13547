/-
Outline group sync: the planner, the Outline server, and the application of a plan.

LDAP-backed Authentik groups are mirrored as local Outline groups.  The sync reads a
snapshot of both directories, plans API operations from it after checking the whole of
it, and applies them one by one.  A group that the plan creates has no id yet: its
operations name it by its external id, which `apply_plan` resolves.

`str.strip` and `str.casefold` are parameters; a Python dict is the list of its items,
a set is a list of which only membership counts.

* `plan_sync` — the planned operations of a snapshot, or why there are none;
* `Outline` — the server: groups with distinct ids, none of them an external id;
* `apply_plan` — the operations, applied in order.
-/
import Mathlib.Data.List.Sort
import Mathlib.Data.String.Basic
import Mathlib.Data.List.Dedup

namespace GroupSync

/-- An exception of a run: a `SyncError` with its text, or a missing dict key. -/
inductive Failure where
  | syncError (text : String)
  | keyError (key : String)
  deriving DecidableEq, Repr

abbrev Result : Type → Type := Except Failure

structure LdapGroup where
  pk : String
  name : String
  deriving DecidableEq, Repr

structure AkUser where
  email : Option String
  is_active : Bool := true
  type : String := "internal"
  groups : List String := []
  deriving DecidableEq, Repr

structure OutlineGroup where
  id : String
  name : String
  externalId : Option String := none
  externalGroup : Bool := false
  deriving DecidableEq, Repr

structure OutlineUser where
  id : String
  email : Option String
  isSuspended : Bool := false
  role : Option String := none
  deriving DecidableEq, Repr

/-- A planned API operation; the method is the constructor. -/
inductive Operation where
  | update (id name externalId : String)
  | create (name externalId : String)
  | add_user (id userId : String)
  | remove_user (id userId : String)
  deriving DecidableEq, Repr

/-! ### The planner -/

/-- The loop of `index_unique` after the rows in `result`. -/
def index_from {α : Type} (key : α → String) (result : List (String × α)) :
    List α → Result (List (String × α))
  | [] => .ok result
  | row :: rows =>
    let value := key row
    if value = "" ∨ (result.lookup value).isSome then
      .error (.syncError "Missing or duplicate identity in snapshot")
    else index_from key (result ++ [(value, row)]) rows

/-- `index_unique` -/
def index_unique {α : Type} (key : α → String) (rows : List α) : Result (List (String × α)) :=
  index_from key [] rows

/-- `email`: the address as it is compared, "" without one. -/
def email (strip casefold : String → String) (value : Option String) : String :=
  match value with
  | some value => casefold (strip value)
  | none => ""

def prefix_of (source_id : String) : String := "krg-ldap:" ++ source_id ++ ":"

def external_id (source_id pk : String) : String := prefix_of source_id ++ pk

/-- `group.get("externalId") or ""` -/
def OutlineGroup.external (group : OutlineGroup) : String := group.externalId.getD ""

/-- Whether the Authentik account counts as a member. -/
def AkUser.counts (ak : AkUser) : Bool := ak.is_active && ak.type == "internal"

/-- Whether the Outline account can be made a member. -/
def OutlineUser.joins (user : OutlineUser) : Bool := !user.isSuspended && user.role != some "guest"

/-- `desired_members[pk]`: the Outline accounts whose address belongs to a counting
Authentik account of the group. -/
def desired_members (ak_by_email : List (String × AkUser)) (ol_by_email : List (String × OutlineUser))
    (pk : String) : List String :=
  ol_by_email.filterMap fun entry =>
    match ak_by_email.lookup entry.1 with
    | none => none
    | some ak =>
      if ak.counts ∧ entry.2.joins ∧ pk ∈ ak.groups then some entry.2.id else none

/-- `memberships[group_id]` -/
def members_of (memberships : List (String × List String)) (group_id : String) :
    Result (List String) :=
  match memberships.lookup group_id with
  | some members => .ok members
  | none => .error (.keyError group_id)

/-- `sorted(xs - ys)` of two sets. -/
def sorted_diff (xs ys : List String) : List String :=
  (xs.filter (· ∉ ys)).dedup.insertionSort (· ≤ ·)

/-- The additions and the removals that turn `current` into `desired`. -/
def member_operations (group_id : String) (desired current : List String) : List Operation :=
  (sorted_diff desired current).map (.add_user group_id) ++
    (sorted_diff current desired).map (.remove_user group_id)

/-- The operations planned so far and the Outline groups they speak of. -/
structure Progress where
  operations : List Operation := []
  used : List String := []
  deriving DecidableEq, Repr

/-- The Outline group of an LDAP group: the one that carries its external id, else the
one of its name. -/
def find_target (by_external by_name : List (String × OutlineGroup)) (external name : String) :
    Result (Option OutlineGroup) :=
  match by_external.lookup external, by_name.lookup name with
  | some target, some same_name =>
    if target.id ≠ same_name.id then
      .error (.syncError "LDAP rename collides with another Outline group")
    else .ok (some target)
  | some target, none => .ok (some target)
  | none, same_name => .ok same_name

/-- `groups.update`, where name or external id differ. -/
def update_operations (target : OutlineGroup) (external name : String) : List Operation :=
  if target.externalId ≠ some external ∨ target.name ≠ name then
    [.update target.id name external]
  else []

/-- An LDAP group with an Outline group: checked, renamed if need be, its members set. -/
def plan_existing (memberships : List (String × List String)) (desired : List String)
    (done : Progress) (external name : String) (target : OutlineGroup) : Result Progress :=
  if target.externalGroup ∨ target.externalId ∉ [none, some "", some external] then
    .error (.syncError "Outline group belongs to another external source")
  else if target.id ∈ done.used then
    .error (.syncError "Multiple LDAP groups map to one Outline group")
  else do
    let current ← members_of memberships target.id
    return ⟨done.operations ++ (update_operations target external name ++
      member_operations target.id desired current), done.used ++ [target.id]⟩

/-- An LDAP group without an Outline group: created, named by its external id. -/
def plan_new (desired : List String) (done : Progress) (external name : String) : Progress :=
  { done with operations := done.operations ++ (.create name external ::
      member_operations external desired []) }

/-- One LDAP group of the loop. -/
def plan_group (source_id : String) (by_external by_name : List (String × OutlineGroup))
    (memberships : List (String × List String)) (desired : String → List String) (done : Progress)
    (source : String × LdapGroup) : Result Progress := do
  let external := external_id source_id source.1
  let target ← find_target by_external by_name external source.2.name
  match target with
  | some target => plan_existing memberships (desired source.1) done external source.2.name target
  | none => return plan_new (desired source.1) done external source.2.name

/-- One Outline group of the second loop: emptied if its LDAP group is gone. -/
def plan_orphan (source_id : String) (memberships : List (String × List String))
    (done : Progress) (group : OutlineGroup) : Result Progress :=
  if (prefix_of source_id).toList <+: group.external.toList ∧ group.id ∉ done.used then
    if group.externalGroup then
      .error (.syncError "Managed group is now owned by an external provider")
    else do
      let members ← members_of memberships group.id
      return { done with operations := done.operations ++
        (sorted_diff members []).map (.remove_user group.id) }
  else .ok done

/-- `plan_sync` -/
def plan_sync (strip casefold : String → String) (source_id : String)
    (ldap_groups : List LdapGroup) (ak_users : List AkUser) (outline_groups : List OutlineGroup)
    (outline_users : List OutlineUser) (memberships : List (String × List String)) :
    Result (List Operation) := do
  let desired_groups ← index_unique LdapGroup.pk ldap_groups
  let _ ← index_unique LdapGroup.name ldap_groups
  let by_name ← index_unique OutlineGroup.name outline_groups
  let by_external ← index_unique OutlineGroup.external (outline_groups.filter (·.external ≠ ""))
  -- Blank emails cannot match; duplicate nonblank emails must never pick a winner.
  let ak_by_email ← index_unique (fun u => email strip casefold u.email)
    (ak_users.filter fun u => email strip casefold u.email ≠ "")
  let ol_by_email ← index_unique (fun u => email strip casefold u.email) outline_users
  let desired := desired_members ak_by_email ol_by_email
  let done ← (desired_groups.insertionSort fun a b => a.1 ≤ b.1).foldlM
    (plan_group source_id by_external by_name memberships desired) {}
  let done ← outline_groups.foldlM (plan_orphan source_id memberships) done
  return done.operations

/-! ### The Outline server -/

/-- A group as the server stores it, with its members. -/
structure ServerGroup extends OutlineGroup where
  members : List String := []
  deriving DecidableEq, Repr

/-- Whether `id` has the form of an external id of this sync. -/
def Managed (id : String) : Prop := "krg-ldap:".toList <+: id.toList

instance (id : String) : Decidable (Managed id) := inferInstanceAs (Decidable (_ <+: _))

/-- The server.  Group ids are its own: they are distinct, and none of them has the form
of an external id of this sync (they are UUIDs). -/
structure Outline where
  groups : List ServerGroup
  users : List OutlineUser
  ids_nodup : (groups.map (·.id)).Nodup
  ids_plain : ∀ g ∈ groups, ¬ Managed g.id

/-- The server's way of making the id of a new group. -/
structure IdSource where
  next : List String → String
  fresh : ∀ ids, next ids ∉ ids
  plain : ∀ ids, ¬ Managed (next ids)

namespace Outline

/-- The group with this id. -/
def group? (outline : Outline) (id : String) : Option ServerGroup :=
  outline.groups.find? (·.id = id)

/-- The group with this id changed by `f`, which leaves ids alone. -/
def edit (outline : Outline) (id : String) (f : ServerGroup → ServerGroup)
    (hf : ∀ g, (f g).id = g.id) : Outline where
  groups := outline.groups.map fun g => if g.id = id then f g else g
  users := outline.users
  ids_nodup := by
    have hid : (fun g : ServerGroup => (if g.id = id then f g else g).id) = (·.id) := by
      funext g
      split_ifs <;> simp [hf]
    simpa [Function.comp_def, hid] using outline.ids_nodup
  ids_plain := by
    intro g hg
    obtain ⟨g', hg', rfl⟩ := List.mem_map.mp hg
    split_ifs
    · rw [hf]
      exact outline.ids_plain g' hg'
    · exact outline.ids_plain g' hg'

/-- `groups.create` on the server. -/
def insert (outline : Outline) (ids : IdSource) (name externalId : String) : Outline where
  groups := outline.groups ++
    [{ id := ids.next (outline.groups.map (·.id)), name, externalId := some externalId }]
  users := outline.users
  ids_nodup := by
    rw [List.map_append]
    refine List.nodup_append.mpr ⟨outline.ids_nodup, by simp, ?_⟩
    rintro a ha b hb rfl
    obtain rfl : a = ids.next (outline.groups.map (·.id)) := by simpa using hb
    exact ids.fresh _ ha
  ids_plain := by
    intro g hg
    obtain hg | hg := List.mem_append.mp hg
    · exact outline.ids_plain g hg
    · rw [List.mem_singleton.mp hg]
      exact ids.plain _

/-- An edit that the server refuses without such a group. -/
def try_edit (outline : Outline) (method id : String) (f : ServerGroup → ServerGroup)
    (hf : ∀ g, (f g).id = g.id) : Result Outline :=
  if (outline.group? id).isSome then .ok (outline.edit id f hf)
  else .error (.syncError ("API request failed (404) at /api/" ++ method))

/-- The server's answer to one operation: the id of a group it created, and its new
state.  An id it does not know is refused. -/
def answer (outline : Outline) (ids : IdSource) : Operation → Result (String × Outline)
  | .create name externalId =>
    .ok (ids.next (outline.groups.map (·.id)), outline.insert ids name externalId)
  | .update id name externalId => do
    let outline ← outline.try_edit "groups.update" id
      (fun g => { g with name, externalId := some externalId }) fun _ => rfl
    return (id, outline)
  | .add_user id userId =>
    if userId ∈ outline.users.map OutlineUser.id then do
      let outline ← outline.try_edit "groups.add_user" id
        (fun g => { g with members := g.members.insert userId }) fun _ => rfl
      return (id, outline)
    else .error (.syncError "API request failed (404) at /api/groups.add_user")
  | .remove_user id userId => do
    let outline ← outline.try_edit "groups.remove_user" id
      (fun g => { g with members := g.members.filter (· ≠ userId) }) fun _ => rfl
    return (id, outline)

end Outline

/-- `created.get(id, id)` -/
def resolve (created : List (String × String)) (id : String) : String :=
  (created.lookup id).getD id

/-- The request body of an operation: its id resolved. -/
def Operation.body (created : List (String × String)) : Operation → Operation
  | .update id name externalId => .update (resolve created id) name externalId
  | .create name externalId => .create name externalId
  | .add_user id userId => .add_user (resolve created id) userId
  | .remove_user id userId => .remove_user (resolve created id) userId

/-- The `created` dict after an operation answered with `id`. -/
def Operation.record (created : List (String × String)) (id : String) : Operation → List (String × String)
  | .create _ externalId => (externalId, id) :: created
  | _ => created

/-- The loop of `apply_plan`. -/
def apply_from (ids : IdSource) (created : List (String × String)) (outline : Outline) :
    List Operation → Result Outline
  | [] => .ok outline
  | operation :: operations => do
    let (id, outline) ← outline.answer ids (operation.body created)
    apply_from ids (operation.record created id) outline operations

/-- `apply_plan` -/
def apply_plan (ids : IdSource) (outline : Outline) (operations : List Operation) :
    Result Outline :=
  apply_from ids [] outline operations

/-! ### The reads of `reconcile` -/

/-- `groups.list` -/
def Outline.outline_groups (outline : Outline) : List OutlineGroup :=
  outline.groups.map ServerGroup.toOutlineGroup

/-- The memberships `reconcile` reads: of every group that bears an LDAP group's name or
this source's external ids. -/
def read_memberships (source_id : String) (ldap_groups : List LdapGroup) (outline : Outline) :
    List (String × List String) :=
  (outline.groups.filter fun g => g.name ∈ ldap_groups.map LdapGroup.name ∨
    (prefix_of source_id).toList <+: g.external.toList).map fun g => (g.id, g.members)

/-- What `reconcile` plans for the server's state. -/
def reconcile_plan (strip casefold : String → String) (source_id : String)
    (ldap_groups : List LdapGroup) (ak_users : List AkUser) (outline : Outline) :
    Result (List Operation) :=
  plan_sync strip casefold source_id ldap_groups ak_users outline.outline_groups outline.users
    (read_memberships source_id ldap_groups outline)

end GroupSync
