/-
Outline group sync: a run, from its first read to its last write.

`reconcile` reads the directory, then Outline, then the members of every group that the plan can
ask about, and checks that LDAP has not been synced meanwhile; only then it plans, and only a
plan that is complete is applied.  The rows are what the server says, and they are read where
they are needed: a row that lacks a member raises there.

* `Snapshot.fields` — the rows of a snapshot, where they carry what the plan reads;
* `read_snapshot`, `reconcile` — the program, without its heartbeat (`progress`);
* `read_snapshot_complete` — a snapshot that is read has the members that the plan asks for;
* `sync_fails_closed` — the reads end, the plan raises nothing but `SyncError`, and nothing is
  written before it;
* `endless_reads` — reads that do not end.
-/
import KrgInfra.ApiReads
import KrgInfra.OutlineErrors

namespace GroupSync.API

open Py

/-! ### The snapshot -/

/-- What the plan is made from. -/
structure Snapshot where
  source_id : Value
  ldap_groups : List Value
  ak_users : List Value
  outline_groups : List Value
  outline_users : List Value
  memberships : List (Key × List Key)

/-- An object that is a text. -/
def as_text : Value → Except Exn String
  | .str s => return s
  | _ => .error .typeError

/-- `row[name]`, a text. -/
def text (row : Value) (name : String) : Except Exn String := do
  as_text (← row.item name)

/-- `row.get(name)`, where it is a text. -/
def text? (row : Value) (name : String) : Option String :=
  match row.get name with
  | .ok (.str s) => some s
  | _ => none

/-- The truth value of `row.get(name)`. -/
def flag (row : Value) (name : String) : Bool :=
  match row.get name with
  | .ok value => value.truthy
  | .error _ => false

def Key.str? : Key → Option String
  | .str s => some s
  | _ => none

def ldap_group (row : Value) : Except Exn LdapGroup := do
  return ⟨← text row "pk", ← text row "name"⟩

/-- An Authentik user; a type or a group that is no text is none that is asked for. -/
def ak_user (row : Value) : Except Exn AkUser := do
  let active ← row.item "is_active"
  let _ ← row.item "type"
  match ← row.item "groups" with
  | .list groups =>
    let groups ← groups.mapM Value.hash
    return { email := text? row "email", is_active := active.isTrue,
             type := (text? row "type").getD "", groups := groups.filterMap Key.str? }
  | _ => .error .typeError

/-- An Outline group; its external id is a text or none. -/
def outline_group (row : Value) : Except Exn OutlineGroup := do
  let id ← text row "id"
  let name ← text row "name"
  match ← row.get "externalId" with
  | .null => return { id, name, externalGroup := flag row "externalGroup" }
  | .str external =>
    return { id, name, externalId := some external, externalGroup := flag row "externalGroup" }
  | _ => .error .typeError

def outline_user (row : Value) : Except Exn OutlineUser := do
  return { id := ← text row "id", email := text? row "email",
           isSuspended := flag row "isSuspended", role := text? row "role" }

/-- A key that is a text. -/
def text_key : Key → Except Exn String
  | .str s => return s
  | _ => .error .typeError

def member_ids (entry : Key × List Key) : Except Exn (String × List String) := do
  return (← text_key entry.1, ← entry.2.mapM text_key)

/-- The rows of a snapshot as the plan reads them. -/
structure Fields where
  source_id : String
  ldap_groups : List LdapGroup
  ak_users : List AkUser
  outline_groups : List OutlineGroup
  outline_users : List OutlineUser
  memberships : List (String × List String)

/-- The rows carry what the plan reads of them. -/
def Snapshot.fields (snapshot : Snapshot) : Except Exn Fields := do
  return { source_id := ← as_text snapshot.source_id
           ldap_groups := ← snapshot.ldap_groups.mapM ldap_group
           ak_users := ← snapshot.ak_users.mapM ak_user
           outline_groups := ← snapshot.outline_groups.mapM outline_group
           outline_users := ← snapshot.outline_users.mapM outline_user
           memberships := ← snapshot.memberships.mapM member_ids }

def raised : Failure → Raised
  | .syncError text => .syncError text
  | .keyError key => .python (.keyError key)

/-! ### The program -/

/-- What a run depends on: the server's replies; `str.strip` and `str.casefold`; the times of the
two checks of the status and the greatest age of an LDAP sync (in microseconds);
`datetime.fromisoformat`, where the text is a time with a time zone; the LDAP source in the
paths; how an object that is no text is formatted; and what `plan_sync` makes of rows that do not
carry what it reads. -/
structure Sync where
  server : List Request → Reply
  strip : String → String
  casefold : String → String
  now : ℕ → ℤ
  max_age : ℤ
  fromisoformat : String → Option ℤ
  source_slug : String
  format : Value → String
  stray : Snapshot → Except Raised (List Operation)

/-- `value is False` -/
def isFalse : Value → Bool
  | .bool b => !b
  | _ => false

/-- `text.replace("Z", "+00:00")` -/
def replace_zulu (text : String) : String :=
  String.ofList (text.toList.flatMap fun c => if c = 'Z' then "+00:00".toList else [c])

/-- `assert_sync_healthy`, at the time `now`. -/
def assert_sync_healthy (S : Sync) (now : ℤ) (status : Value) : Except Raised Unit := do
  let is_running ← python (status.get "is_running")
  if !isFalse is_running then syncError "LDAP sync is running or its status is unknown"
  else
    let last_sync_status ← python (status.get "last_sync_status")
    if last_sync_status.differs (.str "done") && last_sync_status.differs (.str "info") then
      syncError "LDAP last sync was not successful"
    else
      match status.item "last_successful_sync" with
      | .error _ => syncError "LDAP sync has no valid successful timestamp"
      | .ok (.str text) =>
        match S.fromisoformat (replace_zulu text) with
        | none => syncError "LDAP sync has no valid successful timestamp"
        | some last =>
          if now - last < -300000000 || now - last > S.max_age then
            syncError "LDAP sync snapshot is stale"
          else return ()
      | .ok _ => python (.error .attributeError)

/-- `source["enabled"] is not True or source["sync_groups"] is not True` -/
def check_source (source : Value) : Except Raised Unit := do
  let enabled ← python (source.item "enabled")
  if !enabled.isTrue then syncError "LDAP source is disabled or does not sync groups"
  else
    let sync_groups ← python (source.item "sync_groups")
    if !sync_groups.isTrue then syncError "LDAP source is disabled or does not sync groups"
    else return ()

/-- `{link["group"] for link in links if link["source"] == source_id}` -/
def linked_groups (source_id : Value) : List Value → Except Raised (List Key)
  | [] => return []
  | link :: links => do
    let source ← python (link.item "source")
    if source.differs source_id then linked_groups source_id links
    else
      let group ← row_key "group" link
      return group :: (← linked_groups source_id links)

/-- `[g for g in groups if g["pk"] in group_ids]` -/
def pick_groups (group_ids : List Key) : List Value → Except Raised (List Value)
  | [] => return []
  | group :: groups => do
    let pk ← row_key "pk" group
    let picked ← pick_groups group_ids groups
    return if pk ∈ group_ids then group :: picked else picked

/-- The groups of the LDAP source, all of which have been read. -/
def ldap_groups_of (group_ids : List Key) (groups : List Value) : Except Raised (List Value) := do
  let ldap_groups ← pick_groups group_ids groups
  let pks ← ldap_groups.mapM (row_key "pk")
  if pks.all (· ∈ group_ids) && group_ids.all (· ∈ pks) then return ldap_groups
  else syncError "LDAP group source connections reference unreadable groups"

/-- `f"krg-ldap:{source_id}:"` -/
def prefix_for (S : Sync) (source_id : Value) : String :=
  match source_id with
  | .str id => prefix_of id
  | value => prefix_of (S.format value)

/-- `group["name"] in relevant or (group.get("externalId") or "").startswith(prefix)` -/
def asked_about (relevant : List Key) (tag : String) (group : Value) : Except Raised Bool := do
  let name ← row_key "name" group
  if name ∈ relevant then return true
  else
    let external ← python (group.get "externalId")
    if external.truthy then
      match external with
      | .str id => return tag.toList.isPrefixOf id.toList
      | _ => python (.error .attributeError)
    else return false

/-- The loop that reads the members of the groups that the plan can ask about. -/
def read_members (S : Sync) (n : ℕ) (relevant : List Key) (tag : String)
    (memberships : List (Key × List Key)) : List Value → Talk (List (Key × List Key))
  | [] => return memberships
  | group :: groups => do
    if ← orRaise (asked_about relevant tag group) then
      let id ← orRaise (python (group.item "id"))
      let rows ← outline_list S.server "groups.memberships" (some "groupMemberships")
        [("id", id)] n
      let members ← orRaise (rows.mapM (row_key "userId"))
      let key ← orRaise (row_key "id" group)
      read_members S n relevant tag ((key, members) :: memberships) groups
    else read_members S n relevant tag memberships groups

/-- `sources/ldap/…/sync/status/`, checked: for the first or for the second time. -/
def read_status (S : Sync) (time : ℕ) : Talk Value := do
  let status ← request S.server (.get ("sources/ldap/" ++ S.source_slug ++ "/sync/status/"))
  orRaise (assert_sync_healthy S (S.now time) status)
  return status

/-- The reads of `reconcile`; a list is given `n` requests. -/
def read_snapshot (S : Sync) (n : ℕ) : Talk Snapshot := do
  let source ← request S.server (.get ("sources/ldap/" ++ S.source_slug ++ "/"))
  orRaise (check_source source)
  let before ← read_status S 0
  let source_id ← orRaise (python (source.item "pk"))
  let links ← authentik_list S.server "sources/group_connections/ldap/" n
  let group_ids ← orRaise (linked_groups source_id links)
  if group_ids.isEmpty then
    orRaise (syncError "No LDAP-backed groups found; refusing an empty directory snapshot")
  else
    let groups ← authentik_list S.server "core/groups/" n
    let ldap_groups ← orRaise (ldap_groups_of group_ids groups)
    let users ← authentik_list S.server "core/users/" n
    let ol_users ← outline_list S.server "users.list" none [] n
    let ol_groups ← outline_list S.server "groups.list" (some "groups") [] n
    let relevant ← orRaise (ldap_groups.mapM (row_key "name"))
    let memberships ← read_members S n relevant (prefix_for S source_id) [] ol_groups
    let after ← read_status S 1
    if before.differs after then orRaise (syncError "LDAP sync changed while reading; retry")
    else return ⟨source_id, ldap_groups, users, ol_groups, ol_users, memberships⟩

/-- The method of an operation. -/
def method : Operation → String
  | .update _ _ _ => "groups.update"
  | .create _ _ => "groups.create"
  | .add_user _ _ => "groups.add_user"
  | .remove_user _ _ => "groups.remove_user"

/-- The body of an operation's request; `created` has the ids of the groups that the plan names
by their external ids. -/
def body (created : List (String × Value)) : Operation → List (String × Value)
  | .update id name externalId =>
    [("id", (created.lookup id).getD (.str id)), ("name", .str name),
      ("externalId", .str externalId)]
  | .create name externalId => [("name", .str name), ("externalId", .str externalId)]
  | .add_user id userId => [("id", (created.lookup id).getD (.str id)), ("userId", .str userId)]
  | .remove_user id userId =>
    [("id", (created.lookup id).getD (.str id)), ("userId", .str userId)]

/-- `created` after an operation was answered. -/
def record (created : List (String × Value)) (operation : Operation) (result : Value) :
    Except Raised (List (String × Value)) :=
  match operation with
  | .create _ externalId => do
    let data ← python (result.item "data")
    return (externalId, ← python (data.item "id")) :: created
  | _ => return created

/-- The loop of `apply_plan`. -/
def apply_plan (server : List Request → Reply) (created : List (String × Value)) :
    List Operation → Talk Unit
  | [] => return ()
  | operation :: operations => do
    let result ← outline server (method operation) (body created operation)
    let created ← orRaise (record created operation result)
    apply_plan server created operations

/-- `plan_sync` on the rows that were read. -/
def plan (S : Sync) (snapshot : Snapshot) : Except Raised (List Operation) :=
  match snapshot.fields with
  | .ok fields =>
    (plan_sync S.strip S.casefold fields.source_id fields.ldap_groups fields.ak_users
      fields.outline_groups fields.outline_users fields.memberships).mapError raised
  | .error _ => S.stray snapshot

/-- `reconcile`; a list is given `n` requests. -/
def reconcile (S : Sync) (apply : Bool) (n : ℕ) : Talk (List Operation) := do
  let snapshot ← read_snapshot S n
  let operations ← orRaise (plan S snapshot)
  if apply then
    apply_plan S.server [] operations
    return operations
  else return operations

/-- A request that changes Outline. -/
def Request.Writes : Request → Prop
  | .get _ => False
  | .post method _ =>
    method ∈ ["groups.update", "groups.create", "groups.add_user", "groups.remove_user"]

/-! ### A snapshot that is read -/

/-- The members of every group that the plan can ask about have been read. -/
def Snapshot.Complete (S : Sync) (snapshot : Snapshot) : Prop :=
  ∃ relevant, snapshot.ldap_groups.mapM (row_key "name") = .ok relevant ∧
    ∀ group ∈ snapshot.outline_groups,
      asked_about relevant (prefix_for S snapshot.source_id) group = .ok true →
        ∃ key, row_key "id" group = .ok key ∧ key ∈ snapshot.memberships.map Prod.fst

variable {S : Sync}

/-- The loop that reads the members forgets none, and reads those of every group that is asked
about. -/
theorem read_members_rule {n : ℕ} {relevant : List Key} {tag : String} :
    ∀ (groups : List Value) (memberships : List (Key × List Key)),
      Triple (fun _ => True) (fun _ => True) (read_members S n relevant tag memberships groups)
        (fun all _ => (∀ key ∈ memberships.map Prod.fst, key ∈ all.map Prod.fst) ∧
          ∀ group ∈ groups, asked_about relevant tag group = .ok true →
            ∃ key, row_key "id" group = .ok key ∧ key ∈ all.map Prod.fst)
        (fun _ _ => True) := by
  intro groups
  induction groups with
  | nil =>
    exact fun memberships => Triple.pure fun _ _ _ => ⟨fun _ h => h, fun _ h => nomatch h⟩
  | cons group groups ih =>
    intro memberships
    refine Triple.bind Triple.orRaise_eq fun asked => ?_
    refine Triple.of_known fun hasked => ?_
    cases asked with
    | false =>
      refine (ih memberships).conseq (fun _ _ h => h) ?_ fun _ _ _ h => h
      rintro all w - ⟨hold, hgroups⟩
      refine ⟨hold, fun g hg hask => ?_⟩
      obtain rfl | hg := List.mem_cons.mp hg
      · exact nomatch hasked.symm.trans hask
      · exact hgroups g hg hask
    | true =>
      refine Triple.bind Triple.top fun id => ?_
      refine Triple.bind Triple.top fun rows => ?_
      refine Triple.bind Triple.top fun members => ?_
      refine Triple.bind Triple.orRaise_eq fun key => ?_
      refine Triple.of_known fun hkey => ?_
      refine (ih ((key, members) :: memberships)).conseq (fun _ _ h => h) ?_ fun _ _ _ h => h
      rintro all w - ⟨hold, hgroups⟩
      refine ⟨fun k hk => hold k (List.mem_cons_of_mem _ hk), fun g hg hask => ?_⟩
      obtain rfl | hg := List.mem_cons.mp hg
      · exact ⟨key, hkey, hold key List.mem_cons_self⟩
      · exact hgroups g hg hask

/-- **A snapshot that is read is complete.** -/
theorem read_snapshot_complete {n : ℕ} : Triple (fun _ => True) (fun _ => True)
    (read_snapshot S n) (fun snapshot _ => snapshot.Complete S) fun _ _ => True := by
  refine Triple.bind Triple.top fun source => ?_
  refine Triple.bind Triple.top fun _ => ?_
  refine Triple.bind Triple.top fun before => ?_
  refine Triple.bind Triple.top fun source_id => ?_
  refine Triple.bind Triple.top fun links => ?_
  refine Triple.bind Triple.top fun group_ids => ?_
  split_ifs
  · exact Triple.of_orRaise (fun _ _ h => nomatch h) fun _ _ _ _ _ => trivial
  refine Triple.bind Triple.top fun groups => ?_
  refine Triple.bind Triple.top fun ldap_groups => ?_
  refine Triple.bind Triple.top fun users => ?_
  refine Triple.bind Triple.top fun ol_users => ?_
  refine Triple.bind Triple.top fun ol_groups => ?_
  refine Triple.bind Triple.orRaise_eq fun relevant => ?_
  refine Triple.of_known fun hrelevant => ?_
  refine Triple.bind (read_members_rule ol_groups []) fun memberships => ?_
  refine Triple.of_known fun hmembers => ?_
  refine Triple.bind Triple.top fun after => ?_
  split_ifs
  · exact Triple.of_orRaise (fun _ _ h => nomatch h) fun _ _ _ _ _ => trivial
  · exact Triple.pure fun _ _ _ => ⟨relevant, hrelevant, hmembers.2⟩

/-! ### Rows that carry what the plan reads -/

theorem mem_of_mapM {α β ε : Type} {f : α → Except ε β} {xs : List α} :
    ∀ {ys : List β}, xs.mapM f = .ok ys →
      (∀ y ∈ ys, ∃ x ∈ xs, f x = .ok y) ∧ ∀ x ∈ xs, ∃ y ∈ ys, f x = .ok y := by
  induction xs with
  | nil =>
    intro ys h
    obtain rfl := Except.ok.inj h
    constructor
    · exact fun y hy => nomatch hy
    · exact fun x hx => nomatch hx
  | cons x xs ih =>
    intro ys h
    rw [List.mapM_cons] at h
    obtain ⟨y, hy, h⟩ := bind_ok.mp h
    obtain ⟨ys', hys, h⟩ := bind_ok.mp h
    obtain rfl := Except.ok.inj h
    obtain ⟨hleft, hright⟩ := ih hys
    constructor
    · rintro z hz
      obtain rfl | hz := List.mem_cons.mp hz
      · exact ⟨x, List.mem_cons_self, hy⟩
      · obtain ⟨x', hx', hf⟩ := hleft z hz
        exact ⟨x', List.mem_cons_of_mem _ hx', hf⟩
    · rintro z hz
      obtain rfl | hz := List.mem_cons.mp hz
      · exact ⟨y, List.mem_cons_self, hy⟩
      · obtain ⟨y', hy', hf⟩ := hright z hz
        exact ⟨y', List.mem_cons_of_mem _ hy', hf⟩

theorem as_text_ok {value : Value} {s : String} (h : as_text value = .ok s) : value = .str s := by
  cases value with
  | str s' => rw [show s' = s from Except.ok.inj h]
  | null => exact nomatch h
  | bool b => exact nomatch h
  | number x => exact nomatch h
  | list items => exact nomatch h
  | dict members => exact nomatch h

/-- A text is its own key. -/
theorem row_key_of_text {row : Value} {name s : String} (h : text row name = .ok s) :
    row_key name row = .ok (.str s) := by
  obtain ⟨value, hvalue, h⟩ := bind_ok.mp h
  unfold row_key
  rw [hvalue, as_text_ok h]
  rfl

theorem outline_group_ok {row : Value} {o : OutlineGroup} (h : outline_group row = .ok o) :
    text row "id" = .ok o.id ∧ text row "name" = .ok o.name ∧
      ∃ external, row.get "externalId" = .ok external ∧
        (external = .null ∧ o.externalId = none ∨
          ∃ s, external = .str s ∧ o.externalId = some s) := by
  obtain ⟨id, hid, h⟩ := bind_ok.mp h
  obtain ⟨name, hname, h⟩ := bind_ok.mp h
  obtain ⟨external, hexternal, h⟩ := bind_ok.mp h
  cases external with
  | null =>
    obtain rfl := Except.ok.inj h
    exact ⟨hid, hname, .null, hexternal, .inl ⟨rfl, rfl⟩⟩
  | str s =>
    obtain rfl := Except.ok.inj h
    exact ⟨hid, hname, .str s, hexternal, .inr ⟨s, rfl, rfl⟩⟩
  | bool b => exact nomatch h
  | number x => exact nomatch h
  | list items => exact nomatch h
  | dict members => exact nomatch h

/-- A group that the plan can ask about is one that `reconcile` has asked about. -/
theorem asked_about_of_covered {relevant : List Key} {tag : String} {row : Value}
    {o : OutlineGroup} (h : outline_group row = .ok o) (htag : tag ≠ "")
    (ho : Key.str o.name ∈ relevant ∨ tag.toList <+: o.external.toList) :
    asked_about relevant tag row = .ok true := by
  obtain ⟨-, hname, external, hexternal, hcases⟩ := outline_group_ok h
  unfold asked_about
  rw [row_key_of_text hname]
  show (if _ then _ else _ : Except Raised Bool) = _
  split_ifs with hmem
  · rfl
  have hbegins := ho.resolve_left hmem
  obtain ⟨-, hnone⟩ | ⟨s, rfl, hsome⟩ := hcases
  · -- without an external id there is no prefix
    rw [OutlineGroup.external, hnone] at hbegins
    have hnil : tag.toList = [] := List.prefix_nil.mp hbegins
    exact absurd (String.toList_eq_nil_iff.mp hnil) htag
  · rw [OutlineGroup.external, hsome] at hbegins
    have htruthy : (Value.str s).truthy = true := by
      refine decide_eq_true fun hs => htag ?_
      rw [hs] at hbegins
      exact String.toList_eq_nil_iff.mp (List.prefix_nil.mp hbegins)
    rw [hexternal]
    show (if (Value.str s).truthy = true then _ else _ : Except Raised Bool) = _
    rw [if_pos htruthy]
    exact congrArg Except.ok (List.isPrefixOf_iff_prefix.mpr hbegins)

theorem text_key_ok {key : Key} {s : String} (h : text_key key = .ok s) : key = .str s := by
  cases key with
  | str s' => rw [show s' = s from Except.ok.inj h]
  | null => exact nomatch h
  | number x => exact nomatch h

/-- The rows of a complete snapshot carry the members of every group that the plan asks about. -/
theorem Snapshot.Complete.covers {snapshot : Snapshot} (h : snapshot.Complete S)
    {fields : Fields} (hfields : snapshot.fields = .ok fields) :
    Covers fields.source_id fields.ldap_groups fields.outline_groups fields.memberships := by
  obtain ⟨relevant, hrelevant, hcomplete⟩ := h
  obtain ⟨source_id, hsource, hfields⟩ := bind_ok.mp hfields
  obtain ⟨ldap_groups, hldap, hfields⟩ := bind_ok.mp hfields
  obtain ⟨ak_users, -, hfields⟩ := bind_ok.mp hfields
  obtain ⟨outline_groups, houtline, hfields⟩ := bind_ok.mp hfields
  obtain ⟨outline_users, -, hfields⟩ := bind_ok.mp hfields
  obtain ⟨memberships, hmembers, hfields⟩ := bind_ok.mp hfields
  obtain rfl := Except.ok.inj hfields
  have hbegins : prefix_for S snapshot.source_id = prefix_of source_id := by
    rw [as_text_ok hsource]
    rfl
  intro o ho hasked
  obtain ⟨row, hrow, hgroup⟩ := (mem_of_mapM houtline).1 o ho
  have hasked : asked_about relevant (prefix_for S snapshot.source_id) row = .ok true := by
    rw [hbegins]
    refine asked_about_of_covered hgroup (by simp [prefix_of]) (hasked.imp_left fun hname => ?_)
    obtain ⟨g, hg, hgname⟩ := List.mem_map.mp hname
    obtain ⟨row', hrow', hgroup'⟩ := (mem_of_mapM hldap).1 g hg
    obtain ⟨pk, -, hgroup'⟩ := bind_ok.mp hgroup'
    obtain ⟨name, hname', hgroup'⟩ := bind_ok.mp hgroup'
    obtain rfl := Except.ok.inj hgroup'
    obtain ⟨key, hkey, hkeyrow⟩ := (mem_of_mapM hrelevant).2 row' hrow'
    rw [row_key_of_text hname'] at hkeyrow
    rwa [← hgname, Except.ok.inj hkeyrow]
  obtain ⟨key, hkey, hmem⟩ := hcomplete row hrow hasked
  rw [row_key_of_text (outline_group_ok hgroup).1] at hkey
  obtain ⟨entry, hentry, hfirst⟩ := List.mem_map.mp hmem
  obtain ⟨typed, htyped, hids⟩ := (mem_of_mapM hmembers).2 entry hentry
  obtain ⟨id, hid, hids⟩ := bind_ok.mp hids
  obtain ⟨users, -, hids⟩ := bind_ok.mp hids
  obtain rfl := Except.ok.inj hids
  have hkeyid : Key.str o.id = .str id := by
    rw [Except.ok.inj hkey, ← hfirst]
    exact text_key_ok hid
  rw [List.lookup_isSome_iff, Key.str.inj hkeyid]
  exact ⟨_, htyped, beq_self_eq_true _⟩

/-- On rows that carry what it reads, the plan of a complete snapshot raises nothing but
`SyncError`. -/
theorem plan_raises {snapshot : Snapshot} (h : snapshot.Complete S) {fields : Fields}
    (hfields : snapshot.fields = .ok fields) {e : Raised} (he : plan S snapshot = .error e) :
    ∃ text, e = .syncError text := by
  unfold plan at he
  rw [hfields] at he
  cases hplan : plan_sync S.strip S.casefold fields.source_id fields.ldap_groups fields.ak_users
      fields.outline_groups fields.outline_users fields.memberships with
  | ok operations =>
    simp only [hplan] at he
    exact nomatch he
  | error x =>
    simp only [hplan] at he
    obtain ⟨text, rfl⟩ := plan_sync_raises (h.covers hfields) x hplan
    exact ⟨text, (Except.error.inj he).symm⟩

/-! ### Nothing is written before the plan -/

/-- None of the requests writes. -/
def Reading (sent : List Request) : Prop := ∀ r ∈ sent, ¬ r.Writes

theorem request_reads {server : List Request → Reply} {r : Request} (h : ¬ r.Writes) :
    Throughout Reading (request server r) := by
  refine Throughout.call (fun _ hsent => hsent) fun sent hsent r' hr' => ?_
  obtain hr' | hr' := List.mem_append.mp hr'
  · exact hsent r' hr'
  · exact List.mem_singleton.mp hr' ▸ h

theorem authentik_list_reads {server : List Request → Reply} {path : String} {n : ℕ} :
    Throughout Reading (authentik_list server path n) := by
  refine Throughout.turns (fun s => ?_) n _
  exact (request_reads id).bind fun _ => Throughout.orRaise

theorem outline_list_reads {server : List Request → Reply} {method : String} {key : Option String}
    {body : List (String × Value)} {n : ℕ}
    (h : method ∉ ["groups.update", "groups.create", "groups.add_user", "groups.remove_user"]) :
    Throughout Reading (outline_list server method key body n) := by
  refine Throughout.turns (fun s => ?_) n _
  refine Throughout.bind ?_ fun _ => Throughout.orRaise
  exact (request_reads (r := .post method (paged body s.offset)) h).bind fun _ =>
    Throughout.orRaise

theorem read_members_reads {n : ℕ} {relevant : List Key} {tag : String} :
    ∀ (groups : List Value) (memberships : List (Key × List Key)),
      Throughout Reading (read_members S n relevant tag memberships groups) := by
  intro groups
  induction groups with
  | nil => exact fun _ => Throughout.pure
  | cons group groups ih =>
    intro memberships
    refine Throughout.orRaise.bind fun asked => ?_
    cases asked with
    | false => exact ih memberships
    | true =>
      refine Throughout.orRaise.bind fun id => ?_
      refine (outline_list_reads (by decide)).bind fun rows => ?_
      refine Throughout.orRaise.bind fun members => ?_
      exact Throughout.orRaise.bind fun key => ih _

theorem read_status_reads {time : ℕ} : Throughout Reading (read_status S time) :=
  (request_reads id).bind fun _ => Throughout.orRaise.bind fun _ => Throughout.pure

/-- The reads of `reconcile` write nothing. -/
theorem read_snapshot_reads {n : ℕ} : Throughout Reading (read_snapshot S n) := by
  refine (request_reads id).bind fun source => ?_
  refine Throughout.orRaise.bind fun _ => ?_
  refine read_status_reads.bind fun before => ?_
  refine Throughout.orRaise.bind fun source_id => ?_
  refine authentik_list_reads.bind fun links => ?_
  refine Throughout.orRaise.bind fun group_ids => ?_
  split_ifs
  · exact Throughout.orRaise
  refine authentik_list_reads.bind fun groups => ?_
  refine Throughout.orRaise.bind fun ldap_groups => ?_
  refine authentik_list_reads.bind fun users => ?_
  refine (outline_list_reads (by decide)).bind fun ol_users => ?_
  refine (outline_list_reads (by decide)).bind fun ol_groups => ?_
  refine Throughout.orRaise.bind fun relevant => ?_
  refine (read_members_reads _ _).bind fun memberships => ?_
  refine read_status_reads.bind fun after => ?_
  split_ifs
  · exact Throughout.orRaise
  · exact Throughout.pure

/-- The requests of a run: none of them writes; or the run applies its plan, and the first of
them have read the snapshot and write nothing, and the whole plan of that snapshot is there. -/
def PlannedFirst (S : Sync) (apply : Bool) (n : ℕ) (sent : List Request) : Prop :=
  Reading sent ∨ apply = true ∧ ∃ snapshot operations t,
    outcomeOf (read_snapshot S n) [] = (.ok snapshot, t) ∧ Reading t.now ∧
      plan S snapshot = .ok operations ∧ t.now <+: sent

theorem apply_plan_extends {server : List Request → Reply} {first : List Request} :
    ∀ (operations : List Operation) (created : List (String × Value)),
      Triple (fun _ => True) (first <+: ·) (apply_plan server created operations)
        (fun _ w => first <+: w) (fun _ w => first <+: w) := by
  intro operations
  induction operations with
  | nil => exact fun _ => Triple.pure fun _ _ h => h
  | cons operation operations ih =>
    intro created
    have hanswer : Triple (fun _ => True) (first <+: ·)
        (outline server (method operation) (body created operation))
        (fun _ w => first <+: w) (fun _ w => first <+: w) := by
      refine Triple.of_each fun w hw => outline_rule.conseq (fun _ _ h => h) ?_ ?_
      · rintro result w' - ⟨rfl, -⟩
        exact hw.trans (List.prefix_append _ _)
      · rintro e w' - ⟨rfl, -⟩
        exact hw.trans (List.prefix_append _ _)
    refine Triple.bind hanswer fun result => ?_
    refine Triple.bind (Q := fun _ w => first <+: w) ?_ fun created => ih created
    exact Triple.of_orRaise (fun _ _ _ _ h => h) fun _ _ _ _ h => h

/-- **No write before the plan.** -/
theorem reconcile_planned_first (apply : Bool) (n : ℕ) :
    PlannedFirst S apply n (outcomeOf (reconcile S apply n) []).2.now := by
  have hreads := Throughout.of_end (read_snapshot_reads (S := S) (n := n))
    (s := []) fun _ h => nomatch h
  refine outcomeOf_bind (R := PlannedFirst S apply n) ?_ ?_
  · intro e t ht
    rw [ht] at hreads
    exact .inl hreads
  · intro snapshot t ht
    rw [ht] at hreads
    refine Triple.bind (Q := fun operations w => plan S snapshot = .ok operations ∧ w = t.now)
      (Triple.of_orRaise (fun _ _ h _ hw => ⟨h, hw⟩) ?_) fun operations => ?_
    · rintro e w - - rfl
      exact .inl hreads
    refine Triple.of_fact fun hplan => ?_
    cases apply with
    | false =>
      refine Triple.pure fun w _ hw => .inl ?_
      rw [hw]
      exact hreads
    | true =>
      have hfirst : ∀ w, t.now <+: w → PlannedFirst S true n w := fun w hw =>
        .inr ⟨rfl, snapshot, operations, t, ht, hreads, hplan, hw⟩
      refine Triple.bind (Q := fun _ w => t.now <+: w) ?_ fun _ => ?_
      · refine (apply_plan_extends operations []).conseq ?_ (fun _ _ _ h => h) ?_
        · rintro w - rfl
          exact List.prefix_rfl
        · exact fun _ w _ hw => hfirst w hw
      · exact Triple.pure fun w _ hw => hfirst w hw

/-- **A sync fails closed.**  Whatever the server answers: a read whose first answer does not say
that there are infinitely many rows or pages ends within as many requests as it says, and raises
or returns as many rows as it says, each with a key of its own; on a snapshot that was read, of
rows that carry what the plan reads, the plan raises nothing but `SyncError`; and nothing is
written before the whole plan is there. -/
theorem sync_fails_closed (S : Sync) :
    (∀ method key body sent total,
      (S.server (sent ++ [.post method (paged body 0)])).total method = total →
      total.bind Value.number? ≠ some .infinity →
      EndsWithin (most total) sent
        (fun rows => Distinct "id" rows ∧ total.bind Value.number? = some (.finite rows.length))
        (outline_list S.server method key body)) ∧
    (∀ path sent totals,
      (S.server (sent ++ [authentik_request path 1])).totals = totals →
      (totals.map Prod.fst).bind Value.number? ∉ [some .infinity, some .nan] →
      EndsWithin (most (totals.map Prod.fst)) sent
        (fun rows => Distinct "pk" rows ∧
          (totals.map Prod.snd).bind Value.number? = some (.finite rows.length))
        (authentik_list S.server path)) ∧
    (∀ n snapshot fields, (outcomeOf (read_snapshot S n) []).1 = .ok snapshot →
      snapshot.fields = .ok fields →
      ∀ e, plan S snapshot = .error e → ∃ text, e = .syncError text) ∧
    ∀ apply n, PlannedFirst S apply n (outcomeOf (reconcile S apply n) []).2.now := by
  refine ⟨?_, ?_, ?_, fun apply n => reconcile_planned_first apply n⟩
  · intro method key body sent total hfirst hfinite
    exact outline_list_ends hfirst hfinite
  · intro path sent totals hfirst hfinite
    exact authentik_list_ends hfirst hfinite
  · intro n snapshot fields hread hfields e he
    refine plan_raises ?_ hfields he
    exact Triple.of_answer read_snapshot_complete trivial trivial (by rw [hread]; rfl)

/-! ### A total that is infinite -/

/-- A server of Outline that says that there are infinitely many rows, and always has another. -/
def endless_outline (sent : List Request) : Reply :=
  .body (.dict [("ok", .bool true), ("pagination", .dict [("total", .number .infinity)]),
    ("data", .list [.dict [("id", .nat sent.length)]])])

/-- A server of Authentik that does. -/
def endless_authentik (sent : List Request) : Reply :=
  .body (.dict [("pagination", .dict [("next", .bool true), ("total_pages", .number .infinity),
      ("count", .nat 1)]),
    ("results", .list [.dict [("pk", .nat sent.length)]])])

/-- The keys of the rows that such a server has sent. -/
def endless_seen (n : ℕ) : List Key :=
  (List.range n).map fun k => .number (.finite ((k + 1 : ℕ) : ℚ))

theorem endless_new (n : ℕ) : Key.number (.finite ((n + 1 : ℕ) : ℚ)) ∉ endless_seen n := by
  intro h
  obtain ⟨k, hk, heq⟩ := List.mem_map.mp h
  have hkn : ((k + 1 : ℕ) : ℚ) = ((n + 1 : ℕ) : ℚ) := Number.finite.inj (Key.number.inj heq)
  have hkn := Nat.cast_injective hkn
  have hlt := List.mem_range.mp hk
  omega

theorem endless_seen_succ (n : ℕ) :
    endless_seen n ++ [Key.number (.finite ((n + 1 : ℕ) : ℚ))] = endless_seen (n + 1) := by
  rw [endless_seen, endless_seen, List.range_succ, List.map_append]
  rfl

/-- A row whose key is the number of requests so far has not been seen. -/
theorem endless_see_rows {name text : String} (n : ℕ) :
    see_rows name text (endless_seen n) [.dict [(name, .nat (n + 1))]] =
      .ok (endless_seen (n + 1)) := by
  have hkey : row_key name (.dict [(name, .nat (n + 1))]) =
      .ok (.number (.finite ((n + 1 : ℕ) : ℚ))) := by
    have hitem : (Value.dict [(name, .nat (n + 1))]).item name = .ok (.nat (n + 1)) := by
      simp [Value.item]
    unfold row_key
    rw [hitem]
    rfl
  rw [see_rows, hkey]
  show (if _ then _ else see_rows name text _ [] : Except Raised (List Key)) = _
  rw [if_neg (endless_new n), see_rows, endless_seen_succ]

theorem endless_outline_page {s : OutlineReading} {n : ℕ}
    (htotal : s.totalOr (.number .infinity) = .number .infinity) (hseen : s.seen = endless_seen n) :
    outline_page none s (.dict [("ok", .bool true),
        ("pagination", .dict [("total", .number .infinity)]),
        ("data", .list [.dict [("id", .nat (n + 1))]])]) =
      .ok (.inr ⟨.number .infinity, s.offset + 1, s.rows ++ [.dict [("id", .nat (n + 1))]],
        endless_seen (n + 1)⟩) := by
  unfold outline_page
  rw [show outline_total _ = .ok (.number .infinity) from rfl]
  show (if Value.differs _ (s.totalOr _) = true then _ else _ : Except Raised _) = _
  rw [htotal, if_neg (by decide)]
  rw [show outline_rows none _ = .ok (.list [.dict [("id", .nat (n + 1))]]) from rfl]
  show (see_rows _ _ s.seen _ >>= _ : Except Raised _) = _
  rw [hseen, endless_see_rows]
  rfl

theorem endless_authentik_page {s : AuthentikReading} {n : ℕ}
    (htotals : s.totalsOr (.number .infinity, .nat 1) = (.number .infinity, .nat 1))
    (hseen : s.seen = endless_seen n) :
    authentik_page s (.dict [("pagination", .dict [("next", .bool true),
          ("total_pages", .number .infinity), ("count", .nat 1)]),
        ("results", .list [.dict [("pk", .nat (n + 1))]])]) =
      .ok (.inr ⟨s.page + 1, .number .infinity, .nat 1, s.rows ++ [.dict [("pk", .nat (n + 1))]],
        endless_seen (n + 1)⟩) := by
  unfold authentik_page
  rw [show authentik_totals _ = .ok (.number .infinity, .nat 1) from rfl]
  show (if (!(Value.same _ (s.totalsOr _).1 && Value.same _ (s.totalsOr _).2)) = true then _
    else _ : Except Raised _) = _
  rw [htotals, if_neg (by decide)]
  show (see_rows _ _ s.seen _ >>= _ : Except Raised _) = _
  rw [hseen, endless_see_rows]
  rfl

theorem length_snoc (w : List Request) (r : Request) : (w ++ [r]).length = w.length + 1 :=
  List.length_append

/-- The loop of `outline_list` has read one row with each of the requests. -/
def OutlineReading.Endless (s : OutlineReading) (w : List Request) : Prop :=
  (s.total = .null ∨ s.total = .number .infinity) ∧ s.seen = endless_seen w.length

theorem endless_outline_turn (s : OutlineReading) : Triple (fun _ => True) s.Endless
    (outline_turn endless_outline "users.list" none [] s)
    (fun r w => ∃ s', r = .inr s' ∧ s'.Endless w) (fun _ _ => False) := by
  refine Triple.of_each ?_
  rintro w ⟨htotal, hseen⟩
  have hpage := endless_outline_page (s := s) (n := w.length)
    (by obtain h | h := htotal <;> rw [OutlineReading.totalOr, h]) hseen
  refine Triple.bind (outline_rule.except ?_) fun result => Triple.of_orRaise ?_ ?_
  · rintro e w' - ⟨rfl, x, hraise, -⟩
    exact nomatch hraise
  · rintro r w' hr - ⟨rfl, hresult⟩
    obtain rfl := Except.ok.inj hresult
    rw [length_snoc, hpage] at hr
    obtain rfl := Except.ok.inj hr
    refine ⟨_, rfl, .inr rfl, ?_⟩
    rw [length_snoc]
  · rintro e w' hr - ⟨rfl, hresult⟩
    obtain rfl := Except.ok.inj hresult
    rw [length_snoc, hpage] at hr
    exact nomatch hr

/-- So has the loop of `authentik_list`. -/
def AuthentikReading.Endless (s : AuthentikReading) (w : List Request) : Prop :=
  (s.pages = .null ∨ s.pages = .number .infinity ∧ s.count = .nat 1) ∧
    s.seen = endless_seen w.length

theorem endless_authentik_turn (s : AuthentikReading) : Triple (fun _ => True) s.Endless
    (authentik_turn endless_authentik "core/users/" s)
    (fun r w => ∃ s', r = .inr s' ∧ s'.Endless w) (fun _ _ => False) := by
  refine Triple.of_each ?_
  rintro w ⟨htotals, hseen⟩
  have hpage := endless_authentik_page (s := s) (n := w.length)
    (by obtain h | ⟨h, h'⟩ := htotals <;> simp [AuthentikReading.totalsOr, *]) hseen
  refine Triple.bind (request_rule.except ?_) fun result => Triple.of_orRaise ?_ ?_
  · rintro e w' - ⟨rfl, x, hraise, -⟩
    exact nomatch hraise
  · rintro r w' hr - ⟨rfl, hresult⟩
    obtain rfl := Except.ok.inj hresult
    rw [length_snoc, hpage] at hr
    obtain rfl := Except.ok.inj hr
    refine ⟨_, rfl, .inr ⟨rfl, rfl⟩, ?_⟩
    rw [length_snoc]
  · rintro e w' hr - ⟨rfl, hresult⟩
    obtain rfl := Except.ok.inj hresult
    rw [length_snoc, hpage] at hr
    exact nomatch hr

/-- **A read may not end.**  Where the first total is infinite, both reads go on as long as the
server has another row. -/
theorem endless_reads :
    (∀ n, (outcomeOf (outline_list endless_outline "users.list" none [] n) []).1 =
      .error .unfinished) ∧
    ∀ n, (outcomeOf (authentik_list endless_authentik "core/users/" n) []).1 =
      .error .unfinished := by
  have hunfinished : ∀ {x : Talk (List Value)} {P : List Request → Prop},
      Triple (fun _ => True) P x (fun _ _ => False) (fun e _ => e = .unfinished) → P [] →
        (outcomeOf x []).1 = .error .unfinished := by
    intro x P h hP
    have hend := (h.of_start trivial hP).2
    cases hx : outcomeOf x [] with
    | mk r t =>
      rw [hx] at hend
      cases r with
      | ok rows => exact hend.elim
      | error e => exact congrArg Except.error hend
  constructor
  · intro n
    refine hunfinished (Triple.of_turns_unfinished endless_outline_turn n {}) ?_
    exact ⟨.inl rfl, rfl⟩
  · intro n
    refine hunfinished (Triple.of_turns_unfinished endless_authentik_turn n {}) ?_
    exact ⟨.inl rfl, rfl⟩

end GroupSync.API
