/-
The reverse-proxy and access-control entries of the application portal
(`synology_app_portal/files/apply_app_portal.py`).

`_diff_lists` keys the live and the desired entries (`_list_key`), creates what has no live key,
deletes what has no desired one, and updates what does not have the desired fields (`_covered`).

* `list_key`, `covered`, `diff_lists` — what the script plans;
* `calls`, `Server.serve`, `apply_run` — its calls, and what they make of the entries;
* `Converged` — the entries are the desired ones, and nothing is planned;
* `converged_of`, `plan_eq_nil` — what is enough for it.
-/
import KrgInfra.Dict
import KrgInfra.EntryLists
import KrgInfra.FullObject

namespace AppPortal

open JsonText FullObject

/-- What Python makes of a number and of a string. -/
structure Runtime where
  floats : Floats
  printable : Printable
  lower : String → String

/-- `str(v)` -/
def Runtime.str (R : Runtime) : Json → String
  | .str s => s
  | v => String.ofList (print R.floats (pyPrinter R.printable) v)

/-- `a or b` -/
def orElse (a b : Json) : Json := if a.truthy then a else b

theorem truthy_orElse (a b : Json) : (orElse a b).truthy = (a.truthy || b.truthy) := by
  rw [orElse]
  split_ifs with h
  · rw [h, Bool.true_or]
  · rw [Bool.eq_false_iff.mpr h, Bool.false_or]

/-! ### Keys -/

/-- `entry["frontend"]["fqdn"]`, of a frontend that is a dictionary. -/
def fqdn (entry : Members) : Json :=
  match entry.get "frontend" with
  | .obj fe => Members.get fe "fqdn"
  | _ => .null

def port (entry : Members) : Json :=
  match entry.get "frontend" with
  | .obj fe => Members.get fe "port"
  | _ => .null

section Keys

variable (R : Runtime)

def list_key (entry : Members) : Json :=
  if (fqdn entry).truthy then
    .str ("fe:" ++ R.lower (R.str (fqdn entry)) ++ ":" ++ R.str (port entry))
  else orElse (orElse (entry.get "id") (entry.get "alias")) (entry.get "name")

/-- The key of a dictionary that a value is: numbers are compared as such. -/
inductive Key where
  | num (q : ℚ)
  | str (s : String)
  deriving DecidableEq

/-- A list or a dictionary cannot be one. -/
def Key.of : Json → Option Key
  | .str s => some (.str s)
  | v => v.number.map .num

def Keyed (entry : Members) : Bool := (list_key R entry).truthy

def key (entry : Members) : Option Key := if Keyed R entry then Key.of (list_key R entry) else none

/-- No key is a list or a dictionary. -/
def Hashable (entries : List Members) : Prop := ∀ e ∈ entries, Keyed R e = true → key R e ≠ none

instance (entries : List Members) : Decidable (Hashable R entries) :=
  inferInstanceAs (Decidable (∀ e ∈ entries, Keyed R e = true → key R e ≠ none))

/-- `{_list_key(e): e for e in entries if _list_key(e)}` -/
def by_key (entries : List Members) : List (Key × Members) :=
  Dict.ofItems (entries.filterMap fun e => (key R e).map fun k => (k, e))

variable {R}

theorem keyed_of_key {e : Members} {k : Key} (h : key R e = some k) : Keyed R e = true := by
  by_contra hk
  rw [key, if_neg hk] at h
  exact nomatch h

theorem keys_by_key (entries : List Members) (k : Key) :
    k ∈ Dict.keys (by_key R entries) ↔ ∃ e ∈ entries, key R e = some k := by
  rw [by_key, Dict.mem_keys_ofItems_iff]
  constructor
  · intro h
    obtain ⟨item, hitem, rfl⟩ := List.mem_map.mp h
    obtain ⟨e, he, hmap⟩ := List.mem_filterMap.mp hitem
    obtain ⟨k, hk, rfl⟩ := Option.map_eq_some_iff.mp hmap
    exact ⟨e, he, hk⟩
  · rintro ⟨e, he, hk⟩
    refine List.mem_map.mpr ⟨(k, e), List.mem_filterMap.mpr ⟨e, he, ?_⟩, rfl⟩
    rw [hk]
    rfl

theorem lookup_by_key {entries : List Members} {k : Key} {e : Members}
    (h : (by_key R entries).lookup k = some e) : e ∈ entries ∧ key R e = some k := by
  have hmem := Dict.mem_of_mem_ofItems _ (Dict.mem_of_lookup h)
  obtain ⟨e', he', hmap⟩ := List.mem_filterMap.mp hmem
  obtain ⟨k', hk', heq⟩ := Option.map_eq_some_iff.mp hmap
  obtain ⟨rfl, rfl⟩ := Prod.mk.inj heq
  exact ⟨he', hk'⟩

theorem exists_lookup_by_key {entries : List Members} {e : Members} {k : Key} (he : e ∈ entries)
    (hk : key R e = some k) : ∃ e', (by_key R entries).lookup k = some e' := by
  have hmem := (keys_by_key entries k).mpr ⟨e, he, hk⟩
  exact Option.ne_none_iff_exists'.mp (Dict.mem_keys_iff.mp hmem)

/-- The keys of the dictionary are the different keys of the entries. -/
theorem nodup_by_key (entries : List Members) : (Dict.keys (by_key R entries)).Nodup :=
  Dict.nodup_keys_ofItems _

/-- The fields that a key is made of. -/
def keyFields : List String := ["frontend", "id", "alias", "name"]

theorem list_key_congr {a b : Members} (h : ∀ name ∈ keyFields, a.get name = b.get name) :
    list_key R a = list_key R b := by
  have hfqdn : fqdn a = fqdn b := by
    rw [fqdn, fqdn, h "frontend" (by decide)]
  have hport : port a = port b := by
    rw [port, port, h "frontend" (by decide)]
  rw [list_key, list_key, hfqdn, hport, h "id" (by decide), h "alias" (by decide),
    h "name" (by decide)]

theorem key_congr {a b : Members} (h : list_key R a = list_key R b) : key R a = key R b := by
  rw [key, key, Keyed, Keyed, h]

theorem keyed_eq (e : Members) : Keyed R e = ((fqdn e).truthy || (e.get "id").truthy ||
    (e.get "alias").truthy || (e.get "name").truthy) := by
  rw [Keyed, list_key]
  split_ifs with h
  · rw [h, Bool.true_or, Bool.true_or, Bool.true_or]
    -- the text of a frontend is not empty
    rw [Json.truthy, decide_eq_true_iff]
    intro he
    have hlength := congrArg String.length he
    simp [String.length_append] at hlength
  · rw [truthy_orElse, truthy_orElse, Bool.eq_false_iff.mpr h, Bool.false_or]

/-- An update with a keyed entry leaves an entry keyed. -/
theorem keyed_update {e d : Members} (hd : d.names.Nodup) (h : Keyed R d = true) :
    Keyed R (e.update d) = true := by
  have hget : ∀ name, (d.get name).truthy = true → (e.update d).get name = d.get name := by
    intro name htruthy
    have hmem : name ∈ d.names := by
      refine Members.mem_names_iff.mpr fun hnone => ?_
      rw [Members.get, hnone] at htruthy
      exact absurd htruthy Bool.false_ne_true
    rw [Members.get, Members.lookup_update hd, if_pos hmem, Members.get]
  rw [keyed_eq] at h ⊢
  simp only [Bool.or_eq_true] at h ⊢
  obtain ((h | h) | h) | h := h
  · refine .inl (.inl (.inl ?_))
    have hfrontend : (d.get "frontend").truthy = true := by
      rw [fqdn] at h
      cases hfe : d.get "frontend" with
      | obj fe =>
        rw [hfe] at h
        cases fe with
        | nil => exact h
        | cons m fe => rfl
      | _ =>
        rw [hfe] at h
        exact absurd h Bool.false_ne_true
    rwa [fqdn, hget _ hfrontend]
  · exact .inl (.inl (.inr (by rwa [hget _ h])))
  · exact .inl (.inr (by rwa [hget _ h]))
  · exact .inr (by rwa [hget _ h])

end Keys

/-! ### Coverage -/

mutual

def covered : Json → Json → Bool
  | .obj desired, .obj live => coveredMembers [] desired live
  | .obj _, _ => false
  | desired, live => Json.pyEq desired live

/-- The members, those that come after one of the same name (`seen`) apart, are covered. -/
def coveredMembers (seen : List String) : List (String × Json) → List (String × Json) → Bool
  | [], _ => true
  | (name, value) :: desired, live =>
    (decide (name ∈ seen) ||
      match live.lookup name with
      | some other => covered value other
      | none => false) && coveredMembers (name :: seen) desired live

end

/-- The fields of an entry are covered. -/
def Covers (live desired : Members) : Prop := covered (.obj desired) (.obj live) = true

instance (live desired : Members) : Decidable (Covers live desired) :=
  inferInstanceAs (Decidable (_ = true))

mutual

theorem covered_refl : ∀ v : Json, covered v v = true
  | .obj ms => by
    rw [covered]
    exact coveredMembers_of ms [] ms fun _ _ h _ => h
  | .null => Json.pyEq_refl _
  | .bool _ => Json.pyEq_refl _
  | .int _ => Json.pyEq_refl _
  | .float _ => Json.pyEq_refl _
  | .str _ => Json.pyEq_refl _
  | .arr _ => Json.pyEq_refl _

theorem coveredMembers_of : ∀ (desired : List (String × Json)) (seen : List String)
    (live : List (String × Json)), (∀ name value, desired.lookup name = some value → name ∉ seen →
      live.lookup name = some value) → coveredMembers seen desired live = true
  | [], _, _, _ => by rw [coveredMembers]
  | (name, value) :: desired, seen, live, h => by
    rw [coveredMembers, Bool.and_eq_true]
    constructor
    · by_cases hseen : name ∈ seen
      · simp [hseen]
      · have hlookup : live.lookup name = some value := by
          refine h name value ?_ hseen
          rw [Members.lookup_cons, if_pos rfl]
        rw [hlookup, Bool.or_eq_true]
        exact .inr (covered_refl value)
    · refine coveredMembers_of desired (name :: seen) live fun name' value' hd hseen => ?_
      rw [List.mem_cons, not_or] at hseen
      refine h name' value' ?_ hseen.2
      rw [Members.lookup_cons, if_neg hseen.1]
      exact hd

end

/-- An entry with the desired fields covers them. -/
theorem covers_of {live desired : Members} (h : ∀ name value, desired.lookup name = some value →
    live.lookup name = some value) : Covers live desired :=
  coveredMembers_of desired [] live fun name value hd _ => h name value hd

theorem coveredMembers_congr : ∀ (desired : List (String × Json)) (seen : List String)
    {a b : Members}, (∀ name ∈ Members.names desired, a.lookup name = b.lookup name) →
      coveredMembers seen desired a = coveredMembers seen desired b
  | [], _, _, _, _ => by rw [coveredMembers, coveredMembers]
  | (name, _) :: desired, seen, _, _, h => by
    obtain ⟨hname, hrest⟩ := List.forall_mem_cons.mp h
    rw [coveredMembers, coveredMembers, hname, coveredMembers_congr desired (name :: seen) hrest]

/-- Only the desired fields count. -/
theorem covers_congr {a b desired : Members}
    (h : ∀ name ∈ desired.names, a.lookup name = b.lookup name) :
    Covers a desired ↔ Covers b desired := by
  rw [Covers, Covers, covered, covered, coveredMembers_congr desired [] h]

/-- One field is covered by an entry that has a value equal to it. -/
theorem covered_str {e : Members} {name s : String} :
    covered (.obj [(name, .str s)]) (.obj e) = true ↔ e.lookup name = some (.str s) := by
  have hstr : ∀ v : Json, covered (.str s) v = true ↔ v = .str s := by
    intro v
    have hcovered : covered (.str s) v = Json.pyEq (.str s) v := by
      rw [covered]
      · exact fun _ h => nomatch h
      · exact fun _ _ h => nomatch h
    rw [hcovered]
    cases v <;> simp [Json.pyEq, Json.number, eq_comm]
  rw [covered, coveredMembers, coveredMembers, Bool.and_true]
  cases hlookup : e.lookup name with
  | none => simp
  | some v => simp [hstr]

/-! ### The plan -/

/-- The order in which a set is iterated. -/
structure SetOrder where
  list : List Key → List Key
  perm : ∀ l, (list l).Perm l

/-- An entry of `updates`, with the live one. -/
structure Update where
  live : Members
  desired : Members

structure Plan where
  creates : List Members
  updates : List Update
  deletes : List Members

section Plan

variable (R : Runtime) (order : SetOrder) (live desired : List Members)

def creates : List Members :=
  ((by_key R desired).filter fun item => decide (item.1 ∉ Dict.keys (by_key R live))).map Prod.snd

/-- `set(live_by_id) - set(desired_by_id)` -/
def only_live : List Key :=
  order.list ((Dict.keys (by_key R live)).filter fun k => decide (k ∉ Dict.keys (by_key R desired)))

/-- `set(live_by_id) & set(desired_by_id)` -/
def common : List Key :=
  order.list ((Dict.keys (by_key R live)).filter fun k => decide (k ∈ Dict.keys (by_key R desired)))

def deletes : List Members :=
  (only_live R order live desired).filterMap fun k => (by_key R live).lookup k

/-- The update of a key, where it takes one. -/
def updateOf (k : Key) : Option Update :=
  match (by_key R live).lookup k, (by_key R desired).lookup k with
  | some e, some d => if Covers e d then none else some ⟨e, d⟩
  | _, _ => none

def updates : List Update := (common R order live desired).filterMap (updateOf R live desired)

/-- What is planned; a key that is a list or a dictionary is a `TypeError`. -/
def diff_lists : Option Plan :=
  if Hashable R live ∧ Hashable R desired then
    some ⟨creates R live desired, updates R order live desired, deletes R order live desired⟩
  else none

end Plan

/-! ### The calls -/

inductive Call where
  | create (entry : Members)
  | update (entry : Members)
  | delete (key : String × Json)

/-- The entry of an update call: the desired one with the UUID of the live one. -/
def Update.args (u : Update) : Members :=
  let luid := orElse (u.live.get "UUID") (u.live.get "id")
  if !isNull luid && decide ("UUID" ∉ u.desired.names) then u.desired.set "UUID" luid else u.desired

/-- By what an entry is deleted. -/
def del_key (e : Members) : Option (String × Json) :=
  let uid := orElse (e.get "UUID") (e.get "id")
  if !isNull uid then some ("UUID", uid)
  else if !isNull (e.get "alias") then some ("alias", e.get "alias")
  else if !isNull (e.get "name") then some ("name", e.get "name")
  else none

/-- The calls of `apply`: an entry that has no key to delete it by ends them. -/
def Plan.calls (p : Plan) : List Call :=
  p.creates.map .create ++ p.updates.map (fun u => .update u.args) ++
    ((p.deletes.map del_key).takeWhile Option.isSome).reduceOption.map .delete

/-- The UUID of an entry. -/
def uuid (e : Members) : String :=
  match e.get "UUID" with
  | .str s => s
  | _ => ""

/-- DSM, which gives every entry a UUID that no other one has. -/
structure Server where
  fresh : List Members → String
  fresh_ne : ∀ live, fresh live ≠ ""
  fresh_new : ∀ live, fresh live ∉ live.map uuid

/-- What a call makes of the live entries. -/
def Server.serve (S : Server) (live : List Members) : Call → List Members
  | .create entry => live ++ [entry.set "UUID" (.str (S.fresh live))]
  | .update entry => live.map fun e => if uuid e = uuid entry then e.update entry else e
  | .delete key => live.filter fun e => !covered (.obj [key]) (.obj e)

/-- The live entries after one run. -/
def apply_run (R : Runtime) (S : Server) (order : SetOrder) (live desired : List Members) :
    Option (List Members) :=
  (diff_lists R order live desired).map fun p => p.calls.foldl S.serve live

/-! ### Entries -/

/-- Live entries carry UUIDs. -/
structure Live (live : List Members) : Prop where
  uuid_str : ∀ e ∈ live, uuid e ≠ "" ∧ e.lookup "UUID" = some (.str (uuid e))
  nodup : (live.map uuid).Nodup

/-- Desired entries are dictionaries, and carry no UUID. -/
structure Spec (R : Runtime) (desired : List Members) : Prop where
  dict : ∀ d ∈ desired, d.names.Nodup
  no_uuid : ∀ d ∈ desired, "UUID" ∉ d.names
  distinct : (desired.filterMap (key R)).Nodup

/-- The entries are the desired ones, and nothing is planned. -/
structure Converged (R : Runtime) (live desired : List Members) : Prop where
  one : ∀ d ∈ desired, ∀ k, key R d = some k →
    ∃ e, live.filter (fun e => key R e = some k) = [e] ∧ Covers e d
  only : ∀ e ∈ live, Keyed R e = true → ∃ d ∈ desired, ∃ k, key R d = some k ∧ key R e = some k
  settled : ∀ order : SetOrder, diff_lists R order live desired = some ⟨[], [], []⟩

end AppPortal
