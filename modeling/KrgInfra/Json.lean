/-
JSON documents.

What jq, Python's `json` and a YAML loader make of a document: numbers are kept exactly, and
the members of an object stand in the order of the text.  As a Python dictionary an object
has the first of two members of one name; one that is built member by member (`dictOf`) has
no two.

* `Json` — a document;
* `Members.get`, `Members.set`, `Members.update`, `dictOf` — dictionaries;
* `Json.truthy`, `pyEq` — what Python takes a value for in a condition, and `==`.
-/
import Mathlib.Data.Rat.Defs
import Mathlib.Data.List.Nodup

/-- A JSON document. -/
inductive Json where
  | null
  | bool (b : Bool)
  | int (n : ℤ)
  | float (q : ℚ)
  | str (s : String)
  | arr (items : List Json)
  | obj (members : List (String × Json))

/-- The members of an object. -/
abbrev Members : Type := List (String × Json)

namespace Members

/-- `.name`, where the object has it; `null` where it has not. -/
def get (members : Members) (name : String) : Json := (members.lookup name).getD .null

/-- `members[name] = value`: a new name comes last. -/
def set : Members → String → Json → Members
  | [], name, value => [(name, value)]
  | (other, old) :: members, name, value =>
    if other = name then (other, value) :: members else (other, old) :: set members name value

/-- `for name, value in changes.items(): members[name] = value` -/
def update (members changes : Members) : Members :=
  changes.foldl (fun members change => members.set change.1 change.2) members

/-- The names of the members. -/
def names (members : Members) : List String := members.map Prod.fst

theorem lookup_cons (members : Members) (name other : String) (value : Json) :
    List.lookup name ((other, value) :: members) =
      if name = other then some value else members.lookup name := by
  rw [List.lookup_cons]
  by_cases h : name = other
  · rw [if_pos h, beq_iff_eq.mpr h]
  · rw [if_neg h, beq_eq_false_iff_ne.mpr h]

theorem get_cons (members : Members) (name other : String) (value : Json) :
    get ((other, value) :: members) name = if name = other then value else members.get name := by
  rw [get, lookup_cons]
  split_ifs
  · rfl
  · rfl

theorem lookup_set (members : Members) (name other : String) (value : Json) :
    (members.set name value).lookup other =
      if other = name then some value else members.lookup other := by
  induction members with
  | nil => exact lookup_cons [] other name value
  | cons member members ih =>
    obtain ⟨first, old⟩ := member
    rw [set]
    by_cases hfirst : first = name
    · rw [if_pos hfirst, lookup_cons, lookup_cons, hfirst]
      split_ifs <;> rfl
    · rw [if_neg hfirst, lookup_cons, lookup_cons, ih]
      by_cases hother : other = first
      · rw [if_pos hother, if_pos hother, if_neg fun h => hfirst (hother ▸ h)]
      · rw [if_neg hother, if_neg hother]

theorem names_set (members : Members) (name : String) (value : Json) :
    (members.set name value).names =
      if name ∈ members.names then members.names else members.names ++ [name] := by
  induction members with
  | nil => rfl
  | cons member members ih =>
    obtain ⟨first, old⟩ := member
    rw [set]
    by_cases hfirst : first = name
    · rw [if_pos hfirst, if_pos]
      · rfl
      · exact List.mem_cons.mpr (.inl hfirst.symm)
    · have hmem : name ∈ names ((first, old) :: members) ↔ name ∈ names members := by
        rw [names, List.map_cons, List.mem_cons]
        exact ⟨fun h => h.resolve_left fun h => hfirst h.symm, .inr⟩
      rw [if_neg hfirst]
      show first :: names (set members name value) = _
      rw [ih]
      simp only [hmem]
      split_ifs
      · rfl
      · rfl

theorem mem_names_iff {members : Members} {name : String} :
    name ∈ members.names ↔ members.lookup name ≠ none := by
  induction members with
  | nil => simp [names]
  | cons member members ih =>
    obtain ⟨first, old⟩ := member
    rw [lookup_cons, names, List.map_cons, List.mem_cons]
    by_cases h : name = first
    · simp [h]
    · rw [if_neg h, ← ih]
      exact ⟨fun h' => h'.resolve_left h, .inr⟩

/-- A member after an update is one of the changes, or was there. -/
theorem mem_update {changes : Members} : ∀ {members : Members} {m : String × Json},
    m ∈ members.update changes → m ∈ members ∨ m ∈ changes := by
  have hset : ∀ (members : Members) (name : String) (value : Json) (m : String × Json),
      m ∈ members.set name value → m ∈ members ∨ m = (name, value) := by
    intro members name value m
    induction members with
    | nil => exact fun h => .inr (List.mem_singleton.mp h)
    | cons member members ih =>
      intro h
      rw [set] at h
      split_ifs at h with hname
      · obtain rfl | h := List.mem_cons.mp h
        · exact .inr (by rw [hname])
        · exact .inl (List.mem_cons_of_mem _ h)
      · obtain rfl | h := List.mem_cons.mp h
        · exact .inl List.mem_cons_self
        · exact (ih h).imp_left (List.mem_cons_of_mem _)
  induction changes with
  | nil => exact fun h => .inl h
  | cons change changes ih =>
    intro members m h
    obtain h | h := ih h
    · obtain h | rfl := hset members _ _ m h
      · exact .inl h
      · exact .inr List.mem_cons_self
    · exact .inr (List.mem_cons_of_mem _ h)

/-- An update overlays the members with those it changes. -/
theorem lookup_update {changes : Members} (h : changes.names.Nodup) (name : String) :
    ∀ members : Members, (members.update changes).lookup name =
      if name ∈ changes.names then changes.lookup name else members.lookup name := by
  induction changes with
  | nil => exact fun _ => rfl
  | cons change changes ih =>
    intro members
    obtain ⟨first, value⟩ := change
    obtain ⟨hfirst, htail⟩ := List.nodup_cons.mp h
    show ((members.set first value).update changes).lookup name = _
    rw [ih htail, lookup_set, lookup_cons]
    by_cases hname : name = first
    · have hmem : name ∈ names ((first, value) :: changes) := List.mem_cons.mpr (.inl hname)
      have hnot : name ∉ names changes := hname ▸ hfirst
      rw [if_neg hnot, if_pos hname, if_pos hmem, if_pos hname]
    · have hmem : name ∈ names ((first, value) :: changes) ↔ name ∈ names changes := by
        rw [names, List.map_cons, List.mem_cons]
        exact ⟨fun h' => h'.resolve_left hname, .inr⟩
      simp only [hmem, if_neg hname]

end Members

/-- The dictionary of some pairs: the last value of a name counts. -/
def dictOf (pairs : Members) : Members := Members.update [] pairs

/-- Of the changes of one name the last one counts. -/
theorem Members.lookup_update_reverse (changes : Members) (name : String) :
    ∀ members : Members, (members.update changes).lookup name =
      (changes.reverse.lookup name).or (members.lookup name) := by
  induction changes with
  | nil => exact fun _ => rfl
  | cons change changes ih =>
    intro members
    show ((members.set change.1 change.2).update changes).lookup name = _
    rw [ih, lookup_set, List.reverse_cons, List.lookup_append, Option.or_assoc, lookup_cons]
    split_ifs <;> rfl

theorem lookup_dictOf (pairs : Members) (name : String) :
    (dictOf pairs).lookup name = pairs.reverse.lookup name := by
  rw [dictOf, Members.lookup_update_reverse]
  exact Option.or_none

/-- A dictionary has no two members of one name. -/
theorem nodup_dictOf (pairs : Members) : (dictOf pairs).names.Nodup := by
  have hupdate : ∀ (changes members : Members), members.names.Nodup →
      (members.update changes).names.Nodup := by
    intro changes
    induction changes with
    | nil => exact fun _ h => h
    | cons change changes ih =>
      intro members h
      refine ih _ ?_
      rw [Members.names_set]
      split_ifs with hmem
      · exact h
      · rw [List.nodup_append]
        refine ⟨h, List.nodup_singleton _, fun a ha b hb hab => hmem ?_⟩
        rw [List.mem_singleton] at hb
        exact hb ▸ hab ▸ ha
  exact hupdate pairs [] List.nodup_nil

/-- A dictionary is the dictionary of its members. -/
theorem dictOf_of_nodup {members : Members} (h : members.names.Nodup) : dictOf members = members := by
  have hset : ∀ (members : Members) (name : String) (value : Json), name ∉ members.names →
      members.set name value = members ++ [(name, value)] := by
    intro members name value
    induction members with
    | nil => exact fun _ => rfl
    | cons member members ih =>
      intro hname
      rw [Members.names, List.map_cons, List.mem_cons, not_or] at hname
      rw [Members.set, if_neg (Ne.symm hname.1), ih hname.2]
      rfl
  have hupdate : ∀ changes members : Members, (members ++ changes).names.Nodup →
      members.update changes = members ++ changes := by
    intro changes
    induction changes with
    | nil => exact fun members _ => (List.append_nil members).symm
    | cons change changes ih =>
      intro members h
      have hname : change.1 ∉ members.names := by
        rw [Members.names, List.map_append, List.nodup_append] at h
        exact fun hmem => h.2.2 _ hmem _ List.mem_cons_self rfl
      have happend : members ++ change :: changes = members ++ [change] ++ changes := by
        rw [List.append_assoc]
        rfl
      rw [happend] at h ⊢
      show (members.set change.1 change.2).update changes = _
      rw [hset members _ _ hname]
      exact ih _ h
  exact hupdate members [] h

/-! ### As Python takes them -/

namespace Json

/-- The truth value of a Python object. -/
def truthy : Json → Bool
  | .null => false
  | .bool b => b
  | .int n => n ≠ 0
  | .float q => q ≠ 0
  | .str s => s ≠ ""
  | .arr items => !items.isEmpty
  | .obj members => !members.isEmpty

/-- A number, as Python compares it: a boolean is one. -/
def number : Json → Option ℚ
  | .bool b => some (if b then 1 else 0)
  | .int n => some n
  | .float q => some q
  | _ => none

mutual

/-- `a == b`: dictionaries are compared without regard to the order of their members. -/
def pyEq : Json → Json → Bool
  | .null, .null => true
  | .str a, .str b => a = b
  | .arr xs, .arr ys => pyEqItems xs ys
  | .obj ms, .obj ns => pyEqMembers [] ms ns && ns.all fun n => (ms.lookup n.1).isSome
  | a, b =>
    match a.number, b.number with
    | some x, some y => x = y
    | _, _ => false

def pyEqItems : List Json → List Json → Bool
  | [], [] => true
  | x :: xs, y :: ys => pyEq x y && pyEqItems xs ys
  | _, _ => false

/-- The members, those that come after one of the same name (`seen`) apart, are in `ns`. -/
def pyEqMembers (seen : List String) : List (String × Json) → List (String × Json) → Bool
  | [], _ => true
  | (name, value) :: ms, ns =>
    (decide (name ∈ seen) ||
      match ns.lookup name with
      | some other => pyEq value other
      | none => false) && pyEqMembers (name :: seen) ms ns

end

mutual

theorem pyEq_refl : ∀ a : Json, pyEq a a = true
  | .null => by simp [pyEq]
  | .bool b => by simp [pyEq, number]
  | .int n => by simp [pyEq, number]
  | .float q => by simp [pyEq, number]
  | .str s => by simp [pyEq]
  | .arr xs => by
    rw [pyEq]
    exact pyEqItems_refl xs
  | .obj ms => by
    rw [pyEq, Bool.and_eq_true]
    refine ⟨pyEqMembers_refl ms [] ms fun _ _ h _ => h, ?_⟩
    rw [List.all_eq_true]
    intro n hn
    rw [Option.isSome_iff_ne_none]
    exact Members.mem_names_iff.mp (List.mem_map_of_mem hn)

theorem pyEqItems_refl : ∀ xs : List Json, pyEqItems xs xs = true
  | [] => rfl
  | x :: xs => by
    rw [pyEqItems, pyEq_refl x, pyEqItems_refl xs]
    rfl

theorem pyEqMembers_refl : ∀ (ms : List (String × Json)) (seen : List String)
    (ns : List (String × Json)),
    (∀ name value, ms.lookup name = some value → name ∉ seen → ns.lookup name = some value) →
      pyEqMembers seen ms ns = true
  | [], _, _, _ => by rw [pyEqMembers]
  | (name, value) :: ms, seen, ns, h => by
    rw [pyEqMembers, Bool.and_eq_true]
    constructor
    · by_cases hseen : name ∈ seen
      · simp [hseen]
      · have hlookup : ns.lookup name = some value := by
          refine h name value ?_ hseen
          rw [Members.lookup_cons, if_pos rfl]
        rw [hlookup, Bool.or_eq_true]
        exact .inr (pyEq_refl value)
    · refine pyEqMembers_refl ms (name :: seen) ns fun name' value' hms hseen => ?_
      rw [List.mem_cons, not_or] at hseen
      refine h name' value' ?_ hseen.2
      rw [Members.lookup_cons, if_neg hseen.1]
      exact hms

end

/-- Only a string is equal to a string. -/
theorem pyEq_str {a : Json} {s : String} : pyEq a (.str s) = true ↔ a = .str s := by
  cases a <;> simp [pyEq, number]

end Json
