/-
Python objects, as a YAML loader and a JSON decoder make them.

Besides what JSON has, the safe loader of a YAML file makes dates, byte strings, sets, the pairs of
`!!omap`, and mappings whose keys are no texts.  Every operation is defined on every object: it
gives something, or it raises.  An object is a tree: an alias to a node around it is left out, and
so are the limits of the interpreter on the depth of a tree and the digits of a number.

* `Value`, `Exn` — objects and exceptions;
* `Value.elements`, `Value.item`, `Value.get`, `Value.hash` — `for`, `[...]`, `.get`, sets;
* `Value.same`, `Value.lt`, `sorted` — `==`, `<`, and what is sorted by it;
* `Runtime`, `dumps`, `Printable` — `json.dumps(value, sort_keys=True)`, and what it prints;
* `Typed`, `handled_item` — which of these raise, and where.
-/
import KrgInfra.Firsts
import KrgInfra.JsonDumps
import KrgInfra.PyValue
import KrgInfra.Raising
import Mathlib.Data.List.Sort

namespace PyObject

open Raising

/-- What an exception says, where it is shown. -/
inductive Exn where
  | osError (message : String)
  | yamlError (message : String)
  | valueError (message : String)
  | keyError (message : String)
  | typeError
  | attributeError
  | recursionError
  deriving DecidableEq, Repr

/-- A date, a time without a zone, or a time with one; these are not compared with each other. -/
inductive Clock where
  | date
  | naive
  | aware
  deriving DecidableEq, Repr

/-- The elements of a set stand in the order in which a loop comes to them. -/
inductive Value where
  | null
  | bool (b : Bool)
  | int (n : ℤ)
  | float (x : Py.Number)
  | minusZero
  | str (s : String)
  | bytes (b : List ℕ)
  | stamp (clock : Clock) (moment : ℤ)
  | list (items : List Value)
  | tuple (first second : Value)
  | set (items : List Value)
  | dict (members : List (Value × Value))

/-- What an object is known by in a set or as a key of a dictionary. -/
inductive Key where
  | null
  | number (x : Py.Number)
  | str (s : String)
  | bytes (b : List ℕ)
  | stamp (clock : Clock) (moment : ℤ)
  | tuple (first second : Key)
  deriving DecidableEq

/-- What differs between interpreters, and what is not defined here: `json.loads`, `str`, `repr`,
and whether a slice can be hashed (since Python 3.12), so that a dictionary does not find it. -/
structure Runtime where
  loads : String → Except Exn Value
  str : Value → String
  repr : Value → String
  hashes_slices : Bool

namespace Value

/-- A number, as it is compared: a boolean is one. -/
def number? : Value → Option Py.Number
  | .bool b => some (.finite (if b then 1 else 0))
  | .int n => some (.finite n)
  | .float x => some x
  | .minusZero => some (.finite 0)
  | _ => none

/-- The truth value in a condition. -/
def truthy : Value → Bool
  | .null => false
  | .str s => s ≠ ""
  | .bytes b => b ≠ []
  | .stamp _ _ => true
  | .list items => !items.isEmpty
  | .tuple _ _ => true
  | .set items => !items.isEmpty
  | .dict members => !members.isEmpty
  | value => value.number? ≠ some (.finite 0)

/-- `for element in value`, where the object can be gone through. -/
def elements : Value → Option (List Value)
  | .str s => some (s.toList.map fun c => .str (String.singleton c))
  | .bytes b => some (b.map fun n : ℕ => .int n)
  | .list items => some items
  | .tuple first second => some [first, second]
  | .set items => some items
  | .dict members => some (members.map Prod.fst)
  | _ => none

def iter (value : Value) : Except Exn (List Value) :=
  match value.elements with
  | some items => .ok items
  | none => .error .typeError

/-- Whether a key of a dictionary is a text. -/
def isText (name : String) : Value → Bool
  | .str s => s = name
  | _ => false

/-- The member of a dictionary that has a text as its key. -/
def member (members : List (Value × Value)) (name : String) : Option Value :=
  (members.find? fun m => m.1.isText name).map Prod.snd

/-- The member, or a default: `members.get(name, default)`. -/
def memberOr (members : List (Value × Value)) (name : String) (default : Value) : Value :=
  (member members name).getD default

/-- `value[name]`, of a text; only a dictionary has members with names. -/
def item (rt : Runtime) (value : Value) (name : String) : Except Exn Value :=
  match value with
  | .dict members =>
    match member members name with
    | some found => .ok found
    | none => .error (.keyError (rt.repr (.str name)))
  | _ => .error .typeError

/-- `value.get(name, default)` -/
def get (value : Value) (name : String) (default : Value) : Except Exn Value :=
  match value with
  | .dict members => .ok (memberOr members name default)
  | _ => .error .attributeError

/-- A list, a set or a dictionary cannot be an element of a set. -/
def hash : Value → Except Exn Key
  | .null => .ok .null
  | .bool b => .ok (.number (.finite (if b then 1 else 0)))
  | .int n => .ok (.number (.finite n))
  | .float x => .ok (.number x)
  | .minusZero => .ok (.number (.finite 0))
  | .str s => .ok (.str s)
  | .bytes b => .ok (.bytes b)
  | .stamp clock moment => .ok (.stamp clock moment)
  | .tuple first second =>
    hash first >>= fun a => hash second >>= fun b => .ok (.tuple a b)
  | _ => .error .typeError

/-! ### Comparison -/

section Same

variable (oneNan : Bool)

mutual

/-- `a == b`, of elements of a list.  What is not a number equals itself where both are the same
object: one loader makes one object of it (`oneNan`). -/
def same : Value → Value → Bool
  | .null, .null => true
  | .str a, .str b => a = b
  | .bytes a, .bytes b => a = b
  | .stamp c s, .stamp d t => c = d && s = t
  | .list xs, .list ys => sameItems xs ys
  | .tuple a b, .tuple c d => same a c && same b d
  | .set xs, .set ys => subset xs ys && xs.length = ys.length
  | .dict ms, .dict ns => sameMembers ms ns && ms.length = ns.length
  | a, b =>
    match a.number?, b.number? with
    | some x, some y => x.eq y || oneNan && x = y
    | _, _ => false

def sameItems : List Value → List Value → Bool
  | [], [] => true
  | x :: xs, y :: ys => same x y && sameItems xs ys
  | _, _ => false

/-- Every element is one of the others. -/
def subset : List Value → List Value → Bool
  | [], _ => true
  | x :: xs, ys => (ys.any fun y => same x y) && subset xs ys

/-- Every member is one of the others. -/
def sameMembers : List (Value × Value) → List (Value × Value) → Bool
  | [], _ => true
  | (key, value) :: ms, ns =>
    (ns.any fun n => same key n.1 && same value n.2) && sameMembers ms ns

end

end Same

/-- `a != b`, of objects from two loaders. -/
def differs (a b : Value) : Bool := !same false a b

mutual

/-- `a < b`; `none` where these cannot be compared. -/
def lt : Value → Value → Option Bool
  | .str a, .str b => some (a < b)
  | .bytes a, .bytes b => some (a < b)
  | .stamp c s, .stamp d t => if c = d then some (s < t) else none
  | .list xs, .list ys => ltItems xs ys
  | .tuple a b, .tuple c d =>
    if same true a c then if same true b d then some false else lt b d else lt a c
  | .set xs, .set ys => some (subset true xs ys && xs.length < ys.length)
  | a, b =>
    match a.number?, b.number? with
    | some x, some y => some (x.lt y)
    | _, _ => none

/-- The first place where two lists differ decides, and otherwise their lengths. -/
def ltItems : List Value → List Value → Option Bool
  | [], ys => some !ys.isEmpty
  | _ :: _, [] => some false
  | x :: xs, y :: ys => if same true x y then ltItems xs ys else lt x y

end

end Value

open Value

/-- No two of the objects fail to be compared. -/
def Comparable (keys : List Value) : Prop := keys.Pairwise fun a b => (lt a b).isSome = true

instance (keys : List Value) : Decidable (Comparable keys) :=
  inferInstanceAs (Decidable (keys.Pairwise fun a b => (lt a b).isSome = true))

/-- `sorted(items, key=key)`: it raises where a comparison does. -/
def sorted {α : Type} (key : α → Value) (items : List α) : Except Exn (List α) :=
  if Comparable (items.map key) then
    .ok (items.insertionSort fun a b => lt (key b) (key a) ≠ some true)
  else .error .typeError

/-! ### `json.dumps` -/

variable (rt : Runtime)

def Runtime.floatText : Py.Number → String
  | .nan => "NaN"
  | .infinity => "Infinity"
  | .negInfinity => "-Infinity"
  | .finite q => rt.repr (.float (.finite q))

/-- What is printed of a constant or a number, also as the name of a member. -/
def atomText : Value → Option String
  | .null => some "null"
  | .bool b => some (if b then "true" else "false")
  | .int n => some (toString n)
  | .float x => some (rt.floatText x)
  | .minusZero => some "-0.0"
  | _ => none

def quoted (s : String) : String := String.ofList (JsonText.jsonPrinter.str s)

/-- The name of a member. -/
def keyText : Value → Except Exn String
  | .str s => .ok (quoted s)
  | key =>
    match atomText rt key with
    | some text => .ok (quoted text)
    | none => .error .typeError

def brackets (opening closing : String) (parts : List String) : String :=
  opening ++ ", ".intercalate parts ++ closing

mutual

/-- `json.dumps(value, sort_keys=True)` -/
def dumps : Value → Except Exn String
  | .str s => .ok (quoted s)
  | .list items => dumpsItems items >>= fun parts => .ok (brackets "[" "]" parts)
  | .tuple first second =>
    dumps first >>= fun a => dumps second >>= fun b => .ok (brackets "[" "]" [a, b])
  | .dict members =>
    dumpsMembers members >>= fun parts => sorted Prod.fst parts >>= fun parts =>
      .ok (brackets "\x7b" "\x7d" (parts.map Prod.snd))
  | value =>
    match atomText rt value with
    | some text => .ok text
    | none => .error .typeError

def dumpsItems : List Value → Except Exn (List String)
  | [] => .ok []
  | item :: items =>
    dumps item >>= fun text => dumpsItems items >>= fun texts => .ok (text :: texts)

/-- The members, each with its key. -/
def dumpsMembers : List (Value × Value) → Except Exn (List (Value × String))
  | [] => .ok []
  | (key, value) :: members =>
    keyText rt key >>= fun name => dumps value >>= fun text =>
      dumpsMembers members >>= fun rest => .ok ((key, name ++ ": " ++ text) :: rest)

end

/-- What the name of a member can be. -/
def isName : Value → Bool
  | .str _ => true
  | .null => true
  | value => value.number?.isSome

mutual

/-- What `json.dumps` can print: no bytes, dates or sets, and no names that cannot be sorted. -/
def Printable : Value → Prop
  | .bytes _ => False
  | .stamp _ _ => False
  | .set _ => False
  | .list items => PrintableItems items
  | .tuple first second => Printable first ∧ Printable second
  | .dict members => PrintableMembers members ∧ Comparable (members.map Prod.fst)
  | _ => True

def PrintableItems : List Value → Prop
  | [] => True
  | item :: items => Printable item ∧ PrintableItems items

def PrintableMembers : List (Value × Value) → Prop
  | [] => True
  | (key, value) :: members => isName key ∧ Printable value ∧ PrintableMembers members

end

theorem printableItems_iff {items : List Value} :
    PrintableItems items ↔ ∀ item ∈ items, Printable item := by
  induction items with
  | nil => simp [PrintableItems]
  | cons item items ih => rw [PrintableItems, ih, List.forall_mem_cons]

/-! ### What raises -/

/-- An object is of the wrong type. -/
def OfType (e : Exn) : Prop := e = .typeError ∨ e = .attributeError

/-- A computation that raises nothing else. -/
abbrev Typed {α : Type} : Except Exn α → Prop → Prop := Strict OfType

theorem typed_error {α : Type} {fits : Prop} (h : ¬ fits) :
    Typed (.error .typeError : Except Exn α) fits :=
  .error (.inl rfl) h

theorem iter_eq_ok_iff {value : Value} {items : List Value} :
    value.iter = .ok items ↔ value.elements = some items := by
  unfold iter
  cases value.elements with
  | none => exact ⟨fun h => (nomatch h), fun h => nomatch h⟩
  | some l => simp

theorem typed_iter (value : Value) : Typed value.iter (∃ items, value.elements = some items) := by
  unfold iter
  cases value.elements with
  | none => exact typed_error fun ⟨_, h⟩ => nomatch h
  | some items => exact .ok items ⟨items, rfl⟩

theorem get_eq_ok_iff {value default found : Value} {name : String} :
    value.get name default = .ok found ↔
      ∃ members, value = .dict members ∧ memberOr members name default = found := by
  cases value <;> simp [Value.get]

theorem typed_get (value : Value) (name : String) (default : Value) :
    Typed (value.get name default) (∃ members, value = .dict members) := by
  cases value with
  | dict members => exact .ok _ ⟨members, rfl⟩
  | _ => exact .error (.inr rfl) fun ⟨_, h⟩ => nomatch h

theorem item_eq_ok_iff {value found : Value} {name : String} :
    value.item rt name = .ok found ↔
      ∃ members, value = .dict members ∧ member members name = some found := by
  cases value with
  | dict members =>
    cases h : member members name with
    | none => simp [Value.item, h]
    | some x => simp [Value.item, h]
  | _ => exact ⟨fun h => (nomatch h), fun ⟨_, h, _⟩ => nomatch h⟩

/-- A missing member is handled, what is no dictionary is not. -/
theorem handled_item {p : Exn → Prop} (hkey : ∀ message, p (.keyError message))
    (htype : ¬ p .typeError) {value : Value} {name : String} :
    Handled p (value.item rt name) ↔ ∃ members, value = .dict members := by
  cases value with
  | dict members =>
    refine ⟨fun _ => ⟨members, rfl⟩, fun _ => ?_⟩
    cases h : member members name with
    | none => simp [Value.item, h, hkey]
    | some x => simp [Value.item, h]
  | _ => exact ⟨fun h => absurd (handled_error.mp h) htype, fun ⟨_, h⟩ => nomatch h⟩

/-- What can be hashed. -/
def Hashable : Value → Prop
  | .list _ => False
  | .set _ => False
  | .dict _ => False
  | .tuple first second => Hashable first ∧ Hashable second
  | _ => True

theorem typed_hash : ∀ value : Value, Typed (hash value) (Hashable value)
  | .null => .ok _ trivial
  | .bool _ => .ok _ trivial
  | .int _ => .ok _ trivial
  | .float _ => .ok _ trivial
  | .minusZero => .ok _ trivial
  | .str _ => .ok _ trivial
  | .bytes _ => .ok _ trivial
  | .stamp _ _ => .ok _ trivial
  | .list _ => typed_error id
  | .set _ => typed_error id
  | .dict _ => typed_error id
  | .tuple first second => by
    rw [Value.hash, Hashable]
    exact (typed_hash first).bind fun a _ => (typed_hash second).map _

/-- Only a text is known as that text. -/
theorem hash_eq_str_iff {value : Value} {s : String} :
    value.hash = .ok (.str s) ↔ value = .str s := by
  cases value with
  | str t => simp [Value.hash]
  | tuple first second =>
    refine ⟨fun h => ?_, fun h => nomatch h⟩
    obtain ⟨a, -, h⟩ := bind_eq_ok_iff.mp h
    obtain ⟨b, -, h⟩ := bind_eq_ok_iff.mp h
    exact nomatch Except.ok.inj h
  | _ => exact ⟨fun h => (nomatch h), fun h => nomatch h⟩

theorem typed_sorted {α : Type} (key : α → Value) (items : List α) :
    Typed (sorted key items) (Comparable (items.map key)) := by
  unfold sorted
  split_ifs with h
  · exact .ok _ h
  · exact typed_error h

theorem typed_keyText (key : Value) : Typed (keyText rt key) (isName key) := by
  cases key with
  | str s => exact .ok _ rfl
  | null => exact .ok _ rfl
  | bool b => exact .ok _ rfl
  | int n => exact .ok _ rfl
  | float x => exact .ok _ rfl
  | minusZero => exact .ok _ rfl
  | _ => exact typed_error (by simp [isName, Value.number?])

theorem keys_dumpsMembers {members : List (Value × Value)} : ∀ {parts : List (Value × String)},
    dumpsMembers rt members = .ok parts → parts.map Prod.fst = members.map Prod.fst := by
  induction members with
  | nil =>
    intro parts h
    rw [← Except.ok.inj h]
    rfl
  | cons member members ih =>
    intro parts h
    obtain ⟨key, value⟩ := member
    rw [dumpsMembers] at h
    obtain ⟨name, -, h⟩ := bind_eq_ok_iff.mp h
    obtain ⟨text, -, h⟩ := bind_eq_ok_iff.mp h
    obtain ⟨rest, hrest, h⟩ := bind_eq_ok_iff.mp h
    rw [← Except.ok.inj h, List.map_cons, List.map_cons, ih hrest]

mutual

theorem typed_dumps : ∀ value : Value, Typed (dumps rt value) (Printable value)
  | .null => .ok _ trivial
  | .bool _ => .ok _ trivial
  | .int _ => .ok _ trivial
  | .float _ => .ok _ trivial
  | .minusZero => .ok _ trivial
  | .str _ => .ok _ trivial
  | .bytes _ => typed_error id
  | .stamp _ _ => typed_error id
  | .set _ => typed_error id
  | .list items => by
    rw [dumps, Printable]
    exact (typed_dumpsItems items).map _
  | .tuple first second => by
    rw [dumps, Printable]
    refine (typed_dumps first).bind fun a _ => ?_
    exact (typed_dumps second).map _
  | .dict members => by
    rw [dumps, Printable]
    refine (typed_dumpsMembers members).bind fun parts hparts => ?_
    rw [← keys_dumpsMembers rt hparts]
    exact (typed_sorted Prod.fst parts).map _

theorem typed_dumpsItems : ∀ items : List Value, Typed (dumpsItems rt items) (PrintableItems items)
  | [] => .ok _ trivial
  | item :: items => by
    rw [dumpsItems, PrintableItems]
    refine (typed_dumps item).bind fun text _ => ?_
    exact (typed_dumpsItems items).map _

theorem typed_dumpsMembers : ∀ members : List (Value × Value),
    Typed (dumpsMembers rt members) (PrintableMembers members)
  | [] => .ok _ trivial
  | (key, value) :: members => by
    rw [dumpsMembers, PrintableMembers]
    refine (typed_keyText rt key).bind fun name _ => (typed_dumps value).bind fun text _ => ?_
    exact (typed_dumpsMembers members).map _

end

end PyObject
