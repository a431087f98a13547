/-
What Python's `json` module makes of a text.

`json.loads` takes `NaN`, `Infinity` and `-Infinity`, and a number that is too large for a float
is infinite too (`1e999`).  The numbers are therefore kept with these; an integer and a float of
one value are one number, as `==`, `<` and `hash` have it.  No two members of a dictionary have
one name: of two in the text the last one counts.

* `Number`, `Value` — numbers and objects;
* `Value.item`, `Value.get`, `Value.truthy`, `Value.hash` — `[...]`, `.get`, conditions, and
  what a set or a dictionary knows an object by;
* `Value.same`, `Value.differs` — equality inside a tuple or a list, and `!=`;
* `Value.number_of_same` — what equals a number is that number.
-/
import Mathlib.Data.Rat.Defs
import Mathlib.Algebra.Order.Ring.Unbundled.Rat

namespace Py

/-- An exception that an object raises when it is not of the right kind. -/
inductive Exn where
  | keyError (name : String)
  | typeError
  | attributeError
  deriving DecidableEq, Repr

inductive Number where
  | finite (q : ℚ)
  | infinity
  | negInfinity
  | nan
  deriving DecidableEq

namespace Number

/-- `a < b` -/
def lt : Number → Number → Bool
  | .finite p, .finite q => p < q
  | .finite _, .infinity => true
  | .negInfinity, .finite _ => true
  | .negInfinity, .infinity => true
  | _, _ => false

/-- `a == b` -/
def eq (a b : Number) : Bool := a = b && a ≠ nan

/-- `a >= b` -/
def ge (a b : Number) : Bool := b.lt a || a.eq b

/-- `max(a, b)`: the first one, unless the second is greater. -/
def max (a b : Number) : Number := if a.lt b then b else a

end Number

inductive Value where
  | null
  | bool (b : Bool)
  | number (x : Number)
  | str (s : String)
  | list (items : List Value)
  | dict (members : List (String × Value))

/-- What an object is known by in a set or as a key of a dictionary. -/
inductive Key where
  | null
  | number (x : Number)
  | str (s : String)
  deriving DecidableEq

namespace Value

def nat (n : ℕ) : Value := .number (.finite n)

/-- `value[name]` -/
def item (value : Value) (name : String) : Except Exn Value :=
  match value with
  | .dict members =>
    match members.lookup name with
    | some member => .ok member
    | none => .error (.keyError name)
  | _ => .error .typeError

/-- `value.get(name)` -/
def get (value : Value) (name : String) : Except Exn Value :=
  match value with
  | .dict members => .ok ((members.lookup name).getD .null)
  | _ => .error .attributeError

/-- `value is True` -/
def isTrue : Value → Bool
  | .bool b => b
  | _ => false

/-- The truth value in a condition. -/
def truthy : Value → Bool
  | .null => false
  | .bool b => b
  | .number x => x ≠ .finite 0
  | .str s => s ≠ ""
  | .list items => !items.isEmpty
  | .dict members => !members.isEmpty

/-- A number, as it is compared: a boolean is one. -/
def number? : Value → Option Number
  | .bool b => some (.finite (if b then 1 else 0))
  | .number x => some x
  | _ => none

/-- A list or a dictionary cannot be an element of a set. -/
def hash : Value → Except Exn Key
  | .null => .ok .null
  | .bool b => .ok (.number (.finite (if b then 1 else 0)))
  | .number x => .ok (.number x)
  | .str s => .ok (.str s)
  | .list _ => .error .typeError
  | .dict _ => .error .typeError

/-- The number that an object is compared with by `<`. -/
def asNumber (value : Value) : Except Exn Number :=
  match value.number? with
  | some x => .ok x
  | none => .error .typeError

/-- `n == value` -/
def equalsNat (n : ℕ) (value : Value) : Bool :=
  match value.number? with
  | some x => x.eq (.finite n)
  | none => false

mutual

/-- The equality of elements: identity or `==`.  The reader makes one object of every `NaN`. -/
def same : Value → Value → Bool
  | .null, .null => true
  | .str a, .str b => a = b
  | .list xs, .list ys => sameItems xs ys
  | .dict ms, .dict ns => sameMembers ms ns && ns.all fun n => (ms.lookup n.1).isSome
  | a, b =>
    match a.number?, b.number? with
    | some x, some y => x = y
    | _, _ => false

def sameItems : List Value → List Value → Bool
  | [], [] => true
  | x :: xs, y :: ys => same x y && sameItems xs ys
  | _, _ => false

/-- Dictionaries are compared without regard to the order of their members. -/
def sameMembers : List (String × Value) → List (String × Value) → Bool
  | [], _ => true
  | (name, value) :: ms, ns =>
    (match ns.lookup name with
      | some other => same value other
      | none => false) && sameMembers ms ns

end

/-- `a != b` -/
def differs (a b : Value) : Bool := !(same a b) || a.number? = some .nan

/-- What equals a number is that number. -/
theorem number_of_same {a b : Value} {x : Number} (h : same a b = true) (hb : b.number? = some x) :
    a.number? = some x := by
  cases b with
  | null => exact nomatch hb
  | str s => exact nomatch hb
  | list items => exact nomatch hb
  | dict members => exact nomatch hb
  | bool b => cases a <;> simp_all [same, number?]
  | number y => cases a <;> simp_all [same, number?]

/-- Objects that do not differ are one number, and no `NaN`. -/
theorem number_of_not_differs {a b : Value} {x : Number} (h : differs a b = false)
    (hb : b.number? = some x) : x ≠ .nan := by
  unfold differs at h
  rw [Bool.or_eq_false_iff, Bool.not_eq_false'] at h
  rintro rfl
  have ha := number_of_same h.1 hb
  rw [ha] at h
  exact absurd h.2 (by simp)

theorem equalsNat_iff {n : ℕ} {value : Value} :
    equalsNat n value = true ↔ value.number? = some (.finite n) := by
  unfold equalsNat Number.eq
  cases value.number? with
  | none => simp
  | some x =>
    simp only [Bool.and_eq_true, decide_eq_true_eq, Option.some.injEq]
    constructor
    · exact fun h => h.1
    · rintro rfl
      exact ⟨rfl, nofun⟩

end Value

end Py
