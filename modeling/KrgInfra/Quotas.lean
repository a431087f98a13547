/-
Quotas, as `synoquota` shows them (`synology_quotas/files/apply_quotas.py`).

`_parse_current` looks for `Quota`, a number, a unit and a tag in the text, computes GiB in floating
point, and rounds to an integer.

* `search` — what `QUOTA_RE` finds;
* `parse_current`, `do_share` — what is read, and whether it counts as drift;
* `Display.text`, `OneDecimal` — the texts that DSM shows, and how it rounds;
* `NearestGib` — the size that is nearest to what is shown.

`do_user` decides as `do_share` does, with other commands.
-/
import KrgInfra.Binary64
import KrgInfra.DecimalText
import KrgInfra.Python

namespace ApplyQuotas

open Binary64 Python

/-! ### The pattern -/

/-- The decimal digits, of which Unicode has more than ASCII. -/
structure Digits where
  digit : Char → Option ℕ
  ascii : ∀ c : Char, c.toNat < 128 →
    digit c = if c.isDigit then some (c.toNat - '0'.toNat) else none
  space : ∀ c : Char, isspace c = true → digit c = none

/-- A letter of a pattern, and a character, without regard to case: a dotted or dotless `i` and a
long `s` count as well. -/
def same (c x : Char) : Bool :=
  x.toLower = c || (c = 'i' && (x = 'İ' || x = 'ı')) || (c = 's' && x = 'ſ')

/-- What stands after a word. -/
def matchWord : List Char → List Char → Option (List Char)
  | [], s => some s
  | _ :: _, [] => none
  | c :: word, x :: s => if same c x then matchWord word s else none

/-- `re.search(r"no quota", text, re.IGNORECASE)` -/
def noQuota (text : List Char) : Bool :=
  text.tails.any fun s => (matchWord "no quota".toList s).isSome

/-- `(GB|GiB|MB|MiB|TB|TiB)?`: the unit, empty where there is none, and what stands after it. -/
def matchUnit (s : List Char) : List Char × List Char :=
  match ["gb", "gib", "mb", "mib", "tb", "tib"].find? fun u => (matchWord u.toList s).isSome with
  | some u => (s.take u.length, s.drop u.length)
  | none => ([], s)

/-- The groups of `QUOTA_RE`; of the tag only whether it is `(Hard)`. -/
structure Match where
  size : List Char
  unit : List Char
  hard : Bool

section Pattern

variable (U : Digits)

/-- `[\d.]` -/
def inSize (c : Char) : Bool := (U.digit c).isSome || c = '.'

/-- `[:\s]` -/
def inGap (c : Char) : Bool := c = ':' || isspace c

/-- `QUOTA_RE.match` -/
def matchQuota (s : List Char) : Option Match :=
  (matchWord "quota".toList s).bind fun s =>
    let s := s.dropWhile inGap
    let size := s.takeWhile (inSize U)
    if size = [] then none
    else
      let (unit, s) := matchUnit ((s.dropWhile (inSize U)).dropWhile isspace)
      some ⟨size, unit, (matchWord "(hard)".toList (s.dropWhile isspace)).isSome⟩

/-- `QUOTA_RE.search` -/
def search : List Char → Option Match
  | [] => none
  | c :: s => (matchQuota U (c :: s)).or (search s)

/-! ### Numbers -/

/-- An integer of decimal digits. -/
def natOf (s : List Char) : ℕ := s.foldl (fun n c => 10 * n + (U.digit c).getD 0) 0

/-- The decimal number; `none` where `float` raises. -/
def decimal (s : List Char) : Option ℚ :=
  match s.splitOn '.' with
  | [whole] => if whole = [] then none else some (natOf U whole)
  | [whole, part] =>
    if whole = [] ∧ part = [] then none
    else some (natOf U whole + natOf U part / 10 ^ part.length)
  | _ => none

/-- Infinity, of which `round` raises, is left out. -/
def finite (x : ℚ) : Option ℚ := if x < 2 ^ 1024 then some x else none

def float (s : List Char) : Option ℚ := (decimal U s).bind fun q => finite (nearest q)

/-- `(val * decimal_bytes) / (1 << 30)` -/
def ofDecimal (decimal_bytes val : ℚ) : Option ℚ :=
  (finite (nearest (val * decimal_bytes))).map fun bytes => nearest (bytes / 2 ^ 30)

/-- `val * binary_scale` -/
def ofBinary (binary_scale val : ℚ) : Option ℚ := finite (nearest (val * binary_scale))

/-- The size in GiB; `none` where the unit is not in the table. -/
def val_gib (unit : String) (val : ℚ) : Option ℚ :=
  match unit with
  | "gb" => ofDecimal (10 ^ 9) val
  | "mb" => ofDecimal (10 ^ 6) val
  | "tb" => ofDecimal (10 ^ 12) val
  | "mib" => ofBinary (1 / 1024) val
  | "gib" => ofBinary 1 val
  | "tib" => ofBinary 1024 val
  | _ => none

/-! ### What is read -/

/-- `(None, None)`, `("UNPARSEABLE", None)`, or a size and whether it is hard. -/
inductive Reading where
  | unset
  | unparseable
  | size (gib : ℤ) (hard : Bool)
  deriving DecidableEq

/-- `raw_unit or DEFAULT_UNIT` -/
def unitOf (raw_unit : List Char) : String :=
  if raw_unit = [] then "gb" else String.ofList (raw_unit.map Char.toLower)

/-- `_parse_current`; `none` where it raises. -/
def parse_current (text : List Char) : Option Reading :=
  if text = [] ∨ noQuota text then some .unset
  else
    match search U text with
    | none => some .unparseable
    | some m => (float U m.size).bind fun val => (val_gib (unitOf m.unit) val).map fun g =>
      .size (roundEven g) m.hard

/-- How `do_share` ends, the command apart. -/
inductive Verdict where
  | fail
  | drift
  | same
  deriving DecidableEq

/-- `do_share`, with the text that `synoquota` shows; `none` where it raises. -/
def do_share (size_gib : ℤ) (hard : Bool) (text : List Char) : Option Verdict :=
  (parse_current U text).map fun
    | .unparseable => .fail
    | .unset => if size_gib = 0 then .same else .drift
    | .size cur_size cur_hard =>
      if size_gib = 0 then .drift
      else if cur_size ≠ size_gib ∨ cur_hard ≠ hard then .drift
      else .same

end Pattern

/-! ### What is shown -/

inductive Scale where
  | gb
  | gib
  | mb
  | mib
  | tb
  | tib
  deriving DecidableEq

def Scale.name : Scale → String
  | .gb => "GB"
  | .gib => "GiB"
  | .mb => "MB"
  | .mib => "MiB"
  | .tb => "TB"
  | .tib => "TiB"

/-- The unit in the tables of the script. -/
def Scale.key : Scale → String
  | .gb => "gb"
  | .gib => "gib"
  | .mb => "mb"
  | .mib => "mib"
  | .tb => "tb"
  | .tib => "tib"

def Scale.bytes : Scale → ℕ
  | .gb => 10 ^ 9
  | .gib => 2 ^ 30
  | .mb => 10 ^ 6
  | .mib => 2 ^ 20
  | .tb => 10 ^ 12
  | .tib => 2 ^ 40

inductive Tag where
  | none
  | hard
  | soft
  deriving DecidableEq

def Tag.text : Tag → String
  | .none => ""
  | .hard => " (Hard)"
  | .soft => " (Soft)"

/-- A text that DSM shows: tenths of a unit, with a tag and blanks at the end.  Without tenths the
point may be left out. -/
structure Display where
  scale : Scale
  tenths : ℕ
  point : Bool
  tag : Tag
  blanks : List Char
  whole : point = false → 10 ∣ tenths
  blank : ∀ c ∈ blanks, isspace c = true

namespace Display

variable (d : Display)

def number : List Char :=
  Nat.toDigits 10 (d.tenths / 10) ++
    if d.point then ['.', Nat.digitChar (d.tenths % 10)] else []

/-- As in `Quota: 500.0 GB (Hard)`. -/
def text : List Char :=
  "Quota: ".toList ++ (d.number ++ (' ' :: d.scale.name.toList ++ (d.tag.text.toList ++ d.blanks)))

def hard : Bool := d.tag = .hard

end Display

/-- What is shown, less `n` GiB, in tenths of a byte. -/
def excess (n : ℕ) (u : Scale) (tenths : ℕ) : ℤ :=
  (tenths : ℤ) * (u.bytes : ℤ) - (n : ℤ) * (10 * 2 ^ 30)

/-- Tenths of a unit are nearest to `n` GiB. -/
def OneDecimal (n : ℕ) (u : Scale) (tenths : ℕ) : Prop := 2 * |excess n u tenths| ≤ u.bytes

/-- `n` GiB is nearest to tenths of a unit, among the whole numbers; in a tie it is even. -/
def NearestGib (n : ℕ) (u : Scale) (tenths : ℕ) : Prop :=
  2 * |excess n u tenths| < 10 * 2 ^ 30 ∨ 2 * |excess n u tenths| = 10 * 2 ^ 30 ∧ Even n

end ApplyQuotas
