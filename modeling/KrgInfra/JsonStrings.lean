/-
Strings and numbers in JSON texts.

A string is a sequence of UTF-16 code units: an escape sequence stands for one of them, and a
character beyond the basic plane for two.  What a decoder reads of the text between two quotes has
never more characters than that text.

* `units`, `ofUnits` — the code units of a text, and the text of some code units;
* `unescape` — the code units that a text between quotes stands for;
* `Floats`, `json` — numbers with a fraction, and the decoder;
* `loads_ne_self` — no text is the string that is read of it.
-/
import KrgInfra.DecimalText
import KrgInfra.JsonText
import KrgInfra.QuotedText

namespace JsonText

open QuotedText (hexValue)

/-! ### Code units -/

/-- The code units of a character. -/
def units (c : Char) : List ℕ :=
  if c.toNat < 0x10000 then [c.toNat]
  else [0xD800 + (c.toNat - 0x10000) / 0x400, 0xDC00 + (c.toNat - 0x10000) % 0x400]

def isHigh (u : ℕ) : Bool := 0xD800 ≤ u && u < 0xDC00

def isLow (u : ℕ) : Bool := 0xDC00 ≤ u && u < 0xE000

/-- The text of some code units, after a unit that began a pair. -/
def ofUnits : Option ℕ → List ℕ → Option (List Char)
  | none, [] => some []
  | some _, [] => none
  | none, u :: us =>
    if isHigh u then ofUnits (some u) us
    else if isLow u then none
    else (ofUnits none us).map (Char.ofNat u :: ·)
  | some h, u :: us =>
    if isLow u then
      (ofUnits none us).map (Char.ofNat (0x10000 + (h - 0xD800) * 0x400 + (u - 0xDC00)) :: ·)
    else none

theorem toNat_lt (c : Char) : c.toNat < 0x110000 := by
  obtain h | h := c.valid
  · exact Nat.lt_of_lt_of_le h (by omega)
  · exact h.2

/-- A character is no half of a pair. -/
theorem not_surrogate (c : Char) : isHigh c.toNat = false ∧ isLow c.toNat = false := by
  have hvalid := c.valid
  have hval : c.val.toNat = c.toNat := rfl
  rw [isHigh, isLow]
  simp only [Bool.and_eq_false_iff, decide_eq_false_iff_not]
  obtain h | h := hvalid
  · have h' : c.val.toNat < 0xd800 := h
    omega
  · have h' : 0xdfff < c.val.toNat := h.1
    omega

/-- The units of a character are read back. -/
theorem ofUnits_units (c : Char) (us : List ℕ) :
    ofUnits none (units c ++ us) = (ofUnits none us).map (c :: ·) := by
  rw [units]
  split_ifs with hsmall
  · obtain ⟨hhigh, hlow⟩ := not_surrogate c
    rw [List.singleton_append, ofUnits, hhigh, hlow, if_neg (by decide), if_neg (by decide),
      Char.ofNat_toNat]
  · have hlt := toNat_lt c
    have hhigh : isHigh (0xD800 + (c.toNat - 0x10000) / 0x400) = true := by
      rw [isHigh, Bool.and_eq_true, decide_eq_true_eq, decide_eq_true_eq]
      omega
    have hlow : isLow (0xDC00 + (c.toNat - 0x10000) % 0x400) = true := by
      rw [isLow, Bool.and_eq_true, decide_eq_true_eq, decide_eq_true_eq]
      omega
    have hpair : 0x10000 + (0xD800 + (c.toNat - 0x10000) / 0x400 - 0xD800) * 0x400 +
        (0xDC00 + (c.toNat - 0x10000) % 0x400 - 0xDC00) = c.toNat := by
      omega
    show ofUnits none (_ :: _ :: us) = _
    rw [ofUnits, if_pos hhigh, ofUnits, if_pos hlow, hpair, Char.ofNat_toNat]

theorem ofUnits_flatMap (l : List Char) : ofUnits none (l.flatMap units) = some l := by
  induction l with
  | nil => rfl
  | cons c l ih =>
    rw [List.flatMap_cons, ofUnits_units, ih]
    rfl

/-- The units that end a character. -/
def ending (us : List ℕ) : ℕ := us.countP fun u => !isHigh u

theorem length_ofUnits {us : List ℕ} : ∀ {h : Option ℕ} {l : List Char},
    ofUnits h us = some l → l.length ≤ ending us := by
  induction us with
  | nil =>
    intro h l hl
    cases h with
    | none =>
      obtain rfl := Option.some_inj.mp hl
      exact Nat.le_refl _
    | some h => exact nomatch hl
  | cons u us ih =>
    intro h l hl
    have hcount : ending (u :: us) = ending us + if isHigh u then 0 else 1 := by
      rw [ending, List.countP_cons]
      cases isHigh u <;> rfl
    cases h with
    | none =>
      rw [ofUnits] at hl
      split_ifs at hl with hhigh hlow
      · have hle := ih hl
        omega
      · obtain ⟨m, hm, rfl⟩ := Option.map_eq_some_iff.mp hl
        have hle := ih hm
        rw [hcount, if_neg hhigh, List.length_cons]
        omega
    | some h =>
      rw [ofUnits] at hl
      split_ifs at hl with hlow
      obtain ⟨m, hm, rfl⟩ := Option.map_eq_some_iff.mp hl
      have hhigh : ¬ isHigh u = true := by
        rw [isLow, Bool.and_eq_true, decide_eq_true_eq, decide_eq_true_eq] at hlow
        rw [isHigh, Bool.and_eq_true, decide_eq_true_eq, decide_eq_true_eq]
        omega
      have hle := ih hm
      rw [hcount, if_neg hhigh, List.length_cons]
      omega

/-! ### Escape sequences -/

/-- What was read of an escape sequence: nothing yet, the backslash, or some hexadecimal digits. -/
inductive Escape
  | no
  | start
  | hex (values : List ℕ)

/-- What a character after the backslash stands for. -/
def simple (c : Char) : Option ℕ :=
  [('"', 0x22), ('\\', 0x5C), ('/', 0x2F), ('b', 8), ('f', 12), ('n', 10), ('r', 13),
    ('t', 9)].lookup c

def hexNumber (values : List ℕ) : ℕ := values.foldl (fun n v => 16 * n + v) 0

/-- The code units of a text between quotes. -/
def unescape : Escape → List Char → Option (List ℕ)
  | .no, [] => some []
  | _, [] => none
  | .no, c :: rest =>
    if c = '\\' then unescape .start rest else (unescape .no rest).map (units c ++ ·)
  | .start, c :: rest =>
    if c = 'u' then unescape (.hex []) rest
    else
      match simple c with
      | some u => (unescape .no rest).map (u :: ·)
      | none => none
  | .hex values, c :: rest =>
    match hexValue c with
    | none => none
    | some v =>
      if values.length = 3 then (unescape .no rest).map (hexNumber (values ++ [v]) :: ·)
      else unescape (.hex (values ++ [v])) rest

theorem ending_units (c : Char) : ending (units c) = 1 := by
  rw [units]
  split_ifs with hsmall
  · rw [ending, List.countP_cons, (not_surrogate c).1]
    rfl
  · have hlt := toNat_lt c
    have hhigh : isHigh (0xD800 + (c.toNat - 0x10000) / 0x400) = true := by
      rw [isHigh, Bool.and_eq_true, decide_eq_true_eq, decide_eq_true_eq]
      omega
    have hlow : isHigh (0xDC00 + (c.toNat - 0x10000) % 0x400) = false := by
      rw [isHigh, Bool.and_eq_false_iff, decide_eq_false_iff_not, decide_eq_false_iff_not]
      omega
    rw [ending, List.countP_cons, List.countP_cons, hhigh, hlow]
    rfl

theorem ending_cons_le (u : ℕ) (us : List ℕ) : ending (u :: us) ≤ ending us + 1 := by
  rw [ending, List.countP_cons]
  split_ifs
  · exact Nat.le_refl _
  · exact Nat.le_succ _

/-- An escape sequence is longer than what it stands for. -/
theorem ending_unescape {l : List Char} : ∀ {e : Escape} {us : List ℕ},
    unescape e l = some us → ending us ≤ l.length := by
  induction l with
  | nil =>
    intro e us h
    cases e with
    | no =>
      obtain rfl := Option.some_inj.mp h
      exact Nat.le_refl _
    | start => exact nomatch h
    | hex values => exact nomatch h
  | cons c l ih =>
    intro e us h
    rw [List.length_cons]
    cases e with
    | no =>
      rw [unescape] at h
      split_ifs at h with hc
      · exact Nat.le_succ_of_le (ih h)
      · obtain ⟨vs, hvs, rfl⟩ := Option.map_eq_some_iff.mp h
        have hle := ih hvs
        have hadd : ending (units c ++ vs) = ending (units c) + ending vs := List.countP_append
        rw [hadd, ending_units]
        omega
    | start =>
      rw [unescape] at h
      split_ifs at h with hc
      · exact Nat.le_succ_of_le (ih h)
      · split at h
        · next u hu =>
          obtain ⟨vs, hvs, rfl⟩ := Option.map_eq_some_iff.mp h
          exact Nat.le_trans (ending_cons_le u vs) (Nat.succ_le_succ (ih hvs))
        · exact nomatch h
    | hex values =>
      rw [unescape] at h
      split at h
      · exact nomatch h
      · next v hv =>
        split_ifs at h
        · obtain ⟨vs, hvs, rfl⟩ := Option.map_eq_some_iff.mp h
          exact Nat.le_trans (ending_cons_le _ vs) (Nat.succ_le_succ (ih hvs))
        · exact Nat.le_succ_of_le (ih h)

/-! ### The decoder -/

/-- Numbers with a fraction or an exponent: how Python prints them, and what a decoder makes of such
a text.  A printed number is read back. -/
structure Floats where
  repr : ℚ → List Char
  read : List Char → Option ℚ
  isFloat : ℚ → Prop
  read_repr {q : ℚ} (h : isFloat q) : read (repr q) = some q
  read_letter {text : List Char} (h : ∀ c ∈ text.head?, c ≠ '-' ∧ c.isDigit = false) :
    read text = none
  repr_atom {q : ℚ} (h : isFloat q) : ∀ c ∈ repr q, inAtom c = true
  repr_head {q : ℚ} (h : isFloat q) : ∃ c ∈ (repr q).head?, c = '-' ∨ c.isDigit = true
  repr_fraction {q : ℚ} (h : isFloat q) : ∃ c ∈ repr q, c = '.' ∨ c = 'e'

variable (F : Floats)

/-- The decoder; half of a pair is no string. -/
def json : Scalars where
  str text := ((unescape .no text).bind (ofUnits none)).map String.ofList
  atom text :=
    if text = "null".toList then some .null
    else if text = "true".toList then some (.bool true)
    else if text = "false".toList then some (.bool false)
    else
      match DecimalText.integer text with
      | some n => some (.int n)
      | none => (F.read text).map .float

theorem length_str {text : List Char} {s : String} (h : (json F).str text = some s) :
    s.toList.length ≤ text.length := by
  obtain ⟨l, hl, rfl⟩ := Option.map_eq_some_iff.mp h
  obtain ⟨us, hus, hl⟩ := Option.bind_eq_some_iff.mp hl
  rw [String.toList_ofList]
  exact Nat.le_trans (length_ofUnits hl) (ending_unescape hus)

theorem atom_not_str {text : List Char} {s : String} : (json F).atom text ≠ some (.str s) := by
  intro h
  have h : (if _ then _ else if _ then _ else if _ then _ else _) = some (Json.str s) := h
  split_ifs at h
  · exact nomatch h
  · exact nomatch h
  · exact nomatch h
  · split at h
    · exact nomatch h
    · obtain ⟨q, -, hq⟩ := Option.map_eq_some_iff.mp h
      exact nomatch hq

/-! ### A text is longer than the string that is read of it -/

/-- After `n` characters a string that is no part of anything is shorter than what was read. -/
def Short (n : ℕ) (s : State) : Prop :=
  match s.mode with
  | .str false text => s.stack = [] → text.length < n
  | .esc false text => s.stack = [] → text.length < n
  | .done v => s.stack = [] ∧ ∀ t, v = .str t → t.toList.length < n
  | _ => True

variable {F}

theorem short_mono {n m : ℕ} (hnm : n ≤ m) {s : State} (h : Short n s) : Short m s := by
  rw [Short] at h ⊢
  split at h
  · exact fun hstack => Nat.lt_of_lt_of_le (h hstack) hnm
  · exact fun hstack => Nat.lt_of_lt_of_le (h hstack) hnm
  · exact ⟨h.1, fun t ht => Nat.lt_of_lt_of_le (h.2 t ht) hnm⟩
  · trivial

theorem short_place {n : ℕ} {v : Json} {stack : List Frame}
    (h : stack = [] → ∀ t, v = .str t → t.toList.length < n) : Short n (place v stack) := by
  cases stack with
  | nil => exact ⟨rfl, h rfl⟩
  | cons f stack => cases f <;> trivial

theorem short_closeFrame {n : ℕ} {c : Char} {stack : List Frame} {t : State}
    (h : closeFrame c stack = some t) : Short n t := by
  cases stack with
  | nil => exact nomatch h
  | cons f stack =>
    cases f with
    | arr items =>
      rw [closeFrame] at h
      split_ifs at h
      obtain rfl := Option.some_inj.mp h
      exact short_place fun _ _ he => nomatch he
    | obj members key =>
      rw [closeFrame] at h
      split_ifs at h
      obtain rfl := Option.some_inj.mp h
      exact short_place fun _ _ he => nomatch he

theorem short_openValue {n : ℕ} {c : Char} {stack : List Frame} {t : State}
    (h : openValue stack c = some t) : Short (n + 1) t := by
  rw [openValue] at h
  split_ifs at h
  · obtain rfl := Option.some_inj.mp h
    trivial
  · obtain rfl := Option.some_inj.mp h
    trivial
  · obtain rfl := Option.some_inj.mp h
    exact fun _ => Nat.succ_pos n
  · obtain rfl := Option.some_inj.mp h
    trivial

theorem short_afterValue {n : ℕ} {c : Char} {s t : State} (hs : Short n s)
    (h : afterValue s c = some t) : Short n t := by
  rw [afterValue, skipOr] at h
  split_ifs at h
  · obtain rfl := Option.some_inj.mp h
    exact hs
  · obtain ⟨stack, mode⟩ := s
    cases stack with
    | nil => cases h
    | cons f stack =>
      cases f with
      | arr items =>
        obtain rfl := Option.some_inj.mp h
        trivial
      | obj members key =>
        obtain rfl := Option.some_inj.mp h
        trivial
  · exact short_closeFrame h

/-- The text between quotes grows by one character. -/
theorem length_concat_lt {n : ℕ} {text : List Char} (h : text.length < n) (c : Char) :
    (text ++ [c]).length < n + 1 := by
  rw [List.length_append, List.length_singleton]
  omega

theorem short_str {n : ℕ} {c : Char} {stack : List Frame} {isKey : Bool} {text : List Char}
    {t : State} (hs : Short n ⟨stack, .str isKey text⟩)
    (h : step (json F) ⟨stack, .str isKey text⟩ c = some t) : Short (n + 1) t := by
  cases isKey with
  | true =>
    rw [step] at h
    split_ifs at h
    · obtain ⟨u, hu, h⟩ := Option.bind_eq_some_iff.mp h
      cases stack with
      | nil => cases h
      | cons frame stack =>
        cases frame with
        | obj members key =>
          obtain rfl := Option.some_inj.mp h
          trivial
        | arr items => cases h
    · obtain rfl := Option.some_inj.mp h
      trivial
    · obtain rfl := Option.some_inj.mp h
      trivial
  | false =>
    rw [step] at h
    split_ifs at h
    · obtain ⟨u, hu, h⟩ := Option.bind_eq_some_iff.mp h
      obtain rfl := Option.some_inj.mp h
      have hle := length_str F hu
      refine short_place fun hstack t ht => ?_
      have hlt : text.length < n := hs hstack
      rw [← Json.str.inj ht]
      omega
    · obtain rfl := Option.some_inj.mp h
      exact fun hstack => length_concat_lt (hs hstack) c
    · obtain rfl := Option.some_inj.mp h
      exact fun hstack => length_concat_lt (hs hstack) c

theorem short_step {n : ℕ} {c : Char} {s t : State} (hs : Short n s)
    (h : step (json F) s c = some t) : Short (n + 1) t := by
  obtain ⟨stack, mode⟩ := s
  cases mode with
  | value =>
    rw [step, skipOr] at h
    split_ifs at h
    · obtain rfl := Option.some_inj.mp h
      trivial
    · exact short_openValue h
  | first =>
    rw [step, skipOr] at h
    split_ifs at h
    · obtain rfl := Option.some_inj.mp h
      trivial
    · exact short_closeFrame h
    · exact short_openValue h
  | firstKey =>
    rw [step, skipOr] at h
    split_ifs at h
    · obtain rfl := Option.some_inj.mp h
      trivial
    · exact short_closeFrame h
    · obtain rfl := Option.some_inj.mp h
      trivial
  | key =>
    rw [step, skipOr] at h
    split_ifs at h
    · obtain rfl := Option.some_inj.mp h
      trivial
    · obtain rfl := Option.some_inj.mp h
      trivial
  | colon =>
    rw [step, skipOr] at h
    split_ifs at h
    · obtain rfl := Option.some_inj.mp h
      trivial
    · obtain rfl := Option.some_inj.mp h
      trivial
  | next => exact short_mono (Nat.le_succ n) (short_afterValue hs h)
  | done v => exact short_mono (Nat.le_succ n) (short_afterValue hs h)
  | atom text =>
    rw [step] at h
    split_ifs at h
    · obtain rfl := Option.some_inj.mp h
      trivial
    · obtain ⟨v, hv, h⟩ := Option.bind_eq_some_iff.mp h
      have hplace : Short n (place v stack) :=
        short_place fun _ t ht => absurd (ht ▸ hv) (atom_not_str F)
      exact short_mono (Nat.le_succ n) (short_afterValue hplace h)
  | esc isKey text =>
    rw [step] at h
    split_ifs at h
    obtain rfl := Option.some_inj.mp h
    cases isKey with
    | true => trivial
    | false => exact fun hstack => length_concat_lt (hs hstack) c
  | str isKey text => exact short_str hs h

theorem short_run {l : List Char} : ∀ {n : ℕ} {s t : State}, Short n s →
    run (json F) s l = some t → Short (n + l.length) t := by
  induction l with
  | nil =>
    intro n s t hs h
    obtain rfl := Option.some_inj.mp h
    exact hs
  | cons c l ih =>
    intro n s t hs h
    obtain ⟨r, hr, h⟩ := run_cons_iff.mp h
    have hshort := ih (short_step hs hr) h
    rw [List.length_cons]
    exact short_mono (by omega) hshort

/-- No text is the string that is read of it. -/
theorem loads_ne_self (s : String) : loads (json F) s.toList ≠ some (.str s) := by
  intro h
  obtain ⟨⟨stack, mode⟩, hrun, hfinish⟩ := Option.bind_eq_some_iff.mp h
  have hshort : Short (0 + s.toList.length) ⟨stack, mode⟩ := short_run (s := start) trivial hrun
  cases mode with
  | done v =>
    have hlt := hshort.2 s (Option.some_inj.mp hfinish)
    omega
  | atom text =>
    rw [finish] at hfinish
    split_ifs at hfinish
    exact atom_not_str F hfinish
  | _ => exact nomatch hfinish

end JsonText
