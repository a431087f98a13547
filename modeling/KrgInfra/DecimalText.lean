/-
Decimal numbers in texts.

* `natural`, `integer` — digits without a leading zero, and digits after a sign;
* `natural_toDigits`, `integer_toString` — a number that is written is read back.
-/
import Mathlib

namespace DecimalText

/-- Decimal digits without a leading zero. -/
def natural (l : List Char) : Option ℕ :=
  if l ≠ [] ∧ l.all Char.isDigit ∧ (l.head? = some '0' → l = ['0']) then
    some (Nat.ofDigitChars 10 l 0)
  else none

/-- Decimal digits, after a sign or without one. -/
def integer : List Char → Option ℤ
  | [] => none
  | c :: digits =>
    if c = '-' then (natural digits).map fun n : ℕ => -(n : ℤ)
    else if c = '+' then (natural digits).map fun n : ℕ => (n : ℤ)
    else (natural (c :: digits)).map fun n : ℕ => (n : ℤ)

theorem natural_eq_none {l : List Char} {c : Char} (h : c ∈ l) (hc : c.isDigit = false) :
    natural l = none := by
  rw [natural, if_neg]
  rintro ⟨-, hall, -⟩
  exact absurd (hc.symm.trans (List.all_eq_true.mp hall c h)) (by decide)

/-- A text with another character is no number. -/
theorem integer_eq_none {l : List Char} {c : Char} (h : c ∈ l) (hc : c.isDigit = false)
    (hminus : c ≠ '-') (hplus : c ≠ '+') : integer l = none := by
  cases l with
  | nil => exact nomatch h
  | cons d l =>
    rw [integer]
    split_ifs with hd hd'
    · have hmem : c ∈ l := (List.mem_cons.mp h).resolve_left fun he => hminus (he.trans hd)
      rw [natural_eq_none hmem hc]
      rfl
    · have hmem : c ∈ l := (List.mem_cons.mp h).resolve_left fun he => hplus (he.trans hd')
      rw [natural_eq_none hmem hc]
      rfl
    · rw [natural_eq_none h hc]
      rfl

theorem isDigit_of_mem {n : ℕ} {c : Char} (h : c ∈ Nat.toDigits 10 n) : c.isDigit = true :=
  Nat.isDigit_of_mem_toDigits (by omega) (by omega) h

/-- Only zero is written with a zero at the beginning. -/
theorem toDigits_of_head_zero : ∀ n : ℕ,
    (Nat.toDigits 10 n).head? = some '0' → Nat.toDigits 10 n = ['0'] := by
  intro n
  induction n using Nat.strong_induction_on with
  | _ n ih =>
    intro h
    by_cases hn : n < 10
    · rw [Nat.toDigits_of_lt_base hn] at h ⊢
      rw [Option.some_inj.mp h]
    · have hle : 10 ≤ n := Nat.le_of_not_lt hn
      rw [Nat.toDigits_of_base_le (by omega) hle] at h
      obtain ⟨c, digits, hcons⟩ := List.exists_cons_of_ne_nil (Nat.toDigits_ne_nil (n := n / 10) (b := 10))
      have hhead : (Nat.toDigits 10 (n / 10)).head? = some '0' := by
        rw [hcons] at h ⊢
        exact h
      have hzero := ih (n / 10) (by omega) hhead
      have hvalue : Nat.ofDigitChars 10 (Nat.toDigits 10 (n / 10)) 0 = n / 10 :=
        Nat.ofDigitChars_ten_toDigits
      rw [hzero] at hvalue
      have hempty : Nat.ofDigitChars 10 ['0'] 0 = 0 := by decide
      omega

theorem natural_toDigits (n : ℕ) : natural (Nat.toDigits 10 n) = some n := by
  rw [natural, if_pos, Nat.ofDigitChars_ten_toDigits]
  exact ⟨Nat.toDigits_ne_nil, List.all_eq_true.mpr fun c hc => isDigit_of_mem hc,
    toDigits_of_head_zero n⟩

/-- What is written of a number. -/
theorem toList_toString (n : ℤ) : (toString n).toList =
    if 0 ≤ n then Nat.toDigits 10 n.toNat else '-' :: Nat.toDigits 10 (-n).toNat := by
  rw [Int.toString_eq_repr, Int.repr_eq_if]
  have hnat : ∀ m : ℕ, m.repr.toList = Nat.toDigits 10 m := by
    intro m
    rw [Nat.repr_eq_ofList_toDigits, String.toList_ofList]
  split_ifs
  · exact hnat _
  · rw [String.toList_append, hnat]
    rfl

/-- A number that is written is read back. -/
theorem integer_toString (n : ℤ) : integer (toString n).toList = some n := by
  rw [toList_toString]
  split_ifs with hn
  · have hread := natural_toDigits n.toNat
    obtain ⟨c, digits, hcons⟩ :=
      List.exists_cons_of_ne_nil (Nat.toDigits_ne_nil (n := n.toNat) (b := 10))
    have hdigit : c.isDigit = true := isDigit_of_mem (n := n.toNat) (hcons ▸ List.mem_cons_self)
    rw [hcons] at hread ⊢
    rw [integer, if_neg, if_neg, hread, Option.map_some, Int.toNat_of_nonneg hn]
    · rintro rfl
      exact absurd hdigit (by decide)
    · rintro rfl
      exact absurd hdigit (by decide)
  · rw [integer, if_pos rfl, natural_toDigits, Option.map_some]
    congr 1
    omega

/-- What a number is written with: digits, and a sign. -/
theorem mem_toString {n : ℤ} {c : Char} (h : c ∈ (toString n).toList) :
    c = '-' ∨ c.isDigit = true := by
  rw [toList_toString] at h
  split_ifs at h
  · exact .inr (isDigit_of_mem h)
  · obtain rfl | h := List.mem_cons.mp h
    · exact .inl rfl
    · exact .inr (isDigit_of_mem h)

/-- A digit is no letter. -/
theorem isAlpha_of_isDigit {c : Char} (h : c.isDigit = true) : c.isAlpha = false := by
  simp only [Char.isDigit, Char.isAlpha, Char.isUpper, Char.isLower, Bool.and_eq_true,
    decide_eq_true_eq, Bool.or_eq_false_iff, Bool.and_eq_false_iff, decide_eq_false_iff_not, ge_iff_le,
    UInt32.le_iff_toNat_le] at h ⊢
  have hnine : '9'.val.toNat = 57 := rfl
  have hupper : 'A'.val.toNat = 65 := rfl
  have hlower : 'a'.val.toNat = 97 := rfl
  omega

end DecimalText
