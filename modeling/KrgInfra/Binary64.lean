/-
Numbers of binary floating point, of 53 bits.

A number is rounded to the nearest one that has 53 bits, in a tie to the even one.  Infinity and
negative numbers are left to those who use this.

* `roundEven` — the nearest integer, in a tie the even one;
* `nearest` — the nearest number of 53 bits;
* `nearest_error`, `nearest_eq` — how far off it is, and which one it is;
* `nearest_of_bits`, `nearest_scale` — the numbers that it keeps.
-/
import Mathlib.Algebra.Order.Archimedean.Basic
import Mathlib.Data.Int.Log
import Mathlib.Data.Rat.Floor
import Mathlib.Tactic.Linarith
import Mathlib.Tactic.NormNum
import Mathlib.Tactic.Ring

namespace Binary64

/-! ### Integers -/

/-- The nearest integer, in a tie the even one. -/
def roundEven (q : ℚ) : ℤ :=
  if 2 * (q - ⌊q⌋) < 1 then ⌊q⌋
  else if 1 < 2 * (q - ⌊q⌋) then ⌊q⌋ + 1
  else if Even ⌊q⌋ then ⌊q⌋
  else ⌊q⌋ + 1

/-- An integer is nearest, in a tie the even one. -/
def IsNearest (q : ℚ) (n : ℤ) : Prop := 2 * |q - n| < 1 ∨ 2 * |q - n| = 1 ∧ Even n

theorem isNearest_roundEven (q : ℚ) : IsNearest q (roundEven q) := by
  have hle : 0 ≤ q - ⌊q⌋ := sub_nonneg.mpr (Int.floor_le q)
  have hlt : q - ⌊q⌋ < 1 := by linarith [Int.lt_floor_add_one q]
  have hup : |q - ((⌊q⌋ + 1 : ℤ) : ℚ)| = 1 - (q - ⌊q⌋) := by
    rw [Int.cast_add, Int.cast_one, abs_of_nonpos (by linarith)]
    ring
  rw [roundEven, IsNearest]
  split_ifs with hdown hfar heven
  · exact .inl (by rwa [abs_of_nonneg hle])
  · refine .inl ?_
    rw [hup]
    linarith
  · refine .inr ⟨?_, heven⟩
    rw [abs_of_nonneg hle]
    linarith
  · refine .inr ⟨?_, Int.even_add_one.mpr heven⟩
    rw [hup]
    linarith

theorem IsNearest.unique {q : ℚ} {m n : ℤ} (hm : IsNearest q m) (hn : IsNearest q n) : m = n := by
  have hm' : 2 * |q - m| ≤ 1 := hm.elim le_of_lt fun h => h.1.le
  have hn' : 2 * |q - n| ≤ 1 := hn.elim le_of_lt fun h => h.1.le
  have hdist : |((m - n : ℤ) : ℚ)| ≤ |q - n| + |q - m| := by
    have habs := abs_sub_le (m : ℚ) q n
    rw [Int.cast_sub]
    rwa [abs_sub_comm (m : ℚ) q, add_comm] at habs
  have hone : |m - n| ≤ 1 := by
    have hcast : ((|m - n| : ℤ) : ℚ) ≤ ((1 : ℤ) : ℚ) := by
      rw [Int.cast_abs, Int.cast_one]
      linarith
    exact Int.cast_le.mp hcast
  by_contra hne
  have hpos : 0 < |m - n| := abs_pos.mpr (sub_ne_zero.mpr hne)
  have heq : |((m - n : ℤ) : ℚ)| = 1 := by
    rw [← Int.cast_abs, show |m - n| = 1 by omega, Int.cast_one]
  -- both are ties
  obtain hm | ⟨-, hm⟩ := hm
  · linarith
  · obtain hn | ⟨-, hn⟩ := hn
    · linarith
    · obtain ⟨i, rfl⟩ := hm
      obtain ⟨j, rfl⟩ := hn
      obtain h | h := abs_cases (i + i - (j + j)) <;> omega

theorem roundEven_eq_iff {q : ℚ} {n : ℤ} : roundEven q = n ↔ IsNearest q n :=
  ⟨fun h => h ▸ isNearest_roundEven q, fun h => (isNearest_roundEven q).unique h⟩

theorem roundEven_error (q : ℚ) : 2 * |q - roundEven q| ≤ 1 :=
  (isNearest_roundEven q).elim le_of_lt fun h => h.1.le

@[simp] theorem roundEven_intCast (n : ℤ) : roundEven n = n := by
  refine roundEven_eq_iff.mpr (.inl ?_)
  rw [sub_self, abs_zero]
  norm_num

/-! ### Numbers -/

/-- The exponent of the last bit of a number. -/
def exponent (q : ℚ) : ℤ := max (Int.log 2 q - 52) (-1074)

/-- The nearest number of 53 bits, in a tie the one whose last bit is zero. -/
def nearest (q : ℚ) : ℚ := roundEven (q / 2 ^ exponent q) * 2 ^ exponent q

theorem two_zpow_pos (e : ℤ) : (0 : ℚ) < 2 ^ e := zpow_pos two_pos e

theorem nearest_zero : nearest 0 = 0 := by
  rw [nearest, zero_div, show roundEven 0 = 0 from roundEven_intCast 0, Int.cast_zero, zero_mul]

/-- A number that is not too small is rounded by less than its part of 53 bits. -/
theorem nearest_error {q : ℚ} (hq : (2 : ℚ) ^ (-1022 : ℤ) ≤ q) :
    |nearest q - q| ≤ q * 2 ^ (-53 : ℤ) := by
  have hpos : 0 < q := (two_zpow_pos _).trans_le hq
  have hlog : -1022 ≤ Int.log 2 q := (Int.zpow_le_iff_le_log one_lt_two hpos).mp (by exact_mod_cast hq)
  have hexp : exponent q = Int.log 2 q - 52 := max_eq_left (by omega)
  have hulp : (2 : ℚ) ^ exponent q ≤ q * 2 ^ (-52 : ℤ) := by
    have hle : (2 : ℚ) ^ Int.log 2 q ≤ q := by
      exact_mod_cast Int.zpow_log_le_self one_lt_two hpos
    rw [hexp, sub_eq_add_neg, zpow_add₀ two_ne_zero]
    exact mul_le_mul_of_nonneg_right hle (two_zpow_pos _).le
  have hround := roundEven_error (q / 2 ^ exponent q)
  have hsplit : nearest q - q =
      -(q / 2 ^ exponent q - roundEven (q / 2 ^ exponent q)) * 2 ^ exponent q := by
    have hcancel : q / 2 ^ exponent q * 2 ^ exponent q = q :=
      div_mul_cancel₀ q (two_zpow_pos _).ne'
    rw [nearest, neg_sub, sub_mul, hcancel]
  have hhalf : q * (2 : ℚ) ^ (-52 : ℤ) = 2 * (q * 2 ^ (-53 : ℤ)) := by
    rw [show (-52 : ℤ) = -53 + 1 from rfl, zpow_add_one₀ two_ne_zero]
    ring
  rw [hsplit, abs_mul, abs_neg, abs_of_pos (two_zpow_pos _)]
  have hmul : |q / 2 ^ exponent q - roundEven (q / 2 ^ exponent q)| * 2 ^ exponent q ≤
      1 / 2 * 2 ^ exponent q :=
    mul_le_mul_of_nonneg_right (by linarith) (two_zpow_pos _).le
  rw [hhalf] at hulp
  calc _ ≤ 1 / 2 * 2 ^ exponent q := hmul
    _ ≤ 1 / 2 * (2 * (q * 2 ^ (-53 : ℤ))) := mul_le_mul_of_nonneg_left hulp (by norm_num)
    _ = q * 2 ^ (-53 : ℤ) := by ring

/-- The nearest number, from its last bit. -/
theorem nearest_eq {q : ℚ} {e : ℤ} {M : ℕ} (he : -1074 ≤ e) (hlow : (2 : ℚ) ^ (e + 52) ≤ q)
    (hhigh : q < 2 ^ (e + 53)) (hM : IsNearest (q / 2 ^ e) M) : nearest q = M * 2 ^ e := by
  have hpos : 0 < q := (two_zpow_pos _).trans_le hlow
  have hle : e + 52 ≤ Int.log 2 q :=
    (Int.zpow_le_iff_le_log one_lt_two hpos).mp (by exact_mod_cast hlow)
  have hlt : Int.log 2 q < e + 53 :=
    (Int.lt_zpow_iff_log_lt one_lt_two hpos).mp (by exact_mod_cast hhigh)
  have hexp : exponent q = e := by
    rw [exponent]
    omega
  rw [nearest, hexp, roundEven_eq_iff.mpr hM, Int.cast_natCast]

/-- A number of 53 bits is kept. -/
theorem nearest_of_bits {M : ℕ} {e : ℤ} (hM : M < 2 ^ 53) (he : -1074 ≤ e) :
    nearest (M * 2 ^ e) = M * 2 ^ e := by
  obtain rfl | hpos := Nat.eq_zero_or_pos M
  · rw [Nat.cast_zero, zero_mul, nearest_zero]
  have hq : (0 : ℚ) < M * 2 ^ e := mul_pos (by exact_mod_cast hpos) (two_zpow_pos e)
  have hlt : (M : ℚ) * 2 ^ e < 2 ^ (53 + e) := by
    rw [zpow_add₀ two_ne_zero]
    exact mul_lt_mul_of_pos_right (by exact_mod_cast hM) (two_zpow_pos e)
  have hlog : Int.log 2 ((M : ℚ) * 2 ^ e) < 53 + e :=
    (Int.lt_zpow_iff_log_lt one_lt_two hq).mp (by exact_mod_cast hlt)
  have hexp : exponent (M * 2 ^ e) ≤ e := max_le (by omega) he
  obtain ⟨j, hj⟩ := Int.eq_ofNat_of_zero_le (sub_nonneg.mpr hexp)
  have hint : (M : ℚ) * 2 ^ e / 2 ^ exponent (M * 2 ^ e) = ((M * 2 ^ j : ℤ) : ℚ) := by
    rw [mul_div_assoc, ← zpow_sub₀ two_ne_zero, hj]
    push_cast
    rfl
  rw [nearest, hint, roundEven_intCast, ← hint]
  exact div_mul_cancel₀ _ (two_zpow_pos _).ne'

/-- What is rounded has 53 bits. -/
theorem exists_bits {q : ℚ} (hq : 0 ≤ q) :
    ∃ M : ℕ, M ≤ 2 ^ 53 ∧ nearest q = M * 2 ^ exponent q := by
  have hnonneg : 0 ≤ q / 2 ^ exponent q := div_nonneg hq (two_zpow_pos _).le
  have hlt : q / 2 ^ exponent q < 2 ^ 53 := by
    rw [div_lt_iff₀ (two_zpow_pos _)]
    have hself : q < (2 : ℚ) ^ (Int.log 2 q + 1) := by
      exact_mod_cast Int.lt_zpow_succ_log_self one_lt_two q
    refine hself.trans_le ?_
    have hmono : (2 : ℚ) ^ (Int.log 2 q + 1) ≤ 2 ^ (53 + exponent q) :=
      zpow_le_zpow_right₀ one_le_two (by rw [exponent]; omega)
    refine hmono.trans_eq ?_
    rw [zpow_add₀ two_ne_zero]
    norm_num
  have herror := abs_le.mp (show |q / 2 ^ exponent q - roundEven (q / 2 ^ exponent q)| ≤ 1 / 2 by
    linarith [roundEven_error (q / 2 ^ exponent q)])
  have hlow : 0 ≤ roundEven (q / 2 ^ exponent q) := by
    have hcast : ((-1 : ℤ) : ℚ) < (roundEven (q / 2 ^ exponent q) : ℚ) := by
      push_cast
      linarith [herror.2]
    have := Int.cast_lt.mp hcast
    omega
  have hhigh : roundEven (q / 2 ^ exponent q) ≤ 2 ^ 53 := by
    have hcast : (roundEven (q / 2 ^ exponent q) : ℚ) < ((2 ^ 53 + 1 : ℤ) : ℚ) := by
      push_cast
      linarith [herror.1]
    have := Int.cast_lt.mp hcast
    omega
  obtain ⟨M, hM⟩ := Int.eq_ofNat_of_zero_le hlow
  refine ⟨M, by omega, ?_⟩
  rw [nearest, hM]
  rfl

/-- What is rounded is kept, also with another exponent. -/
theorem nearest_scale {q : ℚ} (hq : 0 ≤ q) {j : ℤ} (hj : -1074 ≤ exponent q + j) :
    nearest (nearest q * 2 ^ j) = nearest q * 2 ^ j := by
  obtain ⟨M, hM, hbits⟩ := exists_bits hq
  have hscale : nearest q * 2 ^ j = M * 2 ^ (exponent q + j) := by
    rw [hbits, zpow_add₀ two_ne_zero, mul_assoc]
  rw [hscale]
  obtain hlt | rfl := hM.lt_or_eq
  · exact nearest_of_bits hlt hj
  · have hcarry : ((2 ^ 53 : ℕ) : ℚ) * 2 ^ (exponent q + j) =
        ((2 ^ 52 : ℕ) : ℚ) * 2 ^ (exponent q + j + 1) := by
      rw [zpow_add₀ two_ne_zero _ 1]
      push_cast
      ring
    rw [hcarry]
    exact nearest_of_bits (by norm_num) (by omega)

end Binary64
