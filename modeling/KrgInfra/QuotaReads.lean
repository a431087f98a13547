/-
When a quota that is shown is read as what was set.

`_parse_current` computes with floating point, but so closely that it decides as exact arithmetic
does, for every quota of fewer than 2^63 bytes.  A tenth of a terabyte is 93 GiB, though, so that
most quotas are shown by the same text as others.

* `gib_error` — how far off the computed size is;
* `read_iff` — what is read is nearest to what is shown;
* `tie_exact` — also where the size that is shown lies between two integers;
* `quota_read_iff` — which quotas are read back, and which texts are refused.
-/
import KrgInfra.QuotaText
import Mathlib.Tactic.IntervalCases

namespace ApplyQuotas

open Binary64 Python

/-! ### Computed sizes -/

/-- The size that the script computes of tenths of a unit. -/
def gibOf (u : Scale) (tenths : ℕ) : Option ℚ :=
  (finite (nearest ((tenths : ℚ) / 10))).bind (val_gib u.key)

/-- The size that is shown, in GiB. -/
def shown (u : Scale) (tenths : ℕ) : ℚ := (tenths : ℚ) * u.bytes / (10 * 2 ^ 30)

theorem parse_text (U : Digits) (d : Display) : parse_current U d.text =
    (gibOf d.scale d.tenths).map fun g => .size (roundEven g) d.hard := by
  have hne : ¬ (d.text = [] ∨ noQuota d.text = true) := by
    rw [noQuota_text]
    exact fun h => h.elim (fun h => nomatch h) Bool.false_ne_true
  rw [parse_current, if_neg hne, search_text]
  dsimp only
  rw [float, decimal_number, Option.bind_some, unitOf_name, gibOf, Option.map_bind]
  rfl

theorem finite_of_le {x : ℚ} (h : x ≤ 2 ^ 120) : finite x = some x := by
  have hlt : (2 : ℚ) ^ 120 < 2 ^ 1024 := pow_lt_pow_right₀ one_lt_two (by norm_num)
  exact if_pos (h.trans_lt hlt)

theorem le_exponent {q : ℚ} {k : ℤ} (hq : (2 : ℚ) ^ k ≤ q) : k - 52 ≤ exponent q := by
  have hpos : 0 < q := (two_zpow_pos k).trans_le hq
  have hlog : k ≤ Int.log 2 q :=
    (Int.zpow_le_iff_le_log one_lt_two hpos).mp (by exact_mod_cast hq)
  rw [exponent]
  omega

section Errors

variable {t : ℚ}

theorem nearest_bounds (ht : 1 / 20 ≤ t) : |nearest t - t| ≤ t / 2 ^ 53 := by
  have hsmall : (2 : ℚ) ^ (-1022 : ℤ) ≤ t := by
    have hmono : (2 : ℚ) ^ (-1022 : ℤ) ≤ 2 ^ (-5 : ℤ) :=
      zpow_le_zpow_right₀ one_le_two (by norm_num)
    refine hmono.trans (le_trans ?_ ht)
    norm_num
  have herror := nearest_error hsmall
  rwa [show (2 : ℚ) ^ (-53 : ℤ) = 1 / 2 ^ 53 by norm_num, mul_one_div] at herror

/-- A number that is scaled by a power of two is rounded once. -/
theorem ofBinary_error {j : ℤ} (hj : -10 ≤ j) (hj' : j ≤ 10) (ht : 1 / 10 ≤ t)
    (hle : t ≤ 2 ^ 70) : ∃ g, ofBinary (2 ^ j) (nearest t) = some g ∧
      |g - t * 2 ^ j| ≤ t * 2 ^ j / 2 ^ 53 := by
  have hexp : -1074 ≤ exponent t + j := by
    have hlow : (2 : ℚ) ^ (-4 : ℤ) ≤ t := le_trans (by norm_num) ht
    have := le_exponent hlow
    omega
  have hpow : (0 : ℚ) < 2 ^ j := two_zpow_pos j
  have hpow' : (2 : ℚ) ^ j ≤ 2 ^ (10 : ℤ) := zpow_le_zpow_right₀ one_le_two hj'
  have hbounds := nearest_bounds (t := t) (by linarith)
  have hnearest : nearest t ≤ 2 * t := by linarith [(abs_le.mp hbounds).2]
  refine ⟨nearest t * 2 ^ j, ?_, ?_⟩
  · rw [ofBinary, nearest_scale (by linarith) hexp]
    refine finite_of_le ?_
    calc nearest t * 2 ^ j ≤ 2 * t * 2 ^ (10 : ℤ) :=
          mul_le_mul hnearest hpow' hpow.le (by linarith)
      _ ≤ 2 * 2 ^ 70 * 2 ^ (10 : ℤ) := by
          refine mul_le_mul_of_nonneg_right ?_ (two_zpow_pos _).le
          linarith
      _ ≤ 2 ^ 120 := by norm_num
  · rw [← sub_mul, abs_mul, abs_of_pos hpow, mul_div_right_comm]
    exact mul_le_mul_of_nonneg_right hbounds hpow.le

/-- Another unit is rounded twice: the division by a power of two is exact. -/
theorem ofDecimal_error {D : ℚ} (hD : 1 ≤ D) (hD' : D ≤ 2 ^ 40) (ht : 1 / 10 ≤ t)
    (hle : t ≤ 2 ^ 70) : ∃ g, ofDecimal D (nearest t) = some g ∧
      |g - t * D / 2 ^ 30| ≤ t * D / 2 ^ 30 * (1 / 2 ^ 52 + 1 / 2 ^ 106) := by
  have hbounds := nearest_bounds (t := t) (by linarith)
  obtain ⟨hlow, hhigh⟩ := abs_le.mp hbounds
  have hval : 1 / 20 ≤ nearest t := by linarith
  have hprod : 1 / 20 ≤ nearest t * D := by
    calc (1 / 20 : ℚ) = 1 / 20 * 1 := (mul_one _).symm
      _ ≤ nearest t * D := mul_le_mul hval hD zero_le_one (by linarith)
  have hbytes := nearest_bounds hprod
  have hexp : -1074 ≤ exponent (nearest t * D) + -30 := by
    have hlow' : (2 : ℚ) ^ (-5 : ℤ) ≤ nearest t * D := le_trans (by norm_num) hprod
    have := le_exponent hlow'
    omega
  have hdiv : nearest (nearest (nearest t * D) / 2 ^ 30) = nearest (nearest t * D) / 2 ^ 30 := by
    have hscale := nearest_scale (by linarith) hexp
    rwa [zpow_neg, ← div_eq_mul_inv] at hscale
  -- the two errors of the bytes
  have hfirst : |nearest t * D - t * D| ≤ t * D / 2 ^ 53 := by
    rw [← sub_mul, abs_mul, abs_of_pos (by linarith : 0 < D), mul_div_right_comm]
    exact mul_le_mul_of_nonneg_right hbounds (by linarith)
  have hsum : |nearest (nearest t * D) - t * D| ≤ t * D * (1 / 2 ^ 52 + 1 / 2 ^ 106) := by
    have habs := abs_sub_le (nearest (nearest t * D)) (nearest t * D) (t * D)
    have hupper := (abs_le.mp hfirst).2
    linarith
  have htD : t * D ≤ 2 ^ 70 * 2 ^ 40 := mul_le_mul hle hD' (by linarith) (by norm_num)
  refine ⟨nearest (nearest t * D) / 2 ^ 30, ?_, ?_⟩
  · have hfinite : nearest (nearest t * D) ≤ 2 ^ 120 := by
      have hupper := (abs_le.mp hsum).2
      linarith
    rw [ofDecimal, finite_of_le hfinite, Option.map_some, hdiv]
  · rw [← sub_div, abs_div, abs_of_pos (by norm_num : (0 : ℚ) < 2 ^ 30), ← mul_div_right_comm]
    exact div_le_div_of_nonneg_right hsum (by norm_num)

end Errors

/-- How much a computed size may be off, of one GiB. -/
def unit_error : ℚ := 1 / 2 ^ 52 + 1 / 2 ^ 106

theorem val_gib_key (u : Scale) (val : ℚ) : val_gib u.key val =
    match u with
    | .gb => ofDecimal (10 ^ 9) val
    | .mb => ofDecimal (10 ^ 6) val
    | .tb => ofDecimal (10 ^ 12) val
    | .mib => ofBinary (1 / 1024) val
    | .gib => ofBinary 1 val
    | .tib => ofBinary 1024 val := by
  cases u <;> rfl

/-- The computed size is as near to the one that is shown as 53 bits allow. -/
theorem gib_error {u : Scale} {t : ℕ} (h : t ≤ 2 ^ 70) : ∃ g, gibOf u t = some g ∧
    |g - shown u t| ≤ shown u t * unit_error := by
  obtain rfl | hpos := Nat.eq_zero_or_pos t
  · have hzero : nearest ((0 : ℕ) / 10 : ℚ) = 0 := by
      rw [Nat.cast_zero, zero_div, nearest_zero]
    have hfinite : finite 0 = some 0 := finite_of_le (by norm_num)
    have hdecimal : ∀ D, ofDecimal D 0 = some 0 := by
      intro D
      rw [ofDecimal, zero_mul, nearest_zero, hfinite, Option.map_some, zero_div, nearest_zero]
    have hbinary : ∀ D, ofBinary D 0 = some 0 := by
      intro D
      rw [ofBinary, zero_mul, nearest_zero, hfinite]
    refine ⟨0, ?_, ?_⟩
    · rw [gibOf, hzero, hfinite, Option.bind_some, val_gib_key]
      cases u
      · exact hdecimal _
      · exact hbinary _
      · exact hdecimal _
      · exact hbinary _
      · exact hdecimal _
      · exact hbinary _
    · rw [shown, Nat.cast_zero, zero_mul, zero_div, zero_mul, sub_zero, abs_zero]
  · have hlow : (1 : ℚ) / 10 ≤ (t : ℚ) / 10 := by
      have hcast : (1 : ℚ) ≤ t := by exact_mod_cast hpos
      linarith
    have hhigh : (t : ℚ) / 10 ≤ 2 ^ 70 := by
      have hcast : (t : ℚ) ≤ 2 ^ 70 := by exact_mod_cast h
      linarith
    have hfinite : finite (nearest ((t : ℚ) / 10)) = some (nearest ((t : ℚ) / 10)) := by
      have hbounds := (abs_le.mp (nearest_bounds (t := (t : ℚ) / 10) (by linarith))).2
      exact finite_of_le (by linarith)
    have hdecimal : ∀ D : ℚ, 1 ≤ D → D ≤ 2 ^ 40 → ∃ g,
        ofDecimal D (nearest ((t : ℚ) / 10)) = some g ∧
          |g - t * D / (10 * 2 ^ 30)| ≤ t * D / (10 * 2 ^ 30) * unit_error := by
      intro D hD hD'
      obtain ⟨g, hg, herror⟩ := ofDecimal_error hD hD' hlow hhigh
      have hshown : (t : ℚ) / 10 * D / 2 ^ 30 = t * D / (10 * 2 ^ 30) := by
        rw [div_mul_eq_mul_div, div_div]
      rw [hshown] at herror
      exact ⟨g, hg, herror⟩
    have hbinary : ∀ (D : ℚ) (j : ℤ), D = 2 ^ j * 2 ^ 30 → -10 ≤ j → j ≤ 10 → ∃ g,
        ofBinary (2 ^ j) (nearest ((t : ℚ) / 10)) = some g ∧
          |g - t * D / (10 * 2 ^ 30)| ≤ t * D / (10 * 2 ^ 30) * unit_error := by
      intro D j hD hj hj'
      obtain ⟨g, hg, herror⟩ := ofBinary_error hj hj' hlow hhigh
      have hshown : (t : ℚ) / 10 * 2 ^ j = t * D / (10 * 2 ^ 30) := by
        rw [hD, ← mul_assoc, mul_div_mul_right _ _ (by norm_num), div_mul_eq_mul_div]
      have hnonneg : 0 ≤ (t : ℚ) / 10 * 2 ^ j := mul_nonneg (by linarith) (two_zpow_pos j).le
      rw [← hshown]
      refine ⟨g, hg, herror.trans ?_⟩
      rw [div_eq_mul_one_div]
      refine mul_le_mul_of_nonneg_left ?_ hnonneg
      rw [unit_error]
      norm_num
    rw [gibOf, hfinite, Option.bind_some, val_gib_key, shown]
    cases u with
    | gb =>
      rw [show (Scale.gb.bytes : ℚ) = 10 ^ 9 by norm_num [Scale.bytes]]
      exact hdecimal (10 ^ 9) (by norm_num) (by norm_num)
    | mb =>
      rw [show (Scale.mb.bytes : ℚ) = 10 ^ 6 by norm_num [Scale.bytes]]
      exact hdecimal (10 ^ 6) (by norm_num) (by norm_num)
    | tb =>
      rw [show (Scale.tb.bytes : ℚ) = 10 ^ 12 by norm_num [Scale.bytes]]
      exact hdecimal (10 ^ 12) (by norm_num) (by norm_num)
    | mib =>
      rw [show (1 / 1024 : ℚ) = 2 ^ (-10 : ℤ) by norm_num]
      exact hbinary Scale.mib.bytes (-10) (by norm_num [Scale.bytes]) (by decide) (by decide)
    | gib =>
      rw [show (1 : ℚ) = 2 ^ (0 : ℤ) from (zpow_zero 2).symm]
      exact hbinary Scale.gib.bytes 0 (by norm_num [Scale.bytes]) (by decide) (by decide)
    | tib =>
      rw [show (1024 : ℚ) = 2 ^ (10 : ℤ) by norm_num]
      exact hbinary Scale.tib.bytes 10 (by norm_num [Scale.bytes]) (by decide) (by decide)

/-! ### Nearest sizes -/

theorem shown_sub (n : ℕ) (u : Scale) (t : ℕ) :
    shown u t - n = (excess n u t : ℚ) / (10 * 2 ^ 30) := by
  rw [shown, excess]
  push_cast
  ring

theorem abs_shown_sub (n : ℕ) (u : Scale) (t : ℕ) :
    |shown u t - n| = ((|excess n u t| : ℤ) : ℚ) / (10 * 2 ^ 30) := by
  rw [shown_sub, abs_div, Int.cast_abs, abs_of_pos (by norm_num : (0 : ℚ) < 10 * 2 ^ 30)]

theorem excess_tib (n t : ℕ) :
    excess n .tib t = 2147483648 * ((t : ℤ) * 512 - (n : ℤ) * 5) := by
  simp only [excess, Scale.bytes]
  push_cast
  ring

theorem excess_tb (n t : ℕ) :
    excess n .tb t = 20480 * ((t : ℤ) * 48828125 - (n : ℤ) * 524288) := by
  simp only [excess, Scale.bytes]
  push_cast
  ring

/-- What is shown of a number of GiB is a tie, or it is far from one. -/
theorem excess_gap {n : ℕ} {u : Scale} {t : ℕ} (h : OneDecimal n u t) :
    2 * |excess n u t| + 10 * 2 ^ 12 ≤ 10 * 2 ^ 30 ∨
      (u = .tb ∧ 2 * |excess n u t| = 10 * 2 ^ 30) ∨
        10 * 2 ^ 30 + 10 * 2 ^ 12 ≤ 2 * |excess n u t| := by
  cases u with
  | tb =>
    rw [excess_tb, abs_mul, abs_of_nonneg (by norm_num)]
    simp only [true_and]
    generalize |(t : ℤ) * 48828125 - (n : ℤ) * 524288| = y
    omega
  | tib =>
    rw [excess_tib, abs_mul, abs_of_nonneg (by norm_num)]
    generalize |(t : ℤ) * 512 - (n : ℤ) * 5| = y
    omega
  | _ =>
    have hone : 2 * |excess n _ t| ≤ _ := h
    simp only [Scale.bytes] at hone
    push_cast at hone
    omega

section Near

variable {g v : ℚ} {n : ℕ}

/-- A computed size is near to an integer that the exact one is near to. -/
theorem near_of_near (hn : n < 2 ^ 33) (hg : |g - v| ≤ v * unit_error)
    (hv : |v - n| ≤ 1 / 2 - 1 / 2 ^ 19) : 2 * |g - n| < 1 := by
  have hcast : (n : ℚ) + 1 ≤ 2 ^ 33 := by exact_mod_cast hn
  obtain ⟨hlow, hhigh⟩ := abs_le.mp hv
  have herror : v * unit_error < 1 / 2 ^ 19 := by
    have hle : v ≤ 2 ^ 33 - 1 / 2 := by linarith
    refine (mul_le_mul_of_nonneg_right hle (by rw [unit_error]; norm_num)).trans_lt ?_
    rw [unit_error]
    norm_num
  have htriangle := abs_sub_le g v n
  linarith

/-- It is far from an integer that the exact one is far from. -/
theorem far_of_far (hn : n < 2 ^ 33) (hg : |g - v| ≤ v * unit_error)
    (hv : 1 / 2 + 1 / 2 ^ 19 ≤ |v - n|) : 1 < 2 * |g - n| := by
  have hcast : (n : ℚ) + 1 ≤ 2 ^ 33 := by exact_mod_cast hn
  obtain ⟨hlow, hhigh⟩ := abs_le.mp hg
  have hunit : unit_error = 1 / 2 ^ 52 + 1 / 2 ^ 106 := rfl
  obtain ⟨habs, -⟩ | ⟨habs, -⟩ := abs_cases (v - n)
  · -- the computed size grows with the exact one
    have hlarge : v ≥ n + (1 / 2 + 1 / 2 ^ 19) := by linarith
    have hmono : (n + (1 / 2 + 1 / 2 ^ 19)) * (1 - unit_error) ≤ v * (1 - unit_error) :=
      mul_le_mul_of_nonneg_right hlarge (by rw [hunit]; norm_num)
    have hnum : (n + (1 / 2 + 1 / 2 ^ 19) : ℚ) * unit_error < 1 / 2 ^ 19 := by
      have hle : (n + (1 / 2 + 1 / 2 ^ 19) : ℚ) ≤ 2 ^ 33 - 1 / 2 + 1 / 2 ^ 19 := by linarith
      refine (mul_le_mul_of_nonneg_right hle (by rw [hunit]; norm_num)).trans_lt ?_
      rw [hunit]
      norm_num
    have hself := le_abs_self (g - n)
    linarith
  · have hsmall : v ≤ 2 ^ 33 - 1 / 2 := by linarith
    have hnum : v * unit_error < 1 / 2 ^ 19 := by
      refine (mul_le_mul_of_nonneg_right hsmall (by rw [hunit]; norm_num)).trans_lt ?_
      rw [hunit]
      norm_num
    have hself := neg_le_abs (g - n)
    linarith

end Near

/-- A tie: the size that is shown lies in the middle between two integers. -/
def Tie (n : ℕ) (u : Scale) (t : ℕ) : Prop := 2 * |excess n u t| = 10 * 2 ^ 30

theorem Tie.tb {n : ℕ} {u : Scale} {t : ℕ} (hone : OneDecimal n u t) (h : Tie n u t) : u = .tb := by
  rw [Tie] at h
  obtain hgap | ⟨hu, -⟩ | hgap := excess_gap hone
  · omega
  · exact hu
  · omega

/-- But for ties, what is read is nearest to what is shown. -/
theorem read_iff {n : ℕ} {u : Scale} {t : ℕ} {g : ℚ} (hn : n < 2 ^ 33) (hone : OneDecimal n u t)
    (htie : ¬ Tie n u t) (hg : |g - shown u t| ≤ shown u t * unit_error) :
    roundEven g = n ↔ NearestGib n u t := by
  rw [roundEven_eq_iff, IsNearest, Int.cast_natCast]
  have hexcess := abs_shown_sub n u t
  obtain hgap | ⟨-, heq⟩ | hgap := excess_gap hone
  · refine iff_of_true (.inl (near_of_near hn hg ?_)) (.inl (by omega))
    have hcast : 2 * ((|excess n u t| : ℤ) : ℚ) + 10 * 2 ^ 12 ≤ 10 * 2 ^ 30 := by
      exact_mod_cast hgap
    rw [hexcess, div_le_iff₀ (by norm_num)]
    linarith
  · exact absurd heq htie
  · have hfar : 1 < 2 * |g - n| := by
      refine far_of_far hn hg ?_
      have hcast : (10 : ℚ) * 2 ^ 30 + 10 * 2 ^ 12 ≤ 2 * ((|excess n u t| : ℤ) : ℚ) := by
        exact_mod_cast hgap
      rw [hexcess, le_div_iff₀ (by norm_num)]
      linarith
    refine iff_of_false (fun h => ?_) fun h => ?_
    · obtain h | ⟨h, -⟩ := h <;> linarith
    · obtain h | ⟨h, -⟩ := h <;> omega

/-! ### Ties -/

/-- A tie that is computed as it is: both roundings are known. -/
theorem gibOf_of_bits {t M N : ℕ} {e k : ℤ} (hfirst : nearest ((t : ℚ) / 10) = M * 2 ^ e)
    (hsecond : nearest (M * 2 ^ e * 10 ^ 12) = N * 2 ^ k) (hN : N < 2 ^ 53)
    (hk : -1000 ≤ k) (hshown : shown .tb t = N * 2 ^ (k - 30))
    (hsmall : (M : ℚ) * 2 ^ e ≤ 2 ^ 120) (hlarge : (N : ℚ) * 2 ^ k ≤ 2 ^ 120) :
    gibOf .tb t = some (shown .tb t) := by
  have hdiv : (N : ℚ) * 2 ^ k / 2 ^ 30 = N * 2 ^ (k - 30) := by
    rw [zpow_sub₀ two_ne_zero, mul_div_assoc]
    rfl
  rw [gibOf, hfirst, finite_of_le hsmall, Option.bind_some, val_gib_key]
  show ofDecimal (10 ^ 12) _ = _
  rw [ofDecimal, hsecond, finite_of_le hlarge, Option.map_some, hdiv,
    nearest_of_bits hN (by omega), hshown]

theorem tie_bound {m n : ℕ} (hn : n < 2 ^ 33)
    (h : m * 48828125 = 2 * n + 1 ∨ m * 48828125 + 1 = 2 * n) : m < 352 := by
  by_contra hge
  have hge' : 352 ≤ m := not_lt.mp hge
  have hn' : n + 1 ≤ 8589934592 := hn
  obtain h | h := h <;> linarith

/-- Ten times a number that is near to a tenth of a tebibyte is near to a multiple of 1024. -/
theorem near_mod {n t : ℕ} (hlow : -2 ≤ (t : ℤ) * 512 - (n : ℤ) * 5)
    (hhigh : (t : ℤ) * 512 - (n : ℤ) * 5 ≤ 2) : 10 * n % 1024 ≤ 4 ∨ 1020 ≤ 10 * n % 1024 := by
  generalize hd : (t : ℤ) * 512 - (n : ℤ) * 5 = d at hlow hhigh
  interval_cases d <;> omega

theorem tie_mod {m n : ℕ} :
    (m * 48828125 = 2 * n + 1 → 10 * n % 1024 = (593 * m + 1019) % 1024) ∧
      (m * 48828125 + 1 = 2 * n → 10 * n % 1024 = (593 * m + 5) % 1024) := by
  have hsplit : m * 48828125 = 1024 * (m * 47683) + 733 * m := by ring
  rw [hsplit]
  generalize m * 47683 = y
  constructor <;> intro h <;> omega

/-- Of the ties up to 2^63 bytes few are near to a tenth of a tebibyte. -/
theorem odd_cases : ∀ m < 352,
    ((593 * m + 1019) % 1024 ≤ 4 ∨ 1020 ≤ (593 * m + 1019) % 1024 → m % 2 = 1 →
      m = 19 ∨ m = 57) ∧
    ((593 * m + 5) % 1024 ≤ 4 ∨ 1020 ≤ (593 * m + 5) % 1024 → m % 2 = 1 →
      m = 297 ∨ m = 335) := by
  decide +kernel

theorem tie_cases {n t t' : ℕ} (hn : n < 2 ^ 33) (htie : Tie n .tb t)
    (hnear : NearestGib n .tib t') :
    t = 19 * 262144 ∨ t = 57 * 262144 ∨ t = 297 * 262144 ∨ t = 335 * 262144 := by
  have htib : |(t' : ℤ) * 512 - (n : ℤ) * 5| ≤ 2 := by
    rw [NearestGib, excess_tib, abs_mul, abs_of_nonneg (by norm_num)] at hnear
    generalize |(t' : ℤ) * 512 - (n : ℤ) * 5| = y at hnear
    omega
  have htb : |(t : ℤ) * 48828125 - (n : ℤ) * 524288| = 262144 := by
    rw [Tie, excess_tb, abs_mul, abs_of_nonneg (by norm_num)] at htie
    generalize |(t : ℤ) * 48828125 - (n : ℤ) * 524288| = y at htie
    omega
  have htie' : (t : ℤ) * 48828125 = 262144 * (2 * n + 1) ∨
      (t : ℤ) * 48828125 = 262144 * (2 * n - 1) := by
    refine (eq_or_eq_neg_of_abs_eq htb).imp (fun h => ?_) fun h => ?_
    · linarith
    · linarith
  have hdvd : 262144 ∣ t := by
    have hmul : (262144 : ℤ) ∣ t * 48828125 := htie'.elim (fun h => ⟨_, h⟩) fun h => ⟨_, h⟩
    have hcoprime : Nat.Coprime 262144 48828125 := by decide +kernel
    exact hcoprime.dvd_of_dvd_mul_right (by exact_mod_cast hmul)
  obtain ⟨m, rfl⟩ := hdvd
  have hodd : m * 48828125 = 2 * n + 1 ∨ m * 48828125 + 1 = 2 * n := by
    refine htie'.imp (fun h => ?_) fun h => ?_
    · have hcancel : (m : ℤ) * 48828125 = 2 * n + 1 := by
        push_cast at h
        linarith
      exact_mod_cast hcancel
    · have hcancel : (m : ℤ) * 48828125 + 1 = 2 * n := by
        push_cast at h
        linarith
      exact_mod_cast hcancel
  have hm := odd_cases m (tie_bound hn hodd)
  have hrest := near_mod (abs_le.mp htib).1 (abs_le.mp htib).2
  have htwo : m % 2 = 1 := by
    have hsplit : m * 48828125 = 2 * (m * 24414062) + m := by ring
    rw [hsplit] at hodd
    generalize m * 24414062 = y at hodd
    omega
  obtain hodd | hodd := hodd
  · obtain rfl | rfl := hm.1 (tie_mod.1 hodd ▸ hrest) htwo
    · exact .inl rfl
    · exact .inr (.inl rfl)
  · obtain rfl | rfl := hm.2 (tie_mod.2 hodd ▸ hrest) htwo
    · exact .inr (.inr (.inl rfl))
    · exact .inr (.inr (.inr rfl))

theorem isNearest_of_lt {q : ℚ} {M : ℕ} (hlow : (M : ℚ) - 1 / 2 < q) (hhigh : q < M + 1 / 2) :
    IsNearest q M := by
  refine .inl ?_
  rw [Int.cast_natCast]
  have habs : |q - M| < 1 / 2 := abs_lt.mpr ⟨by linarith, by linarith⟩
  linarith

theorem shown_tb (t : ℕ) : shown .tb t = t * 10 ^ 12 / (10 * 2 ^ 30) := by
  rw [shown]
  norm_num [Scale.bytes]

/-- These ties are computed as they are. -/
theorem tie_exact {t : ℕ}
    (h : t = 19 * 262144 ∨ t = 57 * 262144 ∨ t = 297 * 262144 ∨ t = 335 * 262144) :
    gibOf .tb t = some (shown .tb t) := by
  obtain rfl | rfl | rfl | rfl := h
  · refine gibOf_of_bits (M := 8556839292003942) (e := -34) (N := 7782400000000000) (k := 6)
      (nearest_eq ?_ ?_ ?_ (isNearest_of_lt ?_ ?_)) (nearest_eq ?_ ?_ ?_ (isNearest_of_lt ?_ ?_))
      ?_ ?_ ?_ ?_ ?_ <;> norm_num [shown_tb]
  · refine gibOf_of_bits (M := 6417629469002957) (e := -32) (N := 5836800000000000) (k := 8)
      (nearest_eq ?_ ?_ ?_ (isNearest_of_lt ?_ ?_)) (nearest_eq ?_ ?_ ?_ (isNearest_of_lt ?_ ?_))
      ?_ ?_ ?_ ?_ ?_ <;> norm_num [shown_tb]
  · refine gibOf_of_bits (M := 8359806808306483) (e := -30) (N := 7603200000000000) (k := 10)
      (nearest_eq ?_ ?_ ?_ (isNearest_of_lt ?_ ?_)) (nearest_eq ?_ ?_ ?_ (isNearest_of_lt ?_ ?_))
      ?_ ?_ ?_ ?_ ?_ <;> norm_num [shown_tb]
  · refine gibOf_of_bits (M := 4714705859903488) (e := -29) (N := 8576000000000000) (k := 10)
      (nearest_eq ?_ ?_ ?_ (isNearest_of_lt ?_ ?_)) (nearest_eq ?_ ?_ ?_ (isNearest_of_lt ?_ ?_))
      ?_ ?_ ?_ ?_ ?_ <;> norm_num [shown_tb]

/-! ### What is read -/

theorem tenths_le {n : ℕ} {u : Scale} {t : ℕ} (hn : n < 2 ^ 33) (h : OneDecimal n u t) :
    t ≤ 2 ^ 70 := by
  have hupper := (abs_le.mp (show |excess n u t| ≤ u.bytes by rw [OneDecimal] at h; omega)).2
  rw [excess] at hupper
  have hle : (t : ℤ) ≤ t * u.bytes :=
    le_mul_of_one_le_right (Int.natCast_nonneg t) (by cases u <;> norm_num [Scale.bytes])
  have hbytes : (u.bytes : ℤ) ≤ 2 ^ 40 := by cases u <;> norm_num [Scale.bytes]
  omega

theorem exists_tib (n : ℕ) : ∃ t, OneDecimal n .tib t := by
  refine ⟨(10 * n + 512) / 1024, ?_⟩
  rw [OneDecimal, excess_tib, abs_mul, abs_of_nonneg (by norm_num)]
  have habs : |(((10 * n + 512) / 1024 : ℕ) : ℤ) * 512 - (n : ℤ) * 5| ≤ 256 :=
    abs_le.mpr ⟨by omega, by omega⟩
  simp only [Scale.bytes]
  push_cast at habs ⊢
  omega

/-- A display of a size that is near to a tenth of a tebibyte is read as the nearest size. -/
theorem read_display {n : ℕ} {u : Scale} {t : ℕ} (hn : n < 2 ^ 33) (hone : OneDecimal n u t)
    (htib : Tie n u t → ∃ t', NearestGib n .tib t') :
    ∃ g, gibOf u t = some g ∧ (roundEven g = n ↔ NearestGib n u t) := by
  by_cases htie : Tie n u t
  · obtain ⟨t', hnear⟩ := htib htie
    obtain rfl := htie.tb hone
    refine ⟨_, tie_exact (tie_cases hn htie hnear), ?_⟩
    have hhalf : 2 * |shown .tb t - ((n : ℤ) : ℚ)| = 1 := by
      have hcast : 2 * ((|excess n .tb t| : ℤ) : ℚ) = 10 * 2 ^ 30 := by exact_mod_cast htie
      rw [Int.cast_natCast, abs_shown_sub, ← mul_div_assoc, hcast]
      norm_num
    rw [roundEven_eq_iff, IsNearest, NearestGib, hhalf]
    have hsame : 2 * |excess n .tb t| = 10 * 2 ^ 30 := htie
    simp [hsame]
  · obtain ⟨g, hg, herror⟩ := gib_error (u := u) (tenths_le hn hone)
    exact ⟨g, hg, read_iff hn hone htie herror⟩

/-- A quota is read back, without drift, however it is shown. -/
def Reads (U : Digits) (n : ℕ) : Prop :=
  ∀ d : Display, OneDecimal n d.scale d.tenths →
    parse_current U d.text = some (.size n d.hard) ∧ do_share U n d.hard d.text = some .same

/-- A text shows a quota. -/
def IsDisplay (text : List Char) : Prop :=
  ∃ n, ∃ d : Display, 1 ≤ n ∧ OneDecimal n d.scale d.tenths ∧ d.text = text

/-- No size is read of a text that does not show a quota. -/
def Refuses (U : Digits) (text : List Char) : Prop :=
  ¬ IsDisplay text →
    parse_current U text = some .unset ∨ parse_current U text = some .unparseable

theorem do_share_eq_same {U : Digits} {n : ℕ} {hard : Bool} {text : List Char} (hn : 1 ≤ n)
    (h : parse_current U text = some (.size n hard)) :
    do_share U n hard text = some .same := by
  rw [do_share, h, Option.map_some]
  dsimp only
  rw [if_neg (by omega), if_neg (by simp)]

theorem parse_text_eq_iff {U : Digits} {d : Display} {n : ℕ} {g : ℚ}
    (hg : gibOf d.scale d.tenths = some g) :
    parse_current U d.text = some (.size n d.hard) ↔ roundEven g = n := by
  rw [parse_text, hg, Option.map_some]
  simp

theorem refused_iff {U : Digits} {text : List Char} :
    (parse_current U text = some .unset ∨ parse_current U text = some .unparseable) ↔
      text = [] ∨ noQuota text = true ∨ ¬ Numbered U text := by
  rw [parse_current, ← or_assoc]
  by_cases h : text = [] ∨ noQuota text = true
  · rw [if_pos h]
    exact iff_of_true (.inl rfl) (.inl h)
  · rw [if_neg h, or_iff_right h, ← search_isSome_iff]
    cases hsearch : search U text with
    | none => exact iff_of_true (.inr rfl) Bool.false_ne_true
    | some m =>
      dsimp only
      refine iff_of_false (fun hread => ?_) (not_not.mpr rfl)
      obtain hread | hread := hread
      · obtain ⟨val, -, hread⟩ := Option.bind_eq_some_iff.mp hread
        obtain ⟨g, -, hread⟩ := Option.map_eq_some_iff.mp hread
        exact nomatch hread
      · obtain ⟨val, -, hread⟩ := Option.bind_eq_some_iff.mp hread
        obtain ⟨g, -, hread⟩ := Option.map_eq_some_iff.mp hread
        exact nomatch hread

theorem nearest_of_reads {U : Digits} {n : ℕ} (hn : n < 2 ^ 33) (h : Reads U n) {u : Scale} {t : ℕ}
    (hone : OneDecimal n u t) : NearestGib n u t := by
  have hread : ∀ {u t}, OneDecimal n u t → ∀ {g}, gibOf u t = some g → roundEven g = n := by
    intro u t hone g hg
    have hd := (h ⟨u, t, true, .none, [], nofun, nofun⟩ hone).1
    exact (parse_text_eq_iff (d := ⟨u, t, true, .none, [], nofun, nofun⟩) hg).mp hd
  obtain ⟨t', hone'⟩ := exists_tib n
  have htib : NearestGib n .tib t' := by
    obtain ⟨g, hg, hiff⟩ := read_display hn hone' fun htie => nomatch htie.tb hone'
    exact hiff.mp (hread hone' hg)
  obtain ⟨g, hg, hiff⟩ := read_display hn hone fun _ => ⟨t', htib⟩
  exact hiff.mp (hread hone hg)

theorem reads_of_nearest {U : Digits} {n : ℕ} (hpos : 1 ≤ n) (hn : n < 2 ^ 33)
    (h : ∀ u t, OneDecimal n u t → NearestGib n u t) : Reads U n := by
  intro d hone
  obtain ⟨t', hone'⟩ := exists_tib n
  obtain ⟨g, hg, hiff⟩ := read_display hn hone fun _ => ⟨t', h _ _ hone'⟩
  have hparse : parse_current U d.text = some (.size n d.hard) :=
    (parse_text_eq_iff hg).mpr (hiff.mpr (h _ _ hone))
  exact ⟨hparse, do_share_eq_same hpos hparse⟩

/-- A quota of less than 2^63 bytes is read back exactly if it is the nearest whole number of GiB to
each text that shows it, and another text is refused exactly if it is empty, says `no quota`, or has
no number after `Quota`. -/
theorem quota_read_iff (U : Digits) :
    (∀ n : ℕ, 1 ≤ n → n * 2 ^ 30 < 2 ^ 63 →
      (Reads U n ↔ ∀ u t, OneDecimal n u t → NearestGib n u t)) ∧
    ∀ text, Refuses U text ↔
      IsDisplay text ∨ text = [] ∨ noQuota text = true ∨ ¬ Numbered U text := by
  constructor
  · intro n hpos hbytes
    have hn : n < 2 ^ 33 := by omega
    exact ⟨fun h u t hone => nearest_of_reads hn h hone, reads_of_nearest hpos hn⟩
  · intro text
    rw [Refuses, refused_iff]
    exact Classical.or_iff_not_imp_left.symm

/-- The digits of ASCII alone. -/
def asciiDigits : Digits where
  digit c := if c.isDigit then some (c.toNat - '0'.toNat) else none
  ascii _ _ := rfl
  space c h := by
    rw [if_neg]
    intro hdigit
    simp only [Char.isDigit, Bool.and_eq_true, decide_eq_true_eq, ge_iff_le,
      UInt32.le_iff_toNat_le] at hdigit
    have hlow : 48 ≤ c.toNat := hdigit.1
    have hhigh : c.toNat ≤ 57 := hdigit.2
    simp only [isspace, Bool.or_eq_true, Bool.and_eq_true, decide_eq_true_eq] at h
    omega

/-- 1024 GiB are 1.0 TiB and 1.1 TB, which are read as 1024 GiB. -/
theorem tebibyte_read : Reads asciiDigits 1024 := by
  refine ((quota_read_iff asciiDigits).1 1024 (by norm_num) (by norm_num)).mpr ?_
  intro u t hone
  obtain ⟨hlow, hhigh⟩ := abs_le.mp (show |excess 1024 u t| ≤ u.bytes / 2 by
    rw [OneDecimal] at hone
    omega)
  refine .inl ?_
  have habs : |excess 1024 u t| ≤ 5000000000 := by
    refine abs_le.mpr ?_
    cases u <;> simp only [excess, Scale.bytes] at hlow hhigh ⊢ <;> push_cast at hlow hhigh ⊢ <;>
      constructor <;> omega
  omega

theorem foreign_comma : Foreign ',' :=
  ⟨rfl, by decide, rfl, by decide, by rintro (_ | _) <;> decide, by rintro (_ | _) <;> decide⟩

/-- 1500 GiB are 1.5 TiB, which are read as 1536 GiB; and `1,000 GB` is read as 1 GB. -/
theorem rounded_not_read : ¬ Reads asciiDigits 1500 ∧
    ¬ Refuses asciiDigits "Quota: 1,000 GB".toList := by
  constructor
  · intro h
    have hone : OneDecimal 1500 .tib 15 := by
      rw [OneDecimal, excess_tib]
      norm_num [Scale.bytes]
    have hnear := nearest_of_reads (by norm_num) h hone
    rw [NearestGib, excess_tib] at hnear
    norm_num at hnear
  · intro h
    have hnot : ¬ IsDisplay "Quota: 1,000 GB".toList := by
      rintro ⟨n, d, -, -, htext⟩
      exact not_mem_text d foreign_comma (htext ▸ by decide)
    obtain hempty | hno | hnumber := refused_iff.mp (h hnot)
    · exact absurd hempty (by decide)
    · exact absurd hno (by decide)
    · refine hnumber ⟨[], "Quota".toList, [':', ' '], '1', ",000 GB".toList, rfl, rfl, ?_, rfl⟩
      decide

end ApplyQuotas
