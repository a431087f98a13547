/-
What `_parse_current` finds in a text.

* `Numbered`, `search_isSome_iff` — where `QUOTA_RE` finds something: `Quota`, and a digit or a
  point after it;
* `search_text`, `decimal_number` — in a display it finds the number that is shown.
-/
import KrgInfra.Quotas
import Mathlib

namespace ApplyQuotas

open Python

/-! ### Where something is found -/

theorem matchWord_eq_some_iff {word s rest : List Char} :
    matchWord word s = some rest ↔ ∃ found, s = found ++ rest ∧ matchWord word found = some [] := by
  induction word generalizing s with
  | nil =>
    constructor
    · intro h
      exact ⟨[], Option.some_inj.mp h, rfl⟩
    · rintro ⟨found, rfl, h⟩
      obtain rfl : found = [] := Option.some_inj.mp h
      rfl
  | cons c word ih =>
    cases s with
    | nil =>
      refine iff_of_false (fun h => nomatch h) ?_
      rintro ⟨found, happend, h⟩
      rw [(List.append_eq_nil_iff.mp happend.symm).1] at h
      exact nomatch h
    | cons x s =>
      rw [matchWord]
      constructor
      · intro h
        split_ifs at h with hsame
        obtain ⟨found, rfl, hfound⟩ := ih.mp h
        refine ⟨x :: found, rfl, ?_⟩
        rw [matchWord, if_pos hsame, hfound]
      · rintro ⟨found, happend, h⟩
        cases found with
        | nil => exact nomatch h
        | cons x' found =>
          obtain ⟨rfl, rfl⟩ := List.cons.inj happend
          rw [matchWord] at h
          split_ifs at h with hsame
          rw [if_pos hsame]
          exact ih.mpr ⟨found, rfl, h⟩

section Found

variable {U : Digits}

/-- A digit or a point is neither a blank nor a colon. -/
theorem not_inGap_of_inSize {c : Char} (h : inSize U c = true) : inGap c = false := by
  rw [inGap, Bool.or_eq_false_iff, decide_eq_false_iff_not]
  obtain hdigit | rfl := (Bool.or_eq_true_iff.mp h).imp_right of_decide_eq_true
  · constructor
    · rintro rfl
      rw [U.ascii ':' (by decide)] at hdigit
      exact absurd hdigit (by decide)
    · rw [Bool.eq_false_iff]
      intro hspace
      rw [U.space c hspace] at hdigit
      exact nomatch hdigit
  · exact ⟨by decide, by decide⟩

/-- `Quota` stands in the text, and after it, behind colons and blanks, a digit or a point. -/
def Numbered (U : Digits) (text : List Char) : Prop :=
  ∃ before word gap c rest, text = before ++ (word ++ (gap ++ c :: rest)) ∧
    matchWord "quota".toList word = some [] ∧ (∀ x ∈ gap, inGap x = true) ∧ inSize U c = true

theorem matchQuota_isSome_iff {s : List Char} : (matchQuota U s).isSome ↔
    ∃ word gap c rest, s = word ++ (gap ++ c :: rest) ∧
      matchWord "quota".toList word = some [] ∧ (∀ x ∈ gap, inGap x = true) ∧
        inSize U c = true := by
  rw [Option.isSome_iff_exists]
  constructor
  · rintro ⟨m, h⟩
    obtain ⟨rest, hword, hrest⟩ := Option.bind_eq_some_iff.mp h
    obtain ⟨word, rfl, hfound⟩ := matchWord_eq_some_iff.mp hword
    dsimp only at hrest
    split_ifs at hrest with hsize
    have hsplit := List.takeWhile_append_dropWhile (p := inGap) (l := rest)
    cases hdrop : rest.dropWhile inGap with
    | nil =>
      rw [hdrop] at hsize
      exact absurd rfl hsize
    | cons c after =>
      rw [hdrop, List.takeWhile_cons] at hsize
      refine ⟨word, rest.takeWhile inGap, c, after, ?_, hfound, fun x hx => ?_, ?_⟩
      · rw [← hdrop, hsplit]
      · exact List.mem_takeWhile_imp hx
      · by_contra hc
        rw [if_neg hc] at hsize
        exact hsize rfl
  · rintro ⟨word, gap, c, rest, rfl, hword, hgap, hc⟩
    have hdrop : (gap ++ c :: rest).dropWhile inGap = c :: rest := by
      rw [List.dropWhile_append_of_pos hgap, List.dropWhile_cons,
        if_neg (Bool.eq_false_iff.mp (not_inGap_of_inSize hc))]
    have hsize : ((c :: rest).takeWhile (inSize U)) ≠ [] := by
      rw [List.takeWhile_cons, if_pos hc]
      exact nofun
    refine Option.isSome_iff_exists.mp ?_
    rw [matchQuota, matchWord_eq_some_iff.mpr ⟨word, rfl, hword⟩, Option.bind_some]
    dsimp only
    rw [hdrop, if_neg hsize]
    rfl

/-- Where the pattern finds something. -/
theorem search_isSome_iff {text : List Char} : (search U text).isSome ↔ Numbered U text := by
  induction text with
  | nil =>
    refine iff_of_false Bool.false_ne_true ?_
    rintro ⟨before, word, gap, c, rest, h, -⟩
    simp at h
  | cons x text ih =>
    rw [search, Option.isSome_or, Bool.or_eq_true, ih, matchQuota_isSome_iff]
    constructor
    · rintro (⟨word, gap, c, rest, h, hword⟩ | ⟨before, word, gap, c, rest, rfl, hword⟩)
      · exact ⟨[], word, gap, c, rest, h, hword⟩
      · exact ⟨x :: before, word, gap, c, rest, rfl, hword⟩
    · rintro ⟨before, word, gap, c, rest, h, hword⟩
      cases before with
      | nil => exact .inl ⟨word, gap, c, rest, h, hword⟩
      | cons x' before =>
        obtain ⟨rfl, rfl⟩ := List.cons.inj h
        exact .inr ⟨before, word, gap, c, rest, rfl, hword⟩

theorem search_of_matchQuota {s : List Char} {m : Match} (h : matchQuota U s = some m) :
    search U s = some m := by
  cases s with
  | nil => exact nomatch h
  | cons c s =>
    rw [search, h]
    rfl

end Found

/-! ### What is found in a display -/

theorem eq_of_toLower_n {c : Char} (h : c.toLower = 'n') : c = 'n' ∨ c = 'N' := by
  rw [Char.toLower] at h
  split at h
  · right
    have hval : (c.val.toNat + 32) % 2 ^ 32 = 110 := by
      have heq := congrArg (fun c : Char => c.val.toNat) h
      rwa [UInt32.toNat_add] at heq
    have hlt : c.val.toNat < 2 ^ 32 := c.val.toNat_lt
    refine Char.ext (UInt32.toNat_inj.mp ?_)
    show c.val.toNat = 78
    omega
  · exact .inl h

/-- A text without an `n` does not say that there is no quota. -/
theorem noQuota_eq_false {text : List Char} (h : 'n' ∉ text) (h' : 'N' ∉ text) :
    noQuota text = false := by
  rw [noQuota, List.any_eq_false]
  intro s hs hmatch
  obtain ⟨rest, hrest⟩ := Option.isSome_iff_exists.mp hmatch
  cases s with
  | nil => exact nomatch hrest
  | cons x s =>
    have hx : x ∈ text := ((List.mem_tails _ _).mp hs).subset List.mem_cons_self
    have hsame : same 'n' x = true := by
      by_contra hno
      change (if same 'n' x then _ else none) = some rest at hrest
      rw [if_neg hno] at hrest
      exact nomatch hrest
    have hlower : x.toLower = 'n' := by simpa [same] using hsame
    obtain rfl | rfl := eq_of_toLower_n hlower
    · exact h hx
    · exact h' hx

section Displays

variable (U : Digits) (d : Display)

theorem digit_of_isDigit {c : Char} (h : c.isDigit = true) :
    U.digit c = some (c.toNat - '0'.toNat) := by
  have hle : c.toNat ≤ 57 := by
    simp only [Char.isDigit, Bool.and_eq_true, decide_eq_true_eq] at h
    exact h.2
  rw [U.ascii c (by omega), if_pos h]

theorem mem_number {c : Char} (h : c ∈ d.number) : c.isDigit = true ∨ c = '.' := by
  obtain h | h := List.mem_append.mp h
  · exact .inl (DecimalText.isDigit_of_mem h)
  · split_ifs at h
    · obtain rfl | h := List.mem_cons.mp h
      · exact .inr rfl
      · rw [List.mem_singleton.mp h]
        exact .inl (Nat.isDigit_digitChar.trans (decide_eq_true (Nat.mod_lt _ (by decide))))
    · exact nomatch h

theorem inSize_of_mem {c : Char} (h : c ∈ d.number) : inSize U c = true := by
  obtain hdigit | rfl := mem_number d h
  · rw [inSize, digit_of_isDigit U hdigit]
    rfl
  · rw [inSize, Bool.or_eq_true]
    exact .inr rfl

theorem exists_number : ∃ c rest, d.number = c :: rest := by
  refine List.exists_cons_of_ne_nil fun h => ?_
  exact Nat.toDigits_ne_nil (List.append_eq_nil_iff.mp h).1

/-- A unit is found, whatever stands after it. -/
theorem matchUnit_name (u : Scale) (rest : List Char) :
    matchUnit (u.name.toList ++ rest) = (u.name.toList, rest) := by
  cases u <;> rfl

theorem hard_tag : (matchWord "(hard)".toList
    ((d.tag.text.toList ++ d.blanks).dropWhile isspace)).isSome = d.hard := by
  have hblanks : d.blanks.dropWhile isspace = [] :=
    List.dropWhile_eq_nil_iff.mpr d.blank
  rw [Display.hard]
  cases d.tag with
  | none =>
    show (matchWord _ (d.blanks.dropWhile isspace)).isSome = _
    rw [hblanks]
    rfl
  | hard => rfl
  | soft => rfl

theorem search_text : search U d.text = some ⟨d.number, d.scale.name.toList, d.hard⟩ := by
  obtain ⟨c, rest, hnumber⟩ := exists_number d
  have hc : inSize U c = true := inSize_of_mem U d (hnumber ▸ List.mem_cons_self)
  have hspace : inSize U ' ' = false := by
    rw [inSize, U.space ' ' (by decide)]
    rfl
  have hall : ∀ x ∈ d.number, inSize U x = true := fun x => inSize_of_mem U d
  have htake : ∀ after, (d.number ++ ' ' :: after).takeWhile (inSize U) = d.number := by
    intro after
    rw [List.takeWhile_append_of_pos hall, List.takeWhile_cons,
      if_neg (Bool.eq_false_iff.mp hspace), List.append_nil]
  have hdrop : ∀ after, (d.number ++ ' ' :: after).dropWhile (inSize U) = ' ' :: after := by
    intro after
    rw [List.dropWhile_append_of_pos hall, List.dropWhile_cons,
      if_neg (Bool.eq_false_iff.mp hspace)]
  have hgap : ∀ after, (':' :: ' ' :: (d.number ++ after)).dropWhile inGap =
      d.number ++ after := by
    intro after
    show (d.number ++ after).dropWhile inGap = _
    rw [hnumber, List.cons_append, List.dropWhile_cons,
      if_neg (Bool.eq_false_iff.mp (not_inGap_of_inSize hc))]
  have hname : ∀ after, (' ' :: (d.scale.name.toList ++ after)).dropWhile isspace =
      d.scale.name.toList ++ after := by
    intro after
    cases d.scale <;> rfl
  have hne : d.number ≠ [] := by
    rw [hnumber]
    exact nofun
  have hword : matchWord "quota".toList d.text = some (':' :: ' ' ::
      (d.number ++ ' ' :: (d.scale.name.toList ++ (d.tag.text.toList ++ d.blanks)))) := rfl
  have hmatch : matchQuota U d.text = some ⟨d.number, d.scale.name.toList, d.hard⟩ := by
    rw [matchQuota, hword, Option.bind_some]
    dsimp only
    rw [hgap, htake, if_neg hne, hdrop, hname, matchUnit_name]
    dsimp only
    rw [hard_tag]
  exact search_of_matchQuota hmatch

/-- A character that is in no part of a display. -/
def Foreign (x : Char) : Prop :=
  x.isDigit = false ∧ x ≠ '.' ∧ isspace x = false ∧ x ∉ "Quota: ".toList ∧
    (∀ u : Scale, x ∉ ' ' :: u.name.toList) ∧ ∀ t : Tag, x ∉ t.text.toList

theorem not_mem_text {x : Char} (h : Foreign x) : x ∉ d.text := by
  obtain ⟨hdigit, hpoint, hspace, hquota, hname, htag⟩ := h
  have hnumber : x ∉ d.number := by
    intro h
    obtain h | h := mem_number d h
    · exact absurd (hdigit.symm.trans h) Bool.false_ne_true
    · exact hpoint h
  have hblanks : x ∉ d.blanks := fun h => absurd (d.blank x h) (Bool.eq_false_iff.mp hspace)
  have happend : ∀ {l m : List Char}, x ∉ l → x ∉ m → x ∉ l ++ m :=
    fun hl hm h => (List.mem_append.mp h).elim hl hm
  exact happend hquota (happend hnumber (happend (hname _) (happend (htag _) hblanks)))

theorem foreign_n : Foreign 'n' :=
  ⟨rfl, by decide, rfl, by decide, by rintro (_ | _) <;> decide, by rintro (_ | _) <;> decide⟩

theorem foreign_N : Foreign 'N' :=
  ⟨rfl, by decide, rfl, by decide, by rintro (_ | _) <;> decide, by rintro (_ | _) <;> decide⟩

theorem noQuota_text : noQuota d.text = false :=
  noQuota_eq_false (not_mem_text d foreign_n) (not_mem_text d foreign_N)

theorem unitOf_name (u : Scale) : unitOf u.name.toList = u.key := by
  have hne : u.name.toList ≠ [] := by cases u <;> decide
  have hlower : u.name.toList.map Char.toLower = u.key.toList := by cases u <;> rfl
  rw [unitOf, if_neg hne, hlower, String.ofList_toList]

/-! ### The number -/

theorem natOf_eq {s : List Char} (h : ∀ c ∈ s, c.isDigit = true) :
    natOf U s = Nat.ofDigitChars 10 s 0 := by
  have hfold : ∀ n, s.foldl (fun n c => 10 * n + (U.digit c).getD 0) n =
      Nat.ofDigitChars 10 s n := by
    induction s with
    | nil => exact fun _ => rfl
    | cons c s ih =>
      intro n
      rw [List.foldl_cons, ih fun x hx => h x (List.mem_cons_of_mem _ hx),
        digit_of_isDigit U (h c List.mem_cons_self)]
      rfl
  exact hfold 0

/-- The number of a display is what is shown. -/
theorem decimal_number : decimal U d.number = some ((d.tenths : ℚ) / 10) := by
  have hdigits : ∀ c ∈ Nat.toDigits 10 (d.tenths / 10), c.isDigit = true :=
    fun c => DecimalText.isDigit_of_mem
  have hnot : '.' ∉ Nat.toDigits 10 (d.tenths / 10) := by
    intro h
    exact absurd (hdigits '.' h) (by decide)
  have hwhole : natOf U (Nat.toDigits 10 (d.tenths / 10)) = d.tenths / 10 := by
    rw [natOf_eq U hdigits, Nat.ofDigitChars_toDigits (by decide) (by decide)]
  have hne : Nat.toDigits 10 (d.tenths / 10) ≠ [] := Nat.toDigits_ne_nil
  have hdiv : d.tenths = 10 * (d.tenths / 10) + d.tenths % 10 := (Nat.div_add_mod _ _).symm
  rw [decimal, Display.number]
  cases hpoint : d.point with
  | false =>
    rw [if_neg Bool.false_ne_true, List.append_nil, List.splitOn_eq_singleton hnot]
    dsimp only
    rw [if_neg hne, hwhole]
    obtain ⟨m, hm⟩ := d.whole hpoint
    rw [hm, Nat.mul_div_cancel_left m (by decide)]
    push_cast
    rw [mul_div_cancel_left₀ _ (by norm_num)]
  | true =>
    have hlast : (Nat.digitChar (d.tenths % 10)).isDigit = true :=
      Nat.isDigit_digitChar.trans (decide_eq_true (Nat.mod_lt _ (by decide)))
    have hnot' : '.' ∉ [Nat.digitChar (d.tenths % 10)] := by
      intro h
      rw [← List.mem_singleton.mp h] at hlast
      exact absurd hlast (by decide)
    have htenth : natOf U [Nat.digitChar (d.tenths % 10)] = d.tenths % 10 := by
      rw [natOf_eq U fun c hc => List.mem_singleton.mp hc ▸ hlast]
      show 10 * 0 + ((Nat.digitChar (d.tenths % 10)).toNat - '0'.toNat) = _
      rw [Nat.toNat_digitChar_of_lt_ten (Nat.mod_lt _ (by decide))]
      show 10 * 0 + (48 + d.tenths % 10 - 48) = _
      omega
    rw [if_pos rfl, List.splitOn_append_cons_self_of_not_mem hnot, List.splitOn_eq_singleton hnot']
    dsimp only
    have hcast : (d.tenths : ℚ) = 10 * (d.tenths / 10 : ℕ) + (d.tenths % 10 : ℕ) := by
      exact_mod_cast hdiv
    rw [if_neg fun h => hne h.1, hwhole, htenth, List.length_singleton, pow_one, hcast, add_div,
      mul_div_cancel_left₀ _ (by norm_num)]

end Displays

end ApplyQuotas
