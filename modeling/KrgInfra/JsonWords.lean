/-
Words in a printed JSON document.

`json.dumps` writes every character of a string as it is, or as an escape sequence of small letters
and digits; all else that it writes are small letters, digits and punctuation.  So a word of
capital letters stands in the text if and only if it stands in one of the strings.

* `strings`, `Mentions` — the strings of a document, its names included;
* `sortKeys` — `sort_keys=True`;
* `Sentinel` — a word of capital letters;
* `infix_dumps` — where such a word stands in the text;
* `infix_of_pyStr` — the same of `repr` of a string.
-/
import KrgInfra.DecimalText
import KrgInfra.JsonDumps
import KrgInfra.WordSearch
import Mathlib.Data.List.Sort
import Mathlib.Data.String.Basic

namespace JsonText

open WordSearch

/-! ### The strings of a document -/

mutual

def strings : Json → List String
  | .str s => [s]
  | .arr items => stringsOfItems items
  | .obj members => stringsOfMembers members
  | _ => []

def stringsOfItems : List Json → List String
  | [] => []
  | v :: items => strings v ++ stringsOfItems items

def stringsOfMembers : List (String × Json) → List String
  | [] => []
  | (key, v) :: members => key :: (strings v ++ stringsOfMembers members)

end

theorem mem_stringsOfItems {items : List Json} {s : String} :
    s ∈ stringsOfItems items ↔ ∃ v ∈ items, s ∈ strings v := by
  induction items with
  | nil => simp [stringsOfItems]
  | cons v items ih => rw [stringsOfItems, List.mem_append, ih, List.exists_mem_cons_iff]

theorem mem_stringsOfMembers {members : Members} {s : String} :
    s ∈ stringsOfMembers members ↔ ∃ m ∈ members, s = m.1 ∨ s ∈ strings m.2 := by
  induction members with
  | nil => simp [stringsOfMembers]
  | cons m members ih =>
    rw [stringsOfMembers, List.mem_cons, List.mem_append, ih, List.exists_mem_cons_iff, or_assoc]

/-- A word stands in a string of the document. -/
def Mentions (w : List Char) (v : Json) : Prop := ∃ s ∈ strings v, w <:+: s.toList

/-- A document without strings. -/
theorem mentions_none {w : List Char} {v : Json} (h : strings v = []) : ¬ Mentions w v := by
  rintro ⟨s, hs, -⟩
  rw [h] at hs
  exact nomatch hs

theorem mentions_str {w : List Char} {s : String} : Mentions w (.str s) ↔ w <:+: s.toList := by
  simp [Mentions, strings]

theorem mentions_arr {w : List Char} {items : List Json} :
    Mentions w (.arr items) ↔ ∃ v ∈ items, Mentions w v := by
  simp only [Mentions, strings, mem_stringsOfItems]
  constructor
  · rintro ⟨s, ⟨v, hv, hs⟩, hw⟩
    exact ⟨v, hv, s, hs, hw⟩
  · rintro ⟨v, hv, s, hs, hw⟩
    exact ⟨s, ⟨v, hv, hs⟩, hw⟩

theorem mentions_obj {w : List Char} {members : Members} :
    Mentions w (.obj members) ↔ ∃ m ∈ members, w <:+: m.1.toList ∨ Mentions w m.2 := by
  simp only [Mentions, strings, mem_stringsOfMembers]
  constructor
  · rintro ⟨s, ⟨m, hm, rfl | hs⟩, hw⟩
    · exact ⟨m, hm, .inl hw⟩
    · exact ⟨m, hm, .inr ⟨s, hs, hw⟩⟩
  · rintro ⟨m, hm, hw | ⟨s, hs, hw⟩⟩
    · exact ⟨m.1, ⟨m, hm, .inl rfl⟩, hw⟩
    · exact ⟨s, ⟨m, hm, .inr hs⟩, hw⟩

/-! ### Sorted keys -/

mutual

def sortKeys : Json → Json
  | .arr items => .arr (sortItems items)
  | .obj members => .obj ((sortMembers members).insertionSort fun a b => a.1 ≤ b.1)
  | v => v

def sortItems : List Json → List Json
  | [] => []
  | v :: items => sortKeys v :: sortItems items

def sortMembers : List (String × Json) → List (String × Json)
  | [] => []
  | (key, v) :: members => (key, sortKeys v) :: sortMembers members

end

mutual

/-- Sorting the keys leaves the strings of a document. -/
theorem mentions_sortKeys {w : List Char} : ∀ v : Json, Mentions w (sortKeys v) ↔ Mentions w v
  | .null => Iff.rfl
  | .bool _ => Iff.rfl
  | .int _ => Iff.rfl
  | .float _ => Iff.rfl
  | .str _ => Iff.rfl
  | .arr items => by
    rw [sortKeys, mentions_arr, mentions_arr]
    exact mentions_sortItems items
  | .obj members => by
    rw [sortKeys, mentions_obj, mentions_obj]
    simp only [List.mem_insertionSort]
    exact mentions_sortMembers members

theorem mentions_sortItems {w : List Char} : ∀ items : List Json,
    (∃ v ∈ sortItems items, Mentions w v) ↔ ∃ v ∈ items, Mentions w v
  | [] => Iff.rfl
  | v :: items => by
    rw [sortItems, List.exists_mem_cons_iff, List.exists_mem_cons_iff, mentions_sortKeys v,
      mentions_sortItems items]

theorem mentions_sortMembers {w : List Char} : ∀ members : Members,
    (∃ m ∈ sortMembers members, w <:+: m.1.toList ∨ Mentions w m.2) ↔
      ∃ m ∈ members, w <:+: m.1.toList ∨ Mentions w m.2
  | [] => Iff.rfl
  | (key, v) :: members => by
    rw [sortMembers, List.exists_mem_cons_iff, List.exists_mem_cons_iff, mentions_sortKeys v,
      mentions_sortMembers members]

end

/-! ### Words -/

/-- The text of a float has no capital letters. -/
structure PyFloats extends Floats where
  repr_small (q : ℚ) : ∀ c ∈ repr q, c.isUpper = false

/-- A word of capital letters, and perhaps hyphens. -/
structure Sentinel (w : List Char) : Prop where
  letters : ∀ c ∈ w, c.isUpper = true ∨ c = '-'
  upper : ∃ c ∈ w, c.isUpper = true
  two : 2 ≤ w.length

variable {w : List Char}

theorem Sentinel.ne_nil (h : Sentinel w) : w ≠ [] := by
  rintro rfl
  exact absurd h.two (by decide)

/-- A character that is neither a capital letter nor a hyphen is not in the word. -/
theorem Sentinel.not_mem (h : Sentinel w) {c : Char} (hc : c.isUpper = false ∧ c ≠ '-') : c ∉ w := by
  intro hmem
  rcases h.letters c hmem with hupper | rfl
  · rw [hc.1] at hupper
    exact nomatch hupper
  · exact hc.2 rfl

/-- A text without capital letters does not have the word. -/
theorem Sentinel.absent (h : Sentinel w) {l : List Char} (hl : ∀ c ∈ l, c.isUpper = false) :
    ¬ w <:+: l := by
  obtain ⟨c, hc, hupper⟩ := h.upper
  refine not_infix_of_mem hc fun hmem => ?_
  rw [hl c hmem] at hupper
  exact nomatch hupper

theorem hexDigit_small (n : ℕ) : (hexDigit n).isUpper = false ∧ hexDigit n ≠ '-' := by
  rcases Nat.lt_or_ge n 16 with hn | hn
  · have hall : ∀ n < 16, (hexDigit n).isUpper = false ∧ hexDigit n ≠ '-' := by decide
    exact hall n hn
  · rw [hexDigit, List.getElem?_eq_none (by simpa using hn)]
    decide

theorem hexDigits_small {c : Char} : ∀ (k n : ℕ), c ∈ hexDigits k n → c.isUpper = false ∧ c ≠ '-' := by
  intro k
  induction k with
  | zero => exact fun _ h => nomatch h
  | succ k ih =>
    intro n h
    rw [hexDigits, List.mem_append, List.mem_singleton] at h
    rcases h with h | rfl
    · exact ih _ h
    · exact hexDigit_small _

/-! ### Strings that are written -/

theorem inert_small (h : Sentinel w) {piece : List Char} (hne : piece ≠ [])
    (hsmall : ∀ c ∈ piece, c.isUpper = false ∧ c ≠ '-') : Inert w piece :=
  inert_of_not_mem h.ne_nil hne fun c hc => h.not_mem (hsmall c hc)

theorem inert_unicode (h : Sentinel w) (u : ℕ) : Inert w ('\\' :: 'u' :: hexDigits 4 u) := by
  refine inert_small h (List.cons_ne_nil _ _) fun c hc => ?_
  rcases List.mem_cons.mp hc with rfl | hc
  · decide
  · rcases List.mem_cons.mp hc with rfl | hc
    · decide
    · exact hexDigits_small 4 _ hc

/-- The escape sequence of a code unit is the character, or no part of the word. -/
theorem escapeUnit_plain_or (h : Sentinel w) (u : ℕ) :
    escapeUnit u = [Char.ofNat u] ∨ Inert w (escapeUnit u) := by
  rw [escapeUnit]
  split_ifs
  · exact .inr (inert_small h (by decide) (by decide))
  · exact .inr (inert_small h (by decide) (by decide))
  · exact .inr (inert_small h (by decide) (by decide))
  · exact .inr (inert_small h (by decide) (by decide))
  · exact .inr (inert_small h (by decide) (by decide))
  · exact .inr (inert_small h (by decide) (by decide))
  · exact .inr (inert_small h (by decide) (by decide))
  · exact .inl rfl
  · exact .inr (inert_unicode h u)

theorem escapeUnit_of_le {u : ℕ} (hu : 0x7F ≤ u) : escapeUnit u = '\\' :: 'u' :: hexDigits 4 u := by
  rw [escapeUnit, if_neg (by omega), if_neg (by omega), if_neg (by omega), if_neg (by omega),
    if_neg (by omega), if_neg (by omega), if_neg (by omega), if_neg (by omega)]

theorem escapeUnit_plain {u : ℕ} (hu : 65 ≤ u ∧ u ≤ 90 ∨ u = 45) : escapeUnit u = [Char.ofNat u] := by
  rw [escapeUnit, if_neg (by omega), if_neg (by omega), if_neg (by omega), if_neg (by omega),
    if_neg (by omega), if_neg (by omega), if_neg (by omega), if_pos (by omega)]

/-- What `json.dumps` writes of a character is the character, or no part of the word. -/
theorem escape_plain_or (h : Sentinel w) (c : Char) :
    (units c).flatMap escapeUnit = [c] ∨ Inert w ((units c).flatMap escapeUnit) := by
  rw [units]
  split_ifs with hc
  · rw [List.flatMap_singleton]
    rcases escapeUnit_plain_or h c.toNat with hplain | hinert
    · rw [hplain, Char.ofNat_toNat]
      exact .inl rfl
    · exact .inr hinert
  · -- a surrogate pair
    rw [List.flatMap_cons, List.flatMap_singleton, escapeUnit_of_le (by omega),
      escapeUnit_of_le (by omega)]
    exact .inr ((inert_unicode h _).trans (inert_unicode h _) h.ne_nil)

theorem escape_letter {c : Char} (h : c.isUpper = true ∨ c = '-') :
    (units c).flatMap escapeUnit = [c] := by
  have hrange : 65 ≤ c.toNat ∧ c.toNat ≤ 90 ∨ c.toNat = 45 := by
    rcases h with hupper | rfl
    · simp only [Char.isUpper, decide_eq_true_eq] at hupper
      exact .inl hupper
    · exact .inr rfl
  rw [units, if_pos (by omega), List.flatMap_singleton, escapeUnit_plain hrange, Char.ofNat_toNat]

/-- A string that is written has the word if the string has it. -/
theorem infix_jsonStr (h : Sentinel w) (s : String) :
    w <:+: jsonPrinter.str s ↔ w <:+: s.toList := by
  have hquote : '"' ∉ w := h.not_mem (by decide)
  show w <:+: '"' :: ((s.toList.flatMap fun c => (units c).flatMap escapeUnit) ++ ['"']) ↔ _
  rw [infix_cons h.ne_nil hquote, infix_cut h.ne_nil hquote, List.infix_nil, or_iff_left h.ne_nil]
  constructor
  · exact infix_of_flatMap (fun c _ => escape_plain_or h c) []
  · exact infix_flatMap fun c hc => escape_letter (h.letters c hc)

/-! ### Documents that are written -/

variable (F : PyFloats)

theorem printItems_head (items : List Json) : ∃ c t,
    printItems F.toFloats jsonPrinter false items = c :: t ∧ c.isUpper = false ∧ c ≠ '-' := by
  cases items with
  | nil => exact ⟨']', [], rfl, by decide⟩
  | cons v items => exact ⟨',', _, rfl, by decide⟩

theorem printMembers_head (members : Members) : ∃ c t,
    printMembers F.toFloats jsonPrinter false members = c :: t ∧ c.isUpper = false ∧ c ≠ '-' := by
  cases members with
  | nil => exact ⟨'}', [], rfl, by decide⟩
  | cons m members => exact ⟨',', _, rfl, by decide⟩

/-- What stands before an item or a member. -/
theorem infix_separator (h : Sentinel w) (first : Bool) (text : List Char) :
    w <:+: (if first then [] else [',', ' ']) ++ text ↔ w <:+: text := by
  cases first with
  | true => exact Iff.rfl
  | false =>
    show w <:+: ',' :: ' ' :: text ↔ _
    rw [infix_cons h.ne_nil (h.not_mem (by decide)), infix_cons h.ne_nil (h.not_mem (by decide))]

mutual

theorem infix_print (h : Sentinel w) : ∀ v : Json,
    w <:+: print F.toFloats jsonPrinter v ↔ Mentions w v
  | .null => iff_of_false (h.absent (l := "null".toList) (by decide)) (mentions_none rfl)
  | .bool true => iff_of_false (h.absent (l := "true".toList) (by decide)) (mentions_none rfl)
  | .bool false => iff_of_false (h.absent (l := "false".toList) (by decide)) (mentions_none rfl)
  | .int n => by
    refine iff_of_false (h.absent fun c hc => ?_) (mentions_none rfl)
    rcases DecimalText.mem_toString hc with rfl | hdigit
    · rfl
    · exact (Bool.or_eq_false_iff.mp (DecimalText.isAlpha_of_isDigit hdigit)).1
  | .float q => iff_of_false (h.absent (F.repr_small q)) (mentions_none rfl)
  | .str s => by
    rw [mentions_str]
    exact infix_jsonStr h s
  | .arr items => by
    rw [print, infix_cons h.ne_nil (h.not_mem (by decide)), mentions_arr]
    exact infix_printItems h true items
  | .obj members => by
    rw [print, infix_cons h.ne_nil (h.not_mem (by decide)), mentions_obj]
    exact infix_printMembers h true members

theorem infix_printItems (h : Sentinel w) (first : Bool) : ∀ items : List Json,
    w <:+: printItems F.toFloats jsonPrinter first items ↔ ∃ v ∈ items, Mentions w v
  | [] => by
    rw [printItems, infix_cons h.ne_nil (h.not_mem (by decide)), List.infix_nil]
    exact iff_of_false h.ne_nil fun ⟨_, hv, _⟩ => nomatch hv
  | v :: items => by
    obtain ⟨c, t, hct, hc⟩ := printItems_head F items
    rw [printItems, infix_separator h, infix_append_of_head h.ne_nil ⟨c, t, hct, h.not_mem hc⟩,
      infix_print h v, infix_printItems h false items, List.exists_mem_cons_iff]

theorem infix_printMembers (h : Sentinel w) (first : Bool) : ∀ members : Members,
    w <:+: printMembers F.toFloats jsonPrinter first members ↔
      ∃ m ∈ members, w <:+: m.1.toList ∨ Mentions w m.2
  | [] => by
    rw [printMembers, infix_cons h.ne_nil (h.not_mem (by decide)), List.infix_nil]
    exact iff_of_false h.ne_nil fun ⟨_, hm, _⟩ => nomatch hm
  | (key, v) :: members => by
    obtain ⟨c, t, hct, hc⟩ := printMembers_head F members
    rw [printMembers, infix_separator h, infix_cut h.ne_nil (h.not_mem (by decide)),
      infix_cons h.ne_nil (h.not_mem (by decide)),
      infix_append_of_head h.ne_nil ⟨c, t, hct, h.not_mem hc⟩, infix_jsonStr h, infix_print h v,
      infix_printMembers h false members, List.exists_mem_cons_iff, or_assoc]

end

/-- **A word in a document that is written** stands in one of its strings. -/
theorem infix_dumps (h : Sentinel w) (v : Json) :
    w <:+: dumps F.toFloats (sortKeys v) ↔ Mentions w v :=
  (infix_print F h _).trans (mentions_sortKeys v)

/-! ### repr -/

variable {P : Printable}

theorem hexDigits_ne_nil (k n : ℕ) : hexDigits (k + 1) n ≠ [] := by
  rw [hexDigits]
  exact List.append_ne_nil_of_right_ne_nil _ (List.cons_ne_nil _ _)

/-- `\UXXXXXXXX`: its capital letter alone is no word. -/
theorem inert_wide (h : Sentinel w) (n : ℕ) : Inert w ('\\' :: 'U' :: hexDigits 8 n) := by
  refine .cons h.ne_nil (h.not_mem (by decide)) fun m => ?_
  have hdigits : Inert w (hexDigits 8 n) :=
    inert_small h (hexDigits_ne_nil 7 n) fun c hc => hexDigits_small 8 n hc
  have hletter : ¬ w <:+: ['U'] := by
    intro hfound
    have hlength := hfound.length_le
    have htwo := h.two
    simp only [List.length_cons, List.length_nil] at hlength
    omega
  rw [List.cons_append, ← List.singleton_append, hdigits, or_iff_right hletter]

/-- What `repr` writes of a character is the character, or no part of the word. -/
theorem pyEscape_plain_or (h : Sentinel w) {quote : Char} (hquote : quote = '"' ∨ quote = '\'')
    (c : Char) : pyEscape P quote c = [c] ∨ Inert w (pyEscape P quote c) := by
  have hhex : ∀ (e : Char) (k n : ℕ), e.isUpper = false ∧ e ≠ '-' →
      Inert w ('\\' :: e :: hexDigits k n) := by
    intro e k n he
    refine inert_small h (List.cons_ne_nil _ _) fun c hc => ?_
    rcases List.mem_cons.mp hc with rfl | hc
    · decide
    · rcases List.mem_cons.mp hc with rfl | hc
      · exact he
      · exact hexDigits_small k n hc
  rw [pyEscape]
  split_ifs with hc
  · refine .inr (inert_small h (List.cons_ne_nil _ _) fun d hd => ?_)
    rcases List.mem_cons.mp hd with rfl | hd
    · decide
    · rw [List.mem_singleton.mp hd]
      rcases hc with rfl | rfl
      · rcases hquote with rfl | rfl
        · decide
        · decide
      · decide
  · exact .inr (inert_small h (by decide) (by decide))
  · exact .inr (inert_small h (by decide) (by decide))
  · exact .inr (inert_small h (by decide) (by decide))
  · exact .inl rfl
  · exact .inr (hhex 'x' 2 _ (by decide))
  · exact .inr (hhex 'u' 4 _ (by decide))
  · exact .inr (inert_wide h _)

/-- A word that `repr` writes of a string is in the string. -/
theorem infix_of_pyStr (h : Sentinel w) {s : String} (hw : w <:+: pyStr P s) :
    w <:+: s.toList := by
  have hquoted : ∀ quote : Char, quote = '"' ∨ quote = '\'' →
      w <:+: quote :: (s.toList.flatMap (pyEscape P quote) ++ [quote]) → w <:+: s.toList := by
    intro quote hquote hin
    have hnot : quote ∉ w := by
      rcases hquote with rfl | rfl
      · exact h.not_mem (by decide)
      · exact h.not_mem (by decide)
    rw [infix_cons h.ne_nil hnot, infix_cut h.ne_nil hnot, List.infix_nil,
      or_iff_left h.ne_nil] at hin
    exact infix_of_flatMap (fun c _ => pyEscape_plain_or h hquote c) [] hin
  rw [pyStr] at hw
  split_ifs at hw
  · exact hquoted '"' (.inl rfl) hw
  · exact hquoted '\'' (.inr rfl) hw

end JsonText
