/-
Words in texts that are put together from pieces.

A character that a word does not have separates what stands before it from what stands after it, so
a word is found in one of the two.

* `infix_cut` — a word in a text with such a character;
* `Inert` — a piece in which no part of the word can stand;
* `infix_of_flatMap`, `infix_flatMap` — a word in a text whose characters are escaped.
-/
import Mathlib.Data.List.Infix

namespace WordSearch

variable {α : Type*} {w : List α}

theorem infix_cut (hw : w ≠ []) {c : α} (hc : c ∉ w) {l m : List α} :
    w <:+: l ++ c :: m ↔ w <:+: l ∨ w <:+: m := by
  constructor
  · rintro ⟨s, t, h⟩
    rw [List.append_assoc] at h
    rcases List.append_eq_append_iff.mp h with ⟨a, rfl, ha⟩ | ⟨b, rfl, hb⟩
    · rcases List.append_eq_append_iff.mp ha with ⟨b, rfl, -⟩ | ⟨b, rfl, hb⟩
      · exact .inl ⟨s, b, List.append_assoc _ _ _⟩
      · cases b with
        | nil =>
          rw [List.append_nil]
          exact .inl ⟨s, [], List.append_nil _⟩
        | cons d b =>
          obtain ⟨rfl, -⟩ := List.cons.inj hb
          exact absurd (List.mem_append_right _ List.mem_cons_self) hc
    · cases b with
      | nil =>
        obtain ⟨d, w, rfl⟩ := List.exists_cons_of_ne_nil hw
        obtain ⟨rfl, -⟩ := List.cons.inj hb
        exact absurd List.mem_cons_self hc
      | cons d b =>
        obtain ⟨rfl, rfl⟩ := List.cons.inj hb
        exact .inr ⟨b, t, List.append_assoc _ _ _⟩
  · rintro (h | h)
    · exact h.trans (List.prefix_append l _).isInfix
    · exact h.trans (List.suffix_cons c m).isInfix |>.trans (List.suffix_append l _).isInfix

theorem infix_cons (hw : w ≠ []) {c : α} (hc : c ∉ w) {m : List α} :
    w <:+: c :: m ↔ w <:+: m := by
  have hcut := infix_cut hw hc (l := []) (m := m)
  rwa [List.nil_append, List.infix_nil, or_iff_right hw] at hcut

/-- A text after which a character stands that the word does not have. -/
theorem infix_append_of_head (hw : w ≠ []) {l m : List α} (hm : ∃ c t, m = c :: t ∧ c ∉ w) :
    w <:+: l ++ m ↔ w <:+: l ∨ w <:+: m := by
  obtain ⟨c, t, rfl, hc⟩ := hm
  rw [infix_cut hw hc, infix_cons hw hc]

/-- A word with a character that a text does not have is not found in it. -/
theorem not_infix_of_mem {c : α} {l : List α} (hc : c ∈ w) (hl : c ∉ l) : ¬ w <:+: l :=
  fun h => hl (h.subset hc)

/-- No part of the word can stand in the piece. -/
def Inert (w piece : List α) : Prop :=
  ∀ l m, w <:+: l ++ (piece ++ m) ↔ w <:+: l ∨ w <:+: m

theorem Inert.cons (hw : w ≠ []) {c : α} (hc : c ∉ w) {piece : List α}
    (h : ∀ m, w <:+: piece ++ m ↔ w <:+: m) : Inert w (c :: piece) := by
  intro l m
  rw [List.cons_append, infix_cut hw hc, h]

theorem Inert.append (hw : w ≠ []) {piece : List α} (h : Inert w piece) (m : List α) :
    w <:+: piece ++ m ↔ w <:+: m := by
  have hnil := h [] m
  rwa [List.nil_append, List.infix_nil, or_iff_right hw] at hnil

theorem Inert.trans {piece piece' : List α} (h : Inert w piece) (h' : Inert w piece')
    (hw : w ≠ []) : Inert w (piece ++ piece') := by
  intro l m
  rw [List.append_assoc, h, h'.append hw]

theorem inert_of_not_mem (hw : w ≠ []) {piece : List α} (hne : piece ≠ [])
    (h : ∀ c ∈ piece, c ∉ w) : Inert w piece := by
  induction piece with
  | nil => exact absurd rfl hne
  | cons c piece ih =>
    obtain ⟨hc, hpiece⟩ := List.forall_mem_cons.mp h
    refine .cons hw hc fun m => ?_
    by_cases hnil : piece = []
    · rw [hnil, List.nil_append]
    · exact (ih hnil hpiece).append hw m

variable {e : α → List α}

/-- A word in an escaped text is in the text. -/
theorem infix_of_flatMap {l : List α} (h : ∀ c ∈ l, e c = [c] ∨ Inert w (e c)) :
    ∀ before, w <:+: before ++ l.flatMap e → w <:+: before ++ l := by
  induction l with
  | nil => exact fun _ h => h
  | cons c l ih =>
    intro before hfound
    obtain ⟨hc, hl⟩ := List.forall_mem_cons.mp h
    rw [List.flatMap_cons] at hfound
    rcases hc with hplain | hinert
    · rw [hplain, ← List.append_assoc] at hfound
      rw [List.append_cons]
      exact ih hl _ hfound
    · rcases (hinert _ _).mp hfound with hbefore | hafter
      · exact hbefore.trans (List.prefix_append _ _).isInfix
      · have hin := ih hl [] hafter
        exact hin.trans ((List.suffix_cons c l).trans (List.suffix_append before _)).isInfix

/-- A word whose characters are not escaped is in the escaped text. -/
theorem infix_flatMap {l : List α} (h : ∀ c ∈ w, e c = [c]) (hl : w <:+: l) :
    w <:+: l.flatMap e := by
  obtain ⟨s, t, rfl⟩ := hl
  have hword : w.flatMap e = w := by
    rw [List.flatMap_congr h]
    exact List.flatMap_singleton' w
  rw [List.flatMap_append, List.flatMap_append, hword]
  exact List.infix_append _ _ _

end WordSearch
