/-
Stable sorting by a key.

A list sorted by a key keeps the elements of one key in their order, and that is all it keeps:
two lists are sorted alike exactly where they have, for each key, the same elements in the same
order.

* `byKey` — the order of the keys, on the elements;
* `filter_insertionSort` — the elements of one key keep their order;
* `eq_of_filter` — a sorted list is known by its elements of each key;
* `insertionSort_eq_iff` — the lists that are sorted alike.
-/
import Mathlib.Data.List.Sort

namespace StableSort

variable {α κ : Type} [LinearOrder κ] (key : α → κ)

/-- One element comes no later than another one by their keys. -/
def byKey (a b : α) : Prop := key a ≤ key b

instance : DecidableRel (byKey key) := fun a b => inferInstanceAs (Decidable (key a ≤ key b))

instance : Std.Total (byKey key) := ⟨fun a b => le_total (key a) (key b)⟩

instance : IsTrans α (byKey key) := ⟨fun _ _ _ => le_trans⟩

/-- The elements of one key. -/
def withKey (c : κ) (l : List α) : List α := l.filter fun a => key a = c

theorem mem_withKey {c : κ} {l : List α} {a : α} : a ∈ withKey key c l ↔ a ∈ l ∧ key a = c := by
  rw [withKey, List.mem_filter, decide_eq_true_eq]

theorem withKey_cons_of_eq {c : κ} {a : α} (h : key a = c) (l : List α) :
    withKey key c (a :: l) = a :: withKey key c l :=
  List.filter_cons_of_pos (decide_eq_true h)

theorem withKey_cons_of_ne {c : κ} {a : α} (h : key a ≠ c) (l : List α) :
    withKey key c (a :: l) = withKey key c l :=
  List.filter_cons_of_neg fun h' => h (of_decide_eq_true h')

/-- An element is inserted before those of its own key. -/
theorem withKey_orderedInsert (c : κ) (a : α) (l : List α) :
    withKey key c (l.orderedInsert (byKey key) a) = withKey key c (a :: l) := by
  induction l with
  | nil => rfl
  | cons b l ih =>
    rw [List.orderedInsert_cons]
    by_cases hle : byKey key a b
    · rw [if_pos hle]
    · rw [if_neg hle]
      -- `b` is smaller, so at most one of the two has the key
      by_cases hb : key b = c
      · have ha : key a ≠ c := fun ha => hle (le_of_eq (ha.trans hb.symm))
        rw [withKey_cons_of_eq key hb, ih, withKey_cons_of_ne key ha, withKey_cons_of_ne key ha,
          withKey_cons_of_eq key hb]
      · rw [withKey_cons_of_ne key hb, ih]
        by_cases ha : key a = c
        · rw [withKey_cons_of_eq key ha, withKey_cons_of_eq key ha, withKey_cons_of_ne key hb]
        · rw [withKey_cons_of_ne key ha, withKey_cons_of_ne key ha, withKey_cons_of_ne key hb]

theorem filter_insertionSort (c : κ) (l : List α) :
    withKey key c (l.insertionSort (byKey key)) = withKey key c l := by
  induction l with
  | nil => rfl
  | cons a l ih =>
    rw [List.insertionSort_cons, withKey_orderedInsert]
    by_cases ha : key a = c
    · rw [withKey_cons_of_eq key ha, withKey_cons_of_eq key ha, ih]
    · rw [withKey_cons_of_ne key ha, withKey_cons_of_ne key ha, ih]

variable {key}

/-- The first of a sorted list has the smallest key. -/
theorem key_le_of_mem {a b : α} {l m : List α} (hl : (a :: l).Pairwise (byKey key))
    (h : ∀ c, withKey key c (a :: l) = withKey key c (b :: m)) : key a ≤ key b := by
  have hb : b ∈ withKey key (key b) (b :: m) :=
    (mem_withKey key).mpr ⟨List.mem_cons_self, rfl⟩
  rw [← h, mem_withKey, List.mem_cons] at hb
  obtain rfl | hmem := hb.1
  · exact le_refl _
  · exact List.rel_of_pairwise_cons hl hmem

theorem eq_of_filter {l m : List α} (hl : l.Pairwise (byKey key)) (hm : m.Pairwise (byKey key))
    (h : ∀ c, withKey key c l = withKey key c m) : l = m := by
  induction l generalizing m with
  | nil =>
    cases m with
    | nil => rfl
    | cons b m =>
      have hb := h (key b)
      rw [withKey_cons_of_eq key rfl] at hb
      exact absurd hb.symm (List.cons_ne_nil b _)
  | cons a l ih =>
    cases m with
    | nil =>
      have ha := h (key a)
      rw [withKey_cons_of_eq key rfl] at ha
      exact absurd ha (List.cons_ne_nil a _)
    | cons b m =>
      have hkey : key b = key a :=
        le_antisymm (key_le_of_mem hm fun c => (h c).symm) (key_le_of_mem hl h)
      have hfirst := h (key a)
      rw [withKey_cons_of_eq key rfl, withKey_cons_of_eq key hkey, List.cons.injEq] at hfirst
      obtain ⟨rfl, hrest⟩ := hfirst
      refine congrArg (a :: ·) (ih hl.of_cons hm.of_cons fun c => ?_)
      by_cases hc : key a = c
      · rw [← hc, hrest]
      · have htail := h c
        rwa [withKey_cons_of_ne key hc, withKey_cons_of_ne key hc] at htail

/-- The lists that are sorted alike. -/
theorem insertionSort_eq_iff {l m : List α} :
    l.insertionSort (byKey key) = m.insertionSort (byKey key) ↔
      ∀ c, withKey key c l = withKey key c m := by
  constructor
  · intro h c
    rw [← filter_insertionSort key c l, h, filter_insertionSort]
  · intro h
    refine eq_of_filter (List.pairwise_insertionSort _ l) (List.pairwise_insertionSort _ m) ?_
    intro c
    rw [filter_insertionSort, filter_insertionSort, h]

/-- Only the keys of the elements matter. -/
theorem filter_eq_iff {l m : List α} (h : ∀ b ∈ m, ∃ a ∈ l, key a = key b) :
    (∀ c, withKey key c l = withKey key c m) ↔
      ∀ a ∈ l, withKey key (key a) l = withKey key (key a) m := by
  constructor
  · exact fun h a _ => h (key a)
  · intro hsame c
    by_cases hc : ∃ a ∈ l, key a = c
    · obtain ⟨a, ha, rfl⟩ := hc
      exact hsame a ha
    · -- no element of either list has this key
      have hl : withKey key c l = [] :=
        List.eq_nil_iff_forall_not_mem.mpr fun a ha =>
          hc ⟨a, (mem_withKey key).mp ha⟩
      have hm : withKey key c m = [] := by
        refine List.eq_nil_iff_forall_not_mem.mpr fun b hb => ?_
        obtain ⟨hmem, hkey⟩ := (mem_withKey key).mp hb
        obtain ⟨a, ha, hab⟩ := h b hmem
        exact hc ⟨a, ha, hab.trans hkey⟩
      rw [hl, hm]

end StableSort
