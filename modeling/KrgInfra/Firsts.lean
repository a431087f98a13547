/-
The first element of each key of a list.

* `firstsFrom`, `firsts` — a scan that passes over the keys it has seen;
* `mem_firsts_iff` — an element is kept where a search for its key finds it;
* `length_firsts` — one element for each key;
* `perm_map_firsts` — what is kept of two lists whose first elements are alike.
-/
import Mathlib.Data.List.Dedup

namespace Firsts

variable {α β κ : Type} [DecidableEq κ] (key : α → κ)

/-- The elements whose keys have not been seen before. -/
def firstsFrom (seen : List κ) : List α → List α
  | [] => []
  | a :: l => if key a ∈ seen then firstsFrom seen l else a :: firstsFrom (key a :: seen) l

def firsts (l : List α) : List α := firstsFrom key [] l

/-- The first element of a key. -/
def first? (c : κ) (l : List α) : Option α := l.find? fun a => key a = c

theorem first?_cons (c : κ) (a : α) (l : List α) :
    first? key c (a :: l) = if key a = c then some a else first? key c l := by
  rw [first?, List.find?_cons]
  by_cases h : key a = c
  · simp [h]
  · simp [h, first?]

theorem key_of_first? {c : κ} {a : α} {l : List α} (h : first? key c l = some a) : key a = c := by
  have hfound := List.find?_some h
  exact of_decide_eq_true hfound

theorem mem_of_first? {c : κ} {a : α} {l : List α} (h : first? key c l = some a) : a ∈ l :=
  List.mem_of_find?_eq_some h

theorem exists_first? {a : α} {l : List α} (h : a ∈ l) : ∃ b, first? key (key a) l = some b := by
  refine Option.isSome_iff_exists.mp (List.find?_isSome.mpr ?_)
  exact ⟨a, h, decide_eq_true rfl⟩

theorem mem_firstsFrom_iff {a : α} (l : List α) : ∀ {seen : List κ},
    a ∈ firstsFrom key seen l ↔ key a ∉ seen ∧ first? key (key a) l = some a := by
  induction l with
  | nil => exact fun {seen} => ⟨fun h => (nomatch h), fun h => nomatch h.2⟩
  | cons b l ih =>
    intro seen
    rw [firstsFrom, first?_cons]
    by_cases hseen : key b ∈ seen
    · rw [if_pos hseen, ih]
      refine and_congr_right fun ha => ?_
      have hne : key b ≠ key a := fun h => ha (h ▸ hseen)
      rw [if_neg hne]
    · rw [if_neg hseen, List.mem_cons, ih, List.mem_cons, not_or]
      by_cases hkey : key b = key a
      · -- later elements of this key are passed over
        rw [if_pos hkey, Option.some_inj]
        constructor
        · rintro (rfl | ⟨⟨hne, _⟩, _⟩)
          · exact ⟨hseen, rfl⟩
          · exact absurd hkey.symm hne
        · exact fun h => .inl h.2.symm
      · rw [if_neg hkey]
        constructor
        · rintro (rfl | ⟨⟨_, ha⟩, hfind⟩)
          · exact absurd rfl hkey
          · exact ⟨ha, hfind⟩
        · exact fun h => .inr ⟨⟨Ne.symm hkey, h.1⟩, h.2⟩

theorem mem_firsts_iff {a : α} {l : List α} :
    a ∈ firsts key l ↔ first? key (key a) l = some a :=
  (mem_firstsFrom_iff key l).trans (and_iff_right List.not_mem_nil)

theorem nodup_firstsFrom (l : List α) : ∀ seen, ((firstsFrom key seen l).map key).Nodup := by
  induction l with
  | nil => exact fun _ => List.nodup_nil
  | cons a l ih =>
    intro seen
    rw [firstsFrom]
    split_ifs
    · exact ih seen
    · rw [List.map_cons, List.nodup_cons]
      refine ⟨fun hmem => ?_, ih _⟩
      obtain ⟨b, hb, hkey⟩ := List.mem_map.mp hmem
      have hunseen := ((mem_firstsFrom_iff key l).mp hb).1
      exact hunseen (hkey ▸ List.mem_cons_self)

theorem nodup_firsts (l : List α) : ((firsts key l).map key).Nodup := nodup_firstsFrom key l []

theorem mem_keys_firsts {c : κ} {l : List α} : c ∈ (firsts key l).map key ↔ c ∈ l.map key := by
  constructor
  · intro h
    obtain ⟨a, ha, rfl⟩ := List.mem_map.mp h
    exact List.mem_map_of_mem (mem_of_first? key ((mem_firsts_iff key).mp ha))
  · intro h
    obtain ⟨a, ha, rfl⟩ := List.mem_map.mp h
    obtain ⟨b, hb⟩ := exists_first? key ha
    have hkey := key_of_first? key hb
    exact List.mem_map.mpr ⟨b, (mem_firsts_iff key).mpr (hkey ▸ hb), hkey⟩

/-- There is one element for each key. -/
theorem length_firsts (l : List α) : (firsts key l).length = (l.map key).dedup.length := by
  have hperm : ((firsts key l).map key).Perm (l.map key).dedup := by
    refine (List.perm_ext_iff_of_nodup (nodup_firsts key l) (List.nodup_dedup _)).mpr fun c => ?_
    rw [mem_keys_firsts, List.mem_dedup]
  rw [← hperm.length_eq, List.length_map]

/-- Two lists whose first elements are alike keep the same. -/
theorem perm_map_firsts {f : α → β} {l m : List α}
    (h : ∀ c, (first? key c l).map f = (first? key c m).map f) :
    ((firsts key l).map f).Perm ((firsts key m).map f) := by
  have hnodup : ∀ l : List α, ((firsts key l).map fun a => (key a, f a)).Nodup := by
    intro l
    refine List.Nodup.of_map Prod.fst ?_
    rw [List.map_map]
    exact nodup_firsts key l
  have hmem : ∀ (l : List α) (item : κ × β),
      item ∈ (firsts key l).map (fun a => (key a, f a)) ↔
        (first? key item.1 l).map f = some item.2 := by
    intro l item
    rw [List.mem_map, Option.map_eq_some_iff]
    constructor
    · rintro ⟨a, ha, rfl⟩
      exact ⟨a, (mem_firsts_iff key).mp ha, rfl⟩
    · rintro ⟨a, ha, hf⟩
      have hkey := key_of_first? key ha
      exact ⟨a, (mem_firsts_iff key).mpr (hkey ▸ ha), Prod.ext hkey hf⟩
  have hperm : ((firsts key l).map fun a => (key a, f a)).Perm
      ((firsts key m).map fun a => (key a, f a)) := by
    refine (List.perm_ext_iff_of_nodup (hnodup l) (hnodup m)).mpr fun item => ?_
    rw [hmem, hmem, h]
  have hsnd := hperm.map Prod.snd
  rwa [List.map_map, List.map_map] at hsnd

end Firsts
