/-
Lists of entries, each with an identity of its own.

Calls create an entry, change the one with an identity, and delete it.  However many calls there
are, each entry is changed by those with its identity only.

* `foldl_map`, `foldl_filter` — many changes of a list, entry by entry;
* `foldl_target` — at most one call changes an entry;
* `countP_map_le`, `countP_filter_not_mem` — how many entries of a kind are left;
* `filter_key_eq` — the entry of a key, where keys are distinct;
* `exchange` — entries that take each other's places.
-/
import Mathlib.Data.List.Nodup
import Mathlib.Data.Set.Finite.List

namespace EntryLists

variable {E U A : Type*}

theorem foldl_map (g : A → E → E) (calls : List A) : ∀ l : List E,
    calls.foldl (fun l a => l.map (g a)) l = l.map fun e => calls.foldl (fun e a => g a e) e := by
  induction calls with
  | nil => exact fun l => (List.map_id' l).symm
  | cons a calls ih =>
    intro l
    rw [List.foldl_cons, ih, List.map_map]
    rfl

theorem foldl_filter (p : A → E → Bool) (calls : List A) : ∀ l : List E,
    calls.foldl (fun l a => l.filter (p a)) l = l.filter fun e => calls.all fun a => p a e := by
  induction calls with
  | nil => exact fun l => (List.filter_true l).symm
  | cons a calls ih =>
    intro l
    rw [List.foldl_cons, ih, List.filter_filter]
    refine List.filter_congr fun e _ => ?_
    rw [List.all_cons, Bool.and_comm]

variable [DecidableEq U] {ident : E → U} {target : A → U} {f : A → E → E}

/-- A call changes the entry with the identity that it names. -/
def change (ident : E → U) (target : A → U) (f : A → E → E) (e : E) (a : A) : E :=
  if ident e = target a then f a e else e

/-- Calls that name other identities change nothing. -/
theorem foldl_of_not_mem {e : E} : ∀ {calls : List A}, ident e ∉ calls.map target →
    calls.foldl (change ident target f) e = e := by
  intro calls
  induction calls with
  | nil => exact fun _ => rfl
  | cons a calls ih =>
    intro h
    rw [List.map_cons, List.mem_cons, not_or] at h
    rw [List.foldl_cons, change, if_neg h.1]
    exact ih h.2

/-- Of calls that name different identities one changes an entry. -/
theorem foldl_target {a : A} {e : E} (hf : ident (f a e) = ident e) :
    ∀ {calls : List A}, (calls.map target).Nodup → a ∈ calls → ident e = target a →
      calls.foldl (change ident target f) e = f a e := by
  intro calls
  induction calls with
  | nil => exact fun _ h => nomatch h
  | cons b calls ih =>
    intro hnodup ha hident
    obtain ⟨hb, hnodup⟩ := List.nodup_cons.mp hnodup
    rw [List.foldl_cons]
    obtain rfl | ha := List.mem_cons.mp ha
    · rw [change, if_pos hident]
      refine foldl_of_not_mem ?_
      rwa [hf, hident]
    · have hne : ident e ≠ target b := by
        rw [hident]
        exact fun he => hb (he ▸ List.mem_map_of_mem ha)
      rw [change, if_neg hne]
      exact ih hnodup ha hident

/-! ### How many -/

omit [DecidableEq U] in
/-- A change that keeps a kind does not make it rarer. -/
theorem countP_map_le {p : E → Bool} {g : E → E} {l : List E}
    (h : ∀ e ∈ l, p e = true → p (g e) = true) : l.countP p ≤ (l.map g).countP p := by
  rw [List.countP_map]
  exact List.countP_mono_left h

/-- Of entries with different identities a deletion takes one at most. -/
theorem countP_delete (p : E → Bool) (u : U) {l : List E} (h : (l.map ident).Nodup) :
    l.countP p ≤ (l.filter fun e => ident e ≠ u).countP p + 1 := by
  induction l with
  | nil => exact Nat.zero_le _
  | cons e l ih =>
    obtain ⟨he, hl⟩ := List.nodup_cons.mp h
    by_cases hu : ident e = u
    · -- no other entry has this identity
      have hrest : (l.filter fun e => ident e ≠ u) = l := by
        refine List.filter_eq_self.mpr fun e' he' => decide_eq_true fun hu' => he ?_
        rw [hu, ← hu']
        exact List.mem_map_of_mem he'
      rw [List.filter_cons_of_neg (by simpa using hu), hrest, List.countP_cons]
      split_ifs
      · exact Nat.le_refl _
      · exact Nat.le_succ _
    · rw [List.filter_cons_of_pos (by simpa using hu), List.countP_cons, List.countP_cons]
      have hle := ih hl
      omega

/-- Several deletions take one each at most. -/
theorem countP_filter_not_mem (p : E → Bool) (us : List U) : ∀ {l : List E},
    (l.map ident).Nodup →
      l.countP p ≤ (l.filter fun e => decide (ident e ∉ us)).countP p + us.length := by
  induction us with
  | nil =>
    intro l _
    rw [List.filter_eq_self.mpr fun _ _ => decide_eq_true List.not_mem_nil]
    exact Nat.le_refl _
  | cons u us ih =>
    intro l hl
    have hone := countP_delete p u hl
    have hrest := ih ((List.filter_sublist (p := fun e => decide (ident e ≠ u))).map ident |>.nodup hl)
    rw [List.filter_filter] at hrest
    have heq : (l.filter fun e => decide (ident e ∉ us) && decide (ident e ≠ u)) =
        l.filter fun e => decide (ident e ∉ u :: us) := by
      refine List.filter_congr fun e _ => ?_
      rw [Bool.and_comm, ← Bool.decide_and, decide_eq_decide, List.mem_cons, not_or]
    rw [heq] at hrest
    rw [List.length_cons]
    omega

omit [DecidableEq U] in
/-- Where the keys are distinct, one entry has a key. -/
theorem filter_key_eq {K : Type*} [DecidableEq K] {key : E → Option K} {k : K} {e : E} :
    ∀ {l : List E}, (l.filterMap key).Nodup → e ∈ l → key e = some k →
      l.filter (fun e => key e = some k) = [e] := by
  intro l
  induction l with
  | nil => exact fun _ h => nomatch h
  | cons e' l ih =>
    intro hnodup he hk
    obtain rfl | he := List.mem_cons.mp he
    · rw [List.filterMap_cons_some hk, List.nodup_cons] at hnodup
      rw [List.filter_cons_of_pos (by simpa using hk), List.filter_eq_nil_iff.mpr]
      intro e' he' hk'
      exact hnodup.1 (List.mem_filterMap.mpr ⟨e', he', of_decide_eq_true hk'⟩)
    · have hne : key e' ≠ some k := by
        intro hk'
        rw [List.filterMap_cons_some hk', List.nodup_cons] at hnodup
        exact hnodup.1 (List.mem_filterMap.mpr ⟨e, he, hk⟩)
      rw [List.filter_cons_of_neg (by simpa using hne)]
      refine ih ?_ he hk
      cases hk' : key e' with
      | none => rwa [List.filterMap_cons_none hk'] at hnodup
      | some k' =>
        rw [List.filterMap_cons_some hk'] at hnodup
        exact hnodup.of_cons

/-- Where everything in a list takes a place of its own in it, every place is taken, once. -/
theorem exchange {A : Type*} {l : List A} {r : A → A → Prop}
    (hunique : ∀ a ∈ l, ∀ b ∈ l, ∀ c ∈ l, r a c → r b c → a = b)
    (h : ∀ a ∈ l, ∃ b ∈ l, r a b) : ∀ b ∈ l, ∃ a ∈ l, r a b ∧ ∀ c ∈ l, r a c → c = b := by
  have hfinite : Finite {a // a ∈ l} := l.finite_toSet.to_subtype
  choose f hf hr using h
  let place : {a // a ∈ l} → {a // a ∈ l} := fun a => ⟨f a.1 a.2, hf a.1 a.2⟩
  have hinjective : Function.Injective place := by
    intro a b hab
    have heq : f a.1 a.2 = f b.1 b.2 := congrArg Subtype.val hab
    exact Subtype.ext (hunique _ a.2 _ b.2 _ (hf _ _) (hr _ _) (heq ▸ hr b.1 b.2))
  have hsurjective := Finite.injective_iff_surjective.mp hinjective
  have hplace : ∀ a (ha : a ∈ l), ∀ c ∈ l, r a c → c = f a ha := by
    intro a ha c hc hac
    obtain ⟨b, hb⟩ := hsurjective ⟨c, hc⟩
    have heq : f b.1 b.2 = c := congrArg Subtype.val hb
    have hab := hunique _ ha _ b.2 _ hc hac (heq ▸ hr b.1 b.2)
    subst hab
    exact heq.symm
  intro b hb
  obtain ⟨a, ha⟩ := hsurjective ⟨b, hb⟩
  have heq : f a.1 a.2 = b := congrArg Subtype.val ha
  exact ⟨a.1, a.2, heq ▸ hr a.1 a.2, fun c hc hac => (hplace a.1 a.2 c hc hac).trans heq⟩

end EntryLists
