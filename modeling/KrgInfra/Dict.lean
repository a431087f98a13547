/-
Dictionaries, as lists of their items in the order in which the keys came.

* `Dict.set` — `d[key] = value`: a key that is there keeps its place;
* `lookup_set`, `keys_set`, `nodup_keys_set` — what it does to the lookups and to the keys;
* `ofItems` — the dictionary of some items: the last one of a key counts;
* `lookup_foldl` — updates of single keys: what they do to one key is what those of that key
  do to its value.
-/
import Mathlib.Data.List.Induction
import Mathlib.Data.List.Nodup

namespace Dict

variable {α β γ : Type} [DecidableEq α]

/-- `d[key] = value` -/
def set : List (α × β) → α → β → List (α × β)
  | [], key, value => [(key, value)]
  | (other, old) :: d, key, value =>
    if other = key then (other, value) :: d else (other, old) :: set d key value

/-- The keys. -/
def keys (d : List (α × β)) : List α := d.map Prod.fst

omit [DecidableEq α] in
theorem mem_keys_cons {d : List (α × β)} {first key : α} {value : β} (h : first ≠ key) :
    key ∈ keys ((first, value) :: d) ↔ key ∈ keys d := by
  rw [keys, List.map_cons, List.mem_cons]
  exact ⟨fun h' => h'.resolve_left fun he => h he.symm, .inr⟩

theorem keys_set (d : List (α × β)) (key : α) (value : β) :
    keys (set d key value) = if key ∈ keys d then keys d else keys d ++ [key] := by
  induction d with
  | nil => rfl
  | cons item d ih =>
    obtain ⟨first, old⟩ := item
    rw [set]
    by_cases hfirst : first = key
    · rw [if_pos hfirst, if_pos]
      · rfl
      · exact List.mem_cons.mpr (.inl hfirst.symm)
    · rw [if_neg hfirst]
      show first :: keys (set d key value) = _
      rw [ih]
      simp only [mem_keys_cons hfirst]
      split_ifs
      · rfl
      · rfl

theorem nodup_keys_set {d : List (α × β)} (h : (keys d).Nodup) (key : α) (value : β) :
    (keys (set d key value)).Nodup := by
  rw [keys_set]
  split_ifs with hmem
  · exact h
  · rw [List.nodup_append]
    refine ⟨h, List.nodup_singleton _, fun a ha b hb hab => hmem ?_⟩
    rw [List.mem_singleton] at hb
    exact hb ▸ hab ▸ ha

/-- An item after a setting is the new one, or an old one. -/
theorem mem_set {d : List (α × β)} {key : α} {value : β} {item : α × β}
    (h : item ∈ set d key value) : item = (key, value) ∨ item ∈ d := by
  induction d with
  | nil => exact .inl (List.mem_singleton.mp h)
  | cons first d ih =>
    obtain ⟨other, old⟩ := first
    rw [set] at h
    split_ifs at h with hother
    · obtain rfl | h := List.mem_cons.mp h
      · exact .inl (by rw [hother])
      · exact .inr (List.mem_cons_of_mem _ h)
    · obtain rfl | h := List.mem_cons.mp h
      · exact .inr List.mem_cons_self
      · exact (ih h).imp_right (List.mem_cons_of_mem _)

/-- A new key comes last. -/
theorem set_of_not_mem {d : List (α × β)} {key : α} (h : key ∉ keys d) (value : β) :
    set d key value = d ++ [(key, value)] := by
  induction d with
  | nil => rfl
  | cons item d ih =>
    obtain ⟨first, old⟩ := item
    have hfirst : first ≠ key := fun he => h (List.mem_cons.mpr (.inl he.symm))
    rw [set, if_neg hfirst, ih fun hmem => h ((mem_keys_cons hfirst).mpr hmem)]
    rfl

/-! ### Comprehensions -/

/-- `{key: value for key, value in items}` -/
def ofItems (items : List (α × β)) : List (α × β) :=
  items.foldl (fun d item => set d item.1 item.2) []

theorem ofItems_induction {motive : List (α × β) → Prop} {items : List (α × β)}
    (nil : motive []) (step : ∀ d, ∀ item ∈ items, motive d → motive (set d item.1 item.2)) :
    motive (ofItems items) := by
  have hfold : ∀ l d : List (α × β), (∀ item ∈ l, item ∈ items) → motive d →
      motive (l.foldl (fun d item => set d item.1 item.2) d) := by
    intro l
    induction l with
    | nil => exact fun _ _ h => h
    | cons item l ih =>
      intro d hl hd
      exact ih _ (fun i hi => hl i (List.mem_cons_of_mem _ hi))
        (step d item (hl item List.mem_cons_self) hd)
  exact hfold items [] (fun _ h => h) nil

theorem nodup_keys_ofItems (items : List (α × β)) : (keys (ofItems items)).Nodup :=
  ofItems_induction (motive := fun d => (keys d).Nodup) List.nodup_nil fun _ item _ h =>
    nodup_keys_set h item.1 item.2

theorem mem_of_mem_ofItems {items : List (α × β)} : ∀ item ∈ ofItems items, item ∈ items :=
  ofItems_induction (motive := fun d => ∀ item ∈ d, item ∈ items) (fun _ h => nomatch h)
    fun _ _ hitem h _ hmem => (mem_set hmem).elim (fun he => he ▸ hitem) (h _)

theorem mem_keys_ofItems_iff {items : List (α × β)} {key : α} :
    key ∈ keys (ofItems items) ↔ key ∈ keys items := by
  have hfold : ∀ (l d : List (α × β)),
      key ∈ keys (l.foldl (fun d item => set d item.1 item.2) d) ↔ key ∈ keys d ∨ key ∈ keys l := by
    intro l
    induction l with
    | nil => exact fun d => ⟨.inl, fun h => h.resolve_right List.not_mem_nil⟩
    | cons item l ih =>
      intro d
      have hset : key ∈ keys (set d item.1 item.2) ↔ key ∈ keys d ∨ key = item.1 := by
        rw [keys_set]
        split_ifs with hmem
        · exact ⟨.inl, fun h => h.elim id fun he => he ▸ hmem⟩
        · rw [List.mem_append, List.mem_singleton]
      rw [List.foldl_cons, ih, hset, or_assoc]
      exact or_congr_right List.mem_cons.symm
  exact (hfold items []).trans ⟨fun h => h.resolve_left List.not_mem_nil, .inr⟩

/-! ### Lookups -/

variable [BEq α] [LawfulBEq α]

theorem lookup_cons (d : List (α × β)) (key other : α) (value : β) :
    List.lookup key ((other, value) :: d) = if key = other then some value else d.lookup key := by
  rw [List.lookup_cons]
  by_cases h : key = other
  · rw [if_pos h, beq_iff_eq.mpr h]
  · rw [if_neg h, beq_eq_false_iff_ne.mpr h]

theorem lookup_set (d : List (α × β)) (key other : α) (value : β) :
    (set d key value).lookup other = if other = key then some value else d.lookup other := by
  induction d with
  | nil => exact lookup_cons [] other key value
  | cons item d ih =>
    obtain ⟨first, old⟩ := item
    rw [set]
    by_cases hfirst : first = key
    · rw [if_pos hfirst, lookup_cons, lookup_cons, hfirst]
      split_ifs <;> rfl
    · rw [if_neg hfirst, lookup_cons, lookup_cons, ih]
      by_cases hother : other = first
      · rw [if_pos hother, if_pos hother, if_neg fun h => hfirst (hother ▸ h)]
      · rw [if_neg hother, if_neg hother]

theorem mem_keys_iff {d : List (α × β)} {key : α} : key ∈ keys d ↔ d.lookup key ≠ none := by
  induction d with
  | nil => simp [keys]
  | cons item d ih =>
    obtain ⟨first, value⟩ := item
    rw [lookup_cons]
    by_cases h : key = first
    · simp [keys, h]
    · rw [if_neg h, ← ih]
      exact mem_keys_cons (Ne.symm h)

theorem mem_of_lookup {d : List (α × β)} {key : α} {value : β} (h : d.lookup key = some value) :
    (key, value) ∈ d := by
  induction d with
  | nil => exact nomatch h
  | cons item d ih =>
    obtain ⟨first, old⟩ := item
    rw [lookup_cons] at h
    split_ifs at h with hfirst
    · rw [hfirst, Option.some_inj.mp h]
      exact List.mem_cons_self
    · exact List.mem_cons_of_mem _ (ih h)

theorem lookup_of_mem {d : List (α × β)} (hnodup : (keys d).Nodup) {key : α} {value : β}
    (h : (key, value) ∈ d) : d.lookup key = some value := by
  induction d with
  | nil => exact nomatch h
  | cons item d ih =>
    obtain ⟨first, old⟩ := item
    obtain ⟨hfirst, htail⟩ := List.nodup_cons.mp hnodup
    rw [lookup_cons]
    obtain he | h := List.mem_cons.mp h
    · rw [if_pos (Prod.mk.inj he).1, (Prod.mk.inj he).2]
    · have hne : key ≠ first := fun he => hfirst (List.mem_map.mpr ⟨_, h, he⟩)
      rw [if_neg hne]
      exact ih htail h

/-- A comprehension has the last value of a key. -/
theorem lookup_ofItems (items : List (α × β)) (key : α) :
    (ofItems items).lookup key =
      ((items.filter fun item => item.1 = key).getLast?).map Prod.snd := by
  induction items using List.reverseRec with
  | nil => rfl
  | append_singleton items item ih =>
    have happend : ofItems (items ++ [item]) = set (ofItems items) item.1 item.2 := by
      rw [ofItems, List.foldl_append]
      rfl
    rw [happend, lookup_set, List.filter_append, List.getLast?_append, ih]
    by_cases h : item.1 = key
    · rw [if_pos h.symm, List.filter_cons_of_pos (by simpa using h)]
      rfl
    · rw [if_neg (Ne.symm h), List.filter_cons_of_neg (by simpa using h)]
      rfl

section Updates

variable (keyOf : γ → α) (step : Option β → γ → β)

/-- An update of one key, from its value. -/
def update (d : List (α × β)) (c : γ) : List (α × β) :=
  set d (keyOf c) (step (d.lookup (keyOf c)) c)

/-- What some updates do to a key is what those of this key do to its value. -/
theorem lookup_foldl (cs : List γ) (key : α) : ∀ d : List (α × β),
    (cs.foldl (update keyOf step) d).lookup key =
      (cs.filter fun c => keyOf c = key).foldl (fun value c => some (step value c))
        (d.lookup key) := by
  induction cs with
  | nil => exact fun _ => rfl
  | cons c cs ih =>
    intro d
    rw [List.foldl_cons, ih, update, lookup_set]
    by_cases h : keyOf c = key
    · rw [List.filter_cons_of_pos (by simpa using h), if_pos h.symm, List.foldl_cons, h]
    · rw [List.filter_cons_of_neg (by simpa using h), if_neg (Ne.symm h)]

omit [LawfulBEq α] in
theorem nodup_keys_foldl (cs : List γ) : ∀ {d : List (α × β)}, (keys d).Nodup →
    (keys (cs.foldl (update keyOf step) d)).Nodup := by
  induction cs with
  | nil => exact fun h => h
  | cons c cs ih => exact fun h => ih (nodup_keys_set h _ _)

end Updates

end Dict
