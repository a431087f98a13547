/-
A JSON document at the beginning of a text.

`raw_decode` reads one document and says where it ends: for an object or an array, at the bracket
that closes it.

* `rawDecode`, `raw_decode` — the document and what comes after it;
* `length_raw_decode` — it is not empty;
* `raw_decode_append` — an object is read in the same way before any other text.
-/
import KrgInfra.JsonText

namespace JsonText

variable {k : Scalars}

/-- The rest of a document.  A number or a constant ends before the first character that is none
of it. -/
def rawDecode (k : Scalars) : State → List Char → Option (Json × List Char)
  | ⟨[], .done v⟩, l => some (v, l)
  | ⟨[], .atom text⟩, [] => (k.atom text).map fun v => (v, [])
  | ⟨[], .atom text⟩, c :: l =>
    if inAtom c then rawDecode k ⟨[], .atom (text ++ [c])⟩ l
    else (k.atom text).map fun v => (v, c :: l)
  | _, [] => none
  | s, c :: l => (step k s c).bind fun t => rawDecode k t l

/-- `JSONDecoder.raw_decode`, of a text that does not begin with white space. -/
def raw_decode (k : Scalars) (text : List Char) : Option (Json × List Char) :=
  rawDecode k start text

theorem rawDecode_done (v : Json) (l : List Char) :
    rawDecode k ⟨[], .done v⟩ l = some (v, l) := by
  rw [rawDecode]

/-- Within an array or object, characters are taken one by one. -/
theorem rawDecode_open (f : Frame) (stack : List Frame) (mode : Mode) (c : Char) (l : List Char) :
    rawDecode k ⟨f :: stack, mode⟩ (c :: l) =
      (step k ⟨f :: stack, mode⟩ c).bind fun t => rawDecode k t l := by
  rw [rawDecode]
  · exact fun _ h => nomatch h
  · exact fun _ h => nomatch h

theorem length_rawDecode (l : List Char) : ∀ {s : State} {v : Json} {rest : List Char},
    rawDecode k s l = some (v, rest) → rest.length ≤ l.length := by
  induction l with
  | nil =>
    intro s v rest h
    unfold rawDecode at h
    split at h
    · rw [(Prod.mk.inj (Option.some_inj.mp h)).2]
    · obtain ⟨_, _, h⟩ := Option.map_eq_some_iff.mp h
      rw [(Prod.mk.inj h).2]
    · next hnil => exact nomatch hnil
    · exact nomatch h
    · next hnil => exact nomatch hnil
  | cons c l ih =>
    intro s v rest h
    unfold rawDecode at h
    split at h
    · rw [(Prod.mk.inj (Option.some_inj.mp h)).2]
    · next hcons => exact nomatch hcons
    · next hcons =>
      obtain ⟨rfl, rfl⟩ := List.cons.inj hcons
      split_ifs at h
      · exact Nat.le_succ_of_le (ih h)
      · obtain ⟨_, _, h⟩ := Option.map_eq_some_iff.mp h
        rw [(Prod.mk.inj h).2]
    · next hcons => exact nomatch hcons
    · next hcons =>
      obtain ⟨rfl, rfl⟩ := List.cons.inj hcons
      obtain ⟨t, _, h⟩ := Option.bind_eq_some_iff.mp h
      exact Nat.le_succ_of_le (ih h)

/-- At least one character is read. -/
theorem length_raw_decode {text : List Char} {v : Json} {rest : List Char}
    (h : raw_decode k text = some (v, rest)) : rest.length < text.length := by
  cases text with
  | nil => exact nomatch h
  | cons c l =>
    obtain ⟨t, _, h⟩ := Option.bind_eq_some_iff.mp h
    exact Nat.lt_succ_of_le (length_rawDecode l h)

/-- After a document only white space is read. -/
theorem isWs_of_done {l : List Char} {v : Json} : ∀ {t : State},
    run k ⟨[], .done v⟩ l = some t → ∀ c ∈ l, isWs c = true := by
  induction l with
  | nil => exact fun _ _ hc => absurd hc List.not_mem_nil
  | cons c l ih =>
    intro t h
    obtain ⟨r, hr, hrun⟩ := run_cons_iff.mp h
    have hc : isWs c = true := by
      by_contra hc
      have hnone : step k ⟨[], .done v⟩ c = none := by
        show afterValue _ c = none
        rw [afterValue, skipOr, if_neg hc]
        exact ite_self _
      cases hnone.symm.trans hr
    have hsame : r = ⟨[], .done v⟩ := by
      have hdone : Between ⟨[], .done v⟩ := trivial
      rw [step_ws hdone hc] at hr
      exact (Option.some_inj.mp hr).symm
    rw [hsame] at hrun
    exact List.forall_mem_cons.mpr ⟨hc, ih hrun⟩

/-- A document that does not end with white space ends with its last character. -/
theorem rawDecode_run (rest : List Char) (l : List Char) : ∀ {s : State} {v : Json}, Inside s →
    run k s l = some ⟨[], .done v⟩ → (∀ c ∈ l.getLast?, isWs c = false) →
      rawDecode k s (l ++ rest) = some (v, rest) := by
  induction l with
  | nil =>
    intro s v _ h _
    obtain rfl := Option.some_inj.mp h
    exact rawDecode_done v rest
  | cons c l ih =>
    intro s v hs h hlast
    obtain ⟨f, stack, mode, rfl, _⟩ | ⟨w, rfl⟩ := hs.cases_on
    · obtain ⟨t, ht, hrun⟩ := run_cons_iff.mp h
      have hchar : run k ⟨f :: stack, mode⟩ [c] = some t := run_cons_iff.mpr ⟨t, ht, rfl⟩
      have hinside : Inside t := inside_run hs hchar
      rw [List.cons_append, rawDecode_open, ht, Option.bind_some]
      refine ih hinside hrun fun d hd => hlast d ?_
      rw [List.getLast?_cons, Option.mem_def.mp hd]
      rfl
    · -- it would have ended before
      have hws := isWs_of_done h _ (List.getLast_mem (List.cons_ne_nil c l))
      rw [hlast _ (List.getLast?_eq_some_getLast _)] at hws
      exact absurd hws (by decide)

/-- An object is read in the same way before any other text. -/
theorem raw_decode_append {text : List Char} {v : Json} (h : loads k ('{' :: text) = some v)
    (hlast : ∀ c ∈ text.getLast?, isWs c = false) (rest : List Char) :
    raw_decode k ('{' :: (text ++ rest)) = some (v, rest) := by
  obtain ⟨t, hrun, hfinish⟩ := Option.bind_eq_some_iff.mp h
  have hinside : Inside ⟨[.obj [] ""], .firstKey⟩ := inside_open _ [] fun _ h => nomatch h
  have hbrace : run k ⟨[.obj [] ""], .firstKey⟩ text = some t := hrun
  rw [done_of_finish (inside_run hinside hbrace) hfinish] at hbrace
  exact rawDecode_run rest text hinside hbrace hlast

end JsonText
