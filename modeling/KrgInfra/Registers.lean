/-
Commands that may be refused, and the registers that they write.

A register is what can be read off a state in one place.  Each command either writes a value to
it or leaves it alone, so what a run leaves there can be told from the commands of the run.

* `runs`, `perform` — the commands of a list, one after the other, and up to the first failure;
* `Register`, `read_of_unwritten`, `read_of_agreed` — registers, and what a run leaves in them.
-/
import Mathlib.Data.List.Basic

namespace Registers

variable {σ ι α : Type} (step : ι → σ → Option σ)

/-! ### Runs -/

/-- The commands of a list, none of which is refused. -/
def runs : List ι → σ → Option σ
  | [], s => some s
  | i :: rest, s => (step i s).bind (runs rest)

variable {step}

theorem runs_cons {i : ι} {rest : List ι} {s t : σ} :
    runs step (i :: rest) s = some t ↔ ∃ u, step i s = some u ∧ runs step rest u = some t := by
  rw [runs]
  exact Option.bind_eq_some_iff

theorem runs_append {first rest : List ι} {s t : σ} :
    runs step (first ++ rest) s = some t ↔
      ∃ u, runs step first s = some u ∧ runs step rest u = some t := by
  induction first generalizing s with
  | nil => exact ⟨fun h => ⟨s, rfl, h⟩, fun ⟨u, hu, h⟩ => Option.some_inj.mp hu ▸ h⟩
  | cons i first ih =>
    rw [List.cons_append, runs_cons]
    constructor
    · rintro ⟨v, hv, h⟩
      obtain ⟨u, hu, h⟩ := ih.mp h
      exact ⟨u, runs_cons.mpr ⟨v, hv, hu⟩, h⟩
    · rintro ⟨u, hu, h⟩
      obtain ⟨v, hv, hu⟩ := runs_cons.mp hu
      exact ⟨v, hv, ih.mpr ⟨u, hu, h⟩⟩

/-- The commands that were sent, the one that failed, and the state after them. -/
structure Trace (σ ι : Type) where
  calls : List ι
  failed : Option ι
  after : σ

variable (step) in
/-- The commands of a list up to the first that fails; `answered` says which of them get through. -/
def perform : (ℕ → Bool) → List ι → σ → Trace σ ι
  | _, [], s => ⟨[], none, s⟩
  | answered, i :: rest, s =>
    match if answered 0 then step i s else none with
    | none => ⟨[i], some i, s⟩
    | some t =>
      let trace := perform (fun n => answered (n + 1)) rest t
      ⟨i :: trace.calls, trace.failed, trace.after⟩

/-- Without a failure all the commands were run. -/
theorem runs_of_perform {l : List ι} : ∀ {answered : ℕ → Bool} {s : σ},
    (perform step answered l s).failed = none →
      runs step l s = some (perform step answered l s).after := by
  induction l with
  | nil => exact fun _ => rfl
  | cons i rest ih =>
    intro answered s h
    rw [perform] at h ⊢
    cases hstep : (if answered 0 then step i s else none) with
    | none =>
      rw [hstep] at h
      exact nomatch h
    | some t =>
      rw [hstep] at h
      have hi : step i s = some t := by
        split_ifs at hstep
        exact hstep
      exact runs_cons.mpr ⟨t, hi, ih h⟩

/-- The command that failed is one of those that were sent. -/
theorem failed_mem_calls {l : List ι} : ∀ {answered : ℕ → Bool} {s : σ} {i : ι},
    (perform step answered l s).failed = some i → i ∈ (perform step answered l s).calls := by
  induction l with
  | nil => exact fun h => nomatch h
  | cons j rest ih =>
    intro answered s i h
    rw [perform] at h ⊢
    cases hstep : (if answered 0 then step j s else none) with
    | none =>
      rw [hstep] at h
      obtain rfl := Option.some_inj.mp h
      exact List.mem_singleton_self _
    | some t =>
      rw [hstep] at h
      exact List.mem_cons_of_mem _ (ih h)

/-! ### Registers -/

/-- What is read off a state, and what each command writes to it. -/
structure Register (step : ι → σ → Option σ) (α : Type) where
  read : σ → α
  written : ι → Option α
  read_step : ∀ {i : ι} {s t : σ}, step i s = some t → read t = (written i).getD (read s)

namespace Register

variable (r : Register step α)

/-- What no command writes is as it was. -/
theorem read_of_unwritten {l : List ι} (hl : ∀ i ∈ l, r.written i = none) :
    ∀ {s t : σ}, runs step l s = some t → r.read t = r.read s := by
  induction l with
  | nil => exact fun h => Option.some_inj.mp h ▸ rfl
  | cons i rest ih =>
    intro s t h
    obtain ⟨u, hu, h⟩ := runs_cons.mp h
    rw [ih (fun j hj => hl j (List.mem_cons_of_mem i hj)) h, r.read_step hu,
      hl i List.mem_cons_self]
    rfl

/-- If all that is written is one value, then this is there at the end, as long as it was there
before or is written at all. -/
theorem read_of_agreed {l : List ι} {v : α} (hl : ∀ i ∈ l, ∀ w, r.written i = some w → w = v) :
    ∀ {s t : σ}, runs step l s = some t →
      (r.read s = v ∨ ∃ i ∈ l, ∃ w, r.written i = some w) → r.read t = v := by
  induction l with
  | nil =>
    rintro s t h (hs | ⟨i, hi, -⟩)
    · exact Option.some_inj.mp h ▸ hs
    · exact nomatch hi
  | cons i rest ih =>
    intro s t h hs
    obtain ⟨u, hu, h⟩ := runs_cons.mp h
    refine ih (fun j hj => hl j (List.mem_cons_of_mem i hj)) h ?_
    rw [r.read_step hu]
    cases hi : r.written i with
    | some w => exact .inl (hl i List.mem_cons_self w hi)
    | none =>
      obtain hs | ⟨j, hj, w, hw⟩ := hs
      · exact .inl hs
      · obtain rfl | hj := List.mem_cons.mp hj
        · exact absurd (hi.symm.trans hw) (by simp)
        · exact .inr ⟨j, hj, w, hw⟩

end Register

end Registers
