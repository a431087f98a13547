/-
Systems that take one event after the other.

A step says what an event makes of a state, or that it cannot happen there.  What every event keeps,
every order of events keeps; and where a kind of event makes a measure smaller, there are not more of
that kind than the measure allows.

* `happens` — the events of a list, one after the other;
* `happens_keeps`, `happens_keeps_of` — the rule for an invariant;
* `countP_add_le` — the rule for a measure.
-/
import Mathlib.Data.List.Basic
import Mathlib.Data.Option.Basic

namespace Interleaving

variable {σ ε : Type} {step : σ → ε → Option σ}

/-- The events of a list; `none` once one of them cannot happen. -/
def happens (step : σ → ε → Option σ) : σ → List ε → Option σ
  | s, [] => some s
  | s, e :: events => (step s e).bind fun s' => happens step s' events

@[simp] theorem happens_nil (s : σ) : happens step s [] = some s := rfl

theorem happens_cons {s t : σ} {e : ε} {events : List ε} :
    happens step s (e :: events) = some t ↔ ∃ s', step s e = some s' ∧
      happens step s' events = some t :=
  Option.bind_eq_some_iff

/-- **Invariants, for events of a kind.**  What every such event keeps holds after all of them. -/
theorem happens_keeps_of {I : σ → Prop} {P : ε → Prop}
    (hstep : ∀ {s e s'}, P e → I s → step s e = some s' → I s') {s t : σ} {events : List ε}
    (hevents : ∀ e ∈ events, P e) (hs : I s) (h : happens step s events = some t) : I t := by
  induction events generalizing s with
  | nil =>
    obtain rfl := Option.some.inj h
    exact hs
  | cons e events ih =>
    obtain ⟨s', hs', h⟩ := happens_cons.mp h
    obtain ⟨he, hevents⟩ := List.forall_mem_cons.mp hevents
    exact ih hevents (hstep he hs hs') h

/-- **Invariants.**  What every event keeps holds after all of them. -/
theorem happens_keeps {I : σ → Prop} (hstep : ∀ {s e s'}, I s → step s e = some s' → I s')
    {s t : σ} {events : List ε} (hs : I s) (h : happens step s events = some t) : I t :=
  happens_keeps_of (P := fun _ => True) (fun _ => hstep) (fun _ _ => trivial) hs h

/-- **Measures.**  If no event makes the measure larger, and those of a kind make it smaller, there
are at most as many of them as the measure was at first. -/
theorem countP_add_le {μ : σ → ℕ} {p : ε → Bool}
    (hstep : ∀ {s e s'}, step s e = some s' → μ s' + (if p e then 1 else 0) ≤ μ s)
    {s t : σ} {events : List ε} (h : happens step s events = some t) :
    events.countP p + μ t ≤ μ s := by
  induction events generalizing s with
  | nil =>
    obtain rfl := Option.some.inj h
    simp
  | cons e events ih =>
    obtain ⟨s', hs', h⟩ := happens_cons.mp h
    have hfirst := hstep hs'
    have hrest := ih h
    rw [List.countP_cons]
    split_ifs at hfirst ⊢ <;> omega

end Interleaving
