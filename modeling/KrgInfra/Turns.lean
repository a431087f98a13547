/-
Loops whose end is not known.

`while True` is run for a number of turns; if the loop has not ended by then, the run is
`unfinished`.  A loop that keeps an invariant and makes a measure smaller ends, whatever the
number beyond the measure; one that always goes on never does.

* `Stop` — an exception, or a run that is unfinished;
* `turns` — the loop;
* `Triple.of_turns` — the rule for a loop that ends, and for what it ends with;
* `Triple.of_turns_unfinished` — the rule for a loop that does not.
-/
import KrgInfra.Program

/-- Why a run has no answer: an exception, or it goes on after the turns that it was given. -/
inductive Stop (ε : Type) where
  | raised (e : ε)
  | unfinished

section Turns

variable {ε σ α τ : Type}

/-- `while True`, for `n` turns: each one ends the loop or leads to the next state. -/
def turns (turn : τ → Program (Stop ε) σ (α ⊕ τ)) : ℕ → τ → Program (Stop ε) σ α
  | 0, _ => throw .unfinished
  | n + 1, s => do
    match ← turn s with
    | .inl a => return a
    | .inr s => turns turn n s

/-- What a pure computation answers or raises. -/
def orRaise (x : Except ε α) : Program (Stop ε) σ α :=
  match x with
  | .ok a => return a
  | .error e => throw (.raised e)

variable {I P : σ → Prop} {Q : α → σ → Prop} {E : Stop ε → σ → Prop}
  {turn : τ → Program (Stop ε) σ (α ⊕ τ)}

theorem Triple.of_orRaise {x : Except ε α} (hok : ∀ a s, x = .ok a → I s → P s → Q a s)
    (hraise : ∀ e s, x = .error e → I s → P s → E (.raised e) s) : Triple I P (orRaise x) Q E := by
  cases x with
  | ok a => exact Triple.pure fun s hI hP => hok a s rfl hI hP
  | error e => exact Triple.throw fun s hI hP => hraise e s rfl hI hP

theorem Triple.orRaise_eq {x : Except ε α} : Triple (fun _ => True) P (orRaise x)
    (fun a _ => x = .ok a) fun _ _ => True :=
  Triple.of_orRaise (fun _ _ h _ _ => h) fun _ _ _ _ _ => trivial

/-- What a composition ends with, given the end of its first part. -/
theorem outcomeOf_bind {β : Type} {x : Program ε σ α} {f : α → Program ε σ β} {s : σ}
    {R : σ → Prop} (hraise : ∀ e t, outcomeOf x s = (.error e, t) → R t.now)
    (hok : ∀ a t, outcomeOf x s = (.ok a, t) →
      Triple (fun _ => True) (· = t.now) (f a) (fun _ => R) fun _ => R) :
    R (outcomeOf (x >>= f) s).2.now := by
  unfold outcomeOf at hraise hok ⊢
  cases hx : x ⟨s, []⟩ with
  | error e t =>
    have hrun : (x >>= f) ⟨s, []⟩ = .error e t := by
      show EStateM.bind x f ⟨s, []⟩ = _
      rw [EStateM.bind, hx]
    rw [hrun]
    rw [hx] at hraise
    exact hraise e t rfl
  | ok a t =>
    have hrun : (x >>= f) ⟨s, []⟩ = f a t := by
      show EStateM.bind x f ⟨s, []⟩ = _
      rw [EStateM.bind, hx]
    rw [hrun]
    rw [hx] at hok
    have h := hok a t rfl t (fun _ _ => trivial) rfl
    cases hf : f a t with
    | ok b t' =>
      rw [hf] at h
      exact h.2
    | error e t' =>
      rw [hf] at h
      exact h.2

/-- **A loop that ends.**  From a state with `J` every turn ends the loop with `Q`, raises with
`E`, or leads to a state with `J` and a smaller measure. -/
theorem Triple.of_turns {J : τ → σ → Prop} {μ : τ → ℕ}
    (h : ∀ s, Triple I (J s) (turn s) (fun r w =>
      match r with
      | .inl a => Q a w
      | .inr s' => J s' w ∧ μ s' < μ s) E) :
    ∀ n s, μ s < n → Triple I (J s) (turns turn n s) Q E := by
  intro n
  induction n with
  | zero => exact fun s hs => absurd hs (Nat.not_lt_zero _)
  | succ n ih =>
    intro s hs
    rw [turns]
    refine Triple.bind (h s) fun r => ?_
    cases r with
    | inl a => exact Triple.pure fun _ _ h => h
    | inr s' =>
      refine Triple.weaken (P := fun w => μ s' < μ s ∧ J s' w) ?_ fun _ _ h => h.symm
      exact Triple.of_fact fun hlt => ih s' (by omega)

/-- **A loop that does not end.**  From a state with `J` every turn leads to another. -/
theorem Triple.of_turns_unfinished {J : τ → σ → Prop}
    (h : ∀ s, Triple I (J s) (turn s) (fun r w => ∃ s', r = .inr s' ∧ J s' w) fun _ _ => False) :
    ∀ n s, Triple I (J s) (turns turn n s) (fun _ _ => False) fun e _ => e = .unfinished := by
  intro n
  induction n with
  | zero => exact fun s => Triple.throw fun _ _ _ => rfl
  | succ n ih =>
    intro s
    rw [turns]
    refine Triple.bind ((h s).except fun _ _ _ => False.elim) fun r => ?_
    refine Triple.exists_pre fun s' => Triple.of_fact fun hr => ?_
    subst hr
    exact ih s'

/-- What every turn keeps, the loop keeps. -/
theorem Throughout.turns (h : ∀ s, Throughout I (turn s)) :
    ∀ n s, Throughout I (turns turn n s) := by
  intro n
  induction n with
  | zero => exact fun _ => Throughout.throw
  | succ n ih =>
    intro s
    refine Throughout.bind (h s) fun r => ?_
    cases r with
    | inl a => exact Throughout.pure
    | inr s' => exact ih s'

theorem Throughout.orRaise {x : Except ε α} : Throughout I (orRaise x) := by
  cases x with
  | ok a => exact Throughout.pure
  | error e => exact Throughout.throw

end Turns
