/-
Programs that call the outside world, and the triples that reason about them.

A `Program ε σ α` may raise an exception `ε` and changes a world `σ`; the
changes made before an exception survive it.  Its state is a `Trace`: the world
now, and every world the program has passed through, so that an invariant can
be stated of every intermediate state and not of the last one only.

A program touches the world through `call env i act`: at call site `i` the
environment may first change the world (`env.before`), and may make the call
raise, with or without its effect (`env.outcome`).  A statement for every
environment is a statement for every choice of failing calls.

* `Triple I P x Q E` — started in a world with `P`, `x` keeps `I` in every
  world it passes through and ends with `Q`, or raises with `E`;
* `Triple.bind`, `Triple.tryCatch`, `Triple.attempt`, `Triple.withFinally` —
  one rule for each way of composing programs;
* `Triple.of_call` — the rule for one call.
-/
import Mathlib.Data.List.Basic

/-- The world now, and the worlds passed through before it, latest first. -/
structure Trace (σ : Type) where
  now : σ
  past : List σ := []

namespace Trace

variable {σ : Type}

/-- Every world of the trace, latest first. -/
def states (t : Trace σ) : List σ := t.now :: t.past

/-- Move on to the world `s`. -/
def push (t : Trace σ) (s : σ) : Trace σ := ⟨s, t.states⟩

@[simp] theorem now_push (t : Trace σ) (s : σ) : (t.push s).now = s := rfl

@[simp] theorem states_push (t : Trace σ) (s : σ) : (t.push s).states = s :: t.states := rfl

theorem now_mem (t : Trace σ) : t.now ∈ t.states := List.mem_cons_self

end Trace

/-- A program over worlds `σ` that may raise `ε`. -/
abbrev Program (ε σ α : Type) : Type := EStateM ε (Trace σ) α

/-- One atomic piece of work on the world: an answer or an error, and the world
after it. -/
abbrev Work (ε σ α : Type) : Type := σ → Except ε α × σ

/-- An action that reads the world and leaves it as it is. -/
def Work.query {ε σ α : Type} (f : σ → Except ε α) : Work ε σ α := fun s => (f s, s)

/-- An action that changes the world, or fails and leaves it as it is. -/
def Work.update {ε σ α : Type} (f : σ → Except ε (α × σ)) : Work ε σ α := fun s =>
  match f s with
  | .ok (a, s') => (.ok a, s')
  | .error e => (.error e, s)

/-- What becomes of a call: it does its work, or it raises; `done` says whether
a raising call has had its effect all the same. -/
inductive Outcome (ε : Type) where
  | ok
  | raise (e : ε) (done : Bool)
  deriving DecidableEq, Repr

/-- A call has its effect, whether it raises or not. -/
def Outcome.takes {ε : Type} : Outcome ε → Bool
  | .raise _ false => false
  | _ => true

/-- The environment of a program with call sites `ι`. -/
structure Env (ι ε σ : Type) where
  before : ι → σ → σ := fun _ s => s
  outcome : ι → Outcome ε := fun _ => .ok

section Programs

variable {ε σ α β ι : Type}

/-- The call at site `i`. -/
def call (env : Env ι ε σ) (i : ι) (act : Work ε σ α) : Program ε σ α := fun t =>
  let s := env.before i t.now
  let t := t.push s
  match env.outcome i with
  | .ok =>
    match act s with
    | (.ok a, s') => .ok a (t.push s')
    | (.error e, s') => .error e (t.push s')
  | .raise e done => .error e (if done then t.push (act s).2 else t)

/-- Write to a world's own record of what was done. -/
def record (f : σ → σ) : Program ε σ Unit := fun t => .ok () (t.push (f t.now))

/-- `try: x  except: return None`. -/
def attempt (x : Program ε σ α) : Program ε σ (Option α) :=
  tryCatch (some <$> x) fun _ => pure none

/-- `try: x  finally: fin`. -/
def withFinally (x : Program ε σ α) (fin : Program ε σ Unit) : Program ε σ α := do
  let a ← tryCatch x fun e => do
    fin
    throw e
  fin
  return a

/-- A program's answer, if it returned, and the last world. -/
def outcomeOf (x : Program ε σ α) (s : σ) : Except ε α × Trace σ :=
  match x ⟨s, []⟩ with
  | .ok a t => (.ok a, t)
  | .error e t => (.error e, t)

end Programs

section Triples

variable {ε σ α β ι : Type}

/-- Started in a world with `P`, the program keeps `I` in every world it passes
through, and ends in a world with `Q` of its answer or raises with `E`. -/
def Triple (I P : σ → Prop) (x : Program ε σ α) (Q : α → σ → Prop) (E : ε → σ → Prop) : Prop :=
  ∀ t : Trace σ, (∀ s ∈ t.states, I s) → P t.now →
    match x t with
    | .ok a t' => (∀ s ∈ t'.states, I s) ∧ Q a t'.now
    | .error e t' => (∀ s ∈ t'.states, I s) ∧ E e t'.now

namespace Triple

variable {I P A : σ → Prop} {Q B : α → σ → Prop} {R : β → σ → Prop} {E F : ε → σ → Prop}
  {x : Program ε σ α}

theorem pure {a : α} (h : ∀ s, I s → P s → Q a s) : Triple I P (pure a : Program ε σ α) Q E :=
  fun t hI hP => ⟨hI, h _ (hI _ t.now_mem) hP⟩

theorem throw {e : ε} (h : ∀ s, I s → P s → E e s) :
    Triple I P (throw e : Program ε σ α) Q E :=
  fun t hI hP => ⟨hI, h _ (hI _ t.now_mem) hP⟩

theorem bind {f : α → Program ε σ β} (hx : Triple I P x Q E)
    (hf : ∀ a, Triple I (Q a) (f a) R E) : Triple I P (x >>= f) R E := by
  intro t hI hP
  have h := hx t hI hP
  show match EStateM.bind x f t with | .ok _ _ => _ | .error _ _ => _
  rw [EStateM.bind]
  cases hr : x t with
  | ok a t' =>
    rw [hr] at h
    exact hf a t' h.1 h.2
  | error e t' =>
    rw [hr] at h
    exact h

theorem tryCatch {f : ε → Program ε σ α} (hx : Triple I P x Q E)
    (hf : ∀ e, Triple I (E e) (f e) Q F) :
    Triple I P (MonadExcept.tryCatch x f) Q F := by
  intro t hI hP
  have h := hx t hI hP
  show match EStateM.tryCatch x f t with | .ok _ _ => _ | .error _ _ => _
  rw [EStateM.tryCatch]
  cases hr : x t with
  | ok a t' =>
    rw [hr] at h
    exact h
  | error e t' =>
    rw [hr] at h
    exact hf e t' h.1 h.2

theorem conseq (hx : Triple I P x Q E) (hP : ∀ s, I s → A s → P s)
    (hQ : ∀ a s, I s → Q a s → B a s) (hE : ∀ e s, I s → E e s → F e s) :
    Triple I A x B F := by
  intro t hI hA
  have h := hx t hI (hP _ (hI _ t.now_mem) hA)
  cases hr : x t with
  | ok a t' =>
    rw [hr] at h
    exact ⟨h.1, hQ _ _ (h.1 _ t'.now_mem) h.2⟩
  | error e t' =>
    rw [hr] at h
    exact ⟨h.1, hE _ _ (h.1 _ t'.now_mem) h.2⟩

theorem weaken (hx : Triple I P x Q E) (hP : ∀ s, I s → A s → P s) : Triple I A x Q E :=
  hx.conseq hP (fun _ _ _ h => h) fun _ _ _ h => h

theorem except (hx : Triple I P x Q E) (hE : ∀ e s, I s → E e s → F e s) : Triple I P x Q F :=
  hx.conseq (fun _ _ h => h) (fun _ _ _ h => h) hE

/-- Every program ends somehow. -/
theorem top : Triple (fun _ => True) P x (fun _ _ => True) fun _ _ => True := by
  intro t _ _
  cases x t <;> exact ⟨fun _ _ => trivial, trivial⟩

/-- What two triples say of one run. -/
theorem and {B : α → σ → Prop} {F : ε → σ → Prop} (hx : Triple I P x Q E) (hx' : Triple I P x B F) :
    Triple I P x (fun a s => Q a s ∧ B a s) fun e s => E e s ∧ F e s := by
  intro t hI hP
  have h := hx t hI hP
  have h' := hx' t hI hP
  cases hr : x t with
  | ok a t' =>
    rw [hr] at h h'
    exact ⟨h.1, h.2, h'.2⟩
  | error e t' =>
    rw [hr] at h h'
    exact ⟨h.1, h.2, h'.2⟩

theorem map {f : α → β} (hx : Triple I P x Q E) (hf : ∀ a s, I s → Q a s → R (f a) s) :
    Triple I P (f <$> x) R E := by
  intro t hI hP
  have h := hx t hI hP
  show match EStateM.map f x t with | .ok _ _ => _ | .error _ _ => _
  rw [EStateM.map]
  cases hr : x t with
  | ok a t' =>
    rw [hr] at h
    exact ⟨h.1, hf a _ (h.1 _ t'.now_mem) h.2⟩
  | error e t' =>
    rw [hr] at h
    exact h

/-- A fact that does not mention the world moves out of the precondition. -/
theorem of_fact {φ : Prop} (h : φ → Triple I P x Q E) : Triple I (fun s => φ ∧ P s) x Q E :=
  fun t hI hP => h hP.1 t hI hP.2

/-- A fact about no world is known throughout. -/
theorem of_known {φ : Prop} (h : φ → Triple I (fun _ => True) x Q E) : Triple I (fun _ => φ) x Q E :=
  fun t hI hφ => h hφ t hI trivial

/-- A triple from every single world with `P`. -/
theorem of_each (h : ∀ s, P s → Triple I (· = s) x Q E) : Triple I P x Q E :=
  fun t hI hP => h t.now hP t hI rfl

theorem exists_pre {γ : Type} {P : γ → σ → Prop} (h : ∀ c, Triple I (P c) x Q E) :
    Triple I (fun s => ∃ c, P c s) x Q E := by
  rintro t hI ⟨c, hP⟩
  exact h c t hI hP

theorem attempt {Q : Option α → σ → Prop} (hx : Triple I P x (fun a => Q (some a)) fun _ => Q none) :
    Triple I P (attempt x) Q E :=
  tryCatch (E := fun _ => Q none) (map hx fun _ _ _ h => h) fun _ => pure fun _ _ h => h

/-- `finally`: the final part runs after an answer and after an exception. -/
theorem withFinally {fin : Program ε σ Unit} {E₁ : ε → σ → Prop} (hx : Triple I P x Q E₁)
    (hok : ∀ a, Triple I (Q a) fin (fun _ => B a) E)
    (hraise : ∀ e, Triple I (E₁ e) fin (fun _ => E e) E) :
    Triple I P (withFinally x fin) B E := by
  refine bind (Q := Q) (tryCatch hx fun e => ?_) fun a => ?_
  · exact bind (hraise e) fun _ => throw fun _ _ h => h
  · exact bind (hok a) fun _ => pure fun _ _ h => h

/-- The rule for one call: what the environment leaves (`P'`), what the work
does from there, and what a raise without and with the effect leaves. -/
theorem of_call {env : Env ι ε σ} {i : ι} {act : Work ε σ α} (P' : σ → Prop)
    (hbefore : ∀ s, I s → P s → I (env.before i s) ∧ P' (env.before i s))
    (hact : ∀ s, I s → P' s → I (act s).2 ∧
      match (act s).1 with
      | .ok a => Q a (act s).2
      | .error e => E e (act s).2)
    (hraise : ∀ e done s, env.outcome i = .raise e done → I s → P' s →
      E e (if done then (act s).2 else s)) :
    Triple I P (call env i act) Q E := by
  intro t hI hP
  obtain ⟨hb, hP'⟩ := hbefore _ (hI _ t.now_mem) hP
  obtain ⟨ha, hq⟩ := hact _ hb hP'
  have hI₁ : ∀ s ∈ (t.push (env.before i t.now)).states, I s :=
    List.forall_mem_cons.mpr ⟨hb, hI⟩
  have hI₂ : ∀ s ∈ ((t.push (env.before i t.now)).push (act (env.before i t.now)).2).states,
      I s := List.forall_mem_cons.mpr ⟨ha, hI₁⟩
  unfold call
  cases ho : env.outcome i with
  | ok =>
    cases hr : act (env.before i t.now) with
    | mk r s' =>
      rw [hr] at hq hI₂
      cases r with
      | ok a =>
        simp only [hr]
        exact ⟨hI₂, hq⟩
      | error e =>
        simp only [hr]
        exact ⟨hI₂, hq⟩
  | raise e done =>
    have he := hraise e done _ ho hb hP'
    cases done with
    | true => exact ⟨hI₂, he⟩
    | false => exact ⟨hI₁, he⟩

theorem record {f : σ → σ} {Q : Unit → σ → Prop} (h : ∀ s, I s → P s → I (f s) ∧ Q () (f s)) :
    Triple I P (record f) Q E := by
  intro t hI hP
  obtain ⟨hI', hQ⟩ := h _ (hI _ t.now_mem) hP
  exact ⟨List.forall_mem_cons.mpr ⟨hI', hI⟩, hQ⟩

/-- A call that is started in a known world. -/
theorem call_from {env : Env ι ε σ} {i : ι} {act : Work ε σ α} {s : σ} :
    Triple (fun _ => True) (· = s) (call env i act)
      (fun a s' => env.outcome i = .ok ∧ act (env.before i s) = (.ok a, s'))
      (fun e s' => (env.outcome i = .ok ∧ act (env.before i s) = (.error e, s')) ∨
        ∃ done, env.outcome i = .raise e done ∧
          s' = if done then (act (env.before i s)).2 else env.before i s) := by
  rintro t - rfl
  unfold call
  cases ho : env.outcome i with
  | ok =>
    cases hr : act (env.before i t.now) with
    | mk r s' =>
      cases r with
      | ok a => simp [hr]
      | error e => simp [hr]
  | raise e done => cases done <;> simp [Trace.push]

/-- A call that is started in a known world, which nobody else changes. -/
theorem call_at {env : Env ι ε σ} {i : ι} {act : Work ε σ α} {s : σ}
    (hbefore : env.before i s = s) :
    Triple (fun _ => True) (· = s) (call env i act)
      (fun a s' => env.outcome i = .ok ∧ act s = (.ok a, s'))
      (fun e s' => (env.outcome i = .ok ∧ act s = (.error e, s')) ∨
        ∃ done, env.outcome i = .raise e done ∧ s' = if done then (act s).2 else s) := by
  have h := @call_from _ _ _ _ env i act s
  rwa [hbefore] at h

/-- A call that always answers, started in a known world, which nobody else changes. -/
theorem work_at (env : Env ι ε σ) (i : ι) (f : σ → α × σ) {s : σ}
    (hbefore : env.before i s = s) :
    Triple (fun _ => True) (· = s) (call env i fun s => (.ok (f s).1, (f s).2))
      (fun a s' => env.outcome i = .ok ∧ a = (f s).1 ∧ s' = (f s).2)
      (fun _ s' => env.outcome i ≠ .ok ∧ s' = if (env.outcome i).takes then (f s).2 else s) := by
  refine (call_at hbefore).conseq (fun _ _ h => h) ?_ ?_
  · rintro a s' - ⟨ho, hact⟩
    rw [Prod.mk.injEq, Except.ok.injEq] at hact
    exact ⟨ho, hact.1.symm, hact.2.symm⟩
  · rintro e s' - (⟨-, hact⟩ | ⟨done, ho, hs'⟩)
    · exact nomatch (Prod.mk.inj hact).1
    · refine ⟨by simp [ho], ?_⟩
      rw [hs', ho]
      cases done <;> rfl

/-- A call that is made to raise does not answer. -/
theorem of_raise {env : Env ι ε σ} {i : ι} {act : Work ε σ α} {e : ε} {done : Bool}
    (h : env.outcome i = .raise e done) :
    Triple (fun _ => True) P (call env i act) Q fun _ _ => True := by
  intro t _ _
  unfold call
  rw [h]
  exact ⟨fun _ _ => trivial, trivial⟩

/-- A triple read at the start of a run. -/
theorem of_start (h : Triple I P x Q E) {s : σ} (hI : I s) (hP : P s) :
    (∀ s' ∈ (outcomeOf x s).2.states, I s') ∧
      match outcomeOf x s with
      | (.ok a, t) => Q a t.now
      | (.error e, t) => E e t.now := by
  have h := h ⟨s, []⟩ (by simpa [Trace.states] using hI) hP
  unfold outcomeOf
  cases hr : x ⟨s, []⟩ with
  | ok a t =>
    rw [hr] at h
    exact h
  | error e t =>
    rw [hr] at h
    exact h

/-- What a run that has answered `a` ends with. -/
theorem of_answer (h : Triple I P x Q E) {s : σ} (hI : I s) (hP : P s) {a : α}
    (ha : (outcomeOf x s).1.toOption = some a) : Q a (outcomeOf x s).2.now := by
  have h := (h.of_start hI hP).2
  cases hr : outcomeOf x s with
  | mk r t =>
    rw [hr] at h ha
    cases r with
    | ok b =>
      obtain rfl : b = a := Option.some_inj.mp ha
      exact h
    | error e => exact absurd ha (by simp [Except.toOption])

/-- What a run ends with, however it ends. -/
theorem of_end {R : σ → Prop} (h : Triple I P x (fun _ => R) (fun _ => R)) {s : σ} (hI : I s)
    (hP : P s) : R (outcomeOf x s).2.now := by
  have h := (h.of_start hI hP).2
  cases hr : outcomeOf x s with
  | mk r t =>
    rw [hr] at h
    cases r with
    | ok a => exact h
    | error e => exact h

end Triple

/-- The program keeps `I`, whatever it does. -/
def Throughout (I : σ → Prop) (x : Program ε σ α) : Prop :=
  Triple I (fun _ => True) x (fun _ _ => True) fun _ _ => True

namespace Throughout

variable {I : σ → Prop} {x : Program ε σ α}

theorem pure {a : α} : Throughout I (Pure.pure a : Program ε σ α) := Triple.pure fun _ _ h => h

theorem throw {e : ε} : Throughout I (MonadExcept.throw e : Program ε σ α) :=
  Triple.throw fun _ _ h => h

theorem bind {f : α → Program ε σ β} (hx : Throughout I x) (hf : ∀ a, Throughout I (f a)) :
    Throughout I (x >>= f) := Triple.bind hx hf

theorem tryCatch {f : ε → Program ε σ α} (hx : Throughout I x) (hf : ∀ e, Throughout I (f e)) :
    Throughout I (MonadExcept.tryCatch x f) := Triple.tryCatch hx hf

theorem map {f : α → β} (hx : Throughout I x) : Throughout I (f <$> x) :=
  Triple.map hx fun _ _ _ h => h

theorem attempt (hx : Throughout I x) : Throughout I (attempt x) := Triple.attempt hx

theorem withFinally {fin : Program ε σ Unit} (hx : Throughout I x) (hfin : Throughout I fin) :
    Throughout I (withFinally x fin) := Triple.withFinally hx (fun _ => hfin) fun _ => hfin

theorem call {env : Env ι ε σ} {i : ι} {act : Work ε σ α} (hbefore : ∀ s, I s → I (env.before i s))
    (hact : ∀ s, I s → I (act s).2) : Throughout I (call env i act) := by
  refine Triple.of_call (fun _ => True) (fun s hs _ => ⟨hbefore s hs, trivial⟩)
    (fun s hs _ => ⟨hact s hs, ?_⟩) fun _ _ _ _ _ _ => trivial
  cases (act s).1 <;> trivial

/-- What a run ends with. -/
theorem of_end (h : Throughout I x) {s : σ} (hs : I s) : I (outcomeOf x s).2.now :=
  (Triple.of_start h hs trivial).1 _ (outcomeOf x s).2.now_mem

end Throughout

end Triples
