/-
Shell scripts, where `set -e` is off.

Bash ignores `set -e` in a subshell that is tested (`if ! ( … )`, `( … ) || …`) and in
everything that it calls: a command that fails there only has a status, and the next
command runs.  So a script is a program that raises nothing but the status it exits with,
and a command gives its output, or nothing.

* `Script` — the exception of a script is the status of its `exit`;
* `Script.run`, `Script.output`, `Script.status` — a command whose failure is left to
  what follows, `$( … )`, and a command whose status is asked for;
* `Script.subshell` — `( … )`;
* `captured` — what `$( … )` keeps of a command's output;
* `Triple.run`, `Triple.note`, `Triple.subshell` — their rules.
-/
import KrgInfra.Program
import Mathlib.Data.List.DropRight

/-- A shell script over worlds `σ`; what it raises is the status it exits with. -/
abbrev Script (σ α : Type) : Type := Program ℕ σ α

/-- Which commands fail: a command that raises `e` fails with status `e + 1`. -/
structure ShellEnv (ι : Type) where
  outcome : ι → Outcome ℕ := fun _ => .ok

/-- What a command that would give `r` gives: nothing, if it fails. -/
def ShellEnv.answer {ι α : Type} (env : ShellEnv ι) (i : ι) (r : Except ℕ α) : Option α :=
  match env.outcome i with
  | .ok => r.toOption
  | .raise _ _ => none

theorem ShellEnv.answer_of_ok {ι α : Type} {env : ShellEnv ι} {i : ι} (h : env.outcome i = .ok)
    (r : Except ℕ α) : env.answer i r = r.toOption := by
  rw [answer, h]

theorem ShellEnv.answer_of_not_ok {ι α : Type} {env : ShellEnv ι} {i : ι}
    (h : env.outcome i ≠ .ok) (r : Except ℕ α) : env.answer i r = none := by
  unfold answer
  cases ho : env.outcome i with
  | ok => exact absurd ho h
  | raise e done => rfl

/-- A command answers if it does not fail and there is something to answer. -/
theorem ShellEnv.answer_eq_some {ι α : Type} {env : ShellEnv ι} {i : ι} {r : Except ℕ α} {a : α} :
    env.answer i r = some a ↔ env.outcome i = .ok ∧ r = .ok a := by
  unfold answer
  cases env.outcome i <;> cases r <;> simp [Except.toOption]

/-- A command has its effect, whether it fails or not. -/
def ShellEnv.takes {ι : Type} (env : ShellEnv ι) (i : ι) : Bool :=
  match env.outcome i with
  | .raise _ false => false
  | _ => true

theorem ShellEnv.takes_of_ok {ι : Type} {env : ShellEnv ι} {i : ι} (h : env.outcome i = .ok) :
    env.takes i = true := by
  rw [takes, h]

/-- Nobody else changes the world while the script runs. -/
def ShellEnv.toEnv {ι : Type} (σ : Type) (env : ShellEnv ι) : Env ι ℕ σ where
  before _ w := w
  outcome := env.outcome

/-- What `$( … )` keeps of a text: it drops NUL characters, and the newlines at the end. -/
def captured (text : String) : String :=
  String.ofList ((text.toList.filter (· ≠ Char.ofNat 0)).rdropWhile (· = '\n'))

/-- A newline at the end makes no difference. -/
theorem captured_newline (text : String) : captured (text ++ "\n") = captured text := by
  have htext : (text ++ "\n").toList = text.toList ++ ['\n'] := by simp
  rw [captured, captured, htext, List.filter_append]
  have hline : ['\n'].filter (· ≠ Char.ofNat 0) = ['\n'] := by decide
  rw [hline, List.rdropWhile_concat_pos _ _ _ (by simp)]

/-- A text without newlines and NUL characters is captured as it is. -/
theorem captured_eq_self {text : String}
    (h : ∀ c ∈ text.toList, c ≠ Char.ofNat 0 ∧ c ≠ '\n') : captured text = text := by
  have hnul : text.toList.filter (· ≠ Char.ofNat 0) = text.toList := by
    rw [List.filter_eq_self]
    intro c hc
    simpa using (h c hc).1
  have hlast : text.toList.rdropWhile (· = '\n') = text.toList := by
    rw [List.rdropWhile_eq_self_iff]
    intro hne
    simpa using (h _ (List.getLast_mem hne)).2
  rw [captured, hnul, hlast, String.ofList_toList]

namespace Script

variable {σ α ι : Type}

/-- `exit n` -/
def exit (n : ℕ) : Script σ α := throw n

/-- A command where `set -e` is off: what it answers, or nothing. -/
def run (env : ShellEnv ι) (i : ι) (act : Work ℕ σ α) : Script σ (Option α) :=
  attempt (call (env.toEnv σ) i act)

/-- `$(command)`: a command that fails has printed nothing. -/
def output (env : ShellEnv ι) (i : ι) (act : Work ℕ σ String) : Script σ String := do
  let out ← run env i act
  return captured (out.getD "")

/-- The status of a command. -/
def status (env : ShellEnv ι) (i : ι) (act : Work ℕ σ Unit) : Script σ ℕ :=
  tryCatch (do call (env.toEnv σ) i act; return 0) fun e => pure (e + 1)

/-- `( body )`: the status the subshell ends with. -/
def subshell (body : Script σ ℕ) : Script σ ℕ := tryCatch body pure

/-- Write to a world's own record of what was done. -/
def note (f : σ → σ) : Script σ Unit := record f

/-- The status a whole script ends with. -/
def exitStatus (x : Script σ Unit) (s : σ) : ℕ :=
  match (outcomeOf x s).1 with
  | .ok _ => 0
  | .error n => n

end Script

namespace Triple

variable {σ α ι : Type} {I P : σ → Prop} {env : ShellEnv ι} {i : ι}

/-- The rule for one command: what it leaves if it does its work, and what it leaves if it
fails, without its effect or with it. -/
theorem run {act : Work ℕ σ α} {Q : Option α → σ → Prop} {E : ℕ → σ → Prop}
    (hI : ∀ w, I w → P w → I (act w).2)
    (hok : ∀ w a, I w → P w → (act w).1 = .ok a → Q (some a) (act w).2)
    (herr : ∀ w e, I w → P w → (act w).1 = .error e → Q none (act w).2)
    (hraise : ∀ e done w, env.outcome i = .raise e done → I w → P w →
      Q none (if done then (act w).2 else w)) :
    Triple I P (Script.run env i act) Q E := by
  refine attempt (of_call P (fun w hw hp => ⟨hw, hp⟩) (fun w hw hp => ⟨hI w hw hp, ?_⟩) ?_)
  · cases hr : (act w).1 with
    | ok a => exact hok w a hw hp hr
    | error e => exact herr w e hw hp hr
  · exact fun e done w ho hw hp => hraise e done w ho hw hp

/-- A command that only reads. -/
theorem run_query {f : σ → Except ℕ α} {Q : Option α → σ → Prop} {E : ℕ → σ → Prop}
    (hok : ∀ w a, I w → P w → f w = .ok a → Q (some a) w)
    (hnone : ∀ w, I w → P w → (env.outcome i = .ok → ∃ e, f w = .error e) → Q none w) :
    Triple I P (Script.run env i (.query f)) Q E := by
  refine run (fun w hw _ => hw) hok (fun w e hw hp he => hnone w hw hp fun _ => ⟨e, he⟩) ?_
  intro e done w ho hw hp
  have h := hnone w hw hp fun ho' => by simp [ho] at ho'
  cases done with
  | true => exact h
  | false => exact h

/-- The rule for a command that is known to fail. -/
theorem run_raise {act : Work ℕ σ α} {Q : Option α → σ → Prop} {E : ℕ → σ → Prop} {e : ℕ}
    {done : Bool} (ho : env.outcome i = .raise e done)
    (h : ∀ w, I w → P w →
      I (if done then (act w).2 else w) ∧ Q none (if done then (act w).2 else w)) :
    Triple I P (Script.run env i act) Q E := by
  refine attempt (Q := Q) ?_
  intro t hI hP
  obtain ⟨hI', hQ⟩ := h _ (hI _ t.now_mem) hP
  have ho' : (env.toEnv σ).outcome i = .raise e done := ho
  have hI₁ : ∀ w ∈ (t.push t.now).states, I w := List.forall_mem_cons.mpr ⟨hI _ t.now_mem, hI⟩
  unfold call
  rw [ho']
  cases done with
  | true => exact ⟨List.forall_mem_cons.mpr ⟨hI', hI₁⟩, hQ⟩
  | false => exact ⟨hI₁, hQ⟩

/-- A command that only reads, in terms of what it answers. -/
theorem run_answer {f : σ → Except ℕ α} {Q : Option α → σ → Prop} {E : ℕ → σ → Prop}
    (h : ∀ w, I w → P w → Q (env.answer i (f w)) w) :
    Triple I P (Script.run env i (.query f)) Q E := by
  cases ho : env.outcome i with
  | ok =>
    have hQ : ∀ w r, I w → P w → f w = r → Q r.toOption w := by
      intro w r hI hP hf
      rw [← hf, ← ShellEnv.answer_of_ok ho]
      exact h w hI hP
    refine run_query (fun w a hI hP hf => hQ w _ hI hP hf) fun w hI hP he => ?_
    obtain ⟨e, hf⟩ := he ho
    exact hQ w _ hI hP hf
  | raise e done =>
    refine run_raise ho fun w hI hP => ?_
    have hQ := h w hI hP
    rw [ShellEnv.answer, ho] at hQ
    cases done with
    | true => exact ⟨hI, hQ⟩
    | false => exact ⟨hI, hQ⟩

/-- A command that is started in a known world. -/
theorem run_at {act : Work ℕ σ α} {E : ℕ → σ → Prop} {w : σ} (hI : I w → I (act w).2) :
    Triple I (· = w) (Script.run env i act)
      (fun r w' => r = env.answer i (act w).1 ∧ w' = if env.takes i then (act w).2 else w) E := by
  unfold ShellEnv.answer ShellEnv.takes
  cases ho : env.outcome i with
  | ok =>
    refine run (fun w' hI' h => ?_) ?_ ?_ ?_
    · rw [h] at hI' ⊢
      exact hI hI'
    · rintro _ a _ rfl ha
      rw [ha]
      exact ⟨rfl, rfl⟩
    · rintro _ e _ rfl he
      rw [he]
      exact ⟨rfl, rfl⟩
    · exact fun e done _ he => absurd (ho ▸ he) (by simp)
  | raise e done =>
    refine run_raise ho ?_
    rintro _ hI' rfl
    cases done with
    | true => exact ⟨hI hI', rfl, rfl⟩
    | false => exact ⟨hI', rfl, rfl⟩

/-- The status of a command that does its work, and of one that fails. -/
theorem status {act : Work ℕ σ Unit} {Q : ℕ → σ → Prop} {E : ℕ → σ → Prop}
    (hI : ∀ w, I w → P w → I (act w).2)
    (hok : ∀ w, I w → P w → (act w).1 = .ok () → Q 0 (act w).2)
    (herr : ∀ w e, I w → P w → (act w).1 = .error e → Q (e + 1) (act w).2)
    (hraise : ∀ e done w, env.outcome i = .raise e done → I w → P w →
      Q (e + 1) (if done then (act w).2 else w)) :
    Triple I P (Script.status env i act) Q E := by
  refine tryCatch (E := fun e => Q (e + 1)) (bind (Q := fun _ => Q 0)
    (of_call P (fun w hw hp => ⟨hw, hp⟩) (fun w hw hp => ⟨hI w hw hp, ?_⟩) ?_) fun _ =>
      pure fun _ _ h => h) fun e => pure fun _ _ h => h
  · cases hr : (act w).1 with
    | ok a => exact hok w hw hp hr
    | error e => exact herr w e hw hp hr
  · exact fun e done w ho hw hp => hraise e done w ho hw hp

theorem note {f : σ → σ} {Q : Unit → σ → Prop} {E : ℕ → σ → Prop}
    (h : ∀ w, I w → P w → I (f w) ∧ Q () (f w)) : Triple I P (Script.note f) Q E :=
  record h

/-- A subshell: it ends with its last status, or with that of its `exit`. -/
theorem subshell {body : Script σ ℕ} {Q : ℕ → σ → Prop} {E : ℕ → σ → Prop}
    (h : Triple I P body Q Q) : Triple I P (Script.subshell body) Q E :=
  tryCatch h fun _ => pure fun _ _ h => h

theorem exit {n : ℕ} {Q : α → σ → Prop} {E : ℕ → σ → Prop} (h : ∀ w, I w → P w → E n w) :
    Triple I P (Script.exit n) Q E :=
  throw h

/-- What a script that has run ends with, in terms of its exit status. -/
theorem exitStatus {x : Script σ Unit} {R : ℕ → σ → Prop} (h : Triple I P x (fun _ => R 0) R)
    {s : σ} (hI : I s) (hP : P s) : R (Script.exitStatus x s) (outcomeOf x s).2.now := by
  have h := (h.of_start hI hP).2
  unfold Script.exitStatus
  cases hr : outcomeOf x s with
  | mk r t =>
    rw [hr] at h
    cases r with
    | ok a => exact h
    | error e => exact h

end Triple
