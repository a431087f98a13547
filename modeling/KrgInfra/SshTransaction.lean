/-
apply_ssh: the three files are written as a transaction.

The rollback is part of one branch only, the one in which `sshd -t` has run and refused: a
write that fails after another one, and an sshd that cannot be started, leave the new files
where they are.  And a run restarts sshd only if it has written something itself, so that a
restart that failed is not made good by the next run, which finds no difference.

* `Ends`, `run_ends` — how a run ends;
* `CarefulRun`, `FreshRun` — the runs that keep the transaction, and those whose success says
  that sshd was restarted;
* `drop_in_transaction` — careful runs keep the transaction; a history's successes are
  restarted exactly if its runs are fresh;
* `half_written` — a second write that fails, and a restart that fails before a second run.
-/
import KrgInfra.SshDropIn

namespace ApplySsh

open Python

/-! ### What a run finds, and what it writes -/

/-- The plan for some files. -/
def planned (desired : ManagedFile → String) (files : Files) : List ManagedFile → List Change
  | [] => []
  | path :: paths =>
    if textOf files path ≠ some (desired path) then
      ⟨path, textOf files path, desired path⟩ :: planned desired files paths
    else planned desired files paths

def managed : List ManagedFile := [.dropIn, .authkeys, .main]

/-- What a run wants the files to hold. -/
def desiredFor (args : Args) (files : Files) : ManagedFile → String :=
  desired_of args ((textOf files .main).getD "")

def planFor (args : Args) (files : Files) : List Change :=
  planned (desiredFor args files) files managed

/-- The files are written. -/
def SshdWorld.wrote (w : SshdWorld) (plan : List Change) : SshdWorld :=
  plan.foldl (fun w change => w.put change.path (some change.new)) w

/-- The former texts are written. -/
def SshdWorld.putBack (w : SshdWorld) (plan : List Change) : SshdWorld :=
  plan.foldl (fun w change => w.put change.path change.old) w

/-- `sshd -t` has seen the files. -/
def SshdEnv.tested (env : SshdEnv) (w : SshdWorld) : SshdWorld :=
  if env.accepts w.files then { w with validated := some w.files } else w

/-- `systemctl restart` has been called. -/
def SshdEnv.afterRestart (env : SshdEnv) (w : SshdWorld) : SshdWorld :=
  if env.restartCode = 0 ∨ env.restarts then { w with restarted := true } else w

section Plan

variable {desired : ManagedFile → String} {files : Files} {paths : List ManagedFile}
  {w : SshdWorld} {plan : List Change} {change : Change} {path : ManagedFile}

/-- The files of the plan are those that do not hold what they should. -/
theorem mem_planned (h : change ∈ planned desired files paths) :
    change.path ∈ paths ∧ change.old = textOf files change.path ∧
      change.new = desired change.path := by
  induction paths with
  | nil => exact nomatch h
  | cons path paths ih =>
    rw [planned] at h
    split_ifs at h with hpath
    · obtain rfl | h := List.mem_cons.mp h
      · exact ⟨List.mem_cons_self, rfl, rfl⟩
      · exact ⟨List.mem_cons_of_mem _ (ih h).1, (ih h).2⟩
    · exact ⟨List.mem_cons_of_mem _ (ih h).1, (ih h).2⟩

theorem exists_planned (h : path ∈ paths) (hpath : textOf files path ≠ some (desired path)) :
    ∃ change ∈ planned desired files paths, change.path = path := by
  induction paths with
  | nil => exact nomatch h
  | cons first paths ih =>
    rw [planned]
    obtain rfl | h := List.mem_cons.mp h
    · rw [if_pos hpath]
      exact ⟨_, List.mem_cons_self, rfl⟩
    · obtain ⟨change, hmem, hchange⟩ := ih h
      split_ifs with hfirst
      · exact ⟨change, List.mem_cons_of_mem _ hmem, hchange⟩
      · exact ⟨change, hmem, hchange⟩

theorem wrote_cons : w.wrote (change :: plan) = (w.put change.path (some change.new)).wrote plan :=
  rfl

theorem putBack_cons : w.putBack (change :: plan) = (w.put change.path change.old).putBack plan :=
  rfl

/-- Writing forgets that sshd was restarted, and nothing else besides the files. -/
theorem wrote_stale (hplan : plan ≠ []) : (w.wrote plan).restarted = false := by
  obtain ⟨first, plan, rfl⟩ := List.exists_cons_of_ne_nil hplan
  rw [wrote_cons]
  generalize hw : w.put first.path (some first.new) = w'
  have hstale : w'.restarted = false := by rw [← hw]; rfl
  clear hw hplan
  induction plan generalizing w' with
  | nil => exact hstale
  | cons change plan ih => exact ih _ rfl

theorem files_wrote_congr {w' : SshdWorld} (h : w.files = w'.files) :
    (w.wrote plan).files = (w'.wrote plan).files := by
  induction plan generalizing w w' with
  | nil => exact h
  | cons change plan ih =>
    refine ih ?_
    show Function.update w.files _ _ = Function.update w'.files _ _
    rw [h]

/-- A file that is not written stays as it is. -/
theorem files_wrote_other (h : ∀ change ∈ plan, change.path ≠ path) :
    (w.wrote plan).files path = w.files path := by
  induction plan generalizing w with
  | nil => rfl
  | cons change plan ih =>
    rw [wrote_cons, ih fun c hc => h c (List.mem_cons_of_mem _ hc)]
    exact Function.update_of_ne (h change List.mem_cons_self).symm _ _

/-- Where all writes of a file agree, the file holds what they write. -/
theorem files_wrote_mem {text : String} (h : ∀ change ∈ plan, change.path = path → change.new = text)
    (hmem : ∃ change ∈ plan, change.path = path) : (w.wrote plan).files path = some text := by
  induction plan generalizing w with
  | nil => obtain ⟨change, hc, -⟩ := hmem; exact nomatch hc
  | cons first plan ih =>
    rw [wrote_cons]
    by_cases hlater : ∃ change ∈ plan, change.path = path
    · exact ih (fun c hc => h c (List.mem_cons_of_mem _ hc)) hlater
    · have hother : ∀ change ∈ plan, change.path ≠ path := fun c hc he => hlater ⟨c, hc, he⟩
      obtain ⟨change, hc, hpath⟩ := hmem
      obtain rfl | hc := List.mem_cons.mp hc
      · rw [files_wrote_other hother, ← hpath, ← h change List.mem_cons_self hpath]
        exact Function.update_self _ _ _
      · exact absurd hpath (hother change hc)

/-- Putting the former texts back gives the former files, where the texts are what the files
held. -/
theorem files_putBack {w₀ : SshdWorld} (hold : ∀ change ∈ plan, change.old = w₀.files change.path)
    (hrest : ∀ path, (∀ change ∈ plan, change.path ≠ path) → w.files path = w₀.files path) :
    (w.putBack plan).files = w₀.files := by
  induction plan generalizing w with
  | nil => exact funext fun path => hrest path fun _ h => nomatch h
  | cons change plan ih =>
    rw [putBack_cons]
    refine ih (fun c hc => hold c (List.mem_cons_of_mem _ hc)) fun path hpath => ?_
    show Function.update w.files change.path change.old path = _
    by_cases hsame : path = change.path
    · rw [hsame, Function.update_self]
      exact hold change List.mem_cons_self
    · rw [Function.update_of_ne hsame]
      refine hrest path fun c hc => ?_
      obtain rfl | hc := List.mem_cons.mp hc
      · exact Ne.symm hsame
      · exact hpath c hc

end Plan

/-! ### How a run ends -/

section Ends

variable (env : SshdEnv) (args : Args)

/-- The files can be read. -/
def Readable : Prop := env.outcome .readMain = .ok ∧ ∀ path ∈ managed, env.outcome (.read path) = .ok

/-- The first write of a plan takes effect. -/
def begins (plan : List Change) : Bool :=
  plan.head?.any fun change => (env.outcome (.write change.path)).takes

/-- Every write of a plan succeeds. -/
def Writes (plan : List Change) : Prop := ∀ change ∈ plan, env.outcome (.write change.path) = .ok

/-- Every call of the rollback succeeds. -/
def RollsBack (plan : List Change) : Prop :=
  ∀ change ∈ plan, env.outcome (.restoreOpen change.path) = .ok ∧
    (change.old ≠ none → env.outcome (.restoreWrite change.path) = .ok)

/-- sshd is restarted by the call of `systemctl restart`. -/
def restarts_sshd : Bool :=
  (env.outcome .restart).takes && (env.restartCode = 0 || env.restarts)

/-- How the transaction ends. -/
inductive ApplyEnds (plan : List Change) (w : SshdWorld) : ℕ → SshdWorld → Prop
  | unwritten (h : begins env plan = false) (hwrites : ¬ Writes env plan) : ApplyEnds plan w 1 w
  | halfway (h : begins env plan = true) (hwrites : ¬ Writes env plan) {w' : SshdWorld}
      (hstale : w'.restarted = false) : ApplyEnds plan w 1 w'
  | untested (hwrites : Writes env plan) (htest : env.outcome .test ≠ .ok) :
    ApplyEnds plan w 1
      (if (env.outcome .test).takes then env.tested (w.wrote plan) else w.wrote plan)
  | refused (hwrites : Writes env plan) (htest : env.outcome .test = .ok)
      (haccepts : env.accepts (w.wrote plan).files = false) {w' : SshdWorld}
      (hstale : w'.restarted = false)
      (hback : RollsBack env plan → w' = (w.wrote plan).putBack plan.reverse) :
    ApplyEnds plan w 1 w'
  | notRestarted (hwrites : Writes env plan) (htest : env.outcome .test = .ok)
      (haccepts : env.accepts (w.wrote plan).files = true) (hrestarts : restarts_sshd env = false) :
    ApplyEnds plan w 1 (env.tested (w.wrote plan))
  | restarted (hwrites : Writes env plan) (htest : env.outcome .test = .ok)
      (haccepts : env.accepts (w.wrote plan).files = true) (hrestarts : restarts_sshd env = true)
      (rc : ℕ) :
    ApplyEnds plan w rc { env.tested (w.wrote plan) with restarted := true }

/-- How a run ends. -/
inductive Ends (w : SshdWorld) : ℕ → SshdWorld → Prop
  | unread (h : ¬ Readable env) : Ends w 1 w
  | noChange (h : Readable env) (hplan : planFor args w.files = []) : Ends w 0 w
  | checked (h : Readable env) (hplan : planFor args w.files ≠ []) (hcheck : args.check = true) :
    Ends w 0 w
  | applied (h : Readable env) (hplan : planFor args w.files ≠ []) (hcheck : args.check = false)
      {rc : ℕ} {w' : SshdWorld} (happly : ApplyEnds env (planFor args w.files) w rc w') :
    Ends w rc w'

end Ends

section Rules

variable {env : SshdEnv} {args : Args} {plan : List Change} {w : SshdWorld}

theorem read_existing_rule {i : Site} {path : ManagedFile} :
    Triple (fun _ => True) (· = w) (read_existing env i path)
      (fun text w' => env.outcome i = .ok ∧ text = textOf w.files path ∧ w' = w)
      (fun _ w' => env.outcome i ≠ .ok ∧ w' = w) := by
  have h : Triple (fun _ => True) (· = w) (read_existing env i path) _ _ :=
    Triple.work_at env.toEnv i (fun w => (textOf w.files path, w)) rfl
  refine h.conseq (fun _ _ h => h) (fun _ _ _ h => h) fun _ w' _ h => ⟨h.1, ?_⟩
  rw [h.2]
  exact ite_self _

/-- Reading the files one after another. -/
theorem make_plan_rule {desired : ManagedFile → String} (paths : List ManagedFile) :
    Triple (fun _ => True) (· = w) (make_plan env desired paths)
      (fun plan w' => (∀ path ∈ paths, env.outcome (.read path) = .ok) ∧
        plan = planned desired w.files paths ∧ w' = w)
      (fun _ w' => (¬ ∀ path ∈ paths, env.outcome (.read path) = .ok) ∧ w' = w) := by
  induction paths with
  | nil => exact Triple.pure fun _ _ h => ⟨fun _ h => (nomatch h), rfl, h⟩
  | cons path paths ih =>
    refine Triple.bind (read_existing_rule.except ?_) fun old => ?_
    · rintro _ w' - ⟨ho, rfl⟩
      exact ⟨fun h => ho (h path List.mem_cons_self), rfl⟩
    refine Triple.of_fact fun ho => Triple.of_fact fun hold => ?_
    refine Triple.bind (ih.except ?_) fun plan => ?_
    · rintro _ w' - ⟨hno, rfl⟩
      exact ⟨fun h => hno fun p hp => h p (List.mem_cons_of_mem _ hp), rfl⟩
    refine Triple.of_fact fun hreads => Triple.of_fact fun hplan => ?_
    refine Triple.pure fun w' _ hw => ⟨?_, ?_, hw⟩
    · intro p hp
      obtain rfl | hp := List.mem_cons.mp hp
      · exact ho
      · exact hreads p hp
    · rw [hold, hplan]
      rfl

theorem begins_cons {change : Change} :
    begins env (change :: plan) = (env.outcome (.write change.path)).takes := by
  simp [begins]

theorem begins_of_writes (h : Writes env plan) (hplan : plan ≠ []) : begins env plan = true := by
  obtain ⟨first, plan, rfl⟩ := List.exists_cons_of_ne_nil hplan
  rw [begins_cons, h first List.mem_cons_self]
  rfl

/-- Writing the files one after another: where a write fails, the files that were written
before it stay. -/
theorem write_all_rule (plan : List Change) : ∀ w : SshdWorld,
    Triple (fun _ => True) (· = w) (write_all env plan)
      (fun _ w' => Writes env plan ∧ w' = w.wrote plan)
      (fun _ w' => ¬ Writes env plan ∧
        ((begins env plan = false ∧ w' = w) ∨ (begins env plan = true ∧ w'.restarted = false))) := by
  induction plan with
  | nil => exact fun w => Triple.pure fun _ _ h => ⟨fun _ h => (nomatch h), h⟩
  | cons change plan ih =>
    intro w
    have hwrite : Triple (fun _ => True) (· = w) (atomic_write env change) _ _ :=
      Triple.work_at env.toEnv (.write change.path)
        (fun w => ((), w.put change.path (some change.new))) rfl
    refine Triple.bind (hwrite.except ?_) fun _ => ?_
    · rintro _ w' - ⟨ho, hw'⟩
      refine ⟨fun h => ho (h change List.mem_cons_self), ?_⟩
      have hw' : w' = if (env.outcome (.write change.path)).takes then
          w.put change.path (some change.new) else w := hw'
      rw [hw', begins_cons]
      cases (env.outcome (.write change.path)).takes with
      | false => exact .inl ⟨rfl, rfl⟩
      | true => exact .inr ⟨rfl, rfl⟩
    refine Triple.of_fact fun ho => Triple.of_fact fun _ => ?_
    have hbegins : begins env (change :: plan) = true := by
      rw [begins_cons, show env.outcome _ = .ok from ho]
      rfl
    refine (ih (w.put change.path (some change.new))).conseq (fun _ _ h => h) ?_ ?_
    · rintro _ w' - ⟨hwrites, hw'⟩
      exact ⟨List.forall_mem_cons.mpr ⟨ho, hwrites⟩, hw'⟩
    · rintro _ w' - ⟨hwrites, hend⟩
      refine ⟨fun h => hwrites fun c hc => h c (List.mem_cons_of_mem _ hc), .inr ⟨hbegins, ?_⟩⟩
      obtain ⟨-, rfl⟩ | ⟨-, hstale⟩ := hend
      · rfl
      · exact hstale

theorem restore_rule {change : Change} (hw : w.restarted = false) :
    Triple (fun _ => True) (· = w) (restore env change)
      (fun _ w' => w' = w.put change.path change.old)
      (fun _ w' => w'.restarted = false ∧ ¬ RollsBack env [change]) := by
  have hopen : ∀ content, Triple (fun _ => True) (· = w)
      (call env.toEnv (.restoreOpen change.path) fun w => (.ok (), w.put change.path content))
      (fun _ w' => w' = w.put change.path content)
      (fun _ w' => w'.restarted = false ∧ ¬ RollsBack env [change]) := by
    intro content
    refine (Triple.work_at env.toEnv (.restoreOpen change.path)
      (fun w => ((), w.put change.path content)) rfl).conseq
      (fun _ _ h => h) (fun _ _ _ h => h.2.2) ?_
    rintro _ w' - ⟨ho, hw'⟩
    refine ⟨?_, fun h => ho (h change List.mem_cons_self).1⟩
    rw [hw']
    split_ifs
    · rfl
    · exact hw
  unfold restore
  cases hold : change.old with
  | none => exact hopen none
  | some text =>
    refine Triple.bind (hopen (some "")) fun _ => ?_
    refine (Triple.work_at env.toEnv (.restoreWrite change.path)
      (fun w => ((), w.put change.path (some text))) rfl).conseq (fun _ _ h => h) ?_ ?_
    · rintro _ w' - ⟨-, -, rfl⟩
      simp [SshdWorld.put]
    · rintro _ w' - ⟨ho, hw'⟩
      refine ⟨?_, fun h => ho ((h change List.mem_cons_self).2 (by simp [hold]))⟩
      rw [hw']
      split_ifs <;> rfl

/-- The rollback: it ends early only where one of its calls fails. -/
theorem restore_all_rule (plan : List Change) : ∀ w : SshdWorld, w.restarted = false →
    Triple (fun _ => True) (· = w) (restore_all env plan)
      (fun _ w' => w'.restarted = false ∧ w' = w.putBack plan)
      (fun _ w' => w'.restarted = false ∧ ¬ RollsBack env plan) := by
  induction plan with
  | nil => exact fun w hw => Triple.pure fun _ _ h => ⟨h ▸ hw, h⟩
  | cons change plan ih =>
    intro w hw
    refine Triple.bind ((restore_rule hw).except ?_) fun _ => ?_
    · rintro _ w' - ⟨hstale, hno⟩
      refine ⟨hstale, fun h => hno fun c hc => h c ?_⟩
      rw [List.mem_singleton.mp hc]
      exact List.mem_cons_self
    · refine (ih (w.put change.path change.old) rfl).except ?_
      rintro _ w' - ⟨hstale, hno⟩
      exact ⟨hstale, fun h => hno fun c hc => h c (List.mem_cons_of_mem _ hc)⟩

/-- What the call of `systemctl restart` leaves. -/
theorem restart_eq (w : SshdWorld) :
    (if (env.outcome .restart).takes then env.afterRestart w else w) =
      if restarts_sshd env then { w with restarted := true } else w := by
  rw [restarts_sshd, SshdEnv.afterRestart]
  cases (env.outcome .restart).takes <;> simp

/-- `sshd -t`, and the rollback or the restart. -/
theorem transaction_rule (hplan : plan ≠ []) :
    Triple (fun _ => True) (· = w) (transaction env plan)
      (fun report => ApplyEnds env plan w report.rc) (fun _ => ApplyEnds env plan w 1) := by
  refine Triple.bind ((write_all_rule plan w).except ?_) fun _ => ?_
  · rintro _ w' - ⟨hwrites, ⟨hbegins, rfl⟩ | ⟨hbegins, hstale⟩⟩
    · exact .unwritten hbegins hwrites
    · exact .halfway hbegins hwrites hstale
  refine Triple.of_fact fun hwrites => ?_
  have htest : Triple (fun _ => True) (· = w.wrote plan) (sshd_test env)
      (fun accepted w' => env.outcome .test = .ok ∧
        accepted = env.accepts (w.wrote plan).files ∧ w' = env.tested (w.wrote plan))
      (fun _ w' => env.outcome .test ≠ .ok ∧
        w' = if (env.outcome .test).takes then env.tested (w.wrote plan) else w.wrote plan) :=
    Triple.work_at env.toEnv .test (fun w => (env.accepts w.files, env.tested w)) rfl
  refine Triple.bind (htest.except ?_) fun accepted => ?_
  · rintro _ w' - ⟨ho, rfl⟩
    exact .untested hwrites ho
  refine Triple.of_fact fun htest => Triple.of_fact fun haccepted => ?_
  rw [haccepted]
  show Triple _ _ (if _ then _ else _) _ _
  cases haccepts : env.accepts (w.wrote plan).files with
  | false =>
    rw [if_pos (by decide)]
    have htested : env.tested (w.wrote plan) = w.wrote plan := by
      rw [SshdEnv.tested, if_neg (by simp [haccepts])]
    have hreverse : RollsBack env plan → RollsBack env plan.reverse :=
      fun h c hc => h c (List.mem_reverse.mp hc)
    rw [htested]
    refine Triple.bind ((restore_all_rule plan.reverse _ (wrote_stale hplan)).except ?_) fun _ => ?_
    · rintro _ w' - ⟨hstale, hno⟩
      exact .refused hwrites htest haccepts hstale fun h => absurd (hreverse h) hno
    · exact Triple.pure fun w' _ h => .refused hwrites htest haccepts h.1 fun _ => h.2
  | true =>
    rw [if_neg (by decide)]
    have hrestart : Triple (fun _ => True) (· = env.tested (w.wrote plan)) (restart_sshd env)
        (fun code w' => env.outcome .restart = .ok ∧ code = env.restartCode ∧
          w' = env.afterRestart (env.tested (w.wrote plan)))
        (fun _ w' => env.outcome .restart ≠ .ok ∧
          w' = if (env.outcome .restart).takes then env.afterRestart (env.tested (w.wrote plan))
            else env.tested (w.wrote plan)) :=
      Triple.work_at env.toEnv .restart (fun w => (env.restartCode, env.afterRestart w)) rfl
    -- whatever becomes of the call, the files are tested, and restarted if it takes effect
    have hends : ∀ rc, (restarts_sshd env = false → rc = 1) →
        ApplyEnds env plan w rc (if restarts_sshd env then
          { env.tested (w.wrote plan) with restarted := true } else env.tested (w.wrote plan)) := by
      intro rc hrc
      cases hrestarts : restarts_sshd env with
      | false =>
        rw [hrc hrestarts]
        exact .notRestarted hwrites htest haccepts hrestarts
      | true => exact .restarted hwrites htest haccepts hrestarts rc
    refine Triple.bind (hrestart.except ?_) fun code => ?_
    · rintro _ w' - ⟨-, rfl⟩
      rw [restart_eq]
      exact hends 1 fun _ => rfl
    refine Triple.of_fact fun ho => Triple.of_fact fun hcode => ?_
    have hafter := @restart_eq env (env.tested (w.wrote plan))
    rw [ho, if_pos (show Outcome.ok.takes = true from rfl)] at hafter
    rw [hcode, hafter]
    show Triple _ _ (if _ then _ else _) _ _
    by_cases hzero : env.restartCode = 0
    · rw [if_neg (not_not.mpr hzero)]
      refine Triple.pure fun w' _ h => ?_
      rw [h]
      refine hends 0 fun hno => ?_
      simp [restarts_sshd, ho, hzero, Outcome.takes] at hno
    · rw [if_pos hzero]
      refine Triple.pure fun w' _ h => ?_
      rw [h]
      exact hends 1 fun _ => rfl

theorem do_sshd_drop_in_rule :
    Triple (fun _ => True) (· = w) (do_sshd_drop_in env args)
      (fun report => Ends env args w report.rc) (fun _ => Ends env args w 1) := by
  refine Triple.bind (read_existing_rule.except ?_) fun current => ?_
  · rintro _ w' - ⟨ho, rfl⟩
    exact .unread fun h => ho h.1
  refine Triple.of_fact fun hmain => Triple.of_fact fun hcurrent => ?_
  rw [hcurrent]
  refine Triple.bind ((make_plan_rule managed).except ?_) fun plan => ?_
  · rintro _ w' - ⟨hno, rfl⟩
    exact .unread fun h => hno h.2
  refine Triple.of_fact fun hreads => Triple.of_fact fun hplan => ?_
  have hreads : Readable env := ⟨hmain, hreads⟩
  obtain rfl : plan = planFor args w.files := hplan
  show Triple _ _ (if _ then _ else _) _ _
  by_cases hempty : planFor args w.files = []
  · rw [if_pos (by rw [hempty]; rfl)]
    refine Triple.pure fun w' _ h => ?_
    rw [h]
    exact .noChange hreads hempty
  rw [if_neg (by simpa using hempty)]
  show Triple _ _ (if _ then _ else _) _ _
  by_cases hcheck : args.check = true
  · rw [if_pos hcheck]
    refine Triple.pure fun w' _ h => ?_
    rw [h]
    exact .checked hreads hempty hcheck
  rw [if_neg hcheck]
  have hcheck : args.check = false := by simpa using hcheck
  refine Triple.tryCatch (E := fun _ => Ends env args w 1) ?_ fun e => ?_
  · exact (transaction_rule hempty).conseq (fun _ _ h => h)
      (fun _ _ _ h => .applied hreads hempty hcheck h)
      fun _ _ _ h => .applied hreads hempty hcheck h
  · cases e with
    | os => exact Triple.pure fun _ _ h => h
    | other => exact Triple.throw fun _ _ h => h

/-- How a run ends: it starts with nothing that `sshd -t` has accepted. -/
theorem run_ends (env : SshdEnv) (args : Args) (w : SshdWorld) :
    Ends env args { w with validated := none } (runSshd env args w).1 (runSshd env args w).2 := by
  have h := (do_sshd_drop_in_rule.of_start (x := do_sshd_drop_in env args)
    (s := { w with validated := none }) trivial rfl).2
  unfold runSshd
  cases hr : outcomeOf (do_sshd_drop_in env args) { w with validated := none } with
  | mk r t =>
    rw [hr] at h
    cases r with
    | ok report => exact h
    | error e => exact h

end Rules

/-! ### Histories -/

/-- A run of the command. -/
structure SshdRun where
  env : SshdEnv
  args : Args

namespace SshdRun

variable (run : SshdRun) (w : SshdWorld)

def status : ℕ := (runSshd run.env run.args w).1

def final : SshdWorld := (runSshd run.env run.args w).2

/-- What the run finds to be written. -/
def plan : List Change := planFor run.args w.files

end SshdRun

/-- Every run of a history has `P` in the world that it is started in. -/
def Along (P : SshdRun → SshdWorld → Prop) : SshdWorld → List SshdRun → Prop
  | _, [] => True
  | w, run :: runs => P run w ∧ Along P (run.final w) runs

/-- All files hold what they should, and `sshd -t` has accepted them. -/
def Installed (desired : ManagedFile → String) (w : SshdWorld) : Prop :=
  (∀ path, textOf w.files path = some (desired path) ∨ w.files path = some (desired path)) ∧
    w.validated = some w.files

/-- A run leaves the files as they were, or installs them. -/
def Transactional (run : SshdRun) (w : SshdWorld) : Prop :=
  (run.final w).files = w.files ∨ Installed (desiredFor run.args w.files) (run.final w)

/-- If a run exits 0, sshd has been restarted since the files were last written. -/
def SuccessRestarted (run : SshdRun) (w : SshdWorld) : Prop :=
  run.status w = 0 → (run.final w).restarted = true

/-- A run that writes nothing, or fails with its first write, or writes all files; then sshd
accepts them, or refuses them and the rollback succeeds, on files that hold what was read of
them. -/
def CarefulRun (run : SshdRun) (w : SshdWorld) : Prop :=
  Readable run.env → run.args.check = false → begins run.env (run.plan w) = true →
    Writes run.env (run.plan w) ∧
      if run.env.accepts (w.wrote (run.plan w)).files then (run.env.outcome .test).takes = true
      else run.env.outcome .test = .ok ∧ RollsBack run.env (run.plan w) ∧
        ∀ change ∈ run.plan w, change.old = w.files change.path

/-- A run that finds a difference to apply, or finds sshd restarted, or cannot read. -/
def FreshRun (run : SshdRun) (w : SshdWorld) : Prop :=
  Readable run.env → run.plan w = [] ∨ run.args.check = true → w.restarted = true

/-- If a run writes anything, it restarts sshd. -/
def RestartingRun (run : SshdRun) (w : SshdWorld) : Prop :=
  Readable run.env → run.args.check = false → begins run.env (run.plan w) = true →
    Writes run.env (run.plan w) ∧ run.env.outcome .test = .ok ∧
      run.env.accepts (w.wrote (run.plan w)).files = true ∧ restarts_sshd run.env = true

section Histories

variable {run : SshdRun} {w : SshdWorld}

theorem SshdRun.ends (run : SshdRun) (w : SshdWorld) :
    Ends run.env run.args { w with validated := none } (run.status w) (run.final w) :=
  run_ends run.env run.args w

/-- What the plan does not write holds what it should already. -/
theorem holds_wrote (path : ManagedFile) :
    textOf (w.wrote (run.plan w)).files path = some (desiredFor run.args w.files path) ∨
      (w.wrote (run.plan w)).files path = some (desiredFor run.args w.files path) := by
  by_cases hpath : ∃ change ∈ run.plan w, change.path = path
  · refine .inr (files_wrote_mem (fun change hc hcp => ?_) hpath)
    rw [(mem_planned hc).2.2, hcp]
  · have hother : ∀ change ∈ run.plan w, change.path ≠ path := fun c hc h => hpath ⟨c, hc, h⟩
    have hmanaged : path ∈ managed := by cases path <;> decide
    rw [textOf, files_wrote_other hother]
    exact .inl (not_not.mp fun h => hpath (exists_planned hmanaged h))

/-- The files that a run writes, as `sshd -t` sees them. -/
theorem files_start : ({ w with validated := none }.wrote (run.plan w)).files =
    (w.wrote (run.plan w)).files := files_wrote_congr rfl

theorem accepts_start :
    run.env.accepts ({ w with validated := none }.wrote (run.plan w)).files =
      run.env.accepts (w.wrote (run.plan w)).files := by
  rw [files_start]

theorem installed_tested (h : run.env.accepts (w.wrote (run.plan w)).files = true) :
    Installed (desiredFor run.args w.files)
      (run.env.tested ({ w with validated := none }.wrote (run.plan w))) := by
  rw [← files_start] at h
  rw [SshdEnv.tested, if_pos h]
  refine ⟨fun path => ?_, rfl⟩
  have hholds := @holds_wrote run w path
  rw [← files_start] at hholds
  exact hholds

/-- A careful run keeps the transaction. -/
theorem careful_run_transactional (h : CarefulRun run w) : Transactional run w := by
  have hends := run.ends w
  unfold Transactional
  generalize run.status w = rc at hends
  generalize run.final w = w' at hends ⊢
  cases hends with
  | unread => exact .inl rfl
  | noChange => exact .inl rfl
  | checked => exact .inl rfl
  | applied hreads hplan hcheck happly =>
    have hplan : run.plan w ≠ [] := hplan
    have hcareful := h hreads hcheck
    cases happly with
    | unwritten => exact .inl rfl
    | halfway hbegins hno => exact absurd (hcareful hbegins).1 hno
    | untested hwrites htest =>
      have hcareful := (hcareful (begins_of_writes hwrites hplan)).2
      split_ifs at hcareful with haccepts
      · rw [if_pos hcareful]
        exact .inr (installed_tested haccepts)
      · exact absurd hcareful.1 htest
    | refused hwrites _ hrefuses _ hback =>
      have hcareful := (hcareful (begins_of_writes hwrites hplan)).2
      rw [if_neg (by simp [accepts_start.symm.trans hrefuses])] at hcareful
      obtain ⟨-, hrolls, hold⟩ := hcareful
      rw [hback hrolls]
      refine .inl (files_putBack (fun c hc => hold c (List.mem_reverse.mp hc)) fun path hpath => ?_)
      exact files_wrote_other fun c hc => hpath c (List.mem_reverse.mpr hc)
    | notRestarted _ _ haccepts =>
      exact .inr (installed_tested (accepts_start.symm.trans haccepts))
    | restarted _ _ haccepts =>
      exact .inr (installed_tested (accepts_start.symm.trans haccepts))

/-- A run that exits 0 has found sshd restarted, or has restarted it. -/
theorem success_restarted_iff : SuccessRestarted run w ↔ FreshRun run w := by
  have hends := run.ends w
  unfold SuccessRestarted
  generalize run.status w = rc at hends ⊢
  generalize run.final w = w' at hends ⊢
  cases hends with
  | unread hno => exact ⟨fun _ hreads => absurd hreads hno, fun _ h => absurd h (by decide)⟩
  | noChange hreads hplan => exact ⟨fun h _ _ => h rfl, fun h _ => h hreads (.inl hplan)⟩
  | checked hreads _ hcheck => exact ⟨fun h _ _ => h rfl, fun h _ => h hreads (.inr hcheck)⟩
  | applied _ hplan hcheck happly =>
    have hfresh : FreshRun run w := by
      rintro - (hnone | hchecked)
      · exact absurd hnone hplan
      · exact absurd (hcheck.symm.trans hchecked) (by decide)
    refine ⟨fun _ => hfresh, fun _ hrc => ?_⟩
    -- of the ways to end that have found a difference only the restart exits 0
    cases happly with
    | restarted => rfl
    | _ => exact absurd hrc (by decide)

/-- A run that restarts sshd if it writes leaves it restarted. -/
theorem restarting_run_restarted (hw : w.restarted = true) (h : RestartingRun run w) :
    (run.final w).restarted = true := by
  have hends := run.ends w
  generalize run.status w = rc at hends
  generalize run.final w = w' at hends ⊢
  cases hends with
  | unread => exact hw
  | noChange => exact hw
  | checked => exact hw
  | applied hreads hplan hcheck happly =>
    have hrestarting := h hreads hcheck
    have hplan : run.plan w ≠ [] := hplan
    cases happly with
    | unwritten => exact hw
    | halfway hbegins hno => exact absurd (hrestarting hbegins).1 hno
    | untested hwrites hno => exact absurd (hrestarting (begins_of_writes hwrites hplan)).2.1 hno
    | refused hwrites _ hrefuses =>
      have haccepts := (hrestarting (begins_of_writes hwrites hplan)).2.2.1
      exact absurd (hrefuses.symm.trans (accepts_start.trans haccepts)) (by decide)
    | notRestarted hwrites _ _ hno =>
      have hrestarts := (hrestarting (begins_of_writes hwrites hplan)).2.2.2
      exact absurd (hno.symm.trans hrestarts) (by decide)
    | restarted => rfl

theorem along_iff {P Q : SshdRun → SshdWorld → Prop} (h : ∀ run w, P run w ↔ Q run w)
    (w : SshdWorld) (runs : List SshdRun) : Along P w runs ↔ Along Q w runs := by
  induction runs generalizing w with
  | nil => exact Iff.rfl
  | cons run runs ih => exact and_congr (h run w) (ih _)

/-- **The files are a transaction for careful runs.**  In every history a careful run leaves
the files as they were or installs them; the runs that exit 0 leave sshd restarted exactly if
the runs are fresh; and they are from the start on in which sshd is restarted, if every run
that writes anything restarts it. -/
theorem drop_in_transaction (w : SshdWorld) (runs : List SshdRun) :
    Along (fun run w => CarefulRun run w → Transactional run w) w runs ∧
      (Along SuccessRestarted w runs ↔ Along FreshRun w runs) ∧
      (w.restarted = true → Along RestartingRun w runs → Along SuccessRestarted w runs) := by
  refine ⟨?_, along_iff (fun _ _ => success_restarted_iff) w runs, ?_⟩
  · induction runs generalizing w with
    | nil => trivial
    | cons run runs ih => exact ⟨careful_run_transactional, ih _⟩
  · induction runs generalizing w with
    | nil => exact fun _ _ => trivial
    | cons run runs ih =>
      rintro hw ⟨hrun, hruns⟩
      refine ⟨success_restarted_iff.mpr fun _ _ => hw, ?_⟩
      exact ih _ (restarting_run_restarted hw hrun) hruns

end Histories

/-! ### A restart that fails is not made good -/

section Hidden

variable {args : Args} {files : Files} {w : SshdWorld}

theorem cr_not_mem_include_block : '\r' ∉ include_block.toList := by
  unfold include_block include_begin_marker
  simp only [String.toList_append, List.mem_append, not_or]
  and_intros
  all_goals exact cr_not_mem_ofList (by decide)

theorem cr_not_mem_authkeys : '\r' ∉ ad_authkeys_script.toList := by
  unfold ad_authkeys_script
  simp only [String.toList_append, List.mem_append, not_or]
  and_intros
  all_goals exact cr_not_mem_ofList (by decide)

theorem cr_not_mem_drop_in {allowPassword allowRoot : Bool} {algos : String}
    (h : '\r' ∉ algos.toList) : '\r' ∉ (render_drop_in allowPassword allowRoot algos).toList := by
  have hanswer : ∀ b : Bool, '\r' ∉ (if b then "yes" else "no").toList := by
    intro b
    cases b with
    | false => exact cr_not_mem_ofList (by decide)
    | true => exact cr_not_mem_ofList (by decide)
  have halgos : '\r' ∉ (if algos ≠ "" then "PubkeyAcceptedKeyTypes " ++ algos ++ "\n" ++
      "HostKeyAlgorithms " ++ algos ++ "\n" else "").toList := by
    split_ifs
    · simp only [String.toList_append, List.mem_append, not_or, h, not_false_eq_true, and_true]
      and_intros
      all_goals exact cr_not_mem_ofList (by decide)
    · exact cr_not_mem_ofList (by decide)
  unfold render_drop_in
  simp only [String.toList_append, List.mem_append, not_or, hanswer, halgos, not_false_eq_true,
    and_true]
  and_intros
  all_goals exact cr_not_mem_ofList (by decide)

theorem cr_not_mem_ensure {content : String} (h : '\r' ∉ content.toList) :
    '\r' ∉ (ensure_include_block content).toList := by
  unfold ensure_include_block
  split_ifs
  · exact h
  · rw [String.toList_append, List.mem_append, not_or]
    exact ⟨cr_not_mem_include_block, h⟩

/-- The Include block is put in front once. -/
theorem ensure_include_block_idem (content : String) :
    ensure_include_block (ensure_include_block content) = ensure_include_block content := by
  have hmarker : include_begin_marker.toList <:+: (ensure_include_block content).toList := by
    unfold ensure_include_block
    split_ifs with h
    · exact h
    · unfold include_block
      simp only [String.toList_append, List.append_assoc]
      exact List.infix_append [] _ _
  rw [ensure_include_block, if_pos hmarker]

/-- What the files should hold is read as it is. -/
theorem readText_desiredFor (h : '\r' ∉ args.allowedAlgos.toList) (path : ManagedFile) :
    readText (desiredFor args files path) = desiredFor args files path := by
  refine readText_eq_self ?_
  cases path with
  | dropIn => exact cr_not_mem_drop_in h
  | authkeys => exact cr_not_mem_authkeys
  | main =>
    refine cr_not_mem_ensure ?_
    unfold textOf
    cases files .main with
    | none => exact cr_not_mem_ofList (by decide)
    | some content => exact cr_not_mem_readText content

/-- Where the files are as they should be, there is nothing to write. -/
theorem planned_eq_nil {desired : ManagedFile → String} {paths : List ManagedFile}
    (h : ∀ path, textOf files path = some (desired path)) : planned desired files paths = [] := by
  induction paths with
  | nil => rfl
  | cons path paths ih => rw [planned, if_neg (not_not.mpr (h path)), ih]

/-- After the writes of a run, the next one has nothing to write. -/
theorem plan_wrote (run : SshdRun) (h : '\r' ∉ run.args.allowedAlgos.toList) :
    planFor run.args (w.wrote (run.plan w)).files = [] := by
  have htext : ∀ path, textOf (w.wrote (run.plan w)).files path =
      some (desiredFor run.args w.files path) := by
    intro path
    obtain hold | hnew := @holds_wrote run w path
    · exact hold
    · rw [textOf, hnew, Option.map_some, readText_desiredFor h]
  have hdesired : desiredFor run.args (w.wrote (run.plan w)).files = desiredFor run.args w.files := by
    funext path
    cases path with
    | dropIn => rfl
    | authkeys => rfl
    | main =>
      show ensure_include_block ((textOf (w.wrote (run.plan w)).files .main).getD "") = _
      rw [htext .main]
      exact ensure_include_block_idem _
  rw [planFor, hdesired]
  exact planned_eq_nil htext

/-- A run that installs the files and does not get to restart sshd makes the next run with the
same arguments a success. -/
theorem failed_restart_hidden {run next : SshdRun} (hargs : next.args = run.args)
    (halgos : '\r' ∉ run.args.allowedAlgos.toList) (hreads : Readable run.env)
    (hnext : Readable next.env) (hcheck : run.args.check = false) (hplan : run.plan w ≠ [])
    (hwrites : Writes run.env (run.plan w)) (htest : run.env.outcome .test = .ok)
    (haccepts : run.env.accepts (w.wrote (run.plan w)).files = true)
    (hrestarts : restarts_sshd run.env = false) :
    next.status (run.final w) = 0 ∧ (next.final (run.final w)).restarted = false := by
  have hfirst : (run.final w).files = (w.wrote (run.plan w)).files ∧
      (run.final w).restarted = false := by
    have hends := run.ends w
    generalize run.status w = rc at hends
    generalize run.final w = w' at hends ⊢
    cases hends with
    | unread hno => exact absurd hreads hno
    | noChange _ hnone => exact absurd hnone hplan
    | checked _ _ hchecked => exact absurd (hcheck.symm.trans hchecked) (by decide)
    | applied _ _ _ happly =>
      cases happly with
      | unwritten _ hno => exact absurd hwrites hno
      | halfway _ hno => exact absurd hwrites hno
      | untested _ hno => exact absurd htest hno
      | refused _ _ hno =>
        exact absurd (hno.symm.trans (accepts_start.trans haccepts)) (by decide)
      | notRestarted =>
        have htested : ∀ w' : SshdWorld, (run.env.tested w').files = w'.files ∧
            (run.env.tested w').restarted = w'.restarted := by
          intro w'
          unfold SshdEnv.tested
          split_ifs <;> exact ⟨rfl, rfl⟩
        have hstale := (htested ({ w with validated := none }.wrote (run.plan w)))
        exact ⟨hstale.1.trans files_start, hstale.2.trans (wrote_stale hplan)⟩
      | restarted _ _ _ hyes => exact absurd (hrestarts.symm.trans hyes) (by decide)
  have hnone : planFor next.args (run.final w).files = [] := by
    rw [hargs, hfirst.1]
    exact plan_wrote run halgos
  have hends := next.ends (run.final w)
  generalize next.status (run.final w) = rc at hends ⊢
  generalize next.final (run.final w) = w' at hends ⊢
  cases hends with
  | unread hno => exact absurd hnext hno
  | noChange => exact ⟨rfl, hfirst.2⟩
  | checked _ hsome => exact absurd hnone hsome
  | applied _ hsome => exact absurd hnone hsome

end Hidden

/-! ### Failures that are not rolled back -/

/-- None of the files is there, and sshd runs without them. -/
def bare : SshdWorld where
  files _ := none
  restarted := true

def default_args : Args where
  allowPassword := "no"
  allowRoot := "no"

/-- The second of the three writes raises `OSError`. -/
def disk_full : SshdRun :=
  ⟨{ outcome := fun i => if i = .write .authkeys then .raise .os false else .ok }, default_args⟩

/-- `systemctl restart` fails. -/
def failed_restart : SshdRun := ⟨{ restartCode := 1 }, default_args⟩

/-- Nothing fails. -/
def plain_run : SshdRun := ⟨{}, default_args⟩

/-- The drop-in is written and the other files are not; and a run that finds the files of one
whose restart failed exits 0. -/
theorem half_written :
    ¬ Along Transactional bare [disk_full] ∧
      ¬ Along SuccessRestarted bare [failed_restart, plain_run] := by
  constructor
  · intro h
    have hdropIn : ((disk_full.final bare).files .dropIn).isSome = true := by decide +kernel
    have hvalidated : (disk_full.final bare).validated.isNone = true := by decide +kernel
    obtain hsame | ⟨-, hall⟩ := h.1
    · rw [hsame] at hdropIn
      exact absurd hdropIn (by decide)
    · rw [hall] at hvalidated
      exact absurd hvalidated (by decide)
  · intro h
    have hplan : (failed_restart.plan bare).isEmpty = false := by decide +kernel
    obtain ⟨hstatus, hstale⟩ : plain_run.status (failed_restart.final bare) = 0 ∧ _ :=
      failed_restart_hidden rfl List.not_mem_nil ⟨rfl, fun _ _ => rfl⟩ ⟨rfl, fun _ _ => rfl⟩ rfl
        (by simpa using hplan) (fun _ _ => rfl) rfl rfl rfl
    exact absurd ((h.2.1 hstatus).symm.trans hstale) (by decide)

end ApplySsh
