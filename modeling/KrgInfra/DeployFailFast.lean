/-
deploy-tofu stops at the first target that fails, as far as it notices.

The status of a target's subshell is that of its last command, or of an `exit`.  A failed
apply is noticed, and so is a failed plan where only a plan is asked for: nothing is done
after it, and the run exits non-zero.  The commands before it are not: `set -e` is off, so
a target whose `tofu init` or `tofu import` has failed is applied all the same.

* `Orderly`, `Inside`, `Broken` — the log between the targets, in a target before its last
  command, and after a target that has failed;
* `target_body_rule`, `deploy_targets_rule` — one target, and the loop;
* `deploy_fail_fast` — a run in which only last commands fail is fail-fast.
-/
import KrgInfra.DeployTofu
import Mathlib.Data.List.Induction

namespace DeployTofu

/-- The steps whose status is the target's. -/
def Step.last : Step → Bool
  | .plan => true
  | .apply => true
  | _ => false

/-- Fail-fast, as the log of a run of these targets and its exit status tell it: nothing is
applied after a step that has failed, such a run fails, and a skipped target neither stops
the run nor makes it fail. -/
structure FailFast (targets : List String) (status : ℕ) (log : List Event) : Prop where
  stops : ∀ before n s after, log = before ++ .step n s false :: after →
    ∀ m ok, .step m .apply ok ∉ after
  fails : ∀ n s, .step n s false ∈ log → status ≠ 0
  goes_on : ∀ n, .skipped n ∈ log → n + 1 < targets.length → .began (n + 1) ∈ log
  blames : .began 0 ∈ log → status ≠ 0 → ∃ n, .failed n ∈ log ∧ .skipped n ∉ log

/-- The log before target `n`. -/
structure Orderly (n : ℕ) (log : List Event) : Prop where
  passed : ∀ m s, s.last = true → .step m s false ∉ log
  begun : ∀ k < n, .began k ∈ log
  skipped : ∀ m, .skipped m ∈ log → m < n

/-- The log in target `n`, before its last command. -/
structure Inside (n : ℕ) (log : List Event) : Prop extends Orderly n log where
  here : .began n ∈ log

/-- The log once target `n` has failed: its last command is the last that was done. -/
structure Broken (n : ℕ) (log : List Event) : Prop where
  single : ∀ before m s after, s.last = true → log = before ++ .step m s false :: after →
    ∀ e ∈ after, e = .failed n
  begun : ∀ k ≤ n, .began k ∈ log
  skipped : ∀ m, .skipped m ∈ log → m < n

section Log

variable {n : ℕ} {log : List Event}

/-- Where an event of a longer log stands. -/
theorem split_snoc {before after : List Event} {x y : Event}
    (h : log ++ [y] = before ++ x :: after) :
    (after = [] ∧ x = y) ∨ ∃ after', after = after' ++ [y] ∧ log = before ++ x :: after' := by
  induction after using List.reverseRecOn with
  | nil =>
    obtain ⟨-, he⟩ := List.append_inj' h rfl
    exact .inl ⟨rfl, (List.singleton_inj.mp he).symm⟩
  | append_singleton after' z _ =>
    rw [← List.cons_append, ← List.append_assoc] at h
    obtain ⟨hl, he⟩ := List.append_inj' h rfl
    obtain rfl := List.singleton_inj.mp he
    exact .inr ⟨after', rfl, hl⟩

theorem Orderly.snoc {e : Event} (h : Orderly n log)
    (hp : ∀ m s, s.last = true → e ≠ .step m s false) (hs : ∀ m, e = .skipped m → m < n) :
    Orderly n (log ++ [e]) where
  passed m s hl hm := by
    obtain hm | hm := List.mem_append.mp hm
    · exact h.passed m s hl hm
    · exact hp m s hl (List.mem_singleton.mp hm).symm
  begun k hk := List.mem_append_left _ (h.begun k hk)
  skipped m hm := by
    obtain hm | hm := List.mem_append.mp hm
    · exact h.skipped m hm
    · exact hs m (List.mem_singleton.mp hm).symm

theorem Inside.snoc {e : Event} (h : Inside n log)
    (hp : ∀ m s, s.last = true → e ≠ .step m s false) (hs : ∀ m, e = .skipped m → m < n) :
    Inside n (log ++ [e]) :=
  ⟨h.toOrderly.snoc hp hs, List.mem_append_left _ h.here⟩

/-- A target that is begun. -/
theorem Orderly.began (h : Orderly n log) : Inside n (log ++ [.began n]) :=
  ⟨h.snoc nofun nofun, by simp⟩

/-- A target that is done. -/
theorem Inside.done (h : Inside n log) : Orderly (n + 1) log where
  passed := h.passed
  begun k hk := by
    obtain hk | rfl := Nat.lt_succ_iff_lt_or_eq.mp hk
    · exact h.begun k hk
    · exact h.here
  skipped m hm := Nat.lt_succ_of_lt (h.skipped m hm)

/-- A target that is skipped. -/
theorem Inside.skip (h : Inside n log) : Orderly (n + 1) (log ++ [.skipped n]) := by
  refine h.done.snoc nofun fun m hm => ?_
  obtain rfl := Event.skipped.inj hm
  exact Nat.lt_succ_self _

/-- A step of a target that is not its last. -/
theorem Inside.step {s : Step} {ok : Bool} (h : Inside n log) (hs : s.last = false) :
    Inside n (log ++ [.step n s ok]) := by
  refine h.snoc ?_ nofun
  rintro m s' hl he
  obtain ⟨-, rfl, -⟩ := Event.step.inj he
  exact Bool.false_ne_true (hs.symm.trans hl)

theorem Inside.broken (h : Inside n log) : Broken n log where
  single before m s after hl he := absurd (he ▸ by simp) (h.passed m s hl)
  begun k hk := h.done.begun k (Nat.lt_succ_of_le hk)
  skipped := h.skipped

/-- The last command of a target has failed. -/
theorem Inside.fail (h : Inside n log) (s : Step) : Broken n (log ++ [.step n s false]) where
  single before m s' after hl he := by
    obtain ⟨rfl, -⟩ | ⟨after', -, hlog⟩ := split_snoc he
    · simp
    · exact absurd (hlog ▸ by simp) (h.passed m s' hl)
  begun k hk := List.mem_append_left _ (h.broken.begun k hk)
  skipped m hm := by
    obtain hm | hm := List.mem_append.mp hm
    · exact h.skipped m hm
    · exact nomatch List.mem_singleton.mp hm

theorem Broken.failed (h : Broken n log) : Broken n (log ++ [.failed n]) where
  single before m s after hl he e hm := by
    obtain ⟨rfl, hx⟩ | ⟨after', rfl, hlog⟩ := split_snoc he
    · exact nomatch hx
    · obtain hm | hm := List.mem_append.mp hm
      · exact h.single before m s after' hl hlog e hm
      · exact List.mem_singleton.mp hm
  begun k hk := List.mem_append_left _ (h.begun k hk)
  skipped m hm := by
    obtain hm | hm := List.mem_append.mp hm
    · exact h.skipped m hm
    · exact nomatch List.mem_singleton.mp hm

end Log

section Rules

variable {τ : Type} {tofu : OpenTofu τ} {env : DeployEnv} {cfg : Config} {n : ℕ}
  {I : TofuWorld τ → Prop}

/-- A command that only reads leaves the world alone. -/
theorem read_rule {α : Type} {P : TofuWorld τ → Prop} {E : ℕ → TofuWorld τ → Prop} {i : Site}
    {f : TofuWorld τ → Except ℕ α} :
    Triple I P (Script.run env.toShellEnv i (.query f)) (fun _ => P) E :=
  Triple.run_query (fun _ _ _ h _ => h) fun _ _ h _ => h

/-- A step does its work, or fails, and is marked in the log. -/
theorem step_rule {P : TofuWorld τ → Prop} {E : ℕ → TofuWorld τ → Prop} {s : Step}
    {work : TofuWorld τ → TofuWorld τ} (hI : ∀ w, P w → I w) (hwork : ∀ w, P w → P (work w))
    (hP : ∀ w ok, P w → P (w.record (.step n s ok))) :
    Triple I P (step env n s work) (fun _ => P) E := by
  refine Triple.bind (Q := fun _ => P) ?_ fun done => ?_
  · refine Triple.run (fun w _ h => hI _ (hwork w h)) (fun w _ _ h _ => hwork w h)
      (fun w _ _ h _ => hwork w h) fun e done w _ _ h => ?_
    cases done with
    | true => exact hwork w h
    | false => exact h
  · refine Triple.bind (Q := fun _ => P)
      (Triple.note fun w _ h => ⟨hI _ (hP w _ h), hP w _ h⟩) fun _ => ?_
    exact Triple.pure fun _ _ h => h

theorem materialize_rule {token : Bool} {target : String} {P : TofuWorld τ → Prop}
    {E : ℕ → TofuWorld τ → Prop} :
    Triple I P (materialize env cfg token n target) (fun _ => P) E := by
  have hneed : ∀ need, Triple I P (obtain_need env cfg token n need) (fun _ => P) E := by
    intro need
    cases need with
    | token => exact Triple.pure fun _ _ h => h
    | openbaoToken => exact Triple.pure fun _ _ h => h
    | field path field => exact Triple.bind read_rule fun _ => Triple.pure fun _ _ h => h
    | cert role => exact Triple.bind read_rule fun _ => Triple.pure fun _ _ h => h
    | pinnedCert => exact Triple.pure fun _ _ h => h
  have hall : ∀ l, Triple I P (obtain_all env cfg token n l) (fun _ => P) E := by
    intro l
    induction l with
    | nil => exact Triple.pure fun _ _ h => h
    | cons need l ih =>
      refine Triple.bind (hneed need) fun there => ?_
      cases there with
      | true => exact ih
      | false => exact Triple.pure fun _ _ h => h
  unfold materialize
  cases needs cfg target with
  | none => exact Triple.pure fun _ _ h => h
  | some l => exact hall l

theorem import_id_rule {k : ℕ} {line : ImportLine} {P : TofuWorld τ → Prop}
    {E : ℕ → TofuWorld τ → Prop} :
    Triple I P (import_id env n k line) (fun _ => P) E := by
  refine Triple.bind read_rule fun value => ?_
  cases value with
  | none => exact Triple.pure fun _ _ h => h
  | some value =>
    show Triple _ _ (if _ then _ else _) _ _
    split_ifs
    · exact read_rule
    · exact Triple.pure fun _ _ h => h

/-- The loop over TOFU_IMPORT: it adopts values into the target's state. -/
theorem import_secrets_rule {target : String} {P : TofuWorld τ → Prop}
    {E : ℕ → TofuWorld τ → Prop} (hI : ∀ w, P w → I w)
    (hadopt : ∀ w addr value, P w → P (adopt tofu target addr value w))
    (hP : ∀ w k ok, P w → P (w.record (.step n (.imported k) ok))) (lines : List ImportLine) :
    ∀ k, Triple I P (import_secrets tofu env n target k lines) (fun _ => P) E := by
  have hline : ∀ k line, Triple I P (import_secret tofu env n target k line) (fun _ => P) E := by
    intro k line
    unfold import_secret
    split_ifs
    · exact Triple.pure fun _ _ h => h
    refine Triple.bind read_rule fun known => ?_
    show Triple _ _ (if _ then _ else _) _ _
    split_ifs
    · exact Triple.pure fun _ _ h => h
    refine Triple.bind import_id_rule fun value => ?_
    cases value with
    | none => exact Triple.pure fun _ _ h => h
    | some value =>
      refine Triple.bind (step_rule hI (hadopt · _ _) fun w ok => hP w k ok) fun _ => ?_
      exact Triple.pure fun _ _ h => h
  induction lines with
  | nil => exact fun _ => Triple.pure fun _ _ h => h
  | cons line lines ih => exact fun k => Triple.bind (hline k line) fun _ => ih (k + 1)

end Rules

/-! ### The log of a target -/

section Targets

variable {τ : Type} {tofu : OpenTofu τ} {env : DeployEnv} {cfg : Config} {n : ℕ}

/-- A predicate of the log, as a predicate of worlds. -/
def Logged (L : List Event → Prop) (w : TofuWorld τ) : Prop := L w.log

/-- A step that is not the last, inside its target. -/
theorem inside_step_rule {s : Step} (hs : s.last = false) {work : TofuWorld τ → TofuWorld τ}
    (hwork : ∀ w, (work w).log = w.log) {E : ℕ → TofuWorld τ → Prop} :
    Triple (fun _ => True) (Logged (Inside n)) (step env n s work)
      (fun _ => Logged (Inside n)) E := by
  refine step_rule (fun _ _ => trivial) ?_ ?_
  · intro w h
    rw [Logged, hwork]
    exact h
  · exact fun w ok h => Inside.step h hs

theorem clobbered_rule {P : TofuWorld τ → Prop} {E : ℕ → TofuWorld τ → Prop}
    (paths : List String) :
    Triple (fun _ => True) P (clobbered env n paths) (fun _ => P) E := by
  induction paths with
  | nil => exact Triple.pure fun _ _ h => h
  | cons path paths ih =>
    exact Triple.bind read_rule fun _ => Triple.bind ih fun _ => Triple.pure fun _ _ h => h

/-- The guard: it lets the target go on, or ends it with status 5. -/
theorem guard_rule {target : String} :
    Triple (fun _ => True) (Logged (Inside n)) (guard tofu env cfg n target)
      (fun _ => Logged (Inside n)) (fun e w => e ≠ 0 ∧ Inside n w.log) := by
  unfold guard
  split_ifs
  · refine Triple.bind (inside_step_rule rfl fun _ => rfl) fun planned => ?_
    cases planned with
    | false => exact Triple.pure fun _ _ h => h
    | true =>
      refine Triple.bind read_rule fun paths => Triple.bind (clobbered_rule _) fun clobber => ?_
      show Triple _ _ (if _ then _ else _) _ _
      split_ifs
      · exact Triple.exit fun _ _ h => ⟨by decide, h⟩
      · exact Triple.pure fun _ _ h => h
  · exact Triple.pure fun _ _ h => h

/-- How a target ends: with status 0 for the next one to follow, or broken. -/
def Ended (n rc : ℕ) (log : List Event) : Prop :=
  (rc = 0 ∧ Orderly (n + 1) log) ∨ (rc ≠ 0 ∧ Broken n log)

theorem last_step_rule {s : Step} (work : TofuWorld τ → TofuWorld τ)
    (hwork : ∀ w, (work w).log = w.log) {E : ℕ → TofuWorld τ → Prop} :
    Triple (fun _ => True) (Logged (Inside n)) (last_step env n s work)
      (fun rc w => Ended n rc w.log) E := by
  refine Triple.bind (Q := fun _ => Logged (Inside n)) ?_ fun rc => ?_
  · refine Triple.status (fun _ _ _ => trivial) ?_ ?_ ?_
    · intro w _ h _
      rw [Logged, hwork]
      exact h
    · intro w e _ h _
      rw [Logged, hwork]
      exact h
    · intro e done w _ _ h
      cases done with
      | true =>
        show Inside n (work w).log
        rw [hwork]
        exact h
      | false => exact h
  · refine Triple.bind (Q := fun _ w => Ended n rc w.log) (Triple.note fun w _ h => ⟨trivial, ?_⟩)
      fun _ => Triple.pure fun _ _ h => h
    have h : Inside n w.log := h
    rw [TofuWorld.log_record]
    by_cases hrc : rc = 0
    · have hok : ∀ m s', s'.last = true → Event.step n s true ≠ .step m s' false := by
        intro m s' _ he
        exact absurd (Event.step.inj he).2.2 (by decide)
      refine .inl ⟨hrc, ?_⟩
      rw [decide_eq_true hrc]
      exact (h.snoc hok nofun).done
    · refine .inr ⟨hrc, ?_⟩
      rw [decide_eq_false hrc]
      exact h.fail s

/-- The subshell of a target. -/
theorem target_body_rule {token : Bool} {target : String} :
    Triple (fun _ => True) (Logged (Inside n)) (target_body tofu env cfg token n target)
      (fun rc w => Ended n rc w.log) (fun rc w => Ended n rc w.log) := by
  refine Triple.bind materialize_rule fun there => ?_
  show Triple _ _ (if _ then _ else if _ then _ else _) _ _
  split_ifs
  · refine Triple.bind (Q := fun _ w => Orderly (n + 1) w.log)
      (Triple.note fun w _ h => ⟨trivial, Inside.skip h⟩) fun _ => ?_
    exact Triple.exit fun _ _ h => .inl ⟨rfl, h⟩
  · exact Triple.exit fun _ _ h => .inr ⟨by decide, Inside.broken h⟩
  · refine Triple.bind (inside_step_rule rfl fun _ => rfl) fun _ => ?_
    refine Triple.bind (inside_step_rule rfl fun _ => rfl) fun _ => ?_
    refine Triple.bind (inside_step_rule rfl fun _ => rfl) fun _ => ?_
    refine Triple.bind (import_secrets_rule (P := Logged (Inside n)) (fun _ _ => trivial)
      (fun _ _ _ h => h) (fun _ _ _ h => Inside.step h rfl) _ _) fun _ => ?_
    show Triple _ _ (if _ then _ else _) _ _
    split_ifs
    · exact last_step_rule _ fun _ => rfl
    · refine Triple.bind (guard_rule.except ?_) fun _ => ?_
      · exact fun e w _ h => .inr ⟨h.1, h.2.broken⟩
      · exact last_step_rule (apply_changes tofu env n target) fun _ => rfl

/-- One target of the loop: the next one follows, or the script exits. -/
theorem deploy_target_rule {token : Bool} {target : String} :
    Triple (fun _ => True) (Logged (Orderly n)) (deploy_target tofu env cfg token n target)
      (fun _ => Logged (Orderly (n + 1)))
      (fun e w => e ≠ 0 ∧ Broken n w.log ∧ .failed n ∈ w.log) := by
  refine Triple.bind (Q := fun _ => Logged (Inside n))
    (Triple.note fun w _ h => ⟨trivial, Orderly.began h⟩) fun _ => ?_
  show Triple _ _ (if _ then _ else _) _ _
  split_ifs
  · exact Triple.note fun w _ h => ⟨trivial, Inside.skip h⟩
  · refine Triple.bind (Triple.subshell target_body_rule) fun rc => ?_
    show Triple _ _ (if _ then _ else _) _ _
    split_ifs with hrc
    · refine Triple.bind (Q := fun _ w => Broken n w.log ∧ .failed n ∈ w.log)
        (Triple.note fun w _ h => ⟨trivial, ?_⟩) fun _ => Triple.exit fun _ _ h => ⟨by decide, h⟩
      obtain ⟨h0, -⟩ | ⟨-, h⟩ := h
      · exact absurd h0 hrc
      · exact ⟨h.failed, by simp⟩
    · refine Triple.pure fun w _ h => ?_
      obtain ⟨-, h⟩ | ⟨h0, -⟩ := h
      · exact h
      · exact absurd h0 hrc

/-- The loop over the targets. -/
theorem deploy_targets_rule {token : Bool} (targets : List String) :
    ∀ n, Triple (fun _ => True) (Logged (Orderly n))
      (deploy_targets tofu env cfg token n targets)
      (fun _ => Logged (Orderly (n + targets.length)))
      (fun e w => e ≠ 0 ∧ ∃ m < n + targets.length, Broken m w.log ∧ .failed m ∈ w.log) := by
  induction targets with
  | nil => exact fun n => Triple.pure fun _ _ h => h
  | cons target targets ih =>
    intro n
    refine Triple.bind (deploy_target_rule.except ?_) fun _ => ?_
    · exact fun e w _ h => ⟨h.1, n, by simp, h.2⟩
    · have hlen : n + 1 + targets.length = n + (target :: targets).length := by
        simp only [List.length_cons]
        omega
      rw [← hlen]
      exact ih (n + 1)

/-- What a whole run leaves: an exit status, and a log whose last commands tell it. -/
def RunEnds (targets : List String) (status : ℕ) (log : List Event) : Prop :=
  (status = 0 ∧ Orderly targets.length log) ∨
    (status ≠ 0 ∧ (log = [] ∨ ∃ m < targets.length, Broken m log ∧ .failed m ∈ log))

theorem deploy_tofu_rule :
    Triple (fun _ => True) (Logged (· = [])) (deploy_tofu tofu env cfg)
      (fun _ w => RunEnds cfg.targets 0 w.log) (fun e w => RunEnds cfg.targets e w.log) := by
  have hstart : Orderly 0 [] := ⟨by simp, by simp, by simp⟩
  unfold deploy_tofu
  by_cases htargets : cfg.targets = []
  · rw [if_pos htargets]
    refine Triple.pure fun w _ h => .inl ⟨rfl, ?_⟩
    have h : w.log = [] := h
    rw [htargets, h]
    exact hstart
  rw [if_neg htargets]
  refine Triple.bind (Q := fun _ => Logged (· = [])) ?_ fun token => ?_
  · unfold login
    split_ifs
    · refine Triple.bind read_rule fun t => ?_
      cases t with
      | none => exact Triple.exit fun _ _ h => .inr ⟨by decide, .inl h⟩
      | some _ => exact Triple.pure fun _ _ h => h
    · exact Triple.pure fun _ _ h => h
  · show Triple _ _ (if _ then _ else _) _ _
    split_ifs
    · exact Triple.exit fun _ _ h => .inr ⟨by decide, .inl h⟩
    · refine (deploy_targets_rule cfg.targets 0).conseq ?_ ?_ ?_
      · intro w _ h
        have h : w.log = [] := h
        rw [Logged, h]
        exact hstart
      · intro _ w _ h
        rw [Logged, Nat.zero_add] at h
        exact .inl ⟨rfl, h⟩
      · intro e w _ h
        rw [Nat.zero_add] at h
        exact .inr ⟨h.1, .inr h.2⟩

/-- **Fail-fast.**  A run in which no command fails but last ones (an apply, or a plan that
is all that is asked for) is fail-fast. -/
theorem deploy_fail_fast (tofu : OpenTofu τ) (env : DeployEnv) (cfg : Config) (w : TofuWorld τ)
    (hw : w.log = [])
    (hlast : ∀ n s, .step n s false ∈ (outcomeOf (deploy_tofu tofu env cfg) w).2.now.log →
      s.last = true) :
    FailFast cfg.targets (Script.exitStatus (deploy_tofu tofu env cfg) w)
      (outcomeOf (deploy_tofu tofu env cfg) w).2.now.log := by
  have hrule : Triple _ _ (deploy_tofu tofu env cfg) _ _ := deploy_tofu_rule
  have hends := Triple.exitStatus (s := w)
    (R := fun status (w : TofuWorld τ) => RunEnds cfg.targets status w.log) hrule trivial hw
  obtain ⟨hst, h⟩ | ⟨hst, hlog | ⟨m, hm, h, hfailed⟩⟩ := hends
  · -- every target has ended with status 0: no step has failed
    have hnone : ∀ n s, .step n s false ∉ (outcomeOf (deploy_tofu tofu env cfg) w).2.now.log :=
      fun n s hmem => h.passed n s (hlast n s hmem) hmem
    refine ⟨?_, ?_, ?_, ?_⟩
    · exact fun before n s after he => absurd (he ▸ by simp) (hnone n s)
    · exact fun n s hmem => absurd hmem (hnone n s)
    · exact fun n _ hlt => h.begun (n + 1) hlt
    · exact fun _ hne => absurd hst hne
  · rw [hlog]
    exact ⟨by simp, by simp, by simp, by simp⟩
  · refine ⟨?_, fun _ _ _ => hst, ?_, ?_⟩
    · intro before n s after he k ok hmem
      have hs := hlast n s (he ▸ by simp)
      exact nomatch h.single before n s after hs he _ hmem
    · exact fun n hn _ => h.begun (n + 1) (h.skipped n hn)
    · exact fun _ _ => ⟨m, hfailed, fun hs => Nat.lt_irrefl m (h.skipped m hs)⟩

end Targets

/-! ### A failure that is ignored -/

/-- An OpenTofu that has nothing to change. -/
def settled : OpenTofu Unit where
  plan _ _ _ := []
  addresses _ := []
  imported _ _ _ := ()
  applied _ _ _ := ()

def empty_world : TofuWorld Unit := ⟨fun _ => none, fun _ => (), [], []⟩

def two_targets : Config := { targets := ["temporal", "secrets"], passphrase := "p" }

/-- The apply of the second target fails. -/
def apply_fails : DeployEnv where
  outcome i := if i = .step 1 .apply then .raise 0 false else .ok

theorem deploy_fail_fast_apply :
    FailFast two_targets.targets
      (Script.exitStatus (deploy_tofu settled apply_fails two_targets) empty_world)
      (outcomeOf (deploy_tofu settled apply_fails two_targets) empty_world).2.now.log := by
  refine deploy_fail_fast settled apply_fails two_targets empty_world rfl ?_
  have hlog : (outcomeOf (deploy_tofu settled apply_fails two_targets) empty_world).2.now.log =
      [.began 0, .step 0 .mkdir true, .step 0 .chmod true, .step 0 .init true,
        .step 0 .apply true, .began 1, .step 1 .mkdir true, .step 1 .chmod true,
        .step 1 .init true, .step 1 .guardPlan true, .step 1 .apply false, .failed 1] := by
    decide +kernel
  rw [hlog]
  intro n s hmem
  simp only [List.mem_cons, Event.step.injEq, reduceCtorEq, Bool.false_eq_true, and_false,
    List.not_mem_nil, or_false, false_or, and_true] at hmem
  rw [hmem.2]
  rfl

/-- The `tofu init` of the first target fails. -/
def init_fails : DeployEnv where
  outcome i := if i = .step 0 .init then .raise 0 false else .ok

/-- After a failed `tofu init` the target is applied, so is the next one, and the run
exits 0. -/
theorem init_failure_ignored :
    ¬ FailFast two_targets.targets
        (Script.exitStatus (deploy_tofu settled init_fails two_targets) empty_world)
        (outcomeOf (deploy_tofu settled init_fails two_targets) empty_world).2.now.log ∧
      (outcomeOf (deploy_tofu settled init_fails two_targets) empty_world).2.now.log =
        [.began 0, .step 0 .mkdir true, .step 0 .chmod true, .step 0 .init false,
          .step 0 .apply true, .began 1, .step 1 .mkdir true, .step 1 .chmod true,
          .step 1 .init true, .step 1 .guardPlan true, .step 1 .apply true] ∧
      Script.exitStatus (deploy_tofu settled init_fails two_targets) empty_world = 0 := by
  have hlog : (outcomeOf (deploy_tofu settled init_fails two_targets) empty_world).2.now.log =
      [.began 0, .step 0 .mkdir true, .step 0 .chmod true, .step 0 .init false,
        .step 0 .apply true, .began 1, .step 1 .mkdir true, .step 1 .chmod true,
        .step 1 .init true, .step 1 .guardPlan true, .step 1 .apply true] := by
    decide +kernel
  have hstatus : Script.exitStatus (deploy_tofu settled init_fails two_targets) empty_world = 0 := by
    decide +kernel
  refine ⟨fun h => ?_, hlog, hstatus⟩
  rw [hlog] at h
  exact h.fails 0 .init (by simp) hstatus

end DeployTofu
