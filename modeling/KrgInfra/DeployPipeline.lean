/-
The phases of a deploy, and the control node under them (`.github/workflows/deploy.yml`,
`deploy/deploy-self-update.sh`, `deploy/deploy-self-verify.sh`, and the unit
`krg-deploy-selfupdate` of `nix/hosts/krg-deploy/default.nix`).

A deploy runs on a node that it updates too.  Its first job builds the system of the node, and where
that is not the one which runs has a unit started that waits, stops the runner, switches and starts
the runner again; another job watches the runner from outside; the last job comes back to the node.
The unit goes on beside the jobs, and its switch is to whatever `main` is by then.

* `Step`, `pipeline` — the steps of the jobs on the node, in their order;
* `World`, `happen` — the workflow and the node, and what either does next;
* `Placed`, `Settled` — where a deploy is in its phases, and what the unit is at meanwhile;
* `deploy_in_phases` — which phases have run, and when a deploy is green;
* `deploys_on_target` — the last job runs its phases on the system that the first has built.

The watcher is not looked into: the job that awaits the node ends at any time, in either way.
-/
import KrgInfra.DeployGate

namespace DeployPipeline

open Interleaving

/-! ### The workflow -/

/-- The steps of the two jobs on the control node. -/
inductive Step where
  | checkout
  | gate
  /-- Phase 0 -/
  | foundation
  /-- Phase 1 -/
  | substrate
  /-- Phase 1.5 -/
  | secrets
  /-- Phase 1.9 -/
  | selfupdate
  /-- The checkout of `deploy-post`. -/
  | checkoutPost
  | verifySelf
  /-- Phase 2 -/
  | systems
  /-- Phase 2.7 -/
  | golden
  /-- Phase 2.9 -/
  | authentik
  /-- Phase 3 -/
  | config
  /-- Phase 3.5 -/
  | rerender
  /-- Phase 3.6 -/
  | tenants
  /-- Phase 4 -/
  | verifyFleet
  deriving DecidableEq

/-- `|| echo "::warning::…"` -/
def Step.bestEffort : Step → Bool
  | .golden | .tenants => true
  | _ => false

def deploy_pre : List Step :=
  [.checkout, .gate, .foundation, .substrate, .secrets, .selfupdate]

def deploy_post : List Step :=
  [.checkoutPost, .verifySelf, .systems, .golden, .authentik, .config, .rerender, .tenants,
    .verifyFleet]

def pipeline : List Step := deploy_pre ++ deploy_post

/-- Where the workflow is, with the steps of the job that are to come. -/
inductive Stage where
  | pre (rest : List Step)
  /-- `await-selfupdate` -/
  | await
  /-- `deploy-post`, before the runner has taken it -/
  | queued
  | post (rest : List Step)
  | ended (green : Bool)

/-- `krg-deploy-selfupdate.service` -/
inductive SwitchUnit where
  | idle
  /-- `ExecStartPre`: `sleep 45` -/
  | delay
  /-- The runner was told to stop, and `nixos-rebuild switch` runs. -/
  | switching
  /-- The system is another one, and the switch goes on. -/
  | activated
  /-- The switch is over, and the runner is to be started. -/
  | ending
  deriving DecidableEq

structure World where
  trigger : DeployGate.Trigger
  /-- `readlink -f /run/current-system` -/
  current : String
  /-- The runner is up. -/
  runner : Bool := true
  unit : SwitchUnit := .idle
  stage : Stage := .pre deploy_pre
  /-- The output `target` of the first job. -/
  target : String := ""
  /-- The output `selfupdate`: whether a switch is scheduled. -/
  selfupdate : Bool := false
  /-- The head of `main` and the runs that its gate was shown. -/
  shown : Option (String × List DeployGate.WorkflowRun) := none
  /-- The steps that have run, and whether their commands have succeeded. -/
  log : List (Step × Bool) := []

/-- What the commands of a step come to. -/
structure Report where
  succeeds : Bool := true
  /-- The head of `main`, and what the API lists, at the gate. -/
  head : String := ""
  api : List DeployGate.WorkflowRun := []
  /-- The system that is built for the node. -/
  built : String := ""
  /-- The unit is there, and the request to start it goes through. -/
  starts : Bool := true

inductive Event where
  /-- The next step of a job on the runner, or the end of the job where there is none. -/
  | step (report : Report)
  /-- The watcher ends. -/
  | watched (succeeds : Bool)
  /-- The runner takes the last job. -/
  | taken
  /-- The job is cancelled, or its runner is lost. -/
  | lost
  /-- The delay is over; `systemctl stop` stops the runner or not. -/
  | delayOver (stops : Bool)
  /-- The switch activates the system that it has built from `main`. -/
  | activates (system : String)
  /-- The switch ends; it may have failed before it has activated anything. -/
  | switchOver
  /-- The runner is started, by the switch or after it. -/
  | runnerUp
  | unitOver
  /-- The nightly upgrade of the node, which does not wait for a deploy. -/
  | upgrades (system : String)

/-- A step has run; the job goes on at some stage, or fails. -/
def World.ran (w : World) (s : Step) (good : Bool) (stage : Stage) : World :=
  { w with log := w.log ++ [(s, good)], stage := if good || s.bestEffort then stage else .ended false }

/-- `systemctl start --no-block`: a unit that is active already goes on as it is. -/
def SwitchUnit.start : SwitchUnit → SwitchUnit
  | .idle => .delay
  | unit => unit

/-- `deploy/deploy-self-update.sh`, after the build -/
def self_update (w : World) (report : Report) (next : Stage) : World :=
  let w := { w with target := report.built }
  if report.built = w.current then
    { w with selfupdate := false }.ran .selfupdate true next
  else if report.starts then
    { w with selfupdate := true, unit := w.unit.start }.ran .selfupdate true next
  else w.ran .selfupdate false next

/-- A step of a job that goes on at `next`; `deploy-self-verify.sh` compares the systems. -/
def run_step (w : World) (report : Report) (s : Step) (next : Stage) : World :=
  match s with
  | .gate =>
    if report.succeeds then
      -- the steps after the gate, and the jobs, are all conditional on its output
      { w with shown := some (report.head, report.api) }.ran .gate true
        (if DeployGate.gate w.trigger report.head report.api then next else .ended true)
    else w.ran .gate false next
  | .selfupdate =>
    if report.succeeds then self_update w report next else w.ran .selfupdate false next
  | .verifySelf => w.ran .verifySelf (report.succeeds && w.current = w.target) next
  | s => w.ran s report.succeeds next

/-- The workflow once its runner is gone: a job that was on it has failed. -/
def Stage.withoutRunner : Stage → Stage
  | .pre _ | .post _ => .ended false
  | stage => stage

/-- What happens to the world; `none` where it cannot happen. -/
def happen (w : World) : Event → Option World
  | .step report =>
    match w.stage with
    | .pre [] => some { w with stage := if w.selfupdate then .await else .queued }
    | .pre (s :: rest) => if w.runner then some (run_step w report s (.pre rest)) else none
    | .post (s :: rest) =>
      if w.runner then some (run_step w report s (if rest = [] then .ended true else .post rest))
      else none
    | _ => none
  | .watched succeeds =>
    match w.stage with
    | .await => some { w with stage := if succeeds then .queued else .ended false }
    | _ => none
  | .taken =>
    match w.stage with
    | .queued => if w.runner then some { w with stage := .post deploy_post } else none
    | _ => none
  | .lost =>
    match w.stage with
    | .ended _ => none
    | _ => some { w with stage := .ended false }
  | .delayOver stops =>
    match w.unit with
    | .delay =>
      some { w with
        unit := .switching
        runner := w.runner && !stops
        stage := if stops then w.stage.withoutRunner else w.stage }
    | _ => none
  | .activates system =>
    match w.unit with
    | .switching => some { w with unit := .activated, current := system }
    | _ => none
  | .switchOver =>
    match w.unit with
    | .switching | .activated => some { w with unit := .ending }
    | _ => none
  | .runnerUp =>
    match w.unit with
    | .activated | .ending => some { w with runner := true }
    | _ => none
  | .unitOver =>
    match w.unit with
    | .ending => some { w with unit := .idle }
    | _ => none
  | .upgrades system => some { w with current := system }

/-- A deploy that begins, on a node that is up and where no switch is to come. -/
def World.initial (trigger : DeployGate.Trigger) (current : String) : World := { trigger, current }

/-! ### What an event can do -/

def Stage.Going (stage : Stage) : Prop := ∀ green, stage ≠ .ended green

/-- The steps that are to come, of both jobs. -/
def Stage.rest : Stage → List Step
  | .pre rest => rest ++ deploy_post
  | .await | .queued => deploy_post
  | .post rest => rest
  | .ended _ => []

/-- The gate of the deploy has passed, on what it was shown. -/
def Opened (w : World) : Prop :=
  ∃ head api, w.shown = some (head, api) ∧ DeployGate.gate w.trigger head api = true

/-- A step is the next one, and what comes after it is at a stage. -/
def Next (stage : Stage) (s : Step) (next : Stage) : Prop :=
  next.Going ∧ stage.rest = s :: next.rest ∨ next = .ended true ∧ stage.rest = [s]

/-- What an event can make of the world, the nightly upgrade apart. -/
inductive Change (w : World) : World → Prop where
  /-- A step has run that changes no more than the stage and the log. -/
  | ran {s : Step} {good : Bool} {next : Stage} (hnext : Next w.stage s next)
      (hs : s ≠ .selfupdate) (hgate : s = .gate → good = false)
      (hverify : s = .verifySelf → good = true → w.current = w.target) :
      Change w (w.ran s good next)
  /-- The gate passes. -/
  | opened {head : String} {api : List DeployGate.WorkflowRun} {next : Stage}
      (hnext : Next w.stage .gate next) (hgate : DeployGate.gate w.trigger head api = true) :
      Change w ({ w with shown := some (head, api) }.ran .gate true next)
  /-- The gate does not pass. -/
  | closed {shown : Option (String × List DeployGate.WorkflowRun)} {rest : List Step}
      (hrest : w.stage.rest = .gate :: rest) :
      Change w ({ w with shown }.ran .gate true (.ended true))
  /-- No switch is needed, or none can be scheduled. -/
  | unscheduled {target : String} {selfupdate good : Bool} {next : Stage}
      (hnext : Next w.stage .selfupdate next) :
      Change w ({ w with target, selfupdate }.ran .selfupdate good next)
  | scheduled {target : String} {next : Stage} (hnext : Next w.stage .selfupdate next)
      (hne : w.current ≠ target) :
      Change w ({ w with target, selfupdate := true, unit := w.unit.start }.ran .selfupdate true
        next)
  /-- The workflow goes on to another job. -/
  | goes {next : Stage} (hfrom : w.stage.Going) (hgoing : next.Going)
      (hrest : next.rest = w.stage.rest) : Change w { w with stage := next }
  | lost (hfrom : w.stage.Going) : Change w { w with stage := .ended false }
  | delayOver {runner : Bool} {next : Stage} (hunit : w.unit = .delay)
      (hnext : next = w.stage ∨ w.stage.Going ∧ next = .ended false) :
      Change w { w with unit := .switching, runner, stage := next }
  | activates {current : String} (hunit : w.unit = .switching) :
      Change w { w with unit := .activated, current }
  | onward {unit : SwitchUnit} {runner : Bool} (hunit : unit ≠ .delay ∧ unit ≠ .switching)
      (hfrom : w.unit ≠ .idle) :
      Change w { w with unit, runner }

section Changes

variable {w w' : World} {s : Step} {next : Stage} {report : Report}

theorem change_of_self_update (hnext : Next w.stage .selfupdate next) :
    Change w (self_update w report next) := by
  rw [self_update]
  dsimp only
  split_ifs with hbuilt
  · exact .unscheduled hnext
  · exact .scheduled hnext (Ne.symm hbuilt)
  · exact .unscheduled hnext

theorem change_of_run_step (hnext : Next w.stage s next) :
    Change w (run_step w report s next) := by
  cases s with
  | gate =>
    rw [run_step]
    split_ifs with hsucceeds hgate
    · exact .opened hnext hgate
    · obtain ⟨-, hrest⟩ | ⟨-, hrest⟩ := hnext
      · exact .closed hrest
      · exact .closed hrest
    · exact .ran hnext (by decide) (fun _ => rfl) (fun h => nomatch h)
  | selfupdate =>
    rw [run_step]
    split_ifs
    · exact change_of_self_update hnext
    · exact .unscheduled hnext
  | verifySelf =>
    refine .ran hnext (by decide) (fun h => nomatch h) fun _ hgood => ?_
    simpa using (Bool.and_eq_true_iff.mp hgood).2
  | _ => exact .ran hnext (by decide) (fun h => nomatch h) (fun h => nomatch h)

theorem change_of_happen {e : Event} (he : ∀ system, e ≠ .upgrades system)
    (h : happen w e = some w') : Change w w' := by
  cases e with
  | upgrades system => exact absurd rfl (he system)
  | step report =>
    rw [happen] at h
    cases hstage : w.stage with rw [hstage] at h
    | pre rest =>
      cases rest with
      | nil =>
        obtain rfl := Option.some.inj h
        have hfrom : w.stage.Going := by rw [hstage]; exact fun _ => nofun
        refine .goes hfrom ?_ ?_
        · split_ifs <;> exact fun _ => nofun
        · rw [hstage]
          split_ifs <;> rfl
      | cons s rest =>
        dsimp only at h
        split_ifs at h
        obtain rfl := Option.some.inj h
        exact change_of_run_step (.inl ⟨fun _ => nofun, by rw [hstage]; rfl⟩)
    | post rest =>
      cases rest with
      | nil => exact nomatch h
      | cons s rest =>
        dsimp only at h
        split_ifs at h with _ hend
        · obtain rfl := Option.some.inj h
          exact change_of_run_step (.inr ⟨rfl, by rw [hstage, hend]; rfl⟩)
        · obtain rfl := Option.some.inj h
          exact change_of_run_step (.inl ⟨fun _ => nofun, by rw [hstage]; rfl⟩)
    | await => exact nomatch h
    | queued => exact nomatch h
    | ended green => exact nomatch h
  | watched succeeds =>
    rw [happen] at h
    split at h
    case h_1 hstage =>
      have hfrom : w.stage.Going := by rw [hstage]; exact fun _ => nofun
      obtain rfl := Option.some.inj h
      cases succeeds with
      | true => exact .goes hfrom (fun _ => nofun) (by rw [hstage]; rfl)
      | false => exact .lost hfrom
    case h_2 => exact nomatch h
  | taken =>
    rw [happen] at h
    split at h
    case h_1 hstage =>
      split_ifs at h
      obtain rfl := Option.some.inj h
      exact .goes (by rw [hstage]; exact fun _ => nofun) (fun _ => nofun) (by rw [hstage]; rfl)
    case h_2 => exact nomatch h
  | lost =>
    rw [happen] at h
    split at h
    case h_1 => exact nomatch h
    case h_2 hgoing =>
      obtain rfl := Option.some.inj h
      exact .lost hgoing
  | delayOver stops =>
    rw [happen] at h
    split at h
    case h_1 hunit =>
      obtain rfl := Option.some.inj h
      refine .delayOver hunit ?_
      cases stops with
      | false => exact .inl rfl
      | true =>
        -- stopping the runner ends the job that is on the node
        cases hstage : w.stage with
        | pre rest => exact .inr ⟨fun _ => nofun, rfl⟩
        | post rest => exact .inr ⟨fun _ => nofun, rfl⟩
        | await => exact .inl rfl
        | queued => exact .inl rfl
        | ended green => exact .inl rfl
    case h_2 => exact nomatch h
  | activates system =>
    rw [happen] at h
    split at h
    case h_1 hunit =>
      obtain rfl := Option.some.inj h
      exact .activates hunit
    case h_2 => exact nomatch h
  | switchOver =>
    rw [happen] at h
    split at h
    case h_3 => exact nomatch h
    all_goals
      rename_i hunit
      obtain rfl := Option.some.inj h
      exact .onward ⟨by decide, by decide⟩ (by rw [hunit]; decide)
  | runnerUp =>
    rw [happen] at h
    split at h
    case h_3 => exact nomatch h
    all_goals
      rename_i hunit
      obtain rfl := Option.some.inj h
      exact .onward ⟨by rw [hunit]; decide, by rw [hunit]; decide⟩
        (by rw [hunit]; decide)
  | unitOver =>
    rw [happen] at h
    split at h
    case h_1 hunit =>
      obtain rfl := Option.some.inj h
      exact .onward ⟨by decide, by decide⟩ (by rw [hunit]; decide)
    case h_2 => exact nomatch h

end Changes

/-! ### The phases -/

/-- A step that has run has succeeded, or its failure is not looked at. -/
def Passed (p : Step × Bool) : Prop := (p.2 || p.1.bestEffort) = true

/-- Where a deploy is in its phases. -/
inductive Placed (stage : Stage) (log : List (Step × Bool)) : Prop where
  | going (hstage : stage.Going) (hlog : log.map Prod.fst ++ stage.rest = pipeline)
      (hpassed : ∀ p ∈ log, Passed p)
  | failed (hstage : stage = .ended false) (hlog : log.map Prod.fst <+: pipeline)
      (hpassed : ∀ p ∈ log.dropLast, Passed p)
  /-- The gate has sent it home. -/
  | closed (hstage : stage = .ended true) (hlog : log.map Prod.fst = [.checkout, .gate])
      (hpassed : ∀ p ∈ log, Passed p)
  | green (hstage : stage = .ended true) (hlog : log.map Prod.fst = pipeline)
      (hpassed : ∀ p ∈ log, Passed p)

section Placed

variable {w w' : World} {s : Step} {good : Bool} {stage next : Stage} {log : List (Step × Bool)}

theorem Placed.log_prefix (h : Placed stage log) : log.map Prod.fst <+: pipeline := by
  cases h with
  | going _ hlog => exact ⟨_, hlog⟩
  | failed _ hlog => exact hlog
  | closed _ hlog => exact hlog ▸ ⟨_, rfl⟩
  | green _ hlog => exact hlog ▸ List.prefix_rfl

theorem Placed.passed (h : Placed stage log) : ∀ p ∈ log.dropLast, Passed p := by
  cases h with
  | failed _ _ hpassed => exact hpassed
  | going _ _ hpassed | closed _ _ hpassed | green _ _ hpassed =>
    exact fun p hp => hpassed p (List.dropLast_subset _ hp)

theorem Placed.of_going (h : Placed stage log) (hgoing : stage.Going) :
    log.map Prod.fst ++ stage.rest = pipeline ∧ ∀ p ∈ log, Passed p := by
  cases h with
  | going _ hlog hpassed => exact ⟨hlog, hpassed⟩
  | failed hstage | closed hstage | green hstage => exact absurd hstage (hgoing _)

/-- A stage with steps to come goes on. -/
theorem going_of_rest {rest : List Step} (h : stage.rest = s :: rest) : stage.Going := by
  rintro green rfl
  exact nomatch h

theorem Next.rest (h : Next stage s next) : stage.rest = s :: next.rest := by
  obtain ⟨-, hrest⟩ | ⟨rfl, hrest⟩ := h
  · exact hrest
  · exact hrest

/-- The steps that have run before one. -/
theorem log_of_rest (h : Placed stage log) {rest : List Step} (hrest : stage.rest = s :: rest) :
    log.map Prod.fst = pipeline.takeWhile (· ≠ s) := by
  have hlog := (h.of_going (going_of_rest hrest)).1
  rw [hrest] at hlog
  have hnodup : (log.map Prod.fst ++ s :: rest).Nodup := hlog ▸ (by decide)
  have hnot : ∀ s' ∈ log.map Prod.fst, decide (s' ≠ s) = true := by
    intro s' hs'
    have hne := (List.nodup_append.mp hnodup).2.2 s' hs' s List.mem_cons_self
    simpa using hne
  rw [← hlog, List.takeWhile_append_of_pos hnot]
  simp

theorem passed_concat (h : ∀ p ∈ log, Passed p) (hgood : (good || s.bestEffort) = true) :
    ∀ p ∈ log ++ [(s, good)], Passed p := by
  intro p hp
  obtain hp | hp := List.mem_append.mp hp
  · exact h p hp
  · obtain rfl := List.mem_singleton.mp hp
    exact hgood

theorem map_concat (log : List (Step × Bool)) (s : Step) (good : Bool) :
    (log ++ [(s, good)]).map Prod.fst = log.map Prod.fst ++ [s] := by
  simp

/-- A step that has run brings a deploy one place on, or ends it. -/
theorem placed_ran (h : Placed stage log) (hnext : Next stage s next) :
    Placed (if good || s.bestEffort then next else .ended false) (log ++ [(s, good)]) := by
  obtain ⟨hplace, hpassed⟩ := h.of_going (going_of_rest hnext.rest)
  have hlog : (log ++ [(s, good)]).map Prod.fst ++ next.rest = pipeline := by
    rw [map_concat, List.append_assoc, ← hplace, hnext.rest]
    rfl
  by_cases hgood : (good || s.bestEffort) = true
  · rw [if_pos hgood]
    obtain ⟨hgoing, -⟩ | ⟨rfl, -⟩ := hnext
    · exact .going hgoing hlog (passed_concat hpassed hgood)
    · exact .green rfl ((List.append_nil _).symm.trans hlog) (passed_concat hpassed hgood)
  · rw [if_neg hgood]
    exact .failed rfl ⟨_, hlog⟩ (by rwa [List.dropLast_concat])

theorem placed_change (h : Placed w.stage w.log) (hchange : Change w w') :
    Placed w'.stage w'.log := by
  cases hchange with
  | ran hnext => exact placed_ran h hnext
  | opened hnext =>
    exact (placed_ran h hnext : Placed (if true || _ then _ else _) (w.log ++ [(_, true)]))
  | unscheduled hnext => exact placed_ran h hnext
  | scheduled hnext => exact (placed_ran h hnext : Placed (if true || _ then _ else _) (w.log ++ [(_, true)]))
  | closed hrest =>
    refine .closed rfl ?_ (passed_concat (h.of_going (going_of_rest hrest)).2 rfl)
    rw [World.ran, map_concat, log_of_rest h hrest]
    rfl
  | goes hfrom hgoing hrest =>
    obtain ⟨hplace, hpassed⟩ := h.of_going hfrom
    exact .going hgoing (by rw [← hplace, ← hrest]) hpassed
  | lost => exact .failed rfl h.log_prefix h.passed
  | delayOver _ hnext =>
    obtain rfl | ⟨-, rfl⟩ := hnext
    · exact h
    · exact .failed rfl h.log_prefix h.passed
  | activates | onward => exact h

/-- A deploy that has run a step after the gate has passed it. -/
structure Opens (w : World) : Prop where
  going : w.stage.Going → .gate ∈ w.log.map Prod.fst → Opened w
  ran : ∀ s ∈ w.log.map Prod.fst, s ∈ pipeline.drop 2 → Opened w

theorem gate_before : ∀ s ∈ pipeline.drop 2, .gate ∈ pipeline.takeWhile (· ≠ s) := by
  decide

/-- A step that is not the gate has run. -/
theorem opens_ran (hplaced : Placed w.stage w.log) (h : Opens w) (hs : s ≠ .gate) {rest : List Step}
    (hrest : w.stage.rest = s :: rest) (hlog : w'.log = w.log) (hopened : Opened w → Opened w') :
    Opens (w'.ran s good next) := by
  have hgoing := going_of_rest hrest
  have hmap : (w'.ran s good next).log.map Prod.fst = w.log.map Prod.fst ++ [s] := by
    rw [World.ran, map_concat, hlog]
  constructor
  · intro _ hmem
    rw [hmap, List.mem_append, List.mem_singleton] at hmem
    exact hopened (h.going hgoing (hmem.resolve_right fun he => hs he.symm))
  · intro s' hs' hafter
    rw [hmap, List.mem_append, List.mem_singleton] at hs'
    obtain hs' | rfl := hs'
    · exact hopened (h.ran s' hs' hafter)
    · -- the gate has run before
      refine hopened (h.going hgoing ?_)
      rw [log_of_rest hplaced hrest]
      exact gate_before s' hafter

/-- The gate has run: no step after it has. -/
theorem opens_gate (hplaced : Placed w.stage w.log) {rest : List Step}
    (hrest : w.stage.rest = .gate :: rest) (hlog : w'.log = w.log)
    (hgate : good = true → next.Going → Opened w') : Opens (w'.ran .gate good next) := by
  have hmap : (w'.ran .gate good next).log.map Prod.fst = [.checkout, .gate] := by
    rw [World.ran, map_concat, hlog, log_of_rest hplaced hrest]
    rfl
  constructor
  · intro hstage _
    cases good with
    | true => exact hgate rfl hstage
    | false => exact absurd rfl (hstage false)
  · intro s' hs' hafter
    have hnone : ∀ s ∈ [Step.checkout, .gate], s ∉ pipeline.drop 2 := by decide
    rw [hmap] at hs'
    exact absurd hafter (hnone s' hs')

theorem opens_change (hplaced : Placed w.stage w.log) (h : Opens w) (hchange : Change w w') :
    Opens w' := by
  cases hchange with
  | @ran s good next hnext _ hgate =>
    by_cases hs : s = .gate
    · subst hs
      refine opens_gate hplaced hnext.rest rfl fun hgood => ?_
      rw [hgate rfl] at hgood
      cases hgood
    · exact opens_ran hplaced h hs hnext.rest rfl id
  | opened hnext hgate => exact opens_gate hplaced hnext.rest rfl fun _ _ => ⟨_, _, rfl, hgate⟩
  | closed hrest => exact opens_gate hplaced hrest rfl fun _ hgoing => absurd rfl (hgoing true)
  | unscheduled hnext => exact opens_ran hplaced h (by decide) hnext.rest rfl id
  | scheduled hnext => exact opens_ran hplaced h (by decide) hnext.rest rfl id
  | goes hfrom => exact ⟨fun _ => h.going hfrom, h.ran⟩
  | lost => exact ⟨fun hgoing => absurd rfl (hgoing false), h.ran⟩
  | delayOver _ hnext =>
    refine ⟨fun hgoing => ?_, h.ran⟩
    obtain rfl | ⟨-, rfl⟩ := hnext
    · exact h.going hgoing
    · exact absurd rfl (hgoing false)
  | activates | onward => exact ⟨h.going, h.ran⟩

/-- Whatever happens, a deploy keeps to its phases. -/
theorem placed_happen {e : Event} (hplaced : Placed w.stage w.log) (h : Opens w)
    (hstep : happen w e = some w') : Placed w'.stage w'.log ∧ Opens w' := by
  by_cases he : ∃ system, e = .upgrades system
  · obtain ⟨system, rfl⟩ := he
    obtain rfl := Option.some.inj hstep
    exact ⟨hplaced, h.going, h.ran⟩
  · have hchange := change_of_happen (fun system hsystem => he ⟨system, hsystem⟩) hstep
    exact ⟨placed_change hplaced hchange, opens_change hplaced h hchange⟩

theorem placed_initial (trigger : DeployGate.Trigger) (current : String) :
    Placed (World.initial trigger current).stage (World.initial trigger current).log :=
  .going (fun _ => nofun) rfl fun _ hp => nomatch hp

theorem opens_initial (trigger : DeployGate.Trigger) (current : String) :
    Opens (.initial trigger current) :=
  ⟨(fun _ hs => nomatch hs), fun _ hs => nomatch hs⟩

end Placed

/-- **Phases.**  The steps run in their order, each after the ones before it have succeeded or are
not to be relied on; none of them runs after the gate unless it has passed on what it was shown.  A
deploy that is green has run all of them, unless the gate has sent it home. -/
theorem deploy_in_phases {trigger : DeployGate.Trigger} {current : String} {events : List Event}
    {w : World} (h : happens happen (.initial trigger current) events = some w) :
    w.log.map Prod.fst <+: pipeline ∧ (∀ p ∈ w.log.dropLast, Passed p) ∧
      (∀ s ∈ w.log.map Prod.fst, s ∈ pipeline.drop 2 → Opened w) ∧
      (w.stage = .ended true → (∀ p ∈ w.log, Passed p) ∧
        (w.log.map Prod.fst = [.checkout, .gate] ∨ w.log.map Prod.fst = pipeline)) := by
  obtain ⟨hplaced, hopens⟩ : Placed w.stage w.log ∧ Opens w :=
    happens_keeps (I := fun w => Placed w.stage w.log ∧ Opens w)
      (fun hI hstep => placed_happen hI.1 hI.2 hstep)
      ⟨placed_initial trigger current, opens_initial trigger current⟩ h
  refine ⟨hplaced.log_prefix, hplaced.passed, hopens.ran, fun hgreen => ?_⟩
  cases hplaced with
  | going hstage => exact absurd hgreen (hstage true)
  | failed hstage =>
    rw [hgreen] at hstage
    exact nomatch hstage
  | closed _ hlog hpassed => exact ⟨hpassed, .inl hlog⟩
  | green _ hlog hpassed => exact ⟨hpassed, .inr hlog⟩

/-! ### The control node -/

/-- What the unit is at, next to the system that runs and the one that was built. -/
structure Settled (w : World) : Prop where
  before : .selfupdate ∉ w.log.map Prod.fst → w.unit = .idle
  pending : w.unit = .delay ∨ w.unit = .switching → w.current ≠ w.target
  verified : (.verifySelf, true) ∈ w.log → w.current = w.target

section Settled

variable {w w' : World} {s : Step} {good : Bool} {next : Stage}

theorem settled_ran (h : Settled w)
    (hverify : s = .verifySelf → good = true → w.current = w.target) :
    Settled (w.ran s good next) where
  before hnot := by
    refine h.before fun hmem => hnot ?_
    rw [World.ran, map_concat]
    exact List.mem_append_left _ hmem
  pending := h.pending
  verified hmem := by
    obtain hmem | hmem := List.mem_append.mp hmem
    · exact h.verified hmem
    · obtain ⟨rfl, rfl⟩ := Prod.mk.inj (List.mem_singleton.mp hmem)
      exact hverify rfl rfl

/-- Before the first job has come to its end, nothing is scheduled. -/
theorem before_selfupdate (hplaced : Placed w.stage w.log) (h : Settled w)
    (hnext : Next w.stage .selfupdate next) :
    w.unit = .idle ∧ (.verifySelf, true) ∉ w.log := by
  have hlog := log_of_rest hplaced hnext.rest
  refine ⟨h.before ?_, fun hmem => ?_⟩
  · rw [hlog]
    decide
  · have hmem := List.mem_map_of_mem (f := Prod.fst) hmem
    rw [hlog] at hmem
    revert hmem
    decide

theorem selfupdate_ran : .selfupdate ∈ (w.ran .selfupdate good next).log.map Prod.fst := by
  rw [World.ran, map_concat]
  exact List.mem_append_right _ (List.mem_singleton_self _)

theorem settled_change (hplaced : Placed w.stage w.log) (h : Settled w) (hchange : Change w w') :
    Settled w' := by
  cases hchange with
  | ran _ _ _ hverify => exact settled_ran h hverify
  | opened => exact settled_ran ⟨h.before, h.pending, h.verified⟩ fun hs => nomatch hs
  | closed => exact settled_ran ⟨h.before, h.pending, h.verified⟩ fun hs => nomatch hs
  | unscheduled hnext =>
    obtain ⟨hidle, hnot⟩ := before_selfupdate hplaced h hnext
    refine ⟨fun hbefore => hidle, fun hpending => ?_, fun hmem => ?_⟩
    · obtain hunit | hunit := hpending
      all_goals
        exact nomatch hidle.symm.trans hunit
    · obtain hmem | hmem := List.mem_append.mp hmem
      · exact absurd hmem hnot
      · exact nomatch List.mem_singleton.mp hmem
  | scheduled hnext hne =>
    obtain ⟨-, hnot⟩ := before_selfupdate hplaced h hnext
    refine ⟨fun hbefore => absurd selfupdate_ran hbefore, fun _ => hne, fun hmem => ?_⟩
    obtain hmem | hmem := List.mem_append.mp hmem
    · exact absurd hmem hnot
    · exact nomatch List.mem_singleton.mp hmem
  | goes => exact ⟨h.before, h.pending, h.verified⟩
  | lost => exact ⟨h.before, h.pending, h.verified⟩
  | delayOver hunit =>
    refine ⟨fun hbefore => ?_, fun _ => h.pending (.inl hunit), h.verified⟩
    exact nomatch hunit.symm.trans (h.before hbefore)
  | activates hunit =>
    refine ⟨(fun hbefore => nomatch hunit.symm.trans (h.before hbefore)), fun hpending => ?_,
      fun hmem => absurd (h.verified hmem) (h.pending (.inr hunit))⟩
    obtain hpending | hpending := hpending <;> exact nomatch hpending
  | onward hunit hfrom =>
    refine ⟨fun hbefore => absurd (h.before hbefore) hfrom, fun hpending => ?_, h.verified⟩
    obtain hpending | hpending := hpending
    · exact absurd hpending hunit.1
    · exact absurd hpending hunit.2

theorem settled_initial (trigger : DeployGate.Trigger) (current : String) :
    Settled (.initial trigger current) := by
  refine ⟨fun _ => rfl, fun hpending => ?_, fun hmem => nomatch hmem⟩
  obtain hpending | hpending := hpending <;> exact nomatch hpending

theorem verify_before : ∀ n ≤ pipeline.length, ∀ s ∈ pipeline.take n, s ∈ deploy_post.drop 2 →
    .verifySelf ∈ (pipeline.take n).dropLast := by
  decide

/-- A phase of the last job comes after the systems were compared. -/
theorem verified_of_phase (h : Placed w.stage w.log) (hs : s ∈ w.log.map Prod.fst)
    (hphase : s ∈ deploy_post.drop 2) : (.verifySelf, true) ∈ w.log := by
  have hbefore : .verifySelf ∈ (w.log.map Prod.fst).dropLast := by
    rw [List.prefix_iff_eq_take.mp h.log_prefix] at hs ⊢
    exact verify_before _ h.log_prefix.length_le s hs hphase
  rw [← List.map_dropLast] at hbefore
  obtain ⟨⟨s', good⟩, hmem, rfl⟩ := List.mem_map.mp hbefore
  have hgood : good = true := by simpa [Passed, Step.bestEffort] using h.passed _ hmem
  rw [hgood] at hmem
  exact List.dropLast_subset _ hmem

end Settled

/-- **The control node.**  Whatever the watcher has seen, and whatever the unit does meanwhile: once
the last job has run a phase, the node runs the system that the first job has built, and goes on to,
as long as it is not upgraded by itself; and no switch of the deploy is to come that would stop its
runner. -/
theorem deploys_on_target {trigger : DeployGate.Trigger} {current : String} {events : List Event}
    {w : World} (h : happens happen (.initial trigger current) events = some w)
    (hupgrade : ∀ system, .upgrades system ∉ events) :
    ∀ s ∈ w.log.map Prod.fst, s ∈ deploy_post.drop 2 →
      w.current = w.target ∧ w.unit ≠ .delay ∧ w.unit ≠ .switching := by
  obtain ⟨hplaced, hsettled⟩ : Placed w.stage w.log ∧ Settled w :=
    happens_keeps_of (I := fun w => Placed w.stage w.log ∧ Settled w)
      (P := fun e => ∀ system, e ≠ Event.upgrades system)
      (fun he hI hstep => ⟨placed_change hI.1 (change_of_happen he hstep),
        settled_change hI.1 hI.2 (change_of_happen he hstep)⟩)
      (by rintro e he system rfl; exact hupgrade system he)
      ⟨placed_initial trigger current, settled_initial trigger current⟩ h
  intro s hs hphase
  have hcurrent := hsettled.verified (verified_of_phase hplaced hs hphase)
  exact ⟨hcurrent, fun hunit => hsettled.pending (.inl hunit) hcurrent,
    fun hunit => hsettled.pending (.inr hunit) hcurrent⟩

/-- A deploy that updates its node, whose switch goes on beside the last job. -/
def updating : List Event :=
  [.step {}, .step { head := "c", api := DeployGate.allPassed "c" }, .step {}, .step {}, .step {},
    .step { built := "new" }, .step {}, .delayOver true, .activates "new", .runnerUp, .watched true,
    .taken, .step {}, .step {}, .step {}, .step { succeeds := false }, .switchOver]

/-- Its second phase has failed, and it goes on. -/
theorem deploy_in_phases_updating : ∃ w,
    happens happen (.initial (.workflow_dispatch "c") "old") updating = some w ∧
      (.golden, false) ∈ w.log ∧ w.log.map Prod.fst <+: pipeline ∧ Opened w := by
  obtain ⟨w, hw, hmem⟩ : ∃ w,
      happens happen (.initial (.workflow_dispatch "c") "old") updating = some w ∧
        (.golden, false) ∈ w.log := ⟨_, rfl, by decide⟩
  obtain ⟨hphases, -, hopened, -⟩ := deploy_in_phases hw
  exact ⟨w, hw, hmem, hphases, hopened .golden (List.mem_map_of_mem hmem) (by decide)⟩

theorem deploys_on_target_updating : ∃ w,
    happens happen (.initial (.workflow_dispatch "c") "old") updating = some w ∧
      w.target = "new" ∧ w.current = w.target ∧ w.unit ≠ .delay := by
  obtain ⟨w, hw, htarget, hmem⟩ : ∃ w,
      happens happen (.initial (.workflow_dispatch "c") "old") updating = some w ∧
        w.target = "new" ∧ .systems ∈ w.log.map Prod.fst := ⟨_, rfl, rfl, by decide⟩
  obtain ⟨hcurrent, hunit, -⟩ := deploys_on_target hw (by simp [updating]) .systems hmem (by decide)
  exact ⟨w, hw, htarget, hcurrent, hunit⟩

end DeployPipeline
