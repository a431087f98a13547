/-
apply_security: a success of `firewall-profile --apply`, and the firewall that runs.

The command compares what is declared with the profile that is saved.  A run that saves its
target and does not get to activate it leaves a profile on target behind a firewall that is
not; the next run finds no difference, and exits 0.

* `Agrees`, `Synced` — a profile on target; one that is running wherever it is saved;
* `CompleteRun` — a run that activates what it saves;
* `firewall_success_is_live` — in a history of complete runs every success is live, and
  after a run that is not complete the next success is not;
* `failed_apply_hidden` — a run whose `Profile.Apply` fails, and the one after it.
-/
import KrgInfra.FirewallRun

namespace ApplySecurity

/-! ### On target -/

/-- The declared adapters of a profile are those that are desired. -/
def Agrees (desired profile : Members) : Prop :=
  ∀ ad ∈ desired.names, Json.pyEq (profile.get ad) (desired.get ad) = true

section Target

variable {args : Args} {desired current : Members}

/-- The target has the declared adapters as they are desired. -/
theorem get_merged (h : desired.names.Nodup) {ad : String} (had : ad ∈ desired.names) :
    (merged args.profileName current desired).get ad = desired.get ad := by
  rw [merged, Members.get, Members.lookup_update h, if_pos had]
  rfl

theorem agrees_merged (h : desired.names.Nodup) :
    Agrees desired (merged args.profileName current desired) := by
  intro ad had
  rw [get_merged h had]
  exact Json.pyEq_refl _

/-- A run finds no difference exactly if the saved profile is on target. -/
theorem driftFor_eq_nil (h : desired.names.Nodup) :
    driftFor args desired current = [] ↔ Agrees desired current := by
  rw [driftFor, drift_of, List.filter_eq_nil_iff]
  constructor
  · intro hdrift ad had
    have had' := hdrift ad had
    rw [get_merged h had] at had'
    simpa using had'
  · intro hagrees ad had
    rw [get_merged h had, hagrees ad had]
    simp

end Target

/-! ### Runs with `--apply` -/

/-- A run with `--apply`. -/
structure ApplyRun where
  env : FirewallEnv
  password : String

/-- The dictionary of declared adapters. -/
def declared (desired : Option Json) : Members :=
  match desired with
  | some (.obj pairs) => dictOf pairs
  | _ => []

theorem nodup_declared (desired : Option Json) : (declared desired).names.Nodup := by
  unfold declared
  split
  · exact nodup_dictOf _
  · exact List.nodup_nil

/-- What is not an object declares nothing. -/
theorem declared_eq_nil {desired : Option Json} (h : ¬ ∃ pairs, desired = some (.obj pairs)) :
    declared desired = [] := by
  unfold declared
  split
  · next pairs => exact absurd ⟨pairs, rfl⟩ h
  · rfl

namespace ApplyRun

variable (profileName : String) (desired : Option Json) (run : ApplyRun)

/-- The arguments of the run. -/
def args : Args :=
  { profileName := profileName, desired := desired, password := run.password, apply := true
    check := false }

/-- The exit status of the run. -/
def status (w : FirewallWorld) : ℕ := (runFirewall run.env (run.args profileName desired) w).1

/-- The world that the run ends in. -/
def final (w : FirewallWorld) : FirewallWorld :=
  (runFirewall run.env (run.args profileName desired) w).2

end ApplyRun

section Live

variable {profileName : String} {desired : Option Json} {run : ApplyRun} {w : FirewallWorld}

/-- The running firewall is on target. -/
def Live (desired : Option Json) (w : FirewallWorld) : Prop := Agrees (declared desired) w.running

/-- If the saved profile is on target, so is the running firewall. -/
def Synced (desired : Option Json) (w : FirewallWorld) : Prop :=
  Agrees (declared desired) w.stored → Live desired w

/-- A run that, where it saves its target, activates it, unless the running firewall is on
target already. -/
def CompleteRun (profileName : String) (desired : Option Json) (run : ApplyRun)
    (w : FirewallWorld) : Prop :=
  run.password ≠ "" → Reads run.env →
    driftFor (run.args profileName desired) (declared desired) w.stored ≠ [] →
      guardFor (run.args profileName desired) (declared desired) w.stored = .ok false →
        (run.env.outcome .profileSet).takes = true →
          (run.env.outcome .profileSet = .ok ∧ apply_copies run.env = true) ∨ Live desired w

/-- How a run ends: with nothing done and status 1, or in one of the ways of a run with
declared adapters. -/
theorem run_cases : (run.status profileName desired w = 1 ∧ run.final profileName desired w = w) ∨
    (run.password ≠ "" ∧ Ends run.env (run.args profileName desired) (declared desired) w
      (run.status profileName desired w) (run.final profileName desired w)) := by
  by_cases hvalid : run.password = "" ∨ ∀ pairs, desired ≠ some (.obj pairs)
  · exact .inl (run_invalid _ _ _ hvalid)
  · rw [not_or, not_forall] at hvalid
    obtain ⟨hpassword, pairs, hpairs⟩ := hvalid
    rw [not_not] at hpairs
    have hdeclared : declared desired = dictOf pairs := by rw [hpairs, declared]
    rw [hdeclared]
    exact .inr ⟨hpassword, run_ends _ _ _ hpairs hpassword⟩

/-- One run: a complete one keeps a synced world synced, and its success is live. -/
theorem complete_run_step (hw : Synced desired w) (h : CompleteRun profileName desired run w) :
    Synced desired (run.final profileName desired w) ∧
      (run.status profileName desired w = 0 → Live desired (run.final profileName desired w)) := by
  have hnodup := nodup_declared desired
  obtain ⟨hstatus, hfinal⟩ | ⟨hpassword, hends⟩ :=
      run_cases (w := w)
  · rw [hstatus, hfinal]
    exact ⟨hw, fun h => absurd h (by decide)⟩
  generalize run.status profileName desired w = rc at hends ⊢
  generalize run.final profileName desired w = w' at hends ⊢
  cases hends with
  | unread => exact ⟨hw, fun h => absurd h (by decide)⟩
  | noChange _ hdrift => exact ⟨hw, fun _ => hw ((driftFor_eq_nil hnodup).mp hdrift)⟩
  | refused => exact ⟨hw, fun h => absurd h (by decide)⟩
  | checked _ _ _ hcheck => exact nomatch hcheck
  | pushed hreads hdrift hguard _ hpush =>
    have hcomplete := h hpassword hreads hdrift hguard
    cases hpush with
    | unsaved => exact ⟨hw, fun h => absurd h (by decide)⟩
    | saved htakes hset =>
      refine ⟨fun _ => ?_, fun h => absurd h (by decide)⟩
      exact (hcomplete htakes).resolve_left fun h => hset h.1
    | activated => exact ⟨fun _ => agrees_merged hnodup, fun _ => agrees_merged hnodup⟩
    | unactivated hset _ hcopies =>
      refine ⟨fun _ => ?_, fun h => absurd h (by decide)⟩
      refine (hcomplete (by rw [hset]; rfl)).resolve_left fun h => ?_
      exact absurd (hcopies.symm.trans h.2) (by decide)
    | notAsked _ happly => exact nomatch happly

/-- A run that is not complete leaves a saved profile on target behind a firewall that is
not. -/
theorem incomplete_run_step (h : ¬ CompleteRun profileName desired run w) :
    ¬ Synced desired (run.final profileName desired w) := by
  have hnodup := nodup_declared desired
  simp only [CompleteRun, Classical.not_imp, not_or, not_and] at h
  obtain ⟨hpassword, hreads, hdrift, hguard, htakes, hactivated, hlive⟩ := h
  obtain ⟨pairs, rfl⟩ : ∃ pairs, desired = some (.obj pairs) := by
    by_contra hne
    refine hdrift ((driftFor_eq_nil hnodup).mpr ?_)
    rw [declared_eq_nil hne]
    exact fun ad had => nomatch had
  have hends := run_ends run.env (run.args profileName (some (.obj pairs))) w rfl hpassword
  have hfinal : (runFirewall run.env (run.args profileName (some (.obj pairs))) w).2 =
      run.final profileName (some (.obj pairs)) w := rfl
  rw [hfinal] at hends
  generalize (runFirewall run.env (run.args profileName (some (.obj pairs))) w).1 = rc at hends
  generalize run.final profileName (some (.obj pairs)) w = w' at hends ⊢
  -- what is left running is what was running before
  have hstale : ∀ w', Agrees (dictOf pairs) w'.stored → w'.running = w.running →
      ¬ Synced (some (.obj pairs)) w' := by
    intro w' hstored hrunning hsynced
    refine hlive ?_
    rw [Live, ← hrunning]
    exact hsynced hstored
  cases hends with
  | unread hno => exact absurd hreads hno
  | noChange _ hnone => exact absurd hnone hdrift
  | refused _ _ hno => exact absurd hguard hno
  | checked _ _ _ hcheck => exact nomatch hcheck
  | pushed _ _ _ _ hpush =>
    cases hpush with
    | unsaved hno => exact absurd (hno.symm.trans htakes) (by decide)
    | saved => exact hstale _ (agrees_merged hnodup) rfl
    | activated hset _ hcopies => exact absurd hcopies (hactivated hset)
    | unactivated => exact hstale _ (agrees_merged hnodup) rfl
    | notAsked _ happly => exact nomatch happly

/-- In a world that is not synced a run that can read the profile exits 0, and leaves the
firewall off target. -/
theorem unsynced_success (hw : ¬ Synced desired w) (hpassword : run.password ≠ "")
    (hreads : Reads run.env) (hobj : ∃ pairs, desired = some (.obj pairs)) :
    run.status profileName desired w = 0 ∧ ¬ Live desired (run.final profileName desired w) := by
  have hnodup := nodup_declared desired
  obtain ⟨hstored, hlive⟩ := Classical.not_imp.mp hw
  obtain ⟨pairs, rfl⟩ := hobj
  have hends := run_ends run.env (run.args profileName (some (.obj pairs))) w rfl hpassword
  show (runFirewall run.env (run.args profileName (some (.obj pairs))) w).1 = 0 ∧
    ¬ Live _ (runFirewall run.env (run.args profileName (some (.obj pairs))) w).2
  generalize (runFirewall run.env (run.args profileName (some (.obj pairs))) w).1 = rc at hends ⊢
  generalize (runFirewall run.env (run.args profileName (some (.obj pairs))) w).2 = w' at hends ⊢
  have hdrift : driftFor (run.args profileName (some (.obj pairs))) (dictOf pairs) w.stored = [] :=
    (driftFor_eq_nil hnodup).mpr hstored
  cases hends with
  | unread hno => exact absurd hreads hno
  | noChange => exact ⟨rfl, hlive⟩
  | refused _ hno => exact absurd hdrift hno
  | checked _ hno => exact absurd hdrift hno
  | pushed _ hno => exact absurd hdrift hno

end Live

/-! ### Histories -/

section Histories

variable (profileName : String) (desired : Option Json)

/-- The world after some runs. -/
def after : FirewallWorld → List ApplyRun → FirewallWorld
  | w, [] => w
  | w, run :: runs => after (run.final profileName desired w) runs

/-- Every run of a history is complete. -/
def CompleteRuns : FirewallWorld → List ApplyRun → Prop
  | _, [] => True
  | w, run :: runs =>
    CompleteRun profileName desired run w ∧ CompleteRuns (run.final profileName desired w) runs

/-- Every run of a history that exits 0 ends with the running firewall on target. -/
def SuccessIsLive (w : FirewallWorld) (runs : List ApplyRun) : Prop :=
  ∀ earlier run later, runs = earlier ++ run :: later →
    run.status profileName desired (after profileName desired w earlier) = 0 →
      Live desired (run.final profileName desired (after profileName desired w earlier))

variable {profileName desired}

/-- **A success is live.**  From a world in which a saved profile that is on target is
running, every success of a history of complete runs is live.  And a run that is not complete
makes the next run that can read the profile a success that is not. -/
theorem firewall_success_is_live (w : FirewallWorld) (hw : Synced desired w) (runs : List ApplyRun)
    (hruns : CompleteRuns profileName desired w runs) :
    SuccessIsLive profileName desired w runs ∧
      ∀ run next : ApplyRun, ¬ CompleteRun profileName desired run (after profileName desired w runs) →
        next.password ≠ "" → Reads next.env →
          ¬ SuccessIsLive profileName desired w (runs ++ [run, next]) := by
  have hafter_append : ∀ (later earlier : List ApplyRun) (w : FirewallWorld),
      after profileName desired w (earlier ++ later) =
        after profileName desired (after profileName desired w earlier) later := by
    intro later earlier
    induction earlier with
    | nil => exact fun _ => rfl
    | cons run earlier ih => exact fun w => ih _
  constructor
  · -- the runs before the one in question have kept the world synced
    have hstep : ∀ (earlier : List ApplyRun) (w : FirewallWorld) (run : ApplyRun)
        (later : List ApplyRun), Synced desired w →
        CompleteRuns profileName desired w (earlier ++ run :: later) →
          run.status profileName desired (after profileName desired w earlier) = 0 →
            Live desired (run.final profileName desired (after profileName desired w earlier)) := by
      intro earlier
      induction earlier with
      | nil => exact fun w run later hw hruns => (complete_run_step hw hruns.1).2
      | cons first earlier ih =>
        exact fun w run later hw hruns =>
          ih _ run later (complete_run_step hw hruns.1).1 hruns.2
    rintro earlier run later rfl
    exact hstep earlier w run later hw hruns
  · intro run next hincomplete hpassword hreads hlive
    have hobj : ∃ pairs, desired = some (.obj pairs) := by
      by_contra hne
      refine incomplete_run_step hincomplete fun _ ad had => ?_
      rw [declared_eq_nil hne] at had
      exact nomatch had
    have hnext : next.status profileName desired _ = 0 ∧ ¬ Live desired _ :=
      unsynced_success (incomplete_run_step hincomplete) hpassword hreads hobj
    have hworld : after profileName desired w (runs ++ [run]) =
        run.final profileName desired (after profileName desired w runs) := by
      rw [hafter_append]
      rfl
    have hsplit : runs ++ [run, next] = (runs ++ [run]) ++ next :: [] := by simp
    have h := hlive (runs ++ [run]) next [] hsplit
    rw [hworld] at h
    exact hnext.2 (h hnext.1)

end Histories

/-! ### An activation that fails -/

/-- A firewall that lets everything through, saved and running. -/
def open_firewall : FirewallWorld where
  stored := [("name", .str "default"), ("global", .obj [("policy", .str "none"), ("rules", .arr [])])]
  running := [("name", .str "default"), ("global", .obj [("policy", .str "none"), ("rules", .arr [])])]

/-- One allow rule for `global`. -/
def one_rule : Option Json :=
  some (.obj [("global", .obj [("policy", .str "none"),
    ("rules", .arr [.obj [("policy", .str "allow"), ("enable", .bool true)]])])])

/-- `Profile.Apply.start` fails; and then nothing fails. -/
def failed_then_fine : List ApplyRun :=
  [⟨{ outcome := fun i => if i = .applyStart then .raise .dsm false else .ok }, "p"⟩, ⟨{}, "p"⟩]

theorem firewall_success_is_live_one :
    SuccessIsLive "default" one_rule open_firewall [⟨{}, "p"⟩] ∧
      ∀ run next : ApplyRun,
        ¬ CompleteRun "default" one_rule run (after "default" one_rule open_firewall [⟨{}, "p"⟩]) →
          next.password ≠ "" → Reads next.env →
            ¬ SuccessIsLive "default" one_rule open_firewall ([⟨{}, "p"⟩] ++ [run, next]) := by
  refine firewall_success_is_live open_firewall (fun h => ?_) [⟨{}, "p"⟩] ⟨?_, trivial⟩
  · exact absurd (h "global" (by decide)) (by decide)
  · exact fun _ _ _ _ _ => .inl ⟨rfl, by decide⟩

/-- The first run fails with the new profile saved, the second exits 0, and the firewall
still runs the old one. -/
theorem failed_apply_hidden :
    ¬ SuccessIsLive "default" one_rule open_firewall failed_then_fine := by
  intro h
  have hlive := h [⟨{ outcome := fun i => if i = .applyStart then .raise .dsm false else .ok }, "p"⟩]
    ⟨{}, "p"⟩ [] rfl (by decide +kernel)
  have hglobal := hlive "global" (by decide)
  exact absurd hglobal (by decide +kernel)

end ApplySecurity
