/-
apply_security: what a run of `firewall-profile` does.

A run changes nothing until it has read the profile, found a difference and passed the
guard; from there on it has sent the target to `Profile.set`, and what it leaves depends on
where a request fails.

* `PushEnds` — what a run leaves that has sent its target;
* `Ends` — how a run ends, one constructor a way;
* `run_ends`, `run_invalid` — every run ends in one of these ways.
-/
import KrgInfra.FirewallProfile

namespace ApplySecurity

section Ends

variable (env : FirewallEnv)

/-- The task has copied the profile by the end of the polls. -/
def poll_copies : ℕ → ℕ → Bool
  | 0, _ => false
  | n + 1, j =>
    ((env.outcome (.applyStatus j)).takes && (env.finish j || env.copies j)) ||
      (env.outcome (.applyStatus j) = .ok && !env.finish j && poll_copies n (j + 1))

/-- `Profile.Apply` copies the saved profile to the running firewall. -/
def apply_copies : Bool :=
  env.outcome .applyStart = .ok && env.task && poll_copies env env.polls 0

/-- The running firewall takes over the profile that is saved. -/
def FirewallWorld.activated (w : FirewallWorld) : FirewallWorld := { w with running := w.stored }

/-- The target is saved. -/
def FirewallWorld.saved (w : FirewallWorld) (target : Members) : FirewallWorld :=
  { w with stored := target, sets := w.sets ++ [target] }

/-- How a run ends that has sent its target: `Profile.set` fails without its effect, or with
it, or the target is saved and then activated or not. -/
inductive PushEnds (args : Args) (target : Members) (w : FirewallWorld) :
    ℕ → FirewallWorld → Prop
  | unsaved (h : (env.outcome .profileSet).takes = false) :
    PushEnds args target w 1 { w with sets := w.sets ++ [target] }
  | saved (h : (env.outcome .profileSet).takes = true) (hset : env.outcome .profileSet ≠ .ok) :
    PushEnds args target w 1 (w.saved target)
  | activated (h : env.outcome .profileSet = .ok) (happly : args.apply = true)
      (hcopies : apply_copies env = true) (rc : ℕ) :
    PushEnds args target w rc (w.saved target).activated
  | unactivated (h : env.outcome .profileSet = .ok) (happly : args.apply = true)
      (hcopies : apply_copies env = false) :
    PushEnds args target w 1 (w.saved target)
  | notAsked (h : env.outcome .profileSet = .ok) (happly : args.apply = false) :
    PushEnds args target w 0 (w.saved target)

/-- The profile can be read. -/
def Reads : Prop := env.outcome .login = .ok ∧ env.outcome .profileGet = .ok

/-- The declared adapters that a run finds to be different. -/
def driftFor (args : Args) (desired current : Members) : List String :=
  drift_of current (merged args.profileName current desired) desired

/-- What the guard says to a run. -/
def guardFor (args : Args) (desired current : Members) : Except Failure Bool :=
  locked_out (merged args.profileName current desired) desired

/-- How a run ends. -/
inductive Ends (args : Args) (desired : Members) (w : FirewallWorld) : ℕ → FirewallWorld → Prop
  | unread (h : ¬ Reads env) : Ends args desired w 1 w
  | noChange (h : Reads env) (hdrift : driftFor args desired w.stored = []) :
    Ends args desired w 0 w
  | refused (h : Reads env) (hdrift : driftFor args desired w.stored ≠ [])
      (hguard : guardFor args desired w.stored ≠ .ok false) : Ends args desired w 1 w
  | checked (h : Reads env) (hdrift : driftFor args desired w.stored ≠ [])
      (hguard : guardFor args desired w.stored = .ok false) (hcheck : args.check = true) :
    Ends args desired w 0 w
  | pushed (h : Reads env) (hdrift : driftFor args desired w.stored ≠ [])
      (hguard : guardFor args desired w.stored = .ok false) (hcheck : args.check = false)
      {rc : ℕ} {w' : FirewallWorld}
      (hpush : PushEnds env args (merged args.profileName w.stored desired) w rc w') :
    Ends args desired w rc w'

end Ends

section Rules

variable {env : FirewallEnv} {args : Args} {w : FirewallWorld}

/-- A request that leaves the world as it is. -/
theorem quiet_rule {α : Type} {i : Site} {f : FirewallWorld → α} :
    Triple (fun _ => True) (· = w) (call env.toEnv i (.query fun w => .ok (f w)))
      (fun a w' => env.outcome i = .ok ∧ a = f w ∧ w' = w)
      (fun _ w' => env.outcome i ≠ .ok ∧ w' = w) := by
  refine (Triple.call_at rfl).conseq (fun _ _ h => h) ?_ ?_
  · rintro a w' - ⟨ho, hact⟩
    have hact : (Except.ok (f w), w) = (.ok a, w') := hact
    rw [Prod.mk.injEq, Except.ok.injEq] at hact
    exact ⟨ho, hact.1.symm, hact.2.symm⟩
  · rintro e w' - (⟨-, hact⟩ | ⟨done, ho, hw'⟩)
    · exact nomatch (Prod.mk.inj hact).1
    · have ho : env.outcome i = .raise e done := ho
      refine ⟨by simp [ho], ?_⟩
      rw [hw']
      cases done <;> rfl

/-- The polls: the firewall has taken over what is saved exactly if the task has copied it by
then, and where they end without an error it has. -/
theorem poll_loop_rule : ∀ n j (w : FirewallWorld),
    Triple (fun _ => True) (· = w) (poll_loop env n j)
      (fun _ w' => poll_copies env n j = true ∧ w' = w.activated)
      (fun _ w' => w' = if poll_copies env n j then w.activated else w) := by
  intro n
  induction n with
  | zero => exact fun j w => Triple.throw fun _ _ h => h
  | succ n ih =>
    intro j w
    refine Triple.bind (Q := fun finish w' => env.outcome (.applyStatus j) = .ok ∧
      finish = env.finish j ∧ w' = if env.finish j ∨ env.copies j then w.activated else w)
      ((Triple.call_at rfl).conseq (fun _ _ h => h) ?_ ?_) fun finish => ?_
    · rintro finish w' - ⟨ho, hact⟩
      rw [Prod.mk.injEq, Except.ok.injEq] at hact
      exact ⟨ho, hact.1.symm, hact.2.symm⟩
    · rintro e w' - (⟨-, hact⟩ | ⟨done, ho, hw'⟩)
      · exact nomatch (Prod.mk.inj hact).1
      · have ho : env.outcome (.applyStatus j) = .raise e done := ho
        rw [hw', poll_copies, ho]
        cases done with
        | false => simp [Outcome.takes]
        | true => simp [Outcome.takes, FirewallWorld.activated]
    refine Triple.of_fact fun ho => Triple.of_fact fun hfinish => ?_
    rw [hfinish]
    show Triple _ _ (if _ then _ else _) _ _
    by_cases hf : env.finish j = true
    · rw [if_pos hf]
      refine Triple.pure fun w' _ hw' => ⟨by simp [poll_copies, ho, hf, Outcome.takes], ?_⟩
      rw [hw', if_pos (.inl hf)]
    · rw [if_neg hf]
      have hf : env.finish j = false := by simpa using hf
      by_cases hc : env.copies j = true
      · -- copied already: the remaining polls copy the same profile
        have hw : (if env.finish j ∨ env.copies j then w.activated else w) = w.activated := by
          rw [if_pos (.inr hc)]
        have hcopies : poll_copies env (n + 1) j = true := by
          simp [poll_copies, ho, hc, Outcome.takes]
        rw [hw, hcopies]
        refine (ih (j + 1) w.activated).conseq (fun _ _ h => h) ?_ ?_
        · rintro _ w' - ⟨-, rfl⟩
          exact ⟨rfl, rfl⟩
        · rintro _ w' - rfl
          rw [if_pos rfl]
          exact ite_self _
      · have hw : (if env.finish j ∨ env.copies j then w.activated else w) = w := by
          rw [if_neg]
          simp [hf, hc]
        have hcopies : poll_copies env (n + 1) j = poll_copies env n (j + 1) := by
          simp [poll_copies, ho, hf, hc]
        rw [hw, hcopies]
        exact ih (j + 1) w

/-- `Profile.Apply`. -/
theorem profile_apply_rule :
    Triple (fun _ => True) (· = w) (profile_apply env)
      (fun _ w' => apply_copies env = true ∧ w' = w.activated)
      (fun _ w' => w' = if apply_copies env then w.activated else w) := by
  refine Triple.bind (quiet_rule.except ?_) fun task => ?_
  · rintro _ w' - ⟨ho, rfl⟩
    simp [apply_copies, ho]
  refine Triple.of_fact fun ho => Triple.of_fact fun htask => ?_
  rw [htask]
  show Triple _ _ (if _ then _ else _) _ _
  by_cases ht : env.task = true
  · have hcopies : apply_copies env = poll_copies env env.polls 0 := by
      simp [apply_copies, ho, ht]
    have hstop : ∀ w', Triple (fun _ => True) (· = w') (apply_stop env) (fun _ => (· = w'))
        (fun _ => (· = w')) := by
      intro w'
      refine Triple.tryCatch (quiet_rule.conseq (fun _ _ h => h) (fun _ _ _ h => h.2.2)
        fun _ _ _ h => h.2) fun e => ?_
      cases e with
      | dsm => exact Triple.pure fun _ _ h => h
      | other => exact Triple.throw fun _ _ h => h
    rw [if_pos ht, hcopies]
    refine Triple.withFinally (poll_loop_rule env.polls 0 w) (fun _ => ?_) fun _ => hstop _
    refine Triple.of_fact fun hpolls => ?_
    rw [if_pos hpolls]
    exact (hstop _).conseq (fun _ _ h => h) (fun _ _ _ h => ⟨hpolls, h⟩) fun _ _ _ h => h
  · rw [if_neg ht]
    refine Triple.throw fun w' _ h => ?_
    simp [apply_copies, ht, h]

/-- Saving, and activating. -/
theorem push_target_rule {target : Members} {drift : List String} :
    Triple (fun _ => True) (· = w) (push_target env args target drift)
      (fun report w' => PushEnds env args target w report.rc w')
      (fun _ w' => PushEnds env args target w 1 w') := by
  refine Triple.bind (Q := fun _ w' => env.outcome .profileSet = .ok ∧ w' = w.saved target) ?_
    fun _ => ?_
  · refine Triple.bind (Q := fun _ w' => w' = { w with sets := w.sets ++ [target] })
      (Triple.record fun w' _ h => ⟨trivial, by rw [h]⟩) fun _ => ?_
    refine (Triple.call_at rfl).conseq (fun _ _ h => h) ?_ ?_
    · rintro _ w' - ⟨ho, hact⟩
      exact ⟨ho, (Prod.mk.inj hact).2.symm⟩
    · rintro e w' - (⟨-, hact⟩ | ⟨done, ho, hw'⟩)
      · exact nomatch (Prod.mk.inj hact).1
      · have ho : env.outcome .profileSet = .raise e done := ho
        rw [hw']
        cases done with
        | false => exact .unsaved (by rw [ho]; rfl)
        | true => exact .saved (by rw [ho]; rfl) (by simp [ho])
  refine Triple.of_fact fun ho => ?_
  show Triple _ _ (if _ then _ else _) _ _
  by_cases happly : args.apply = true
  · rw [if_pos happly]
    refine Triple.bind (profile_apply_rule.except ?_) fun _ => ?_
    · rintro _ w' - rfl
      by_cases hcopies : apply_copies env = true
      · rw [if_pos hcopies]
        exact .activated ho happly hcopies 1
      · rw [if_neg hcopies]
        exact .unactivated ho happly (by simpa using hcopies)
    · refine Triple.pure fun w' _ h => ?_
      rw [h.2]
      exact .activated ho happly h.1 _
  · rw [if_neg happly]
    refine Triple.pure fun w' _ h => ?_
    rw [h]
    exact .notAsked ho (by simpa using happly)

/-- The command within its session. -/
theorem firewall_session_rule {desired : Members} (hlogin : env.outcome .login = .ok) :
    Triple (fun _ => True) (· = w) (firewall_session env args desired)
      (fun report => Ends env args desired w report.rc) (fun _ => Ends env args desired w 1) := by
  refine Triple.bind (quiet_rule.except ?_) fun current => ?_
  · rintro _ w' - ⟨ho, rfl⟩
    exact .unread fun h => ho h.2
  refine Triple.of_fact fun hget => Triple.of_fact fun hcurrent => ?_
  have hreads : Reads env := ⟨hlogin, hget⟩
  rw [hcurrent]
  by_cases hdrift : driftFor args desired w.stored = []
  · show Triple _ _ (if driftFor args desired w.stored = [] then _ else _) _ _
    rw [if_pos hdrift]
    refine Triple.pure fun w' _ h => ?_
    rw [h]
    exact .noChange hreads hdrift
  · show Triple _ _ (if driftFor args desired w.stored = [] then _ else _) _ _
    rw [if_neg hdrift]
    cases hguard : guardFor args desired w.stored with
    | error e =>
      have hlocked : locked_out (merged args.profileName w.stored desired) desired = .error e :=
        hguard
      rw [hlocked]
      refine Triple.throw fun w' _ h => ?_
      rw [h]
      exact .refused hreads hdrift (by simp [hguard])
    | ok locked =>
      have hlocked : locked_out (merged args.profileName w.stored desired) desired = .ok locked :=
        hguard
      rw [hlocked]
      cases locked with
      | true =>
        refine Triple.pure fun w' _ h => ?_
        rw [h]
        exact .refused hreads hdrift (by simp [hguard])
      | false =>
        show Triple _ _ (if _ then _ else _) _ _
        by_cases hcheck : args.check = true
        · rw [if_pos hcheck]
          refine Triple.pure fun w' _ h => ?_
          rw [h]
          exact .checked hreads hdrift hguard hcheck
        · rw [if_neg hcheck]
          have hcheck : args.check = false := by simpa using hcheck
          exact push_target_rule.conseq (fun _ _ h => h)
            (fun _ _ _ h => .pushed hreads hdrift hguard hcheck h)
            fun _ _ _ h => .pushed hreads hdrift hguard hcheck h

/-- The command, with its session and its error handler. -/
theorem firewall_profile_rule {desired : Members} (hpassword : args.password ≠ "") :
    Triple (fun _ => True) (· = w) (firewall_profile env args desired)
      (fun report => Ends env args desired w report.rc) (fun _ => Ends env args desired w 1) := by
  have hlogout : ∀ P : FirewallWorld → Prop, ∀ E, Triple (fun _ => True) P
      (do let _ ← attempt (call env.toEnv .logout (.query fun _ => .ok ())); return ())
      (fun _ => P) E := by
    intro P E
    refine Triple.bind (Q := fun _ => P) (Triple.attempt ?_) fun _ => Triple.pure fun _ _ h => h
    refine Triple.of_call P (fun _ _ h => ⟨trivial, h⟩) (fun _ _ h => ⟨trivial, h⟩) ?_
    intro e done w' _ _ h
    cases done <;> exact h
  unfold firewall_profile
  rw [if_neg hpassword]
  refine Triple.tryCatch (E := fun _ => Ends env args desired w 1) ?_ fun e => ?_
  · refine Triple.bind (quiet_rule.except ?_) fun _ => ?_
    · rintro _ w' - ⟨ho, rfl⟩
      exact .unread fun h => ho h.1
    refine Triple.of_fact fun hlogin => Triple.of_fact fun _ => ?_
    exact Triple.withFinally (firewall_session_rule hlogin) (fun _ => hlogout _ _)
      fun _ => hlogout _ _
  · cases e with
    | dsm => exact Triple.pure fun _ _ h => h
    | other => exact Triple.throw fun _ _ h => h

variable (env args w) in
/-- A run with an object of declared adapters and a password. -/
theorem run_ends {pairs : Members} (hdesired : args.desired = some (.obj pairs))
    (hpassword : args.password ≠ "") :
    Ends env args (dictOf pairs) w (runFirewall env args w).1 (runFirewall env args w).2 := by
  have h : Triple (fun _ => True) (· = w) (do_firewall_profile env args)
      (fun report => Ends env args (dictOf pairs) w report.rc)
      (fun _ => Ends env args (dictOf pairs) w 1) := by
    unfold do_firewall_profile
    rw [hdesired]
    exact firewall_profile_rule hpassword
  have h := (h.of_start (s := w) trivial rfl).2
  unfold runFirewall
  cases hr : outcomeOf (do_firewall_profile env args) w with
  | mk r t =>
    rw [hr] at h
    cases r with
    | ok report => exact h
    | error e => exact h

variable (env args w) in
/-- A run without these fails, and does nothing. -/
theorem run_invalid (h : args.password = "" ∨ ∀ pairs, args.desired ≠ some (.obj pairs)) :
    (runFirewall env args w).1 = 1 ∧ (runFirewall env args w).2 = w := by
  have h : Triple (fun _ => True) (· = w) (do_firewall_profile env args)
      (fun report w' => report.rc = 1 ∧ w' = w) (fun _ w' => w' = w) := by
    unfold do_firewall_profile
    cases hd : args.desired with
    | none => exact Triple.throw fun _ _ h => h
    | some value =>
      cases value with
      | obj pairs =>
        have hpassword : args.password = "" := h.resolve_right fun h => h pairs hd
        show Triple _ _ (if _ then _ else _) _ _
        rw [if_pos hpassword]
        exact Triple.pure fun _ _ h => ⟨rfl, h⟩
      | null => exact Triple.pure fun _ _ h => ⟨rfl, h⟩
      | bool b => exact Triple.pure fun _ _ h => ⟨rfl, h⟩
      | int n => exact Triple.pure fun _ _ h => ⟨rfl, h⟩
      | float q => exact Triple.pure fun _ _ h => ⟨rfl, h⟩
      | str s => exact Triple.pure fun _ _ h => ⟨rfl, h⟩
      | arr items => exact Triple.pure fun _ _ h => ⟨rfl, h⟩
  have h := (h.of_start (s := w) trivial rfl).2
  unfold runFirewall
  cases hr : outcomeOf (do_firewall_profile env args) w with
  | mk r t =>
    rw [hr] at h
    cases r with
    | ok report => exact h
    | error e => exact ⟨rfl, h⟩

end Rules

end ApplySecurity
