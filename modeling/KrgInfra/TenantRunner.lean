/-
The runner of a tenant, over the deploys.

When the runner's service starts it compares the registration token with the copy that it made
when it registered.  Where they differ it removes its own state and registers anew, which needs
GitHub.  So a runner that has registered is left to run only as long as no deploy changes its
token.  The service is not of this repository: of it no more is taken than `tenant.nix` says.

* `RunnerService` — the service, and what is said of its start;
* `Registered`, `Step` — a runner that is registered, and what can happen to its instance;
* `registers_once` — it stays registered, without GitHub;
* `runner_heals` — a runner that is not registered is, after a deploy and a start.
-/
import KrgInfra.TenantRun

namespace TenantStaging

/-- The runner's copy of the token that it has registered with. -/
def Instance.current_token (i : Instance) : String :=
  RUNNER_STATE_DIR ++ "/" ++ i.name ++ "/.current-token"

def Tenancy.contentOf (w : Tenancy) (i : Instance) (path : String) : Option String :=
  (w.files i path).map File.content

/-- The runner has registered with the token that is there. -/
structure Registered (w : Tenancy) (i : Instance) : Prop where
  credentials : (w.files i i.credentials).isSome = true
  token : (w.files i REGISTRATION_TOKEN).isSome = true
  current : w.contentOf i i.current_token = w.contentOf i REGISTRATION_TOKEN

/-- The runner's files, on its instance. -/
def Instance.runnerFiles (i : Instance) : List String :=
  [REGISTRATION_TOKEN, i.credentials, i.current_token]

/-- `services.github-runners`: a start of the service, where `up` says whether GitHub answers.  It
diffs the content of the token against its copy; where they agree it leaves its state, and else it
registers with the token. -/
structure RunnerService where
  start : Tenancy → Instance → Bool → Tenancy
  same_token : ∀ w i up token, w.files i REGISTRATION_TOKEN = some token →
    w.contentOf i i.current_token = some token.content →
    ∀ path ∈ i.runnerFiles, (start w i up).files i path = w.files i path
  new_token : ∀ w i token, w.files i REGISTRATION_TOKEN = some token →
    w.contentOf i i.current_token ≠ some token.content → Registered (start w i true) i

/-- The deploy is told that the runner of the instance is registered: GitHub lists it, and both
commands answer. -/
structure Confirming (svc : Services) (env : StagingEnv) (i : Instance) : Prop where
  credentials : env.outcome (.credentials i) = .ok
  registered : env.outcome (.registered i) = .ok
  listed : i.name ∈ (svc.runners (repoOf svc env i)).take 100

/-- What can happen to an instance: a deploy, which may be cut short at any moment, a start of the
runner, and whatever leaves the files of the runner alone. -/
inductive Step (r : RunnerService) (i : Instance) : Tenancy → Tenancy → Prop
  | deploy {svc : Services} {env : StagingEnv} {w w' : Tenancy} (h : Confirming svc env i)
      (hw : w' ∈ (outcomeOf (stage_tenants svc env) w).2.states) : Step r i w w'
  | start {w : Tenancy} (up : Bool) : Step r i w (r.start w i up)
  | other {w w' : Tenancy} (h : ∀ path ∈ i.runnerFiles, w'.files i path = w.files i path) :
      Step r i w w'

section Runner

variable {r : RunnerService} {svc : Services} {env : StagingEnv} {w w' : Tenancy} {i : Instance}

theorem current_token_ne (i : Instance) : i.current_token ≠ ROLE_ID ∧ i.current_token ≠ SECRET_ID ∧
    i.current_token ≠ REGISTRATION_TOKEN := by
  have hchar : i.current_token.toList[9]? = some 'g' := by
    simp [Instance.current_token, RUNNER_STATE_DIR]
  refine ⟨fun h => ?_, fun h => ?_, fun h => ?_⟩
  all_goals
    rw [h] at hchar
    exact absurd hchar (by decide)

theorem Registered.confirmed (hr : Registered w i) (hc : Confirming svc env i) :
    Confirmed svc env w i := by
  refine ⟨ShellEnv.answer_eq_some.mpr ⟨hc.credentials, ?_⟩,
    ShellEnv.answer_eq_some.mpr ⟨hc.registered, ?_⟩⟩
  · rw [has_credentials, if_pos hr.credentials]
  · rw [is_registered, if_pos hc.listed]

/-- A start leaves a registered runner alone. -/
theorem Registered.start (hr : Registered w i) (up : Bool) :
    ∀ path ∈ i.runnerFiles, (r.start w i up).files i path = w.files i path := by
  obtain ⟨token, htoken⟩ := Option.isSome_iff_exists.mp hr.token
  refine r.same_token w i up token htoken ?_
  rw [hr.current, Tenancy.contentOf, htoken, Option.map_some]

/-- A step leaves the files of a registered runner alone. -/
theorem Registered.step (hr : Registered w i) (h : Step r i w w') :
    ∀ path ∈ i.runnerFiles, w'.files i path = w.files i path := by
  cases h with
  | start up => exact hr.start up
  | other h => exact h
  | deploy hc hw =>
    rename_i svc env
    intro path hpath
    refine ((kept_of_run svc env w hw).files i path).resolve_right ?_
    rintro ⟨-, ⟨rfl, -⟩ | ⟨rfl, -⟩ | ⟨-, -, hunconfirmed⟩⟩
    · obtain ⟨h₁, -, -⟩ := credentials_ne i
      obtain ⟨h₂, -, -⟩ := current_token_ne i
      simp [Instance.runnerFiles, h₁.symm, h₂.symm, show ROLE_ID ≠ REGISTRATION_TOKEN by decide]
        at hpath
    · obtain ⟨-, h₁, -⟩ := credentials_ne i
      obtain ⟨-, h₂, -⟩ := current_token_ne i
      simp [Instance.runnerFiles, h₁.symm, h₂.symm, show SECRET_ID ≠ REGISTRATION_TOKEN by decide]
        at hpath
    · exact hunconfirmed (hr.confirmed hc)

theorem Registered.of_files (hr : Registered w i)
    (h : ∀ path ∈ i.runnerFiles, w'.files i path = w.files i path) : Registered w' i := by
  have hfiles := h
  simp only [Instance.runnerFiles, List.forall_mem_cons] at hfiles
  obtain ⟨ht, hc, hcur, -⟩ := hfiles
  refine ⟨?_, ?_, ?_⟩
  · rw [hc]
    exact hr.credentials
  · rw [ht]
    exact hr.token
  · rw [Tenancy.contentOf, hcur, Tenancy.contentOf, ht]
    exact hr.current

end Runner

/-- A runner that has registered keeps its token, its credentials and its copy of the token over
any deploys that are told so, however they end, and over any starts, whether GitHub answers or
not. -/
theorem registers_once (r : RunnerService) {w w' : Tenancy} {i : Instance} (hr : Registered w i)
    (h : Relation.ReflTransGen (Step r i) w w') :
    Registered w' i ∧ ∀ path ∈ i.runnerFiles, w'.files i path = w.files i path := by
  induction h with
  | refl => exact ⟨hr, fun _ _ => rfl⟩
  | tail _ hstep ih =>
    have hkept := ih.1.step hstep
    exact ⟨ih.1.of_files hkept, fun path hpath => (hkept path hpath).trans (ih.2 path hpath)⟩

/-- A runner that a deploy finds in want of a token is registered at its next start, if the commands
on its instance succeed and the token is none that it has registered with before, whatever fails on
the other instances. -/
theorem runner_heals (r : RunnerService) {svc : Services} {env : StagingEnv} {w : Tenancy}
    {i : Instance}
    (hc : Connected env) (hlist : env.outcome .list = .ok) (hi : i ∈ svc.instances)
    (hread : RoleRead svc env i) (hsecret : env.outcome (.secretId i) = .ok)
    (hwant : Tokenable svc env w i)
    (hfresh : ∀ n token, svc.registration (repoOf svc env i) n = some token →
      w.contentOf i i.current_token ≠ some (captured token)) :
    Registered (r.start (outcomeOf (stage_tenants svc env) w).2.now i true) i := by
  obtain ⟨ok, hr, -⟩ := ends_of_run svc env w (.inr hc) hlist i hi
  obtain ⟨token, hsince, -, hfile⟩ := hr.token hread hsecret hwant
  have hkept := kept_of_run svc env w (outcomeOf (stage_tenants svc env) w).2.now_mem
  refine r.new_token _ _ _ hfile ?_
  obtain ⟨n, hn⟩ := hkept.app _ hsince
  obtain ⟨h₁, h₂, h₃⟩ := current_token_ne i
  have hsame : (outcomeOf (stage_tenants svc env) w).2.now.files i i.current_token =
      w.files i i.current_token := by
    obtain h | ⟨-, ⟨h, -⟩ | ⟨h, -⟩ | ⟨h, -⟩⟩ := hkept.files i i.current_token
    · exact h
    · exact absurd h h₁
    · exact absurd h h₂
    · exact absurd h h₃
  rw [Tenancy.contentOf, hsame]
  exact hfresh n token hn

/-! ### A runner -/

/-- The runner's own files, on the instance. -/
def Tenancy.withState (w : Tenancy) (i : Instance) (credentials token : Option File) : Tenancy :=
  { w with files := Function.update w.files i (Function.update (Function.update (w.files i)
      i.credentials credentials) i.current_token token) }

/-- A start that removes the state of the runner before it registers. -/
def restarted (w : Tenancy) (i : Instance) (up : Bool) : Tenancy :=
  match w.files i REGISTRATION_TOKEN with
  | none => w
  | some token =>
    if w.contentOf i i.current_token = some token.content then w
    else if up then w.withState i (some ⟨"", "0600"⟩) (some ⟨token.content, "0600"⟩)
    else w.withState i none none

theorem credentials_ne_current (i : Instance) : i.credentials ≠ i.current_token := by
  intro h
  have := congrArg (fun s => s.toList.reverse.head?) h
  simp [Instance.credentials, Instance.current_token] at this

theorem registered_restarted (w : Tenancy) (i : Instance) (token : File)
    (htoken : w.files i REGISTRATION_TOKEN = some token)
    (hnew : w.contentOf i i.current_token ≠ some token.content) :
    Registered (restarted w i true) i := by
  obtain ⟨-, -, hcred⟩ := credentials_ne i
  obtain ⟨-, -, hcur⟩ := current_token_ne i
  have hstart : restarted w i true =
      w.withState i (some ⟨"", "0600"⟩) (some ⟨token.content, "0600"⟩) := by
    rw [restarted, htoken]
    exact (if_neg hnew).trans (if_pos rfl)
  rw [hstart]
  refine ⟨?_, ?_, ?_⟩
  · simp [Tenancy.withState, Function.update_of_ne (credentials_ne_current i)]
  · simp [Tenancy.withState, Function.update_of_ne hcred.symm, Function.update_of_ne hcur.symm,
      htoken]
  · simp [Tenancy.contentOf, Tenancy.withState, Function.update_of_ne hcred.symm,
      Function.update_of_ne hcur.symm, htoken]

def restarting : RunnerService where
  start := restarted
  same_token w i up token htoken hcontent := by
    rw [restarted, htoken]
    exact fun path _ => congrArg (fun w : Tenancy => w.files i path) (if_pos hcontent)
  new_token := registered_restarted

/-- The runner of the first tenant has registered, and GitHub lists it. -/
def listedTenants : Services := { twoTenants with runners := fun _ => ["maps"] }

def enrolled : Tenancy where
  files _ path := if path = REGISTRATION_TOKEN ∨
    path = Instance.credentials ⟨"maps", "maps"⟩ ∨ path = Instance.current_token ⟨"maps", "maps"⟩
    then some ⟨"t0", "0600"⟩ else none

theorem registers_once_maps :
    Registered (restarting.start (outcomeOf (stage_tenants listedTenants slowBoot) enrolled).2.now
      ⟨"maps", "maps"⟩ false) ⟨"maps", "maps"⟩ :=
  (registers_once restarting ⟨by decide +kernel, by decide +kernel, by decide +kernel⟩
    (.tail (.single (.deploy ⟨rfl, rfl, by decide⟩ (Trace.now_mem _))) (.start false))).1

theorem runner_heals_maps :
    Registered (restarting.start (outcomeOf (stage_tenants twoTenants slowBoot) fresh).2.now
      ⟨"maps", "maps"⟩ true) ⟨"maps", "maps"⟩ := by
  refine runner_heals restarting ⟨.inl rfl, rfl, rfl, rfl, rfl, rfl⟩ rfl (by decide)
    ⟨by decide, rfl, "r-maps", by decide⟩ rfl ⟨by decide +kernel, ?_, rfl, fun _ => ⟨"t1", rfl,
      by decide⟩, rfl⟩ fun n token _ => by simp [Tenancy.contentOf, fresh]
  rintro ⟨h, -⟩
  exact absurd h (by decide +kernel)

end TenantStaging
