/-
apply_security: `firewall-profile`.

The command reads a profile of the DSM firewall, puts the declared adapters over it, and if
that makes a difference saves the profile (`Profile.set`) and activates what is saved
(`Profile.Apply`: start, poll, stop).  Before it saves anything it asks whether the result
would lock the administrators out.

The model keeps one profile: as it is saved, and as the firewall runs it.  What DSM does in
its own time (which poll reports the end, when the running firewall changes, how many polls
fit in the deadline) is up to the environment.  The texts that are printed are left out; a
`Report` says which of them it is.

* `merged`, `drift_of`, `locked_out` — the target, what it changes, and the guard;
* `profile_apply`, `do_firewall_profile`, `runFirewall` — the program.
-/
import KrgInfra.Program
import KrgInfra.Json

namespace ApplySecurity

/-- `DSMError`, and everything else that may be raised. -/
inductive Failure where
  | dsm
  | other
  deriving DecidableEq, Repr

/-- The arguments of `firewall-profile`; `desired` is `none` where it is not JSON, `password`
is that of the argument or of the environment. -/
structure Args where
  profileName : String
  desired : Option Json
  password : String
  apply : Bool
  check : Bool

/-- The requests of a run; `j` numbers the polls. -/
inductive Site where
  | login
  | logout
  | profileGet
  | profileSet
  | applyStart
  | applyStatus (j : ℕ)
  | applyStop
  deriving DecidableEq, Repr

/-- The profile as it is saved, as the firewall runs it, and the profiles that were sent to
`Profile.set`, latest last. -/
structure FirewallWorld where
  stored : Members
  running : Members
  sets : List Members := []

/-- Which requests fail, and what DSM does: whether it gives a task, whether the task has
copied the profile by a poll, whether a poll reports its end, and how many polls there are. -/
structure FirewallEnv where
  outcome : Site → Outcome Failure := fun _ => .ok
  task : Bool := true
  copies : ℕ → Bool := fun _ => true
  finish : ℕ → Bool := fun _ => true
  polls : ℕ := 120

/-- Nobody else changes the profile while the command runs. -/
def FirewallEnv.toEnv (env : FirewallEnv) : Env Site Failure FirewallWorld where
  before _ w := w
  outcome := env.outcome

/-- A part of the command. -/
abbrev Firewall (α : Type) : Type := Program Failure FirewallWorld α

/-- How a run ends that raises nothing. -/
inductive Report where
  | badDesired
  | noPassword
  | failed
  | noChange
  | lockout
  | wouldChange (adapters : List String)
  | changed (adapters : List String)
  | changedNoApply (adapters : List String)
  deriving DecidableEq, Repr

/-- The exit status that goes with a report. -/
def Report.rc : Report → ℕ
  | .badDesired => 1
  | .noPassword => 1
  | .failed => 1
  | .noChange => 0
  | .lockout => 1
  | .wouldChange _ => 0
  | .changed _ => 0
  | .changedNoApply _ => 0

/-! ### The target and the guard -/

/-- The profile with the declared adapters put over it. -/
def merged (profileName : String) (current desired : Members) : Members :=
  (current.set "name" (.str profileName)).update desired

/-- The declared adapters whose block is not that of the target. -/
def drift_of (current target desired : Members) : List String :=
  desired.names.filter fun ad => !Json.pyEq (current.get ad) (target.get ad)

/-- `(block or {}).get("policy") == "drop"` -/
def default_drops (block : Json) : Except Failure Bool :=
  if block.truthy then
    match block with
    | .obj members => .ok (Json.pyEq (Members.get members "policy") (.str "drop"))
    | _ => .error .other
  else .ok false

/-- The adapters whose default is to drop. -/
def drop_adapters (target : Members) : List String → Except Failure (List String)
  | [] => .ok []
  | ad :: ads => do
    let drops ← default_drops (target.get ad)
    let rest ← drop_adapters target ads
    return if drops then ad :: rest else rest

/-- `block.get("rules") or []`, as it is iterated over. -/
def rules_of (block : Json) : Except Failure (List Json) :=
  match block with
  | .obj members =>
    let rules := Members.get members "rules"
    if rules.truthy then
      match rules with
      | .arr items => .ok items
      | .str s => .ok (s.toList.map fun c => .str (String.ofList [c]))
      | .obj inner => .ok (inner.map fun member => .str member.1)
      | _ => .error .other
    else .ok []
  | _ => .error .other

/-- `isinstance(r, dict) and r.get("policy") == "allow"` -/
def is_allow : Json → Bool
  | .obj members => Json.pyEq (Members.get members "policy") (.str "allow")
  | _ => false

/-- Some block has an allow rule. -/
def allow_anywhere : Members → Except Failure Bool
  | [] => .ok false
  | (ad, block) :: rest =>
    if ad = "name" then allow_anywhere rest
    else do
      let rules ← rules_of block
      if rules.any is_allow then return true else allow_anywhere rest

/-- The guard: whether the target is refused. -/
def locked_out (target desired : Members) : Except Failure Bool := do
  let drops ← drop_adapters target desired.names
  if drops = [] then return false
  else do
    let allow ← allow_anywhere target
    return !allow

/-! ### The program -/

section Program

variable (env : FirewallEnv)

/-- `profile_get` -/
def profile_get : Firewall Members := call env.toEnv .profileGet (.query fun w => .ok w.stored)

/-- `profile_set`: the profile is saved, the firewall runs on as before. -/
def profile_set (target : Members) : Firewall Unit := do
  record fun w => { w with sets := w.sets ++ [target] }
  call env.toEnv .profileSet fun w => (.ok (), { w with stored := target })

/-- One poll: whether the task has ended, which it has not before it has copied the profile. -/
def poll_status (j : ℕ) : Firewall Bool :=
  call env.toEnv (.applyStatus j) fun w =>
    (.ok (env.finish j),
      if env.finish j ∨ env.copies j then { w with running := w.stored } else w)

/-- The polls that fit in the deadline. -/
def poll_loop : ℕ → ℕ → Firewall Unit
  | 0, _ => throw .dsm
  | n + 1, j => do
    let finish ← poll_status env j
    if finish then return () else poll_loop n (j + 1)

/-- `Profile.Apply.stop`, a `DSMError` of which is ignored. -/
def apply_stop : Firewall Unit :=
  tryCatch (call env.toEnv .applyStop (.query fun _ => .ok ())) fun e =>
    match e with
    | .dsm => pure ()
    | .other => throw .other

/-- `profile_apply` -/
def profile_apply : Firewall Unit := do
  let task ← call env.toEnv .applyStart (.query fun _ => .ok env.task)
  if task then withFinally (poll_loop env env.polls 0) (apply_stop env) else throw .dsm

/-- The profile is saved, and activated if that is asked for. -/
def push_target (args : Args) (target : Members) (drift : List String) : Firewall Report := do
  profile_set env target
  if args.apply then do
    profile_apply env
    return .changed drift
  else return .changedNoApply drift

/-- The command within its session. -/
def firewall_session (args : Args) (desired : Members) : Firewall Report := do
  let current ← profile_get env
  let target := merged args.profileName current desired
  let drift := drift_of current target desired
  if drift = [] then return .noChange
  else
    match locked_out target desired with
    | .error e => throw e
    | .ok true => return .lockout
    | .ok false => if args.check then return .wouldChange drift else push_target env args target drift

/-- `with DSMSession(…)`: a failing logout is ignored. -/
def with_session (args : Args) (desired : Members) : Firewall Report := do
  call env.toEnv .login (.query fun _ => .ok ())
  withFinally (firewall_session env args desired) do
    let _ ← attempt (call env.toEnv .logout (.query fun _ => .ok ()))
    return ()

/-- `try … except DSMError` -/
def firewall_profile (args : Args) (desired : Members) : Firewall Report :=
  if args.password = "" then return .noPassword
  else tryCatch (with_session env args desired) fun e =>
    match e with
    | .dsm => return .failed
    | .other => throw .other

/-- `do_firewall_profile` -/
def do_firewall_profile (args : Args) : Firewall Report :=
  match args.desired with
  | none => throw .other
  | some (.obj pairs) => firewall_profile env args (dictOf pairs)
  | some _ => return .badDesired

/-- A run of the command: its exit status, and the world that it ends in. -/
def runFirewall (args : Args) (w : FirewallWorld) : ℕ × FirewallWorld :=
  match outcomeOf (do_firewall_profile env args) w with
  | (.ok report, t) => (report.rc, t.now)
  | (.error _, t) => (1, t.now)

end Program

end ApplySecurity
