/-
stage-tenant-secret-zero: what a tenant's instance is given.

On every deploy the script mints a secret-id for the AppRole of each Incus instance, and pushes it
with the role-id over Incus' API.  An instance that is tagged with its repository gets a
registration token as well, unless its runner is registered: unless it has written
`.credentials`, and GitHub lists it.  A tenant that cannot be served does not keep the others from
being served.

What OpenBao, Incus and GitHub answer are parameters, and mint-runner-token.sh is one command here.
A push that fails has arrived whole or not at all.  What the script prints is left out.

* `Instance`, `Tenancy` — an instance, and the world of a run;
* `push_one`, `runner_registered`, `stage_runner`, `stage_instance`, `stage_tenants` — the script.
-/
import KrgInfra.Shell
import Mathlib

namespace TenantStaging

def AGENT_DIR : String := "/var/lib/krg/openbao-agent"

def RUNNER_DIR : String := "/var/lib/krg/github-runner"

def RUNNER_STATE_DIR : String := "/var/lib/github-runner"

def ROLE_ID : String := AGENT_DIR ++ "/role-id"

def SECRET_ID : String := AGENT_DIR ++ "/secret-id"

def REGISTRATION_TOKEN : String := RUNNER_DIR ++ "/registration-token"

/-- An instance, as `incus list` names it. -/
structure Instance where
  name : String
  project : String
  deriving DecidableEq, Repr

/-- The AppRole of an instance. -/
def Instance.role (i : Instance) : String := "tenant-" ++ i.name

/-- What the runner of an instance writes once it has registered. -/
def Instance.credentials (i : Instance) : String :=
  RUNNER_STATE_DIR ++ "/" ++ i.name ++ "/.credentials"

structure File where
  content : String
  mode : String
  deriving DecidableEq, Repr

/-- The files of every instance; the secret-ids minted so far, each with its role, and the
registration tokens, each with its repository. -/
structure Tenancy where
  files : Instance → String → Option File
  minted : List (String × String) := []
  tokens : List (String × String) := []

/-- A file that root pushes. -/
def Tenancy.push (w : Tenancy) (i : Instance) (path : String) (file : File) : Tenancy :=
  { w with files := Function.update w.files i (Function.update (w.files i) path (some file)) }

@[simp] theorem Tenancy.minted_push (w : Tenancy) (i : Instance) (path : String) (file : File) :
    (w.push i path file).minted = w.minted := rfl

@[simp] theorem Tenancy.tokens_push (w : Tenancy) (i : Instance) (path : String) (file : File) :
    (w.push i path file).tokens = w.tokens := rfl

@[simp] theorem Tenancy.files_push (w : Tenancy) (i : Instance) (path : String) (file : File) :
    (w.push i path file).files i path = some file := by
  simp [push]

theorem Tenancy.files_push_of_ne {w : Tenancy} {i j : Instance} {path path' : String} {file : File}
    (h : j ≠ i ∨ path' ≠ path) : (w.push i path file).files j path' = w.files j path' := by
  obtain h | h := h
  · simp [push, Function.update_of_ne h]
  · rcases eq_or_ne j i with rfl | hne
    · simp [push, Function.update_of_ne h]
    · simp [push, Function.update_of_ne hne]

/-- What the services of a deploy answer: the instances, each once, the role-ids of the roles that
exist, the secret-ids and tokens that are minted one after the other, the repository that an
instance is tagged with, and the runners of a repository. -/
structure Services where
  instances : List Instance
  nodup : instances.Nodup
  roleId : String → Option String
  secretId : String → ℕ → String
  krg_repo : Instance → String
  runners : String → List String
  registration : String → ℕ → Option String

/-- OpenBao has the role-id of a role that exists. -/
def Services.readRole (svc : Services) (role : String) : Except ℕ String :=
  match svc.roleId role with
  | some id => .ok id
  | none => .error 1

theorem Services.readRole_eq_ok {svc : Services} {role rid : String} :
    svc.readRole role = .ok rid ↔ svc.roleId role = some rid := by
  unfold readRole
  cases svc.roleId role <;> simp

/-- OpenBao mints a secret-id for a role that exists. -/
def Services.mintSecret (svc : Services) (role : String) : Work ℕ Tenancy String :=
  .update fun w =>
    match svc.roleId role with
    | some _ =>
      let secret := svc.secretId role w.minted.length
      .ok (secret, { w with minted := w.minted ++ [(role, secret)] })
    | none => .error 1

/-- The App mints a token for a repository that it is installed on. -/
def Services.mintToken (svc : Services) (repo : String) : Work ℕ Tenancy String :=
  .update fun w =>
    match svc.registration repo w.tokens.length with
    | some token => .ok (token, { w with tokens := w.tokens ++ [(repo, token)] })
    | none => .error 1

theorem Services.mintSecret_of_role {svc : Services} {role rid : String}
    (h : svc.roleId role = some rid) (w : Tenancy) :
    svc.mintSecret role w = (.ok (svc.secretId role w.minted.length),
      { w with minted := w.minted ++ [(role, svc.secretId role w.minted.length)] }) := by
  simp only [mintSecret, Work.update, h]

theorem Services.mintToken_of_some {svc : Services} {repo token : String} {w : Tenancy}
    (h : svc.registration repo w.tokens.length = some token) :
    svc.mintToken repo w = (.ok token, { w with tokens := w.tokens ++ [(repo, token)] }) := by
  simp only [mintToken, Work.update, h]

theorem Services.mintToken_of_none {svc : Services} {repo : String} {w : Tenancy}
    (h : svc.registration repo w.tokens.length = none) :
    svc.mintToken repo w = (.error 1, w) := by
  simp only [mintToken, Work.update, h]

/-- The commands of a run; `k` is the number of an attempt. -/
inductive Site where
  | build
  | login
  | issue
  | bundle
  | remote
  | list
  | roleId (i : Instance)
  | secretId (i : Instance)
  | pushRole (i : Instance) (k : ℕ)
  | pushSecret (i : Instance) (k : ℕ)
  | repo (i : Instance)
  | credentials (i : Instance)
  | registered (i : Instance)
  | mintToken (i : Instance)
  | pushToken (i : Instance)
  deriving DecidableEq, Repr

/-- Which commands fail, what a `config get` that fails prints, and what the control node has. -/
structure StagingEnv extends ShellEnv Site where
  usage : Instance → String := fun _ => ""
  onPath : Bool := true
  hasRole : Bool := true

/-- A part of the script. -/
abbrev Staging (α : Type) : Type := Script Tenancy α

section Program

variable (svc : Services) (env : StagingEnv)

/-- A command where `set -e` is on. -/
def must (i : Site) : Staging Unit := do
  let rc ← Script.status env.toShellEnv i (.query fun _ => .ok ())
  if rc ≠ 0 then Script.exit rc else return ()

/-- `incus file push … --uid 0 --gid 0 --mode mode` from the standard input. -/
def file_push (site : Site) (i : Instance) (path mode content : String) : Staging Bool := do
  let done ← Script.run env.toShellEnv site (.update fun w =>
    .ok ((), w.push i path ⟨content, mode⟩))
  return done.isSome

/-- Both credentials, in one attempt. -/
def push_both (i : Instance) (rid sid : String) (k : ℕ) : Staging Bool := do
  let first ← file_push env (.pushRole i k) i ROLE_ID "0644" rid
  if first then file_push env (.pushSecret i k) i SECRET_ID "0600" sid else return false

/-- Both credentials; `n` attempts are left. -/
def push_one (i : Instance) (rid sid : String) : ℕ → ℕ → Staging Bool
  | 0, _ => return false
  | n + 1, k => do
    let pushed ← push_both env i rid sid k
    if pushed then return true else push_one i rid sid n (k + 1)

/-- `bao read -field=role_id` -/
def read_role_id (i : Instance) : Staging (Option String) :=
  Script.run env.toShellEnv (.roleId i) (.query fun _ => svc.readRole i.role)

/-- `bao write -f -field=secret_id` -/
def mint_secret_id (i : Instance) : Staging (Option String) :=
  Script.run env.toShellEnv (.secretId i) (svc.mintSecret i.role)

/-- `test -e` of the runner's credentials, in the instance. -/
def has_credentials (w : Tenancy) (i : Instance) : Except ℕ Unit :=
  if (w.files i i.credentials).isSome then .ok () else .error 1

/-- `mint-runner-token.sh --is-registered`: GitHub lists the runner on the first page. -/
def is_registered (repo : String) (i : Instance) : Except ℕ Unit :=
  if i.name ∈ (svc.runners repo).take 100 then .ok () else .error 1

def runner_registered (i : Instance) (repo : String) : Staging Bool := do
  let there ← Script.run env.toShellEnv (.credentials i) (.query fun w => has_credentials w i)
  if there.isSome then do
    let listed ← Script.run env.toShellEnv (.registered i) (.query fun _ => is_registered svc repo i)
    return listed.isSome
  else return false

/-- `incus config get … user.krg_repo || true`, with what a command that fails has printed. -/
def get_repo (i : Instance) : Staging String := do
  let out ← Script.run env.toShellEnv (.repo i) (.query fun _ => .ok (svc.krg_repo i))
  return captured (out.getD (env.usage i))

/-- `mint-runner-token.sh` -/
def mint_runner_token (i : Instance) (repo : String) : Staging (Option String) :=
  Script.run env.toShellEnv (.mintToken i) (svc.mintToken repo)

/-- A fresh token on the instance; a token that cannot be minted is no failure. -/
def push_token (i : Instance) (repo : String) : Staging Bool := do
  let regtok ← mint_runner_token svc env i repo
  match regtok with
  | none => return true
  | some token =>
    if captured token = "" then return true
    else file_push env (.pushToken i) i REGISTRATION_TOKEN "0600" (captured token)

/-- `[[ "$repo" == */* ]]` -/
def is_repo (repo : String) : Bool := repo.toList.contains '/'

/-- The runner's token, for an instance with a repository whose runner is not registered. -/
def stage_runner (i : Instance) : Staging Bool := do
  let repo ← get_repo svc env i
  if is_repo repo then do
    let registered ← runner_registered svc env i repo
    if registered then return true else push_token svc env i repo
  else return true

/-- One instance: whether nothing has failed. -/
def stage_instance (i : Instance) : Staging Bool :=
  if i.name = "" then return true
  else do
    let rid ← read_role_id svc env i
    match rid with
    | none => return true
    | some rid => do
      let sid ← mint_secret_id svc env i
      match sid with
      | none => return false
      | some sid => do
        let pushed ← push_one env i (captured rid) (captured sid) 6 0
        let runner ← stage_runner svc env i
        return pushed && runner

/-- `for row in "${rows[@]}"`; the status so far. -/
def stage_instances : List Instance → ℕ → Staging ℕ
  | [], rc => return rc
  | i :: rest, rc => do
    let fine ← stage_instance svc env i
    stage_instances rest (if fine then rc else 1)

/-- `INCUS_BIN`, from the flake if it is not on the path. -/
def resolve_incus : Staging Unit :=
  if env.onPath then return () else must env .build

/-- A command that the script leaves with status 1 when it fails. -/
def or_exit (i : Site) : Staging Unit := do
  let rc ← Script.status env.toShellEnv i (.query fun _ => .ok ())
  if rc ≠ 0 then Script.exit 1 else return ()

/-- The login and the client certificate, up to the scratch remote. -/
def connect : Staging Unit := do
  resolve_incus env
  if !env.hasRole then Script.exit 1
  else do
    or_exit env .login
    or_exit env .issue
    must env .bundle
    must env .remote

/-- stage-tenant-secret-zero.sh -/
def stage_tenants : Staging Unit := do
  connect env
  let rows ← Script.run env.toShellEnv .list (.query fun _ => .ok svc.instances)
  let rc ← stage_instances svc env (rows.getD []) 0
  Script.exit rc

end Program

end TenantStaging
