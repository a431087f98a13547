/-
deploy-tofu: the targets, one after the other.

For every listed target the script reads its credentials, prepares its state directory,
initialises OpenTofu, adopts what TOFU_IMPORT names, and applies; before it applies the
`secrets` target it asks whether the plan would create a secret that OpenBao already has.
The body of a target is a subshell on the left of `||`, so `set -e` is off in it.

OpenTofu itself is a parameter: what a plan of a state would change, and what an import
and an apply make of a state.  What a change does to OpenBao is the documented effect of a
`vault_kv_secret_v2`.  The values that go into a target's environment, and the text of the
notices, are left out.

* `Change`, `OpenTofu`, `TofuWorld` — planned changes, and the world of a run;
* `materialize`, `import_secret`, `guard`, `target_body`, `deploy_targets`, `deploy_tofu`.
-/
import KrgInfra.Shell
import Mathlib.Logic.Function.Basic
import Mathlib.Data.List.Basic

namespace DeployTofu

/-! ### OpenBao, and planned changes -/

/-- The data of a KV path. -/
abbrev Fields : Type := List (String × String)

/-- The KV store: the data of the paths that exist. -/
abbrev Store : Type := String → Option Fields

/-- The value of a field that is stored at an existing path. -/
def Store.field (store : Store) (path field : String) : Option String :=
  (store path).bind (·.lookup field)

/-- An entry of a change's `actions`. -/
inductive ChangeAction where
  | noop
  | read
  | create
  | update
  | delete
  deriving DecidableEq, Repr

/-- The lists that OpenTofu puts into `actions`; a replacement has two entries, in either
order. -/
def documentedActions : List (List ChangeAction) :=
  [[.noop], [.create], [.read], [.update], [.delete], [.delete, .create], [.create, .delete]]

/-- An entry of a plan's `resource_changes`. -/
structure Change where
  address : String
  type : String := "vault_kv_secret_v2"
  actions : List ChangeAction
  mount : String := "secret"
  name : String
  data : Fields := []
  documented : actions ∈ documentedActions
  deriving DecidableEq

/-- `.change.after.mount + "/" + .change.after.name` -/
def Change.kvpath (change : Change) : String := change.mount ++ "/" ++ change.name

/-- What one action on a KV secret does to the store: a create or an update writes a new
version, a delete leaves the path without data. -/
def Change.act (change : Change) (store : Store) : ChangeAction → Store
  | .create => Function.update store change.kvpath (some change.data)
  | .update => Function.update store change.kvpath (some change.data)
  | .delete => Function.update store change.kvpath ((store change.kvpath).map fun _ => [])
  | .noop => store
  | .read => store

/-- What a change does to the store; only KV secrets write there. -/
def Change.carry (store : Store) (change : Change) : Store :=
  if change.type = "vault_kv_secret_v2" then change.actions.foldl change.act store else store

/-- What OpenTofu does with a state of type `τ`. -/
structure OpenTofu (τ : Type) where
  plan : String → τ → Store → List Change
  addresses : τ → List String
  imported : τ → String → String → τ
  applied : τ → Store → List Change → τ

/-! ### The notation of a `random_id` -/

/-- The value of a hexadecimal digit. -/
def hexDigit (c : Char) : Option ℕ :=
  if '0' ≤ c ∧ c ≤ '9' then some (c.toNat - '0'.toNat)
  else if 'a' ≤ c ∧ c ≤ 'f' then some (c.toNat - 'a'.toNat + 10)
  else if 'A' ≤ c ∧ c ≤ 'F' then some (c.toNat - 'A'.toNat + 10)
  else none

/-- `bytes.fromhex`: pairs of digits, with blanks between them. -/
def fromhex : List Char → Option (List ℕ)
  | [] => some []
  | [c] => if c.isWhitespace then some [] else none
  | a :: b :: rest =>
    if a.isWhitespace then fromhex (b :: rest)
    else do
      let high ← hexDigit a
      let low ← hexDigit b
      let bytes ← fromhex rest
      return (16 * high + low) :: bytes

def base64url : String := "ABCDEFGHIJKLMNOPQRSTUVWXYZabcdefghijklmnopqrstuvwxyz0123456789-_"

/-- `base64.urlsafe_b64encode` without the padding. -/
def b64encode : List ℕ → List ℕ
  | [] => []
  | [a] => [a / 4, a % 4 * 16]
  | [a, b] => [a / 4, a % 4 * 16 + b / 16, b % 16 * 4]
  | a :: b :: c :: rest =>
    a / 4 :: (a % 4 * 16 + b / 16) :: (b % 16 * 4 + c / 64) :: c % 64 :: b64encode rest

/-- The import id of a `random_id` whose value is stored in hexadecimal. -/
def base64url_of_hex (value : String) : Option String :=
  (fromhex value.toList).map fun bytes =>
    String.ofList ((b64encode bytes).map fun digit => base64url.toList.getD digit 'A')

example : base64url_of_hex "4d616eff" = some "TWFu_w" := by decide

/-! ### The run -/

/-- A line of TOFU_IMPORT. -/
structure ImportLine where
  addr : String
  path : String
  field : String
  deriving DecidableEq, Repr

/-- The environment variables and files of a run. -/
structure Config where
  targets : List String
  hasDir : String → Bool := fun _ => true
  hasRole : Bool := true
  passphrase : String := ""
  planOnly : String := ""
  imports : List ImportLine := []
  approve : String := ""
  replace : String := ""
  openbaoToken : String := ""
  dsmUser : String := "e4e-automation"
  pinnedCert : Bool := true

/-- The steps of one target. -/
inductive Step where
  | mkdir
  | chmod
  | init
  | imported (k : ℕ)
  | guardPlan
  | plan
  | apply
  deriving DecidableEq, Repr

/-- The commands of a run; `n` numbers the targets, `k` the lines of TOFU_IMPORT. -/
inductive Site where
  | login
  | kv (n : ℕ) (path field : String)
  | issue (n : ℕ) (role : String)
  | stateList (n k : ℕ)
  | importValue (n k : ℕ)
  | convert (n k : ℕ)
  | step (n : ℕ) (s : Step)
  | showPlan (n : ℕ)
  | metadata (n : ℕ) (path : String)
  deriving DecidableEq, Repr

/-- What the log records. -/
inductive Event where
  | began (n : ℕ)
  | skipped (n : ℕ)
  | step (n : ℕ) (s : Step) (ok : Bool)
  | failed (n : ℕ)
  deriving DecidableEq, Repr

/-- An apply that was performed: its target, what it was to change, and the store before
and after it. -/
structure Applied where
  target : String
  changes : List Change
  before : Store
  after : Store

/-- OpenBao's KV store, the targets' states, the applies performed, and the log, latest
last. -/
structure TofuWorld (τ : Type) where
  store : Store
  state : String → τ
  applies : List Applied := []
  log : List Event := []

namespace TofuWorld

variable {τ : Type}

def record (w : TofuWorld τ) (e : Event) : TofuWorld τ := { w with log := w.log ++ [e] }

@[simp] theorem log_record (w : TofuWorld τ) (e : Event) : (w.record e).log = w.log ++ [e] := rfl

@[simp] theorem applies_record (w : TofuWorld τ) (e : Event) :
    (w.record e).applies = w.applies := rfl

@[simp] theorem store_record (w : TofuWorld τ) (e : Event) : (w.record e).store = w.store := rfl

@[simp] theorem state_record (w : TofuWorld τ) (e : Event) : (w.record e).state = w.state := rfl

end TofuWorld

/-- Which commands fail, and how many changes an apply that fails has carried out. -/
structure DeployEnv extends ShellEnv Site where
  carried : ℕ → ℕ := fun _ => 0

section Program

variable {τ : Type} (tofu : OpenTofu τ) (env : DeployEnv) (cfg : Config)

/-- A part of deploy-tofu. -/
abbrev Deploy (τ α : Type) : Type := Script (TofuWorld τ) α

/-- `_kv`: one KV field. -/
def kv (i : Site) (path field : String) : Deploy τ (Option String) :=
  Script.run env.toShellEnv i (.query fun w =>
    match w.store.field path field with
    | some value => .ok value
    | none => .error 1)

/-- A step, and its mark in the log. -/
def step (n : ℕ) (s : Step) (work : TofuWorld τ → TofuWorld τ) : Deploy τ Bool := do
  let done ← Script.run env.toShellEnv (.step n s) fun w => (.ok (), work w)
  Script.note (·.record (.step n s done.isSome))
  return done.isSome

/-- What a target's credentials are made from. -/
inductive Need where
  | token
  | openbaoToken
  | field (path field : String)
  | cert (role : String)
  | pinnedCert
  deriving DecidableEq, Repr

/-- The branches of `materialize`. -/
def needs (target : String) : Option (List Need) :=
  if target = "grafana" then
    some [.token, .field "secret/krg-prod/grafana-admin" "password",
      .field "secret/krg-prod/authentik-managed/grafana-oidc" "client_id"]
  else if target = "authentik" then
    some [.token, .field "secret/krg-deploy/authentik-admin-token" "token",
      .field "secret/krg-prod/authentik-ldap" "bind_password"]
  else if target = "e4e-nas" then
    some [.token, .field "secret/e4e-nas/users" cfg.dsmUser]
  else if target = "temporal" then some [.token, .cert "temporal-client"]
  else if target = "openbao" then some [.openbaoToken]
  else if target = "secrets" then some [.token]
  else if target = "incus" then some [.token, .cert "incus-client", .pinnedCert]
  else none

/-- One of the credentials: whether it is there. -/
def obtain_need (token : Bool) (n : ℕ) : Need → Deploy τ Bool
  | .token => return token
  | .openbaoToken => return cfg.openbaoToken ≠ ""
  | .field path field => do
    let value ← kv env (.kv n path field) path field
    return value.isSome
  | .cert role => do
    let cert ← Script.run env.toShellEnv (.issue n role) (.query fun _ => .ok ())
    return cert.isSome
  | .pinnedCert => return cfg.pinnedCert

/-- The credentials of a target, up to the first one missing. -/
def obtain_all (token : Bool) (n : ℕ) : List Need → Deploy τ Bool
  | [] => return true
  | need :: rest => do
    let there ← obtain_need env cfg token n need
    if there then obtain_all token n rest else return false

/-- `materialize`: whether the target has its credentials. -/
def materialize (token : Bool) (n : ℕ) (target : String) : Deploy τ Bool :=
  match needs cfg target with
  | none => return false
  | some l => obtain_all env cfg token n l

/-- The value that an address is imported with: a `random_id` takes base64url. -/
def import_id (n k : ℕ) (line : ImportLine) : Deploy τ (Option String) := do
  let value ← kv env (.importValue n k) line.path line.field
  match value with
  | none => return none
  | some value =>
    if "random_id.".toList <+: line.addr.toList then
      Script.run env.toShellEnv (.convert n k) (.query fun _ =>
        match base64url_of_hex value with
        | some id => .ok id
        | none => .error 0)
    else return some value

/-- `tofu import` -/
def adopt (target addr value : String) (w : TofuWorld τ) : TofuWorld τ :=
  { w with state := Function.update w.state target (tofu.imported (w.state target) addr value) }

/-- A line of TOFU_IMPORT: the import itself is the last command of the loop's body. -/
def import_secret (n : ℕ) (target : String) (k : ℕ) (line : ImportLine) : Deploy τ Unit :=
  if line.addr = "" then return ()
  else do
    let known ← Script.run env.toShellEnv (.stateList n k)
      (.query fun w => .ok (tofu.addresses (w.state target)))
    if line.addr ∈ known.getD [] then return ()
    else do
      let value ← import_id env n k line
      match value with
      | none => return ()
      | some value => do
        let _ ← step env n (.imported k) (adopt tofu target line.addr value)
        return ()

/-- The loop over TOFU_IMPORT. -/
def import_secrets (n : ℕ) (target : String) : ℕ → List ImportLine → Deploy τ Unit
  | _, [] => return ()
  | k, line :: lines => do
    import_secret tofu env n target k line
    import_secrets n target (k + 1) lines

/-- The KV paths that a plan creates: what `jq` selects. -/
def creates (changes : List Change) : List String :=
  (changes.filter fun c => c.type = "vault_kv_secret_v2" ∧ c.actions = [.create]).map
    Change.kvpath

/-- The paths that OpenBao has already, among those that are to be created. -/
def clobbered (n : ℕ) : List String → Deploy τ (List String)
  | [] => return []
  | path :: paths => do
    let found ← Script.run env.toShellEnv (.metadata n path) (.query fun w =>
      match w.store path with
      | some _ => .ok ()
      | none => .error 1)
    let rest ← clobbered n paths
    return if found.isSome then path :: rest else rest

/-- The generate-once secret guard. -/
def guard (n : ℕ) (target : String) : Deploy τ Unit :=
  if target = "secrets" ∧ cfg.approve = "" ∧ cfg.replace = "" then do
    let planned ← step env n .guardPlan id
    if planned then do
      let paths ← Script.run env.toShellEnv (.showPlan n)
        (.query fun w => .ok (creates (tofu.plan target (w.state target) w.store)))
      let clobber ← clobbered env n (paths.getD [])
      if clobber ≠ [] then Script.exit 5 else return ()
    else return ()
  else return ()

/-- What an apply does to the world: it carries out the planned changes, all of them if it
succeeds. -/
def apply_changes (n : ℕ) (target : String) (w : TofuWorld τ) : TofuWorld τ :=
  let changes := tofu.plan target (w.state target) w.store
  let carried := if env.outcome (.step n .apply) = .ok then changes else changes.take (env.carried n)
  let after := carried.foldl Change.carry w.store
  { w with
    store := after
    state := Function.update w.state target (tofu.applied (w.state target) w.store carried)
    applies := w.applies ++ [⟨target, changes, w.store, after⟩] }

/-- The last command of a target, whose status is the subshell's. -/
def last_step (n : ℕ) (s : Step) (work : TofuWorld τ → TofuWorld τ) : Deploy τ ℕ := do
  let rc ← Script.status env.toShellEnv (.step n s) fun w => (.ok (), work w)
  Script.note (·.record (.step n s (decide (rc = 0))))
  return rc

/-- The steps of a target that has its credentials and a passphrase. -/
def target_steps (n : ℕ) (target : String) : Deploy τ ℕ := do
  let _ ← step env n .mkdir id
  let _ ← step env n .chmod id
  let _ ← step env n .init id
  import_secrets tofu env n target 0 cfg.imports
  if cfg.planOnly ≠ "" then last_step env n .plan id
  else do
    guard tofu env cfg n target
    last_step env n .apply (apply_changes tofu env n target)

/-- The subshell of a target. -/
def target_body (token : Bool) (n : ℕ) (target : String) : Deploy τ ℕ := do
  let there ← materialize env cfg token n target
  if !there then do
    Script.note (·.record (.skipped n))
    Script.exit 0
  else if cfg.passphrase = "" then Script.exit 3
  else target_steps tofu env cfg n target

/-- One target of the loop. -/
def deploy_target (token : Bool) (n : ℕ) (target : String) : Deploy τ Unit := do
  Script.note (·.record (.began n))
  if !cfg.hasDir target then Script.note (·.record (.skipped n))
  else do
    let rc ← Script.subshell (target_body tofu env cfg token n target)
    if rc ≠ 0 then do
      Script.note (·.record (.failed n))
      Script.exit 1
    else return ()

/-- The loop over the targets. -/
def deploy_targets (token : Bool) : ℕ → List String → Deploy τ Unit
  | _, [] => return ()
  | n, target :: targets => do
    deploy_target tofu env cfg token n target
    deploy_targets token (n + 1) targets

/-- The AppRole login: whether there is a token. -/
def login : Deploy τ Bool :=
  if cfg.hasRole then do
    let token ← Script.run env.toShellEnv .login (.query fun _ => .ok ())
    match token with
    | some _ => return true
    | none => Script.exit 1
  else return false

/-- deploy-tofu.sh -/
def deploy_tofu : Deploy τ Unit :=
  if cfg.targets = [] then return ()
  else do
    let token ← login env cfg
    if '\n' ∈ cfg.passphrase.toList then Script.exit 2
    else deploy_targets tofu env cfg token 0 cfg.targets

end Program

end DeployTofu
