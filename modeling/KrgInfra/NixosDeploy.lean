/-
deploy-nixos: the hosts, one after the other.

The script takes the hosts that DEPLOY_NIXOS_HOSTS selects, in the order of `lib.sh`.  On each it
stages the OEC archive, and the secret-zero of the vault-agent if the host has one; then it
switches the host to the flake's configuration.  A switch that fails ends the run, unless it is
excused (`switch_exit4_recovered`).  The functions that stage are tested with `if !`, so
`set -e` is off in them; it is on in the loop.

What Nix evaluates, what OpenBao answers, and what a host's own units make of its files are
parameters.  A copy that fails has arrived whole or not at all.  What the script prints is left out,
and so are the diagnostics of a failed switch, which only read.

* `Machine`, `Fleet` — a host, and the world of a run;
* `stage_oec`, `stage_vault_secret_zero`, `switch`, `rebuild`, `deploy_nixos` — the script.
-/
import KrgInfra.SwitchRecovery
import Mathlib

namespace DeployNixos

/-! ### The hosts of a run -/

def ORDER : List String :=
  ["krg-ldap", "krg-vault", "krg-prod", "e4e-prod", "krg-nat", "waiter", "kastner-ml"]

def ADDR : List (String × String) :=
  [("krg-vault", "krg-vault.ucsd.edu"), ("krg-ldap", "krg-ldap.ucsd.edu"),
    ("krg-prod", "krg-prod.ucsd.edu"), ("waiter", "waiter.ucsd.edu"),
    ("kastner-ml", "kastner-ml.ucsd.edu"), ("e4e-prod", "e4e-prod.ucsd.edu"),
    ("krg-nat", "krg-nat.ucsd.edu")]

def USER_OVERRIDE : List (String × String) :=
  [("kastner-ml", "e4e-admin"), ("e4e-prod", "e4e-admin")]

/-- What a run takes from the environment and the files of the control node. -/
structure Settings where
  /-- `DEPLOY_ADMIN` -/
  admin : String := "krg-admin"
  /-- `DEPLOY_NIXOS_HOSTS` -/
  hosts : String := ""
  /-- What is in `OEC_INSTALLER`, if it is readable. -/
  installer : Option String
  /-- The role-id and the secret-id of the control node are readable. -/
  hasRole : Bool := true
  /-- `DEPLOY_SKIP_GC` -/
  skipGc : String := "0"

def Settings.target_for (cfg : Settings) (host : String) : String :=
  (USER_OVERRIDE.lookup host).getD cfg.admin ++ "@" ++ (ADDR.lookup host).getD ""

/-- `read -r -a _sel <<< "$DEPLOY_NIXOS_HOSTS"` -/
def words (text : String) : List String :=
  (((text.toList.takeWhile (· ≠ '\n')).splitOnP fun c => c = ' ' || c = '\t').filter
    (· ≠ [])).map String.ofList

/-- `WANT`, or a host that is not known. -/
def Settings.want (cfg : Settings) : Except String (List String) :=
  if cfg.hosts = "" then .ok ORDER
  else
    match (words cfg.hosts).find? fun h => (ADDR.lookup h).isNone with
    | some h => .error h
    | none => .ok (words cfg.hosts)

/-- The hosts to rebuild, in their order. -/
def Settings.selected (cfg : Settings) : List String :=
  match cfg.want with
  | .error _ => []
  | .ok want => ORDER.filter (· ∈ want)

example : Settings.selected { hosts := "krg-vault  krg-ldap", installer := none } =
    ["krg-ldap", "krg-vault"] := by decide

/-! ### The machines -/

structure File where
  content : String
  mode : String
  deriving DecidableEq

structure Machine where
  files : String → Option File
  /-- `/run/current-system` -/
  running : String

def Machine.write (m : Machine) (path : String) (file : Option File) : Machine :=
  { m with files := Function.update m.files path file }

@[simp] theorem Machine.running_write (m : Machine) (path : String) (file : Option File) :
    (m.write path file).running = m.running := rfl

@[simp] theorem Machine.files_write (m : Machine) (path : String) (file : Option File) :
    (m.write path file).files path = file := Function.update_self ..

theorem Machine.files_write_of_ne {m : Machine} {path path' : String} {file : Option File}
    (h : path' ≠ path) : (m.write path file).files path' = m.files path' :=
  Function.update_of_ne h ..

/-- `install -m mode source path` -/
def Machine.install (m : Machine) (mode source path : String) : Except ℕ Machine :=
  match m.files source with
  | some file => .ok (m.write path (some ⟨file.content, mode⟩))
  | none => .error 1

/-- `install -m mode /dev/null path` -/
def Machine.create (m : Machine) (mode path : String) : Machine := m.write path (some ⟨"", mode⟩)

/-- `tee path`: a file that is there keeps its mode. -/
def Machine.tee (m : Machine) (path content : String) : Machine :=
  m.write path (some ⟨content, ((m.files path).map File.mode).getD "0644"⟩)

/-- A switch that was begun, and the host before it. -/
structure Switch where
  host : String
  before : Machine

/-- The machine of each ssh target, the secret-ids minted (each with its role), the hosts that
the loop has come to, the switches, and the hosts that are done. -/
structure Fleet where
  machine : String → Machine
  minted : List (String × String) := []
  begun : List String := []
  switches : List Switch := []
  finished : List String := []

def Fleet.put (w : Fleet) (t : String) (m : Machine) : Fleet :=
  { w with machine := Function.update w.machine t m }

/-- A command on a host. -/
def on_host (t : String) (f : Machine → Except ℕ Machine) : Work ℕ Fleet Unit := fun w =>
  match f (w.machine t) with
  | .ok m => (.ok (), w.put t m)
  | .error e => (.error e, w)

/-! ### Nix, OpenBao, and the commands -/

/-- What `nix eval` is asked of a host's `krg.vaultAgent`. -/
inductive Attr where
  | roleName
  | roleIdFile
  | secretIdFile
  deriving DecidableEq, Repr

/-- What `nix eval` prints. -/
structure Flake where
  agent : String → String
  attr : String → Attr → String
  docker : String → String
  toplevel : String → String

def Flake.value (flake : Flake) (host : String) (a : Attr) : String := captured (flake.attr host a)

/-- What OpenBao prints: a token, the role-id of a role that exists, and the secret-ids that it
mints, one after the other. -/
structure OpenBao where
  token : String
  roleId : String → Option String
  secretId : String → ℕ → String

/-- The commands of a run; `k` numbers the lines of a script on the host. -/
inductive Site where
  | tar
  | login
  | scp (host : String)
  | oec (host : String) (k : ℕ)
  | enabled (host : String)
  | eval (host : String) (a : Attr)
  | roleId (host : String)
  | mint (host : String)
  | push (host : String) (a : Attr) (k : ℕ)
  | mktemp (host : String)
  | switch (host : String)
  | toplevel (host : String)
  | current (host : String)
  | rm (host : String)
  | enabledNow (host : String)
  | restart (host : String)
  | gc (host : String)
  | docker (host : String)
  | prune (host : String)
  deriving DecidableEq, Repr

/-- Which commands fail, what `nixos-rebuild` prints, what the polls of a host give, and what the
units of a host leave of its files: those that the switch starts, its vault-agent, and the two
collections. -/
structure NixosEnv extends ShellEnv Site where
  output : String → String := fun _ => ""
  polls : String → ℕ → Poll := fun _ _ => { listing := "" }
  leave : Site → (String → Option File) → String → Option File := fun _ files => files

/-! ### The script -/

def OEC_TMP : String := "/tmp/oec-installer.tgz"

def OEC_DEST : String := "/var/lib/krg/oec/oec-qualystrellixinstallers-linux.tgz"

/-- A part of deploy-nixos. -/
abbrev Deploy (α : Type) : Type := Script Fleet α

section Program

variable (flake : Flake) (bao : OpenBao) (env : NixosEnv) (cfg : Settings)

/-- A command that changes nothing that is modelled. -/
def try_command (i : Site) : Deploy Bool := do
  let done ← Script.run env.toShellEnv i (.query fun _ => .ok ())
  return done.isSome

/-- A command on a host: whether it has succeeded. -/
def try_on (i : Site) (t : String) (f : Machine → Except ℕ Machine) : Deploy Bool := do
  let done ← Script.run env.toShellEnv i (on_host t f)
  return done.isSome

/-- A command where `set -e` is on. -/
def must (i : Site) : Deploy Unit := do
  let rc ← Script.status env.toShellEnv i (.query fun _ => .ok ())
  if rc ≠ 0 then Script.exit rc else return ()

/-- `stage_oec`: whether the archive is in its place. -/
def stage_oec (archive host : String) : Deploy Bool := do
  let t := cfg.target_for host
  let copied ← try_on env (.scp host) t fun m => .ok (m.write OEC_TMP (some ⟨archive, "0644"⟩))
  if !copied then return false
  else do
    let made ← try_command env (.oec host 0)
    if !made then return false
    else do
      let placed ← try_on env (.oec host 1) t (·.install "0600" OEC_TMP OEC_DEST)
      if !placed then return false
      else try_on env (.oec host 2) t fun m => .ok (m.write OEC_TMP none)

/-- `push_root_file` -/
def push_root_file (host : String) (a : Attr) (mode content : String) : Deploy Bool := do
  let t := cfg.target_for host
  let path := flake.value host a
  let made ← try_command env (.push host a 0)
  if !made then return false
  else do
    let created ← try_on env (.push host a 1) t fun m => .ok (m.create mode path)
    if !created then return false
    else try_on env (.push host a 2) t fun m => .ok (m.tee path content)

/-- `nix eval … 2>/dev/null || echo false` -/
def eval_or_false (i : Site) (text : String) : Deploy String := do
  let out ← Script.run env.toShellEnv i (.query fun _ => .ok text)
  return captured (out.getD "false\n")

/-- `nix eval --raw` of an attribute: whether it has been printed. -/
def eval_attr (host : String) (a : Attr) : Deploy Bool := do
  let out ← Script.run env.toShellEnv (.eval host a) (.query fun _ => .ok (flake.attr host a))
  return out.isSome

/-- `bao read -field=role_id` -/
def read_role_id (host : String) : Deploy (Option String) :=
  Script.run env.toShellEnv (.roleId host) (.query fun _ =>
    match bao.roleId (flake.value host .roleName) with
    | some id => .ok id
    | none => .error 1)

/-- `bao write -f -field=secret_id` -/
def mint (host : String) : Deploy (Option String) :=
  let role := flake.value host .roleName
  Script.run env.toShellEnv (.mint host) (.update fun w =>
    match bao.roleId role with
    | some _ =>
      let secret := bao.secretId role w.minted.length
      .ok (secret, { w with minted := w.minted ++ [(role, secret)] })
    | none => .error 1)

/-- The role-id and a secret-id for a host, on the host. -/
def push_credentials (host : String) : Deploy Bool := do
  let rid ← read_role_id flake bao env host
  match rid with
  | none => return false
  | some rid => do
    let sid ← mint flake bao env host
    match sid with
    | none => return false
    | some sid => do
      let pushed ← push_root_file flake env cfg host .roleIdFile "0644" (captured rid)
      if !pushed then return false
      else push_root_file flake env cfg host .secretIdFile "0600" (captured sid)

/-- `stage_vault_secret_zero`: whether the host is ready for its vault-agent. -/
def stage_vault_secret_zero (token host : String) : Deploy Bool := do
  let enabled ← eval_or_false env (.enabled host) (flake.agent host)
  if enabled ≠ "true" then return true
  else if token = "" then return false
  else do
    let named ← eval_attr flake env host .roleName
    if !named then return false
    else do
      let rid ← eval_attr flake env host .roleIdFile
      if !rid then return false
      else do
        let sid ← eval_attr flake env host .secretIdFile
        if !sid then return false
        else push_credentials flake bao env cfg host

/-- `nixos-rebuild switch`: its status. -/
def switch (host : String) : Deploy ℕ := do
  let t := cfg.target_for host
  Script.note fun w => { w with switches := w.switches ++ [⟨host, w.machine t⟩] }
  Script.status env.toShellEnv (.switch host)
    (on_host t fun m => .ok ⟨env.leave (.switch host) m.files, flake.toplevel host⟩)

/-- `grep -q 'returned non-zero exit status 4'` -/
def exit4 (output : String) : Bool :=
  "returned non-zero exit status 4".toList <:+: output.toList

/-- A switch that ended with this status: whether it is good, or excused. -/
def succeeded (host : String) (rc : ℕ) : Deploy Bool :=
  if rc = 0 then return true
  else if rc = 4 ∨ exit4 (env.output host) then do
    let built ← Script.run env.toShellEnv (.toplevel host) (.query fun _ => .ok (flake.toplevel host))
    let running ← Script.run env.toShellEnv (.current host)
      (.query fun w => .ok ((w.machine (cfg.target_for host)).running ++ "\n"))
    return (switch_exit4_recovered built running (env.polls host)).status = 0
  else return false

/-- `systemctl`, of a unit that does its own work on the host. -/
def start_unit (i : Site) (host : String) : Deploy Bool :=
  try_on env i (cfg.target_for host) fun m => .ok { m with files := env.leave i m.files }

/-- The vault-agent renders its secrets again, if the host has one. -/
def rerender (host : String) : Deploy Unit := do
  let agent ← eval_or_false env (.enabledNow host) (flake.agent host)
  if agent = "true" then do
    let _ ← start_unit env cfg (.restart host) host
    return ()
  else return ()

/-- The collection of garbage on the host; it does not make the run fail. -/
def reclaim (host : String) : Deploy Unit :=
  if cfg.skipGc = "1" then return ()
  else do
    let _ ← start_unit env cfg (.gc host) host
    let docker ← eval_or_false env (.docker host) (flake.docker host)
    if docker = "true" then do
      let _ ← start_unit env cfg (.prune host) host
      return ()
    else return ()

/-- The switch of a host that is staged. -/
def switch_host (host : String) : Deploy Unit := do
  must env (.mktemp host)
  let rc ← switch flake env cfg host
  let ok ← succeeded flake env cfg host rc
  must env (.rm host)
  if !ok then Script.exit 1
  else do
    Script.note fun w => { w with finished := w.finished ++ [host] }
    rerender flake env cfg host
    reclaim flake env cfg host

/-- One host of the loop. -/
def rebuild (archive token host : String) : Deploy Unit := do
  Script.note fun w => { w with begun := w.begun ++ [host] }
  let staged ← stage_oec env cfg archive host
  if !staged then Script.exit 1
  else do
    let ready ← stage_vault_secret_zero flake bao env cfg token host
    if !ready then Script.exit 1 else switch_host flake env cfg host

/-- `for host in "${ORDER[@]}"` -/
def rebuild_all (archive token : String) (want : List String) : List String → Deploy Unit
  | [] => return ()
  | host :: hosts =>
    if host ∈ want then do
      rebuild flake bao env cfg archive token host
      rebuild_all archive token want hosts
    else rebuild_all archive token want hosts

/-- The AppRole login: the token, or an empty one. -/
def login : Deploy String :=
  if cfg.hasRole then
    Script.output env.toShellEnv .login (.query fun _ => .ok bao.token)
  else return ""

/-- deploy-nixos.sh -/
def deploy_nixos : Deploy Unit :=
  match cfg.want with
  | .error _ => Script.exit 2
  | .ok want =>
    match cfg.installer with
    | none => Script.exit 1
    | some archive => do
      let readable ← try_command env .tar
      if !readable then Script.exit 1
      else do
        let token ← login bao env cfg
        rebuild_all flake bao env cfg archive token want ORDER

end Program

end DeployNixos
