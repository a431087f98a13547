/-
deploy-ansible: the secrets of the NAS play.

The Synology part of the script is one subshell under `if !`, so `set -e` is off in it: it
logs in to OpenBao, reads the NAS secrets, provisions the credentials of the Garage keys,
writes an extra-vars file and starts the play with it.

What jq prints for a value that is not a string, and the bytes that `openssl rand` draws,
are parameters.  The notices are left out, and so are the tags of the play.

* `Fields`, `NasWorld` — the data of a KV path, and the world of a run;
* `read_key`, `provision_key`, `provision_keys` — the credentials of the Garage keys;
* `vars_of`, `materialize_vars`, `nas_body`, `deploy_synology` — the play and its variables.
-/
import KrgInfra.Shell
import KrgInfra.Json
import Mathlib.Logic.Function.Basic

namespace DeployAnsible

/-! ### The world of a run -/

/-- The data of a KV path. -/
abbrev Fields : Type := Members

/-- The KV store: the data of the paths that exist. -/
abbrev Store : Type := String → Option Fields

/-- The commands of a run; `k` numbers the key names. -/
inductive Site where
  | cd
  | login
  | mktemp
  | read (path : String)
  | backupData
  | yq
  | getKey (k : ℕ)
  | keyId (k : ℕ)
  | keySecret (k : ℕ)
  | randId (k : ℕ)
  | randSecret (k : ℕ)
  | putKey (k : ℕ)
  | addKey (k : ℕ)
  | groupData (path : String)
  | vars
  | playbook
  | shred
  | rm
  deriving DecidableEq, Repr

/-- A credential that was written: where, what was stored there before, and what is written. -/
structure Put where
  path : String
  before : Option Fields
  id : String
  secret : String

/-- The KV store, the credentials written, what the vars file holds, and what it held each
time the play was started, latest last. -/
structure NasWorld where
  store : Store
  puts : List Put := []
  vars : Option Json := none
  starts : List (Option Json) := []

/-- The world a run starts in. -/
def initial (store : Store) : NasWorld := { store := store }

/-- Which commands fail, the bytes that `openssl` draws at a site, and the text that jq
prints for a value. -/
structure NasEnv extends ShellEnv Site where
  random : Site → ℕ → Fin 256 := fun _ _ => 0
  text : Json → String := fun _ => ""

/-- What `yq` prints of the key names. -/
structure Config where
  keyNames : String

/-- A part of the subshell. -/
abbrev Nas (α : Type) : Type := Script NasWorld α

/-! ### Texts -/

/-- A lower-case hexadecimal digit: `[0-9a-f]`. -/
def isLowerHex (c : Char) : Bool := ('0' ≤ c && c ≤ '9') || ('a' ≤ c && c ≤ 'f')

/-- `GK`, and 24 digits. -/
def isKeyId (digit : Char → Bool) (id : String) : Bool :=
  match id.toList with
  | 'G' :: 'K' :: rest => rest.length = 24 && rest.all digit
  | _ => false

/-- The credential is not one to keep: `! "$akid" =~ ^GK[0-9a-f]{24}$ || ${#asec} -lt 32`. -/
def malformed (akid asec : String) : Bool := !isKeyId isLowerHex akid || asec.length < 32

/-- A byte in hexadecimal. -/
def hexByte (b : Fin 256) : List Char := [Nat.digitChar (b / 16), Nat.digitChar (b % 16)]

/-- `n` bytes in hexadecimal. -/
def hex (bytes : ℕ → Fin 256) (n : ℕ) : List Char := (List.range n).flatMap fun i => hexByte (bytes i)

/-- `IFS= read -r`, until the text ends. -/
def linesOf (text : String) : List String := (text.toList.splitOn '\n').map String.ofList

/-- `jq -r`: a string as it is. -/
def rawText (text : Json → String) : Json → String
  | .str s => s
  | value => text value

/-- `// ""` -/
def orEmpty : Json → Json
  | .null => .str ""
  | .bool false => .str ""
  | value => value

def keyPath (name : String) : String := "secret/e4e-nas/garage-keys/" ++ name

section Program

variable (env : NasEnv)

/-! ### The credentials of the Garage keys -/

/-- `bao kv get`: the data of a path. -/
def kv_get (i : Site) (path : String) : Nas (Option Fields) :=
  Script.run env.toShellEnv i (.query fun w =>
    match w.store path with
    | some data => .ok data
    | none => .error 1)

/-- `jq -r '.data.data.<field> // ""'` -/
def jq_field (i : Site) (data : Fields) (field : String) : Nas String :=
  Script.output env.toShellEnv i
    (.query fun _ => .ok (rawText env.text (orEmpty (data.get field)) ++ "\n"))

/-- `_randhex` -/
def randhex (i : Site) (n : ℕ) : Nas String :=
  Script.output env.toShellEnv i
    (.query fun _ => .ok (String.ofList (hex (env.random i) n) ++ "\n"))

/-- The stored credential of a key, as the loop reads it. -/
def read_key (k : ℕ) (name : String) : Nas (String × String) := do
  let kc ← kv_get env (.getKey k) (keyPath name)
  match kc with
  | some data => do
    let akid ← jq_field env (.keyId k) data "access_key_id"
    let asec ← jq_field env (.keySecret k) data "secret_access_key"
    return (akid, asec)
  | none => return ("", "")

/-- The data of a credential. -/
def credential (akid asec : String) : Fields :=
  [("access_key_id", .str akid), ("secret_access_key", .str asec)]

/-- What `bao kv put` does to the world. -/
def put_credential (path akid asec : String) (w : NasWorld) : NasWorld :=
  { w with
    store := Function.update w.store path (some (credential akid asec))
    puts := w.puts ++ [⟨path, w.store path, akid, asec⟩] }

/-- A new credential for a key. -/
def create_key (k : ℕ) (name : String) : Nas (String × String) := do
  let id ← randhex env (.randId k) 12
  let asec ← randhex env (.randSecret k) 32
  let akid := "GK" ++ id
  let put ← Script.run env.toShellEnv (.putKey k) fun w =>
    (.ok (), put_credential (keyPath name) akid asec w)
  match put with
  | some _ => return (akid, asec)
  | none => Script.exit 1

/-- `. + {($n): {access_key_id: $a, secret_access_key: $s}}`: without a document there is
nothing to add to. -/
def add_key (k : ℕ) (name akid asec : String) (keys : Option Members) : Nas (Option Members) :=
  match keys with
  | some keys =>
    Script.run env.toShellEnv (.addKey k) (.query fun _ =>
      .ok (keys.set name (.obj (credential akid asec))))
  | none => return none

/-- The credential of a key: the one that is stored, or a new one. -/
def read_or_create (k : ℕ) (name : String) : Nas (String × String) := do
  let stored ← read_key env k name
  if malformed stored.1 stored.2 then create_key env k name else return stored

/-- One pass of the loop over the key names. -/
def provision_key (k : ℕ) (name : String) (keys : Option Members) : Nas (Option Members) :=
  if name = "" then return keys
  else do
    let pair ← read_or_create env k name
    add_key env k name pair.1 pair.2 keys

/-- The loop over the key names. -/
def provision_keys : ℕ → List String → Option Members → Nas (Option Members)
  | _, [], keys => return keys
  | k, name :: names, keys => do
    let keys ← provision_key env k name keys
    provision_keys (k + 1) names keys

/-! ### The variables of the play -/

/-- `_req`, and `|| exit 1`. -/
def required (path : String) : Nas Fields := do
  let data ← kv_get env (.read path) path
  match data with
  | some data => return data
  | none => Script.exit 1

/-- An optional field: the empty text, where it is not there. -/
def optional (path field : String) : Nas String :=
  Script.output env.toShellEnv (.read path) (.query fun w =>
    match (w.store path).bind (·.lookup field) with
    | some value => .ok (rawText env.text value ++ "\n")
    | none => .error 1)

/-- The jobs of Hyper Backup: `{}`, where there are none; nothing, where jq fails. -/
def hyper_backup : Nas (Option Json) := do
  let stored ← kv_get env (.read "secret/e4e-nas/hyper-backup") "secret/e4e-nas/hyper-backup"
  match stored with
  | some data => Script.run env.toShellEnv .backupData (.query fun _ => .ok (.obj data))
  | none => return some (.obj [])

/-- The names of the keys, or the end of the subshell. -/
def key_names (cfg : Config) : Nas (List String) := do
  let text ← Script.run env.toShellEnv .yq (.query fun _ => .ok cfg.keyNames)
  match text with
  | some text => return linesOf (captured text)
  | none => Script.exit 1

/-- `$(jq '.data.data' <<<"$group")` -/
def group_data (path : String) (data : Fields) : Nas (Option Fields) :=
  Script.run env.toShellEnv (.groupData path) (.query fun _ => .ok data)

/-- `if $value != "" then {name: $value} else {} end` -/
def unlessEmpty (name value : String) : Members :=
  if value ≠ "" then [(name, .str value)] else []

/-- The program of the last jq. -/
def vars_of (g u s : Fields) (hb : Json) (gk : Members) (oidc dsmsso adjoin : String) : Json :=
  .obj
    ([("garage_rpc_secret", g.get "rpc_secret"),
      ("garage_admin_token", g.get "admin_token"),
      ("garage_metrics_token", g.get "metrics_token"),
      ("garage_key_credentials", .obj gk),
      ("synology_user_passwords", .obj u),
      ("nas_admin_password", u.get "e4e-admin"),
      ("snmp_v3_auth_password", s.get "auth_password"),
      ("snmp_v3_priv_password", s.get "priv_password"),
      ("hyper_backup_secrets", hb)]
    ++ unlessEmpty "garage_ui_oidc_client_secret" oidc
    ++ unlessEmpty "dsm_sso_oidc_client_secret" dsmsso
    ++ unlessEmpty "ad_join_password" adjoin)

/-- What the last jq prints: an argument that is no JSON makes it fail. -/
def vars_document (g u s : Option Fields) (hb : Option Json) (gk : Option Members)
    (oidc dsmsso adjoin : String) : Option Json := do
  let g ← g
  let u ← u
  let s ← s
  let hb ← hb
  let gk ← gk
  return vars_of g u s hb gk oidc dsmsso adjoin

/-- The last jq, and its redirection: without a file jq is not run. -/
def write_vars (file : Bool) (document : Option Json) : Nas Unit :=
  if file then do
    let _ ← Script.run env.toShellEnv .vars fun w =>
      match document with
      | some document => (.ok (), { w with vars := some document })
      | none => (.error 1, w)
    return ()
  else return ()

/-- The play is started with what the vars file holds. -/
def run_playbook : Nas ℕ := do
  Script.note fun w => { w with starts := w.starts ++ [w.vars] }
  Script.status env.toShellEnv .playbook fun w => (.ok (), w)

/-- The subshell, from the loop over the key names on. -/
def nas_play (names : List String) (file : Bool) (garage users snmp : Fields)
    (oidc dsmsso adjoin : String) (hb : Option Json) : Nas ℕ := do
  let keys ← provision_keys env 0 names (some [])
  let g ← group_data env "secret/e4e-nas/garage" garage
  let u ← group_data env "secret/e4e-nas/users" users
  let s ← group_data env "secret/e4e-nas/snmp" snmp
  write_vars env file (vars_document g u s hb keys oidc dsmsso adjoin)
  run_playbook env

/-- The subshell, from the first secret on. -/
def nas_apply (cfg : Config) (file : Bool) : Nas ℕ := do
  let garage ← required env "secret/e4e-nas/garage"
  let users ← required env "secret/e4e-nas/users"
  let snmp ← required env "secret/e4e-nas/snmp"
  let oidc ← optional env "secret/e4e-nas/garage-ui-oidc" "client_secret"
  let dsmsso ← optional env "secret/e4e-nas/dsm-sso-oidc" "client_secret"
  let adjoin ← optional env "secret/e4e-nas/ad" "join_password"
  let hb ← hyper_backup env
  let names ← key_names env cfg
  nas_play env names file garage users snmp oidc dsmsso adjoin hb

/-- `trap 'shred -u "$vars_file" || rm -f "$vars_file"' EXIT` -/
def remove_vars : Nas Unit := do
  let shredded ← Script.run env.toShellEnv .shred fun w => (.ok (), { w with vars := none })
  match shredded with
  | some _ => return ()
  | none => do
    let _ ← Script.run env.toShellEnv .rm fun w => (.ok (), { w with vars := none })
    return ()

/-- The subshell. -/
def nas_body (cfg : Config) : Nas ℕ := do
  let _ ← Script.run env.toShellEnv .cd (.query fun _ => .ok ())
  let token ← Script.run env.toShellEnv .login (.query fun _ => .ok ())
  match token with
  | none => Script.exit 1
  | some _ => do
    let file ← Script.run env.toShellEnv .mktemp fun w => (.ok (), { w with vars := none })
    withFinally (nas_apply env cfg file.isSome) (remove_vars env)

/-- The Synology part of deploy-ansible.sh. -/
def deploy_synology (cfg : Config) : Nas Unit := do
  let rc ← Script.subshell (nas_body env cfg)
  if rc ≠ 0 then Script.exit 1 else return ()

/-- The world that a run ends in. -/
def final (cfg : Config) (store : Store) : NasWorld :=
  (outcomeOf (deploy_synology env cfg) (initial store)).2.now

end Program

end DeployAnsible
