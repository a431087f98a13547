/-
Garage's buckets and access keys: `apply_garage.py sync-buckets` and `sync-keys`.

Both read the cluster first and plan from what they have read; a plan that is not empty is
reported in check mode, and carried out otherwise.

* `_cors_api_rule`, `_permissions_dict` — the rules and permissions of the spec;
* `bucket_plan`, `do_sync_buckets` — buckets that are missing, and rules that differ;
* `key_plan`, `do_sync_keys` — access keys that are missing, files that differ, and grants.

The texts that are printed are left out; an `Outcome` says which of them it is.
-/
import KrgInfra.GarageAdmin
import KrgInfra.Python

namespace Garage

open Registers Python

variable {P π : Type}

/-! ### The spec -/

/-- A rule of `buckets[].cors`; a list that is absent, or null, is empty. -/
structure CorsRule where
  allowed_origins : List String
  allowed_methods : List String
  allowed_headers : List String
  expose_headers : List String
  id : Option String
  max_age_seconds : Option ℤ

/-- An entry of `buckets`; a bare name has no rules. -/
structure BucketSpec where
  name : String
  cors : List CorsRule

/-- An entry of a key's `buckets`. -/
structure GrantSpec where
  name : String
  permissions : List String

/-- An entry of `keys`. -/
structure KeySpec where
  name : String
  buckets : List GrantSpec

/-- A credential of `GARAGE_KEY_CREDENTIALS_JSON`; a part that is absent is empty. -/
structure Credential where
  access_key_id : String
  secret_access_key : String

/-- What of a rule is malformed, and in which bucket. -/
inductive CorsError
  | no_origins (bucket : String)
  | no_methods (bucket : String)
  | invalid_methods (bucket : String) (bad : List String)
  deriving DecidableEq

/-- What is read before anything is changed. -/
inductive Read
  | listBuckets
  | listKeys
  | bucketInfo (key : Option String) (bucket : String)
  | env (key : String)
  deriving DecidableEq

/-- Why a command fails; the last is a call that is refused, or not answered. -/
inductive Failure (P : Type)
  | unset (var : String)
  | invalid_json (arg error : String)
  | invalid_bucket_spec (error : CorsError)
  | missing_cred (keys : List String)
  | invalid_permissions (bad : List String)
  | unanswered (read : Read)
  | bucket_not_found (key bucket : String)
  | duplicate_name (name : String)
  | id_mismatch (keys : List (String × String × String))
  | call (call : Call P)
  deriving DecidableEq

/-- What of the outside a run depends on: which reads and calls are answered, and the ids of new
buckets. -/
structure Env where
  read : Read → Bool
  call : ℕ → Bool
  created : String → String

/-- The interpreter's `str.lower`, and the file that a path leads to. -/
structure Host (P : Type) where
  lower : String → String
  locate : String → P

/-! ### Check and apply -/

/-- What a command prints. -/
inductive Outcome (P π : Type)
  | no_change
  | would_change (payload : π)
  | changed (payload : π)
  | fail (failure : Failure P)
  deriving DecidableEq

/-- A run: what it prints, the calls it has made, and the world after it. -/
structure Result (P π : Type) where
  outcome : Outcome P π
  calls : List (Call P)
  after : World P

/-- What a command has found out before it changes anything. -/
structure Plan (P π : Type) where
  payload : π
  changed : Bool
  calls : List (Call P)

/-- A failure, if there is one. -/
def refuse : Option (Failure P) → Except (Failure P) Unit
  | none => .ok ()
  | some failure => .error failure

/-- The end of both commands. -/
def conclude [DecidableEq P] (check : Bool) (env : Env) (w : World P) :
    Except (Failure P) (Plan P π) → Result P π
  | .error failure => ⟨.fail failure, [], w⟩
  | .ok plan =>
    if plan.changed = false then ⟨.no_change, [], w⟩
    else if check then ⟨.would_change plan.payload, [], w⟩
    else
      let trace := perform Call.run env.call plan.calls w
      ⟨match trace.failed with
        | none => .changed plan.payload
        | some call => .fail (.call call), trace.calls, trace.after⟩

/-! ### `sync-buckets` -/

/-- `_CORS_METHODS` -/
def _CORS_METHODS : List String := ["GET", "HEAD", "PUT", "POST", "DELETE", "PATCH", "OPTIONS"]

/-- The rule that is sent for a rule of the spec. -/
def apiRule (host : Host P) (rule : CorsRule) : ApiRule where
  AllowedOrigin := some rule.allowed_origins
  AllowedMethod := some rule.allowed_methods
  AllowedHeader := some (rule.allowed_headers.map host.lower)
  ExposeHeader := some rule.expose_headers
  ID := rule.id
  MaxAgeSeconds := rule.max_age_seconds

/-- `_cors_api_rule(rule, bucket)` -/
def _cors_api_rule (host : Host P) (rule : CorsRule) (bucket : String) :
    Except CorsError ApiRule :=
  let bad := rule.allowed_methods.filter fun m => m ∉ _CORS_METHODS
  if rule.allowed_origins = [] then .error (.no_origins bucket)
  else if rule.allowed_methods = [] then .error (.no_methods bucket)
  else if bad ≠ [] then .error (.invalid_methods bucket bad)
  else .ok (apiRule host rule)

/-- `desired_cors`: the last entry of a name counts. -/
def desired_cors (host : Host P) (desired : List BucketSpec) :
    Except CorsError (List (String × List ApiRule)) :=
  desired.foldlM (fun d b => do
    let rules ← b.cors.mapM fun r => _cors_api_rule host r b.name
    return Dict.set d b.name rules) []

/-- The arguments of `sync-buckets`; `buckets_json` is an error where it is not JSON, or has not
the shape of a spec. -/
structure BucketArgs where
  admin_token : String
  buckets_json : Except String (List BucketSpec)

/-- The payload of `sync-buckets`. -/
structure BucketPayload where
  buckets_to_create : List String
  cors_to_set : List String
  deriving DecidableEq

/-- The spec with its rules. -/
def bucket_spec (host : Host P) (a : BucketArgs) :
    Except (Failure P) (List String × List (String × List ApiRule)) := do
  refuse (if a.admin_token = "" then some (.unset "GARAGE_ADMIN_TOKEN") else none)
  let desired ← a.buckets_json.mapError (.invalid_json "--buckets-json")
  let cors ← (desired_cors host desired).mapError .invalid_bucket_spec
  return (desired.map BucketSpec.name, cors)

/-- The rules that are declared for a bucket. -/
def wanted (cors : List (String × List ApiRule)) (name : String) : List ApiRule :=
  (cors.lookup name).getD []

/-- `missing` -/
def missing (desired_names : List String) (c : Cluster) : List String :=
  desired_names.filter fun name => c.idOf name = none

/-- `cors_to_set`: a new bucket has no rules; the other ones are read back. -/
def cors_to_set (desired_names : List String) (cors : List (String × List ApiRule))
    (c : Cluster) : List (String × List ApiRule) :=
  desired_names.filterMap fun name =>
    let want := wanted cors name
    match c.idOf name with
    | none => if want = [] then none else some (name, want)
    | some id =>
      if _cors_canonical (c.corsRules id) = _cors_canonical want then none else some (name, want)

/-- The first bucket that is there and whose rules cannot be read. -/
def bucket_unread (desired_names : List String) (env : Env) (c : Cluster) : Option (Failure P) :=
  desired_names.findSome? fun name =>
    if (c.idOf name).isSome && !env.read (.bucketInfo none name) then
      some (.unanswered (.bucketInfo none name))
    else none

/-- The calls of `sync-buckets`: `bucket_id_by_alias` has the ids of the new buckets by the time
that the rules are sent. -/
def bucket_calls (env : Env) (c : Cluster) (missing : List String)
    (cors_to_set : List (String × List ApiRule)) : List (Call P) :=
  missing.map (fun name => .createBucket name (env.created name)) ++
    cors_to_set.map fun item =>
      .updateBucket ((c.idOf item.1).getD (env.created item.1)) item.2

def bucket_plan (host : Host P) (a : BucketArgs) (env : Env) (w : World P) :
    Except (Failure P) (Plan P BucketPayload) := do
  let (desired_names, cors) ← bucket_spec host a
  refuse (if env.read .listBuckets then none else some (.unanswered .listBuckets))
  refuse (bucket_unread desired_names env w.cluster)
  let missing := missing desired_names w.cluster
  let cors_to_set := cors_to_set desired_names cors w.cluster
  return {
    payload := ⟨missing, cors_to_set.map Prod.fst⟩
    changed := missing ≠ [] || cors_to_set ≠ []
    calls := bucket_calls env w.cluster missing cors_to_set }

/-- `do_sync_buckets(a)` -/
def do_sync_buckets [DecidableEq P] (host : Host P) (a : BucketArgs) (check : Bool) (env : Env)
    (w : World P) : Result P BucketPayload :=
  conclude check env w (bucket_plan host a env w)

/-! ### `sync-keys` -/

def Flag.name : Flag → String
  | .read => "read"
  | .write => "write"
  | .owner => "owner"

/-- The permissions of a list. -/
def declared (perm_list : List String) : Finset Flag :=
  Finset.univ.filter fun f => f.name ∈ perm_list

/-- `_permissions_dict(perm_list)`; the error has the names that are none of permissions. -/
def _permissions_dict (perm_list : List String) : Except (List String) (Finset Flag) :=
  let bad := perm_list.filter fun p => p ∉ ["read", "write", "owner"]
  if bad = [] then .ok (declared perm_list) else .error bad

/-- The arguments of `sync-keys`; `credentials` is `none` where the variable is not set, and both
are errors where they are not JSON. -/
structure KeyArgs where
  admin_token : String
  keys_json : Except String (List KeySpec)
  credentials : Option (Except String (String → Credential))
  keys_dir : String

inductive Op
  | allow
  | deny
  deriving DecidableEq

/-- An entry of `grant_ops`. -/
structure GrantOp where
  key : String
  bucket : String
  bucket_id : String
  op : Op
  perms : Finset Flag
  deriving DecidableEq

/-- A grant of the payload; the permissions are in the order of their names. -/
structure GrantPayload where
  key : String
  bucket : String
  op : Op
  permissions : List String
  deriving DecidableEq

/-- The payload of `sync-keys`. -/
structure KeyPayload where
  keys_to_import : List String
  env_to_write : List String
  grant_ops : List GrantPayload
  deriving DecidableEq

/-- `missing_cred` -/
def missing_cred (desired_keys : List KeySpec) (key_creds : String → Credential) : List String :=
  (desired_keys.map KeySpec.name).filter fun name =>
    (key_creds name).access_key_id = "" || (key_creds name).secret_access_key = ""

/-- The spec with its credentials. -/
def key_spec (a : KeyArgs) : Except (Failure P) (List KeySpec × (String → Credential)) := do
  refuse (if a.admin_token = "" then some (.unset "GARAGE_ADMIN_TOKEN") else none)
  let desired_keys ← a.keys_json.mapError (.invalid_json "--keys-json")
  let key_creds ← match a.credentials with
    | none => .error (.unset "GARAGE_KEY_CREDENTIALS_JSON")
    | some creds => creds.mapError (.invalid_json "GARAGE_KEY_CREDENTIALS_JSON")
  let missing := missing_cred desired_keys key_creds
  refuse (if missing = [] then none else some (.missing_cred missing))
  desired_keys.forM fun kspec => kspec.buckets.forM fun bspec =>
    ((_permissions_dict bspec.permissions).map fun _ => ()).mapError .invalid_permissions
  return (desired_keys, key_creds)

/-- The first bucket of a key that is not there. -/
def unknown_bucket (desired_keys : List KeySpec) (c : Cluster) : Option (Failure P) :=
  desired_keys.findSome? fun kspec => kspec.buckets.findSome? fun bspec =>
    if c.idOf bspec.name = none then some (.bucket_not_found kspec.name bspec.name) else none

/-- `key_id_by_name` -/
def key_id_by_name (keys : List (String × String)) :
    Except (Failure P) (List (String × String)) :=
  keys.foldlM (fun d k =>
    if k.2 ∈ Dict.keys d then .error (.duplicate_name k.2) else .ok (Dict.set d k.2 k.1)) []

/-- `id_mismatch` -/
def id_mismatch (desired_keys : List KeySpec) (key_creds : String → Credential)
    (ids : List (String × String)) : List (String × String × String) :=
  (desired_keys.map KeySpec.name).filterMap fun name =>
    let want := (key_creds name).access_key_id
    (ids.lookup name).bind fun id => if id = want then none else some (name, id, want)

/-- `os.path.join(first, second)` -/
def pathJoin (first second : String) : String :=
  if second.toList.head? = some '/' then second
  else if first = "" ∨ first.toList.getLast? = some '/' then first ++ second
  else first ++ "/" ++ second

/-- `secret_path(name)` -/
def secret_path (a : KeyArgs) (name : String) : String := pathJoin a.keys_dir (name ++ ".env")

/-- `env_body(name)` -/
def env_body (key_creds : String → Credential) (name : String) : String :=
  "ACCESS_KEY_ID=" ++ (key_creds name).access_key_id ++ "\nSECRET_ACCESS_KEY=" ++
    (key_creds name).secret_access_key ++ "\n"

/-- The first thing that cannot be read of what the plan compares. -/
def key_unread (desired_keys : List KeySpec) (ids : List (String × String)) (env : Env) :
    Option (Failure P) :=
  ((desired_keys.map fun kspec => Read.env kspec.name) ++
    (desired_keys.filter fun kspec => (ids.lookup kspec.name).isSome).flatMap fun kspec =>
      kspec.buckets.map fun bspec => Read.bucketInfo (some kspec.name) bspec.name).findSome?
    fun read => if env.read read then none else some (.unanswered read)

/-- `to_import` -/
def to_import (desired_keys : List KeySpec) (ids : List (String × String)) : List String :=
  (desired_keys.map KeySpec.name).filter fun name => ids.lookup name = none

/-- `env_to_write` -/
def env_to_write (host : Host P) (a : KeyArgs) (desired_keys : List KeySpec)
    (key_creds : String → Credential) (w : World P) : List String :=
  (desired_keys.map KeySpec.name).filter fun name =>
    (w.files (host.locate (secret_path a name))).map readText ≠ some (env_body key_creds name)

/-- `current_perms`: a key that is not there yet has none. -/
def current_perms (c : Cluster) (ids : List (String × String)) (key bucket_id : String) :
    Finset Flag :=
  match ids.lookup key with
  | none => ∅
  | some key_id => c.perms bucket_id key_id

/-- `grant_ops`, of one entry of a key. -/
def entry_ops (c : Cluster) (ids : List (String × String)) (kspec : KeySpec)
    (bspec : GrantSpec) : List GrantOp :=
  let desired_perms := declared bspec.permissions
  let bucket_id := (c.idOf bspec.name).getD ""
  let current_perms := current_perms c ids kspec.name bucket_id
  let to_allow := desired_perms \ current_perms
  let to_deny := current_perms \ desired_perms
  (if to_allow = ∅ then [] else [⟨kspec.name, bspec.name, bucket_id, .allow, to_allow⟩]) ++
    if to_deny = ∅ then [] else [⟨kspec.name, bspec.name, bucket_id, .deny, to_deny⟩]

/-- `grant_ops` -/
def grant_ops (c : Cluster) (ids : List (String × String)) (desired_keys : List KeySpec) :
    List GrantOp :=
  desired_keys.flatMap fun kspec => kspec.buckets.flatMap (entry_ops c ids kspec)

def GrantOp.payload (op : GrantOp) : GrantPayload where
  key := op.key
  bucket := op.bucket
  op := op.op
  permissions := ([Flag.owner, .read, .write].filter (· ∈ op.perms)).map Flag.name

/-- The request of an entry of `grant_ops`, for the id of its key. -/
def GrantOp.call (key_id : String) (op : GrantOp) : Call P :=
  match op.op with
  | .allow => .allowBucketKey op.bucket_id key_id op.perms
  | .deny => .denyBucketKey op.bucket_id key_id op.perms

/-- The calls of `sync-keys`: `key_id_by_name` has the ids of the new keys by the time that the
grants are sent. -/
def key_calls (host : Host P) (a : KeyArgs) (key_creds : String → Credential)
    (ids : List (String × String)) (to_import env_to_write : List String)
    (grant_ops : List GrantOp) : List (Call P) :=
  .makedirs a.keys_dir :: (to_import.map fun name =>
      .importKey (key_creds name).access_key_id (key_creds name).secret_access_key name) ++
    (env_to_write.map fun name =>
      .atomicWrite (host.locate (secret_path a name)) (env_body key_creds name)) ++
    grant_ops.map fun op =>
      op.call ((ids.lookup op.key).getD (key_creds op.key).access_key_id)

def key_plan (host : Host P) (a : KeyArgs) (env : Env) (w : World P) :
    Except (Failure P) (Plan P KeyPayload) := do
  let (desired_keys, key_creds) ← key_spec a
  refuse (if env.read .listBuckets then none else some (.unanswered .listBuckets))
  refuse (unknown_bucket desired_keys w.cluster)
  refuse (if env.read .listKeys then none else some (.unanswered .listKeys))
  let ids ← key_id_by_name w.cluster.keys
  let mismatch := id_mismatch desired_keys key_creds ids
  refuse (if mismatch = [] then none else some (.id_mismatch mismatch))
  refuse (key_unread desired_keys ids env)
  let to_import := to_import desired_keys ids
  let env_to_write := env_to_write host a desired_keys key_creds w
  let grant_ops := grant_ops w.cluster ids desired_keys
  return {
    payload := ⟨to_import, env_to_write, grant_ops.map GrantOp.payload⟩
    changed := to_import ≠ [] || env_to_write ≠ [] || grant_ops ≠ []
    calls := key_calls host a key_creds ids to_import env_to_write grant_ops }

/-- `do_sync_keys(a)` -/
def do_sync_keys [DecidableEq P] (host : Host P) (a : KeyArgs) (check : Bool) (env : Env)
    (w : World P) : Result P KeyPayload :=
  conclude check env w (key_plan host a env w)

end Garage
