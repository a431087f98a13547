/-
The drift report: `drift_detector.py` on whatever its files hold.

`run` compares a section of the spec with a snapshot of DSM, one resource after the other.  The
files may parse to any object, and the captured output of `synowebapi` may hold any JSON; each
check goes through them in its own way, and raises where it comes to an object that it cannot
use.  `run` catches four kinds of exceptions around the comparison, and two around the spec.

* `webapi_data`, `parse_enum`, `desired_tiers`, `_norm_rules` — what is read of a file;
* `diff_shares`, `diff_smb`, `diff_nfs`, `diff_acls` — the comparisons;
* `RESOURCES`, `check`, `run` — the report.
-/
import KrgInfra.CommandOutput
import KrgInfra.Dict
import KrgInfra.PyObject
import KrgInfra.ShareAcls
import Mathlib

namespace DriftReport

open PyObject Raising
open PyObject.Value (differs isText member)
open ShareAcls (Tier)

variable (rt : Runtime)

/-- A difference: what the spec has, and what DSM has. -/
structure D where
  resource : String
  key : Value
  desired : Value
  live : Value

def PROTO : List (String × ℤ) := [("SMB1", 1), ("SMB2", 2), ("SMB3", 3)]

/-- The shares that DSM and its packages make. -/
def AUTO_SHARES : List String :=
  ["homes", "home", "NetBackup", "photo", "web", "surveillance", "ActiveBackupforBusiness"]

/-! ### The output of DSM -/

/-- `ln.lstrip().startswith("{")`; bytes do not start with a text. -/
def startsWithBrace : Value → Except Exn Bool
  | .str ln => .ok (CommandOutput.startsWithBrace ln)
  | .bytes _ => .error .typeError
  | _ => .error .attributeError

/-- `next((i for i, ln in enumerate(lines) if ...), None)`, after `i` lines. -/
def firstBrace (i : ℕ) : List Value → Except Exn (Option ℕ)
  | [] => .ok none
  | ln :: lines => do
    if ← startsWithBrace ln then return some i
    firstBrace (i + 1) lines

/-- `lines[start:]`, as it is gone through. -/
def sliceFrom (lines : Value) (start : ℕ) : Except Exn Value :=
  match lines with
  | .str s => .ok (.str (String.ofList (s.toList.drop start)))
  | .bytes b => .ok (.bytes (b.drop start))
  | .list items => .ok (.list (items.drop start))
  | .tuple first second => .ok (.list ([first, second].drop start))
  | .dict _ =>
    if rt.hashes_slices then .error (.keyError ("slice(" ++ toString start ++ ", None, None)"))
    else .error .typeError
  | _ => .error .typeError

def textOf : Value → Except Exn String
  | .str s => .ok s
  | _ => .error .typeError

/-- `"\n".join(lines)` -/
def joinLines (lines : Value) : Except Exn String := do
  let items ← lines.iter
  let texts ← items.mapM textOf
  return Python.join texts

/-- The text of the answer: the lines from the first one that begins with a brace. -/
def capture (lines : Value) : Except Exn String := do
  let items ← lines.iter
  match ← firstBrace 0 items with
  | none => .error (.valueError "no JSON object in synowebapi output")
  | some start =>
    let rest ← sliceFrom rt lines start
    joinLines rest

def webapi_data (lines : Value) : Except Exn Value := do
  let text ← capture rt lines
  let answer ← rt.loads text
  answer.item rt "data"

/-- White space, as `bytes.strip` knows it. -/
def isByteSpace (n : ℕ) : Bool := (9 ≤ n && n ≤ 13) || n = 32

/-- `ln.strip()` -/
def strip : Value → Except Exn Value
  | .str s => .ok (.str (Python.strip s))
  | .bytes b =>
    .ok (.bytes ((b.dropWhile isByteSpace).reverse.dropWhile isByteSpace).reverse)
  | _ => .error .attributeError

/-- `s.endswith("Listed:")`, of a text or of bytes. -/
def endsListing : Value → Except Exn Bool
  | .str s => .ok ("Listed:".toList <:+ s.toList)
  | _ => .error .typeError

/-- The loop of `parse_enum`. -/
def namesFrom (seen : Bool) : List Value → Except Exn (List Value)
  | [] => .ok []
  | ln :: lines => do
    let s ← strip ln
    if seen then
      let names ← namesFrom true lines
      return if s.truthy then s :: names else names
    else
      let listing ← endsListing s
      namesFrom listing lines

def parse_enum (lines : Value) : Except Exn (List Value) := do
  let items ← lines.iter
  namesFrom false items

/-! ### Sets -/

/-- The element of a set. -/
def keyed (value : Value) : Except Exn (Key × Value) := do
  let key ← value.hash
  return (key, value)

/-- Of equal elements a set has the first one. -/
def setOf (elements : List (Key × Value)) : List (Key × Value) := Firsts.firsts Prod.fst elements

/-- The elements that are none of some others. -/
def without (elements : List (Key × Value)) (keys : List Key) : List (Key × Value) :=
  elements.filter fun element => element.1 ∉ keys

/-! ### Shares -/

/-- The differences of `diff_shares`, in the order of the names. -/
def diffNames (desired live : List (Key × Value)) : Except Exn (List D) := do
  let missing ← sorted Prod.snd (without desired (live.map Prod.fst))
  let extra ← sorted Prod.snd (without live (desired.map Prod.fst ++ AUTO_SHARES.map Key.str))
  return missing.map (fun n => ⟨"shares", n.2, .str "present", .str "absent"⟩) ++
    extra.map fun n => ⟨"shares", n.2, .str "absent (unmanaged)", .str "present"⟩

/-- `set(parse_enum(raw))` -/
def liveNames (raw : Value) : Except Exn (List (Key × Value)) := do
  let listed ← parse_enum raw
  let elements ← listed.mapM keyed
  return setOf elements

def diff_shares (spec snap : Value) : Except Exn (List D) := do
  let shares ← spec.get "shares" (.list [])
  let items ← shares.iter
  let names ← items.mapM fun s => s.item rt "name" >>= keyed
  let raw ← snap.get "shares_raw" (.list [])
  let live ← liveNames raw
  diffNames (setOf names) live

/-! ### SMB -/

/-- `PROTO[name]` -/
def protocol (name : Value) : Except Exn Value := do
  let key ← name.hash
  match key with
  | .str s =>
    match PROTO.lookup s with
    | some n => .ok (.int n)
    | none => .error (.keyError (rt.repr name))
  | _ => .error (.keyError (rt.repr name))

/-- The fields that DSM has otherwise: `live.get(name)` is compared with what is desired. -/
def fieldDrift (resource start : String) (live : Value) (desired : List (String × Value)) :
    Except Exn (List D) := do
  let found ← desired.mapM fun field => do
    let value ← live.get field.1 .null
    return (field, value)
  return (found.filter fun f => differs f.2 f.1.2).map fun f =>
    ⟨resource, .str (start ++ f.1.1), f.1.2, f.2⟩

def smbDesired (s : Value) : Except Exn (List (String × Value)) := do
  let enable ← s.get "enable" (.bool true)
  let minName ← s.get "min_protocol" (.str "SMB2")
  let minProtocol ← protocol rt minName
  let maxName ← s.get "max_protocol" (.str "SMB3")
  let maxProtocol ← protocol rt maxName
  let signing ← s.get "server_signing" (.bool true)
  let ntlm ← s.get "ntlmv1_auth" (.bool false)
  return [("enable_samba", .bool enable.truthy), ("smb_min_protocol", minProtocol),
    ("smb_max_protocol", maxProtocol),
    ("enable_server_signing", .int (if signing.truthy then 1 else 0)),
    ("enable_ntlmv1_auth", .bool ntlm.truthy)]

def diff_smb (spec snap : Value) : Except Exn (List D) := do
  let s ← spec.get "smb" (.dict [])
  let desired ← smbDesired rt s
  let raw ← snap.get "smb_raw" (.list [])
  let live ← webapi_data rt raw
  fieldDrift "smb" "" live desired

/-! ### NFS -/

/-- `json.dumps(sorted(rules, key=lambda r: r.get("client", "")), sort_keys=True)` -/
def _norm_rules (rules : Value) : Except Exn String := do
  let items ← rules.iter
  let clients ← items.mapM fun r => do
    let client ← r.get "client" (.str "")
    return (client, r)
  let ordered ← sorted Prod.fst clients
  dumps rt (.list (ordered.map Prod.snd))

def nfsDesired (n : Value) : Except Exn (List (String × Value)) := do
  let enable ← n.get "enable" (.bool true)
  let v4 ← n.get "nfsv4" (.bool true)
  let domain ← n.get "v4_domain" (.str "")
  return [("enable_nfs", .bool enable.truthy), ("enable_nfs_v4", .bool v4.truthy),
    ("nfs_v4_domain", domain)]

/-- `r["share"]: webapi_data(r["load"])["rule"]` -/
def liveRule (r : Value) : Except Exn (Key × Value) := do
  let share ← r.item rt "share"
  let load ← r.item rt "load"
  let data ← webapi_data rt load
  let rule ← data.item rt "rule"
  let key ← share.hash
  return (key, rule)

/-- `before + value`, of two texts. -/
def concat (before : String) (value : Value) : Except Exn Value := do
  let text ← textOf value
  return .str (before ++ text)

/-- One export. -/
def diffExport (live_rules : List (Key × Value)) (exp : Value) : Except Exn (List D) := do
  let share ← exp.item rt "share"
  let desired ← exp.get "rules" (.list [])
  let key ← share.hash
  let live := (live_rules.lookup key).getD (.list [])
  let wanted ← _norm_rules rt desired
  let found ← _norm_rules rt live
  if wanted = found then return []
  let name ← concat "rules." share
  return [⟨"nfs", name, desired, live⟩]

def diff_nfs (spec snap : Value) : Except Exn (List D) := do
  let n ← spec.get "nfs" (.dict [])
  let gdesired ← nfsDesired n
  let raw ← snap.get "nfs_global_raw" (.list [])
  let glive ← webapi_data rt raw
  let globals ← fieldDrift "nfs" "global." glive gdesired
  let rules ← snap.get "nfs_rules_raw" (.list [])
  let captured ← rules.iter
  let live_rules ← captured.mapM (liveRule rt)
  let exports ← spec.get "exports" (.list [])
  let declared ← exports.iter
  let drifts ← declared.mapM (diffExport rt (Dict.ofItems live_rules))
  return globals ++ drifts.flatten

/-! ### Share permissions -/

/-- `name in value`, of a text. -/
def contains (name : String) : Value → Except Exn Bool
  | .dict members => .ok (member members name).isSome
  | .str s => .ok (name.toList <:+: s.toList)
  | .list items => .ok (items.any (isText name))
  | .tuple first second => .ok (isText name first || isText name second)
  | .set items => .ok (items.any (isText name))
  | _ => .error .typeError

/-- `"@" + g["group"] if "group" in g else g["user"]` -/
def principal (g : Value) : Except Exn Value := do
  if ← contains "group" g then
    let group ← g.item rt "group"
    concat "@" group
  else g.item rt "user"

/-- `tier[str(access).lower()]` -/
def tierNamed (access : Value) : Except Exn Tier :=
  match ShareAcls.tierOf (rt.str access).toLower with
  | some t => .ok t
  | none => .error (.keyError (rt.repr (.str (rt.str access).toLower)))

/-- One grant. -/
def grant (g : Value) : Except Exn (Tier × Key × Value) := do
  let name ← principal rt g
  let access ← g.item rt "access"
  let tier ← tierNamed rt access
  let element ← keyed name
  return (tier, element)

def desired_tiers (grants : Value) : Except Exn (List (Tier × Key × Value)) := do
  let items ← grants.iter
  items.mapM (grant rt)

/-- The set of one tier. -/
def tierSet (t : Tier) (granted : List (Tier × Key × Value)) : List (Key × Value) :=
  setOf ((granted.filter fun g => g.1 = t).map Prod.snd)

/-- `des[t] != live[t]` -/
def tierDiffers (des : List (Key × Value)) (live : List String) : Bool :=
  !((des.all fun n => n.1 ∈ live.map Key.str) &&
    live.all fun name => Key.str name ∈ des.map Prod.fst)

/-- One tier of an entry. -/
def diffTier (share : Value) (granted : List (Tier × Key × Value)) (live : ShareAcls.Tiers)
    (t : Tier) : Except Exn (List D) := do
  if tierDiffers (tierSet t granted) (live t) = false then return []
  let des ← sorted id ((tierSet t granted).map Prod.snd)
  let found ← sorted id ((live t).dedup.map Value.str)
  return [⟨"acls", .str (rt.str share ++ "." ++ t.name), .list des, .list found⟩]

/-- `a["share"]: parse_list_acl("\n".join(a["list_acl"]))` -/
def liveAcl (a : Value) : Except Exn (Key × ShareAcls.Tiers) := do
  let share ← a.item rt "share"
  let lines ← a.item rt "list_acl"
  let text ← joinLines lines
  let key ← share.hash
  return (key, ShareAcls.parse_list_acl text)

/-- One entry. -/
def diffEntry (live_by_share : List (Key × ShareAcls.Tiers)) (entry : Value) :
    Except Exn (List D) := do
  let share ← entry.item rt "share"
  let grants ← entry.get "grants" (.list [])
  let granted ← desired_tiers rt grants
  let key ← share.hash
  let live := (live_by_share.lookup key).getD fun _ => []
  let drifts ← ShareAcls.tiers.mapM (diffTier rt share granted live)
  return drifts.flatten

def diff_acls (spec snap : Value) : Except Exn (List D) := do
  let captured ← snap.get "share_acls" (.list [])
  let items ← captured.iter
  let live_by_share ← items.mapM (liveAcl rt)
  let acls ← spec.get "acls" (.list [])
  let entries ← (if acls.truthy then acls else .list []).iter
  let drifts ← entries.mapM (diffEntry rt (Dict.ofItems live_by_share))
  return drifts.flatten

/-! ### The report -/

/-- The files of a resource, its comparison, and whether the spec has anything to check. -/
structure Resource where
  name : String
  spec_file : String
  suffix : String
  diff_fn : Runtime → Value → Value → Except Exn (List D)
  has_work : Value → Except Exn Bool

/-- `bool(sp.get(name))` -/
def hasSection (name : String) (sp : Value) : Except Exn Bool := do
  let found ← sp.get name .null
  return found.truthy

def shares : Resource := ⟨"shares", "shares.yml", "shares", diff_shares, hasSection "shares"⟩

def smb : Resource := ⟨"smb", "smb-globals.yml", "smb", diff_smb, hasSection "smb"⟩

/-- `bool(sp.get("nfs") or sp.get("exports"))` -/
def nfs : Resource where
  name := "nfs"
  spec_file := "nfs-exports.yml"
  suffix := "nfs"
  diff_fn := diff_nfs
  has_work sp := do
    if ← hasSection "nfs" sp then return true
    hasSection "exports" sp

def acls : Resource := ⟨"acls", "acls.yml", "acls", diff_acls, hasSection "acls"⟩

def RESOURCES : List Resource := [shares, smb, nfs, acls]

/-- Where the detector runs: the arguments, and what a file parses to, or what opening or parsing
it raises. -/
structure Env where
  spec_dir : String
  snapshot_dir : String
  host : String
  safe_load : String → Except Exn Value
  present : String → Bool

/-- `os.path.join` -/
def pathJoin (dir file : String) : String :=
  if file.toList.head? = some '/' then file
  else if dir = "" ∨ dir.toList.getLast? = some '/' then dir ++ file
  else dir ++ "/" ++ file

def Env.spec_path (env : Env) (r : Resource) : String := pathJoin env.spec_dir r.spec_file

def Env.snap_path (env : Env) (r : Resource) : String :=
  pathJoin env.snapshot_dir (env.host ++ "-" ++ r.suffix ++ ".yml")

/-- `yaml.safe_load(f) or {}` -/
def _load_yaml (env : Env) (path : String) : Except Exn Value := do
  let value ← env.safe_load path
  return if value.truthy then value else .dict []

/-- `except (OSError, yaml.YAMLError) as e`, with `str(e)`. -/
def specError : Exn → Option String
  | .osError message => some message
  | .yamlError message => some message
  | _ => none

/-- `except (OSError, yaml.YAMLError, ValueError, KeyError) as e`, with `str(e)`. -/
def diffError : Exn → Option String
  | .osError message => some message
  | .yamlError message => some message
  | .valueError message => some message
  | .keyError message => some message
  | _ => none

/-- `x`, or where it raises what is caught, an error entry. -/
def catching {α : Type} (caught : Exn → Option String) (start : String) (x : Except Exn α) :
    Except Exn (String ⊕ α) :=
  match x with
  | .ok a => .ok (.inr a)
  | .error e =>
    match caught e with
    | some message => .ok (.inl (start ++ message))
    | none => .error e

/-- `diff_fn(spec, _load_yaml(snap_path))` -/
def compare (env : Env) (r : Resource) (spec : Value) : Except Exn (List D) := do
  let snap ← _load_yaml env (env.snap_path r)
  r.diff_fn rt spec snap

/-- One turn of the loop: the result of a resource, and its differences. -/
def check (env : Env) (r : Resource) : Except Exn (String × List D) := do
  match ← catching specError "error: spec " (_load_yaml env (env.spec_path r)) with
  | .inl text => return (text, [])
  | .inr spec =>
    if (← r.has_work spec) = false then return ("ok", [])
    if env.present (env.snap_path r) = false then return ("no-snapshot", [])
    match ← catching diffError "error: " (compare rt env r spec) with
    | .inl text => return (text, [])
    | .inr found => return (if found.isEmpty then "ok" else "drift", found)

/-- The loop, with the results and the differences so far. -/
def runFrom (env : Env) : List Resource → List (String × String) × List D →
    Except Exn (List (String × String) × List D)
  | [], report => .ok report
  | r :: rs, (results, drifts) => do
    let (text, found) ← check rt env r
    runFrom env rs (results ++ [(r.name, text)], drifts ++ found)

def run (env : Env) : Except Exn (List (String × String) × List D) :=
  runFrom rt env RESOURCES ([], [])

end DriftReport
