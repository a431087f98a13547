/-
The helpers of SMB, NFS and share permissions in check mode, on what the role writes of a spec.

The role loads the files that the drift detector reads.  It writes flags and protocols into a
helper's command line as they are shown, other texts in quotes, and lists as JSON in quotes; what
the template, the shell and argparse make of such a line is the `Transport`.  A helper reads DSM's
answer, and reports a change where that is not what its arguments say.

* `Arg`, `Transport`, `Carried` — the command lines, and what is read back of them;
* `smbArgs`, `smbDrift` — `apply_smb.py`;
* `globalDesired`, `coerceLike`, `globalDrift`, `rulesDrift` — `apply_nfs.py`;
* `setuserDesired`, `setuserDrift` — `apply_acls.py setuser`;
* `Dsm`, `Changes` — what DSM answers, and what the role's calls report.
-/
import KrgInfra.DriftReadable
import Mathlib

namespace DriftAgreement

open PyObject DriftReport
open PyObject.Value (member memberOr differs same)
open ShareAcls (Tier)

/-! ### Command lines -/

/-- An option, and the object that the role writes after it, with or without `| quote`. -/
structure Arg where
  option : String
  value : Value
  quoted : Bool

/-- `{{ value }}`, of a flag or a text. -/
def shown : Value → Option String
  | .bool b => some (if b then "True" else "False")
  | .str s => some s
  | _ => none

/-- A text that the template, the shell and argparse leave as it is. -/
def Word (s : String) : Prop :=
  s ≠ "" ∧ s.toList.head? ≠ some '-' ∧ ∀ c ∈ s.toList, c.isAlphanum ∨ c ∈ ['.', '_', '-', ':']

/-- A text that they leave as it is where it stands in quotes: no template, and no option. -/
def Quotable (s : String) : Prop := s.toList.head? ≠ some '-' ∧ '\x7b' ∉ s.toList

/-- An option of which the helper gets what is shown of the object. -/
def Arg.Plain (a : Arg) : Prop :=
  if a.quoted then ∃ s, a.value = .str s ∧ Quotable s
  else (∃ b, a.value = .bool b) ∨ ∃ s, a.value = .str s ∧ Word s

mutual

/-- What comes back from JSON as it was: no dates and no sets, and texts that hold no template. -/
def Carried : Value → Prop
  | .bytes _ => False
  | .stamp _ _ => False
  | .set _ => False
  | .tuple _ _ => False
  | .str s => '\x7b' ∉ s.toList
  | .list items => CarriedItems items
  | .dict members => CarriedMembers members
  | _ => True

def CarriedItems : List Value → Prop
  | [] => True
  | item :: items => Carried item ∧ CarriedItems items

def CarriedMembers : List (Value × Value) → Prop
  | [] => True
  | (key, value) :: members => (∃ s, key = .str s ∧ '\x7b' ∉ s.toList) ∧ Carried value ∧
      CarriedMembers members

end

/-- What a helper gets of its command line, and Python's `str` of a text. -/
structure Transport (rt : Runtime) where
  /-- What argparse finds for each option; `none` where it, or the shell, rejects the line. -/
  arguments : List Arg → Option (String → Option String)
  /-- `json.loads` of an object with `| to_json | quote`, in a line that names a share. -/
  document : Value → Value → Option Value
  arguments_plain : ∀ args, (args.map Arg.option).Nodup → (∀ a ∈ args, a.Plain) →
    ∃ found, arguments args = some found ∧ ∀ a ∈ args, found a.option = shown a.value
  document_carried : ∀ share value, Quotable share → Carried value →
    document (.str share) value = some value
  str_text : ∀ s, rt.str (.str s) = s

variable {rt : Runtime} (t : Transport rt)

/-- `{{ spec.section }}`, of which a member that is not there is undefined. -/
def sectionOf (spec : List (Value × Value)) (name : String) : List (Value × Value) :=
  match member spec name with
  | some (.dict members) => members
  | _ => []

/-- `{{ spec.name | default([]) }}`, which a loop of the role goes over if it is a list. -/
def looped (spec : List (Value × Value)) (name : String) : List Value :=
  match memberOr spec name (.list []) with
  | .list items => items
  | _ => []

/-! ### SMB -/

/-- The arguments of `apply_smb.py`. -/
structure SmbArgs where
  min_protocol : Option String
  max_protocol : Option String
  enable : Option String
  server_signing : Option String
  ntlmv1_auth : Option String

def smbLine (spec : List (Value × Value)) : List Arg :=
  let smb := sectionOf spec "smb"
  [⟨"--enable", memberOr smb "enable" (.bool true), false⟩,
    ⟨"--min-protocol", minName smb, false⟩,
    ⟨"--max-protocol", maxName smb, false⟩,
    ⟨"--server-signing", memberOr smb "server_signing" (.bool true), false⟩,
    ⟨"--ntlmv1-auth", memberOr smb "ntlmv1_auth" (.bool false), false⟩]

/-- `choices=PROTO` -/
def choices : Option String → Bool
  | none => true
  | some name => (PROTO.lookup name).isSome

def smbArgs (spec : List (Value × Value)) : Option SmbArgs := do
  let found ← t.arguments (smbLine spec)
  if choices (found "--min-protocol") && choices (found "--max-protocol") then
    return ⟨found "--min-protocol", found "--max-protocol", found "--enable",
      found "--server-signing", found "--ntlmv1-auth"⟩
  else none

/-- `d[name] = PROTO[a]`, where the argument is given. -/
def protoField (name : String) : Option String → List (String × Value)
  | none => []
  | some a => if a = "" then [] else [(name, .int ((PROTO.lookup a).getD 0))]

/-- `d[name] = f(_bool(a))`, where the argument is given. -/
def flagField (name : String) (f : Bool → Value) : Option String → List (String × Value)
  | none => []
  | some a => [(name, f (Python.pyBool a))]

def desired_from_args (a : SmbArgs) : List (String × Value) :=
  protoField "smb_min_protocol" a.min_protocol ++ protoField "smb_max_protocol" a.max_protocol ++
    flagField "enable_samba" .bool a.enable ++
    flagField "enable_server_signing" (fun b => .int (if b then 1 else 0)) a.server_signing ++
    flagField "enable_ntlmv1_auth" .bool a.ntlmv1_auth

/-- Whether there is a `drift`; it is what the detector has for the fields. -/
def smbDrift (a : SmbArgs) (live : Value) : Except Exn Bool := do
  let found ← fieldDrift "smb" "" live (desired_from_args a)
  return !found.isEmpty

/-! ### NFS -/

def nfsLine (spec : List (Value × Value)) : List Arg :=
  let nfs := sectionOf spec "nfs"
  [⟨"--enable", memberOr nfs "enable" (.bool true), false⟩,
    ⟨"--nfsv4", memberOr nfs "nfsv4" (.bool true), false⟩,
    ⟨"--v4-domain", memberOr nfs "v4_domain" (.str ""), true⟩]

/-- `desired` of `do_global`. -/
def globalDesired (found : String → Option String) : List (String × Value) :=
  flagField "enable_nfs" .bool (found "--enable") ++
    flagField "enable_nfs_v4" .bool (found "--nfsv4") ++
    match found "--v4-domain" with
    | none => []
    | some domain => [("nfs_v4_domain", .str domain)]

variable (rt) in
/-- `_coerce_like(target, current_val)`, of a target that is a flag or a text. -/
def coerceLike (target current : Value) : Value :=
  if same false current .null || same false current target then current
  else
    match target, current with
    | .bool _, .bool _ => current
    | .bool _, .str s => .bool (Python.pyBool s)
    | .bool _, .int _ => .bool current.truthy
    | .bool _, .float _ => .bool current.truthy
    | .bool _, .minusZero => .bool current.truthy
    | .str _, .str _ => current
    | .str _, other => .str (rt.str other)
    | _, other => other

variable (rt) in
/-- Whether `do_global` has a `drift`. -/
def globalDrift (desired : List (String × Value)) (live : Value) : Except Exn Bool := do
  let found ← desired.mapM fun field => do
    let value ← live.get field.1 .null
    return (field.2, value)
  return found.any fun f => differs (coerceLike rt f.1 f.2) f.1

variable (rt) in
/-- `_norm`, which is the detector's word for word. -/
def _norm (rules : Value) : Except Exn String := _norm_rules rt rules

variable (rt) in
/-- Whether `do_share_rules` has a `drift`. -/
def rulesDrift (desired live : Value) : Except Exn Bool := do
  let current ← _norm rt live
  let wanted ← _norm rt desired
  return current ≠ wanted

/-! ### Share permissions -/

variable (rt) in
/-- The name of a grant; `none` where something is raised. -/
def grantName (g : Value) : Option Value := do
  if ← (contains "group" g).toOption then
    let group ← (g.item rt "group").toOption
    (concat "@" group).toOption
  else if ← (contains "user" g).toOption then (g.item rt "user").toOption
  else none

variable (rt) in
/-- `TIER.get(str(g.get("access", "")).lower())` -/
def grantTier (g : Value) : Option Tier := do
  let access ← (g.get "access" (.str "")).toOption
  tierOf rt access

variable (rt) in
/-- `tiers[tier].add(name)` -/
def setuserGrant (g : Value) : Option (Tier × Key × Value) := do
  let name ← grantName rt g
  let tier ← grantTier rt g
  let element ← (keyed name).toOption
  return (tier, element)

variable (rt) in
/-- `desired_tiers` of `apply_acls.py`. -/
def setuserDesired (grants : Value) : Option (List (Tier × Key × Value)) := do
  let items ← grants.elements
  items.mapM (setuserGrant rt)

/-- Whether `do_setuser` has a `drift`; of a tier that differs both lists are sorted. -/
def setuserDrift (granted : List (Tier × Key × Value)) (current : ShareAcls.Tiers) :
    Except Exn Bool := do
  let drifts ← ShareAcls.tiers.mapM fun tier =>
    if tierDiffers (tierSet tier granted) (current tier) then do
      let _ ← sorted id ((tierSet tier granted).map Prod.snd)
      return true
    else return false
  return drifts.any id

/-! ### The calls of the role -/

/-- A section of a spec; an export, or a list of grants, is known by its share. -/
inductive Section where
  | smb
  | nfs
  | rules (share : String)
  | acls (share : String)

/-- What DSM answers: the settings of SMB and NFS, the rules of a share, and its permissions. -/
structure Dsm where
  smb : Value
  nfs : Value
  rules : String → Value
  list_acl : String → String

/-- The spec of a resource. -/
def Loads (env : Env) (r : Resource) (spec : List (Value × Value)) : Prop :=
  _load_yaml env (env.spec_path r) = .ok (.dict spec)

variable (env : Env) (dsm : Dsm)

/-- A helper, called with `--check` on what the role writes of the section, reports a change. -/
def Changes : Section → Prop
  | .smb => ∃ spec a, Loads env smb spec ∧ smbArgs t spec = some a ∧
      smbDrift a dsm.smb = .ok true
  | .nfs => ∃ spec found, Loads env nfs spec ∧ t.arguments (nfsLine spec) = some found ∧
      globalDrift rt (globalDesired found) dsm.nfs = .ok true
  | .rules share => ∃ spec members value desired, Loads env nfs spec ∧
      .dict members ∈ looped spec "exports" ∧ member members "share" = some value ∧
      rt.str value = share ∧
      t.document value (memberOr members "rules" (.list [])) = some desired ∧
      rulesDrift rt desired (dsm.rules share) = .ok true
  | .acls share => ∃ spec members value grants granted, Loads env acls spec ∧
      .dict members ∈ looped spec "acls" ∧ member members "share" = some value ∧
      rt.str value = share ∧
      t.document value (memberOr members "grants" (.list [])) = some grants ∧
      setuserDesired rt grants = some granted ∧
      setuserDrift granted (ShareAcls.parse_list_acl (dsm.list_acl share)) = .ok true

end DriftAgreement
