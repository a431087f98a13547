/-
DSM share permissions: `apply_acls.py` and the detector's `diff_acls`.

A share has three lists of principals (`@name` is a group).  `setuser` sets the lists of one
share to those that `acls.yml` declares; `admin-grants` adds the AD admin groups to the
read-write list of every share of `shares.yml`.  Both read what `synoshare --list_acl` prints
and change only what differs.

* `parse_list_acl` — the lists of a listing;
* `desired_tiers`, `Drift.desired_tiers` — the lists that are declared, by the helper and by the
  detector, and `desired_tiers_eq`;
* `Dsm`, `setuser` — what `synoshare --setuser` does to a list;
* `do_setuser`, `do_admin_grants`, `play` — the two commands, and the steps of the role.
-/
import KrgInfra.Json
import KrgInfra.Python
import Mathlib.Data.List.Sort

namespace ShareAcls

inductive Tier where
  | RW
  | RO
  | NA
deriving DecidableEq, Repr

/-- `("RW", "RO", "NA")` -/
def tiers : List Tier := [.RW, .RO, .NA]

def Tier.name : Tier → String
  | .RW => "RW"
  | .RO => "RO"
  | .NA => "NA"

/-- The principals of a share, as sets. -/
abbrev Tiers : Type := Tier → List String

/-! ### Listings -/

/-- `\s*\.*\[(.*?)\]`, at the start of a text: what stands in the brackets. -/
def brackets (text : List Char) : Option (List Char) :=
  match (text.dropWhile Python.isspace).dropWhile (· = '.') with
  | '[' :: rest =>
    match rest.dropWhile fun c => c ≠ ']' ∧ c ≠ '\n' with
    | ']' :: _ => some (rest.takeWhile fun c => c ≠ ']' ∧ c ≠ '\n')
    | _ => none
  | _ => none

/-- `re.search(r"ACL RW List\s*\.*\[(.*?)\]", out)`: the first place where it matches. -/
def search (title : List Char) : List Char → Option (List Char)
  | [] => none
  | c :: text =>
    if title <+: c :: text then
      (brackets ((c :: text).drop title.length)).or (search title text)
    else search title text

/-- `{x for x in text.split(",") if x}` -/
def items (text : List Char) : List String :=
  ((text.splitOn ',').filter (· ≠ [])).map String.ofList

def parse_list_acl (out : String) : Tiers := fun t =>
  match search ("ACL ".toList ++ t.name.toList ++ " List".toList) out.toList with
  | some text => items text
  | none => []

example : (parse_list_acl "\t ACL RO List .....[myadmin]\n\t ACL RW List .....[@rigtest,bob]\n") .RW =
    ["@rigtest", "bob"] := by decide +kernel

/-! ### Declared lists -/

/-- The declared principals of a share; a `user` may be any scalar. -/
abbrev Desired : Type := Tier → List Json

/-- `TIER.get(name)` -/
def tierOf (access : String) : Option Tier :=
  if access = "rw" then some .RW
  else if access = "ro" then some .RO
  else if access = "no" then some .NA
  else none

/-- `str(access).lower()`, as far as it may be the name of a tier. -/
def lowered : Json → String
  | .str s => s.toLower
  | _ => ""

/-- What a set can hold. -/
def hashable : Json → Bool
  | .arr _ => false
  | .obj _ => false
  | _ => true

/-- `for g in grants` -/
def elements : Json → Option (List Json)
  | .arr grants => some grants
  | .obj members => some (members.map fun m => .str m.1)
  | .str s => some (s.toList.map fun c => .str (String.singleton c))
  | _ => none

/-- `tiers[tier].add(name)` -/
def addName (d : Desired) (t : Tier) (name : Json) : Desired := fun t' =>
  if t' = t then d t' ++ [name] else d t'

/-- `"@" + g["group"]`, of a text. -/
def atGroup : Json → Option Json
  | .str group => some (.str ("@" ++ group))
  | _ => none

/-- The name of a grant; `none` where there is none, or where it raises. -/
def principal (g : Members) : Option Json :=
  match g.lookup "group" with
  | some group => atGroup group
  | none => g.lookup "user"

/-- `TIER.get(str(g.get("access", "")).lower())` -/
def accessTier (g : Members) : Option Tier :=
  tierOf (lowered ((g.lookup "access").getD (.str "")))

/-- One grant of `desired_tiers`; `none` where it raises or exits. -/
def addGrant (d : Desired) (g : Json) : Option Desired :=
  match g with
  | .obj members =>
    (principal members).bind fun name => (accessTier members).bind fun t =>
      if hashable name then some (addName d t name) else none
  | _ => none

def noNames : Desired := fun _ => []

/-- `desired_tiers` of the helper. -/
def desired_tiers (grants : Json) : Option Desired :=
  (elements grants).bind fun gs => gs.foldlM addGrant noNames

namespace Drift

/-- `"@" + g["group"] if "group" in g else g["user"]` -/
def principal (g : Members) : Option Json :=
  if (g.lookup "group").isSome then (g.lookup "group").bind atGroup else g.lookup "user"

/-- `tier[str(g["access"]).lower()]` -/
def accessTier (g : Members) : Option Tier := (g.lookup "access").bind fun a => tierOf (lowered a)

/-- One grant, as the detector reads it. -/
def addGrant (d : Desired) (g : Json) : Option Desired :=
  match g with
  | .obj members =>
    (Drift.principal members).bind fun name => (Drift.accessTier members).bind fun t =>
      if hashable name then some (addName d t name) else none
  | _ => none

/-- `desired_tiers` of the detector. -/
def desired_tiers (grants : Json) : Option Desired :=
  (elements grants).bind fun gs => gs.foldlM addGrant noNames

end Drift

/-! ### Comparison -/

/-- Whether two sets are equal: the declared one, and that of the listing. -/
def sameNames (desired : List Json) (current : List String) : Bool :=
  (desired.all fun n => current.any fun c => Json.pyEq n (.str c)) &&
    current.all fun c => desired.any fun n => Json.pyEq n (.str c)

/-- Whether all values are texts, or all are numbers. -/
def comparable (values : List Json) : Bool :=
  (values.all fun v => match v with | .str _ => true | _ => false) ||
    values.all fun v => v.number.isSome

/-- Whether `sorted` takes the elements of a set: one element is not compared. -/
def sortable (names : List Json) : Bool :=
  comparable names || names.all fun n => names.all fun m => Json.pyEq n m

/-- The lists that differ; `none` where one of them cannot be sorted for the report. -/
def drifted (desired : Desired) (current : Tiers) : Option (List Tier) :=
  let drift := tiers.filter fun t => !sameNames (desired t) (current t)
  if drift.all fun t => sortable (desired t) then some drift else none

/-- `do_setuser` in check mode: the lists that it would set. -/
def checkSetuser (grants : Json) (current : Tiers) : Option (List Tier) :=
  (desired_tiers grants).bind fun desired => drifted desired current

/-- `diff_acls`, of one entry. -/
def diff_acls (grants : Json) (live : Tiers) : Option (List Tier) :=
  (Drift.desired_tiers grants).bind fun desired => drifted desired live

/-! ### `synoshare` -/

/-- The permissions of all shares, as they are listed. -/
abbrev State : Type := String → Tiers

inductive Op where
  | set
  | add
deriving DecidableEq, Repr

/-- `synoshare --setuser share tier op names`, with the names in one text. -/
structure Call where
  share : String
  tier : Tier
  op : Op
  names : String
deriving DecidableEq

/-- DSM: which principals it knows, and which calls it refuses.  A name that it does not know is
dropped, and one that it knows can be listed. -/
structure Dsm where
  kept : String → Bool
  refuses : Call → Bool
  kept_ne_empty : kept "" = false
  kept_no_comma : ∀ name, kept name = true → ',' ∉ name.toList

/-- `",".join(names)` -/
def join (names : List String) : String :=
  String.ofList ([','].intercalate (names.map String.toList))

/-- The principals that DSM takes out of a text. -/
def Dsm.taken (dsm : Dsm) (text : String) : List String :=
  ((text.toList.splitOn ',').map String.ofList).filter fun name => dsm.kept name

/-- The permissions with one list changed. -/
def State.put (s : State) (share : String) (tier : Tier) (names : List String) : State :=
  fun share' t => if share' = share ∧ t = tier then names else s share' t

/-- What a call does; `none` where DSM refuses it. -/
def setuser (dsm : Dsm) (s : State) (c : Call) : Option State :=
  if dsm.refuses c then none
  else
    match c.op with
    | .set => some (s.put c.share c.tier (dsm.taken c.names))
    | .add => some (s.put c.share c.tier (s c.share c.tier ++ dsm.taken c.names))

/-! ### The commands -/

/-- What a command has done: whether it reports a change, its calls, each with the permissions
after it, and the permissions at its end. -/
structure Run where
  changed : Bool
  calls : List (Call × State)
  state : State

/-- A run that does nothing. -/
def Run.none (s : State) : Run := ⟨false, [], s⟩

/-- `sorted(names)` -/
def sorted (names : List String) : List String := names.insertionSort (fun a b => ¬ b < a)

/-- The texts of a list that has nothing else. -/
def texts (names : List Json) : Option (List String) :=
  names.mapM fun n => match n with | .str s => some s | _ => none

/-- The calls of a command, one after the other. -/
def runCalls (dsm : Dsm) : List Call → State → Option (List (Call × State) × State)
  | [], s => some ([], s)
  | c :: cs, s => do
    let s' ← setuser dsm s c
    let (calls, s'') ← runCalls dsm cs s'
    return ((c, s') :: calls, s'')

/-- `--setuser share t = names`, of a list of declared principals. -/
def setCall (share : String) (desired : Desired) (t : Tier) : Option Call :=
  (texts (desired t)).map fun names => ⟨share, t, .set, join (sorted names.dedup)⟩

/-- `do_setuser` -/
def do_setuser (dsm : Dsm) (share : String) (grants : Json) (s : State) : Option Run := do
  let desired ← desired_tiers grants
  let drift ← drifted desired (s share)
  if drift = [] then return Run.none s
  let calls ← drift.mapM (setCall share desired)
  let (done, s') ← runCalls dsm calls s
  return ⟨true, done, s'⟩

/-- `sorted(desired - current)` -/
def missing (desired current : List String) : List String :=
  sorted (desired.dedup.filter fun name => name ∉ current)

/-- `do_admin_grants`, for the read-write list. -/
def do_admin_grants (dsm : Dsm) (shares desired : List String) (s : State) : Option Run :=
  let per_share := (sorted shares.dedup).filter fun share => missing desired (s share .RW) ≠ []
  if per_share = [] then some (Run.none s)
  else do
    let calls := per_share.map fun share =>
      ⟨share, .RW, .add, join (missing desired (s share .RW))⟩
    let (done, s') ← runCalls dsm calls s
    return ⟨true, done, s'⟩

/-! ### The role -/

/-- The specs: `acls.yml`, the names of `shares.yml`, and the principals of the admin groups. -/
structure Spec where
  acls : List (String × Json)
  shares : List String
  admins : List String

/-- Two runs, one after the other. -/
def Run.append (a b : Run) : Run := ⟨a.changed || b.changed, a.calls ++ b.calls, b.state⟩

/-- The `setuser` step, over the entries of `acls.yml`. -/
def setuserStep (dsm : Dsm) : List (String × Json) → State → Option Run
  | [], s => some (Run.none s)
  | entry :: acls, s => do
    let run ← do_setuser dsm entry.1 entry.2 s
    let rest ← setuserStep dsm acls run.state
    return run.append rest

/-- The admin step is skipped where there are no groups or no shares. -/
def adminStep (dsm : Dsm) (spec : Spec) (s : State) : Option Run :=
  if spec.admins ≠ [] ∧ spec.shares ≠ [] then do_admin_grants dsm spec.shares spec.admins s
  else some (Run.none s)

/-- One play; `none` where a step fails. -/
def play (dsm : Dsm) (spec : Spec) (s : State) : Option Run := do
  let run ← setuserStep dsm spec.acls s
  let rest ← adminStep dsm spec run.state
  return run.append rest

/-- The lists that the detector compares: the snapshot has the shares of `shares.yml`. -/
def snapshot (spec : Spec) (s : State) (share : String) : Tiers :=
  if share ∈ spec.shares then s share else fun _ => []

/-- The detector reports no drift of `acls.yml`. -/
def NoDrift (spec : Spec) (s : State) : Prop :=
  ∀ entry ∈ spec.acls, diff_acls entry.2 (snapshot spec s entry.1) = some []

end ShareAcls
