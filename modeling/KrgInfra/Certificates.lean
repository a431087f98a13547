/-
Let's Encrypt certificates on DSM: `apply_certificate.py`.

DSM may hold several certificates of one common name: its own renewal mints a new one and leaves
the old.  Each command takes one of them, the keeper, for the domain of the spec.

* `parse_valid_till`, `cert_sans` — when a certificate expires, and the names in its PEM;
* `rank`, `find_by_domain_all`, `resolve_domain` — the keeper;
* `do_letsencrypt_create`, `do_set_default`, `do_bind_services` — the commands.

The texts that are printed are left out; an `Outcome` says which of them it is.
-/
import KrgInfra.Json
import KrgInfra.Python
import Mathlib

namespace Certificates

open Python

/-- What the interpreter's tables decide: `str.lower`, the value of a decimal digit, and `repr` of
a text. -/
structure Unicode where
  lower : String → String
  digit : Char → Option ℕ
  repr : String → String

/-- What `openssl x509 -noout -ext subjectAltName` prints about the PEM of a certificate;
`none` where it fails, or cannot be run. -/
abbrev Pems : Type := String → Option String

/-- A service that a certificate is bound to. -/
structure Service where
  service : String
  subscriber : String
  display_name : Option String
  isPkg : Bool
  owner : Option String
  deriving DecidableEq

/-- A certificate of `CRT.list`; `common_name` is that of its subject. -/
structure Cert where
  id : Option String
  common_name : Option String
  valid_till : Option String
  is_default : Bool
  services : List Service
  deriving DecidableEq

/-! ### Expiry -/

/-- The month of an abbreviation, from 0. -/
def monthOf (u : Unicode) (s : String) : Option ℕ :=
  ["jan", "feb", "mar", "apr", "may", "jun", "jul", "aug", "sep", "oct", "nov", "dec"].idxOf?
    (u.lower s)

/-- A class of characters, as in `[0-3]`. -/
def between (first last c : Char) : Bool := first ≤ c && c ≤ last

/-- Whether a text is one character of each class. -/
def fits (l : List Char) (classes : List (Char → Bool)) : Bool :=
  l.length = classes.length && (l.zip classes).all fun p => p.2 p.1

/-- The number that a text of one of these shapes is. -/
def number (u : Unicode) (shapes : List (List (Char → Bool))) (l : List Char) : Option ℕ :=
  if shapes.any (fits l) then
    (l.mapM u.digit).map fun digits => digits.foldl (fun n d => 10 * n + d) 0
  else none

/-- `\d` -/
def isDigit (u : Unicode) (c : Char) : Bool := (u.digit c).isSome

/-- `%d` -/
def dayOf (u : Unicode) : List Char → Option ℕ :=
  number u [[between '3' '3', between '0' '1'], [between '1' '2', isDigit u],
    [between '0' '0', between '1' '9'], [between '1' '9']]

/-- `%H:%M:%S`, in seconds; a second of 60 or 61 is read and then refused. -/
def timeOf (u : Unicode) (l : List Char) : Option ℕ :=
  match l.splitOn ':' with
  | [h, m, s] => do
    let h ← number u [[between '2' '2', between '0' '3'], [between '0' '1', isDigit u],
      [isDigit u]] h
    let m ← number u [[between '0' '5', isDigit u], [isDigit u]] m
    let s ← number u [[between '6' '6', between '0' '1'], [between '0' '5', isDigit u],
      [isDigit u]] s
    if s < 60 then return 3600 * h + 60 * m + s else none
  | _ => none

/-- `%Y`; there is no year 0. -/
def yearOf (u : Unicode) (l : List Char) : Option ℕ :=
  (number u [[isDigit u, isDigit u, isDigit u, isDigit u]] l).filter fun year => year ≠ 0

def isLeap (year : ℕ) : Bool := year % 4 = 0 && (year % 100 ≠ 0 || year % 400 = 0)

/-- The days of each month. -/
def monthDays (year : ℕ) : List ℕ :=
  [31, if isLeap year then 29 else 28, 31, 30, 31, 30, 31, 31, 30, 31, 30, 31]

/-- The days before a year, from the first of January of year 1. -/
def daysBefore (year : ℕ) : ℕ :=
  let y := year - 1
  365 * y + y / 4 - y / 100 + y / 400

/-- Microseconds. -/
def second : ℕ := 1000000

def day : ℕ := 86400 * second

/-- The words of a text, between white space; a text that begins or ends with white space has an
empty one there. -/
def words : List Char → List (List Char)
  | [] => [[]]
  | c :: rest =>
    match words rest with
    | [] => [[c]]
    | w :: ws =>
      if isspace c then
        match rest with
        | d :: _ => if isspace d then w :: ws else [] :: w :: ws
        | [] => [] :: w :: ws
      else (c :: w) :: ws

/-- `datetime.strptime(s, "%b %d %H:%M:%S %Y")`: the microseconds since year 1, `none` where it
raises a `ValueError`. -/
def strptime (u : Unicode) (s : List Char) : Option ℕ :=
  match words s with
  | [b, d, t, y] => do
    let month ← monthOf u (String.ofList b)
    let d ← dayOf u d
    let t ← timeOf u t
    let year ← yearOf u y
    let days := monthDays year
    if d ≤ days.getD month 0 then
      return (daysBefore year + (days.take month).sum + (d - 1)) * day + t * second
    else none
  | _ => none

/-- `_parse_valid_till(s)` -/
def parse_valid_till (u : Unicode) (s : Option String) : Option ℕ :=
  match s with
  | none => none
  | some s =>
    if s = "" then none
    else
      let l := (strip s).toList
      strptime u (if " GMT".toList <:+ l ∨ " UTC".toList <:+ l then l.take (l.length - 4) else l)

/-! ### Names -/

/-- `re.findall(r"DNS:([^,\s]+)", text)`, after `skip` characters. -/
def findDns (skip : ℕ) : List Char → List String
  | [] => []
  | c :: rest =>
    if 0 < skip then findDns (skip - 1) rest
    else
      let name := (rest.drop 3).takeWhile fun c => c ≠ ',' && !isspace c
      if "DNS:".toList <+: c :: rest ∧ name ≠ [] then
        String.ofList name :: findDns (3 + name.length) rest
      else findDns 0 rest

/-- `{n.strip().lower() for n in names}` -/
def nameSet (u : Unicode) (names : List String) : Finset String :=
  (names.map fun n => u.lower (strip n)).toFinset

/-- `_cert_sans(cert_id)` -/
def cert_sans (u : Unicode) (pems : Pems) (cert_id : Option String) : Option (Finset String) :=
  match cert_id with
  | none => none
  | some i =>
    if i = "" then none
    else
      (pems i).bind fun out =>
        let names := nameSet u (findDns 0 out.toList)
        if names = ∅ then none else some names

/-- What Python lists of a JSON value, where these are texts. -/
def listOf : Json → Option (List String)
  | .arr items => items.mapM fun
    | .str s => some s
    | _ => none
  | .str s => some (s.toList.map fun c => String.ofList [c])
  | .obj members => some (Members.names members)
  | _ => none

/-- A list of texts. -/
def textList : Json → Option (List String)
  | .arr items => listOf (.arr items)
  | _ => none

/-- `--on-duplicate` -/
inductive OnDuplicate where
  | newest
  | fail
  deriving DecidableEq

/-- The arguments that all commands have; `sans` is what `--sans-json` holds. -/
structure Target where
  domain : String
  sans : Json
  on_duplicate : OnDuplicate

/-- `_wanted_names(a)`; `none` where it raises. -/
def wanted_names (u : Unicode) (a : Target) : Option (Finset String) :=
  (listOf a.sans).map fun sans => nameSet u (a.domain :: sans)

/-! ### The keeper -/

def domain_matches (cert : Cert) (domain : String) : Bool := cert.common_name = some domain

/-- The certificates of a domain. -/
def matching (certs : List Cert) (domain : String) : List Cert :=
  certs.filter fun c => domain_matches c domain

/-- `rank(c)`: a certificate without a date that can be read is the oldest. -/
def rank (u : Unicode) (pems : Pems) (want_names : Finset String) (c : Cert) : Bool ×ₗ ℕ :=
  let expiry := (parse_valid_till u c.valid_till).getD 0
  if want_names = ∅ then toLex (false, expiry)
  else toLex (decide (cert_sans u pems c.id = some want_names), expiry)

/-- `sorted(certs, key=rank)` -/
def ordered (u : Unicode) (pems : Pems) (want_names : Finset String) (certs : List Cert) :
    List Cert :=
  certs.insertionSort fun a b => rank u pems want_names a ≤ rank u pems want_names b

/-- `_find_by_domain_all`: the keeper and the others; as an error, the ids that share the name. -/
def find_by_domain_all (u : Unicode) (pems : Pems) (certs : List Cert) (domain : String)
    (on_duplicate : OnDuplicate) (want_names : Finset String) :
    Except (List (Option String)) (Option Cert × List Cert) :=
  match matching certs domain with
  | [] => .ok (none, [])
  | [c] => .ok (some c, [])
  | c :: d :: more =>
    match on_duplicate with
    | .fail => .error ((c :: d :: more).map Cert.id)
    | .newest =>
      let l := ordered u pems want_names (c :: d :: more)
      .ok (l.getLast?, l.dropLast)

/-- The warning about certificates that share a name. -/
structure Duplicates where
  domain : String
  kept : Option Cert
  superseded : List Cert

/-- `_resolve_domain` -/
def resolve_domain (u : Unicode) (pems : Pems) (certs : List Cert) (domain : String)
    (on_duplicate : OnDuplicate) (want_names : Finset String) :
    Except (List (Option String)) (Option Cert × Option Duplicates) :=
  (find_by_domain_all u pems certs domain on_duplicate want_names).map fun (keeper, extras) =>
    (keeper, if extras = [] then none else some ⟨domain, keeper, extras⟩)

/-- How the selection of a command ends. -/
inductive Selection where
  | raised
  | ambiguous (ids : List (Option String))
  | keeper (cert : Option Cert)
  deriving DecidableEq

/-- `_resolve_domain(certs, a.domain, a.on_duplicate, _wanted_names(a))`, the warning apart. -/
def select (u : Unicode) (pems : Pems) (a : Target) (certs : List Cert) : Selection :=
  match wanted_names u a with
  | none => .raised
  | some want =>
    match resolve_domain u pems certs a.domain a.on_duplicate want with
    | .error ids => .ambiguous ids
    | .ok (keeper, _) => .keeper keeper

/-! ### Commands -/

/-- How a command ends. -/
inductive Outcome where
  | raised
  | fail
  | no_change
  | would_change
  | changed
  deriving DecidableEq

/-- A command that ended, with the calls that change something on DSM. -/
structure Ran (ρ : Type) where
  outcome : Outcome
  requests : List ρ

/-- It ends before any call. -/
def Ran.without {ρ : Type} (outcome : Outcome) : Ran ρ := ⟨outcome, []⟩

/-- The end of all commands: in check mode what would be sent is reported, and otherwise it is
sent; `reply` is the `success` of the answer, `none` where it is no JSON. -/
def send {ρ : Type} (check : Bool) (request : ρ) (reply : Option Bool) : Ran ρ :=
  if check then .without .would_change
  else
    match reply with
    | none => ⟨.raised, [request]⟩
    | some false => ⟨.fail, [request]⟩
    | some true => ⟨.changed, [request]⟩

structure CreateArgs extends Target where
  email : String
  renewal_buffer_days : ℤ
  check : Bool

/-- `LetsEncrypt.create`: `domain_name` is also the `desc`. -/
structure Create where
  domain_name : String
  email : String
  deriving DecidableEq

/-- Why a certificate is issued. -/
inductive Reason where
  | sans_differ (current_sans : Finset String)
  | unparseable
  | expiring (valid_till : ℕ)
  | missing

/-- The decision of `do_letsencrypt_create`; `none` is "plenty of life left". -/
def reissue (u : Unicode) (pems : Pems) (now : ℕ) (renewal_buffer_days : ℤ)
    (desired_names : Finset String) : Option Cert → Option Reason
  | none => some .missing
  | some existing =>
    let valid_till := parse_valid_till u existing.valid_till
    -- names that could not be read do not count as a difference
    match cert_sans u pems existing.id, valid_till with
    | some actual_names, none =>
      if actual_names ≠ desired_names then some (.sans_differ actual_names) else some .unparseable
    | some actual_names, some v =>
      if actual_names ≠ desired_names then some (.sans_differ actual_names)
      else if (v : ℤ) - now > renewal_buffer_days * day then none
      else some (.expiring v)
    | none, none => some .unparseable
    | none, some v =>
      if (v : ℤ) - now > renewal_buffer_days * day then none else some (.expiring v)

/-- `timedelta` takes no more days. -/
def maxDays : ℕ := 999999999

/-- `do_letsencrypt_create`, once the keeper is known. -/
def create_with (u : Unicode) (pems : Pems) (now : ℕ) (a : CreateArgs) (sans : List String)
    (existing : Option Cert) (reply : Option Bool) : Ran Create :=
  if existing ≠ none ∧ maxDays < a.renewal_buffer_days.natAbs then .without .raised
  else
    match reissue u pems now a.renewal_buffer_days (nameSet u (a.domain :: sans)) existing with
    | none => .without .no_change
    | some _ => send a.check ⟨";".intercalate (a.domain :: sans), a.email⟩ reply

/-- `certs` is `none` where the list could not be read; `reply` is the answer to the request, if
there is one. -/
def do_letsencrypt_create (u : Unicode) (pems : Pems) (now : ℕ) (a : CreateArgs)
    (certs : Option (List Cert)) (reply : Option Bool) : Ran Create :=
  match certs, textList a.sans with
  | none, _ => .without .fail
  | some _, none => .without .fail
  | some certs, some sans =>
    match select u pems a.toTarget certs with
    | .raised => .without .raised
    | .ambiguous _ => .without .fail
    | .keeper existing => create_with u pems now a sans existing reply

structure DefaultArgs extends Target where
  check : Bool

/-- `CRT.set as_default=true` -/
structure SetDefault where
  desc : String
  id : Option String
  deriving DecidableEq

/-- `do_set_default`, once the keeper is known. -/
def default_with (a : DefaultArgs) (existing : Option Cert) (reply : Option Bool) :
    Ran SetDefault :=
  match existing with
  | none => .without (if a.check then .would_change else .fail)
  | some existing =>
    if existing.is_default then .without .no_change
    else send a.check ⟨a.domain, existing.id⟩ reply

def do_set_default (u : Unicode) (pems : Pems) (a : DefaultArgs) (certs : Option (List Cert))
    (reply : Option Bool) : Ran SetDefault :=
  match certs with
  | none => .without .fail
  | some certs =>
    match select u pems a.toTarget certs with
    | .raised => .without .raised
    | .ambiguous _ => .without .fail
    | .keeper existing => default_with a existing reply

/-- The arguments of `bind-services`; `bindings` is `none` where they are no list, and a binding
`none` where it lacks a name. -/
structure BindArgs extends Target where
  bindings : Option (List (Option (String × String)))
  check : Bool

/-- `_service_setting` -/
structure Setting where
  service : Service
  old_id : Option String
  id : String
  deriving DecidableEq

/-- `current`: the services of all certificates by their names, the last one of a pair of names
counts. -/
def current (certs : List Cert) (key : String × String) : Option (Option String × Service) :=
  (certs.flatMap fun cert => cert.services.map fun svc => (cert.id, svc)).reverse.find?
    fun cur => (cur.2.service, cur.2.subscriber) = key

/-- `_service_setting(cur, target_id)` -/
def service_setting (cur : Option String × Service) (target_id : String) : Setting :=
  ⟨{ cur.2 with
      display_name := some (cur.2.display_name.getD ""), owner := some (cur.2.owner.getD "") },
    cur.1, target_id⟩

/-- The declared bindings that are not on the target; `none` where one is malformed. -/
def declaredSettings (certs : List Cert) (target_id : String)
    (bindings : List (Option (String × String))) : Option (List Setting) := do
  let keys ← bindings.mapM id
  return keys.filterMap fun key =>
    (current certs key).bind fun cur =>
      if cur.1 = some target_id then none else some (service_setting cur target_id)

/-- `str(key)` -/
def keyText (u : Unicode) (key : String × String) : String :=
  "(" ++ u.repr key.1 ++ ", " ++ u.repr key.2 ++ ")"

/-- The keys of `current`, as `sorted` lists them. -/
def currentKeys (u : Unicode) (certs : List Cert) : List (String × String) :=
  let keys := certs.flatMap fun cert => cert.services.map fun svc => (svc.service, svc.subscriber)
  keys.reverse.dedup.reverse.insertionSort fun a b => keyText u a ≤ keyText u b

/-- The reverse proxies whose name the target covers. -/
def proxySettings (u : Unicode) (pems : Pems) (certs : List Cert) (target_id : String) :
    List Setting :=
  let target_names := (cert_sans u pems (some target_id)).getD ∅
  (currentKeys u certs).filterMap fun key =>
    (current certs key).bind fun cur =>
      if cur.2.subscriber ≠ "ReverseProxy" ∨ cur.1 = some target_id then none
      else if u.lower (strip (cur.2.display_name.getD "")) ∈ target_names then
        some (service_setting cur target_id)
      else none

/-- `do_bind_services`, once the keeper is known. -/
def bind_with (u : Unicode) (pems : Pems) (a : BindArgs)
    (bindings : List (Option (String × String))) (certs : List Cert) (target : Option Cert)
    (reply : Option Bool) : Ran (List Setting) :=
  match target with
  | none => .without (if a.check then .would_change else .fail)
  | some target =>
    match target.id with
    | none => .without .raised
    | some target_id =>
      match declaredSettings certs target_id bindings with
      | none => .without .fail
      | some declared =>
        let settings := declared ++ proxySettings u pems certs target_id
        if settings = [] then .without .no_change else send a.check settings reply

def do_bind_services (u : Unicode) (pems : Pems) (a : BindArgs) (certs : Option (List Cert))
    (reply : Option Bool) : Ran (List Setting) :=
  match a.bindings, certs with
  | none, _ => .without .fail
  | some _, none => .without .fail
  | some bindings, some certs =>
    match select u pems a.toTarget certs with
    | .raised => .without .raised
    | .ambiguous _ => .without .fail
    | .keeper target => bind_with u pems a bindings certs target reply

end Certificates
