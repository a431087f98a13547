/-
Groups, service accounts and delegations of the domain
(`krg_ad/files/apply_krg_ad.py`).

The script wraps `samba-tool`.  It reads what is there, and adds what a plan has more; under
`--check` it says what it would add.

* `Command`, `World` — the calls of `samba-tool`, and what a run issues and prints;
* `cmd_groups`, `cmd_service_accounts`, `cmd_acls` — the subcommands;
* `Directory`, `Samba` — the directory, and what the calls do to it and print of it;
* `mem_parse_name_list`, `sid_of_printed`, `ace_present_built`, `ace_present_append` — what is read
  of what is printed.
-/
import KrgInfra.Python
import Mathlib

namespace KrgAd

/-! ### Calls and reports -/

/-- The calls of `samba-tool`: those of the script, and those that take something away. -/
inductive Command where
  | groupList
  | groupAdd (name : String) (extra : List String)
  | groupDelete (name : String)
  | listMembers (group : String)
  | addMembers (group member : String)
  | removeMembers (group member : String)
  | userList
  | userDelete (name : String)
  | showSid (kind name : String)
  | dsaclGet (dn : String)
  | dsaclSet (dn sddl : String)
  | dsaclDelete (dn sddl : String)

/-- The calls that change the directory. -/
def Command.mutating : Command → Bool
  | .groupList | .listMembers _ | .userList | .showSid _ _ | .dsaclGet _ => false
  | _ => true

structure Answer where
  rc : ℤ
  out : String
  err : String

/-- `(err or out).strip()` -/
def Answer.reason (a : Answer) : String := Python.strip (if a.err ≠ "" then a.err else a.out)

/-- A line of the report. -/
inductive Line where
  | ok (msg : String)
  | would (msg : String)
  | changed (msg : String)
  | fail (msg : String)

/-- What a run has issued, with the answers, and printed. -/
structure World (σ : Type) where
  state : σ
  calls : List (Command × Answer)
  lines : List Line

namespace World

variable {σ : Type}

def start (s : σ) : World σ := ⟨s, [], []⟩

def say (w : World σ) (line : Line) : World σ := { w with lines := w.lines ++ [line] }

/-- `run(*args)` -/
def ask (exec : Command → σ → Answer × σ) (c : Command) (w : World σ) : Answer × World σ :=
  ((exec c w.state).1,
    { w with state := (exec c w.state).2, calls := w.calls ++ [(c, (exec c w.state).1)] })

/-- `rep.changed` -/
def changed (w : World σ) : Bool :=
  w.lines.any fun
    | .would _ => true
    | .changed _ => true
    | _ => false

/-- `rep.failed` -/
def failed (w : World σ) : Bool :=
  w.lines.any fun
    | .fail _ => true
    | _ => false

/-- `if not rep.changed and not rep.failed: rep.ok()` -/
def close (w : World σ) : World σ :=
  if !w.changed && !w.failed then w.say (.ok "no-change") else w

end World

/-! ### Texts -/

/-- The names of a list, one on each line. -/
def parse_name_list (text : String) : List String :=
  (((Python.splitlines text).map Python.strip).filter fun n => n ≠ "").dedup

def lower (text : List Char) : List Char := text.map Char.toLower

/-- The SID in the attributes of an object. -/
def sid_of (text : String) : Option String :=
  ((Python.splitlines text).find? fun line =>
      decide ("objectsid:".toList <+: lower (Python.strip line).toList)).map fun line =>
    Python.strip (String.ofList ((line.toList.dropWhile (· ≠ ':')).drop 1))

def RIGHTS : List (String × String) :=
  [("reset-password", "00299570-246d-11d0-a768-00aa006e0529")]

def INHERIT_FLAGS : List (String × String) := [("this-object", ""), ("child-users", "CI")]

/-- An ACE that grants an extended right; `flags` are those of an inheritance. -/
def build_ace (flags right_guid sid : String) : String :=
  "(OA;" ++ flags ++ ";CR;" ++ right_guid ++ ";;" ++ sid ++ ")"

/-- `sddl.replace("(", "\n(")` -/
def breakAces (sddl : List Char) : List Char :=
  sddl.flatMap fun c => if c = '(' then ['\n', '('] else [c]

def chunks (sddl : List Char) : List (List Char) := (breakAces sddl).splitOn '\n'

def ace_present (sddl right_guid sid : String) : Bool :=
  (chunks sddl.toList).any fun chunk =>
    decide (['('] <+: lower chunk) && decide (lower right_guid.toList <:+: lower chunk) &&
      decide (lower sid.toList <:+: lower chunk)

/-! ### The subcommands -/

/-- A group of the plan. -/
structure GroupSpec where
  name : String
  skip : Bool := false
  description : String := ""
  members : List String := []

structure GroupPlan where
  container : String := "CN=Users,DC=krg,DC=local"
  groups : List GroupSpec

def GroupPlan.desired (plan : GroupPlan) : List GroupSpec := plan.groups.filter fun g => !g.skip

/-- A service account of the plan. -/
structure AccountSpec where
  name : String
  member_of : List String := []

/-- A delegation of the plan. -/
structure AceSpec where
  objectdn : String
  trustee : String
  right : String
  inherit : String := "child-users"

/-- Groups that a domain has from the beginning. -/
def BUILTIN : List String :=
  ["Domain Admins", "Domain Users", "Domain Guests", "Domain Computers", "Domain Controllers",
    "Enterprise Admins", "Schema Admins", "Group Policy Creator Owners",
    "Read-only Domain Controllers", "Enterprise Read-only Domain Controllers", "DnsAdmins",
    "DnsUpdateProxy", "Cert Publishers", "RAS and IAS Servers",
    "Allowed RODC Password Replication Group", "Denied RODC Password Replication Group",
    "Protected Users", "Key Admins", "Enterprise Key Admins", "Cloneable Domain Controllers",
    "Storage Replica Administrators", "Administrators", "Users", "Guests", "Account Operators",
    "Server Operators", "Print Operators", "Backup Operators", "Replicator",
    "Remote Desktop Users", "Network Configuration Operators", "Performance Monitor Users",
    "Performance Log Users", "Distributed COM Users", "IIS_IUSRS", "Cryptographic Operators",
    "Event Log Readers", "Certificate Service DCOM Access", "Terminal Server License Servers",
    "Incoming Forest Trust Builders", "Windows Authorization Access Group",
    "Pre-Windows 2000 Compatible Access"]

section Commands

variable {σ : Type} (exec : Command → σ → Answer × σ) (upper : String → String) (check : Bool)

/-- What is there is read; what is missing is added, or said to be missing. -/
def ensure (read : Command) (readFailed : Answer → String) (present : Answer → Bool)
    (would : String) (change : Command) (changeFailed : Answer → String) (changed : String)
    (w : World σ) : World σ :=
  let (a, w) := w.ask exec read
  if a.rc ≠ 0 then w.say (.fail (readFailed a))
  else if present a then w
  else if check then w.say (.would would)
  else
    let (b, w) := w.ask exec change
    if b.rc ≠ 0 then w.say (.fail (changeFailed b)) else w.say (.changed changed)

/-- A member of a group, in `cmd_groups` and in `cmd_service_accounts`. -/
def ensure_member (group member : String) : World σ → World σ :=
  ensure exec check (.listMembers group)
    (fun a => "listmembers '" ++ group ++ "': " ++ a.reason)
    (fun a => decide (member ∈ parse_name_list a.out))
    ("add '" ++ member ++ "' to group '" ++ group ++ "'")
    (.addMembers group member)
    (fun b => "addmembers " ++ member ++ " -> " ++ group ++ ": " ++ b.reason)
    ("added '" ++ member ++ "' to group '" ++ group ++ "'")

/-- The options of `group add`. -/
def groupOptions (container : String) (g : GroupSpec) : List String :=
  (if g.description ≠ "" then ["--description=" ++ g.description] else []) ++
    if container ≠ "" ∧ ¬ "CN=USERS,".toList <+: (upper container).toList then
      ["--groupou=" ++ container]
    else []

/-- The first pass over a group: it is created if it is not live. -/
def create_group (container : String) (p : World σ × List String) (g : GroupSpec) :
    World σ × List String :=
  if g.name ∈ p.2 then p
  else if check then (p.1.say (.would ("create group '" ++ g.name ++ "'")), p.2)
  else
    let (a, w) := p.1.ask exec (.groupAdd g.name (groupOptions upper container g))
    if a.rc ≠ 0 then
      (w.say (.fail ("create group '" ++ g.name ++ "': " ++ a.reason)), p.2)
    else (w.say (.changed ("created group '" ++ g.name ++ "'")), p.2.insert g.name)

/-- The second pass over a member of a group. -/
def nest_member (live : List String) (parent : String) (w : World σ) (member : String) : World σ :=
  if parent ∉ live then
    w.say (.would ("add '" ++ member ++ "' to group '" ++ parent ++ "' (parent pending creation)"))
  else ensure_member exec check parent member w

def nest_members (live : List String) (w : World σ) (g : GroupSpec) : World σ :=
  g.members.foldl (nest_member exec check live g.name) w

/-- The live groups that no plan has. -/
def extras (desired : List GroupSpec) (live : List String) : List String :=
  (live.filter fun n => decide (n ∉ desired.map GroupSpec.name ∧ n ∉ BUILTIN)).insertionSort
    (· ≤ ·)

def cmd_groups (plan : GroupPlan) (w : World σ) : World σ :=
  let (a, w) := w.ask exec .groupList
  if a.rc ≠ 0 then w.say (.fail ("group list failed: " ++ a.reason))
  else
    let p := plan.desired.foldl (create_group exec upper check plan.container)
      (w, parse_name_list a.out)
    let w := plan.desired.foldl (nest_members exec check p.2) p.1
    let w := if extras plan.desired p.2 ≠ [] then
        w.say (.ok ("drift: live non-builtin groups absent from spec (not removed): " ++
          ", ".intercalate (extras plan.desired p.2)))
      else w
    w.close

def account (live_users : List String) (w : World σ) (acc : AccountSpec) : World σ :=
  if acc.name ∉ live_users then
    w.say (.fail ("service account '" ++ acc.name ++ "' is ABSENT — create it out-of-band and " ++
      "store its password in OpenBao (not auto-created)"))
  else acc.member_of.foldl (fun w group => ensure_member exec check group acc.name w) w

def cmd_service_accounts (accounts : List AccountSpec) (w : World σ) : World σ :=
  let (a, w) := w.ask exec .userList
  if a.rc ≠ 0 then w.say (.fail ("user list failed: " ++ a.reason))
  else (accounts.foldl (account exec check (parse_name_list a.out)) w).close

/-- What is done with the SID of a name: that of a user, else that of a group. -/
def with_sid (name : String) (k : Option String → World σ → World σ) (w : World σ) : World σ :=
  let (a, w) := w.ask exec (.showSid "user" name)
  match if a.rc ≠ 0 then none else sid_of a.out with
  | some sid => k (some sid) w
  | none =>
    let (b, w) := w.ask exec (.showSid "group" name)
    k (if b.rc ≠ 0 then none else sid_of b.out) w

def ensure_ace (ace : AceSpec) (guid flags sid : String) : World σ → World σ :=
  ensure exec check (.dsaclGet ace.objectdn)
    (fun a => "dsacl get " ++ ace.objectdn ++ ": " ++ a.reason)
    (fun a => ace_present a.out guid sid)
    ("grant " ++ ace.right ++ " '" ++ ace.trustee ++ "' on " ++ ace.objectdn ++ " (" ++
      build_ace flags guid sid ++ ")")
    (.dsaclSet ace.objectdn (build_ace flags guid sid))
    (fun b => "dsacl set " ++ ace.right ++ " on " ++ ace.objectdn ++ ": " ++ b.reason)
    ("granted " ++ ace.right ++ " '" ++ ace.trustee ++ "' on " ++ ace.objectdn)

def acl (w : World σ) (ace : AceSpec) : World σ :=
  match RIGHTS.lookup ace.right with
  | none => w.say (.fail ("unknown right '" ++ ace.right ++ "' (known: " ++
      ", ".intercalate (RIGHTS.map Prod.fst) ++ ")"))
  | some guid =>
    match INHERIT_FLAGS.lookup ace.inherit with
    | none => w.say (.fail ("unknown inherit '" ++ ace.inherit ++ "'"))
    | some flags =>
      with_sid exec ace.trustee (fun
        | none => fun w =>
          w.say (.fail ("cannot resolve SID for trustee '" ++ ace.trustee ++ "'"))
        | some sid =>
          if sid = "" then fun w =>
            w.say (.fail ("cannot resolve SID for trustee '" ++ ace.trustee ++ "'"))
          else ensure_ace exec check ace guid flags sid) w

def cmd_acls (acls : List AceSpec) (w : World σ) : World σ :=
  (acls.foldl (acl exec check) w).close

end Commands

/-! ### The directory -/

structure Directory where
  groups : Set String
  users : Set String
  members : String → Set String
  aces : String → Set String

/-- What a call that succeeds makes of the directory. -/
def Command.apply (d : Directory) : Command → Directory
  | .groupAdd name _ => { d with groups := insert name d.groups }
  | .groupDelete name => { d with groups := d.groups \ {name} }
  | .addMembers group member =>
    { d with members := Function.update d.members group (insert member (d.members group)) }
  | .removeMembers group member =>
    { d with members := Function.update d.members group (d.members group \ {member}) }
  | .userDelete name => { d with users := d.users \ {name} }
  | .dsaclSet dn sddl => { d with aces := Function.update d.aces dn (insert sddl (d.aces dn)) }
  | .dsaclDelete dn sddl => { d with aces := Function.update d.aces dn (d.aces dn \ {sddl}) }
  | .groupList | .listMembers _ | .userList | .showSid _ _ | .dsaclGet _ => d

/-- A name that is read as it is printed. -/
structure IsName (n : String) : Prop where
  strip_eq : Python.strip n = n
  ne_empty : n ≠ ""
  no_break : ∀ c ∈ n.toList, Python.isLineBreak c = false

/-- One name on each line. -/
def Lists (text : String) (names : Set String) : Prop :=
  ∃ l : List String, text = Python.unlines l ∧ ∀ n, n ∈ l ↔ n ∈ names

/-- The line of the attributes that has a SID. -/
def PrintsSid (text sid : String) : Prop :=
  ∃ before behind, Python.splitlines text = before ++ ("objectSid: " ++ sid) :: behind ∧
    ∀ line ∈ before, ¬ "objectsid:".toList <+: lower (Python.strip line).toList

/-- Every ACE is printed as it is, and what is found in what is printed is one. -/
structure PrintsAces (text : String) (aces : Set String) : Prop where
  printed : ∀ ace ∈ aces, ace.toList <:+: text.toList
  found : ∀ guid sid, ace_present text guid sid = true →
    ∃ ace ∈ aces, ace_present ace guid sid = true

/-- `samba-tool`: a call that succeeds does what it is documented to do, one that fails does nothing. -/
structure Samba (σ : Type) where
  exec : Command → σ → Answer × σ
  dir : σ → Directory
  sid : String → String
  effect : ∀ c s, (exec c s).1.rc = 0 → dir (exec c s).2 = c.apply (dir s)
  refused : ∀ c s, (exec c s).1.rc ≠ 0 → dir (exec c s).2 = dir s
  names : ∀ s, (∀ n ∈ (dir s).groups, IsName n) ∧ (∀ n ∈ (dir s).users, IsName n) ∧
    ∀ g, ∀ n ∈ (dir s).members g, IsName n
  sid_name : ∀ name, IsName (sid name) ∧ '(' ∉ (sid name).toList
  group_list : ∀ s, (exec .groupList s).1.rc = 0 →
    Lists (exec .groupList s).1.out (dir s).groups
  user_list : ∀ s, (exec .userList s).1.rc = 0 → Lists (exec .userList s).1.out (dir s).users
  list_members : ∀ g s, (exec (.listMembers g) s).1.rc = 0 →
    Lists (exec (.listMembers g) s).1.out ((dir s).members g)
  show_sid : ∀ kind name s, (exec (.showSid kind name) s).1.rc = 0 →
    PrintsSid (exec (.showSid kind name) s).1.out (sid name)
  dsacl_get : ∀ dn s, (exec (.dsaclGet dn) s).1.rc = 0 →
    PrintsAces (exec (.dsaclGet dn) s).1.out ((dir s).aces dn)

/-! ### What is read -/

/-- The names of a list are read back. -/
theorem mem_parse_name_list {text : String} {names : Set String} (h : Lists text names)
    (hnames : ∀ n ∈ names, IsName n) {n : String} : n ∈ parse_name_list text ↔ n ∈ names := by
  obtain ⟨l, rfl, hl⟩ := h
  have hbreak : ∀ line ∈ l, ∀ c ∈ line.toList, Python.isLineBreak c = false :=
    fun line hline => (hnames line ((hl line).mp hline)).no_break
  rw [parse_name_list, List.mem_dedup, List.mem_filter, Python.splitlines_unlines hbreak,
    decide_eq_true_iff]
  constructor
  · rintro ⟨hn, -⟩
    obtain ⟨m, hm, rfl⟩ := List.mem_map.mp hn
    have hname := (hl m).mp hm
    rwa [(hnames m hname).strip_eq]
  · intro hn
    refine ⟨List.mem_map.mpr ⟨n, (hl n).mpr hn, (hnames n hn).strip_eq⟩, (hnames n hn).ne_empty⟩

theorem strip_toList (s : String) :
    (Python.strip s).toList = ((s.toList.dropWhile Python.isspace).reverse.dropWhile
      Python.isspace).reverse := by
  rw [Python.strip, String.toList_ofList]

/-- A name has no blanks to drop, at either end. -/
theorem IsName.dropWhile_eq {n : String} (h : IsName n) :
    n.toList.dropWhile Python.isspace = n.toList ∧
      n.toList.reverse.dropWhile Python.isspace = n.toList.reverse := by
  have hstrip := strip_toList n
  rw [h.strip_eq] at hstrip
  have hfront : n.toList.dropWhile Python.isspace = n.toList := by
    refine (List.dropWhile_suffix _).eq_of_length_le ?_
    have hle := (List.dropWhile_suffix (l := (n.toList.dropWhile Python.isspace).reverse)
      Python.isspace).length_le
    have hlength := congrArg List.length hstrip
    rw [List.length_reverse] at hlength hle
    exact hlength.le.trans hle
  refine ⟨hfront, ?_⟩
  rw [hfront] at hstrip
  rw [← List.reverse_eq_iff, ← hstrip]

theorem dropWhile_append_of_eq {l m : List Char} (hne : l ≠ [])
    (h : l.dropWhile Python.isspace = l) : (l ++ m).dropWhile Python.isspace = l ++ m := by
  cases l with
  | nil => exact absurd rfl hne
  | cons c l =>
    rw [List.cons_append, List.dropWhile_cons]
    split_ifs with hspace
    · -- the first character is not dropped
      rw [List.dropWhile_cons, if_pos hspace] at h
      have hle := (List.dropWhile_suffix (l := l) Python.isspace).length_le
      rw [h] at hle
      exact absurd hle (by simp)
    · rfl

/-- A printed SID is read back. -/
theorem sid_of_printed {text sid : String} (h : PrintsSid text sid) (hsid : IsName sid) :
    sid_of text = some sid := by
  obtain ⟨before, behind, hlines, hbefore⟩ := h
  obtain ⟨hfront, hback⟩ := hsid.dropWhile_eq
  have hne : sid.toList.reverse ≠ [] := by
    rw [ne_eq, List.reverse_eq_nil_iff, String.toList_eq_nil_iff]
    exact hsid.ne_empty
  have hlabel : (Python.strip ("objectSid: " ++ sid)).toList = "objectSid: ".toList ++ sid.toList := by
    have hdrop : ("objectSid: ".toList ++ sid.toList).dropWhile Python.isspace =
        "objectSid: ".toList ++ sid.toList := rfl
    rw [strip_toList, String.toList_append, hdrop, List.reverse_append,
      dropWhile_append_of_eq hne hback, List.reverse_append, List.reverse_reverse,
      List.reverse_reverse]
  have hprefix : "objectsid:".toList <+: lower (Python.strip ("objectSid: " ++ sid)).toList := by
    rw [hlabel]
    exact ⟨' ' :: lower sid.toList, rfl⟩
  have hvalue : Python.strip (String.ofList
      ((("objectSid: " ++ sid).toList.dropWhile (· ≠ ':')).drop 1)) = sid := by
    have hdrop : ("objectSid: " ++ sid).toList.dropWhile (· ≠ ':') = ':' :: ' ' :: sid.toList := by
      rw [String.toList_append]
      rfl
    have hspace : (' ' :: sid.toList).dropWhile Python.isspace =
        sid.toList.dropWhile Python.isspace := rfl
    rw [hdrop, List.drop_succ_cons, List.drop_zero, Python.strip, String.toList_ofList, hspace,
      hfront, hback, List.reverse_reverse, String.ofList_toList]
  rw [sid_of, hlines, List.find?_append, List.find?_eq_none.mpr, Option.none_or,
    List.find?_cons_of_pos, Option.map_some, hvalue]
  · exact decide_eq_true hprefix
  · intro line hline
    exact fun h => hbefore line hline (of_decide_eq_true h)

/-! ### ACEs -/

/-- Where a part stands that a text is split into. -/
theorem mem_splitOn_iff {c l : List Char} : c ∈ l.splitOn '\n' ↔ '\n' ∉ c ∧
    ∃ before behind, l = before ++ (c ++ behind) ∧ (before = [] ∨ ∃ b, before = b ++ ['\n']) ∧
      (behind = [] ∨ ∃ b, behind = '\n' :: b) := by
  constructor
  · -- the first part ends at the first newline
    induction hn : l.length using Nat.strong_induction_on generalizing l with
    | _ n ih =>
      subst hn
      intro h
      by_cases hmem : '\n' ∈ l
      · obtain ⟨a, b, rfl, ha⟩ := List.eq_append_cons_of_mem hmem
        rw [List.splitOn_append_cons_self_of_not_mem ha] at h
        obtain rfl | h := List.mem_cons.mp h
        · exact ⟨ha, [], '\n' :: b, rfl, .inl rfl, .inr ⟨b, rfl⟩⟩
        · obtain ⟨hc, before, behind, rfl, hbefore, hbehind⟩ := ih b.length (by simp; omega) rfl h
          refine ⟨hc, a ++ '\n' :: before, behind, by simp, .inr ?_, hbehind⟩
          obtain rfl | ⟨b, rfl⟩ := hbefore
          · exact ⟨a, rfl⟩
          · exact ⟨a ++ '\n' :: b, by simp⟩
      · rw [List.splitOn_eq_singleton hmem, List.mem_singleton] at h
        exact ⟨h ▸ hmem, [], [], by simp [h], .inl rfl, .inl rfl⟩
  · rintro ⟨hc, before, behind, rfl, hbefore, hbehind⟩
    have hrest : c ∈ (c ++ behind).splitOn '\n' := by
      obtain rfl | ⟨b, rfl⟩ := hbehind
      · rw [List.append_nil, List.splitOn_eq_singleton hc]
        exact List.mem_singleton_self c
      · rw [List.splitOn_append_cons_self_of_not_mem hc]
        exact List.mem_cons_self
    obtain rfl | ⟨b, rfl⟩ := hbefore
    · exact hrest
    · rw [List.append_assoc, List.singleton_append, List.splitOn_append_cons_self]
      exact List.mem_append_right _ hrest

theorem breakAces_append (a b : List Char) : breakAces (a ++ b) = breakAces a ++ breakAces b :=
  List.flatMap_append

theorem breakAces_eq_self {l : List Char} (h : '(' ∉ l) : breakAces l = l := by
  induction l with
  | nil => rfl
  | cons c l ih =>
    rw [List.mem_cons, not_or] at h
    rw [breakAces, List.flatMap_cons, if_neg (Ne.symm h.1), ← breakAces, ih h.2]
    rfl

theorem breakAces_head (l m : List Char) : breakAces l ≠ '(' :: m := by
  cases l with
  | nil => exact fun h => nomatch h
  | cons c l =>
    rw [breakAces, List.flatMap_cons]
    split_ifs with hc
    · exact fun h => absurd (List.cons.inj h).1 (by decide)
    · exact fun h => hc (List.cons.inj h).1

/-- Only a parenthesis is one in lower case. -/
theorem eq_of_toLower {d : Char} (h : d.toLower = '(') : d = '(' := by
  rw [Char.toLower] at h
  split at h
  · rename_i hup
    have hval : (d.val.toNat + 32) % 2 ^ 32 = 40 := by
      have heq := congrArg (fun c : Char => c.val.toNat) h
      rwa [UInt32.toNat_add] at heq
    have hge : 65 ≤ d.val.toNat := hup.1
    have hle : d.val.toNat ≤ 90 := hup.2
    omega
  · exact h

/-- What comes behind a part of a text makes its last part longer. -/
theorem exists_longer {before c behind : List Char} (hc : '\n' ∉ c)
    (hbefore : before = [] ∨ ∃ b, before = b ++ ['\n']) :
    ∃ z, c ++ z ∈ (before ++ (c ++ behind)).splitOn '\n' := by
  refine ⟨behind.takeWhile (· ≠ '\n'), mem_splitOn_iff.mpr ⟨?_, before, behind.dropWhile (· ≠ '\n'),
    ?_, hbefore, ?_⟩⟩
  · rw [List.mem_append, not_or]
    refine ⟨hc, fun hmem => ?_⟩
    exact absurd (List.mem_takeWhile_imp hmem) (by decide)
  · rw [List.append_assoc, List.takeWhile_append_dropWhile]
  · cases hdrop : behind.dropWhile (· ≠ '\n') with
    | nil => exact .inl rfl
    | cons d b =>
      have hne : behind.dropWhile (fun c => decide (c ≠ '\n')) ≠ [] := hdrop ▸ List.cons_ne_nil d b
      have hd := List.head_dropWhile_not (fun c => decide (c ≠ '\n')) hne
      simp only [hdrop, List.head_cons, decide_eq_false_iff_not, not_not] at hd
      exact .inr ⟨b, by rw [hd]⟩

/-- An ACE that is found in a part of a text is found in the text. -/
theorem ace_present_append {text part guid sid : String} (hpart : part.toList <:+: text.toList)
    (h : ace_present part guid sid = true) : ace_present text guid sid = true := by
  obtain ⟨x, y, htext⟩ := hpart
  obtain ⟨c, hc, hfound⟩ := List.any_eq_true.mp h
  simp only [Bool.and_eq_true, decide_eq_true_iff] at hfound
  obtain ⟨⟨hhead, hguid⟩, hsid⟩ := hfound
  obtain ⟨hnewline, before, behind, heq, hbefore, hbehind⟩ := mem_splitOn_iff.mp hc
  -- a chunk that is an ACE comes after a newline
  obtain ⟨b, rfl⟩ : ∃ b, before = b ++ ['\n'] := by
    refine hbefore.resolve_left ?_
    rintro rfl
    obtain ⟨m, hm⟩ := hhead
    cases c with
    | nil => exact nomatch hm
    | cons d c =>
      have hd : d = '(' := eq_of_toLower (List.cons.inj hm).1.symm
      rw [hd] at heq
      exact breakAces_head _ _ heq
  -- what follows the part makes it longer
  obtain ⟨z, hz⟩ : ∃ z, c ++ z ∈ chunks text.toList := by
    have htexts : breakAces text.toList =
        (breakAces x ++ b ++ ['\n']) ++ (c ++ (behind ++ breakAces y)) := by
      rw [← htext, breakAces_append, breakAces_append, heq]
      simp
    rw [chunks, htexts]
    exact exists_longer hnewline (.inr ⟨_, rfl⟩)
  refine List.any_eq_true.mpr ⟨c ++ z, hz, ?_⟩
  simp only [Bool.and_eq_true, decide_eq_true_iff, lower, List.map_append]
  have hlonger : lower c <+: c.map Char.toLower ++ z.map Char.toLower := List.prefix_append _ _
  exact ⟨⟨hhead.trans hlonger, hguid.trans hlonger.isInfix⟩, hsid.trans hlonger.isInfix⟩

/-- The ACE that is granted is found. -/
theorem ace_present_built {flags guid sid : String}
    (hflags : '(' ∉ flags.toList ∧ '\n' ∉ flags.toList)
    (hguid : '(' ∉ guid.toList ∧ '\n' ∉ guid.toList)
    (hsid : '(' ∉ sid.toList ∧ '\n' ∉ sid.toList) :
    ace_present (build_ace flags guid sid) guid sid = true := by
  have htext : (build_ace flags guid sid).toList = '(' :: ("OA;".toList ++ (flags.toList ++
      (";CR;".toList ++ (guid.toList ++ (";;".toList ++ (sid.toList ++ [')'])))))) := by
    simp [build_ace]
  have hparen : '(' ∉ "OA;".toList ++ (flags.toList ++
      (";CR;".toList ++ (guid.toList ++ (";;".toList ++ (sid.toList ++ [')']))))) := by
    simp [hflags.1, hguid.1, hsid.1]
  have hbreak : breakAces (build_ace flags guid sid).toList =
      ['\n'] ++ ((build_ace flags guid sid).toList ++ []) := by
    rw [htext, breakAces, List.flatMap_cons, if_pos rfl, ← breakAces, breakAces_eq_self hparen]
    simp
  have hchunk : (build_ace flags guid sid).toList ∈ chunks (build_ace flags guid sid).toList := by
    rw [chunks, hbreak]
    refine mem_splitOn_iff.mpr ⟨?_, _, [], rfl, .inr ⟨[], rfl⟩, .inl rfl⟩
    rw [htext]
    simp [hflags.2, hguid.2, hsid.2]
  refine List.any_eq_true.mpr ⟨_, hchunk, ?_⟩
  simp only [Bool.and_eq_true, decide_eq_true_iff]
  refine ⟨⟨?_, List.IsInfix.map _ ?_⟩, List.IsInfix.map _ ?_⟩
  · rw [htext]
    exact ⟨_, rfl⟩
  · rw [htext]
    exact ⟨'(' :: ("OA;".toList ++ (flags.toList ++ ";CR;".toList)),
      ";;".toList ++ (sid.toList ++ [')']), by simp⟩
  · rw [htext]
    exact ⟨'(' :: ("OA;".toList ++ (flags.toList ++ (";CR;".toList ++ (guid.toList ++
      ";;".toList)))), [')'], by simp⟩

end KrgAd
