/-
The directory that vpnauthd asks: `apply_vpn.py auth`.

The command writes the RADIUS files of a backend and restarts vpnauthd, which reads them only
when it starts.  It counts a daemon that is down, or older than its files, as a difference; but
where no VPN protocol is enabled it does not restart it, since DSM would not bring it up again.

* `key_value` — a value of one of DSM's conf files;
* `Box`, `want`, `daemon_is_stale` — what is there, what should be, and whether it is served;
* `Restarting`, `cmd_auth` — what a restart brings, and the command;
* `Settles` — when what a successful run leaves is left alone;
* `auth_settles_iff` — exactly then; `no_protocol` — a box whose VPN is off.
-/
import KrgInfra.Python
import Mathlib.Data.List.MinMax
import Mathlib.Order.Defs.LinearOrder

namespace ApplyVpn

open Python

/-- `str.lower` -/
abbrev Lower : Type := String → String

/-! ### Conf files -/

/-- `s.strip(c)` -/
def stripChar (c : Char) (l : List Char) : List Char :=
  ((l.dropWhile (· = c)).reverse.dropWhile (· = c)).reverse

/-- The name and the value of a line, if it has them. -/
def keyLine (line : String) : Option (String × String) :=
  let stripped := (strip line).toList
  if stripped.head? = some '#' ∨ stripped.head? = some ';' ∨ '=' ∉ stripped then none
  else
    some (strip (String.ofList (stripped.takeWhile (· ≠ '='))),
      String.ofList (stripChar '\'' (stripChar '"'
        (strip (String.ofList ((stripped.dropWhile (· ≠ '=')).drop 1))).toList)))

/-- `_key_value`, of a file that may be missing. -/
def key_value (lower : Lower) (content : Option String) (key : String) : Option String := do
  let text ← content
  let lines := (splitlines (readText text)).filterMap keyLine
  (lines.find? fun line => lower line.1 = lower key).map Prod.snd

/-! ### The box -/

inductive Backend where
  | ad
  | «local»
  deriving DecidableEq

/-- The files of vpnauthd, in the order in which they are written. -/
inductive Conf where
  | rad_ntlm_auth
  | rad_site_def
  deriving DecidableEq

structure File where
  text : String
  mtime : ℕ

/-- A process named vpnauthd. -/
structure Proc where
  pid : ℕ
  started : ℕ

/-- The box: `site` says which of the shipped sites exist. -/
structure Box where
  conf : Conf → Option File
  site : Backend → Bool
  synoinfo : Option String
  smb : Option String
  synovpn : Option String
  procs : List Proc

structure AuthArgs where
  backend : String
  domain : String

/-- `backend in BACKENDS` -/
def backendOf (lower : Lower) (a : AuthArgs) : Option Backend :=
  if lower (strip a.backend) = "ad" then some .ad
  else if lower (strip a.backend) = "local" then some .local
  else none

def Backend.name : Backend → String
  | .ad => "ad"
  | .local => "local"

/-- `_site_def(backend)` -/
def site_def (backend : Backend) : String :=
  "$INCLUDE /var/packages/VPNCenter/etc/syno_conf/rad_site_def_" ++ backend.name ++ "\n"

/-- `NTLM_PROGRAM_TEMPLATE`, with the domain in its place. -/
def ntlm_program (domain : String) : String :=
  "program = \"/usr/local/bin/ntlm_auth --request-nt-key --domain=%\x7b%\x7bRealm\x7d:-" ++ domain ++
    "\x7d --username=%\x7bmschap:User-Name\x7d --password=%\x7bUser-Password\x7d\"\n"

/-- The domain, which is asked for an AD backend only; `none` where the command fails. -/
def domainFor (lower : Lower) (a : AuthArgs) (b : Box) : Backend → Option String
  | .local => some (strip a.domain)
  | .ad =>
    if lower ((key_value lower b.synoinfo "domainjoined").getD "") ≠ "yes" then none
    else
      let domain :=
        if strip a.domain = "" then (key_value lower b.smb "workgroup").getD "" else strip a.domain
      if domain = "" then none else some domain

/-- The texts that the files should have. -/
def want (backend : Backend) (domain : String) : List (Conf × String) :=
  match backend with
  | .ad => [(.rad_ntlm_auth, ntlm_program domain), (.rad_site_def, site_def .ad)]
  | .local => [(.rad_site_def, site_def .local)]

/-- Whether a file has another text, or is missing. -/
def differs (b : Box) (c : Conf) (body : String) : Bool :=
  match b.conf c with
  | none => true
  | some file => strip (readText file.text) ≠ strip body

/-- `_daemon_is_stale(paths)`: vpnauthd is down, or older than a file. -/
def daemon_is_stale (b : Box) (paths : List Conf) : Bool :=
  match (b.procs.map Proc.started).min? with
  | none => true
  | some started => (paths.filterMap b.conf).any fun file => started < file.mtime

/-- Some protocol is enabled. -/
def enabled (lower : Lower) (b : Box) : Bool :=
  ["runopenvpn", "runpptpd", "runl2tpd"].any fun key =>
    lower ((key_value lower b.synovpn key).getD "") = "yes"

/-! ### The command -/

/-- What happens in a run on a box: when each file is written (`none` where that fails), and which
daemons the polls find after a restart.  A daemon that was not there before the restart is no
older than the files. -/
structure Restarting (b : Box) where
  written : Conf → Option ℕ
  polls : List (List Proc)
  younger : ∀ procs ∈ polls, ∀ p ∈ procs, (∀ q ∈ b.procs, q.pid ≠ p.pid) →
    ∀ c t, written c = some t → t ≤ p.started

/-- How the command ends; all but `fail` exit with 0. -/
inductive AuthOutcome where
  | fail
  | no_change
  | would_change
  | changed
  deriving DecidableEq

/-- What a run did, and the box after it. -/
structure AuthRan where
  outcome : AuthOutcome
  writes : List Conf
  restarted : Bool
  after : Box

def Box.write (b : Box) (c : Conf) (file : File) : Box :=
  { b with conf := fun d => if d = c then some file else b.conf d }

/-- The files are written one by one; the first that cannot be written ends the run. -/
def writeAll (written : Conf → Option ℕ) : List (Conf × String) → Box → Box × List Conf × Bool
  | [], b => (b, [], true)
  | (c, body) :: more, b =>
    match written c with
    | none => (b, [], false)
    | some t =>
      let (after, writes, ok) := writeAll written more (b.write c ⟨body, t⟩)
      (after, c :: writes, ok)

/-- The first poll that finds a daemon, and none of those before. -/
def restart_vpnauthd (before : List Proc) (polls : List (List Proc)) : Option (List Proc) :=
  polls.find? fun procs => !procs.isEmpty &&
    procs.all fun p => before.all fun q => q.pid ≠ p.pid

/-- `cmd_auth`, once the backend and the domain are accepted. -/
def reconcileAuth (lower : Lower) (backend : Backend) (domain : String) (check : Bool) (b : Box)
    (env : Restarting b) : AuthRan :=
  let wanted := want backend domain
  if !(wanted.any fun w => differs b w.1 w.2) && !daemon_is_stale b (wanted.map Prod.fst) then
    ⟨.no_change, [], false, b⟩
  else if check then ⟨.would_change, [], false, b⟩
  else
    match writeAll env.written wanted b with
    | (after, writes, false) => ⟨.fail, writes, false, after⟩
    | (after, writes, true) =>
      -- without an enabled protocol vpnauthd is left alone
      if !enabled lower after then ⟨.changed, writes, false, after⟩
      else
        match restart_vpnauthd b.procs env.polls with
        | none => ⟨.fail, writes, true, { after with procs := env.polls.getLastD after.procs }⟩
        | some procs => ⟨.changed, writes, true, { after with procs := procs }⟩

def cmd_auth (lower : Lower) (a : AuthArgs) (check : Bool) (b : Box) (env : Restarting b) :
    AuthRan :=
  match backendOf lower a with
  | none => ⟨.fail, [], false, b⟩
  | some backend =>
    if b.site backend then
      match domainFor lower a b backend with
      | none => ⟨.fail, [], false, b⟩
      | some domain => reconcileAuth lower backend domain check b env
    else ⟨.fail, [], false, b⟩

/-! ### What is found again -/

/-- The daemon serves its files exactly where there is one, and no file is younger. -/
theorem not_stale_iff {b : Box} {paths : List Conf} :
    daemon_is_stale b paths = false ↔ b.procs ≠ [] ∧
      ∀ p ∈ b.procs, ∀ c ∈ paths, ∀ file, b.conf c = some file → file.mtime ≤ p.started := by
  rw [daemon_is_stale]
  cases hmin : (b.procs.map Proc.started).min? with
  | none =>
    have hnil : b.procs = [] := by simpa using hmin
    simp [hnil]
  | some started =>
    obtain ⟨hmem, hle⟩ := List.min?_eq_some_iff.mp hmin
    obtain ⟨q, hq, rfl⟩ := List.mem_map.mp hmem
    constructor
    · intro hany
      refine ⟨List.ne_nil_of_mem hq, fun p hp c hc file hfile => ?_⟩
      have hfile' : file ∈ paths.filterMap b.conf := List.mem_filterMap.mpr ⟨c, hc, hfile⟩
      have hold := List.any_eq_false.mp hany file hfile'
      have hqp := hle p.started (List.mem_map_of_mem hp)
      simp only [decide_eq_true_eq] at hold
      omega
    · rintro ⟨-, hall⟩
      rw [List.any_eq_false]
      intro file hfile
      obtain ⟨c, hc, hfile⟩ := List.mem_filterMap.mp hfile
      have hold := hall q hq c hc file hfile
      simp only [decide_eq_true_eq]
      omega

theorem mem_strip {c : Char} {s : String} (h : c ∈ (strip s).toList) : c ∈ s.toList := by
  rw [strip, String.toList_ofList, List.mem_reverse] at h
  have hrev := (List.dropWhile_sublist _).subset h
  exact (List.dropWhile_sublist _).subset (List.mem_reverse.mp hrev)

/-- Between texts that are not blank nothing is stripped. -/
theorem mem_strip_middle {before middle behind : String} {c d e : Char}
    (hc : c ∈ middle.toList) (hd : d ∈ before.toList) (hdspace : isspace d = false)
    (he : e ∈ behind.toList) (hespace : isspace e = false) :
    c ∈ (strip (before ++ middle ++ behind)).toList := by
  have hdrop : ∀ {l : List Char} {d : Char}, d ∈ l → isspace d = false → ∀ m,
      ∃ rest, (l ++ m).dropWhile isspace = rest ++ m ∧ d ∈ rest := by
    intro l d hd hspace m
    induction l with
    | nil => exact nomatch hd
    | cons x l ih =>
      cases hx : isspace x with
      | false =>
        rw [List.cons_append, List.dropWhile_cons_of_neg (by rw [hx]; simp)]
        exact ⟨x :: l, rfl, hd⟩
      | true =>
        have hne : d ≠ x := by
          rintro rfl
          rw [hx] at hspace
          exact nomatch hspace
        rw [List.cons_append, List.dropWhile_cons_of_pos hx]
        exact ih ((List.mem_cons.mp hd).resolve_left hne)
  obtain ⟨rest, hrest, -⟩ := hdrop hd hdspace (middle.toList ++ behind.toList)
  have hmem : e ∈ behind.toList.reverse := List.mem_reverse.mpr he
  obtain ⟨tail, htail, -⟩ := hdrop hmem hespace (middle.toList.reverse ++ rest.reverse)
  rw [strip, String.toList_ofList, String.toList_append, String.toList_append, List.append_assoc,
    hrest, List.reverse_append, List.reverse_append, List.append_assoc, htail, List.mem_reverse]
  simp [hc]

/-- A domain stands within what is left of the text that holds it. -/
theorem mem_strip_ntlm {c : Char} {domain : String} (h : c ∈ domain.toList) :
    c ∈ (strip (ntlm_program domain)).toList := by
  have hliteral : ∀ {d : Char} {l : List Char}, d ∈ l → d ∈ (String.ofList l).toList :=
    fun h => by rwa [String.toList_ofList]
  unfold ntlm_program
  refine mem_strip_middle (d := 'p') (e := '\x7d') h ?_ (by decide) ?_ (by decide)
  · exact hliteral (by decide)
  · exact hliteral (by decide)

/-- A carriage return in the domain is read as a newline. -/
theorem differs_of_cr {b : Box} {domain : String} (h : '\r' ∈ domain.toList) :
    differs b .rad_ntlm_auth (ntlm_program domain) = true := by
  rw [differs]
  cases b.conf .rad_ntlm_auth with
  | none => rfl
  | some file =>
    rw [decide_eq_true_iff]
    intro heq
    have hcr : '\r' ∈ (strip (readText file.text)).toList := by
      rw [heq]
      exact mem_strip_ntlm h
    exact cr_not_mem_readText file.text (mem_strip hcr)

theorem cr_not_mem_site (backend : Backend) : '\r' ∉ (site_def backend).toList := by
  have hname : '\r' ∉ backend.name.toList := by
    cases backend with
    | ad =>
      show '\r' ∉ "ad".toList
      exact cr_not_mem_ofList (by decide)
    | «local» =>
      show '\r' ∉ "local".toList
      exact cr_not_mem_ofList (by decide)
  unfold site_def
  simp only [String.toList_append, List.mem_append, not_or]
  exact ⟨⟨cr_not_mem_ofList (by decide), hname⟩, cr_not_mem_ofList (by decide)⟩

/-- The texts are without carriage returns, if the domain is. -/
theorem cr_not_mem_want {backend : Backend} {domain : String}
    (h : backend = .ad → '\r' ∉ domain.toList) {c : Conf} {body : String}
    (hw : (c, body) ∈ want backend domain) : '\r' ∉ body.toList := by
  cases backend with
  | «local» =>
    obtain ⟨-, rfl⟩ := Prod.mk.inj (List.mem_singleton.mp hw)
    exact cr_not_mem_site .local
  | ad =>
    obtain hw | hw := List.mem_cons.mp hw
    · obtain ⟨-, rfl⟩ := Prod.mk.inj hw
      unfold ntlm_program
      simp only [String.toList_append, List.mem_append, not_or]
      exact ⟨⟨cr_not_mem_ofList (by decide), h rfl⟩, cr_not_mem_ofList (by decide)⟩
    · obtain ⟨-, rfl⟩ := Prod.mk.inj (List.mem_singleton.mp hw)
      exact cr_not_mem_site .ad

/-! ### Two runs -/

/-- Nothing is to be done: the texts are those that are wanted, and the daemon serves them. -/
def Quiet (b : Box) (wanted : List (Conf × String)) : Prop :=
  (∀ w ∈ wanted, differs b w.1 w.2 = false) ∧ daemon_is_stale b (wanted.map Prod.fst) = false

theorem quiet_iff {b : Box} {wanted : List (Conf × String)} :
    (!(wanted.any fun w => differs b w.1 w.2) && !daemon_is_stale b (wanted.map Prod.fst)) = true ↔
      Quiet b wanted := by
  rw [Bool.and_eq_true, Bool.not_eq_true', Bool.not_eq_true', List.any_eq_false]
  exact and_congr_left' (forall₂_congr fun w _ => iff_of_eq (Bool.not_eq_true _))

/-- What the files are after the last of them is written; the rest of the box is as it was. -/
structure Wrote (written : Conf → Option ℕ) (wanted : List (Conf × String)) (b after : Box) :
    Prop where
  file : ∀ w ∈ wanted, ∃ t, written w.1 = some t ∧ after.conf w.1 = some ⟨w.2, t⟩
  other : ∀ c, (∀ w ∈ wanted, w.1 ≠ c) → after.conf c = b.conf c
  site : after.site = b.site
  synoinfo : after.synoinfo = b.synoinfo
  smb : after.smb = b.smb
  synovpn : after.synovpn = b.synovpn
  procs : after.procs = b.procs

theorem wrote_of_writeAll {written : Conf → Option ℕ} {after : Box} {writes : List Conf} :
    ∀ {wanted : List (Conf × String)} {b : Box}, (wanted.map Prod.fst).Nodup →
      writeAll written wanted b = (after, writes, true) → Wrote written wanted b after := by
  intro wanted
  induction wanted generalizing writes with
  | nil =>
    intro b _ h
    obtain ⟨rfl, -⟩ := Prod.mk.inj h
    exact ⟨fun _ h => (nomatch h), fun _ _ => rfl, rfl, rfl, rfl, rfl, rfl⟩
  | cons w wanted ih =>
    intro b hnodup h
    obtain ⟨c, body⟩ := w
    obtain ⟨hc, hnodup⟩ := List.nodup_cons.mp hnodup
    have hother : ∀ w ∈ wanted, w.1 ≠ c := fun w hw heq =>
      hc (List.mem_map.mpr ⟨w, hw, heq⟩)
    rw [writeAll] at h
    cases ht : written c with
    | none =>
      rw [ht] at h
      exact nomatch h
    | some t =>
      simp only [ht] at h
      obtain ⟨hafter, hrest⟩ := Prod.mk.inj h
      obtain ⟨-, hok⟩ := Prod.mk.inj hrest
      have ih := ih hnodup (b := b.write c ⟨body, t⟩) (Prod.ext hafter (Prod.ext rfl hok))
      refine ⟨fun w hw => ?_, fun d hd => ?_, ih.site, ih.synoinfo, ih.smb, ih.synovpn, ih.procs⟩
      · obtain rfl | hw := List.mem_cons.mp hw
        · refine ⟨t, ht, ?_⟩
          rw [ih.other c hother]
          exact if_pos rfl
        · exact ih.file w hw
      · rw [ih.other d fun w hw => hd w (List.mem_cons_of_mem _ hw)]
        exact if_neg fun heq => hd (c, body) List.mem_cons_self heq.symm

theorem nodup_want (backend : Backend) (domain : String) :
    ((want backend domain).map Prod.fst).Nodup := by
  cases backend with
  | ad =>
    show [Conf.rad_ntlm_auth, Conf.rad_site_def].Nodup
    decide
  | «local» =>
    show [Conf.rad_site_def].Nodup
    decide

/-- A run of the command on a box where it is accepted. -/
theorem cmd_auth_eq {lower : Lower} {a : AuthArgs} {b : Box} {backend : Backend} {domain : String}
    (hbackend : backendOf lower a = some backend) (hsite : b.site backend = true)
    (hdomain : domainFor lower a b backend = some domain) (check : Bool) (env : Restarting b) :
    cmd_auth lower a check b env = reconcileAuth lower backend domain check b env := by
  simp only [cmd_auth, hbackend, hsite, hdomain, if_true]

/-- A run that exits with 0 was accepted. -/
theorem accepted_of_not_fail {lower : Lower} {a : AuthArgs} {b : Box} {check : Bool}
    {env : Restarting b} (h : (cmd_auth lower a check b env).outcome ≠ .fail) :
    ∃ backend domain, backendOf lower a = some backend ∧ b.site backend = true ∧
      domainFor lower a b backend = some domain := by
  unfold cmd_auth at h
  cases hbackend : backendOf lower a with
  | none =>
    rw [hbackend] at h
    exact absurd rfl h
  | some backend =>
    simp only [hbackend] at h
    split_ifs at h with hsite
    · cases hdomain : domainFor lower a b backend with
      | none =>
        rw [hdomain] at h
        exact absurd rfl h
      | some domain => exact ⟨backend, domain, rfl, hsite, hdomain⟩
    · exact absurd rfl h

/-- A run that finds nothing to do reports no change, writes nothing and restarts nothing. -/
def Settled (lower : Lower) (a : AuthArgs) (b : Box) : Prop :=
  ∀ env : Restarting b, cmd_auth lower a false b env = ⟨.no_change, [], false, b⟩

/-- No time passes. -/
def Restarting.idle (b : Box) : Restarting b := ⟨fun _ => none, [], fun _ h => nomatch h⟩

theorem settled_iff {lower : Lower} {a : AuthArgs} {b : Box} {backend : Backend} {domain : String}
    (hbackend : backendOf lower a = some backend) (hsite : b.site backend = true)
    (hdomain : domainFor lower a b backend = some domain) :
    Settled lower a b ↔ Quiet b (want backend domain) := by
  constructor
  · intro h
    have hrun := h (Restarting.idle b)
    rw [cmd_auth_eq hbackend hsite hdomain, reconcileAuth] at hrun
    by_contra hquiet
    rw [if_neg fun h => hquiet (quiet_iff.mp h)] at hrun
    cases backend with
    | ad => exact nomatch hrun
    | «local» => exact nomatch hrun
  · intro hquiet env
    rw [cmd_auth_eq hbackend hsite hdomain]
    exact if_pos (quiet_iff.mpr hquiet)

/-- The condition on the box before the run: the domain has no carriage return, and nothing is to
be done, or a protocol is enabled, or the daemon is no older than the files that are written. -/
def Settles (lower : Lower) (a : AuthArgs) (b : Box) (env : Restarting b) : Prop :=
  ∃ backend domain, backendOf lower a = some backend ∧ domainFor lower a b backend = some domain ∧
    (backend = .ad → '\r' ∉ domain.toList) ∧
    (Quiet b (want backend domain) ∨ enabled lower b = true ∨
      b.procs ≠ [] ∧ ∀ p ∈ b.procs, ∀ w ∈ want backend domain, ∀ t, env.written w.1 = some t →
        t ≤ p.started)

/-- Files that were written are found as they are wanted exactly where the domain has no carriage
return. -/
theorem differs_wrote {written : Conf → Option ℕ} {backend : Backend} {domain : String}
    {b after : Box} (h : Wrote written (want backend domain) b after) (procs : List Proc) :
    (∀ w ∈ want backend domain, differs { after with procs := procs } w.1 w.2 = false) ↔
      (backend = .ad → '\r' ∉ domain.toList) := by
  constructor
  · rintro hsame rfl hcr
    have hntlm := hsame _ List.mem_cons_self
    rw [differs_of_cr hcr] at hntlm
    exact nomatch hntlm
  · intro hcr w hw
    obtain ⟨t, -, hfile⟩ := h.file w hw
    have hbody : '\r' ∉ w.2.toList := cr_not_mem_want hcr (c := w.1) hw
    simp only [differs, hfile]
    rw [decide_eq_false_iff_not, not_not, readText_eq_self hbody]

/-- The daemon serves files that were written exactly where it is no older. -/
theorem not_stale_wrote {written : Conf → Option ℕ} {wanted : List (Conf × String)} {b after : Box}
    (h : Wrote written wanted b after) (procs : List Proc) :
    daemon_is_stale { after with procs := procs } (wanted.map Prod.fst) = false ↔
      procs ≠ [] ∧ ∀ p ∈ procs, ∀ w ∈ wanted, ∀ t, written w.1 = some t → t ≤ p.started := by
  rw [not_stale_iff]
  refine and_congr_right' (forall₂_congr fun p _ => ?_)
  constructor
  · intro hold w hw t ht
    obtain ⟨t', ht', hfile⟩ := h.file w hw
    obtain rfl := Option.some.inj (ht.symm.trans ht')
    exact hold w.1 (List.mem_map_of_mem hw) _ hfile
  · intro hold c hc file hfile
    obtain ⟨w, hw, rfl⟩ := List.mem_map.mp hc
    obtain ⟨t, ht, hfile'⟩ := h.file w hw
    obtain rfl := Option.some.inj (hfile.symm.trans hfile')
    exact hold w hw t ht

/-- A daemon that a restart brought is no older than the files. -/
theorem younger_of_restart {b : Box} (env : Restarting b) {procs : List Proc}
    (h : restart_vpnauthd b.procs env.polls = some procs) :
    procs ≠ [] ∧ ∀ p ∈ procs, ∀ c t, env.written c = some t → t ≤ p.started := by
  have hfound := List.find?_some h
  rw [Bool.and_eq_true, List.all_eq_true] at hfound
  obtain ⟨hne, hnew⟩ := hfound
  refine ⟨by simpa using hne, fun p hp c t ht => ?_⟩
  refine env.younger procs (List.mem_of_find?_eq_some h) p hp (fun q hq => ?_) c t ht
  exact of_decide_eq_true (List.all_eq_true.mp (hnew p hp) q hq)

/-- What a run leaves that has something to do, and exits with 0. -/
theorem changed_cases {lower : Lower} {backend : Backend} {domain : String} {b : Box}
    {env : Restarting b} (hquiet : ¬ Quiet b (want backend domain))
    (h : (reconcileAuth lower backend domain false b env).outcome ≠ .fail) :
    ∃ after, Wrote env.written (want backend domain) b after ∧
      (enabled lower b = false ∧
        (reconcileAuth lower backend domain false b env).after = { after with procs := b.procs } ∨
      enabled lower b = true ∧ ∃ procs, restart_vpnauthd b.procs env.polls = some procs ∧
        (reconcileAuth lower backend domain false b env).after = { after with procs := procs }) := by
  rw [reconcileAuth, if_neg fun h => hquiet (quiet_iff.mp h), if_neg (by simp)] at h ⊢
  cases hwrite : writeAll env.written (want backend domain) b with
  | mk after rest =>
    obtain ⟨writes, ok⟩ := rest
    rw [hwrite] at h
    cases ok with
    | false => exact absurd rfl h
    | true =>
      have hwrote := wrote_of_writeAll (nodup_want backend domain) hwrite
      have henabled : enabled lower after = enabled lower b := by
        rw [enabled, enabled, hwrote.synovpn]
      refine ⟨after, hwrote, ?_⟩
      simp only [henabled] at h ⊢
      cases hb : enabled lower b with
      | false => exact .inl ⟨rfl, by rw [← hwrote.procs]; rfl⟩
      | true =>
        rw [hb] at h
        cases hrestart : restart_vpnauthd b.procs env.polls with
        | none =>
          rw [hrestart] at h
          exact absurd rfl h
        | some procs => exact .inr ⟨rfl, procs, rfl, rfl⟩

/-- After a run that exits with 0, a second run leaves everything alone exactly where the condition
holds. -/
theorem auth_settles_iff (lower : Lower) (a : AuthArgs) (b : Box) (env : Restarting b)
    (h : (cmd_auth lower a false b env).outcome ≠ .fail) :
    Settled lower a (cmd_auth lower a false b env).after ↔ Settles lower a b env := by
  obtain ⟨backend, domain, hbackend, hsite, hdomain⟩ := accepted_of_not_fail h
  -- the condition, of this backend and domain
  have hsettles : Settles lower a b env ↔ (backend = .ad → '\r' ∉ domain.toList) ∧
      (Quiet b (want backend domain) ∨ enabled lower b = true ∨
        b.procs ≠ [] ∧ ∀ p ∈ b.procs, ∀ w ∈ want backend domain, ∀ t,
          env.written w.1 = some t → t ≤ p.started) := by
    constructor
    · rintro ⟨backend', domain', hbackend', hdomain', hrest⟩
      obtain rfl := Option.some.inj (hbackend.symm.trans hbackend')
      obtain rfl := Option.some.inj (hdomain.symm.trans hdomain')
      exact hrest
    · exact fun hrest => ⟨backend, domain, hbackend, hdomain, hrest⟩
  rw [hsettles]
  have hrun := cmd_auth_eq hbackend hsite hdomain false env
  rw [hrun] at h ⊢
  by_cases hquiet : Quiet b (want backend domain)
  · have hafter : reconcileAuth lower backend domain false b env = ⟨.no_change, [], false, b⟩ :=
      if_pos (quiet_iff.mpr hquiet)
    rw [hafter, settled_iff hbackend hsite hdomain]
    refine ⟨fun _ => ⟨?_, .inl hquiet⟩, fun _ => hquiet⟩
    rintro rfl hcr
    have hntlm := hquiet.1 _ List.mem_cons_self
    rw [differs_of_cr hcr] at hntlm
    exact nomatch hntlm
  obtain ⟨after, hwrote, hcases⟩ := changed_cases hquiet h
  -- the second run finds the files as they were written, and some daemons
  have hsecond : ∀ procs : List Proc, Settled lower a { after with procs := procs } ↔
      (backend = .ad → '\r' ∉ domain.toList) ∧ procs ≠ [] ∧ ∀ p ∈ procs,
        ∀ w ∈ want backend domain, ∀ t, env.written w.1 = some t → t ≤ p.started := by
    intro procs
    have hsite' : ({ after with procs := procs } : Box).site backend = true := by
      show after.site backend = true
      rw [hwrote.site, hsite]
    have hdomain' : domainFor lower a { after with procs := procs } backend = some domain := by
      rw [← hdomain]
      simp only [domainFor, hwrote.synoinfo, hwrote.smb]
    rw [settled_iff hbackend hsite' hdomain', Quiet, not_stale_wrote hwrote]
    exact and_congr_left' (differs_wrote hwrote procs)
  obtain ⟨henabled, hafter⟩ | ⟨henabled, procs, hrestart, hafter⟩ := hcases
  · rw [hafter, hsecond, henabled]
    simp [hquiet]
  · obtain ⟨hne, hyounger⟩ := younger_of_restart env hrestart
    rw [hafter, hsecond, henabled]
    exact and_congr_right' ⟨fun _ => .inr (.inl rfl), fun _ => ⟨hne, fun p hp w _ t =>
      hyounger p hp w.1 t⟩⟩

/-- The arguments of a NAS whose VPN asks the local accounts. -/
def localArgs : AuthArgs := ⟨"local", ""⟩

/-- A box without the file, on which OpenVPN is set as `runopenvpn` says. -/
def unwritten (runopenvpn : String) (procs : List Proc) : Box where
  conf := fun _ => none
  site := fun _ => true
  synoinfo := none
  smb := none
  synovpn := some ("runopenvpn=" ++ runopenvpn ++ "\n")
  procs := procs

/-- A restart that replaces the daemon. -/
def replaced : Restarting (unwritten "yes" [⟨100, 1⟩]) where
  written := fun _ => some 2
  polls := [[⟨100, 1⟩], [], [⟨101, 3⟩]]
  younger := by
    intro procs hprocs p hp hnew c t ht
    obtain rfl := Option.some.inj ht
    simp only [List.mem_cons, List.not_mem_nil, or_false] at hprocs
    obtain rfl | rfl | rfl := hprocs
    · rw [List.mem_singleton.mp hp] at hnew
      exact absurd rfl (hnew ⟨100, 1⟩ List.mem_cons_self)
    · exact nomatch hp
    · rw [List.mem_singleton.mp hp]
      decide

theorem auth_settles_iff_replaced :
    Settled (fun s => s) localArgs
        (cmd_auth (fun s => s) localArgs false (unwritten "yes" [⟨100, 1⟩]) replaced).after ↔
      Settles (fun s => s) localArgs (unwritten "yes" [⟨100, 1⟩]) replaced :=
  auth_settles_iff (fun s => s) localArgs (unwritten "yes" [⟨100, 1⟩]) replaced
    (by decide +kernel)

/-- A run on a box whose VPN is off. -/
def unbounced (b : Box) : Restarting b := ⟨fun _ => some 2, [], fun _ h => nomatch h⟩

theorem unbounced_after :
    (cmd_auth (fun s => s) localArgs false (unwritten "no" []) (unbounced _)).after =
      (unwritten "no" []).write .rad_site_def ⟨site_def .local, 2⟩ := rfl

/-- The file is written, the daemon stays down, and every run writes the file again. -/
theorem no_protocol :
    (cmd_auth (fun s => s) localArgs false (unwritten "no" []) (unbounced _)).outcome = .changed ∧
      ¬ Settled (fun s => s) localArgs
        (cmd_auth (fun s => s) localArgs false (unwritten "no" []) (unbounced _)).after := by
  constructor
  · decide +kernel
  · rw [unbounced_after]
    intro h
    have hbackend : backendOf (fun s => s) localArgs = some .local := by decide +kernel
    have hdomain : domainFor (fun s => s) localArgs
        ((unwritten "no" []).write .rad_site_def ⟨site_def .local, 2⟩) .local =
          some (strip localArgs.domain) := rfl
    have hquiet := (settled_iff hbackend rfl hdomain).mp h
    exact (not_stale_iff.mp hquiet.2).1 rfl

end ApplyVpn
