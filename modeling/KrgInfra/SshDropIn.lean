/-
apply_ssh: `sshd-drop-in`.

The command keeps three files: the hardening drop-in, the main sshd_config with an Include
block at its top, and the helper that looks up keys in AD.  It writes those that are not as
they should be, asks `sshd -t` about the result, puts the former contents back if that is
refused, and restarts sshd if it is not.

A file is its content; modes, and temporary files that a failed write leaves behind, are left
out.  The texts that are printed are left out too: a `Report` says which of them it is.

* `render_drop_in`, `ensure_include_block`, `desired_of` — what the files should hold;
* `atomic_write`, `restore`, `apply_plan`, `do_sshd_drop_in`, `runSshd` — the program.
-/
import KrgInfra.Program
import KrgInfra.Python
import Mathlib.Logic.Function.Basic
import Mathlib.Data.List.Infix

namespace ApplySsh

open Python

/-- `OSError`, and everything else that may be raised. -/
inductive Failure where
  | os
  | other
  deriving DecidableEq, Repr

/-- The files of the transaction. -/
inductive ManagedFile where
  | dropIn
  | authkeys
  | main
  deriving DecidableEq, Repr

/-- What the files hold, as far as they exist. -/
abbrev Files : Type := ManagedFile → Option String

structure Args where
  allowPassword : String
  allowRoot : String
  allowedAlgos : String := ""
  check : Bool := false

inductive Site where
  | readMain
  | read (path : ManagedFile)
  | write (path : ManagedFile)
  | test
  | restoreOpen (path : ManagedFile)
  | restoreWrite (path : ManagedFile)
  | restart
  deriving DecidableEq, Repr

/-- The files, whether sshd was (re)started after the last of them was written, and what
`sshd -t` has accepted in this run. -/
structure SshdWorld where
  files : Files
  restarted : Bool
  validated : Option Files := none

/-- One of the files is written, or removed. -/
def SshdWorld.put (w : SshdWorld) (path : ManagedFile) (content : Option String) : SshdWorld :=
  { w with files := Function.update w.files path content, restarted := false }

/-- Which calls fail, what `sshd -t` accepts, the status of `systemctl restart`, and whether
one that is not 0 has restarted sshd all the same. -/
structure SshdEnv where
  outcome : Site → Outcome Failure := fun _ => .ok
  accepts : Files → Bool := fun _ => true
  restartCode : ℕ := 0
  restarts : Bool := false

/-- Nobody else writes the files while the command runs. -/
def SshdEnv.toEnv (env : SshdEnv) : Env Site Failure SshdWorld where
  before _ w := w
  outcome := env.outcome

/-- A part of the command. -/
abbrev Sshd (α : Type) : Type := Program Failure SshdWorld α

/-- How a run ends that raises nothing. -/
inductive Report where
  | noChange
  | wouldChange
  | refused
  | notRestarted
  | failed
  | changed
  deriving DecidableEq, Repr

/-- The exit status that goes with a report. -/
def Report.rc : Report → ℕ
  | .noChange => 0
  | .wouldChange => 0
  | .refused => 1
  | .notRestarted => 1
  | .failed => 1
  | .changed => 0

/-! ### What the files should hold -/

/-- `_render_drop_in` -/
def render_drop_in (allowPassword allowRoot : Bool) (allowedAlgos : String) : String :=
  let algos :=
    if allowedAlgos ≠ "" then
      "PubkeyAcceptedKeyTypes " ++ allowedAlgos ++ "\n" ++ "HostKeyAlgorithms " ++ allowedAlgos ++ "\n"
    else ""
  "# Managed by Ansible (krg-infra synology_ssh) — DO NOT EDIT.\n" ++
  "# Mirrors ansible/roles/ssh_hardening/templates/10-krg-hardening.conf.j2 and\n" ++
  "# nix/profiles/base.nix services.openssh.settings. DSM's UI has no toggle for\n" ++
  "# these settings, so they live here. A DSM major update can REVERT this file\n" ++
  "# AND the main-config Include directive — re-apply synology_base after upgrades.\n" ++
  "\n" ++
  "PasswordAuthentication " ++ (if allowPassword then "yes" else "no") ++ "\n" ++
  "PermitRootLogin " ++ (if allowRoot then "yes" else "no") ++ "\n" ++
  "ChallengeResponseAuthentication no\n" ++
  "KbdInteractiveAuthentication no\n" ++
  algos ++ "AuthorizedKeysCommand /usr/local/bin/krg-ad-authkeys\n" ++
  "AuthorizedKeysCommandUser root\n"

def include_begin_marker : String := "# --- BEGIN KRG-MANAGED Include (synology_ssh) ---"

def include_block : String :=
  include_begin_marker ++ "\n" ++
  "# DSM ships sshd_config without an `Include` directive, leaving the drop-in at\n" ++
  "# /etc/ssh/sshd_config.d/*.conf orphaned. Prepended at the top so first-wins\n" ++
  "# semantics give the drop-in's PasswordAuthentication=no priority over the\n" ++
  "# `PasswordAuthentication yes` line further down in this file.\n" ++
  "Include /etc/ssh/sshd_config.d/*.conf\n" ++
  "# --- END KRG-MANAGED Include (synology_ssh) ---" ++ "\n\n"

/-- The Include block stands in front, unless its marker is there already. -/
def ensure_include_block (content : String) : String :=
  if include_begin_marker.toList <:+: content.toList then content else include_block ++ content

def ad_authkeys_script : String :=
  "#!/bin/sh\n" ++
  "# Managed by Ansible (krg-infra synology_ssh) — DO NOT EDIT.\n" ++
  "# AuthorizedKeysCommand for sshd: prints AD-served sshPublicKey lines for $1.\n" ++
  "set -eu\n" ++
  "USER=\"$\x7b1:-\x7d\"\n" ++
  "[ -n \"$USER\" ] || exit 0\n" ++
  "# Whitelist sAMAccountName characters; reject anything else (LDAP-injection /\n" ++
  "# shell-meta guard — sshd already passes %u which is unescaped).\n" ++
  "case \"$USER\" in\n" ++
  "  *[!A-Za-z0-9._-]*) exit 0 ;;\n" ++
  "esac\n" ++
  "/usr/local/bin/net ads search \"(sAMAccountName=$USER)\" sshPublicKey 2>/dev/null \\\n" ++
  "  | sed -n 's/^sshPublicKey: //p'\n"

/-- The text of a file, if it exists. -/
def textOf (files : Files) (path : ManagedFile) : Option String := (files path).map readText

/-- What a file should hold, given the text of the main one. -/
def desired_of (args : Args) (currentMain : String) : ManagedFile → String
  | .dropIn => render_drop_in (pyBool args.allowPassword) (pyBool args.allowRoot) args.allowedAlgos
  | .authkeys => ad_authkeys_script
  | .main => ensure_include_block currentMain

/-- A file to be written: its former text, and its new one. -/
structure Change where
  path : ManagedFile
  old : Option String
  new : String

section Program

variable (env : SshdEnv)

/-- `_read_existing` -/
def read_existing (i : Site) (path : ManagedFile) : Sshd (Option String) :=
  call env.toEnv i (.query fun w => .ok (textOf w.files path))

/-- The plan: the files that are not as they should be. -/
def make_plan (desired : ManagedFile → String) : List ManagedFile → Sshd (List Change)
  | [] => return []
  | path :: paths => do
    let old ← read_existing env (.read path) path
    let plan ← make_plan desired paths
    return if old ≠ some (desired path) then ⟨path, old, desired path⟩ :: plan else plan

/-- `_atomic_write` -/
def atomic_write (change : Change) : Sshd Unit :=
  call env.toEnv (.write change.path) fun w => (.ok (), w.put change.path (some change.new))

def write_all : List Change → Sshd Unit
  | [] => return ()
  | change :: plan => do
    atomic_write env change
    write_all plan

/-- `_restore`: a file that was not there is removed, another one is opened for writing, which
empties it, and written. -/
def restore (change : Change) : Sshd Unit :=
  match change.old with
  | none => call env.toEnv (.restoreOpen change.path) fun w => (.ok (), w.put change.path none)
  | some text => do
    call env.toEnv (.restoreOpen change.path) fun w => (.ok (), w.put change.path (some ""))
    call env.toEnv (.restoreWrite change.path) fun w => (.ok (), w.put change.path (some text))

def restore_all : List Change → Sshd Unit
  | [] => return ()
  | change :: plan => do
    restore env change
    restore_all plan

/-- `sshd -t`: whether it accepts the files. -/
def sshd_test : Sshd Bool :=
  call env.toEnv .test fun w =>
    (.ok (env.accepts w.files),
      if env.accepts w.files then { w with validated := some w.files } else w)

/-- `systemctl restart sshd` -/
def restart_sshd : Sshd ℕ :=
  call env.toEnv .restart fun w =>
    (.ok env.restartCode,
      if env.restartCode = 0 ∨ env.restarts then { w with restarted := true } else w)

/-- The transaction. -/
def transaction (plan : List Change) : Sshd Report := do
  write_all env plan
  let accepted ← sshd_test env
  if !accepted then do
    restore_all env plan.reverse
    return .refused
  else do
    let code ← restart_sshd env
    if code ≠ 0 then return .notRestarted else return .changed

/-- `try … except OSError` -/
def apply_plan (plan : List Change) : Sshd Report :=
  tryCatch (transaction env plan) fun e =>
    match e with
    | .os => return .failed
    | .other => throw .other

/-- `do_sshd_drop_in` -/
def do_sshd_drop_in (args : Args) : Sshd Report := do
  let current ← read_existing env .readMain .main
  let plan ← make_plan env (desired_of args (current.getD "")) [.dropIn, .authkeys, .main]
  if plan.isEmpty then return .noChange
  else if args.check then return .wouldChange
  else apply_plan env plan

/-- A run of the command: its exit status, and the world that it ends in. -/
def runSshd (args : Args) (w : SshdWorld) : ℕ × SshdWorld :=
  match outcomeOf (do_sshd_drop_in env args) { w with validated := none } with
  | (.ok report, t) => (report.rc, t.now)
  | (.error _, t) => (1, t.now)

end Program

end ApplySsh
