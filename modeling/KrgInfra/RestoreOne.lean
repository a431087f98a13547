/-
scratch-restore's `restore_one`: pull an archived file back to the scratch tier.

The program is `restore_one`, translated call by call, in the way of `archive_one`.
It looks at the link, checks that the link and its target lie where they should,
copies the target next to the link, renames the copy over the link and removes the
target.

* `archive_target` — the containment checks: the target, if it is to be restored;
* `restore_verify`, `restore_copy` — the `try` block: copy, verify, publish;
* `drop_cold` — the removal of the cold copy.
-/
import KrgInfra.ScratchIO

namespace Scratch

open Posix

/-- The calls of `restore_one`. -/
inductive RestoreSite where
  | islink
  | readlink
  | statTarget
  | lexistsPart
  | unlinkStale
  | copy (c : CopySite)
  | reread
  | unlinkMismatch
  | fchmod
  | utime
  | fchown
  | fsync
  | restatTarget
  | unlinkChanged
  | lstatPart
  | fstatPart
  | closePart
  | replaceLink
  | lexistsPartCleanup
  | unlinkPart
  | statCold
  | unlinkCold
  deriving DecidableEq, Repr

/-- The environment of `restore_one`: which calls fail, what other processes do
before each call, what the scratch tier gives back when the copy is read again if
not what was written, how the copy is served, the random name, the time of day and
who runs it. -/
structure RestoreEnv where
  outcome : RestoreSite → Outcome OSError := fun _ => .ok
  before : RestoreSite → Host → Host := fun _ h => h
  stored : Option Bytes := none
  cp : CopyEnv
  urandom : String
  time_ns : ℤ := 0
  euid : ℕ := 0

def RestoreEnv.toEnv (env : RestoreEnv) : Env RestoreSite OSError Host where
  before := env.before
  outcome := env.outcome

/-- `os.path.basename` -/
def basename (p : Path) : String := p.getLast?.getD ""

def under_any (path : Path) (roots : List Path) : Bool := roots.any (under path)

/-- What a link at `link` points to, as an absolute path. -/
def absolute (link : Path) (t : Target) : Path :=
  if t.absolute then t.names else join (dirname link) t.names

/-- The first pair whose scratch root `link_parent` lies under. -/
def pairOf (link_parent : Path) (pairs : List (Path × Path)) : Option (Path × Path) :=
  pairs.find? fun pair => under_any link_parent [pair.1]

/-- Where the file of the link should have been archived, `cold + relpath`. -/
def expectedTarget (fs : FS) (link link_parent : Path) (pairs : List (Path × Path)) :
    Option Path :=
  (pairOf link_parent pairs).map fun pair =>
    fs.realpath (join pair.2 (relpath (join link_parent [basename link]) pair.1))

/-- Whether the target is the one this link may restore. -/
def contained (fs : FS) (link link_parent target : Path) (cold_roots : List Path)
    (pairs : List (Path × Path)) : Bool :=
  under_any target cold_roots &&
    (pairs.isEmpty || expectedTarget fs link link_parent pairs == some target)

section Program

variable (sha256 : Bytes → String) (env : RestoreEnv)

/-- One call of `restore_one`. -/
def rsys {α : Type} (i : RestoreSite) (act : Work OSError Host α) : Program OSError Host α :=
  call env.toEnv i act

/-- `os.path.islink`: an error of its `lstat` reads as no. -/
def islink (i : RestoreSite) (p : Path) : Program OSError Host Bool := do
  let st ← attempt (rsys env i (ask (·.lstat p)))
  return (st.map fun st => st.node.isLink).getD false

/-- The target of the link, if the checks on the link and on it let it through. -/
def archive_target (link : Path) (scratch_roots cold_roots : List Path)
    (pairs : List (Path × Path)) : Program OSError Host (Option Path) := do
  let is_link ← islink env .islink link
  if is_link = false then return none
  else do
    let link_parent ← peek fun h => h.fs.realpath (dirname link)
    if scratch_roots ≠ [] ∧ under_any link_parent scratch_roots = false then return none
    else do
      let t ← rsys env .readlink (ask (·.readlink link))
      let target ← peek fun h => h.fs.realpath (absolute link t)
      let ok ← peek fun h => contained h.fs link link_parent target cold_roots pairs
      return if ok then some target else none

/-- sha256 of an open fd's contents, as scratch-restore reads it. -/
def reread_sha256 (fd : ℕ) : Program OSError Host String :=
  rsys env .reread fun h =>
    let fs := match env.stored with
      | some b => h.fs.setInode fd { h.fs.inode fd with data := b }
      | none => h.fs
    (.ok (sha256 (fs.inode fd).data), { h with fs := fs })

/-- `n == tst.st_size and fd_sha256(fd) == src_sha`: the digest is taken only of a
copy of the right length. -/
def copy_matches (tst : FS.Stat) (src_sha : String) (n fd : ℕ) : Program OSError Host Bool :=
  if n ≠ tst.size then return false
  else do
    let sha ← reread_sha256 sha256 env fd
    return sha = src_sha

/-- An admin restore preserves the original owner. -/
def restore_owner (tst : FS.Stat) (fd : ℕ) : Program OSError Host Unit :=
  if env.euid = 0 then rsys env .fchown (changeFd (·.fchown fd tst.perm.uid tst.perm.gid))
  else pure ()

/-- Mode, times and owner through the descriptor. -/
def restore_meta (tst : FS.Stat) (fd : ℕ) : Program OSError Host Unit := do
  rsys env .fchmod (changeFd (·.fchmod fd tst.perm.mode))
  rsys env .utime (changeFd (·.utime fd (max env.time_ns tst.atime) tst.mtime))
  restore_owner env tst fd
  rsys env .fsync (changeFd id)

/-- The part of the `try` block that works through the open descriptor. -/
def restore_verify (tst : FS.Stat) (target part : Path) (src_sha : String) (n fd : ℕ) :
    Program OSError Host Bool := do
  let same ← copy_matches sha256 env tst src_sha n fd
  if same = false then do
    rsys env .unlinkMismatch (change (·.unlink part))
    return false
  else do
    restore_meta env tst fd
    let tcur ← attempt (rsys env .restatTarget (ask (·.stat target)))
    if tcur.map identity ≠ some (identity tst) then do
      rsys env .unlinkChanged (change (·.unlink part))
      return false
    else do
      let lp ← rsys env .lstatPart (ask (·.lstat part))
      let fst ← rsys env .fstatPart (ask fun fs => .ok (fs.fstat fd))
      if lp.node.isLink ∨ lp.ino ≠ fst.ino then throw .other
      else return true

/-- The `try` block: copy `target` to `part`, verify it, and rename it over the
link. -/
def restore_copy (tst : FS.Stat) (link target part : Path) : Program OSError Host Bool := do
  unlinkIfThere env.toEnv .lexistsPart .unlinkStale part
  let (src_sha, n, fd) ← copy_and_hash sha256 env.toEnv .copy env.cp target part
  let verified ← withFinally (restore_verify sha256 env tst target part src_sha n fd)
    (rsys env .closePart (changeFd id))
  if verified then do
    rsys env .replaceLink (change (·.replace part link))
    return true
  else return false

/-- Remove the cold copy if it is still what was restored. -/
def drop_cold (tst : FS.Stat) (target : Path) : Program OSError Host (Option Unit) := do
  let tst2 ← attempt (rsys env .statCold (ask (·.stat target)))
  if tst2.map identity = some (identity tst) then
    attempt (rsys env .unlinkCold (change (·.unlink target)))
  else return none

/-- From the target on: restore it in the place of the link. -/
def restore_target (link target : Path) (keep_cold : Bool) : Program OSError Host Bool := do
  let tst ← attempt (rsys env .statTarget (ask (·.stat target)))
  match tst with
  | none => return false
  | some tst =>
    if tst.node.isFile = false then return false
    else do
      let part := tmp_sibling link "sr" env.urandom
      let restored ← tryCatch (restore_copy sha256 env tst link target part) fun _ => do
        let _ ← cleanup env.toEnv .lexistsPartCleanup .unlinkPart part
        return false
      if restored = false then return false
      else if keep_cold then return true
      else do
        let _ ← drop_cold env tst target
        return true

/-- Restore a single archived symlink; `true` on a successful restore. -/
def restore_one (link : Path) (scratch_roots cold_roots : List Path)
    (pairs : List (Path × Path)) (keep_cold : Bool) : Program OSError Host Bool := do
  let target ← archive_target env link scratch_roots cold_roots pairs
  match target with
  | none => return false
  | some target => restore_target sha256 env link target keep_cold

end Program

end Scratch
