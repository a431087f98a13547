/-
scratch-overflow's `archive_one`: demote one file to the cold tier.

The program is `archive_one`, translated call by call; every call to the file
system is a site at which the environment may make it fail, and before which
other processes may write to the file being demoted.

* `makedirs_mirror` — the directories on the cold tier;
* `archive_copy` — the first `try` block: copy, verify, publish;
* `archive_swap` — the last `try` block: the symlink over the local file.

What `archive_one` prints names the file.  Inside the first `try` block it prints only
where it drops the copy, and no handler of the block is for what `print` raises, so
that such a line stands behind the block here.
-/
import KrgInfra.ScratchIO

namespace Scratch

open Posix

/-- The calls of `archive_one`; `k` numbers the directory levels of
`makedirs_mirror`. -/
inductive ArchiveSite where
  | statPath
  | lstatCold (k : ℕ)
  | mkdirCold (k : ℕ)
  | statSrc (k : ℕ)
  | chownCold (k : ℕ)
  | chmodCold (k : ℕ)
  | lexistsPart
  | unlinkStale
  | copy (c : CopySite)
  | unlinkShort
  | reread
  | unlinkCorrupt
  | fchown
  | fchmod
  | utime
  | fsync
  | lstatPart
  | fstatPart
  | closePart
  | replaceDest
  | lexistsPartCleanup
  | unlinkPart
  | restat
  | unlinkDest
  | lexistsLink
  | unlinkStaleLink
  | symlink
  | replaceLink
  | lexistsLinkCleanup
  | unlinkLink
  | manifest
  deriving DecidableEq, Repr

/-- Whether the call comes after the second stat of the source. -/
def ArchiveSite.late : ArchiveSite → Bool
  | .unlinkDest | .lexistsLink | .unlinkStaleLink | .symlink | .replaceLink
  | .lexistsLinkCleanup | .unlinkLink | .manifest => true
  | _ => false

/-! ### What other processes do to the file at hand -/

/-- A change of the source by another process: its bytes and times are
rewritten in place, another file is renamed over it, or it is removed. -/
inductive SourceAct where
  | rewrite (data : Bytes) (mtime ctime : ℤ)
  | replaceBy (f : Inode)
  | remove
  deriving DecidableEq, Repr

/-- The host after one such change of `path`; `latest` keeps what it left there. -/
def SourceAct.apply (path : Path) (a : SourceAct) (h : Host) : Host :=
  match h.fs.node path, a with
  | some (.file i), .rewrite data m c =>
    { h with
      fs := h.fs.setInode i { h.fs.inode i with data := data, mtime := m, ctime := c }
      latest := some data }
  | some (.file _), .replaceBy f =>
    if hs : (h.fs.newInode f).CanSet path (.file h.fs.nextIno) then
      { h with fs := (h.fs.newInode f).setNode path _ hs, latest := some f.data }
    else h
  | some (.file _), .remove =>
    if hs : h.fs.isDir path = false then
      { h with fs := h.fs.clearNode path hs, latest := none }
    else h
  | _, _ => h

/-- The environment of `archive_one`: which calls fail, what other processes do to
the source before each call, what the cold tier gives back when the copy is read
again if not what was written, how the copy is served, the two random names, the
time of day, and whether the file's name can be printed. -/
structure ArchiveEnv where
  outcome : ArchiveSite → Outcome OSError := fun _ => .ok
  writes : ArchiveSite → List SourceAct := fun _ => []
  stored : Option Bytes := none
  cp : CopyEnv
  urandomPart : String
  urandomLink : String
  time : ℤ := 0
  printable : Bool := true

/-- The environment as the calls on `path` meet it. -/
def ArchiveEnv.toEnv (env : ArchiveEnv) (path : Path) : Env ArchiveSite OSError Host where
  before i h := (env.writes i).foldl (fun h a => a.apply path h) h
  outcome := env.outcome

/-! ### The program -/

section Program

variable (sha256 : Bytes → String) (env : ArchiveEnv) (path scratch cold : Path)

/-- One call of `archive_one` on `path`. -/
def sys {α : Type} (i : ArchiveSite) (act : Work OSError Host α) : Program OSError Host α :=
  call (env.toEnv path) i act

/-- `log(…)`, and `return n` -/
def logged (n : ℕ) : Program OSError Host ℕ := do
  log env.printable
  return n

/-- One level of `makedirs_mirror`: `cur_cold` is a real directory already, or it
is made; a link or anything else there is refused. -/
def mirrorDir (k : ℕ) (cur_cold : Path) : Program OSError Host Unit := do
  let cst ← tryCatch (some <$> sys env path (.lstatCold k) (ask (·.lstat cur_cold))) fun e =>
    if e = .fileNotFound then pure none else throw e
  match cst with
  | some cst =>
    if cst.node.isLink then throw .other
    else if cst.node.isDir = false then throw .other
    else pure ()
  | none => sys env path (.mkdirCold k) (change (·.mkdir cur_cold ⟨0, 0, 0o755#12⟩))

/-- The owner and mode of a level, as far as they can be had. -/
def mirrorPerm (k : ℕ) (cur_src cur_cold : Path) : Program OSError Host (Option Unit) :=
  attempt do
    let sst ← sys env path (.statSrc k) (ask (·.stat cur_src))
    sys env path (.chownCold k) (change (·.lchown cur_cold sst.perm.uid sst.perm.gid))
    sys env path (.chmodCold k) (change (·.chmod cur_cold sst.perm.mode))

/-- The loop of `makedirs_mirror` from level `k` on. -/
def mirrorLevels : ℕ → Path → Path → List String → Program OSError Host Unit
  | _, _, _, [] => pure ()
  | k, cur_src, cur_cold, part :: parts =>
    if part = "" then mirrorLevels (k + 1) cur_src cur_cold parts
    else do
      mirrorDir env path k (join cur_cold [part])
      let _ ← mirrorPerm env path k (join cur_src [part]) (join cur_cold [part])
      mirrorLevels (k + 1) (join cur_src [part]) (join cur_cold [part]) parts

/-- Create cold/<dirname(rel)>, mirroring each source dir's owner/mode. -/
def makedirs_mirror (rel : Path) : Program OSError Host Unit :=
  mirrorLevels env path 0 scratch cold (dirname rel)

/-- sha256 of an open fd's contents (rewinds first).  When the cold tier did not
keep what was written, this is where it shows. -/
def fd_sha256 (fd : ℕ) : Program OSError Host String :=
  sys env path .reread fun h =>
    let fs := match env.stored with
      | some b => h.fs.setInode fd { h.fs.inode fd with data := b }
      | none => h.fs
    (.ok (sha256 (fs.inode fd).data), { h with fs := fs })

/-- The part of the first `try` block that works through the open descriptor:
verify, set the metadata, and check that `part` is still the same file. -/
def archive_verify (st : FS.Stat) (part : Path) (src_sha : String) (nbytes fd : ℕ) :
    Program OSError Host Bool :=
  if nbytes ≠ st.size then do
    sys env path .unlinkShort (change (·.unlink part))
    return false
  else do
    let sha ← fd_sha256 sha256 env path fd
    if sha ≠ src_sha then do
      sys env path .unlinkCorrupt (change (·.unlink part))
      return false
    else do
      sys env path .fchown (changeFd (·.fchown fd st.perm.uid st.perm.gid))
      sys env path .fchmod (changeFd (·.fchmod fd st.perm.mode))
      sys env path .utime (changeFd (·.utime fd st.atime st.mtime))
      sys env path .fsync (changeFd id)
      let lp ← sys env path .lstatPart (ask (·.lstat part))
      let fst ← sys env path .fstatPart (ask fun fs => .ok (fs.fstat fd))
      if lp.node.isLink ∨ lp.ino ≠ fst.ino then throw .other
      else return true

/-- The first `try` block: copy `path` to `part`, verify it, and publish it as
`dest`.  The digest of what was read, or `none` when the copy was dropped. -/
def archive_copy (st : FS.Stat) (rel dest part : Path) : Program OSError Host (Option String) := do
  makedirs_mirror env path scratch cold rel
  unlinkIfThere (env.toEnv path) .lexistsPart .unlinkStale part
  let (src_sha, nbytes, fd) ← copy_and_hash sha256 (env.toEnv path) .copy env.cp path part
  let verified ← withFinally (archive_verify sha256 env path st part src_sha nbytes fd)
    (sys env path .closePart (changeFd id))
  if verified then do
    sys env path .replaceDest (change (·.replace part dest))
    return some src_sha
  else return none

/-- The last `try` block: `link_tmp` becomes the symlink and takes the place of
the local file. -/
def archive_swap (dest link_tmp : Path) : Program OSError Host Unit := do
  unlinkIfThere (env.toEnv path) .lexistsLink .unlinkStaleLink link_tmp
  sys env path .symlink (change (·.symlink ⟨true, dest⟩ link_tmp))
  sys env path .replaceLink (change (·.replace link_tmp path))

/-- max(atime, mtime, ctime): when the file was last used on this pool. -/
def last_use (st : FS.Stat) : ℤ := max st.atime (max st.mtime st.ctime)

/-- `int(...)` of a time stamp in seconds. -/
def seconds (ns : ℤ) : ℤ := ns.tdiv 1000000000

/-- From the second stat on: unless the source changed while it was copied, swap
it for the symlink and record that in the manifest. -/
def archive_switch (st : FS.Stat) (dest : Path) (src_sha : String) (reason : Reason) :
    Program OSError Host ℕ := do
  let st2 ← attempt (sys env path .restat (ask (·.stat path)))
  if st2.map identity ≠ some (identity st) then do
    let _ ← attempt (sys env path .unlinkDest (change (·.unlink dest)))
    logged env 0
  else do
    let link_tmp := tmp_sibling path "so" env.urandomLink
    let swapped ← attempt (archive_swap env path dest link_tmp)
    if swapped = none then do
      let _ ← cleanup (env.toEnv path) .lexistsLinkCleanup .unlinkLink link_tmp
      logged env 0
    else do
      sys env path .manifest (Work.update fun h => .ok ((), { h with
        manifest := h.manifest ++ [{
          ts := seconds env.time
          reason := reason
          path := path
          dest := dest
          size := st.size
          sha256 := src_sha
          atime := seconds st.atime
          last_use := seconds (last_use st) }] }))
      -- allocated bytes, not logical ones: that is what the pool gets back
      logged env (st.blocks * 512)

/-- Copy `path` to the cold tier, verify, then atomically replace it by a
symlink; the bytes freed on success, 0 on skip or failure. -/
def archive_one (dry_run : Bool) (reason : Reason) : Program OSError Host ℕ := do
  let rel := relpath path scratch
  let dest := join cold rel
  let found ← attempt (sys env path .statPath (ask (·.stat path)))
  match found with
  | none => return 0
  | some st =>
    if dry_run then logged env (st.blocks * 512)
    else do
      let cold_real ← peek fun h => h.fs.realpath cold
      let dest_real ← peek fun h => h.fs.realpath dest
      if under dest_real cold_real = false then logged env 0
      else do
        let part := tmp_sibling dest "so" env.urandomPart
        let copied ← tryCatch (archive_copy sha256 env path scratch cold st rel dest part) fun _ => do
          let _ ← cleanup (env.toEnv path) .lexistsPartCleanup .unlinkPart part
          return none
        match copied with
        | none => logged env 0
        | some src_sha => archive_switch env path st dest src_sha reason

end Program

end Scratch
