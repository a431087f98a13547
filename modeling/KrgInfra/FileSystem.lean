/-
A file system with symbolic links, owners, permission bits and time stamps.

A path is the list of its names from the root.  The tree maps a real path (no
link on the way) to a node, and a regular file's bytes and metadata live in an
inode, so that an open descriptor (an inode number) outlives a rename or an
unlink of its name.  A call finds its node by `walk`, which follows links, `.`
and `..` name by name as the kernel does.

* `FS` — nodes and inodes; the fields `fresh` and `tree` make an inode number
  out of range, and a node without a parent directory, impossible to build;
* `stat`, `lstat`, `unlink`, `mkdir`, `symlink`, `replace`, `openRead`,
  `createExcl`, `openAppend`, `append`, `fchown`, `fchmod`, `utime` — the calls;
* `Reads fs p b` — opening `p` and reading it to the end gives `b`.

A call stamps the times of the inode that it writes to.  Those that it stamps by the
way — `atime` on a read, `ctime` on a file that loses one of several names, the times
of a directory — are left out; who depends on them adds them.
-/
import Mathlib.Data.Int.Notation
import Mathlib.Data.List.Basic
import Mathlib.Data.Nat.Basic
import Mathlib.Logic.Function.Basic
import Mathlib.Order.Basic

namespace Posix

/-- A path: its names from the root. -/
abbrev Path := List String

/-- The contents of a file. -/
abbrev Bytes := List UInt8

/-- The errors a call can raise; `other` is any but the two that Python gives
classes of their own and programs tell apart.  `unicodeEncode` is what `print` raises
of a text that has no encoding: it is none of Python's `OSError`s. -/
inductive OSError where
  | fileNotFound
  | permission
  | other
  | unicodeEncode
  deriving DecidableEq, Repr

/-- Where a symbolic link points: its names, from the root or from the link's
own directory. -/
structure Target where
  absolute : Bool
  names : List String
  deriving DecidableEq, Repr

/-- Owner, group and the twelve permission bits. -/
@[ext]
structure Perm where
  uid : ℕ
  gid : ℕ
  mode : BitVec 12
  deriving DecidableEq, Repr

/-- What a real path holds. -/
inductive Node where
  | dir (perm : Perm)
  | file (ino : ℕ)
  | link (target : Target)
  deriving DecidableEq, Repr

/-- The bytes and the metadata of a regular file; times in nanoseconds. -/
structure Inode where
  data : Bytes := []
  perm : Perm := ⟨0, 0, 0⟩
  atime : ℤ := 0
  mtime : ℤ := 0
  ctime : ℤ := 0
  deriving DecidableEq, Repr

namespace Node

def isDir : Node → Bool
  | .dir _ => true
  | _ => false

def isFile : Node → Bool
  | .file _ => true
  | _ => false

def isLink : Node → Bool
  | .link _ => true
  | _ => false

/-- Whether the node's inode, if it has one, is below `k`. -/
def inoBelow (k : ℕ) : Node → Bool
  | .file i => decide (i < k)
  | _ => true

end Node

/-- The bits of a mode word, as `chmod(2)` numbers them. -/
def setuid : BitVec 12 := 0o4000#12
def setgid : BitVec 12 := 0o2000#12
def groupExec : BitVec 12 := 0o0010#12

/-- What `chown` does to the mode of a regular file: setuid is cleared, and
setgid when the group may execute, for root as for anybody else. -/
def dropSetId (m : BitVec 12) : BitVec 12 :=
  let m := m &&& ~~~setuid
  if m &&& (setgid ||| groupExec) = setgid ||| groupExec then m &&& ~~~setgid else m

/-- The file system.  `alloc` is the number of 512-byte blocks that a file's
bytes take on disk, and `walkLimit` bounds the steps that the links on a path add
to its lookup. -/
structure FS where
  node : Path → Option Node
  inode : ℕ → Inode
  nextIno : ℕ
  clock : ℤ
  alloc : Bytes → ℕ
  walkLimit : ℕ
  fresh : ∀ p i, node p = some (.file i) → i < nextIno
  tree : ∀ p n, node (p ++ [n]) ≠ none → p = [] ∨ ∃ m, node p = some (.dir m)

namespace FS

/-- Whether `p` is a directory; the root always is. -/
def isDir (fs : FS) (p : Path) : Bool :=
  p.isEmpty || ((fs.node p).map Node.isDir).getD false

theorem isDir_iff {fs : FS} {p : Path} :
    fs.isDir p = true ↔ p = [] ∨ ∃ m, fs.node p = some (.dir m) := by
  unfold isDir
  rcases hn : fs.node p with _ | ⟨m⟩ | ⟨i⟩ | ⟨t⟩ <;> simp [Node.isDir]

theorem isDir_of_node {fs : FS} {p : Path} {n : Node} (hp : p ≠ []) (hn : fs.node p = some n) :
    fs.isDir p = n.isDir := by
  simp [isDir, hp, hn]

/-! ### Changing one node or one inode -/

/-- Whether `p` can be made to hold `n`: its parent is a directory, `n` is not
a directory turned into something else, and its inode exists. -/
def CanSet (fs : FS) (p : Path) (n : Node) : Prop :=
  p ≠ [] ∧ fs.isDir p.dropLast = true ∧ (n.isDir = false → fs.isDir p = false) ∧
    n.inoBelow fs.nextIno = true

instance (fs : FS) (p : Path) (n : Node) : Decidable (fs.CanSet p n) :=
  inferInstanceAs (Decidable (_ ∧ _ ∧ _ ∧ _))

/-- Make `p` hold `n`. -/
def setNode (fs : FS) (p : Path) (n : Node) (h : fs.CanSet p n) : FS :=
  { fs with
    node := Function.update fs.node p (some n)
    fresh := by
      intro q i hq
      rcases eq_or_ne q p with rfl | hne
      · rw [Function.update_self] at hq
        have := h.2.2.2
        rw [Option.some_inj.mp hq] at this
        exact of_decide_eq_true this
      · rw [Function.update_of_ne hne] at hq
        exact fs.fresh q i hq
    tree := by
      intro q m hq
      have keep : fs.isDir q = true →
          q = [] ∨ ∃ m, Function.update fs.node p (some n) q = some (.dir m) := by
        intro hd
        rcases eq_or_ne q p with rfl | hne
        · cases hn : n with
          | dir m => exact .inr ⟨m, by rw [Function.update_self]⟩
          | file i =>
            have := h.2.2.1 (by rw [hn]; rfl)
            rw [hd] at this
            exact absurd this (by simp)
          | link t =>
            have := h.2.2.1 (by rw [hn]; rfl)
            rw [hd] at this
            exact absurd this (by simp)
        · rw [Function.update_of_ne hne]
          exact isDir_iff.mp hd
      rcases eq_or_ne (q ++ [m]) p with heq | hne
      · refine keep ?_
        have := h.2.1
        rwa [← heq, List.dropLast_concat] at this
      · rw [Function.update_of_ne hne] at hq
        exact keep (isDir_iff.mpr (fs.tree q m hq)) }

/-- Make `p`, which is no directory, hold nothing. -/
def clearNode (fs : FS) (p : Path) (h : fs.isDir p = false) : FS :=
  { fs with
    node := Function.update fs.node p none
    fresh := by
      intro q i hq
      rcases eq_or_ne q p with rfl | hne
      · rw [Function.update_self] at hq
        exact absurd hq (by simp)
      · rw [Function.update_of_ne hne] at hq
        exact fs.fresh q i hq
    tree := by
      intro q m hq
      have hne : q ++ [m] ≠ p := by
        rintro rfl
        exact hq (Function.update_self ..)
      rw [Function.update_of_ne hne] at hq
      have hd := isDir_iff.mpr (fs.tree q m hq)
      rcases eq_or_ne q p with rfl | hqp
      · rw [h] at hd
        exact absurd hd (by simp)
      · rw [Function.update_of_ne hqp]
        exact isDir_iff.mp hd }

/-- Change one inode. -/
def setInode (fs : FS) (i : ℕ) (f : Inode) : FS :=
  { fs with inode := Function.update fs.inode i f }

/-- Take the next inode number into use. -/
def newInode (fs : FS) (f : Inode) : FS :=
  { fs with
    inode := Function.update fs.inode fs.nextIno f
    nextIno := fs.nextIno + 1
    fresh := fun p i h => Nat.lt_succ_of_lt (fs.fresh p i h) }

@[simp] theorem node_setNode (fs : FS) (p : Path) (n : Node) (h : fs.CanSet p n) :
    (fs.setNode p n h).node = Function.update fs.node p (some n) := rfl

@[simp] theorem inode_setNode (fs : FS) (p : Path) (n : Node) (h : fs.CanSet p n) :
    (fs.setNode p n h).inode = fs.inode := rfl

@[simp] theorem nextIno_setNode (fs : FS) (p : Path) (n : Node) (h : fs.CanSet p n) :
    (fs.setNode p n h).nextIno = fs.nextIno := rfl

@[simp] theorem node_clearNode (fs : FS) (p : Path) (h : fs.isDir p = false) :
    (fs.clearNode p h).node = Function.update fs.node p none := rfl

@[simp] theorem inode_clearNode (fs : FS) (p : Path) (h : fs.isDir p = false) :
    (fs.clearNode p h).inode = fs.inode := rfl

@[simp] theorem nextIno_clearNode (fs : FS) (p : Path) (h : fs.isDir p = false) :
    (fs.clearNode p h).nextIno = fs.nextIno := rfl

@[simp] theorem node_setInode (fs : FS) (i : ℕ) (f : Inode) : (fs.setInode i f).node = fs.node :=
  rfl

@[simp] theorem inode_setInode (fs : FS) (i : ℕ) (f : Inode) :
    (fs.setInode i f).inode = Function.update fs.inode i f := rfl

@[simp] theorem nextIno_setInode (fs : FS) (i : ℕ) (f : Inode) :
    (fs.setInode i f).nextIno = fs.nextIno := rfl

@[simp] theorem node_newInode (fs : FS) (f : Inode) : (fs.newInode f).node = fs.node := rfl

@[simp] theorem inode_newInode (fs : FS) (f : Inode) :
    (fs.newInode f).inode = Function.update fs.inode fs.nextIno f := rfl

@[simp] theorem nextIno_newInode (fs : FS) (f : Inode) :
    (fs.newInode f).nextIno = fs.nextIno + 1 := rfl

/-- The file system that holds nothing but its root. -/
def empty : FS where
  node _ := none
  inode _ := {}
  nextIno := 0
  clock := 0
  alloc b := (b.length + 511) / 512
  walkLimit := 40
  fresh := by simp
  tree := by simp

/-! ### Looking a path up -/

/-- Follow the names `rest` from the real directory `cur`; the last name may be
missing.  `follow` says whether a link under the last name is followed. -/
def walk (fs : FS) (follow : Bool) : ℕ → Path → List String → Except OSError Path
  | 0, _, _ => .error .other
  | _ + 1, cur, [] => .ok cur
  | n + 1, cur, name :: rest =>
    if name = "" ∨ name = "." then walk fs follow n cur rest
    else if name = ".." then walk fs follow n cur.dropLast rest
    else
      match fs.node (cur ++ [name]) with
      | none => if rest = [] then .ok (cur ++ [name]) else .error .fileNotFound
      | some (.file _) => if rest = [] then .ok (cur ++ [name]) else .error .other
      | some (.dir _) => walk fs follow n (cur ++ [name]) rest
      | some (.link t) =>
        if rest = [] ∧ follow = false then .ok (cur ++ [name])
        else walk fs follow n (if t.absolute then [] else cur) (t.names ++ rest)

/-- The real place of `p`, a link under its last name not followed. -/
def locate (fs : FS) (p : Path) : Except OSError Path :=
  fs.walk false (fs.walkLimit + 1 + p.length) [] p

/-- The real place of `p`, links followed. -/
def resolve (fs : FS) (p : Path) : Except OSError Path :=
  fs.walk true (fs.walkLimit + 1 + p.length) [] p

/-- `os.path.realpath`: as `walk`, but what is missing, or a loop of links, is
left in the answer as it stands. -/
def realpathFrom (fs : FS) : ℕ → Path → List String → Path
  | 0, cur, rest => cur ++ rest
  | _ + 1, cur, [] => cur
  | n + 1, cur, name :: rest =>
    if name = "" ∨ name = "." then realpathFrom fs n cur rest
    else if name = ".." then realpathFrom fs n cur.dropLast rest
    else
      match fs.node (cur ++ [name]) with
      | some (.link t) => realpathFrom fs n (if t.absolute then [] else cur) (t.names ++ rest)
      | _ => realpathFrom fs n (cur ++ [name]) rest

def realpath (fs : FS) (p : Path) : Path := fs.realpathFrom (fs.walkLimit + 1 + p.length) [] p

/-! ### The calls -/

/-- What `stat` tells; only a regular file has an inode number here. -/
structure Stat where
  node : Node
  ino : Option ℕ
  size : ℕ
  blocks : ℕ
  perm : Perm
  atime : ℤ
  mtime : ℤ
  ctime : ℤ
  deriving DecidableEq, Repr

/-- The stat record of what the real path `p` holds; the size and the times of a
directory or a link are never looked at. -/
def statAt (fs : FS) (p : Path) : Except OSError Stat :=
  match fs.node p with
  | none => .error .fileNotFound
  | some (.file i) =>
    let f := fs.inode i
    .ok ⟨.file i, some i, f.data.length, fs.alloc f.data, f.perm, f.atime, f.mtime, f.ctime⟩
  | some (.dir m) => .ok ⟨.dir m, none, 0, 0, m, 0, 0, 0⟩
  | some (.link t) => .ok ⟨.link t, none, 0, 0, ⟨0, 0, 0o777#12⟩, 0, 0, 0⟩

def stat (fs : FS) (p : Path) : Except OSError Stat := do
  fs.statAt (← fs.resolve p)

def lstat (fs : FS) (p : Path) : Except OSError Stat := do
  fs.statAt (← fs.locate p)

/-- `os.fstat` of the descriptor of inode `i`. -/
def fstat (fs : FS) (i : ℕ) : Stat :=
  let f := fs.inode i
  ⟨.file i, some i, f.data.length, fs.alloc f.data, f.perm, f.atime, f.mtime, f.ctime⟩

def readlink (fs : FS) (p : Path) : Except OSError Target := do
  match fs.node (← fs.locate p) with
  | some (.link t) => .ok t
  | none => .error .fileNotFound
  | some _ => .error .other

def unlink (fs : FS) (p : Path) : Except OSError FS := do
  let q ← fs.locate p
  match fs.node q with
  | none => .error .fileNotFound
  | some _ => if h : fs.isDir q = false then .ok (fs.clearNode q h) else .error .other

/-- Make a new node at `p`; nothing may be there yet. -/
def create (fs : FS) (p : Path) (n : Node) : Except OSError FS := do
  let q ← fs.locate p
  match fs.node q with
  | some _ => .error .other
  | none => if h : fs.CanSet q n then .ok (fs.setNode q n h) else .error .fileNotFound

def mkdir (fs : FS) (p : Path) (m : Perm) : Except OSError FS := fs.create p (.dir m)

def symlink (fs : FS) (t : Target) (p : Path) : Except OSError FS := fs.create p (.link t)

/-- `os.replace` of a file or a link: `dst` is replaced in one step; a directory
is neither moved nor replaced. -/
def replace (fs : FS) (src dst : Path) : Except OSError FS := do
  let q ← fs.locate src
  let r ← fs.locate dst
  match fs.node q with
  | none => .error .fileNotFound
  | some n =>
    if q = r then .ok fs
    else if h : fs.isDir q = false then
      if h' : (fs.clearNode q h).CanSet r n then .ok ((fs.clearNode q h).setNode r n h')
      else .error .other
    else .error .other

/-- `os.open(p, O_RDONLY | O_NOFOLLOW)`: the inode of a regular file. -/
def openRead (fs : FS) (p : Path) : Except OSError ℕ := do
  match fs.node (← fs.locate p) with
  | some (.file i) => .ok i
  | none => .error .fileNotFound
  | some _ => .error .other

/-- `os.open(p, O_RDWR | O_CREAT | O_EXCL | O_NOFOLLOW, mode)` by root: a new
empty file and its inode. -/
def createExcl (fs : FS) (p : Path) (mode : BitVec 12) : Except OSError (ℕ × FS) := do
  let fs' := fs.newInode ⟨[], ⟨0, 0, mode⟩, fs.clock, fs.clock, fs.clock⟩
  return (fs.nextIno, ← fs'.create p (.file fs.nextIno))

/-- `os.open(p, O_WRONLY | O_CREAT | O_APPEND | O_NOFOLLOW, mode)` by root: a file that
is missing is made, and a link is refused. -/
def openAppend (fs : FS) (p : Path) (mode : BitVec 12) : Except OSError (ℕ × FS) := do
  match fs.node (← fs.locate p) with
  | some (.file i) => .ok (i, fs)
  | none => fs.createExcl p mode
  | some _ => .error .other

/-- Write `bs` at the end of inode `i`. -/
def append (fs : FS) (i : ℕ) (bs : Bytes) : FS :=
  let f := fs.inode i
  fs.setInode i { f with data := f.data ++ bs, mtime := fs.clock, ctime := fs.clock }

def fchown (fs : FS) (i : ℕ) (uid gid : ℕ) : FS :=
  let f := fs.inode i
  fs.setInode i { f with perm := ⟨uid, gid, dropSetId f.perm.mode⟩, ctime := fs.clock }

def fchmod (fs : FS) (i : ℕ) (mode : BitVec 12) : FS :=
  let f := fs.inode i
  fs.setInode i { f with perm := { f.perm with mode := mode }, ctime := fs.clock }

def utime (fs : FS) (i : ℕ) (atime mtime : ℤ) : FS :=
  let f := fs.inode i
  fs.setInode i { f with atime := atime, mtime := mtime, ctime := fs.clock }

/-- `os.chown(p, uid, gid, follow_symlinks=False)`. -/
def lchown (fs : FS) (p : Path) (uid gid : ℕ) : Except OSError FS := do
  let q ← fs.locate p
  match fs.node q with
  | none => .error .fileNotFound
  | some (.file i) => .ok (fs.fchown i uid gid)
  | some (.dir m) =>
    if h : fs.CanSet q (.dir { m with uid := uid, gid := gid }) then .ok (fs.setNode q _ h)
    else .error .other
  | some (.link _) => .ok fs

def chmod (fs : FS) (p : Path) (mode : BitVec 12) : Except OSError FS := do
  let q ← fs.resolve p
  match fs.node q with
  | none => .error .fileNotFound
  | some (.file i) => .ok (fs.fchmod i mode)
  | some (.dir m) =>
    if h : fs.CanSet q (.dir { m with mode := mode }) then .ok (fs.setNode q _ h)
    else .error .other
  | some (.link _) => .error .other

/-! ### Reading a file by its path -/

/-- The bytes of the file that `p` leads to in at most `k` steps of lookup. -/
def readsWith (fs : FS) (k : ℕ) (p : Path) : Option Bytes :=
  match fs.walk true k [] p with
  | .error _ => none
  | .ok q =>
    match fs.node q with
    | some (.file i) => some (fs.inode i).data
    | _ => none

/-! ### What a call can do -/

theorem unlink_ok {fs fs' : FS} {p : Path} (h : fs.unlink p = .ok fs') :
    ∃ q, ∃ hq : fs.isDir q = false, fs.locate p = .ok q ∧ fs' = fs.clearNode q hq := by
  unfold unlink at h
  rcases hl : fs.locate p with e | q
  · rw [hl] at h
    exact absurd h (by simp [bind, Except.bind])
  · rw [hl] at h
    simp only [bind, Except.bind] at h
    split at h
    · exact absurd h (by simp)
    · split at h
      · exact ⟨q, ‹_›, rfl, (Except.ok.inj h).symm⟩
      · exact absurd h (by simp)

theorem create_ok {fs fs' : FS} {p : Path} {n : Node} (h : fs.create p n = .ok fs') :
    ∃ q, ∃ hq : fs.CanSet q n,
      fs.locate p = .ok q ∧ fs.node q = none ∧ fs' = fs.setNode q n hq := by
  unfold create at h
  rcases hl : fs.locate p with e | q
  · rw [hl] at h
    exact absurd h (by simp [bind, Except.bind])
  · rw [hl] at h
    simp only [bind, Except.bind] at h
    split at h
    · exact absurd h (by simp)
    · split at h
      · exact ⟨q, ‹_›, rfl, ‹_›, (Except.ok.inj h).symm⟩
      · exact absurd h (by simp)

theorem replace_ok {fs fs' : FS} {src dst : Path} (h : fs.replace src dst = .ok fs') :
    ∃ q r n, fs.locate src = .ok q ∧ fs.locate dst = .ok r ∧ fs.node q = some n ∧
      (q = r ∧ fs' = fs ∨ q ≠ r ∧ ∃ hq : fs.isDir q = false, ∃ hr : (fs.clearNode q hq).CanSet r n,
        fs' = (fs.clearNode q hq).setNode r n hr) := by
  unfold replace at h
  rcases hl : fs.locate src with e | q
  · rw [hl] at h
    exact absurd h (by simp [bind, Except.bind])
  · rcases hr : fs.locate dst with e | r
    · rw [hl, hr] at h
      exact absurd h (by simp [bind, Except.bind])
    · rw [hl, hr] at h
      simp only [bind, Except.bind] at h
      split at h
      · exact absurd h (by simp)
      · rename_i n hn
        refine ⟨q, r, n, rfl, rfl, hn, ?_⟩
        split at h
        · exact .inl ⟨‹_›, (Except.ok.inj h).symm⟩
        · split at h
          · split at h
            · exact .inr ⟨‹_›, ‹_›, ‹_›, (Except.ok.inj h).symm⟩
            · exact absurd h (by simp)
          · exact absurd h (by simp)

theorem openRead_ok {fs : FS} {p : Path} {i : ℕ} (h : fs.openRead p = .ok i) :
    ∃ q, fs.locate p = .ok q ∧ fs.node q = some (.file i) := by
  unfold openRead at h
  rcases hl : fs.locate p with e | q
  · rw [hl] at h
    exact absurd h (by simp [bind, Except.bind])
  · rw [hl] at h
    simp only [bind, Except.bind] at h
    split at h
    · exact ⟨q, rfl, by rw [‹fs.node q = _›, Except.ok.inj h]⟩
    · exact absurd h (by simp)
    · exact absurd h (by simp)

theorem createExcl_ok {fs fs' : FS} {p : Path} {mode : BitVec 12} {i : ℕ}
    (h : fs.createExcl p mode = .ok (i, fs')) :
    i = fs.nextIno ∧
      (fs.newInode ⟨[], ⟨0, 0, mode⟩, fs.clock, fs.clock, fs.clock⟩).create p
        (.file fs.nextIno) = .ok fs' := by
  unfold createExcl at h
  simp only [bind, Except.bind] at h
  split at h
  · exact absurd h (by simp)
  · obtain ⟨h₁, h₂⟩ := Prod.mk.inj (Except.ok.inj h)
    exact ⟨h₁.symm, by rw [← h₂]; assumption⟩

theorem node_of_statAt {fs : FS} {p : Path} {st : Stat} (h : fs.statAt p = .ok st) :
    fs.node p = some st.node := by
  unfold statAt at h
  split at h
  · exact absurd h (by simp)
  · rw [← Except.ok.inj h]
    assumption
  · rw [← Except.ok.inj h]
    assumption
  · rw [← Except.ok.inj h]
    assumption

/-- `os.chown` without following changes an inode's owner, or a directory's. -/
theorem lchown_ok {fs fs' : FS} {p : Path} {uid gid : ℕ} (h : fs.lchown p uid gid = .ok fs') :
    ∃ q, fs.locate p = .ok q ∧
      ((∃ i, fs.node q = some (.file i) ∧ fs' = fs.fchown i uid gid) ∨
        (∃ m m', fs.node q = some (.dir m) ∧ ∃ hq : fs.CanSet q (.dir m'),
          fs' = fs.setNode q (.dir m') hq) ∨ fs' = fs) := by
  unfold lchown at h
  rcases hl : fs.locate p with e | q
  · rw [hl] at h
    exact absurd h (by simp [bind, Except.bind])
  · rw [hl] at h
    simp only [bind, Except.bind] at h
    refine ⟨q, rfl, ?_⟩
    split at h
    · exact absurd h (by simp)
    · exact .inl ⟨_, ‹_›, (Except.ok.inj h).symm⟩
    · split at h
      · exact .inr (.inl ⟨_, _, ‹_›, ‹_›, (Except.ok.inj h).symm⟩)
      · exact absurd h (by simp)
    · exact .inr (.inr (Except.ok.inj h).symm)

theorem chmod_ok {fs fs' : FS} {p : Path} {mode : BitVec 12} (h : fs.chmod p mode = .ok fs') :
    ∃ q, fs.resolve p = .ok q ∧
      ((∃ i, fs.node q = some (.file i) ∧ fs' = fs.fchmod i mode) ∨
        ∃ m m', fs.node q = some (.dir m) ∧ ∃ hq : fs.CanSet q (.dir m'),
          fs' = fs.setNode q (.dir m') hq) := by
  unfold chmod at h
  rcases hl : fs.resolve p with e | q
  · rw [hl] at h
    exact absurd h (by simp [bind, Except.bind])
  · rw [hl] at h
    simp only [bind, Except.bind] at h
    refine ⟨q, rfl, ?_⟩
    split at h
    · exact absurd h (by simp)
    · exact .inl ⟨_, ‹_›, (Except.ok.inj h).symm⟩
    · split at h
      · exact .inr ⟨_, _, ‹_›, ‹_›, (Except.ok.inj h).symm⟩
      · exact absurd h (by simp)
    · exact absurd h (by simp)

end FS

/-! ### Where a path leads -/

/-- A name that lookup does not treat specially. -/
def Plain (n : String) : Prop := n ≠ "" ∧ n ≠ "." ∧ n ≠ ".."

instance (n : String) : Decidable (Plain n) := inferInstanceAs (Decidable (_ ∧ _ ∧ _))

/-- `p` and every directory above it is a directory, with no link among them. -/
def FS.RealDir (fs : FS) (p : Path) : Prop :=
  (∀ n ∈ p, Plain n) ∧ ∀ q, q <+: p → fs.isDir q = true

namespace FS

variable {fs : FS}

@[simp] theorem realDir_nil : fs.RealDir [] :=
  ⟨by simp, fun q hq => by simp [List.prefix_nil.mp hq, isDir]⟩

theorem RealDir.of_prefix {d p : Path} (hd : fs.RealDir d) (hp : p <+: d) : fs.RealDir p :=
  ⟨fun n hn => hd.1 n (hp.subset hn), fun q hq => hd.2 q (hq.trans hp)⟩

theorem RealDir.concat {d : Path} {n : String} (hd : fs.RealDir d) (hn : Plain n)
    (h : fs.isDir (d ++ [n]) = true) : fs.RealDir (d ++ [n]) := by
  refine ⟨fun m hm => ?_, fun q hq => ?_⟩
  · rcases List.mem_append.mp hm with hm | hm
    · exact hd.1 m hm
    · rwa [List.mem_singleton.mp hm]
  · rcases List.prefix_concat_iff.mp hq with rfl | hq
    · exact h
    · exact hd.2 q hq

theorem walk_plain {f : Bool} {k : ℕ} {cur : Path} {name : String} {rest : List String}
    (hn : Plain name) :
    fs.walk f (k + 1) cur (name :: rest) =
      match fs.node (cur ++ [name]) with
      | none => if rest = [] then .ok (cur ++ [name]) else .error .fileNotFound
      | some (.file _) => if rest = [] then .ok (cur ++ [name]) else .error .other
      | some (.dir _) => fs.walk f k (cur ++ [name]) rest
      | some (.link t) =>
        if rest = [] ∧ f = false then .ok (cur ++ [name])
        else fs.walk f k (if t.absolute then [] else cur) (t.names ++ rest) := by
  rw [walk, if_neg (by simp [hn.1, hn.2.1]), if_neg hn.2.2]

theorem walk_nil {f : Bool} {k : ℕ} {cur q : Path} (h : fs.walk f k cur [] = .ok q) : q = cur := by
  cases k with
  | zero => exact absurd h (by simp [walk])
  | succ k =>
    rw [walk, Except.ok.injEq] at h
    exact h.symm

theorem isDir_append {cur : Path} {n : String} (h : fs.isDir (cur ++ [n]) = true) :
    ∃ m, fs.node (cur ++ [n]) = some (.dir m) :=
  (isDir_iff.mp h).resolve_left (by simp)

/-- Lookup passes over real directories. -/
theorem walk_dirs {f : Bool} {k : ℕ} {r : List String} :
    ∀ {d : List String} {c : Path}, (∀ n ∈ d, Plain n) →
      (∀ q, q <+: d → q ≠ [] → fs.isDir (c ++ q) = true) →
      fs.walk f (k + d.length) c (d ++ r) = fs.walk f k (c ++ d) r := by
  intro d
  induction d with
  | nil =>
    intro cur _ _
    simp
  | cons a d ih =>
    intro cur hp hd
    obtain ⟨m, hm⟩ := isDir_append (hd [a] (by simp) (by simp))
    rw [List.length_cons, ← Nat.add_assoc, List.cons_append, walk_plain (hp a (by simp)), hm]
    simp only
    rw [ih (fun n hn => hp n (by simp [hn])) fun q hq hne => ?_, List.append_assoc,
      List.singleton_append]
    rw [List.append_assoc, List.singleton_append]
    exact hd (a :: q) (by simpa using hq) (by simp)

/-- Below real directories a lookup that follows no link ends at the path
itself. -/
theorem walk_real {f : Bool} {n : String} {d cur : Path} {k : ℕ} (hd : ∀ n ∈ d, Plain n)
    (hdir : ∀ q, q <+: d → q ≠ [] → fs.isDir (cur ++ q) = true) (hn : Plain n)
    (hlink : f = true → ∀ t, fs.node (cur ++ d ++ [n]) ≠ some (.link t)) :
    fs.walk f (k + 2 + d.length) cur (d ++ [n]) = .ok (cur ++ d ++ [n]) := by
  rw [walk_dirs hd hdir, walk_plain hn]
  rcases hnode : fs.node (cur ++ d ++ [n]) with _ | ⟨m⟩ | ⟨i⟩ | ⟨t⟩
  · simp
  · simp [walk]
  · simp
  · cases f with
    | false => simp
    | true => exact absurd hnode (hlink rfl t)

theorem locate_real {d : Path} {n : String} (hd : fs.RealDir d) (hn : Plain n) :
    fs.locate (d ++ [n]) = .ok (d ++ [n]) := by
  have h : fs.walk false (fs.walkLimit + 2 + d.length) [] (d ++ [n]) = .ok ([] ++ d ++ [n]) :=
    walk_real hd.1 (fun q hq _ => by simpa using hd.2 q hq) hn (by simp)
  rw [locate, List.length_append, List.length_singleton]
  simpa [Nat.add_assoc, Nat.add_comm, Nat.add_left_comm] using h

theorem resolve_real {d : Path} {n : String} (hd : fs.RealDir d) (hn : Plain n)
    (hlink : ∀ t, fs.node (d ++ [n]) ≠ some (.link t)) :
    fs.resolve (d ++ [n]) = .ok (d ++ [n]) := by
  have h : fs.walk true (fs.walkLimit + 2 + d.length) [] (d ++ [n]) = .ok ([] ++ d ++ [n]) :=
    walk_real hd.1 (fun q hq _ => by simpa using hd.2 q hq) hn (by simpa using hlink)
  rw [resolve, List.length_append, List.length_singleton]
  simpa [Nat.add_assoc, Nat.add_comm, Nat.add_left_comm] using h

/-- `realpath` keeps real directories as they are. -/
theorem realpathFrom_dirs {k : ℕ} {r : List String} :
    ∀ {d : List String} {c : Path}, (∀ n ∈ d, Plain n) →
      (∀ q, q <+: d → q ≠ [] → fs.isDir (c ++ q) = true) →
      fs.realpathFrom (k + d.length) c (d ++ r) = fs.realpathFrom k (c ++ d) r := by
  intro d
  induction d with
  | nil =>
    intro cur _ _
    simp
  | cons a d ih =>
    intro cur hp hd
    obtain ⟨m, hm⟩ := isDir_append (hd [a] (by simp) (by simp))
    have ha := hp a (by simp)
    rw [List.length_cons, ← Nat.add_assoc, List.cons_append, realpathFrom,
      if_neg (by simp [ha.1, ha.2.1]), if_neg ha.2.2, hm]
    simp only
    rw [ih (fun n hn => hp n (by simp [hn])) fun q hq hne => ?_, List.append_assoc,
      List.singleton_append]
    rw [List.append_assoc, List.singleton_append]
    exact hd (a :: q) (by simpa using hq) (by simp)

/-- A real directory is its own real path. -/
theorem realpath_dir {d : Path} (hd : fs.RealDir d) : fs.realpath d = d := by
  have h := realpathFrom_dirs (k := fs.walkLimit + 1) (r := []) (c := []) hd.1
    fun q hq _ => by simpa using hd.2 q hq
  rw [List.append_nil, List.nil_append] at h
  rw [realpath, h, realpathFrom]

/-- A path below real directories that is no link is its own real path. -/
theorem realpath_real {d : Path} {n : String} (hd : fs.RealDir d) (hn : Plain n)
    (hlink : ∀ t, fs.node (d ++ [n]) ≠ some (.link t)) : fs.realpath (d ++ [n]) = d ++ [n] := by
  have h := realpathFrom_dirs (k := fs.walkLimit + 2) (r := [n]) (c := []) hd.1
    fun q hq _ => by simpa using hd.2 q hq
  have hlen : fs.walkLimit + 1 + (d ++ [n]).length = fs.walkLimit + 2 + d.length := by
    simp only [List.length_append, List.length_singleton]
    omega
  rw [realpath, hlen, h, List.nil_append, realpathFrom, if_neg (by simp [hn.1, hn.2.1]),
    if_neg hn.2.2]
  rcases hnode : fs.node (d ++ [n]) with _ | ⟨m⟩ | ⟨i⟩ | ⟨t⟩
  · simp [realpathFrom]
  · simp [realpathFrom]
  · simp [realpathFrom]
  · exact absurd hnode (hlink t)

theorem readlink_real {d : Path} {n : String} {t : Target} (hd : fs.RealDir d) (hn : Plain n)
    (h : fs.readlink (d ++ [n]) = .ok t) : fs.node (d ++ [n]) = some (.link t) := by
  rw [readlink, locate_real hd hn] at h
  simp only [bind, Except.bind] at h
  split at h
  · rw [← Except.ok.inj h]
    assumption
  · exact absurd h (by simp)
  · exact absurd h (by simp)

/-- Wherever a path leads, the place keeps the path's own last name unless a
link under that name is followed. -/
theorem walk_last {n : String} (hn : Plain n) :
    ∀ {k : ℕ} {cur q : Path} {rest : List String},
      fs.walk false k cur (rest ++ [n]) = .ok q → ∃ d, q = d ++ [n] := by
  intro k
  induction k with
  | zero =>
    intro cur q rest h
    exact absurd h (by simp [walk])
  | succ k ih =>
    intro cur q rest h
    cases rest with
    | nil =>
      rw [List.nil_append, walk_plain hn] at h
      rcases hnode : fs.node (cur ++ [n]) with _ | ⟨m⟩ | ⟨i⟩ | ⟨t⟩
      · rw [hnode] at h
        exact ⟨cur, by simpa [eq_comm] using h⟩
      · rw [hnode] at h
        exact ⟨cur, walk_nil h⟩
      · rw [hnode] at h
        exact ⟨cur, by simpa [eq_comm] using h⟩
      · rw [hnode] at h
        exact ⟨cur, by simpa [eq_comm] using h⟩
    | cons a rest =>
      have hne : rest ++ [n] ≠ [] := by simp
      rw [List.cons_append, walk] at h
      by_cases h₁ : a = "" ∨ a = "."
      · rw [if_pos h₁] at h
        exact ih h
      rw [if_neg h₁] at h
      by_cases h₂ : a = ".."
      · rw [if_pos h₂] at h
        exact ih h
      rw [if_neg h₂] at h
      rcases hnode : fs.node (cur ++ [a]) with _ | ⟨m⟩ | ⟨i⟩ | ⟨t⟩
      · rw [hnode] at h
        exact absurd h (by simp)
      · rw [hnode] at h
        exact ih h
      · rw [hnode] at h
        exact absurd h (by simp)
      · rw [hnode] at h
        simp only at h
        rw [if_neg (fun hc => hne hc.1), ← List.append_assoc] at h
        exact ih h

theorem locate_last {d : Path} {n : String} {q : Path} (hn : Plain n)
    (h : fs.locate (d ++ [n]) = .ok q) : ∃ d', q = d' ++ [n] :=
  walk_last hn h

/-- More steps of lookup find the same place. -/
theorem walk_mono {f : Bool} : ∀ {k k' : ℕ}, k ≤ k' → ∀ {cur q : Path} {rest : List String},
    fs.walk f k cur rest = .ok q → fs.walk f k' cur rest = .ok q := by
  intro k
  induction k with
  | zero =>
    intro k' _ cur q rest h
    exact absurd h (by simp [walk])
  | succ k ih =>
    intro k' hk cur q rest h
    obtain ⟨k', rfl⟩ : ∃ j, k' = j + 1 := ⟨k' - 1, by omega⟩
    have hk' : k ≤ k' := by omega
    cases rest with
    | nil => simpa [walk] using h
    | cons a rest =>
      rw [walk] at h ⊢
      by_cases h₁ : a = "" ∨ a = "."
      · rw [if_pos h₁] at h ⊢
        exact ih hk' h
      rw [if_neg h₁] at h ⊢
      by_cases h₂ : a = ".."
      · rw [if_pos h₂] at h ⊢
        exact ih hk' h
      rw [if_neg h₂] at h ⊢
      rcases hnode : fs.node (cur ++ [a]) with _ | ⟨m⟩ | ⟨i⟩ | ⟨t⟩
      · rw [hnode] at h
        exact h
      · rw [hnode] at h
        exact ih hk' h
      · rw [hnode] at h
        exact h
      · rw [hnode] at h
        simp only at h ⊢
        by_cases h₃ : rest = [] ∧ f = false
        · rwa [if_pos h₃] at h ⊢
        · rw [if_neg h₃] at h ⊢
          exact ih hk' h

/-- Below a directory without links a lookup can only end at the path itself. -/
theorem walk_linkless {f : Bool} : ∀ {k : ℕ} {cur q : Path} {rest : List String},
    (∀ n ∈ rest, Plain n) → (∀ r t, cur <+: r → fs.node r ≠ some (.link t)) →
    fs.walk f k cur rest = .ok q → q = cur ++ rest := by
  intro k
  induction k with
  | zero =>
    intro cur q rest _ _ h
    exact absurd h (by simp [walk])
  | succ k ih =>
    intro cur q rest hp hl h
    cases rest with
    | nil => simpa using walk_nil h
    | cons a rest =>
      rw [walk_plain (hp a (by simp))] at h
      rcases hnode : fs.node (cur ++ [a]) with _ | ⟨m⟩ | ⟨i⟩ | ⟨t⟩
      · rw [hnode] at h
        simp only at h
        split_ifs at h with hr
        rw [hr, ← Except.ok.inj h]
      · rw [hnode] at h
        have := ih (fun n hn => hp n (by simp [hn]))
          (fun r t hr => hl r t ((List.prefix_append cur [a]).trans hr)) h
        simpa using this
      · rw [hnode] at h
        simp only at h
        split_ifs at h with hr
        rw [hr, ← Except.ok.inj h]
      · exact absurd hnode (hl _ t (List.prefix_append cur [a]))

/-! ### What a change leaves alone -/

/-- From `fs` to `fs'` only the nodes in `P` and the inodes in `F` may have
changed, and what was a directory still is one. -/
structure SameBut (P : Path → Prop) (F : ℕ → Prop) (fs fs' : FS) : Prop where
  node : ∀ p, ¬ P p → fs'.node p = fs.node p
  inode : ∀ i < fs.nextIno, ¬ F i → fs'.inode i = fs.inode i
  nextIno : fs.nextIno ≤ fs'.nextIno
  isDir : ∀ p, fs.isDir p = true → fs'.isDir p = true

namespace SameBut

variable {P P' : Path → Prop} {F F' : ℕ → Prop} {fs fs' fs'' : FS}

theorem refl (fs : FS) : SameBut P F fs fs :=
  ⟨fun _ _ => rfl, fun _ _ _ => rfl, le_rfl, fun _ h => h⟩

theorem trans (h : SameBut P F fs fs') (h' : SameBut P F fs' fs'') : SameBut P F fs fs'' where
  node p hp := (h'.node p hp).trans (h.node p hp)
  inode i hi hF := (h'.inode i (hi.trans_le h.nextIno) hF).trans (h.inode i hi hF)
  nextIno := h.nextIno.trans h'.nextIno
  isDir p hp := h'.isDir p (h.isDir p hp)

theorem mono (h : SameBut P F fs fs') (hP : ∀ p, P p → P' p)
    (hF : ∀ i < fs.nextIno, F i → F' i) : SameBut P' F' fs fs' where
  node p hp := h.node p fun hc => hp (hP p hc)
  inode i hi hc := h.inode i hi fun hf => hc (hF i hi hf)
  nextIno := h.nextIno
  isDir := h.isDir

/-- A further change that stays within `P` and, of the inodes that were there at
the start, within `F`. -/
theorem extend (h : SameBut P F fs fs') (h' : SameBut P' F' fs' fs'') (hP : ∀ p, P' p → P p)
    (hF : ∀ i < fs.nextIno, F' i → F i) : SameBut P F fs fs'' where
  node p hp := (h'.node p fun hc => hp (hP p hc)).trans (h.node p hp)
  inode i hi hc := (h'.inode i (hi.trans_le h.nextIno) fun hf => hc (hF i hi hf)).trans
    (h.inode i hi hc)
  nextIno := h.nextIno.trans h'.nextIno
  isDir p hp := h'.isDir p (h.isDir p hp)

theorem realDir (h : SameBut P F fs fs') {d : Path} (hd : fs.RealDir d) : fs'.RealDir d :=
  ⟨hd.1, fun q hq => h.isDir q (hd.2 q hq)⟩

end SameBut

/-- Every link of `fs'` was there in `fs` already. -/
def NoNewLinks (fs fs' : FS) : Prop :=
  ∀ q t, fs'.node q = some (.link t) → fs.node q = some (.link t)

namespace NoNewLinks

variable {fs fs' fs'' : FS}

theorem refl (fs : FS) : NoNewLinks fs fs := fun _ _ h => h

theorem trans (h : NoNewLinks fs fs') (h' : NoNewLinks fs' fs'') : NoNewLinks fs fs'' :=
  fun q t hq => h q t (h' q t hq)

theorem of_node (h : fs'.node = fs.node) : NoNewLinks fs fs' := by
  intro q t hq
  rwa [h] at hq

theorem setNode {q : Path} {n : Node} (h : fs.CanSet q n) (hn : n.isLink = false) :
    NoNewLinks fs (fs.setNode q n h) := by
  intro p t hp
  rw [node_setNode] at hp
  rcases eq_or_ne p q with rfl | hne
  · rw [Function.update_self, Option.some_inj] at hp
    rw [hp] at hn
    exact absurd hn (by simp [Node.isLink])
  · rwa [Function.update_of_ne hne] at hp

theorem clearNode {q : Path} (h : fs.isDir q = false) : NoNewLinks fs (fs.clearNode q h) := by
  intro p t hp
  rw [node_clearNode] at hp
  rcases eq_or_ne p q with rfl | hne
  · rw [Function.update_self] at hp
    exact absurd hp (by simp)
  · rwa [Function.update_of_ne hne] at hp

end NoNewLinks

theorem isDir_congr {fs fs' : FS} {p : Path} (h : fs'.node p = fs.node p) :
    fs'.isDir p = fs.isDir p := by
  unfold isDir
  rw [h]

theorem sameBut_setNode {q : Path} {n : Node} (h : fs.CanSet q n) :
    SameBut (· = q) (fun _ => False) fs (fs.setNode q n h) where
  node p hp := Function.update_of_ne hp _ _
  inode _ _ _ := rfl
  nextIno := le_rfl
  isDir p hp := by
    rcases eq_or_ne p q with rfl | hne
    · by_cases hn : n.isDir = false
      · rw [h.2.2.1 hn] at hp
        exact absurd hp (by simp)
      · simpa [isDir] using Or.inr ((Bool.not_eq_false _).mp hn)
    · rwa [isDir_congr (Function.update_of_ne hne _ _)]

theorem sameBut_clearNode {q : Path} (h : fs.isDir q = false) :
    SameBut (· = q) (fun _ => False) fs (fs.clearNode q h) where
  node p hp := Function.update_of_ne hp _ _
  inode _ _ _ := rfl
  nextIno := le_rfl
  isDir p hp := by
    rcases eq_or_ne p q with rfl | hne
    · rw [h] at hp
      exact absurd hp (by simp)
    · rwa [isDir_congr (Function.update_of_ne hne _ _)]

theorem sameBut_setInode (i : ℕ) (f : Inode) :
    SameBut (fun _ => False) (· = i) fs (fs.setInode i f) where
  node _ _ := rfl
  inode _ _ hj := Function.update_of_ne hj _ _
  nextIno := le_rfl
  isDir _ hp := hp

theorem sameBut_newInode (f : Inode) :
    SameBut (fun _ => False) (fun _ => False) fs (fs.newInode f) where
  node _ _ := rfl
  inode _ hj _ := Function.update_of_ne (Nat.ne_of_lt hj) _ _
  nextIno := Nat.le_succ _
  isDir _ hp := hp

theorem sameBut_unlink {fs' : FS} {p : Path} (h : fs.unlink p = .ok fs') :
    SameBut (fun q => fs.locate p = .ok q) (fun _ => False) fs fs' := by
  obtain ⟨q, hq, hl, rfl⟩ := unlink_ok h
  exact (sameBut_clearNode hq).mono (fun p hp => hp ▸ hl) fun _ _ h => h

theorem sameBut_create {fs' : FS} {p : Path} {n : Node} (h : fs.create p n = .ok fs') :
    SameBut (fun q => fs.locate p = .ok q) (fun _ => False) fs fs' := by
  obtain ⟨q, hq, hl, -, rfl⟩ := create_ok h
  exact (sameBut_setNode hq).mono (fun p hp => hp ▸ hl) fun _ _ h => h

theorem sameBut_replace {fs' : FS} {src dst : Path} (h : fs.replace src dst = .ok fs') :
    SameBut (fun q => fs.locate src = .ok q ∨ fs.locate dst = .ok q) (fun _ => False) fs fs' := by
  obtain ⟨q, r, n, hq, hr, -, ⟨-, rfl⟩ | ⟨-, hq', hr', rfl⟩⟩ := replace_ok h
  · exact SameBut.refl _
  · exact ((sameBut_clearNode hq').mono (fun p hp => .inl (hp ▸ hq)) fun _ _ h => h).trans
      ((sameBut_setNode hr').mono (fun p hp => .inr (hp ▸ hr)) fun _ _ h => h)

/-- A lookup reads nodes only. -/
theorem walk_congr {fs' : FS} (h : fs'.node = fs.node) {f : Bool} : ∀ (k : ℕ) (cur : Path)
    (rest : List String), fs'.walk f k cur rest = fs.walk f k cur rest := by
  intro k
  induction k with
  | zero =>
    intro cur rest
    simp [walk]
  | succ k ih =>
    intro cur rest
    cases rest with
    | nil => simp [walk]
    | cons a rest => simp only [walk, ih, h]

theorem locate_newInode (f : Inode) (p : Path) : (fs.newInode f).locate p = fs.locate p :=
  walk_congr (fs.node_newInode f) _ _ _

theorem sameBut_createExcl {fs' : FS} {p : Path} {mode : BitVec 12} {i : ℕ}
    (h : fs.createExcl p mode = .ok (i, fs')) :
    SameBut (fun q => fs.locate p = .ok q) (fun _ => False) fs fs' := by
  obtain ⟨-, h⟩ := createExcl_ok h
  have hc := sameBut_create h
  simp only [locate_newInode] at hc
  exact ((sameBut_newInode _).mono (fun _ h => h.elim) fun _ _ h => h).trans hc

/-- A new file under a free name of a directory. -/
theorem createExcl_free {p q : Path} (mode : BitVec 12) (hq : fs.locate p = .ok q)
    (hfree : fs.node q = none) (hne : q ≠ []) (hdir : fs.isDir q.dropLast = true) :
    ∃ fs', fs.createExcl p mode = .ok (fs.nextIno, fs') := by
  have hset : (fs.newInode ⟨[], ⟨0, 0, mode⟩, fs.clock, fs.clock, fs.clock⟩).CanSet q
      (.file fs.nextIno) := by
    refine ⟨hne, hdir, fun _ => ?_, by simp [Node.inoBelow]⟩
    simp [isDir, hfree, hne]
  refine ⟨(fs.newInode _).setNode q (.file fs.nextIno) hset, ?_⟩
  rw [createExcl]
  simp only [create, locate_newInode, hq, bind, Except.bind, node_newInode, hfree, dif_pos hset]
  rfl

/-- Renaming a file over a link. -/
theorem replace_link {src dst q r : Path} {i : ℕ} {t : Target} (hq : fs.locate src = .ok q)
    (hr : fs.locate dst = .ok r) (hfile : fs.node q = some (.file i))
    (hlink : fs.node r = some (.link t)) (hq' : q ≠ []) (hr' : r ≠ [])
    (hdir : fs.isDir r.dropLast = true) :
    ∃ fs', fs.replace src dst = .ok fs' ∧ fs'.node q = none ∧ fs'.node r = some (.file i) ∧
      fs'.inode = fs.inode ∧ fs'.nextIno = fs.nextIno := by
  have hne : q ≠ r := by
    rintro rfl
    exact absurd (hfile.symm.trans hlink) (by simp)
  have hclear : fs.isDir q = false := by simp [isDir_of_node hq' hfile, Node.isDir]
  have hset : (fs.clearNode q hclear).CanSet r (.file i) := by
    refine ⟨hr', (sameBut_clearNode hclear).isDir _ hdir, fun _ => ?_, ?_⟩
    · rw [isDir_of_node hr' (by rwa [node_clearNode, Function.update_of_ne hne.symm])]
      rfl
    · exact decide_eq_true (fs.fresh q i hfile)
  refine ⟨(fs.clearNode q hclear).setNode r (.file i) hset, ?_, ?_, by simp, rfl, rfl⟩
  · rw [replace]
    simp only [hq, hr, bind, Except.bind, hfile, if_neg hne, dif_pos hclear, dif_pos hset]
  · rw [node_setNode, Function.update_of_ne hne, node_clearNode, Function.update_self]

end FS

/-- Opening `p` and reading it to the end gives `b`. -/
def Reads (fs : FS) (p : Path) (b : Bytes) : Prop := ∃ k, fs.readsWith k p = some b

variable {fs : FS} {p d : Path} {n : String} {b b' : Bytes} {i : ℕ}

theorem reads_iff : Reads fs p b ↔
    ∃ k q i, fs.walk true k [] p = .ok q ∧ fs.node q = some (.file i) ∧ (fs.inode i).data = b := by
  unfold Reads FS.readsWith
  constructor
  · rintro ⟨k, h⟩
    split at h
    · exact absurd h (by simp)
    · split at h
      · exact ⟨k, _, _, ‹_›, ‹_›, Option.some_inj.mp h⟩
      · exact absurd h (by simp)
  · rintro ⟨k, q, i, hw, hn, hb⟩
    exact ⟨k, by rw [hw]; simp only [hn, hb]⟩

theorem Reads.unique (h : Reads fs p b) (h' : Reads fs p b') : b = b' := by
  obtain ⟨k, q, i, hw, hn, hb⟩ := reads_iff.mp h
  obtain ⟨k', q', i', hw', hn', hb'⟩ := reads_iff.mp h'
  have h₁ := FS.walk_mono (Nat.le_max_left k k') hw
  have h₂ := FS.walk_mono (Nat.le_max_right k k') hw'
  rw [h₁, Except.ok.injEq] at h₂
  subst h₂
  rw [hn, Option.some_inj, Node.file.injEq] at hn'
  subst hn'
  rw [← hb, ← hb']

/-- Reading a regular file below real directories. -/
theorem reads_file (hd : fs.RealDir d) (hn : Plain n)
    (hf : fs.node (d ++ [n]) = some (.file i)) : Reads fs (d ++ [n]) (fs.inode i).data := by
  refine reads_iff.mpr ⟨1 + d.length, d ++ [n], i, ?_, hf, rfl⟩
  rw [FS.walk_dirs hd.1 fun q hq _ => by simpa using hd.2 q hq, List.nil_append,
    FS.walk_plain hn, hf]
  simp

/-- Reading through a link below real directories that names, from the root,
what can be read. -/
theorem reads_link {t : Target} (hd : fs.RealDir d) (hn : Plain n)
    (hl : fs.node (d ++ [n]) = some (.link t)) (ht : t.absolute = true)
    (hb : Reads fs t.names b) : Reads fs (d ++ [n]) b := by
  obtain ⟨k, q, i, hw, hf, hi⟩ := reads_iff.mp hb
  refine reads_iff.mpr ⟨k + 1 + d.length, q, i, ?_, hf, hi⟩
  rw [FS.walk_dirs hd.1 fun q hq _ => by simpa using hd.2 q hq, List.nil_append,
    FS.walk_plain hn, hl]
  simpa [ht] using hw

end Posix
