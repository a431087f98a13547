/-
What scratch-overflow and scratch-restore share: paths, temporary names, and the
copy that hashes what it reads.

Both scripts carry the same `copy_and_hash`, `tmp_sibling`, `fd_sha256` and
`fsync_dir`; here each is one definition, with the script's own call sites as a
parameter.  A descriptor is the number of its inode, so what is done through it
never looks a path up again.  `fsync_dir` catches whatever it meets and changes
nothing, so it is left out of the programs below.  A name stands for its bytes: one
that is not UTF-8 is a name like any other, except that it cannot be printed.
-/
import KrgInfra.FileSystem
import KrgInfra.Program

namespace Scratch

open Posix

/-! ### Paths, as `os.path` computes them -/

/-- `os.path.dirname` -/
def dirname (p : Path) : Path := p.dropLast

/-- `os.path.join` of a path and a relative one. -/
def join (p q : Path) : Path := p ++ q

/-- `os.path.commonprefix` of two lists of names, by its length. -/
def commonLength : List String → List String → ℕ
  | a :: as, b :: bs => if a = b then commonLength as bs + 1 else 0
  | _, _ => 0

/-- `os.path.relpath` of absolute, normalised paths. -/
def relpath (path start : Path) : Path :=
  let i := commonLength start path
  let rel := List.replicate (start.length - i) ".." ++ path.drop i
  if rel = [] then ["."] else rel

/-- `path == r or path.startswith(r + os.sep)`; `r + os.sep` is `//` for the
root, which no normalised path starts with. -/
def under (path r : Path) : Bool := path == r || (!r.isEmpty && r.isPrefixOf path)

/-- `.{tag}-{os.urandom(6).hex()}.tmp` -/
def tmpName (tag urandom : String) : String := "." ++ tag ++ "-" ++ urandom ++ ".tmp"

/-- A short temporary path in the directory of `path`. -/
def tmp_sibling (path : Path) (tag urandom : String) : Path :=
  dirname path ++ [tmpName tag urandom]

@[simp] theorem commonLength_append (p q : Path) : commonLength p (p ++ q) = p.length := by
  induction p with
  | nil => cases q <;> rfl
  | cons a p ih => simp [commonLength, ih]

@[simp] theorem relpath_append (p q : Path) (hq : q ≠ []) : relpath (p ++ q) p = q := by
  simp [relpath, hq]

theorem tmpName_plain (tag urandom : String) : Plain (tmpName tag urandom) := by
  have hlen : 6 ≤ (tmpName tag urandom).length := by
    simp only [tmpName, String.length_append]
    have h₁ : ".".length = 1 := by decide
    have h₂ : "-".length = 1 := by decide
    have h₃ : ".tmp".length = 4 := by decide
    omega
  refine ⟨?_, ?_, ?_⟩ <;> intro h <;> rw [h] at hlen <;> revert hlen <;> decide

/-! ### The host the scripts run on -/

/-- Why a file was demoted. -/
inductive Reason where
  | ttl
  | capacity
  deriving DecidableEq, Repr

/-- A line of manifest.jsonl. -/
structure ManifestEntry where
  ts : ℤ
  reason : Reason
  path : Path
  dest : Path
  size : ℕ
  sha256 : String
  atime : ℤ
  last_use : ℤ
  deriving DecidableEq, Repr

/-- The file system of both tiers, the manifest, and what the writers of the file
at hand last left in it (`none` when they removed it). -/
structure Host where
  fs : FS
  manifest : List ManifestEntry := []
  latest : Option Bytes := none

/-- The two tiers, both empty. -/
def emptyTiers : FS :=
  (FS.empty.setNode ["scratch"] (.dir ⟨0, 0, 0o755#12⟩) (by decide)).setNode ["cold"]
    (.dir ⟨0, 0, 0o755#12⟩) (by decide)

/-- The two tiers with one file, `scratch/a`. -/
def smallTiers (f : Inode) : FS :=
  (emptyTiers.newInode f).setNode ["scratch", "a"] (.file 0)
    ⟨by decide, rfl, fun _ => rfl, rfl⟩

/-- A call that looks at the file system. -/
def ask {α : Type} (f : FS → Except OSError α) : Work OSError Host α :=
  Work.query fun h => f h.fs

/-- A call that changes the file system. -/
def change (f : FS → Except OSError FS) : Work OSError Host Unit :=
  Work.update fun h => (f h.fs).map fun fs => ((), { h with fs := fs })

/-- A call through a descriptor: it changes the inode and finds nothing amiss. -/
def changeFd (f : FS → FS) : Work OSError Host Unit := change fun fs => .ok (f fs)

/-- What the program can see of the host without a call that may fail. -/
def peek {α : Type} (f : Host → α) : Program OSError Host α := fun t => .ok (f t.now) t

/-- `log`, of a line with the names at hand: it changes nothing, and raises where `print`
has no encoding for one of them. -/
def log (printable : Bool) : Program OSError Host Unit :=
  if printable then pure () else throw .unicodeEncode

/-- `os.path.lexists`: an error of its `lstat` reads as absent. -/
def lexists {ι : Type} (env : Env ι OSError Host) (i : ι) (p : Path) : Program OSError Host Bool :=
  Option.isSome <$> attempt (call env i (ask (·.lstat p)))

/-- `if os.path.lexists(tmp): os.unlink(tmp)` -/
def unlinkIfThere {ι : Type} (env : Env ι OSError Host) (look drop : ι) (tmp : Path) :
    Program OSError Host Unit := do
  if ← lexists env look tmp then
    call env drop (change (·.unlink tmp))

/-- The cleanup of a temporary, errors passed over. -/
def cleanup {ι : Type} (env : Env ι OSError Host) (look drop : ι) (tmp : Path) :
    Program OSError Host (Option Unit) :=
  attempt (unlinkIfThere env look drop tmp)

/-- `(st_ino, st_size, st_mtime_ns, st_ctime_ns)`: what tells a changed file. -/
def identity (s : FS.Stat) : Option ℕ × ℕ × ℤ × ℤ := (s.ino, s.size, s.mtime, s.ctime)

/-! ### The rules for such calls -/

section Rules

variable {ι α : Type} {env : Env ι OSError Host} {i : ι} {I P Q R : Host → Prop}

theorem change_cases (f : FS → Except OSError FS) (h : Host) :
    (∃ fs', f h.fs = .ok fs' ∧ change f h = (.ok (), { h with fs := fs' })) ∨
      ∃ e, f h.fs = .error e ∧ change f h = (.error e, h) := by
  cases hr : f h.fs with
  | ok fs' => exact .inl ⟨fs', rfl, by simp [change, Work.update, hr, Except.map]⟩
  | error e => exact .inr ⟨e, rfl, by simp [change, Work.update, hr, Except.map]⟩

/-- A call that changes the file system: `Q` where it succeeds, and `R` where it
raises, which without the environment's doing it does only on an error of its own. -/
theorem Triple.of_change {f : FS → Except OSError FS}
    (hbefore : ∀ h, I h → P h → I (env.before i h) ∧ P (env.before i h))
    (hok : ∀ h fs', P h → f h.fs = .ok fs' →
      Q { h with fs := fs' } ∧ I { h with fs := fs' })
    (hP : ∀ h, P h → (env.outcome i = .ok → ∃ e, f h.fs = .error e) → R h)
    (hQ : ∀ h, Q h → R h) :
    Triple I P (call env i (change f)) (fun _ => Q) (fun _ => R) := by
  refine Triple.of_call P hbefore ?_ ?_
  · intro h hI hp
    obtain ⟨fs', hr, hact⟩ | ⟨e, hr, hact⟩ := change_cases f h
    · rw [hact]
      exact ⟨(hok h fs' hp hr).2, (hok h fs' hp hr).1⟩
    · rw [hact]
      exact ⟨hI, hP h hp fun _ => ⟨e, hr⟩⟩
  · rintro e (_ | _) h ho - hp
    · exact hP h hp fun hok => absurd (ho.symm.trans hok) (by simp)
    · obtain ⟨fs', hr, hact⟩ | ⟨e, hr, hact⟩ := change_cases f h
      · rw [hact]
        exact hQ _ (hok h fs' hp hr).1
      · rw [hact]
        exact hP h hp fun _ => ⟨e, hr⟩

/-- A call that only looks: nothing is lost, whether it answers or raises. -/
theorem Triple.of_ask {f : FS → Except OSError α}
    (hbefore : ∀ h, I h → P h → I (env.before i h) ∧ P (env.before i h)) :
    Triple I P (call env i (ask f)) (fun a h => P h ∧ f h.fs = .ok a)
      (fun e h => P h ∧ (env.outcome i = .ok → f h.fs = .error e)) := by
  refine Triple.of_call P hbefore ?_ ?_
  · intro h hI hp
    refine ⟨hI, ?_⟩
    cases hr : f h.fs with
    | ok a =>
      simp only [ask, Work.query, hr]
      exact ⟨hp, trivial⟩
    | error e =>
      simp only [ask, Work.query, hr]
      exact ⟨hp, fun _ => trivial⟩
  · rintro e done h ho - hp
    have hne : env.outcome i = .ok → f h.fs = .error e := by
      intro hok
      exact absurd (ho.symm.trans hok) (by simp)
    cases done with
    | true => exact ⟨hp, hne⟩
    | false => exact ⟨hp, hne⟩

/-- A line that is printed: what held before it holds after it, and where it raises. -/
theorem Triple.log {printable : Bool} {R : Unit → Host → Prop} {E : OSError → Host → Prop}
    (hR : ∀ h, P h → R () h) (hE : ∀ e h, P h → E e h) : Triple I P (log printable) R E := by
  unfold Scratch.log
  split_ifs
  · exact Triple.pure fun h _ hp => hR h hp
  · exact Triple.throw fun h _ hp => hE _ h hp

theorem Triple.of_peek {f : Host → α} {E : OSError → Host → Prop} :
    Triple I P (peek f) (fun _ => P) E := fun _ hI hP => ⟨hI, hP⟩

end Rules

section Copy

variable {ι : Type}

/-- The calls of `copy_and_hash`: `read k` fetches the `k`-th buffer, `write k j`
is the `j`-th `os.write` that drains it. -/
inductive CopySite where
  | openSrc
  | openDst
  | read (k : ℕ)
  | write (k j : ℕ)
  | closeSrc
  | fsyncDst
  deriving DecidableEq, Repr

/-- How the kernel serves a copy: read number `reads` finds the end of the file
(sooner than the file ends, when it was cut short), and `os.write` number `j` of
buffer `k` takes `short k j` bytes, at least one. -/
structure CopyEnv where
  reads : ℕ
  short : ℕ → ℕ → ℕ

/-- 8 MiB streaming copy/hash buffer -/
def COPY_CHUNK : ℕ := 8 * 1024 * 1024

/-- `mv = mv[os.write(dst_fd, mv):]` until nothing is left; every write takes at
least one byte, so `mv.length` rounds are enough. -/
def drain (env : Env ι OSError Host) (site : CopySite → ι) (cp : CopyEnv) (dst_fd k : ℕ) :
    ℕ → ℕ → Bytes → Program OSError Host Unit
  | 0, _, _ => pure ()
  | n + 1, j, mv =>
    if mv = [] then pure ()
    else do
      let w := max 1 (cp.short k j)
      call env (site (.write k j)) (changeFd (·.append dst_fd (mv.take w)))
      drain env site cp dst_fd k n (j + 1) (mv.drop w)

/-- The `while True` of `copy_and_hash`; `acc` is what has been read so far. -/
def copyLoop (env : Env ι OSError Host) (site : CopySite → ι) (cp : CopyEnv) (src_fd dst_fd : ℕ) :
    ℕ → ℕ → Bytes → Program OSError Host Bytes
  | 0, _, acc => pure acc
  | n + 1, k, acc => do
    let buf ← call env (site (.read k))
      (ask fun fs => .ok (((fs.inode src_fd).data.drop acc.length).take COPY_CHUNK))
    if buf = [] then pure acc
    else do
      drain env site cp dst_fd k buf.length 0 buf
      copyLoop env site cp src_fd dst_fd n (k + 1) (acc ++ buf)

/-- Stream `src` into a new file `dst`: the digest of what was read, its length,
and the descriptor of the new file. -/
def copy_and_hash (sha256 : Bytes → String) (env : Env ι OSError Host) (site : CopySite → ι)
    (cp : CopyEnv) (src dst : Path) : Program OSError Host (String × ℕ × ℕ) := do
  let src_fd ← call env (site .openSrc) (ask (·.openRead src))
  let dst_fd ← call env (site .openDst) (Work.update fun h =>
    (h.fs.createExcl dst 0o600#12).map fun (i, fs) => (i, { h with fs := fs }))
  let read ← copyLoop env site cp src_fd dst_fd cp.reads 0 []
  call env (site .closeSrc) (changeFd id)
  call env (site .fsyncDst) (changeFd id)
  return (sha256 read, read.length, dst_fd)

/-! ### The rule for the copy -/

section CopyRule

variable {env : Env ι OSError Host} {site : CopySite → ι} {cp : CopyEnv} {I B : Host → Prop}
  {src_fd dst_fd : ℕ} {Hold : Bytes → Bytes → Host → Prop}

/-- `Hold data acc`: the new file holds `data`, and `acc` has been read.  Everything
in `mv` reaches the file, in as many writes as it takes, and nothing else does. -/
theorem drain_rule {k : ℕ} {acc : Bytes}
    (hwrite : ∀ data bs j, data ++ bs <+: acc → Triple I (Hold data acc)
      (call env (site (.write k j)) (changeFd (·.append dst_fd bs)))
      (fun _ => Hold (data ++ bs) acc) (fun _ => B)) :
    ∀ (n j : ℕ) (mv data : Bytes), mv.length ≤ n → data ++ mv <+: acc →
      Triple I (Hold data acc) (drain env site cp dst_fd k n j mv)
        (fun _ => Hold (data ++ mv) acc) (fun _ => B) := by
  intro n
  induction n with
  | zero =>
    intro j mv data hlen _
    obtain rfl : mv = [] := List.eq_nil_of_length_eq_zero (Nat.le_zero.mp hlen)
    rw [List.append_nil]
    exact Triple.pure fun _ _ h => h
  | succ n ih =>
    intro j mv data hlen hpre
    rw [drain]
    by_cases hmv : mv = []
    · rw [if_pos hmv, hmv, List.append_nil]
      exact Triple.pure fun _ _ h => h
    rw [if_neg hmv]
    have hpos : 0 < mv.length := List.length_pos_iff.mpr hmv
    have hsplit : data ++ mv.take (max 1 (cp.short k j)) ++ mv.drop (max 1 (cp.short k j)) =
        data ++ mv := by
      rw [List.append_assoc, List.take_append_drop]
    have htake : data ++ mv.take (max 1 (cp.short k j)) <+: acc := by
      rw [← hsplit] at hpre
      exact (List.prefix_append _ _).trans hpre
    refine Triple.bind (hwrite data (mv.take (max 1 (cp.short k j))) j htake) fun _ => ?_
    have h := ih (j + 1) (mv.drop (max 1 (cp.short k j)))
      (data ++ mv.take (max 1 (cp.short k j))) (by rw [List.length_drop]; omega) (hsplit ▸ hpre)
    rwa [hsplit] at h

/-- The copy goes on until a read finds nothing: what was read was written. -/
theorem copyLoop_rule
    (hread : ∀ k acc, Triple I (Hold acc acc) (call env (site (.read k))
      (ask fun fs => .ok (((fs.inode src_fd).data.drop acc.length).take COPY_CHUNK)))
      (fun buf => Hold acc (acc ++ buf)) (fun _ => B))
    (hwrite : ∀ data acc bs k j, data ++ bs <+: acc → Triple I (Hold data acc)
      (call env (site (.write k j)) (changeFd (·.append dst_fd bs)))
      (fun _ => Hold (data ++ bs) acc) (fun _ => B)) :
    ∀ (n k : ℕ) (acc : Bytes), Triple I (Hold acc acc)
      (copyLoop env site cp src_fd dst_fd n k acc) (fun read => Hold read read) (fun _ => B) := by
  intro n
  induction n with
  | zero => exact fun k acc => Triple.pure fun _ _ h => h
  | succ n ih =>
    intro k acc
    rw [copyLoop]
    refine Triple.bind (hread k acc) fun buf => ?_
    by_cases hbuf : buf = []
    · rw [if_pos hbuf, hbuf, List.append_nil]
      exact Triple.pure fun _ _ h => h
    · rw [if_neg hbuf]
      refine Triple.bind (drain_rule (fun data bs j => hwrite data (acc ++ buf) bs k j) buf.length
        0 buf acc le_rfl List.prefix_rfl) fun _ => ih (k + 1) (acc ++ buf)

end CopyRule

/-- `copy_and_hash` ends with a new file that holds what was read, and the digest
and the length of it, when each call of it keeps `H` as it should. -/
theorem copy_and_hash_rule {sha256 : Bytes → String} {env : Env ι OSError Host}
    {site : CopySite → ι} {cp : CopyEnv} {src dst : Path} {I P B : Host → Prop}
    {O : ℕ → Host → Prop} {H : ℕ → ℕ → Bytes → Bytes → Host → Prop}
    (hsrc : Triple I P (call env (site .openSrc) (ask (·.openRead src))) O (fun _ => B))
    (hdst : ∀ src_fd, Triple I (O src_fd)
      (call env (site .openDst) (Work.update fun h =>
        (h.fs.createExcl dst 0o600#12).map fun (i, fs) => (i, { h with fs := fs })))
      (fun dst_fd => H src_fd dst_fd [] []) (fun _ => B))
    (hread : ∀ src_fd dst_fd k acc, Triple I (H src_fd dst_fd acc acc) (call env (site (.read k))
      (ask fun fs => .ok (((fs.inode src_fd).data.drop acc.length).take COPY_CHUNK)))
      (fun buf => H src_fd dst_fd acc (acc ++ buf)) (fun _ => B))
    (hwrite : ∀ src_fd dst_fd data acc bs k j, data ++ bs <+: acc →
      Triple I (H src_fd dst_fd data acc)
      (call env (site (.write k j)) (changeFd (·.append dst_fd bs)))
      (fun _ => H src_fd dst_fd (data ++ bs) acc) (fun _ => B))
    (hid : ∀ src_fd dst_fd read i, Triple I (H src_fd dst_fd read read)
      (call env (site i) (changeFd id)) (fun _ => H src_fd dst_fd read read) (fun _ => B)) :
    Triple I P (copy_and_hash sha256 env site cp src dst)
      (fun r h => ∃ src_fd read, r.1 = sha256 read ∧ r.2.1 = read.length ∧
        H src_fd r.2.2 read read h) (fun _ => B) := by
  refine Triple.bind hsrc fun src_fd => ?_
  refine Triple.bind (hdst src_fd) fun dst_fd => ?_
  refine Triple.bind (copyLoop_rule (hread src_fd dst_fd) (hwrite src_fd dst_fd) cp.reads 0 [])
    fun read => ?_
  refine Triple.bind (hid src_fd dst_fd read _) fun _ => ?_
  refine Triple.bind (hid src_fd dst_fd read _) fun _ => ?_
  exact Triple.pure fun _ _ h => ⟨src_fd, read, rfl, rfl, h⟩

end Copy

end Scratch
