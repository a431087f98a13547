/-
scratch-overflow's manifest: `open_manifest`.

The manifest lies in a directory at the scratch root, where lab members may write.  What is not a
real directory of root's is not used, and no link is followed; a sweep whose manifest cannot be
opened goes on without it, and writes its lines to the null device.

* `open_manifest`, `manifest_or_null` — the calls, one after the other;
* `Kept`, `open_manifest_spec` — they touch nothing outside of that directory.
-/
import KrgInfra.ScratchIO
import Mathlib

namespace Scratch

open Posix

/-- per-scratch state dir (manifest) -/
def ARCHIVE_DIR : String := ".scratch-overflow"

def MANIFEST_NAME : String := "manifest.jsonl"

/-- The calls that open the manifest. -/
inductive ManifestSite where
  | lstatDir
  | chmodDir
  | mkdirDir
  | openFile
  | openNull
  deriving DecidableEq, Repr

section Program

variable (outcome : ManifestSite → Outcome OSError) (state_dir : Path)

/-- One call of those. -/
def manifestCall {α : Type} (i : ManifestSite) (act : Work OSError Host α) :
    Program OSError Host α :=
  call { outcome := outcome } i act

/-- The state directory is there and root's, or it is made; `false` where it is not to be used. -/
def state_ready : Program OSError Host Bool :=
  tryCatch (do
    let ds ← manifestCall outcome .lstatDir (ask (·.lstat state_dir))
    if ds.node.isDir = false ∨ ds.perm.uid ≠ 0 then return false
    else do
      -- root-only, even if it was readable by the group
      manifestCall outcome .chmodDir (change (·.chmod state_dir 0o700#12))
      return true) fun e =>
    if e = .fileNotFound then
      Option.isSome <$> attempt
        (manifestCall outcome .mkdirDir (change (·.mkdir state_dir ⟨0, 0, 0o700#12⟩)))
    else throw e

/-- The file that the lines are appended to; `none` where the manifest is skipped. -/
def open_manifest : Program OSError Host (Option ℕ) := do
  let ready ← state_ready outcome state_dir
  if ready then
    attempt (manifestCall outcome .openFile (Work.update fun h =>
      (h.fs.openAppend (join state_dir [MANIFEST_NAME]) 0o600#12).map fun (i, fs) =>
        (i, { h with fs := fs })))
  else return none

/-- `open_manifest(state_dir) or open(os.devnull, "w")` -/
def manifest_or_null : Program OSError Host Unit := do
  let fp ← open_manifest outcome state_dir
  match fp with
  | some _ => return ()
  | none => manifestCall outcome .openNull (changeFd id)

end Program

/-! ### What opening it leaves alone -/

/-- Nothing has changed but at and below `dir`, and there every file that was is where it was. -/
structure Kept (dir : Path) (fs fs' : FS) : Prop where
  same : FS.SameBut (dir <+: ·) (fun _ => False) fs fs'
  file : ∀ p i, fs.node p = some (.file i) → fs'.node p = some (.file i)
  alloc : fs'.alloc = fs.alloc

theorem Kept.refl (dir : Path) (fs : FS) : Kept dir fs fs := ⟨.refl fs, fun _ _ h => h, rfl⟩

/-- A node at or below `dir` that is no file is made, or made anew. -/
theorem Kept.setNode {dir q : Path} {fs fs' : FS} (h : Kept dir fs fs') {n : Node}
    (hq : fs'.CanSet q n) (hdir : dir <+: q) (hfile : ∀ i, fs'.node q ≠ some (.file i)) :
    Kept dir fs (fs'.setNode q n hq) where
  same := h.same.extend (FS.sameBut_setNode hq) (fun _ hp => hp ▸ hdir) fun _ _ hF => hF
  file p i hp := by
    have hold := h.file p i hp
    have hne : p ≠ q := fun he => hfile i (he ▸ hold)
    rw [FS.node_setNode, Function.update_of_ne hne, hold]
  alloc := h.alloc

section Spec

variable {outcome : ManifestSite → Outcome OSError} {root : Path} {name : String} {fs : FS}
  (hroot : fs.RealDir root) (hname : Plain name)

/-- A call that keeps what was there, whether it answers or raises. -/
theorem manifestCall_kept {P : Host → Prop} {dir : Path} {i : ManifestSite}
    {f : FS → Except OSError FS} (hP : ∀ h, P h → Kept dir fs h.fs)
    (hf : ∀ h fs', P h → f h.fs = .ok fs' → Kept dir fs fs') :
    Triple (fun _ => True) P (manifestCall outcome i (change f)) (fun _ h => Kept dir fs h.fs)
      (fun _ h => Kept dir fs h.fs) :=
  Triple.of_change (R := fun h => Kept dir fs h.fs) (fun _ _ h => ⟨trivial, h⟩)
    (fun h fs' hp hok => ⟨hf h fs' hp hok, trivial⟩) (fun h hp _ => hP h hp) fun _ h => h

include hroot hname

theorem Kept.locate {dir : Path} {fs' : FS} (h : Kept dir fs fs') :
    fs'.locate (root ++ [name]) = .ok (root ++ [name]) :=
  FS.locate_real (h.same.realDir hroot) hname

/-- The file is made in the directory, or it is there. -/
theorem openAppend_kept {h : Host} (hk : Kept (root ++ [name]) fs h.fs)
    (hdir : h.fs.isDir (root ++ [name]) = true) {i : ℕ} {fs' : FS}
    (hok : h.fs.openAppend (join (root ++ [name]) [MANIFEST_NAME]) 0o600#12 = .ok (i, fs')) :
    Kept (root ++ [name]) fs fs' := by
  have hreal : h.fs.RealDir (root ++ [name]) := (hk.same.realDir hroot).concat hname hdir
  have hlocate : h.fs.locate (join (root ++ [name]) [MANIFEST_NAME]) =
      .ok (join (root ++ [name]) [MANIFEST_NAME]) := FS.locate_real hreal (by decide)
  rw [FS.openAppend, hlocate] at hok
  simp only [bind, Except.bind] at hok
  split at hok
  · obtain ⟨-, rfl⟩ := Prod.mk.inj (Except.ok.inj hok)
    exact hk
  · obtain ⟨-, hcreate⟩ := FS.createExcl_ok hok
    obtain ⟨q, hset, hq, hnone, rfl⟩ := FS.create_ok hcreate
    rw [FS.locate_newInode] at hq
    obtain rfl := Except.ok.inj (hlocate.symm.trans hq)
    exact Kept.setNode ⟨hk.same.extend (FS.sameBut_newInode _) (fun _ hp => hp.elim)
      fun _ _ hF => hF, hk.file, hk.alloc⟩ hset (List.prefix_append _ _)
        fun i hi => nomatch hnone.symm.trans hi
  · exact nomatch hok

/-- The directory itself is made, or its mode is set. -/
theorem state_ready_spec : Triple (fun _ => True) (fun h => Kept (root ++ [name]) fs h.fs)
    (state_ready outcome (root ++ [name]))
    (fun ready h => Kept (root ++ [name]) fs h.fs ∧
      (ready = true → h.fs.isDir (root ++ [name]) = true))
    (fun _ h => Kept (root ++ [name]) fs h.fs) := by
  refine Triple.tryCatch (E := fun _ h => Kept (root ++ [name]) fs h.fs) ?_ fun e => ?_
  · refine Triple.bind ((Triple.of_ask fun _ _ h => ⟨trivial, h⟩).except fun _ _ _ h => h.1)
      fun ds => ?_
    split_ifs with hplanted
    · exact Triple.pure fun _ _ h => ⟨h.1, nofun⟩
    rw [not_or, Bool.not_eq_false] at hplanted
    -- what `lstat` has seen is the directory that is chmodded
    have hdir : ∀ h : Host, Kept (root ++ [name]) fs h.fs ∧
        h.fs.lstat (root ++ [name]) = .ok ds → ∃ m, h.fs.node (root ++ [name]) = some (.dir m) := by
      rintro h ⟨hk, hst⟩
      rw [FS.lstat, hk.locate hroot hname] at hst
      have hnode := FS.node_of_statAt hst
      cases hn : ds.node with
      | dir m => exact ⟨m, hn ▸ hnode⟩
      | file i => rw [hn] at hplanted; exact nomatch hplanted.1
      | link t => rw [hn] at hplanted; exact nomatch hplanted.1
    refine Triple.bind (Q := fun _ h => Kept (root ++ [name]) fs h.fs ∧
      h.fs.isDir (root ++ [name]) = true) ?_ fun _ => Triple.pure fun _ _ h => ⟨h.1, fun _ => h.2⟩
    refine (Triple.of_change (P := fun h => Kept (root ++ [name]) fs h.fs ∧
      h.fs.lstat (root ++ [name]) = .ok ds) (R := fun h => Kept (root ++ [name]) fs h.fs)
      (fun _ _ h => ⟨trivial, h⟩) ?_ (fun _ h _ => h.1) fun _ h => h.1)
    rintro h fs' hp hok
    obtain ⟨m, hm⟩ := hdir h hp
    have hresolve : h.fs.resolve (root ++ [name]) = .ok (root ++ [name]) :=
      FS.resolve_real (hp.1.same.realDir hroot) hname fun t ht => nomatch ht.symm.trans hm
    obtain ⟨q, hq, ⟨i, hi, -⟩ | ⟨m₁, m₂, -, hset, rfl⟩⟩ := FS.chmod_ok hok
    · obtain rfl := Except.ok.inj (hresolve.symm.trans hq)
      exact nomatch hi.symm.trans hm
    · obtain rfl := Except.ok.inj (hresolve.symm.trans hq)
      exact ⟨⟨hp.1.setNode hset List.prefix_rfl fun i hi => (nomatch hi.symm.trans hm),
        by simp [FS.isDir, Node.isDir]⟩, trivial⟩
  · split_ifs
    · refine Triple.map (Triple.attempt (Q := fun made h => Kept (root ++ [name]) fs h.fs ∧
        (made.isSome = true → h.fs.isDir (root ++ [name]) = true)) ?_) fun made h _ hmade => hmade
      refine (Triple.of_change (P := fun h => Kept (root ++ [name]) fs h.fs)
        (Q := fun h => Kept (root ++ [name]) fs h.fs ∧ h.fs.isDir (root ++ [name]) = true)
        (R := fun h => Kept (root ++ [name]) fs h.fs) (fun _ _ h => ⟨trivial, h⟩) ?_
        (fun _ h _ => h) fun _ h => h.1).conseq (fun _ _ h => h) (fun _ _ _ h => ⟨h.1, fun _ => h.2⟩)
        fun _ _ _ h => ⟨h, fun hnone => absurd hnone Bool.false_ne_true⟩
      intro h fs' hk hok
      obtain ⟨q, hset, hq, hnone, rfl⟩ := FS.create_ok hok
      obtain rfl := Except.ok.inj ((hk.locate hroot hname).symm.trans hq)
      exact ⟨⟨hk.setNode hset List.prefix_rfl fun i hi => absurd (hnone.symm.trans hi)
        (Option.some_ne_none _).symm, by simp [FS.isDir, Node.isDir]⟩, trivial⟩
    · exact Triple.throw fun _ _ h => h

/-- Opening the manifest touches nothing outside of its directory, whatever fails. -/
theorem open_manifest_spec : Triple (fun _ => True) (fun h => Kept (root ++ [name]) fs h.fs)
    (manifest_or_null outcome (root ++ [name])) (fun _ h => Kept (root ++ [name]) fs h.fs)
    (fun _ h => Kept (root ++ [name]) fs h.fs) := by
  refine Triple.bind (Q := fun _ h => Kept (root ++ [name]) fs h.fs)
    (Triple.bind (state_ready_spec hroot hname) fun ready => ?_) fun fp => ?_
  · cases ready with
    | false => exact Triple.pure fun _ _ h => h.1
    | true =>
      refine Triple.attempt ?_
      have hopened : ∀ h : Host, Kept (root ++ [name]) fs h.fs →
          h.fs.isDir (root ++ [name]) = true → Kept (root ++ [name]) fs
          (Work.update (ε := OSError) (fun h : Host => (h.fs.openAppend
            (join (root ++ [name]) [MANIFEST_NAME]) 0o600#12).map fun (i, fs) =>
              (i, { h with fs := fs })) h).2.fs := by
        intro h hk hdir
        rw [Work.update]
        cases hok : h.fs.openAppend (join (root ++ [name]) [MANIFEST_NAME]) 0o600#12 with
        | error e => exact hk
        | ok r => exact openAppend_kept hroot hname hk hdir hok
      refine Triple.of_call (fun h => Kept (root ++ [name]) fs h.fs ∧
        h.fs.isDir (root ++ [name]) = true) (fun _ _ h => ⟨trivial, h.1, h.2 rfl⟩)
        (fun h _ hp => ⟨trivial, ?_⟩) fun e done h _ _ hp => ?_
      · have hk := hopened h hp.1 hp.2
        split <;> exact hk
      · cases done with
        | true => exact hopened h hp.1 hp.2
        | false => exact hp.1
  · cases fp with
    | some _ => exact Triple.pure fun _ _ h => h
    | none => exact manifestCall_kept (fun _ h => h) fun h fs' hk hok => Except.ok.inj hok ▸ hk

end Spec

end Scratch
