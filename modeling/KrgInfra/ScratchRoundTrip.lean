/-
Archive, then restore.

`restore_one` run by root on the link that `archive_one` left brings the content,
the owner and the mtime back.  The mode comes back only where `chown` clears no bit
of it: scratch-restore calls `fchmod` before `fchown`, where scratch-overflow has
the two the other way round.

* `restored_of_swapped` — the composition, from the two specifications;
* `archive_restore` — the file is the same exactly when `dropSetId` keeps its mode.
-/
import KrgInfra.ArchiveSafety
import KrgInfra.RestoreSafety

namespace Scratch

open Posix

/-- The modes that a `chown` leaves alone. -/
def KeepsMode (m : BitVec 12) : Prop :=
  m &&& setuid = 0 ∧ m &&& (setgid ||| groupExec) ≠ setgid ||| groupExec

instance (m : BitVec 12) : Decidable (KeepsMode m) := inferInstanceAs (Decidable (_ ∧ _))

theorem dropSetId_eq_self_iff : ∀ m : BitVec 12, dropSetId m = m ↔ KeepsMode m := by
  decide +kernel

namespace Demotion

/-- Who restores the file of a demotion: root, with nobody else at work.  The random
name is not the file's own, and when the scratch tier gives back other bytes than
were written, their digest differs. -/
structure Admin (d : Demotion) (env : RestoreEnv) : Prop where
  root : env.euid = 0
  quiet : ∀ i h, env.before i h = h
  unique : tmpName "sr" env.urandom ≠ d.name
  stored : ∀ b, env.stored = some b → d.sha256 b ≠ d.sha256 d.f₀.data

/-- The restore of the file a demotion has moved, started on the host `h`. -/
def back (d : Demotion) (env : RestoreEnv) (h : Host) (i : ℕ) : Restoration where
  sha256 := d.sha256
  env := env
  dir := d.scratch ++ d.sub
  name := d.name
  cdir := d.cold ++ d.sub
  cname := d.name
  h₀ := h
  i₀ := i

/-- The file of the demotion is back on the scratch tier, with its content, owner,
mode and mtime. -/
def Same (d : Demotion) (h : Host) : Prop :=
  ∃ i, h.fs.node d.src = some (.file i) ∧ (h.fs.inode i).data = d.f₀.data ∧
    (h.fs.inode i).perm = d.f₀.perm ∧ (h.fs.inode i).mtime = d.f₀.mtime

/-- `restore_one` of the path of the demotion, on the host `h`. -/
def restored (d : Demotion) (env : RestoreEnv) (scratch_roots cold_roots : List Path)
    (pairs : List (Path × Path)) (keep_cold : Bool) (h : Host) : Except OSError Bool × Trace Host :=
  outcomeOf (restore_one d.sha256 env d.src scratch_roots cold_roots pairs keep_cold) h

variable {d : Demotion} (hs : d.Start) (hf : d.Fair) (hreg : d.Regular)

include hs hf hreg in
/-- A demotion that has replaced the file by its link has ended in `Swapped`. -/
theorem swapped_of_link {dry_run : Bool} {reason : Reason} {t : Target}
    (hlink : (d.moved dry_run reason).fs.node d.src = some (.link t)) :
    d.Swapped (d.moved dry_run reason) := by
  have hrun := (archive_one_spec hs hf hreg dry_run reason).of_start (.inl base_start) rfl
  rcases hrun.1 _ (Trace.now_mem _) with hb | hl | hw
  · rcases hb.source with hc | ⟨⟨-, hn⟩ | ⟨i, hn, -⟩, -⟩
    · exact absurd (hlink.symm.trans (hc.file hreg)) (by simp)
    · exact absurd (hlink.symm.trans hn) (by simp)
    · exact absurd (hlink.symm.trans hn) (by simp)
  · exact absurd (hlink.symm.trans (hl.clean.file hreg)) (by simp)
  · exact hw

include hs in
/-- The state a demotion leaves is one that `restore_one` starts from. -/
theorem Swapped.back_start {h : Host} (hw : d.Swapped h) {env : RestoreEnv} (ha : d.Admin env) :
    ∃ i, (d.back env h i).Start ∧ d.Copied (h.fs.inode i) := by
  obtain ⟨hd, i, hn, -, hcopy⟩ := hw.copy
  refine ⟨i, ⟨hw.frame.realDir hs.realSrc, hs.plain, hw.link, hd, hs.plain, hn, ha.unique, ?_, ha.quiet,
    ?_⟩, hcopy⟩
  · show d.cold ++ d.sub ++ [d.name] ≠ d.scratch ++ d.sub ++ [tmpName "sr" env.urandom]
    rw [List.append_assoc, List.append_assoc]
    exact ne_of_cold hs (List.prefix_append _ _) _
  · intro b hb
    show d.sha256 b ≠ d.sha256 (h.fs.inode i).data
    rw [hcopy.1]
    exact ha.stored b hb

/-- What root's restore brings back. -/
theorem restored_same {h h' : Host} {env : RestoreEnv} {i : ℕ} (hcopy : d.Copied (h.fs.inode i))
    (ha : d.Admin env) (hr : (d.back env h i).Restored h') :
    d.Same h' ↔ dropSetId d.f₀.perm.mode = d.f₀.perm.mode := by
  obtain ⟨j, hn, -, hdata, hmtime, hmode, howner⟩ := hr.file
  obtain ⟨huid, hgid⟩ := howner ha.root
  have hmode' : (h'.fs.inode j).perm.mode = dropSetId d.f₀.perm.mode := by
    rw [hmode, Restoration.restoredMode]
    rw [if_pos (show (d.back env h i).env.euid = 0 from ha.root)]
    show dropSetId (h.fs.inode i).perm.mode = _
    rw [hcopy.2.1]
  have hnode : h'.fs.node d.src = some (.file j) := hn
  have hperm : (h.fs.inode i).perm = d.f₀.perm := hcopy.2.1
  constructor
  · rintro ⟨k, hk, -, hp, -⟩
    rw [hnode, Option.some_inj, Node.file.injEq] at hk
    subst hk
    rw [← hmode', hp]
  · intro hkeep
    refine ⟨j, hnode, hdata.trans hcopy.1, Perm.ext ?_ ?_ ?_, hmtime.trans hcopy.2.2⟩
    · exact huid.trans (congrArg Perm.uid hperm)
    · exact hgid.trans (congrArg Perm.gid hperm)
    · exact hmode'.trans hkeep

include hs hf hreg in
/-- Root's `restore_one` of the link that `archive_one` left gives the same file back
exactly when its mode has no setuid bit, and no setgid bit beside group execute. -/
theorem archive_restore (dry_run : Bool) (reason : Reason) {env : RestoreEnv} (ha : d.Admin env)
    (scratch_roots cold_roots : List Path) (pairs : List (Path × Path)) (keep_cold : Bool)
    {t : Target} (hlink : (d.moved dry_run reason).fs.node d.src = some (.link t))
    (hok : (d.restored env scratch_roots cold_roots pairs keep_cold
      (d.moved dry_run reason)).1.toOption = some true) :
    d.Same (d.restored env scratch_roots cold_roots pairs keep_cold
      (d.moved dry_run reason)).2.now ↔ KeepsMode d.f₀.perm.mode := by
  have hw := swapped_of_link hs hf hreg hlink
  obtain ⟨i, hstart, hcopy⟩ := hw.back_start hs ha
  have hdone := (Restoration.restore_one_spec hstart _ _ _ _).of_answer trivial rfl hok
  rw [← dropSetId_eq_self_iff]
  refine restored_same hcopy ha ?_
  rcases hdone with ⟨hc, -⟩ | hr
  · exact absurd hc (by simp)
  · exact hr

/-- A file of three bytes with the mode `mode`, and nobody else at work. -/
def alone (mode : BitVec 12) : Demotion where
  sha256 b := toString b.length
  env := { cp := ⟨2, fun _ _ => 1⟩, urandomPart := "0", urandomLink := "1" }
  scratch := ["scratch"]
  cold := ["cold"]
  sub := []
  name := "a"
  h₀ := { fs := smallTiers ⟨[1, 2, 3], ⟨1000, 100, mode⟩, 0, 0, 0⟩, latest := some [1, 2, 3] }
  i₀ := 0

/-- Root's restore of it. -/
def admin : RestoreEnv := { cp := ⟨2, fun _ _ => 1⟩, urandom := "2" }

theorem alone_start (mode : BitVec 12) : (alone mode).Start where
  realSrc := FS.realDir_nil.concat (by decide) rfl
  plain := show Plain "a" by decide
  realCold := FS.realDir_nil.concat (by decide) rfl
  notCold := show ¬ ["cold"] <+: ["scratch"] by decide
  notScratch := show ¬ ["scratch"] <+: ["cold"] by decide
  uniquePart := show tmpName "so" "0" ≠ "a" by decide
  uniqueLink := show tmpName "so" "1" ≠ "a" by decide

theorem alone_regular (mode : BitVec 12) : (alone mode).Regular := ⟨rfl, rfl⟩

theorem alone_fair (mode : BitVec 12) : (alone mode).Fair where
  first := rfl
  late _ _ := rfl
  regular _ _ := alone_regular mode
  changes _ _ _ _ h := absurd h List.not_mem_nil
  stored _ h := absurd h (by simp [alone])

theorem alone_admin (mode : BitVec 12) : (alone mode).Admin admin where
  root := rfl
  quiet _ _ := rfl
  unique := show tmpName "sr" "2" ≠ "a" by decide
  stored _ h := absurd h (by simp [admin])

theorem archive_restore_alone :
    (alone 0o644#12).Same ((alone 0o644#12).restored admin [["scratch"]] [["cold"]]
      [(["scratch"], ["cold"])] false ((alone 0o644#12).moved false .ttl)).2.now ↔
    KeepsMode (alone 0o644#12).f₀.perm.mode :=
  archive_restore (t := ⟨true, ["cold", "a"]⟩) (alone_start _) (alone_fair _) (alone_regular _)
    false .ttl (alone_admin _) [["scratch"]] [["cold"]] [(["scratch"], ["cold"])] false
    (by decide +kernel) (by decide +kernel)

/-- A setuid file comes back without its setuid bit, though `restore_one` answers
`true`. -/
theorem archive_restore_setuid :
    ((alone 0o4755#12).moved false .ttl).fs.node (alone 0o4755#12).src =
        some (.link ⟨true, ["cold", "a"]⟩) ∧
      ((alone 0o4755#12).restored admin [["scratch"]] [["cold"]] [(["scratch"], ["cold"])] false
        ((alone 0o4755#12).moved false .ttl)).1.toOption = some true ∧
      ¬ (alone 0o4755#12).Same ((alone 0o4755#12).restored admin [["scratch"]] [["cold"]]
        [(["scratch"], ["cold"])] false ((alone 0o4755#12).moved false .ttl)).2.now := by
  refine ⟨by decide +kernel, by decide +kernel, ?_⟩
  rintro ⟨i, hn, -, hperm, -⟩
  have hfile : ((alone 0o4755#12).restored admin [["scratch"]] [["cold"]]
      [(["scratch"], ["cold"])] false ((alone 0o4755#12).moved false .ttl)).2.now.fs.node
        (alone 0o4755#12).src = some (.file 2) := by
    decide +kernel
  have hmode : (((alone 0o4755#12).restored admin [["scratch"]] [["cold"]]
      [(["scratch"], ["cold"])] false ((alone 0o4755#12).moved false .ttl)).2.now.fs.inode
        2).perm.mode = 0o755#12 := by
    decide +kernel
  rw [hfile, Option.some_inj, Node.file.injEq] at hn
  rw [← hn] at hperm
  rw [hperm] at hmode
  exact absurd hmode (by decide)

end Demotion

end Scratch
