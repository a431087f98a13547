/-
What `restore_one` leaves, whatever fails.

A `Restoration` is one call of `restore_one` on the link `dir/name` that points at
the cold file `cdir/cname`, with nobody else at work.  Until the copy is renamed
over the link only the temporary has changed (`Idle`); after that the link's place
holds a regular file (`Restored`), and only then is the cold copy removed.

* `restore_copy_spec` — the `try` block;
* `restore_one_spec` — the whole: `Idle`, or `Restored` with the answer `true`.
-/
import KrgInfra.RestoreOne

namespace Scratch

open Posix

/-- One call of `restore_one`: its environment, the link, its target, the host it
starts from and the inode of the target. -/
structure Restoration where
  sha256 : Bytes → String
  env : RestoreEnv
  dir : Path
  name : String
  cdir : Path
  cname : String
  h₀ : Host
  i₀ : ℕ

namespace Restoration

section States

variable (r : Restoration)

def link : Path := r.dir ++ [r.name]

def target : Path := r.cdir ++ [r.cname]

/-- The copy's temporary, next to the link. -/
def partTmp : Path := r.dir ++ [tmpName "sr" r.env.urandom]

/-- The cold file. -/
def f₀ : Inode := r.h₀.fs.inode r.i₀

/-- The answer of the first stat of the target. -/
def st₀ : FS.Stat :=
  ⟨.file r.i₀, some r.i₀, r.f₀.data.length, r.h₀.fs.alloc r.f₀.data, r.f₀.perm, r.f₀.atime,
    r.f₀.mtime, r.f₀.ctime⟩

/-- A link in a real directory, to a regular file in a real directory.  Nobody else
is at work, and when the scratch tier gives back other bytes than were written,
their digest differs. -/
structure Start : Prop where
  realDir : r.h₀.fs.RealDir r.dir
  plain : Plain r.name
  isLink : r.h₀.fs.node r.link = some (.link ⟨true, r.target⟩)
  realCold : r.h₀.fs.RealDir r.cdir
  plainCold : Plain r.cname
  regular : r.h₀.fs.node r.target = some (.file r.i₀)
  unique : tmpName "sr" r.env.urandom ≠ r.name
  apart : r.target ≠ r.partTmp
  quiet : ∀ i h, r.env.before i h = h
  stored : ∀ b, r.env.stored = some b → r.sha256 b ≠ r.sha256 r.f₀.data

/-- Only the temporary has changed, and it is no directory if it was free. -/
structure Idle (h : Host) : Prop where
  frame : FS.SameBut (· = r.partTmp) (fun _ => False) r.h₀.fs h.fs
  tmp : r.h₀.fs.node r.partTmp = none → h.fs.isDir r.partTmp = false

/-- And it holds our file `fd`, of which `R` is true. -/
structure Held (fd : ℕ) (R : Inode → Prop) (h : Host) : Prop where
  idle : r.Idle h
  node : h.fs.node r.partTmp = some (.file fd)
  ours : r.h₀.fs.nextIno ≤ fd
  file : R (h.fs.inode fd)

/-- The mode that the metadata calls leave: root's `fchown` comes after `fchmod`. -/
def restoredMode : BitVec 12 :=
  if r.env.euid = 0 then dropSetId r.f₀.perm.mode else r.f₀.perm.mode

/-- A file with the content, the mtime and, when root restores it, the owner of the
cold one. -/
def Copied (f : Inode) : Prop :=
  f.data = r.f₀.data ∧ f.mtime = r.f₀.mtime ∧ f.perm.mode = r.restoredMode ∧
    (r.env.euid = 0 → f.perm.uid = r.f₀.perm.uid ∧ f.perm.gid = r.f₀.perm.gid)

/-- The file is back; the cold copy may be gone. -/
structure Restored (h : Host) : Prop where
  frame : FS.SameBut (fun p => p = r.partTmp ∨ p = r.link ∨ p = r.target) (fun _ => False)
    r.h₀.fs h.fs
  tmp : h.fs.node r.partTmp = none
  file : ∃ fd, h.fs.node r.link = some (.file fd) ∧ r.h₀.fs.nextIno ≤ fd ∧
    r.Copied (h.fs.inode fd)
  cold : h.fs.node r.target = some (.file r.i₀) ∨ h.fs.node r.target = none

end States

variable {r : Restoration} (hs : r.Start)

include hs

theorem partTmp_ne_link : r.partTmp ≠ r.link := by
  intro h
  exact hs.unique (List.append_cancel_left h |> List.singleton_inj.mp)

theorem link_ne_target : r.link ≠ r.target := by
  intro h
  have := hs.isLink
  rw [h, hs.regular] at this
  exact absurd this (by simp)

theorem ino_lt : r.i₀ < r.h₀.fs.nextIno := r.h₀.fs.fresh _ _ hs.regular

omit hs in
theorem Idle.of_file {h : Host} {fd : ℕ}
    (hc : FS.SameBut (· = r.partTmp) (fun _ => False) r.h₀.fs h.fs)
    (hn : h.fs.node r.partTmp = some (.file fd)) : r.Idle h :=
  ⟨hc, fun _ => FS.isDir_of_node (by simp [partTmp]) hn⟩

omit hs in
theorem idle_start : r.Idle r.h₀ := by
  refine ⟨FS.SameBut.refl _, fun hn => ?_⟩
  by_contra hd
  obtain ⟨m, hm⟩ := FS.isDir_append ((Bool.not_eq_false _).mp hd)
  exact absurd (hn.symm.trans hm) (by simp)

theorem Idle.target {h : Host} (hi : r.Idle h) : h.fs.node r.target = some (.file r.i₀) :=
  (hi.frame.node _ hs.apart).trans hs.regular

theorem Idle.locate_part {h : Host} (hi : r.Idle h) : h.fs.locate r.partTmp = .ok r.partTmp :=
  FS.locate_real (hi.frame.realDir hs.realDir) (tmpName_plain _ _)

theorem stat_start : r.h₀.fs.stat r.target = .ok r.st₀ := by
  rw [FS.stat, target, FS.resolve_real hs.realCold hs.plainCold fun t ht =>
    absurd (hs.regular.symm.trans ht) (by simp)]
  simp only [bind, Except.bind]
  show r.h₀.fs.statAt r.target = _
  rw [FS.statAt, hs.regular]
  rfl

/-! ### The calls -/

theorem keep {P : Host → Prop} {i : RestoreSite} : ∀ h, True → P h →
    True ∧ P (r.env.toEnv.before i h) := by
  intro h _ hp
  refine ⟨trivial, ?_⟩
  show P (r.env.before i h)
  rwa [hs.quiet]

/-- A call that only looks. -/
theorem look {α : Type} {i : RestoreSite} {f : FS → Except OSError α} {P : Host → Prop} :
    Triple (fun _ => True) P (rsys r.env i (ask f)) (fun a h => P h ∧ f h.fs = .ok a)
      (fun _ => P) :=
  (Triple.of_ask (keep hs)).except fun _ _ _ h => h.1

/-- A call through a descriptor that changes nothing. -/
theorem rest {i : RestoreSite} {P : Host → Prop} :
    Triple (fun _ => True) P (rsys r.env i (changeFd id)) (fun _ => P) (fun _ => P) := by
  refine Triple.of_change (keep hs) ?_ (fun _ hp _ => hp) fun _ hp => hp
  intro h fs' hp hr
  obtain rfl : h.fs = fs' := Except.ok.inj hr
  exact ⟨hp, trivial⟩

/-- A call through the descriptor of our file. -/
theorem held_fd {i : RestoreSite} {fd : ℕ} {R S : Inode → Prop} {g : FS → FS} {f : FS → Inode}
    (hg : ∀ fs, g fs = fs.setInode fd (f fs)) (hR : ∀ fs, R (fs.inode fd) → S (f fs)) :
    Triple (fun _ => True) (r.Held fd R) (rsys r.env i (changeFd g)) (fun _ => r.Held fd S)
      (fun _ => r.Idle) := by
  refine Triple.of_change (keep hs) ?_ (fun _ hh _ => hh.idle) fun _ hh => hh.idle
  intro h fs' hh hg'
  have hfs : fs' = h.fs.setInode fd (f h.fs) := by
    rw [← hg]
    exact (Except.ok.inj hg').symm
  subst hfs
  have hsame := @FS.sameBut_setInode h.fs fd (f h.fs)
  refine ⟨⟨⟨hh.idle.frame.extend hsame (fun _ hn => hn.elim) ?_, hh.idle.tmp⟩, hh.node, hh.ours, ?_⟩,
    trivial⟩
  · rintro i hi rfl
    exact absurd hh.ours (Nat.not_le.mpr hi)
  · simpa using hR _ hh.file

/-- Removing the temporary. -/
theorem unlinkPart_spec {i : RestoreSite} :
    Triple (fun _ => True) r.Idle (rsys r.env i (change (·.unlink r.partTmp)))
      (fun _ h => r.Idle h ∧ h.fs.node r.partTmp = none)
      (fun _ h => r.Idle h ∧ (r.env.outcome i = .ok → r.h₀.fs.node r.partTmp = none →
        h.fs.node r.partTmp = none)) := by
  refine Triple.of_change (keep hs) ?_ ?_ fun h hq => ⟨hq.1, fun _ _ => hq.2⟩
  · intro h fs' hi hu
    obtain ⟨q, hdir, hq, rfl⟩ := FS.unlink_ok hu
    rw [hi.locate_part hs, Except.ok.injEq] at hq
    subst hq
    have hsame := FS.sameBut_clearNode hdir
    refine ⟨⟨⟨hi.frame.extend hsame (fun _ hp => hp) fun _ _ hF => hF.elim, fun _ => ?_⟩,
      by simp⟩, trivial⟩
    simp [FS.isDir, partTmp]
  · intro h hi hfail
    refine ⟨hi, fun hok hfree => ?_⟩
    obtain ⟨e, he⟩ := hfail hok
    rcases hn : h.fs.node r.partTmp with _ | n
    · rfl
    · rw [FS.unlink, hi.locate_part hs] at he
      simp [bind, Except.bind, hn, hi.tmp hfree] at he

/-- `if os.path.lexists(part): os.unlink(part)` -/
theorem unlinkIfThere_spec {i j : RestoreSite} :
    Triple (fun _ => True) r.Idle (unlinkIfThere r.env.toEnv i j r.partTmp) (fun _ => r.Idle)
      (fun _ => r.Idle) := by
  refine Triple.bind (Q := fun _ => r.Idle) (Triple.map (Q := fun _ => r.Idle)
    (Triple.attempt ((look hs).conseq (fun _ _ h => h) (fun _ _ _ h => h.1) fun _ _ _ h => h))
    fun _ _ _ h => h) fun there => ?_
  cases there with
  | false => exact Triple.pure fun _ _ h => h
  | true => exact (unlinkPart_spec hs).conseq (fun _ _ h => h) (fun _ _ _ h => h.1) fun _ _ _ h => h.1

/-! ### The copy -/

/-- The new file of the copy. -/
theorem Idle.create {h : Host} {fs' : FS} {fd : ℕ} {mode : BitVec 12} (hi : r.Idle h)
    (hc : h.fs.createExcl r.partTmp mode = .ok (fd, fs')) :
    r.Held fd (fun f => f.data = []) { h with fs := fs' } := by
  have hsame := FS.sameBut_createExcl hc
  obtain ⟨rfl, hcreate⟩ := FS.createExcl_ok hc
  obtain ⟨q, hset, hq, -, rfl⟩ := FS.create_ok hcreate
  rw [FS.locate_newInode, hi.locate_part hs, Except.ok.injEq] at hq
  subst hq
  have hn : ((h.fs.newInode _).setNode r.partTmp (.file h.fs.nextIno) hset).node r.partTmp =
      some (.file h.fs.nextIno) := by
    rw [FS.node_setNode, Function.update_self]
  refine ⟨Idle.of_file (hi.frame.extend hsame ?_ fun _ _ hF => hF.elim) hn, hn,
    hi.frame.nextIno, by simp⟩
  intro p hp
  rw [hi.locate_part hs, Except.ok.injEq] at hp
  exact hp.symm

theorem copy_and_hash_spec :
    Triple (fun _ => True) r.Idle
      (copy_and_hash r.sha256 r.env.toEnv .copy r.env.cp r.target r.partTmp)
      (fun x h => ∃ read, x.1 = r.sha256 read ∧ x.2.1 = read.length ∧ read <+: r.f₀.data ∧
        r.Held x.2.2 (fun f => f.data = read) h) (fun _ => r.Idle) := by
  refine (copy_and_hash_rule (O := fun src_fd h => src_fd = r.i₀ ∧ r.Idle h)
    (H := fun src_fd fd data acc h => src_fd = r.i₀ ∧ acc <+: r.f₀.data ∧
      r.Held fd (fun f => f.data = data) h) ?_ ?_ ?_ ?_ ?_).conseq (fun _ _ h => h) ?_
        fun _ _ _ h => h
  · refine (look hs).conseq (fun _ _ h => h) ?_ fun _ _ _ h => h
    rintro src_fd h - ⟨hi, ho⟩
    obtain ⟨q, hq, hn⟩ := FS.openRead_ok ho
    rw [target, FS.locate_real (hi.frame.realDir hs.realCold) hs.plainCold, Except.ok.injEq] at hq
    obtain rfl : r.target = q := hq
    rw [hi.target hs, Option.some_inj, Node.file.injEq] at hn
    exact ⟨hn.symm, hi⟩
  · intro src_fd
    refine Triple.of_call (fun h => src_fd = r.i₀ ∧ r.Idle h) (keep hs) ?_ ?_
    · rintro h - ⟨rfl, hi⟩
      refine ⟨trivial, ?_⟩
      cases hc : h.fs.createExcl r.partTmp 0o600#12 with
      | error e =>
        simp only [Work.update, hc, Except.map]
        exact hi
      | ok x =>
        simp only [Work.update, hc, Except.map]
        exact ⟨trivial, List.nil_prefix, hi.create hs hc⟩
    · rintro e (_ | _) h - - ⟨-, hi⟩
      · exact hi
      · cases hc : h.fs.createExcl r.partTmp 0o600#12 with
        | error e =>
          simp only [Work.update, hc, Except.map]
          exact hi
        | ok x =>
          simp only [Work.update, hc, Except.map]
          exact (hi.create hs hc).idle
  · intro src_fd fd k acc
    refine (look hs).conseq (fun _ _ h => h) ?_ fun _ _ _ h => h.2.2.idle
    rintro buf h - ⟨⟨rfl, ⟨t, ht⟩, hh⟩, ho⟩
    refine ⟨rfl, ?_, hh⟩
    have hi : h.fs.inode r.i₀ = r.f₀ := hh.idle.frame.inode _ (ino_lt hs) fun hF => hF
    rw [← Except.ok.inj ho, hi, ← ht, List.drop_left]
    exact (List.prefix_append_right_inj acc).mpr (List.take_prefix _ t)
  · intro src_fd fd data acc bs k j _
    refine Triple.of_fact fun hsrc => Triple.of_fact fun hacc => ?_
    refine (held_fd hs (S := fun f => f.data = data ++ bs) (fun _ => rfl) ?_).conseq
      (fun _ _ h => h) (fun _ _ _ h => ⟨hsrc, hacc, h⟩) fun _ _ _ h => h
    rintro fs rfl
    rfl
  · exact fun src_fd fd read i => (rest hs).except fun _ _ _ h => h.2.2.idle
  · rintro x h - ⟨src_fd, read, hsha, hn, -, hpre, hh⟩
    exact ⟨read, hsha, hn, hpre, hh⟩

/-! ### Verifying and publishing -/

/-- The host once the copy is read again. -/
def rereadHost (env : RestoreEnv) (fd : ℕ) (h : Host) : Host :=
  { h with fs := match env.stored with
    | some b => h.fs.setInode fd { h.fs.inode fd with data := b }
    | none => h.fs }

/-- The copy matches only when it is the cold file's content. -/
theorem copy_matches_spec {fd : ℕ} {read : Bytes} (hpre : read <+: r.f₀.data) :
    Triple (fun _ => True) (r.Held fd (fun f => f.data = read))
      (copy_matches r.sha256 r.env r.st₀ (r.sha256 read) read.length fd)
      (fun ok h => r.Idle h ∧ (ok = true → r.Held fd (fun f => f.data = r.f₀.data) h))
      (fun _ => r.Idle) := by
  rw [copy_matches]
  by_cases hlen : read.length ≠ r.st₀.size
  · rw [if_pos hlen]
    exact Triple.pure fun _ _ hh => ⟨hh.idle, fun hc => absurd hc (by simp)⟩
  rw [if_neg hlen]
  obtain rfl : read = r.f₀.data := hpre.eq_of_length (not_not.mp hlen)
  have hreread : ∀ h, r.Held fd (fun f => f.data = r.f₀.data) h →
      r.Held fd (fun f => f.data = r.env.stored.getD r.f₀.data) (rereadHost r.env fd h) := by
    intro h hh
    unfold rereadHost
    cases hst : r.env.stored with
    | none => exact hh
    | some b =>
      have hsame := @FS.sameBut_setInode h.fs fd { h.fs.inode fd with data := b }
      refine ⟨⟨hh.idle.frame.extend hsame (fun _ hn => hn.elim) ?_, hh.idle.tmp⟩, hh.node, hh.ours,
        by simp⟩
      rintro i hi rfl
      exact absurd hh.ours (Nat.not_le.mpr hi)
  refine Triple.bind (Q := fun sha h => sha = r.sha256 (r.env.stored.getD r.f₀.data) ∧
    r.Held fd (fun f => f.data = r.env.stored.getD r.f₀.data) h) ?_ fun sha => ?_
  · rw [reread_sha256, rsys]
    refine Triple.of_call (r.Held fd fun f => f.data = r.f₀.data) (keep hs) ?_ ?_
    · intro h _ hh
      have hh' := hreread h hh
      exact ⟨trivial, congrArg r.sha256 hh'.file, hh'⟩
    · rintro e (_ | _) h - - hh
      · exact hh.idle
      · exact (hreread h hh).idle
  · refine Triple.pure ?_
    rintro h - ⟨rfl, hh⟩
    refine ⟨hh.idle, fun hok => ?_⟩
    have hsha := of_decide_eq_true hok
    cases hst : r.env.stored with
    | none => rwa [hst] at hh
    | some b =>
      rw [hst] at hsha
      exact absurd hsha (hs.stored b hst)

/-- The metadata calls, in their order: `fchmod`, `utime`, and for root `fchown`. -/
theorem restore_meta_spec {fd : ℕ} :
    Triple (fun _ => True) (r.Held fd (fun f => f.data = r.f₀.data))
      (restore_meta r.env r.st₀ fd) (fun _ => r.Held fd r.Copied) (fun _ => r.Idle) := by
  refine Triple.bind (held_fd hs (fun _ => rfl) (S := fun f => f.data = r.f₀.data ∧
    f.perm.mode = r.f₀.perm.mode) fun _ hR => ⟨hR, rfl⟩) fun _ => ?_
  refine Triple.bind (held_fd hs (fun _ => rfl) (S := fun f => f.data = r.f₀.data ∧
    f.mtime = r.f₀.mtime ∧ f.perm.mode = r.f₀.perm.mode) fun _ hR => ⟨hR.1, rfl, hR.2⟩) fun _ => ?_
  refine Triple.bind (Q := fun _ => r.Held fd r.Copied) ?_ fun _ =>
    (rest hs).except fun _ _ _ hh => hh.idle
  rw [restore_owner]
  by_cases he : r.env.euid = 0
  · rw [if_pos he]
    refine held_fd hs (fun _ => rfl) ?_
    rintro fs ⟨hdata, hmtime, hmode⟩
    refine ⟨hdata, hmtime, ?_, fun _ => ⟨rfl, rfl⟩⟩
    rw [restoredMode, if_pos he, ← hmode]
  · rw [if_neg he]
    refine Triple.pure ?_
    rintro h - ⟨hi, hn, ho, hdata, hmtime, hmode⟩
    refine ⟨hi, hn, ho, hdata, hmtime, ?_, fun hc => absurd hc he⟩
    rw [hmode, restoredMode, if_neg he]

theorem restore_verify_spec {fd : ℕ} {read : Bytes} (hpre : read <+: r.f₀.data) :
    Triple (fun _ => True) (r.Held fd (fun f => f.data = read))
      (restore_verify r.sha256 r.env r.st₀ r.target r.partTmp (r.sha256 read) read.length fd)
      (fun ok h => (ok = false ∧ r.Idle h ∧ h.fs.node r.partTmp = none) ∨
        (ok = true ∧ r.Held fd r.Copied h)) (fun _ => r.Idle) := by
  have hunlink : ∀ i, Triple (fun _ => True) r.Idle
      (rsys r.env i (change (·.unlink r.partTmp)))
      (fun _ h => r.Idle h ∧ h.fs.node r.partTmp = none) (fun _ => r.Idle) := fun i =>
    (unlinkPart_spec hs).except fun _ _ _ h => h.1
  refine Triple.bind (copy_matches_spec hs hpre) fun same => ?_
  cases same with
  | false =>
    refine Triple.bind ((hunlink _).weaken fun _ _ h => h.1) fun _ => ?_
    exact Triple.pure fun _ _ h => .inl ⟨rfl, h⟩
  | true =>
    refine Triple.bind ((restore_meta_spec hs).weaken fun _ _ h => h.2 rfl) fun _ => ?_
    refine Triple.bind (Q := fun _ => r.Held fd r.Copied) (Triple.attempt
      ((look hs).conseq (fun _ _ h => h) (fun _ _ _ h => h.1) fun _ _ _ h => h)) fun tcur => ?_
    by_cases hid : tcur.map identity ≠ some (identity r.st₀)
    · rw [if_pos hid]
      refine Triple.bind ((hunlink _).weaken fun _ _ h => h.idle) fun _ => ?_
      exact Triple.pure fun _ _ h => .inl ⟨rfl, h⟩
    rw [if_neg hid]
    refine Triple.bind ((look hs).except fun _ _ _ h => h.idle) fun lp => ?_
    refine Triple.bind (((look hs).weaken fun _ _ h => h.1).except fun _ _ _ h => h.idle)
      fun fst => ?_
    show Triple _ _ (if _ then _ else _) _ _
    by_cases hswapped : lp.node.isLink = true ∨ lp.ino ≠ fst.ino
    · rw [if_pos hswapped]
      exact Triple.throw fun _ _ h => h.1.idle
    · rw [if_neg hswapped]
      exact Triple.pure fun _ _ h => .inr ⟨rfl, h.1⟩

/-- The copy takes the place of the link in one step. -/
theorem replaceLink_spec (fd : ℕ) :
    Triple (fun _ => True) (r.Held fd r.Copied)
      (rsys r.env .replaceLink (change (·.replace r.partTmp r.link)))
      (fun _ => r.Restored) (fun _ h => r.Idle h ∨ r.Restored h) := by
  refine Triple.of_change (keep hs) ?_ (fun _ hh _ => .inl hh.idle) fun _ hr => .inr hr
  intro h fs' hh hrep
  refine ⟨?_, trivial⟩
  have hsame := FS.sameBut_replace hrep
  have hpart := hh.idle.locate_part hs
  have hlink : h.fs.locate r.link = .ok r.link :=
    FS.locate_real (hh.idle.frame.realDir hs.realDir) hs.plain
  obtain ⟨q, q', n, hq, hq', hn, hcase⟩ := FS.replace_ok hrep
  rw [hpart, Except.ok.injEq] at hq
  rw [hlink, Except.ok.injEq] at hq'
  subst hq hq'
  rw [hh.node, Option.some_inj] at hn
  subst hn
  obtain ⟨heq, -⟩ | ⟨hne, hdir, hset, rfl⟩ := hcase
  · exact absurd heq (partTmp_ne_link hs)
  have hP : ∀ p, h.fs.locate r.partTmp = .ok p ∨ h.fs.locate r.link = .ok p →
      p = r.partTmp ∨ p = r.link := by
    rintro p (hp | hp)
    · rw [hpart, Except.ok.injEq] at hp
      exact .inl hp.symm
    · rw [hlink, Except.ok.injEq] at hp
      exact .inr hp.symm
  refine ⟨(hh.idle.frame.mono (fun _ hp => .inl hp) fun _ _ hF => hF).extend hsame ?_
    fun _ _ hF => hF.elim, ?_, ⟨fd, ?_, hh.ours, hh.file⟩, .inl ?_⟩
  · intro p hp
    rcases hP p hp with hp | hp
    · exact .inl hp
    · exact .inr (.inl hp)
  · rw [FS.node_setNode, Function.update_of_ne hne, FS.node_clearNode, Function.update_self]
  · rw [FS.node_setNode, Function.update_self]
  · rw [hsame.node, hh.idle.target hs]
    intro hp
    rcases hP _ hp with hp | hp
    · exact hs.apart hp
    · exact link_ne_target hs hp.symm

theorem restore_copy_spec :
    Triple (fun _ => True) r.Idle (restore_copy r.sha256 r.env r.st₀ r.link r.target r.partTmp)
      (fun ok h => (ok = false ∧ r.Idle h ∧ h.fs.node r.partTmp = none) ∨
        (ok = true ∧ r.Restored h)) (fun _ h => r.Idle h ∨ r.Restored h) := by
  refine Triple.bind ((unlinkIfThere_spec hs).except fun _ _ _ h => .inl h) fun _ => ?_
  refine Triple.bind ((copy_and_hash_spec hs).except fun _ _ _ h => .inl h) ?_
  rintro ⟨sha, n, fd⟩
  refine Triple.exists_pre fun read => Triple.of_fact ?_
  rintro rfl
  refine Triple.of_fact ?_
  rintro rfl
  refine Triple.of_fact fun hpre => ?_
  refine Triple.bind (Triple.withFinally (B := fun ok h =>
    (ok = false ∧ r.Idle h ∧ h.fs.node r.partTmp = none) ∨ (ok = true ∧ r.Held fd r.Copied h))
    (restore_verify_spec hs hpre) ?_ ?_) ?_
  · intro ok
    refine (rest hs).except ?_
    rintro e h - (⟨-, hi, -⟩ | ⟨-, hh⟩)
    · exact .inl hi
    · exact .inl hh.idle
  · exact fun e => (rest hs).conseq (fun _ _ h => h) (fun _ _ _ h => .inl h) fun _ _ _ h => .inl h
  · intro verified
    cases verified with
    | false =>
      refine Triple.pure ?_
      rintro h - (⟨-, hi⟩ | ⟨hc, -⟩)
      · exact .inl ⟨rfl, hi⟩
      · exact absurd hc (by simp)
    | true =>
      refine Triple.bind ((replaceLink_spec hs fd).weaken ?_) fun _ =>
        Triple.pure fun _ _ h => .inr ⟨rfl, h⟩
      rintro h - (⟨hc, -⟩ | ⟨-, hh⟩)
      · exact absurd hc (by simp)
      · exact hh

/-! ### The whole -/

/-- The temporary's name was free, and its cleanup meets no error. -/
def Tidy (r : Restoration) : Prop :=
  r.h₀.fs.node r.partTmp = none ∧ r.env.outcome .lexistsPartCleanup = .ok ∧
    r.env.outcome .unlinkPart = .ok

/-- The link is still there, and a tidy run has left no temporary. -/
def Kept (r : Restoration) (h : Host) : Prop :=
  r.Idle h ∧ (r.Tidy → h.fs.node r.partTmp = none)

theorem Restored.locate_part {h : Host} (hr : r.Restored h) :
    h.fs.locate r.partTmp = .ok r.partTmp :=
  FS.locate_real (hr.frame.realDir hs.realDir) (tmpName_plain _ _)

theorem cleanup_spec {E : OSError → Host → Prop} :
    Triple (fun _ => True) (fun h => r.Idle h ∨ r.Restored h)
      (cleanup r.env.toEnv .lexistsPartCleanup .unlinkPart r.partTmp)
      (fun _ h => r.Kept h ∨ r.Restored h) E := by
  have hloc : ∀ h, r.Idle h ∨ r.Restored h → h.fs.locate r.partTmp = .ok r.partTmp := by
    rintro h (hi | hr)
    · exact hi.locate_part hs
    · exact hr.locate_part hs
  have hlook : Triple (fun _ => True) (fun h => r.Idle h ∨ r.Restored h)
      (lexists r.env.toEnv .lexistsPartCleanup r.partTmp)
      (fun there h => (r.Idle h ∨ r.Restored h) ∧
        (there = false → r.Tidy → h.fs.node r.partTmp = none) ∧
        (there = true → h.fs.node r.partTmp ≠ none))
      (fun _ h => r.Kept h ∨ r.Restored h) := by
    refine Triple.map (Q := fun st h => (r.Idle h ∨ r.Restored h) ∧
      (st = none → r.Tidy → h.fs.node r.partTmp = none) ∧
      (st ≠ none → h.fs.node r.partTmp ≠ none)) (Triple.attempt ?_) ?_
    · refine (Triple.of_ask (i := RestoreSite.lexistsPartCleanup) (keep hs)).conseq
        (fun _ _ h => h) ?_ ?_
      · rintro st h - ⟨ho, hst⟩
        refine ⟨ho, fun hc => absurd hc (by simp), fun _ hn => ?_⟩
        rw [FS.lstat, hloc h ho] at hst
        simp [bind, Except.bind, FS.statAt, hn] at hst
      · rintro e h - ⟨ho, he⟩
        refine ⟨ho, fun _ ht => ?_, fun hc => absurd rfl hc⟩
        rcases hn : h.fs.node r.partTmp with _ | n
        · rfl
        · have := he ht.2.1
          rw [FS.lstat, hloc h ho] at this
          cases n <;> simp [bind, Except.bind, FS.statAt, hn] at this
    · rintro (_ | st) h - ⟨ho, hst⟩
      · exact ⟨ho, fun _ => hst.1 rfl, fun hc => absurd hc (by simp)⟩
      · exact ⟨ho, fun hc => absurd hc (by simp), fun _ => hst.2 (by simp)⟩
  refine Triple.attempt (Triple.bind hlook fun there => ?_)
  cases there with
  | false =>
    refine Triple.pure ?_
    rintro h - ⟨hi | hr, ht, -⟩
    · exact .inl ⟨hi, ht rfl⟩
    · exact .inr hr
  | true =>
    -- the temporary is there, so the link is
    refine (unlinkPart_spec hs).conseq ?_ (fun _ _ _ h => .inl ⟨h.1, fun _ => h.2⟩)
      fun _ _ _ h => .inl ⟨h.1, fun ht => h.2 ht.2.2 ht.1⟩
    rintro h - ⟨hi | hr, -, hn⟩
    · exact hi
    · exact absurd hr.tmp (hn rfl)

/-- Removing the cold copy leaves the file restored. -/
theorem drop_cold_spec {E : OSError → Host → Prop} :
    Triple (fun _ => True) r.Restored (drop_cold r.env r.st₀ r.target) (fun _ => r.Restored) E := by
  refine Triple.bind (Q := fun _ => r.Restored) (Triple.attempt
    ((look hs).conseq (fun _ _ h => h) (fun _ _ _ h => h.1) fun _ _ _ h => h)) fun tst2 => ?_
  by_cases hid : tst2.map identity = some (identity r.st₀)
  · rw [if_pos hid]
    refine Triple.attempt (Triple.of_change (keep hs) ?_ (fun _ hr _ => hr) fun _ hr => hr)
    intro h fs' hr hu
    obtain ⟨q, hdir, hq, rfl⟩ := FS.unlink_ok hu
    rw [target, FS.locate_real (hr.frame.realDir hs.realCold) hs.plainCold, Except.ok.injEq] at hq
    obtain rfl : r.target = q := hq
    have hsame := FS.sameBut_clearNode hdir
    obtain ⟨fd, hn, hge, hcopy⟩ := hr.file
    refine ⟨⟨hr.frame.extend hsame (fun _ hp => .inr (.inr hp)) fun _ _ hF => hF.elim, ?_,
      ⟨fd, ?_, hge, hcopy⟩, .inr (by simp)⟩, trivial⟩
    · exact (hsame.node _ hs.apart.symm).trans hr.tmp
    · exact (hsame.node _ (link_ne_target hs)).trans hn
  · rw [if_neg hid]
    exact Triple.pure fun _ _ h => h

/-- What `restore_one` ends with, by its answer. -/
def Done (r : Restoration) (ok : Bool) (h : Host) : Prop :=
  (ok = false ∧ r.Kept h) ∨ r.Restored h

theorem restore_target_spec {keep_cold : Bool} {E : OSError → Host → Prop} :
    Triple (fun _ => True) (· = r.h₀) (restore_target r.sha256 r.env r.link r.target keep_cold)
      r.Done E := by
  have hstart : r.Tidy → r.h₀.fs.node r.partTmp = none := fun ht => ht.1
  have hpart : tmp_sibling r.link "sr" r.env.urandom = r.partTmp := by
    rw [tmp_sibling, dirname, link, List.dropLast_concat, partTmp]
  refine Triple.bind (Q := fun tst h => (∀ st, tst = some st → st = r.st₀) ∧ h = r.h₀)
    (Triple.attempt ((look hs).conseq (fun _ _ h => h) ?_ ?_)) fun tst => Triple.of_fact ?_
  · rintro st h - ⟨rfl, hst⟩
    refine ⟨fun st' h' => ?_, rfl⟩
    rw [← Option.some_inj.mp h']
    exact Except.ok.inj (hst.symm.trans (stat_start hs))
  · rintro e h - rfl
    exact ⟨fun st hst => absurd hst (by simp), rfl⟩
  intro htst
  cases tst with
  | none =>
    refine Triple.pure ?_
    rintro h - rfl
    exact .inl ⟨rfl, idle_start, hstart⟩
  | some tst =>
    obtain rfl := htst tst rfl
    show Triple _ _ (if _ then _ else _) _ _
    rw [if_neg (by simp [st₀, Node.isFile])]
    simp only [hpart]
    refine Triple.bind (Q := fun ok h => (ok = false ∧ r.Kept h) ∨ r.Restored h)
      (Triple.tryCatch (E := fun _ h => r.Idle h ∨ r.Restored h) ?_ ?_) ?_
    · refine (restore_copy_spec hs).conseq ?_ ?_ fun _ _ _ h => h
      · rintro h - rfl
        exact idle_start
      · rintro ok h - (⟨hok, hi, hn⟩ | ⟨-, hr⟩)
        · exact .inl ⟨hok, hi, fun _ => hn⟩
        · exact .inr hr
    · intro e
      refine Triple.bind (cleanup_spec hs) fun _ => Triple.pure ?_
      rintro h - (hk | hr)
      · exact .inl ⟨rfl, hk⟩
      · exact .inr hr
    · intro restored
      cases restored with
      | false => exact Triple.pure fun _ _ h => h
      | true =>
        have hres : ∀ h, (true = false ∧ r.Kept h) ∨ r.Restored h → r.Restored h := by
          rintro h (⟨hc, -⟩ | hr)
          · exact absurd hc (by simp)
          · exact hr
        cases keep_cold with
        | true => exact Triple.pure fun _ h hr => .inr (hres _ hr)
        | false =>
          refine Triple.bind ((drop_cold_spec hs).weaken fun _ _ h => hres _ h) fun _ => ?_
          exact Triple.pure fun _ _ h => .inr h

omit hs in
/-- The checks change nothing, and let only the real path of a link's target
through. -/
theorem archive_target_spec {env : RestoreEnv} (hquiet : ∀ i h, env.before i h = h) {h₀ : Host}
    {dir : Path} {name : String} (hdir : h₀.fs.RealDir dir) (hname : Plain name)
    {scratch_roots cold_roots : List Path} {pairs : List (Path × Path)} :
    Triple (fun _ => True) (· = h₀)
      (archive_target env (dir ++ [name]) scratch_roots cold_roots pairs)
      (fun o h => (∀ p, o = some p → ∃ t, h₀.fs.node (dir ++ [name]) = some (.link t) ∧
        p = h₀.fs.realpath (absolute (dir ++ [name]) t)) ∧ h = h₀) (fun _ h => h = h₀) := by
  have hkeep : ∀ (P : Host → Prop) (i : RestoreSite) (h : Host), True → P h →
      True ∧ P (env.toEnv.before i h) := by
    intro P i h _ hp
    refine ⟨trivial, ?_⟩
    show P (env.before i h)
    rwa [hquiet]
  refine Triple.bind (Q := fun _ h => h = h₀) ?_ fun is_link => ?_
  · refine Triple.bind (Q := fun _ h => h = h₀) (Triple.attempt ((Triple.of_ask
      (i := RestoreSite.islink) (hkeep _ _)).conseq (fun _ _ h => h) (fun _ _ _ h => h.1)
      fun _ _ _ h => h.1)) fun st => Triple.pure fun _ _ h => h
  cases is_link with
  | false => exact Triple.pure fun _ _ h => ⟨fun p hc => absurd hc (by simp), h⟩
  | true =>
    refine Triple.bind Triple.of_peek fun link_parent => ?_
    show Triple _ _ (if _ then _ else _) _ _
    by_cases hparent : scratch_roots ≠ [] ∧ under_any link_parent scratch_roots = false
    · rw [if_pos hparent]
      exact Triple.pure fun _ _ h => ⟨fun p hc => absurd hc (by simp), h⟩
    rw [if_neg hparent]
    refine Triple.bind (Q := fun t h => h₀.fs.node (dir ++ [name]) = some (.link t) ∧ h = h₀)
      ((Triple.of_ask (i := RestoreSite.readlink) (hkeep _ _)).conseq (fun _ _ h => h) ?_
        fun _ _ _ h => h.1) fun t => Triple.of_fact fun ht => ?_
    · rintro t h - ⟨rfl, hr⟩
      exact ⟨FS.readlink_real hdir hname hr, rfl⟩
    refine Triple.bind (Q := fun target h => target = h₀.fs.realpath (absolute (dir ++ [name]) t) ∧
      h = h₀) ?_ fun target => Triple.of_fact ?_
    · rintro tr hI hP
      exact ⟨hI, by rw [hP], hP⟩
    rintro rfl
    refine Triple.bind Triple.of_peek fun ok => Triple.pure ?_
    rintro h - rfl
    refine ⟨fun p hp => ⟨t, ht, ?_⟩, rfl⟩
    cases ok with
    | false => exact absurd hp (by simp)
    | true => exact (Option.some_inj.mp hp).symm

/-- However `restore_one` is cut short: the link is still there with its target, or
the file is back. -/
theorem restore_one_spec (scratch_roots cold_roots : List Path) (pairs : List (Path × Path))
    (keep_cold : Bool) :
    Triple (fun _ => True) (· = r.h₀)
      (restore_one r.sha256 r.env r.link scratch_roots cold_roots pairs keep_cold)
      r.Done (fun _ h => h = r.h₀) := by
  refine Triple.bind (archive_target_spec hs.quiet hs.realDir hs.plain) fun target =>
    Triple.of_fact fun ht => ?_
  cases target with
  | none =>
    refine Triple.pure ?_
    rintro h - rfl
    exact .inl ⟨rfl, idle_start, fun ht => ht.1⟩
  | some p =>
    obtain ⟨t, hlink, hp⟩ := ht p rfl
    have htarget : p = r.target := by
      have hl : r.h₀.fs.node r.link = some (.link t) := hlink
      rw [hs.isLink, Option.some_inj, Node.link.injEq] at hl
      subst hl
      rw [hp, absolute, if_pos rfl]
      exact FS.realpath_real hs.realCold hs.plainCold fun t ht =>
        absurd (hs.regular.symm.trans ht) (by simp)
    subst htarget
    exact restore_target_spec hs

omit hs in
/-- Where there is no link, or its target has no file, `restore_one` changes
nothing. -/
theorem restore_one_idle {sha256 : Bytes → String} {env : RestoreEnv}
    (hquiet : ∀ i h, env.before i h = h) {h₀ : Host} {dir : Path} {name : String}
    (hdir : h₀.fs.RealDir dir) (hname : Plain name)
    (hno : ∀ t, h₀.fs.node (dir ++ [name]) = some (.link t) → ∀ st,
      h₀.fs.stat (h₀.fs.realpath (absolute (dir ++ [name]) t)) ≠ .ok st)
    {scratch_roots cold_roots : List Path} {pairs : List (Path × Path)} {keep_cold : Bool} :
    Triple (fun _ => True) (· = h₀)
      (restore_one sha256 env (dir ++ [name]) scratch_roots cold_roots pairs keep_cold)
      (fun _ h => h = h₀) (fun _ h => h = h₀) := by
  refine Triple.bind (archive_target_spec hquiet hdir hname) fun target =>
    Triple.of_fact fun ht => ?_
  cases target with
  | none => exact Triple.pure fun _ _ h => h
  | some p =>
    obtain ⟨t, hlink, rfl⟩ := ht p rfl
    refine Triple.bind (Q := fun tst h => tst = none ∧ h = h₀) (Triple.attempt
      ((Triple.of_ask (i := RestoreSite.statTarget) ?_).conseq (fun _ _ h => h) ?_ ?_))
        fun tst => Triple.of_fact ?_
    · intro h _ hp
      refine ⟨trivial, ?_⟩
      show env.before _ h = h₀
      rwa [hquiet]
    · rintro st h - ⟨rfl, hst⟩
      exact absurd hst (hno t hlink st)
    · rintro e h - ⟨rfl, -⟩
      exact ⟨rfl, rfl⟩
    · rintro rfl
      exact Triple.pure fun _ _ h => h

end Restoration

end Scratch
