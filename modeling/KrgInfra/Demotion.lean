/-
The states of a demotion, whatever fails and whoever writes to the file.

A `Demotion` is one call of `archive_one` on `scratch/sub/name`, with the host it
starts from.  Between any two calls of the copy `Base` holds: nothing but the
places `Touched` has changed, and the source is either as the first stat saw it
(`Clean`) or another process has changed it since (`Dirty`).  A dirty source
stays dirty, so the second stat meets a clean one only when nobody wrote during
the copy.

* `Base`, `Late`, `Swapped` — the states before the second stat, during the swap
  and after it;
* `apply_base` — what other processes do keeps `Base`;
* `early_ask`, `early_change` — the rules for a call before the second stat.
-/
import KrgInfra.ArchiveOne

namespace Scratch

open Posix

/-- One call of `archive_one`: its environment, the roots, the file, which is
`name` in the directory `scratch/sub`, the host at the first stat and the inode
found there. -/
structure Demotion where
  sha256 : Bytes → String
  env : ArchiveEnv
  scratch : Path
  cold : Path
  sub : Path
  name : String
  h₀ : Host
  i₀ : ℕ

namespace Demotion

section Places

variable (d : Demotion)

/-- The file to demote. -/
def src : Path := d.scratch ++ d.sub ++ [d.name]

/-- Its place on the cold tier, `cold + relpath(path, scratch)`. -/
def dest : Path := d.cold ++ d.sub ++ [d.name]

/-- The link temporary of the swap, next to the source. -/
def linkTmp : Path := d.scratch ++ d.sub ++ [tmpName "so" d.env.urandomLink]

/-- The copy's temporary, next to the destination. -/
def partTmp : Path := d.cold ++ d.sub ++ [tmpName "so" d.env.urandomPart]

/-- The source as the first stat sees it. -/
def f₀ : Inode := d.h₀.fs.inode d.i₀

/-- A regular file is there. -/
structure Regular : Prop where
  file : d.h₀.fs.node d.src = some (.file d.i₀)
  latest : d.h₀.latest = some d.f₀.data

/-- The nodes a demotion may change, the link temporary apart: the source, the
destination (of a regular file), the copy's temporary, and the cold directories on
the way.  Only if there are links on the cold tier can the temporary's name be looked
for elsewhere. -/
def Touched (p : Path) : Prop :=
  p = d.src ∨ (p = d.dest ∧ d.Regular) ∨ p = d.partTmp ∨
    (p.getLast? = some (tmpName "so" d.env.urandomPart) ∧
      ∃ q t, d.cold <+: q ∧ d.h₀.fs.node q = some (.link t)) ∨
    (d.cold <+: p ∧ p <+: d.cold ++ d.sub ∧ (d.h₀.fs.node p = none ∨ d.h₀.fs.isDir p = true))

/-- What `archive_one` is called on: a path reached through real directories, and
a cold root that is a real directory of another tree.  The random names are not
the file's own name. -/
structure Start : Prop where
  realSrc : d.h₀.fs.RealDir (d.scratch ++ d.sub)
  plain : Plain d.name
  realCold : d.h₀.fs.RealDir d.cold
  notCold : ¬ d.cold <+: d.scratch
  notScratch : ¬ d.scratch <+: d.cold
  uniquePart : tmpName "so" d.env.urandomPart ≠ d.name
  uniqueLink : tmpName "so" d.env.urandomLink ≠ d.name

/-- What other processes may do while `archive_one` runs: nothing before its
first stat (that is the file it starts from), nothing after its second one, and
no rewriting brings size, mtime and ctime all back to what the first stat saw.
Only a regular file is written to.
When the cold tier gives back other bytes than were written, their digest differs. -/
structure Fair : Prop where
  first : d.env.writes .statPath = []
  late : ∀ i, i.late = true → d.env.writes i = []
  regular : ∀ i, d.env.writes i ≠ [] → d.Regular
  changes : ∀ i data m c, SourceAct.rewrite data m c ∈ d.env.writes i →
    (data.length, m, c) ≠ (d.f₀.data.length, d.f₀.mtime, d.f₀.ctime)
  stored : ∀ b, d.env.stored = some b → d.sha256 b ≠ d.sha256 d.f₀.data

end Places

variable {d : Demotion} (hs : d.Start) (hf : d.Fair)

section Places

include hs

theorem cold_not_prefix (r : List String) : ¬ d.cold <+: d.scratch ++ r := by
  intro h
  rcases List.prefix_or_prefix_of_prefix h (List.prefix_append d.scratch r) with h | h
  · exact hs.notCold h
  · exact hs.notScratch h

theorem ne_of_cold {p : Path} (hp : d.cold <+: p) (r : List String) : p ≠ d.scratch ++ r := by
  rintro rfl
  exact cold_not_prefix hs r hp

omit hs in
theorem Regular.ino_lt (hr : d.Regular) : d.i₀ < d.h₀.fs.nextIno := d.h₀.fs.fresh _ _ hr.file

theorem dest_ne_path : d.dest ≠ d.src := by
  rw [src, dest, List.append_assoc, List.append_assoc]
  exact ne_of_cold hs (List.prefix_append _ _) _

theorem dest_ne_linkTmp : d.dest ≠ d.linkTmp := by
  rw [dest, linkTmp, List.append_assoc, List.append_assoc]
  exact ne_of_cold hs (List.prefix_append _ _) _

theorem linkTmp_ne_path : d.linkTmp ≠ d.src := by
  intro h
  exact hs.uniqueLink (List.append_cancel_left h |> List.singleton_inj.mp)

theorem partTmp_ne_dest : d.partTmp ≠ d.dest := by
  intro h
  exact hs.uniquePart (List.append_cancel_left h |> List.singleton_inj.mp)

theorem partTmp_ne_path : d.partTmp ≠ d.src := by
  rw [partTmp, src, List.append_assoc, List.append_assoc]
  exact ne_of_cold hs (List.prefix_append _ _) _

theorem partTmp_ne_linkTmp : d.partTmp ≠ d.linkTmp := by
  rw [partTmp, linkTmp, List.append_assoc, List.append_assoc]
  exact ne_of_cold hs (List.prefix_append _ _) _

/-- Without links on the cold tier the link temporary is nobody else's place. -/
theorem not_touched_linkTmp (hl : ∀ q t, d.cold <+: q → d.h₀.fs.node q ≠ some (.link t)) :
    ¬ d.Touched d.linkTmp := by
  rintro (h | ⟨h, -⟩ | h | ⟨-, q, t, hq, hn⟩ | ⟨hc, -, -⟩)
  · exact linkTmp_ne_path hs h
  · exact dest_ne_linkTmp hs h.symm
  · exact partTmp_ne_linkTmp hs h.symm
  · exact hl q t hq hn
  · rw [linkTmp, List.append_assoc] at hc
    exact cold_not_prefix hs _ hc

end Places

/-! ### The source while the copy is made -/

section States

variable (d : Demotion)

/-- The source is as the first stat saw it. -/
def Clean (h : Host) : Prop :=
  h.fs.node d.src = d.h₀.fs.node d.src ∧
    (d.i₀ < d.h₀.fs.nextIno → h.fs.inode d.i₀ = d.f₀) ∧ h.latest = d.h₀.latest

/-- Another process changed the source: it is gone, or what a stat of it shows is
not what the first stat saw; what it holds is what was last written. -/
def Dirty (h : Host) : Prop :=
  (h.latest = none ∧ h.fs.node d.src = none) ∨
    ∃ i, h.fs.node d.src = some (.file i) ∧
      (i = d.i₀ ∨ d.h₀.fs.nextIno ≤ i) ∧ h.latest = some (h.fs.inode i).data ∧
      (i, (h.fs.inode i).data.length, (h.fs.inode i).mtime, (h.fs.inode i).ctime) ≠
        (d.i₀, d.f₀.data.length, d.f₀.mtime, d.f₀.ctime)

/-- The inodes that may change: the source's, if somebody writes to it. -/
def Written (i : ℕ) : Prop := i = d.i₀ ∧ ∃ j, d.env.writes j ≠ []

/-- The state of the host between any two calls of the copy. -/
structure Base (h : Host) : Prop where
  frame : FS.SameBut d.Touched d.Written d.h₀.fs h.fs
  links : FS.NoNewLinks d.h₀.fs h.fs
  source : d.Clean h ∨ (d.Dirty h ∧ ∃ i, d.env.writes i ≠ [])

/-- `fd` is a new file of ours, not the one at the source's path. -/
def Ours (fd : ℕ) (h : Host) : Prop :=
  d.h₀.fs.nextIno ≤ fd ∧ fd < h.fs.nextIno ∧
    h.fs.node d.src ≠ some (.file fd)

end States

theorem Clean.file {h : Host} (hc : d.Clean h) (hr : d.Regular) :
    h.fs.node d.src = some (.file d.i₀) := hc.1.trans hr.file

theorem Clean.inode {h : Host} (hc : d.Clean h) (hr : d.Regular) : h.fs.inode d.i₀ = d.f₀ :=
  hc.2.1 hr.ino_lt

theorem Clean.not_dirty {h : Host} (hc : d.Clean h) (hr : d.Regular) : ¬ d.Dirty h := by
  rintro (⟨hl, -⟩ | ⟨i, hn, -, -, hne⟩)
  · rw [hc.2.2, hr.latest] at hl
    exact absurd hl (by simp)
  · rw [hc.file hr, Option.some_inj, Node.file.injEq] at hn
    subst hn
    rw [hc.inode hr] at hne
    exact hne rfl

/-- The state between two calls knows which files are at the source's path. -/
theorem Base.ino {h : Host} (hb : d.Base h) (hr : d.Regular) {i : ℕ}
    (hn : h.fs.node d.src = some (.file i)) : i = d.i₀ ∨ d.h₀.fs.nextIno ≤ i := by
  rcases hb.source with hc | ⟨⟨-, hnone⟩ | ⟨j, hj, hor, -⟩, -⟩
  · rw [hc.file hr, Option.some_inj, Node.file.injEq] at hn
    exact .inl hn.symm
  · rw [hnone] at hn
    exact absurd hn (by simp)
  · rw [hj, Option.some_inj, Node.file.injEq] at hn
    rwa [← hn]

theorem apply_frame (a : SourceAct) (path : Path) (h : Host) :
    FS.SameBut (· = path) (fun i => h.fs.node path = some (.file i)) h.fs (a.apply path h).fs := by
  unfold SourceAct.apply
  split
  · exact (FS.sameBut_setInode _ _).mono (fun _ h => h.elim) fun j _ hj => by
      rw [hj]
      assumption
  · split
    · exact ((FS.sameBut_newInode _).mono (fun _ h => h.elim) fun _ _ h => h.elim).trans
        ((FS.sameBut_setNode ‹_›).mono (fun _ h => h) fun _ _ h => h.elim)
    · exact FS.SameBut.refl _
  · split
    · exact (FS.sameBut_clearNode ‹_›).mono (fun _ h => h) fun _ _ h => h.elim
    · exact FS.SameBut.refl _
  · exact FS.SameBut.refl _

theorem apply_links (a : SourceAct) (path : Path) (h : Host) :
    FS.NoNewLinks h.fs (a.apply path h).fs := by
  unfold SourceAct.apply
  split
  · exact FS.NoNewLinks.of_node rfl
  · split
    · exact (FS.NoNewLinks.of_node rfl).trans (FS.NoNewLinks.setNode ‹_› rfl)
    · exact FS.NoNewLinks.refl _
  · split
    · exact FS.NoNewLinks.clearNode ‹_›
    · exact FS.NoNewLinks.refl _
  · exact FS.NoNewLinks.refl _

/-- A file of ours is not what another process puts at the source's path. -/
theorem apply_ours {a : SourceAct} {h : Host} {fd : ℕ} (ho : d.Ours fd h) :
    d.Ours fd (a.apply d.src h) := by
  have hnext := (apply_frame a d.src h).nextIno
  refine ⟨ho.1, ho.2.1.trans_le hnext, ?_⟩
  unfold SourceAct.apply
  split
  · exact ho.2.2
  · split
    · simp only [FS.node_setNode, Function.update_self, ne_eq, Option.some_inj, Node.file.injEq]
      have := ho.2.1
      omega
    · exact ho.2.2
  · split
    · simp
    · exact ho.2.2
  · exact ho.2.2

include hs hf

/-- Another process's change keeps the state between two calls, and leaves the
source dirty. -/
theorem apply_base {i : ArchiveSite}
    {a : SourceAct} {h : Host} (ha : a ∈ d.env.writes i) (hb : d.Base h) :
    d.Base (a.apply d.src h) ∧
      d.Dirty (a.apply d.src h) := by
  have hwrites : d.env.writes i ≠ [] := List.ne_nil_of_mem ha
  have hr : d.Regular := hf.regular i hwrites
  have hframe : FS.SameBut d.Touched d.Written d.h₀.fs (a.apply d.src h).fs := by
    refine hb.frame.extend (apply_frame a _ h) (fun p hp => .inl hp) fun j hj hn => ?_
    rcases hb.ino hr hn with rfl | hle
    · exact ⟨rfl, i, hwrites⟩
    · omega
  suffices hd : d.Dirty (a.apply d.src h) from
    ⟨⟨hframe, hb.links.trans (apply_links a _ h), .inr ⟨hd, i, hwrites⟩⟩, hd⟩
  have hdir : h.fs.isDir (d.scratch ++ d.sub) = true := hb.frame.isDir _ (hs.realSrc.2 _ List.prefix_rfl)
  rcases hnode : h.fs.node d.src with _ | ⟨m⟩ | ⟨j⟩ | ⟨t⟩
  · -- the file is gone: nothing more happens to it
    have hsame : a.apply d.src h = h := by
      simp [SourceAct.apply, hnode]
    rw [hsame]
    exact (hb.source.resolve_left fun hc => by
      rw [hc.file hr] at hnode
      exact absurd hnode (by simp)).1
  · rcases hb.source with hc | ⟨⟨-, hn⟩ | ⟨k, hn, -⟩, -⟩
    · exact absurd ((hc.file hr).symm.trans hnode) (by simp)
    · exact absurd (hn.symm.trans hnode) (by simp)
    · exact absurd (hn.symm.trans hnode) (by simp)
  · have hj := hb.ino hr hnode
    have hfile : h.fs.isDir d.src = false :=
      FS.isDir_of_node (by simp [src]) hnode
    cases a with
    | rewrite data m c =>
      refine .inr ⟨j, ?_, hj, ?_, ?_⟩
      · simp [SourceAct.apply, hnode]
      · simp [SourceAct.apply, hnode]
      · have hne := hf.changes i data m c ha
        simp only [SourceAct.apply, hnode, FS.inode_setInode, Function.update_self, ne_eq,
          Prod.mk.injEq, not_and] at hne ⊢
        intro _
        exact hne
    | replaceBy f =>
      have hcan : (h.fs.newInode f).CanSet d.src (.file h.fs.nextIno) := by
        refine ⟨by simp [src], ?_, fun _ => hfile, ?_⟩
        · show h.fs.isDir (d.scratch ++ d.sub ++ [d.name]).dropLast = true
          rwa [List.dropLast_concat]
        · simp [Node.inoBelow]
      have hge : d.h₀.fs.nextIno ≤ h.fs.nextIno := hb.frame.nextIno
      refine .inr ⟨h.fs.nextIno, ?_, .inr hge, ?_, ?_⟩
      · simp [SourceAct.apply, hnode, hcan]
      · simp [SourceAct.apply, hnode, hcan]
      · have := hr.ino_lt
        intro heq
        have := (Prod.mk.inj heq).1
        omega
    | remove =>
      refine .inl ⟨?_, ?_⟩
      · simp [SourceAct.apply, hnode, hfile]
      · simp [SourceAct.apply, hnode, hfile]
  · rcases hb.source with hc | ⟨⟨-, hn⟩ | ⟨k, hn, -⟩, -⟩
    · exact absurd ((hc.file hr).symm.trans hnode) (by simp)
    · exact absurd (hn.symm.trans hnode) (by simp)
    · exact absurd (hn.symm.trans hnode) (by simp)

omit hs hf in
/-- A change of our own away from the source keeps the state between two calls. -/
theorem Base.change {h : Host} {fs' : FS} {P : Path → Prop} {F : ℕ → Prop}
    (hb : d.Base h) (hc : FS.SameBut P F h.fs fs') (hlink : FS.NoNewLinks h.fs fs')
    (hP : ∀ p, P p → d.Touched p ∧ p ≠ d.src)
    (hF : ∀ i, F i → d.h₀.fs.nextIno ≤ i ∧ h.fs.node d.src ≠ some (.file i)) :
    d.Base { h with fs := fs' } := by
  have hnode : fs'.node d.src = h.fs.node d.src :=
    hc.node _ fun hp => (hP _ hp).2 rfl
  refine ⟨hb.frame.extend hc (fun p hp => (hP p hp).1) fun i hi hFi => ?_,
    hb.links.trans hlink, ?_⟩
  · have := (hF i hFi).1
    omega
  · rcases hb.source with ⟨hn, hi, hl⟩ | ⟨⟨hl, hn⟩ | ⟨i, hn, hor, hl, hne⟩, hw⟩
    · refine .inl ⟨hnode.trans hn, fun hlt => ?_, hl⟩
      rw [← hi hlt]
      exact hc.inode _ (hlt.trans_le hb.frame.nextIno) fun hFi => by
        have := (hF _ hFi).1
        omega
    · exact .inr ⟨.inl ⟨hl, hnode.trans hn⟩, hw⟩
    · have hk : fs'.inode i = h.fs.inode i :=
        hc.inode _ (h.fs.fresh _ _ hn) fun hFi => (hF _ hFi).2 hn
      refine .inr ⟨.inr ⟨i, hnode.trans hn, hor, ?_, ?_⟩, hw⟩
      · rw [hl, ← hk]
      · show (i, (fs'.inode i).data.length, (fs'.inode i).mtime, (fs'.inode i).ctime) ≠ _
        rwa [hk]

omit hs hf in
/-- The source stays clean through a change only if it was clean before. -/
theorem clean_of_change {h : Host} {fs' : FS} {P : Path → Prop} {F : ℕ → Prop}
    (hc : FS.SameBut P F h.fs fs') (hP : ¬ P d.src) (hF : ¬ F d.i₀)
    (hle : d.h₀.fs.nextIno ≤ h.fs.nextIno) :
    d.Clean { h with fs := fs' } ↔ d.Clean h := by
  have hi : d.i₀ < d.h₀.fs.nextIno → fs'.inode d.i₀ = h.fs.inode d.i₀ :=
    fun hlt => hc.inode _ (hlt.trans_le hle) hF
  simp only [Clean, hc.node _ hP]
  constructor
  · rintro ⟨hn, hk, hl⟩
    exact ⟨hn, fun hlt => (hi hlt).symm.trans (hk hlt), hl⟩
  · rintro ⟨hn, hk, hl⟩
    exact ⟨hn, fun hlt => (hi hlt).trans (hk hlt), hl⟩

/-! ### Files of ours -/

section Holding

variable (d : Demotion)

/-- The directory of the destination is a real one, the name `p` holds our file
`fd`, `R` is true of that file, and `K` if nobody has touched the source. -/
structure Holding (p : Path) (fd : ℕ) (R : Inode → Prop) (K : Prop) (h : Host) : Prop where
  dir : h.fs.RealDir (d.cold ++ d.sub)
  node : h.fs.node p = some (.file fd)
  ours : d.Ours fd h
  file : R (h.fs.inode fd)
  clean : d.Clean h → K

/-- `P` survives what other processes do to the source. -/
def Stable (P : Host → Prop) : Prop :=
  ∀ i a h, a ∈ d.env.writes i → d.Base h → P h →
    P (SourceAct.apply d.src a h)

end Holding

theorem stable_holding {p : Path}
    (hp : p ≠ d.src) (fd : ℕ) (R : Inode → Prop) (K : Prop) :
    d.Stable (d.Holding p fd R K) := by
  intro i a h ha hb hh
  have hfr := apply_frame a d.src h
  refine ⟨hfr.realDir hh.dir, (hfr.node p hp).trans hh.node, apply_ours hh.ours, ?_, ?_⟩
  · rw [hfr.inode fd hh.ours.2.1 hh.ours.2.2]
    exact hh.file
  · intro hc
    exact absurd (apply_base hs hf ha hb).2 (hc.not_dirty (hf.regular i (List.ne_nil_of_mem ha)))

omit hs hf in
theorem stable_realDir (p : Path) :
    d.Stable (fun h => h.fs.RealDir p) :=
  fun _ a h _ _ hd => (apply_frame a d.src h).realDir hd

/-! ### The states of the swap -/

section Swap

variable (d : Demotion)

/-- A file with the source's content, owner, mode and mtime. -/
def Copied (f : Inode) : Prop :=
  f.data = d.f₀.data ∧ f.perm = d.f₀.perm ∧
    f.mtime = d.f₀.mtime

/-- What the demotion has changed, the link temporary included; no link is new on the
cold tier. -/
structure SwapFrame (h : Host) : Prop where
  frame : FS.SameBut (fun p => d.Touched p ∨ p = d.linkTmp) d.Written d.h₀.fs h.fs
  links : ∀ q t, d.cold <+: q → h.fs.node q = some (.link t) → d.h₀.fs.node q = some (.link t)

/-- The destination holds a complete copy. -/
def Published (h : Host) : Prop :=
  h.fs.RealDir (d.cold ++ d.sub) ∧ ∃ fd, h.fs.node d.dest = some (.file fd) ∧
    d.h₀.fs.nextIno ≤ fd ∧ d.Copied (h.fs.inode fd)

/-- No links on the cold tier, and the name of the link temporary unused. -/
def FreshTmp : Prop :=
  (∀ q t, d.cold <+: q → d.h₀.fs.node q ≠ some (.link t)) ∧ d.h₀.fs.node d.linkTmp = none

/-- Between two calls of the swap: the copy is published, the source still there. -/
structure Late (h : Host) : Prop extends d.SwapFrame h where
  clean : d.Clean h
  copy : d.Published h
  tmp : d.FreshTmp → h.fs.node d.linkTmp = none ∨
    h.fs.node d.linkTmp = some (.link ⟨true, d.dest⟩)

/-- The symlink has taken the place of the source. -/
structure Swapped (h : Host) : Prop extends d.SwapFrame h where
  link : h.fs.node d.src = some (.link ⟨true, d.dest⟩)
  copy : d.Published h
  latest : h.latest = some d.f₀.data
  tmp : h.fs.node d.linkTmp = none

/-- What is true of every state `archive_one` passes through. -/
def Always (h : Host) : Prop :=
  d.Base h ∨ d.Late h ∨
    d.Swapped h

end Swap

/-! ### The rule for a call before the second stat -/

theorem writes_base {P : Host → Prop}
    (hst : d.Stable P) (i : ArchiveSite) {h : Host}
    (hb : d.Base h) (hP : P h) :
    d.Base ((d.env.toEnv d.src).before i h) ∧
      P ((d.env.toEnv d.src).before i h) := by
  have key : ∀ (as : List SourceAct), (∀ a ∈ as, a ∈ d.env.writes i) → ∀ h,
      d.Base h → P h →
      d.Base
          (as.foldl (fun h a => a.apply d.src h) h) ∧
        P (as.foldl (fun h a => a.apply d.src h) h) := by
    intro as
    induction as with
    | nil => exact fun _ h hb hP => ⟨hb, hP⟩
    | cons a as ih =>
      intro has h hb hP
      have ha := has a (by simp)
      exact ih (fun b hb => has b (by simp [hb])) _ (apply_base hs hf ha hb).1
        (hst i a h ha hb hP)
  exact key _ (fun _ h => h) h hb hP

/-- A call before the second stat: whatever other processes did before it, it
starts in `Base` and `P`, and must keep `Base`. -/
theorem sys_early {α : Type} {i : ArchiveSite}
    {act : Work OSError Host α} {P R : Host → Prop} {Q : α → Host → Prop}
    (hst : d.Stable P)
    (hact : ∀ h, d.Base h → P h →
      d.Base (act h).2 ∧
        ∀ a, (act h).1 = .ok a → Q a (act h).2)
    (hraise : ∀ h, d.Base h → P h → R h ∧ R (act h).2) :
    Triple (d.Always)
      (fun h => d.Base h ∧ P h)
      (sys d.env d.src i act)
      (fun a h => d.Base h ∧ Q a h)
      (fun _ h => d.Base h ∧ R h) := by
  refine Triple.of_call (fun h => d.Base h ∧ P h) ?_ ?_ ?_
  · rintro h - ⟨hb, hP⟩
    have h' := writes_base hs hf hst i hb hP
    exact ⟨.inl h'.1, h'⟩
  · rintro h - ⟨hb, hP⟩
    obtain ⟨hb', hq⟩ := hact h hb hP
    refine ⟨.inl hb', ?_⟩
    cases hr : (act h).1 with
    | ok a => exact ⟨hb', hq a hr⟩
    | error e => exact ⟨hb', (hraise h hb hP).2⟩
  · rintro e done h - - ⟨hb, hP⟩
    cases done with
    | true => exact ⟨(hact h hb hP).1, (hraise h hb hP).2⟩
    | false => exact ⟨hb, (hraise h hb hP).1⟩

/-- A call that only looks: nothing is lost, whether it answers or raises. -/
theorem early_ask {α : Type} {i : ArchiveSite}
    {f : FS → Except OSError α} {P : Host → Prop} {Q : α → Host → Prop}
    (hst : d.Stable P)
    (hq : ∀ h a, d.Base h → P h → f h.fs = .ok a → Q a h) :
    Triple (d.Always)
      (fun h => d.Base h ∧ P h)
      (sys d.env d.src i (ask f))
      (fun a h => d.Base h ∧ P h ∧ Q a h)
      (fun _ h => d.Base h ∧ P h) :=
  sys_early hs hf hst (fun h hb hP => ⟨hb, fun a ha => ⟨hP, hq h a hb hP ha⟩⟩)
    fun _ _ hP => ⟨hP, hP⟩

/-- A call that changes the file system: where it succeeds it must keep `Base`
and give `Q`, and `R` holds whether it does its work or not. -/
theorem early_change {i : ArchiveSite} {f : FS → Except OSError FS} {P Q R : Host → Prop}
    (hst : d.Stable P)
    (hc : ∀ h fs', d.Base h → P h → f h.fs = .ok fs' →
      d.Base { h with fs := fs' } ∧ Q { h with fs := fs' })
    (hP : ∀ h, P h → R h) (hQ : ∀ h, Q h → R h) :
    Triple d.Always (fun h => d.Base h ∧ P h) (sys d.env d.src i (change f))
      (fun _ h => d.Base h ∧ Q h) (fun _ h => d.Base h ∧ R h) := by
  refine Triple.of_change ?_ ?_ ?_ fun h hq => ⟨hq.1, hQ h hq.2⟩
  · rintro h - ⟨hb, hp⟩
    have h' := writes_base hs hf hst i hb hp
    exact ⟨.inl h'.1, h'⟩
  · rintro h fs' ⟨hb, hp⟩ hr
    have h' := hc h fs' hb hp hr
    exact ⟨h', .inl h'.1⟩
  · exact fun h hp _ => ⟨hp.1, hP h hp.2⟩

/-- A call through the descriptor of a file of ours: it sees `R` and leaves
`R'`. -/
theorem early_fd (hreg : d.Regular) {i : ArchiveSite} {p : Path} {fd : ℕ} {R S : Inode → Prop} {K : Prop}
    {g : FS → FS} {f : FS → Inode} (hp : p ≠ d.src) (hg : ∀ fs, g fs = fs.setInode fd (f fs))
    (hR : ∀ fs, R (fs.inode fd) → S (f fs)) :
    Triple d.Always (fun h => d.Base h ∧ d.Holding p fd R K h)
      (sys d.env d.src i (changeFd g))
      (fun _ h => d.Base h ∧ d.Holding p fd S K h) (fun _ h => d.Base h) := by
  refine (early_change hs hf (stable_holding hs hf hp fd R K) ?_ (R := fun _ => True)
    (fun _ _ => trivial) fun _ _ => trivial).except fun _ _ _ h => h.1
  intro h fs' hb hh hg'
  have hfs : fs' = h.fs.setInode fd (f h.fs) := by
    rw [← hg]
    exact (Except.ok.inj hg').symm
  subst hfs
  have hsame := @FS.sameBut_setInode h.fs fd (f h.fs)
  have hi : d.i₀ ≠ fd := by
    have := hreg.ino_lt
    have := hh.ours.1
    omega
  refine ⟨hb.change hsame (FS.NoNewLinks.of_node rfl) (fun _ hn => hn.elim) ?_, ?_⟩
  · rintro j rfl
    exact ⟨hh.ours.1, hh.ours.2.2⟩
  · refine ⟨hsame.realDir hh.dir, hh.node, hh.ours, ?_, fun hc => hh.clean ?_⟩
    · simpa using hR _ hh.file
    · exact (clean_of_change hsame (fun hn => hn) (fun heq => hi heq)
        hb.frame.nextIno).mp hc

end Demotion

end Scratch
