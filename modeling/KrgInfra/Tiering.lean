/-
Tiering never changes other files, as long as no two links share a cold file.

A run interleaves what users do on the scratch tier (`UserStep`: they may rename and
copy archive links like any other file) with calls of `archive_one` and
`restore_one`, successful or failing.  Where an archive link has been renamed or
copied, a later call can replace or unlink the cold file that another path reads;
`ArchiveOk` and `RestoreOk` say of one call that it meets no such state.

* `orderly_user`, `orderly_archive`, `orderly_restore` — each step keeps the tiers
  in order;
* `tiering_frame` — in every run whose calls all meet their condition, a call leaves
  every other path of the scratch tier reading as before.
-/
import KrgInfra.ScratchRoundTrip
import KrgInfra.TierReads
import Mathlib.Logic.Relation

namespace Scratch

open Posix

namespace Tiers

variable (T : Tiers)

/-- A name in a real directory of the scratch tier. -/
def Place (fs : FS) (p : Path) : Prop :=
  ∃ sub name, p = T.scratch ++ sub ++ [name] ∧ fs.RealDir (T.scratch ++ sub) ∧ Plain name

/-- What users do on the scratch tier. -/
inductive UserStep : FS → FS → Prop
  | mkdir {fs fs' : FS} {p : Path} {m : Perm} : T.Place fs p → fs.mkdir p m = .ok fs' →
      UserStep fs fs'
  | create {fs fs' : FS} {p : Path} {f : Inode} : T.Place fs p →
      (fs.newInode f).create p (.file fs.nextIno) = .ok fs' → UserStep fs fs'
  | write {fs : FS} {p q : Path} {i : ℕ} {f : Inode} : T.Place fs p → fs.resolve p = .ok q →
      fs.node q = some (.file i) → UserStep fs (fs.setInode i f)
  | rename {fs fs' : FS} {p q : Path} : T.Place fs p → T.Place fs q → fs.replace p q = .ok fs' →
      UserStep fs fs'
  | delete {fs fs' : FS} {p : Path} : T.Place fs p → fs.unlink p = .ok fs' → UserStep fs fs'
  | copy {fs fs' : FS} {p q : Path} {b : Bytes} {f : Inode} : T.Place fs p → T.Place fs q →
      Reads fs p b → (fs.newInode { f with data := b }).create q (.file fs.nextIno) = .ok fs' →
      UserStep fs fs'
  | copyLink {fs fs' : FS} {p q : Path} {t : Target} : T.Place fs p → T.Place fs q →
      fs.readlink p = .ok t → fs.symlink t q = .ok fs' → UserStep fs fs'

variable {T} {fs fs' : FS}

theorem Place.locate {p : Path} (hp : T.Place fs p) : fs.locate p = .ok p := by
  obtain ⟨sub, name, rfl, hd, hn⟩ := hp
  exact FS.locate_real hd hn

theorem Place.scratch {p : Path} (hp : T.Place fs p) : T.scratch <+: p := by
  obtain ⟨sub, name, rfl, -⟩ := hp
  simp

theorem Place.readlink {p : Path} {t : Target} (hp : T.Place fs p) (h : fs.readlink p = .ok t) :
    fs.node p = some (.link t) := by
  obtain ⟨sub, name, rfl, hd, hn⟩ := hp
  exact FS.readlink_real hd hn h

/-- A change of scratch nodes only, in which every link leads where a link led
before, keeps the tiers in order. -/
theorem Orderly.change (ho : T.Orderly fs) {P : Path → Prop} {F : ℕ → Prop}
    (hc : FS.SameBut P F fs fs') (hP : ∀ p, P p → T.scratch <+: p)
    (hl : ∀ p t, T.scratch <+: p → fs'.node p = some (.link t) →
      LeadsToFile fs t ∧ T.cold <+: t.names) : T.Orderly fs' := by
  have hcold : ∀ p, T.cold <+: p → fs'.node p = fs.node p := fun p hp =>
    hc.node p fun h => apart (hP p h) hp
  refine ⟨hc.realDir ho.scratchDir, hc.realDir ho.coldDir, fun p t hp hn => ?_, fun p t hp hn => ?_⟩
  · obtain ⟨⟨habs, d, n, i, hnames, hd, hpl, hf⟩, ht⟩ := hl p t hp hn
    exact ⟨⟨habs, d, n, i, hnames, hc.realDir hd, hpl, (hcold _ ht).trans hf⟩, ht⟩
  · exact ho.coldLinks p t hp ((hcold p hp).symm.trans hn)

/-- Where no link is new, nothing is to be shown of the links. -/
theorem Orderly.change_old (ho : T.Orderly fs) {P : Path → Prop} {F : ℕ → Prop}
    (hc : FS.SameBut P F fs fs') (hP : ∀ p, P p → T.scratch <+: p)
    (hl : FS.NoNewLinks fs fs') : T.Orderly fs' :=
  ho.change hc hP fun p t hp hn => ho.links p t hp (hl p t hn)

/-- A new link at `p` leads where a link led before. -/
theorem Orderly.setLink (ho : T.Orderly fs) {P : Path → Prop} {F : ℕ → Prop} {fs₁ : FS}
    {p q : Path} {t : Target} (hc : FS.SameBut P F fs fs₁) (hP : ∀ p, P p → T.scratch <+: p)
    (hl : FS.NoNewLinks fs fs₁) (hset : fs₁.CanSet p (.link t)) (hp : T.scratch <+: p)
    (hq : T.scratch <+: q) (ht : fs.node q = some (.link t)) :
    T.Orderly (fs₁.setNode p (.link t) hset) := by
  refine ho.change (P := fun r => P r ∨ r = p) (F := F)
    ((hc.mono (fun _ h => .inl h) fun _ _ h => h).extend (FS.sameBut_setNode hset)
      (fun _ h => .inr h) fun _ _ h => h.elim) ?_ ?_
  · rintro r (h | rfl)
    · exact hP r h
    · exact hp
  · intro r t' hr hn
    rw [FS.node_setNode] at hn
    rcases eq_or_ne r p with rfl | hne
    · rw [Function.update_self, Option.some_inj, Node.link.injEq] at hn
      subst hn
      exact ho.links q t hq ht
    · rw [Function.update_of_ne hne] at hn
      exact ho.links r t' hr (hl r t' hn)

theorem orderly_create (ho : T.Orderly fs) {p : Path} {f : Inode} (hp : T.Place fs p)
    (hc : (fs.newInode f).create p (.file fs.nextIno) = .ok fs') : T.Orderly fs' := by
  obtain ⟨q, hset, hq, -, rfl⟩ := FS.create_ok hc
  rw [FS.locate_newInode, hp.locate, Except.ok.injEq] at hq
  subst hq
  refine ho.change_old (P := (· = p)) (F := fun _ => False)
    (((FS.sameBut_newInode f).mono (fun _ h => h.elim) fun _ _ h => h).trans
      (FS.sameBut_setNode hset)) ?_ ?_
  · rintro r rfl
    exact hp.scratch
  · exact (FS.NoNewLinks.of_node rfl).trans (FS.NoNewLinks.setNode hset rfl)

/-- What users do keeps the tiers in order. -/
theorem orderly_user (ho : T.Orderly fs) (h : T.UserStep fs fs') : T.Orderly fs' := by
  cases h with
  | mkdir hp hc =>
    obtain ⟨q, hset, hq, -, rfl⟩ := FS.create_ok hc
    rw [hp.locate, Except.ok.injEq] at hq
    subst hq
    refine ho.change_old (FS.sameBut_setNode hset) ?_ (FS.NoNewLinks.setNode hset rfl)
    rintro r rfl
    exact hp.scratch
  | create hp hc => exact orderly_create ho hp hc
  | write hp hq hn =>
    exact ho.change_old (FS.sameBut_setInode _ _) (fun _ h => h.elim) (FS.NoNewLinks.of_node rfl)
  | @rename _ p₀ q₀ hp hq hr =>
    obtain ⟨p', q', n, hp', hq', hn, hcase⟩ := FS.replace_ok hr
    rw [hp.locate, Except.ok.injEq] at hp'
    rw [hq.locate, Except.ok.injEq] at hq'
    subst hp' hq'
    obtain ⟨-, rfl⟩ | ⟨-, hdir, hset, rfl⟩ := hcase
    · exact ho
    have hclear := FS.sameBut_clearNode hdir
    have hin : ∀ r, r = p₀ → T.scratch <+: r := by
      rintro r rfl
      exact hp.scratch
    cases n with
    | link t =>
      exact ho.setLink hclear hin (FS.NoNewLinks.clearNode hdir) hset hq.scratch hp.scratch hn
    | dir m =>
      have hne : p₀ ≠ [] := fun h => T.scratch_ne_nil (List.prefix_nil.mp (h ▸ hp.scratch))
      rw [FS.isDir_of_node hne hn] at hdir
      exact absurd hdir (by simp [Node.isDir])
    | file i =>
      refine ho.change_old (P := fun r => r = p₀ ∨ r = q₀) (F := fun _ => False)
        ((hclear.mono (fun _ h => .inl h) fun _ _ h => h).extend (FS.sameBut_setNode hset)
          (fun _ h => .inr h) fun _ _ h => h) ?_
        ((FS.NoNewLinks.clearNode hdir).trans (FS.NoNewLinks.setNode hset rfl))
      rintro r (rfl | rfl)
      · exact hp.scratch
      · exact hq.scratch
  | delete hp hu =>
    obtain ⟨q, hdir, hq, rfl⟩ := FS.unlink_ok hu
    rw [hp.locate, Except.ok.injEq] at hq
    subst hq
    refine ho.change_old (FS.sameBut_clearNode hdir) ?_ (FS.NoNewLinks.clearNode hdir)
    rintro r rfl
    exact hp.scratch
  | copy _ hq _ hc => exact orderly_create ho hq hc
  | copyLink hp hq hl hc =>
    obtain ⟨r, hset, hr, -, rfl⟩ := FS.create_ok hc
    rw [hq.locate, Except.ok.injEq] at hr
    subst hr
    exact ho.setLink (FS.SameBut.refl (P := fun _ => False) (F := fun _ => False) fs)
      (fun _ h => h.elim) (FS.NoNewLinks.refl fs) hset hq.scratch hp.scratch (hp.readlink hl)

/-! ### Calls of `archive_one` -/

/-- `d` is a call of `archive_one` on a path of the scratch tier `fs`, with nobody
else at work; a copy that the cold tier does not keep shows in its digest. -/
structure ArchiveCall (T : Tiers) (fs : FS) (d : Demotion) : Prop where
  scratch : d.scratch = T.scratch
  cold : d.cold = T.cold
  host : d.h₀.fs = fs
  realSrc : fs.RealDir (T.scratch ++ d.sub)
  plain : Plain d.name
  kind : d.Regular ∨ ∀ i, d.h₀.fs.node d.src ≠ some (.file i)
  quiet : ∀ i, d.env.writes i = []
  stored : ∀ b, d.env.stored = some b → d.sha256 b ≠ d.sha256 d.f₀.data

/-- The condition on such a call: no link on the scratch tier leads to the
destination, the names of the temporaries are unused, and the removal of a failed
swap's temporary does not itself fail. -/
structure ArchiveOk (d : Demotion) : Prop where
  sole : d.Regular → ∀ q t, d.scratch <+: q → d.h₀.fs.node q = some (.link t) → t.names ≠ d.dest
  part : d.h₀.fs.node d.partTmp = none
  tmp : d.h₀.fs.node d.linkTmp = none
  uniquePart : tmpName "so" d.env.urandomPart ≠ d.name
  uniqueLink : tmpName "so" d.env.urandomLink ≠ d.name
  look : d.env.outcome .lexistsLinkCleanup = .ok
  unlink : d.env.outcome .unlinkLink = .ok

variable {d : Demotion}

theorem ArchiveCall.start (hc : T.ArchiveCall fs d) (hok : ArchiveOk d) (ho : T.Orderly fs) :
    d.Start where
  realSrc := by
    rw [hc.scratch, hc.host]
    exact hc.realSrc
  plain := hc.plain
  realCold := by
    rw [hc.cold, hc.host]
    exact ho.coldDir
  notCold := by
    rw [hc.scratch, hc.cold]
    exact T.notCold
  notScratch := by
    rw [hc.scratch, hc.cold]
    exact T.notScratch
  uniquePart := hok.uniquePart
  uniqueLink := hok.uniqueLink

theorem ArchiveCall.fair (hc : T.ArchiveCall fs d) : d.Fair where
  first := hc.quiet _
  late i _ := hc.quiet i
  regular i h := absurd (hc.quiet i) h
  changes i data m c h := by
    rw [hc.quiet i] at h
    exact absurd h List.not_mem_nil
  stored := hc.stored

/-- What a call of `archive_one` leaves: but for the source, the scratch tier is as it
was, and the source is as it was or the link to a complete copy. -/
structure After (d : Demotion) (h : Host) : Prop extends d.SwapFrame h where
  tmp : h.fs.node d.linkTmp = none
  src : h.fs.node d.src = d.h₀.fs.node d.src ∨
    (d.Regular ∧ h.fs.node d.src = some (.link ⟨true, d.dest⟩) ∧ d.Published h)

theorem after_of_base {h : Host} (hs : d.Start) (hq : ∀ i, d.env.writes i = [])
    (hfree : d.FreshTmp) (hb : d.Base h) : After d h where
  frame := hb.frame.mono (fun _ hp => .inl hp) fun _ _ hF => hF
  links q t _ hn := hb.links q t hn
  tmp := (hb.frame.node _ (Demotion.not_touched_linkTmp hs hfree.1)).trans hfree.2
  src := by
    rcases hb.source with hc | ⟨-, i, hi⟩
    · exact .inl hc.1
    · exact absurd (hq i) hi

theorem ArchiveCall.after (hc : T.ArchiveCall fs d) (hok : ArchiveOk d) (ho : T.Orderly fs)
    (dry_run : Bool) (reason : Reason) : After d (d.moved dry_run reason) := by
  have hs := hc.start hok ho
  have hfree : d.FreshTmp := by
    refine ⟨fun q t hq => ?_, hok.tmp⟩
    rw [hc.host]
    exact ho.coldLinks q t (hc.cold ▸ hq)
  rcases hc.kind with hreg | hno
  · have hdone : d.Done (d.moved dry_run reason) :=
      (Demotion.archive_one_spec hs hc.fair hreg dry_run reason).of_end (.inl Demotion.base_start) rfl
    rcases hdone with hb | ⟨hl | hw, ht⟩
    · exact after_of_base hs hc.quiet hfree hb
    · exact ⟨hl.toSwapFrame, ht ⟨hfree, hok.look, hok.unlink⟩, .inl hl.clean.1⟩
    · exact ⟨hw.toSwapFrame, hw.tmp, .inr ⟨hreg, hw.link, hw.copy⟩⟩
  · exact after_of_base hs hc.quiet hfree
      ((Demotion.archive_one_irregular hs hc.fair hno dry_run reason).of_end
        (.inl Demotion.base_start) rfl)

section After

variable {h : Host} (hc : T.ArchiveCall fs d) (hok : ArchiveOk d) (ho : T.Orderly fs)
  (ha : After d h)

include hc hok ho ha

/-- Of the scratch tier only the source has changed. -/
theorem After.node {q : Path} (hq : T.scratch <+: q) (hne : q ≠ d.src) :
    h.fs.node q = fs.node q := by
  by_cases hl : q = d.linkTmp
  · rw [hl, ha.tmp, ← hc.host, hok.tmp]
  rw [← hc.host]
  refine ha.frame.node q ?_
  have hcold : ¬ d.cold <+: q := fun h => apart hq (hc.cold ▸ h)
  rintro ((h | ⟨h, -⟩ | h | ⟨-, r, t, hr, hn⟩ | ⟨h, -⟩) | h)
  · exact hne h
  · exact hcold (h ▸ by simp [Demotion.dest])
  · exact hcold (h ▸ by simp [Demotion.partTmp])
  · rw [hc.host, hc.cold] at *
    exact ho.coldLinks r t hr hn
  · exact hcold h
  · exact hl h

/-- The cold files that links lead to are still there. -/
theorem After.target {q : Path} {t : Target} (hq : T.scratch <+: q)
    (hn : fs.node q = some (.link t)) : h.fs.node t.names = fs.node t.names := by
  obtain ⟨⟨-, dir, n, i, hnames, -, -, hf⟩, hcold⟩ := ho.links q t hq hn
  rw [← hc.host] at hf hn ⊢
  refine ha.frame.node _ ?_
  have hscratch : ∀ r : List String, t.names ≠ d.scratch ++ r := by
    intro r hr
    refine apart (T := T) (p := t.names) ?_ hcold
    rw [hr, hc.scratch]
    exact List.prefix_append _ _
  rintro ((h | ⟨h, hreg⟩ | h | ⟨-, r, t', hr, hl⟩ | ⟨-, -, h⟩) | h)
  · exact hscratch _ (h.trans (by rw [Demotion.src, List.append_assoc]))
  · exact hok.sole hreg q t (hc.scratch ▸ hq) hn h
  · rw [h, hok.part] at hf
    exact absurd hf (by simp)
  · rw [hc.host, hc.cold] at *
    exact ho.coldLinks r t' hr hl
  · rcases h with h | h
    · exact absurd (h.symm.trans hf) (by simp)
    · rw [FS.isDir_of_node (by rw [hnames]; simp) hf] at h
      exact absurd h (by simp [Node.isDir])
  · exact hscratch _ (h.trans (by rw [Demotion.linkTmp, List.append_assoc]))

/-- `archive_one` keeps the tiers in order. -/
theorem After.orderly : T.Orderly h.fs := by
  have hframe := ha.frame
  rw [hc.host] at hframe
  refine ⟨hframe.realDir ho.scratchDir, hframe.realDir ho.coldDir, fun p t hp hn => ?_,
    fun p t hp hn => ?_⟩
  · have hold : fs.node p = some (.link t) → LeadsToFile h.fs t ∧ T.cold <+: t.names := by
      intro hn
      obtain ⟨⟨habs, dir, n, i, hnames, hd, hpl, hf⟩, hcold⟩ := ho.links p t hp hn
      exact ⟨⟨habs, dir, n, i, hnames, hframe.realDir hd, hpl,
        (ha.target hc hok ho hp hn).trans hf⟩, hcold⟩
    by_cases hsrc : p = d.src
    · rcases ha.src with hs | ⟨-, hl, hd, i, hf, -⟩
      · rw [hsrc, hs, hc.host] at hn
        exact hold (hsrc ▸ hn)
      · rw [hsrc, hl, Option.some_inj, Node.link.injEq] at hn
        subst hn
        refine ⟨⟨rfl, d.cold ++ d.sub, d.name, i, rfl, hd, hc.plain, hf⟩, ?_⟩
        rw [← hc.cold]
        simp [Demotion.dest]
    · exact hold ((ha.node hc hok ho hp hsrc).symm.trans hn)
  · refine ho.coldLinks p t hp ?_
    rw [← hc.host]
    exact ha.links p t (hc.cold ▸ hp) hn

/-- `archive_one` leaves every other path of the scratch tier reading as before. -/
theorem After.untouched : T.Untouched fs d.src h.fs := by
  have hne : d.src ≠ [] := by simp [Demotion.src]
  refine untouched_of_same ho (ha.orderly hc hok ho) (fun q hq => ?_)
    (fun q hq hne => ha.node hc hok ho hq hne)
    (fun q t hq hn => .inl (ha.target hc hok ho hq hn)) fun i hi => ?_
  · by_cases hsrc : q = d.src
    · rw [hsrc]
      rcases ha.src with hs | ⟨hreg, hl, -⟩
      · rw [FS.isDir_congr hs, hc.host]
      · rw [FS.isDir_of_node hne hl, ← hc.host, FS.isDir_of_node hne hreg.file]
        rfl
    · exact FS.isDir_congr (ha.node hc hok ho hq hsrc)
  · rw [← hc.host] at hi ⊢
    exact ha.frame.inode i hi fun hw => hw.2.elim fun j hj => hj (hc.quiet j)

end After

/-! ### Calls of `restore_one` -/

/-- A call of `restore_one` on `scratch/sub/name`, with its arguments, its environment
and the host it starts from. -/
structure RestoreCall where
  sha256 : Bytes → String
  env : RestoreEnv
  sub : Path
  name : String
  scratch_roots : List Path
  cold_roots : List Path
  pairs : List (Path × Path)
  keep_cold : Bool
  h₀ : Host

namespace RestoreCall

variable (c : RestoreCall) (T : Tiers) (fs : FS)

def link : Path := T.scratch ++ c.sub ++ [c.name]

def partTmp : Path := T.scratch ++ c.sub ++ [tmpName "sr" c.env.urandom]

/-- The host that the call leaves. -/
def after : Host :=
  (outcomeOf (restore_one c.sha256 c.env (c.link T) c.scratch_roots c.cold_roots c.pairs
    c.keep_cold) c.h₀).2.now

/-- The call is made on the tiers `fs`, with nobody else at work; a copy that the
scratch tier does not keep shows in its digest. -/
structure On : Prop where
  host : c.h₀.fs = fs
  realDir : fs.RealDir (T.scratch ++ c.sub)
  plain : Plain c.name
  quiet : ∀ i h, c.env.before i h = h
  stored : ∀ b i, c.env.stored = some b → c.sha256 b ≠ c.sha256 (fs.inode i).data

/-- The condition on the call: no other link on the scratch tier leads to the target,
the name of the temporary is unused, and its removal after a failure does not itself
fail. -/
structure Ok : Prop where
  sole : ∀ t, fs.node (c.link T) = some (.link t) → ∀ q t', T.scratch <+: q → q ≠ c.link T →
    fs.node q = some (.link t') → t'.names ≠ t.names
  part : fs.node (c.partTmp T) = none
  unique : tmpName "sr" c.env.urandom ≠ c.name
  look : c.env.outcome .lexistsPartCleanup = .ok
  unlink : c.env.outcome .unlinkPart = .ok

/-- The restoration that the call is, when its link leads to `dir/cname`. -/
def restoration (dir : Path) (cname : String) (i : ℕ) : Restoration where
  sha256 := c.sha256
  env := c.env
  dir := T.scratch ++ c.sub
  name := c.name
  cdir := dir
  cname := cname
  h₀ := c.h₀
  i₀ := i

end RestoreCall

variable {c : RestoreCall}

/-- What a call of `restore_one` leaves: everything as it was, or the file restored. -/
theorem restore_after (hc : c.On T fs) (hok : c.Ok T fs) (ho : T.Orderly fs) :
    FS.SameBut (fun _ => False) (fun _ => False) fs (c.after T).fs ∨
      ∃ dir cname i, (c.restoration T dir cname i).Start ∧ T.cold <+: dir ++ [cname] ∧
        (c.restoration T dir cname i).Restored (c.after T) := by
  have hdir : c.h₀.fs.RealDir (T.scratch ++ c.sub) := by
    rw [hc.host]
    exact hc.realDir
  by_cases hl : ∃ t, fs.node (c.link T) = some (.link t)
  · obtain ⟨t, ht⟩ := hl
    obtain ⟨⟨habs, dir, cname, i, hnames, hd, hn, hf⟩, hcold⟩ := ho.links _ t
      (by simp [RestoreCall.link]) ht
    have ht' : t = ⟨true, dir ++ [cname]⟩ := by
      cases t
      simp_all
    subst ht'
    have hs : (c.restoration T dir cname i).Start := by
      refine ⟨hdir, hc.plain, ?_, ?_, hn, ?_, hok.unique, ?_, hc.quiet, ?_⟩
      · exact (congrArg (fun g : FS => g.node (c.link T)) hc.host).trans ht
      · show c.h₀.fs.RealDir dir
        rw [hc.host]
        exact hd
      · exact (congrArg (fun g : FS => g.node (dir ++ [cname])) hc.host).trans hf
      · rintro heq
        have hpart := hok.part
        rw [show c.partTmp T = dir ++ [cname] from heq.symm] at hpart
        exact absurd (hpart.symm.trans hf) (by simp)
      · intro b hb
        show c.sha256 b ≠ c.sha256 (c.h₀.fs.inode i).data
        rw [hc.host]
        exact hc.stored b i hb
    have hdone := ((Restoration.restore_one_spec hs c.scratch_roots c.cold_roots c.pairs c.keep_cold).conseq
        (fun _ _ h => h) (B := fun _ h => (c.restoration T dir cname i).Kept h ∨
          (c.restoration T dir cname i).Restored h)
        (F := fun _ h => (c.restoration T dir cname i).Kept h ∨
          (c.restoration T dir cname i).Restored h)
        (fun _ _ _ h => h.imp_left And.right)
        (fun _ h _ hh => .inl (hh ▸ ⟨Restoration.idle_start, fun ht => ht.1⟩))).of_end trivial rfl
    have hpart : c.h₀.fs.node (c.partTmp T) = none := by
      rw [hc.host]
      exact hok.part
    rcases hdone with ⟨hi, ht⟩ | hr
    · left
      have hnone := ht ⟨hpart, hok.look, hok.unlink⟩
      rw [← hc.host]
      refine ⟨fun p _ => ?_, hi.frame.inode, hi.frame.nextIno, hi.frame.isDir⟩
      by_cases hp : p = c.partTmp T
      · rw [hp, hpart]
        exact hnone
      · exact hi.frame.node p hp
    · exact .inr ⟨dir, cname, i, hs, hcold, hr⟩
  · left
    have hidle : c.after T = c.h₀ := (Restoration.restore_one_idle hc.quiet
      hdir hc.plain (fun t ht => absurd ⟨t, hc.host ▸ ht⟩ hl)).of_end trivial rfl
    rw [hidle, hc.host]
    exact FS.SameBut.refl fs

section Restored

variable {h : Host} {dir : Path} {cname : String} {i : ℕ} (hc : c.On T fs) (hok : c.Ok T fs)
  (ho : T.Orderly fs) (hs : (c.restoration T dir cname i).Start) (hcold : T.cold <+: dir ++ [cname])
  (hr : (c.restoration T dir cname i).Restored h)

include hc hok ho hs hcold hr

omit ho hs in
theorem Restored.node {q : Path} (hq : T.scratch <+: q) (hne : q ≠ c.link T) :
    h.fs.node q = fs.node q := by
  by_cases hp : q = c.partTmp T
  · rw [hp, hok.part]
    exact hr.tmp
  have := hr.frame.node q ?_
  · exact this.trans (congrArg (fun g : FS => g.node q) hc.host)
  · rintro (h | h | h)
    · exact hp h
    · exact hne h
    · exact apart hq (h ▸ hcold)

omit hcold in
theorem Restored.target {q : Path} {t : Target} (hq : T.scratch <+: q) (hne : q ≠ c.link T)
    (hn : fs.node q = some (.link t)) : h.fs.node t.names = fs.node t.names := by
  have hlink : fs.node (c.link T) = some (.link ⟨true, dir ++ [cname]⟩) :=
    (congrArg (fun g : FS => g.node (c.link T)) hc.host).symm.trans hs.isLink
  have htc := (ho.links q t hq hn).2
  have := hr.frame.node t.names ?_
  · exact this.trans (congrArg (fun g : FS => g.node t.names) hc.host)
  · rintro (h | h | h)
    · refine apart (T := T) ?_ (h ▸ htc)
      simp [RestoreCall.restoration, Restoration.partTmp]
    · refine apart (T := T) ?_ (h ▸ htc)
      simp [RestoreCall.restoration, Restoration.link]
    · exact hok.sole _ hlink q t hq hne hn h

theorem Restored.orderly : T.Orderly h.fs := by
  have hframe := hr.frame
  rw [show (c.restoration T dir cname i).h₀.fs = fs from hc.host] at hframe
  refine ⟨hframe.realDir ho.scratchDir, hframe.realDir ho.coldDir, fun p t hp hn => ?_,
    fun p t hp hn => ?_⟩
  · by_cases hl : p = c.link T
    · obtain ⟨j, hj, -⟩ := hr.file
      rw [hl] at hn
      exact absurd (hn.symm.trans hj) (by simp)
    · have hold := (Restored.node hc hok hcold hr hp hl).symm.trans hn
      obtain ⟨⟨habs, d', n, j, hnames, hd, hpl, hf⟩, htc⟩ := ho.links p t hp hold
      exact ⟨⟨habs, d', n, j, hnames, hframe.realDir hd, hpl,
        (Restored.target hc hok ho hs hr hp hl hold).trans hf⟩, htc⟩
  · by_cases ht : p = dir ++ [cname]
    · rw [ht] at hn
      rcases hr.cold with h' | h'
      · exact absurd (hn.symm.trans h') (by simp)
      · exact absurd (hn.symm.trans h') (by simp)
    · refine ho.coldLinks p t hp ((hframe.node p ?_).symm.trans hn)
      rintro (h | h | h)
      · refine apart (T := T) ?_ (h ▸ hp)
        simp [RestoreCall.restoration, Restoration.partTmp]
      · refine apart (T := T) ?_ (h ▸ hp)
        simp [RestoreCall.restoration, Restoration.link]
      · exact ht h

theorem Restored.untouched : T.Untouched fs (c.link T) h.fs := by
  refine untouched_of_same ho (Restored.orderly hc hok ho hs hcold hr) (fun q hq => ?_)
    (fun q hq hne => Restored.node hc hok hcold hr hq hne) (fun q t hq hn => ?_) fun j hj => ?_
  · by_cases hl : q = c.link T
    · obtain ⟨j, hj, -⟩ := hr.file
      have hne : c.link T ≠ [] := by simp [RestoreCall.link]
      have hlink : fs.node (c.link T) = some (.link ⟨true, dir ++ [cname]⟩) :=
        (congrArg (fun g : FS => g.node (c.link T)) hc.host).symm.trans hs.isLink
      rw [hl, FS.isDir_of_node hne hj, FS.isDir_of_node hne hlink]
      rfl
    · exact FS.isDir_congr (Restored.node hc hok hcold hr hq hl)
  · by_cases hl : q = c.link T
    · exact .inr hl
    · exact .inl (Restored.target hc hok ho hs hr hq hl hn)
  · have := hr.frame.inode j (by rw [show (c.restoration T dir cname i).h₀.fs = fs from hc.host]; exact hj) fun h => h
    exact this.trans (congrArg (fun g : FS => g.inode j) hc.host)

end Restored

/-- `restore_one` keeps the tiers in order. -/
theorem orderly_restore (hc : c.On T fs) (hok : c.Ok T fs) (ho : T.Orderly fs) :
    T.Orderly (c.after T).fs := by
  rcases restore_after hc hok ho with hsame | ⟨dir, cname, i, hs, hcold, hr⟩
  · refine ho.change_old hsame (fun _ h => h.elim) fun q t hn => ?_
    rwa [hsame.node q fun h => h] at hn
  · exact Restored.orderly hc hok ho hs hcold hr

/-- `restore_one` leaves every other path of the scratch tier reading as before. -/
theorem untouched_restore (hc : c.On T fs) (hok : c.Ok T fs) (ho : T.Orderly fs) :
    T.Untouched fs (c.link T) (c.after T).fs := by
  have ho' := orderly_restore hc hok ho
  rcases restore_after hc hok ho with hsame | ⟨dir, cname, i, hs, hcold, hr⟩
  · exact untouched_of_same ho ho' (fun q _ => FS.isDir_congr (hsame.node q fun h => h))
      (fun q _ _ => hsame.node q fun h => h) (fun _ t _ _ => .inl (hsame.node t.names fun h => h))
      fun j hj => hsame.inode j hj fun h => h
  · exact Restored.untouched hc hok ho hs hcold hr

/-! ### Runs -/

/-- A step of a run: something users do, or a call that meets its condition. -/
inductive Step (T : Tiers) : FS → FS → Prop
  | user {fs fs' : FS} : T.UserStep fs fs' → Step T fs fs'
  | archive {fs : FS} {d : Demotion} (dry_run : Bool) (reason : Reason) : T.ArchiveCall fs d →
      ArchiveOk d → Step T fs (d.moved dry_run reason).fs
  | restore {fs : FS} {c : RestoreCall} : c.On T fs → c.Ok T fs → Step T fs (c.after T).fs

/-- Before anything is archived: no links on either tier. -/
structure Initial (T : Tiers) (fs : FS) : Prop where
  scratchDir : fs.RealDir T.scratch
  coldDir : fs.RealDir T.cold
  links : ∀ p t, T.scratch <+: p ∨ T.cold <+: p → fs.node p ≠ some (.link t)

theorem Initial.orderly (hi : T.Initial fs) : T.Orderly fs where
  scratchDir := hi.scratchDir
  coldDir := hi.coldDir
  links p t hp hn := absurd hn (hi.links p t (.inl hp))
  coldLinks p t hp := hi.links p t (.inr hp)

theorem Step.orderly (ho : T.Orderly fs) (h : T.Step fs fs') : T.Orderly fs' := by
  cases h with
  | user hu => exact orderly_user ho hu
  | archive dry_run reason hc hok => exact (hc.after hok ho dry_run reason).orderly hc hok ho
  | restore hc hok => exact orderly_restore hc hok ho

/-- Every state of a run is in order. -/
theorem orderly_run {fs₀ : FS} (hi : T.Initial fs₀) (hrun : Relation.ReflTransGen T.Step fs₀ fs) :
    T.Orderly fs := by
  induction hrun with
  | refl => exact hi.orderly
  | tail _ hstep ih => exact Step.orderly ih hstep

/-- In every run whose calls all meet their condition, one more such call leaves every
path of the scratch tier but its own reading as before. -/
theorem tiering_frame {fs₀ : FS} (hi : T.Initial fs₀)
    (hrun : Relation.ReflTransGen T.Step fs₀ fs) :
    (∀ d dry_run reason, T.ArchiveCall fs d → ArchiveOk d →
      T.Untouched fs d.src (d.moved dry_run reason).fs) ∧
    (∀ c : RestoreCall, c.On T fs → c.Ok T fs → T.Untouched fs (c.link T) (c.after T).fs) := by
  have ho := orderly_run hi hrun
  constructor
  · intro d dry_run reason hc hok
    exact (hc.after hok ho dry_run reason).untouched hc hok ho
  · intro c hc hok
    exact untouched_restore hc hok ho

/-! ### Two links on one cold file -/

/-- The two tiers of the example. -/
def small : Tiers where
  scratch := ["scratch"]
  cold := ["cold"]
  notCold := by decide
  notScratch := by decide

/-- `scratch/a` has been archived. -/
def archivedFS : FS := ((Demotion.alone 0o644#12).moved false .ttl).fs

/-- And its link copied to `scratch/b`. -/
def copiedFS : FS :=
  (archivedFS.symlink ⟨true, ["cold", "a"]⟩ ["scratch", "b"]).toOption.getD archivedFS

/-- Root's restore of `scratch/a`. -/
def restoreA : RestoreCall where
  sha256 b := toString b.length
  env := Demotion.admin
  sub := []
  name := "a"
  scratch_roots := [["scratch"]]
  cold_roots := [["cold"]]
  pairs := [(["scratch"], ["cold"])]
  keep_cold := false
  h₀ := { fs := copiedFS }

theorem not_link_small (f : Inode) (q : Path) (t : Target) :
    (smallTiers f).node q ≠ some (.link t) := by
  intro hn
  simp only [smallTiers, emptyTiers, FS.node_setNode, FS.node_newInode,
    Function.update_apply] at hn
  split_ifs at hn
  · exact absurd hn (by simp)
  · exact absurd hn (by simp)
  · exact absurd hn (by simp)
  · exact absurd hn (by simp [FS.empty])

theorem initial_small : small.Initial emptyTiers where
  scratchDir := FS.realDir_nil.concat (by decide) rfl
  coldDir := FS.realDir_nil.concat (by decide) rfl
  links p t _ hn := by
    simp only [emptyTiers, FS.node_setNode, Function.update_apply] at hn
    split_ifs at hn
    · exact absurd hn (by simp)
    · exact absurd hn (by simp)
    · exact absurd hn (by simp [FS.empty])

theorem place_small {fs : FS} {n : String} (hd : fs.isDir ["scratch"] = true) (hn : Plain n) :
    small.Place fs ["scratch", n] :=
  ⟨[], n, rfl, FS.realDir_nil.concat (by decide) hd, hn⟩

theorem ok_of_toOption {ε α : Type} {x : Except ε α} {a : α} (h : x.toOption = some a) :
    x = .ok a := by
  cases x with
  | ok b => rw [Option.some_inj.mp h]
  | error e => exact absurd h (by simp [Except.toOption])

theorem ok_getD_of_isSome {ε α : Type} {x : Except ε α} {a : α} (h : x.toOption.isSome = true) :
    x = .ok (x.toOption.getD a) := by
  cases x with
  | ok b => rfl
  | error e => exact absurd h (by simp [Except.toOption])

theorem copied_reachable : Relation.ReflTransGen small.Step emptyTiers copiedFS := by
  have hcreate : small.Step emptyTiers (smallTiers ⟨[1, 2, 3], ⟨1000, 100, 0o644#12⟩, 0, 0, 0⟩) :=
    .user (.create (p := ["scratch", "a"]) (place_small (by decide) (by decide)) rfl)
  have harchive : small.Step (smallTiers ⟨[1, 2, 3], ⟨1000, 100, 0o644#12⟩, 0, 0, 0⟩) archivedFS := by
    refine .archive false .ttl ⟨rfl, rfl, rfl, (Demotion.alone_start _).realSrc,
      (Demotion.alone_start _).plain, .inl (Demotion.alone_regular _), fun _ => rfl,
      (Demotion.alone_fair _).stored⟩ ⟨fun _ q t _ hn => ?_, rfl, rfl,
        (Demotion.alone_start _).uniquePart, (Demotion.alone_start _).uniqueLink, rfl, rfl⟩
    exact absurd hn (not_link_small _ q t)
  have hcopy : small.Step archivedFS copiedFS := by
    exact .user (.copyLink (p := ["scratch", "a"]) (q := ["scratch", "b"])
      (t := ⟨true, ["cold", "a"]⟩) (place_small (by decide +kernel) (by decide))
      (place_small (by decide +kernel) (by decide)) (ok_of_toOption (by decide +kernel))
      (ok_getD_of_isSome (by decide +kernel)))
  exact .tail (.tail (.single hcreate) harchive) hcopy

theorem restoreA_on : restoreA.On small copiedFS where
  host := by rw [restoreA]
  realDir := show copiedFS.RealDir ([] ++ ["scratch"]) from
    FS.realDir_nil.concat (by decide) (by decide +kernel)
  plain := show Plain "a" by decide
  quiet _ _ := rfl
  stored _ _ h := absurd h (by simp [restoreA, Demotion.admin])

/-- Restoring `scratch/a` removes the cold file that `scratch/b` reads. -/
theorem restore_dangles : ∃ (T : Tiers) (fs₀ fs : FS) (c : RestoreCall), T.Initial fs₀ ∧
    Relation.ReflTransGen T.Step fs₀ fs ∧ c.On T fs ∧ ¬ T.Untouched fs (c.link T) (c.after T).fs := by
  refine ⟨small, emptyTiers, copiedFS, restoreA, initial_small, copied_reachable, restoreA_on,
    fun h => ?_⟩
  have hbefore : Reads copiedFS ["scratch", "b"] [1, 2, 3] := ⟨10, by decide +kernel⟩
  have hafter : Reads (restoreA.after small).fs ["scratch", "b"] [1, 2, 3] :=
    (h ["b"] (by decide) (by decide) _).mpr hbefore
  obtain ⟨k, q, i, hw, hn, -⟩ := Posix.reads_iff.mp hafter
  -- the lookup of `scratch/b` ends at `cold/a`, where nothing is left
  have hend : (restoreA.after small).fs.walk true 10 [] ["scratch", "b"] = .ok ["cold", "a"] :=
    ok_of_toOption (by decide +kernel)
  have hq := (FS.walk_mono (Nat.le_max_right k 10) hend).symm.trans
    (FS.walk_mono (Nat.le_max_left k 10) hw)
  rw [← Except.ok.inj hq] at hn
  have hgone : (restoreA.after small).fs.node ["cold", "a"] = none := by decide +kernel
  rw [hgone] at hn
  exact absurd hn (by simp)

theorem tiering_frame_small :
    (∀ d dry_run reason, small.ArchiveCall copiedFS d → ArchiveOk d →
      small.Untouched copiedFS d.src (d.moved dry_run reason).fs) ∧
    (∀ c : RestoreCall, c.On small copiedFS → c.Ok small copiedFS →
      small.Untouched copiedFS (c.link small) (c.after small).fs) :=
  tiering_frame initial_small copied_reachable

end Tiers

end Scratch
