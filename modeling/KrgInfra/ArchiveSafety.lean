/-
What `archive_one` leaves, whatever fails and whoever writes to the file.

* `makedirs_mirror_spec`, `copy_and_hash_spec`, `archive_verify_spec` — the steps of
  the first `try` block, and `archive_copy_spec` for the whole of it;
* `archive_swap_spec` — the last `try` block;
* `archive_one_spec` — every state on the way is one of `Base`, `Late` and
  `Swapped`;
* `archive_fail_closed` — so the source can be read in every one of them.
-/
import KrgInfra.Demotion

namespace Scratch

open Posix

namespace Demotion

variable {d : Demotion} (hs : d.Start) (hf : d.Fair)

include hs hf

/-! ### The cold directories -/

omit hf in
/-- A cold directory on the way to the destination, or a gap there, may be
changed. -/
theorem Base.level {h : Host} (hb : d.Base h) {p : Path} (hc : d.cold <+: p)
    (hp : p <+: d.cold ++ d.sub) (hn : h.fs.node p = none ∨ h.fs.isDir p = true) :
    d.Touched p ∧ p ≠ d.src := by
  refine ⟨?_, ?_⟩
  · by_contra ht
    have hsame := hb.frame.node p ht
    refine ht (.inr (.inr (.inr (.inr ⟨hc, hp, ?_⟩))))
    rcases hn with hn | hn
    · exact .inl (hsame ▸ hn)
    · exact .inr (FS.isDir_congr hsame ▸ hn)
  · rw [src, List.append_assoc]
    exact ne_of_cold hs hc _

omit hf in
/-- Making or changing a cold directory on the way keeps `Base`. -/
theorem Base.setDir {h : Host} (hb : d.Base h) {p : Path} {m : Perm} (hc : d.cold <+: p)
    (hp : p <+: d.cold ++ d.sub) (hn : h.fs.node p = none ∨ h.fs.isDir p = true)
    (hset : h.fs.CanSet p (.dir m)) : d.Base { h with fs := h.fs.setNode p (.dir m) hset } := by
  have hlevel := hb.level hs hc hp hn
  refine hb.change (FS.sameBut_setNode hset) (FS.NoNewLinks.setNode hset rfl) ?_
    fun _ hi => hi.elim
  rintro q rfl
  exact hlevel

theorem mirrorDir_spec {k : ℕ} {done : Path} {part : String} (hpart : Plain part)
    (hpre : d.cold ++ done ++ [part] <+: d.cold ++ d.sub) :
    Triple d.Always (fun h => d.Base h ∧ h.fs.RealDir (d.cold ++ done))
      (mirrorDir d.env d.src k (d.cold ++ done ++ [part]))
      (fun _ h => d.Base h ∧ h.fs.RealDir (d.cold ++ done ++ [part])) (fun _ h => d.Base h) := by
  have hcold : d.cold <+: d.cold ++ done ++ [part] := by simp
  -- what the `lstat` has seen
  let seen : Option FS.Stat → Host → Prop := fun cst h =>
    d.Base h ∧ h.fs.RealDir (d.cold ++ done) ∧
      ∀ st, cst = some st → h.fs.node (d.cold ++ done ++ [part]) = some st.node
  refine Triple.bind (Q := seen) (Triple.tryCatch (E := fun _ => seen none) ?_ ?_) ?_
  · refine Triple.map ((early_ask hs hf (stable_realDir _)
      (Q := fun st h => h.fs.node (d.cold ++ done ++ [part]) = some st.node) ?_).except ?_) ?_
    · intro h st _ hd hst
      rw [FS.lstat, FS.locate_real hd hpart] at hst
      exact FS.node_of_statAt hst
    · rintro e h - ⟨hb, hd⟩
      exact ⟨hb, hd, fun st hst => absurd hst (by simp)⟩
    · rintro st h - ⟨hb, hd, hn⟩
      refine ⟨hb, hd, fun st' hst => ?_⟩
      rwa [← Option.some_inj.mp hst]
  · intro e
    by_cases he : e = .fileNotFound
    · rw [if_pos he]
      exact Triple.pure fun _ _ h => h
    · rw [if_neg he]
      exact Triple.throw (E := fun _ h => d.Base h) fun _ _ h => h.1
  · rintro (_ | cst)
    · -- nothing there: make the directory
      refine ((early_change hs hf (stable_realDir (d.cold ++ done)) ?_ (R := fun _ => True)
        (fun _ _ => trivial) fun _ _ => trivial).weaken fun _ _ h => ⟨h.1, h.2.1⟩).except
          fun _ _ _ h => h.1
      intro h fs' hb hd hmk
      obtain ⟨q, hset, hq, hnone, rfl⟩ := FS.create_ok hmk
      rw [FS.locate_real hd hpart, Except.ok.injEq] at hq
      subst hq
      refine ⟨hb.setDir hs hcold hpre (.inl hnone) hset, ?_⟩
      refine ((FS.sameBut_setNode hset).realDir hd).concat hpart ?_
      simp [FS.isDir, Node.isDir]
    · -- something there: it has to be a real directory
      show Triple _ _ (if _ then _ else if _ then _ else _) _ _
      by_cases hl : cst.node.isLink = true
      · rw [if_pos hl]
        exact Triple.throw fun _ _ h => h.1
      rw [if_neg hl]
      by_cases hdir : cst.node.isDir = false
      · rw [if_pos hdir]
        exact Triple.throw fun _ _ h => h.1
      rw [if_neg hdir]
      refine Triple.pure ?_
      rintro h - ⟨hb, hd, hn⟩
      refine ⟨hb, hd.concat hpart ?_⟩
      rw [FS.isDir_of_node (by simp) (hn cst rfl)]
      exact (Bool.not_eq_false _).mp hdir

theorem mirrorPerm_spec {k : ℕ} {cur_src done : Path} {part : String} (hpart : Plain part)
    (hpre : d.cold ++ done ++ [part] <+: d.cold ++ d.sub) :
    Triple d.Always (fun h => d.Base h ∧ h.fs.RealDir (d.cold ++ done ++ [part]))
      (mirrorPerm d.env d.src k cur_src (d.cold ++ done ++ [part]))
      (fun _ h => d.Base h ∧ h.fs.RealDir (d.cold ++ done ++ [part])) (fun _ h => d.Base h) := by
  have hcold : d.cold <+: d.cold ++ done ++ [part] := by simp
  have hst := stable_realDir (d := d) (d.cold ++ done ++ [part])
  -- a call that finds the directory itself changes nothing but its owner and mode
  have hset : ∀ (h : Host) (m m' : Perm) (hq : h.fs.CanSet (d.cold ++ done ++ [part]) (.dir m')),
      d.Base h → h.fs.RealDir (d.cold ++ done ++ [part]) →
      h.fs.node (d.cold ++ done ++ [part]) = some (.dir m) →
      d.Base { h with fs := h.fs.setNode _ (.dir m') hq } ∧
        (h.fs.setNode _ (.dir m') hq).RealDir (d.cold ++ done ++ [part]) := by
    intro h m m' hq hb hd hn
    refine ⟨hb.setDir hs hcold hpre (.inr (hd.2 _ List.prefix_rfl)) hq, ?_⟩
    exact (FS.sameBut_setNode hq).realDir hd
  refine Triple.attempt ?_
  refine Triple.bind (early_ask hs hf hst (Q := fun _ _ => True) fun _ _ _ _ _ => trivial)
    fun sst => ?_
  refine (Triple.bind (early_change hs hf hst (Q := fun h => h.fs.RealDir _) ?_ (fun _ h => h)
    fun _ h => h) fun _ => early_change hs hf hst ?_ (fun _ h => h) fun _ h => h).weaken
      fun _ _ h => ⟨h.1, h.2.1⟩
  · intro h fs' hb hd hc
    obtain ⟨m, hm⟩ := FS.isDir_append (hd.2 _ List.prefix_rfl)
    obtain ⟨q, hq, hcase⟩ := FS.lchown_ok hc
    rw [FS.locate_real (hd.of_prefix (List.prefix_append _ _)) hpart, Except.ok.injEq] at hq
    subst hq
    obtain ⟨i, hi, -⟩ | ⟨m', m'', hm', hset', rfl⟩ | rfl := hcase
    · exact absurd (hm.symm.trans hi) (by simp)
    · exact hset h m' m'' hset' hb hd hm'
    · exact ⟨hb, hd⟩
  · intro h fs' hb hd hc
    obtain ⟨m, hm⟩ := FS.isDir_append (hd.2 _ List.prefix_rfl)
    obtain ⟨q, hq, hcase⟩ := FS.chmod_ok hc
    rw [FS.resolve_real (hd.of_prefix (List.prefix_append _ _)) hpart (fun t => by rw [hm]; simp),
      Except.ok.injEq] at hq
    subst hq
    obtain ⟨i, hi, -⟩ | ⟨m', m'', hm', hset', rfl⟩ := hcase
    · exact absurd (hm.symm.trans hi) (by simp)
    · exact hset h m' m'' hset' hb hd hm'

theorem mirrorLevels_spec : ∀ (parts : List String) (k : ℕ) (cur_src done : Path),
    (∀ n ∈ parts, Plain n) → done ++ parts = d.sub →
    Triple d.Always (fun h => d.Base h ∧ h.fs.RealDir (d.cold ++ done))
      (mirrorLevels d.env d.src k cur_src (d.cold ++ done) parts)
      (fun _ h => d.Base h ∧ h.fs.RealDir (d.cold ++ d.sub)) (fun _ h => d.Base h) := by
  intro parts
  induction parts with
  | nil =>
    intro k cur_src done _ hsub
    rw [List.append_nil] at hsub
    subst hsub
    exact Triple.pure fun _ _ h => h
  | cons part parts ih =>
    intro k cur_src done hplain hsub
    have hpart := hplain part (by simp)
    have hsub' : done ++ [part] ++ parts = d.sub := by rw [← hsub]; simp
    have hpre : d.cold ++ done ++ [part] <+: d.cold ++ d.sub := by
      rw [← hsub']
      simp
    rw [mirrorLevels, if_neg hpart.1]
    refine Triple.bind (mirrorDir_spec hs hf hpart hpre) fun _ => ?_
    refine Triple.bind (mirrorPerm_spec hs hf hpart hpre) fun _ => ?_
    have := ih (k + 1) (join cur_src [part]) (done ++ [part])
      (fun n hn => hplain n (by simp [hn])) hsub'
    rwa [← List.append_assoc] at this

theorem makedirs_mirror_spec {rel : Path} (hrel : dirname rel = d.sub) :
    Triple d.Always d.Base (makedirs_mirror d.env d.src d.scratch d.cold rel)
      (fun _ h => d.Base h ∧ h.fs.RealDir (d.cold ++ d.sub)) (fun _ h => d.Base h) := by
  have hplain : ∀ n ∈ d.sub, Plain n := fun n hn => hs.realSrc.1 n (by simp [hn])
  have h := mirrorLevels_spec hs hf d.sub 0 d.scratch [] hplain (List.nil_append _)
  rw [List.append_nil] at h
  rw [makedirs_mirror, hrel]
  exact h.weaken fun h' _ hb => ⟨hb, hb.frame.realDir hs.realCold⟩

/-! ### The copy's temporary -/

omit hf in
/-- Wherever the name of the copy's temporary is found, it may be changed there. -/
theorem Base.touched_part {h : Host} (hb : d.Base h) {q : Path}
    (hq : h.fs.locate d.partTmp = .ok q) : d.Touched q ∧ q ≠ d.src := by
  obtain ⟨r, hr⟩ := FS.locate_last (tmpName_plain _ _) hq
  have hname : q ≠ d.src := by
    rintro rfl
    exact hs.uniquePart (List.append_inj_right' hr rfl |> List.singleton_inj.mp).symm
  refine ⟨?_, hname⟩
  by_cases hl : ∃ p t, d.cold <+: p ∧ d.h₀.fs.node p = some (.link t)
  · exact .inr (.inr (.inr (.inl ⟨by rw [hr]; simp, hl⟩)))
  · -- no link on the cold tier: the lookup ends at the path itself
    have hcold : h.fs.RealDir d.cold := hb.frame.realDir hs.realCold
    have hplain : ∀ n ∈ d.sub ++ [tmpName "so" d.env.urandomPart], Plain n := by
      intro n hn
      rcases List.mem_append.mp hn with hn | hn
      · exact hs.realSrc.1 n (by simp [hn])
      · rw [List.mem_singleton.mp hn]
        exact tmpName_plain _ _
    have hw : h.fs.walk false (h.fs.walkLimit + 1 + (d.sub.length + 1)) d.cold
        (d.sub ++ [tmpName "so" d.env.urandomPart]) = .ok q := by
      have hd := FS.walk_dirs (f := false)
        (k := h.fs.walkLimit + 1 + (d.sub.length + 1))
        (r := d.sub ++ [tmpName "so" d.env.urandomPart]) (c := []) hcold.1
        fun p hp _ => by simpa using hcold.2 p hp
      rw [List.nil_append, ← List.append_assoc] at hd
      rw [← hd, ← hq, FS.locate, partTmp]
      simp only [List.length_append, List.length_singleton]
      congr 1
      omega
    have := FS.walk_linkless hplain
      (fun p t hp hn => hl ⟨p, t, hp, hb.links p t hn⟩) hw
    refine .inr (.inr (.inl ?_))
    rw [this, partTmp, List.append_assoc]

/-- Removing the copy's temporary, if it is there, by any of the calls that do. -/
theorem unlinkPart_spec {i : ArchiveSite} (p : Path) :
    Triple d.Always (fun h => d.Base h ∧ h.fs.RealDir p)
      (sys d.env d.src i (change (·.unlink d.partTmp)))
      (fun _ h => d.Base h ∧ h.fs.RealDir p) (fun _ h => d.Base h ∧ h.fs.RealDir p) := by
  refine early_change hs hf (stable_realDir p) ?_ (fun _ h => h) fun _ h => h
  intro h fs' hb hd hu
  have hsame := FS.sameBut_unlink hu
  obtain ⟨q, hq, hl, rfl⟩ := FS.unlink_ok hu
  refine ⟨hb.change hsame (FS.NoNewLinks.clearNode hq) ?_ fun _ hi => hi.elim,
    hsame.realDir hd⟩
  exact fun r hr => hb.touched_part hs hr

theorem unlinkIfThere_part_spec {i j : ArchiveSite} (p : Path) :
    Triple d.Always (fun h => d.Base h ∧ h.fs.RealDir p)
      (unlinkIfThere (d.env.toEnv d.src) i j d.partTmp)
      (fun _ h => d.Base h ∧ h.fs.RealDir p) (fun _ h => d.Base h ∧ h.fs.RealDir p) := by
  have hlook : Triple d.Always (fun h => d.Base h ∧ h.fs.RealDir p)
      (lexists (d.env.toEnv d.src) i d.partTmp)
      (fun _ h => d.Base h ∧ h.fs.RealDir p) (fun _ h => d.Base h ∧ h.fs.RealDir p) := by
    refine Triple.map (Q := fun _ h => d.Base h ∧ h.fs.RealDir p) (Triple.attempt ?_)
      fun _ _ _ h => h
    refine (early_ask hs hf (stable_realDir p) (Q := fun _ _ => True)
      fun _ _ _ _ _ => trivial).conseq (fun _ _ h => h) ?_ fun _ _ _ h => h
    exact fun _ _ _ h => ⟨h.1, h.2.1⟩
  refine Triple.bind hlook fun there => ?_
  cases there with
  | false => exact Triple.pure fun _ _ h => h
  | true => exact unlinkPart_spec hs hf p

/-! ### The copy -/

/-- A call through a descriptor that changes nothing. -/
theorem early_id {i : ArchiveSite} {P : Host → Prop} (hst : d.Stable P) :
    Triple d.Always (fun h => d.Base h ∧ P h) (sys d.env d.src i (changeFd id))
      (fun _ h => d.Base h ∧ P h) (fun _ h => d.Base h ∧ P h) := by
  refine early_change hs hf hst ?_ (fun _ h => h) fun _ h => h
  intro h fs' hb hP hr
  obtain rfl : h.fs = fs' := Except.ok.inj hr
  exact ⟨hb, hP⟩

omit hf in
/-- The new file of the copy. -/
theorem Base.create_part {h : Host} {fs' : FS} {fd : ℕ} {mode : BitVec 12} {K : Prop}
    (hb : d.Base h) (hd : h.fs.RealDir (d.cold ++ d.sub)) (hK : d.Clean h → K)
    (hc : h.fs.createExcl d.partTmp mode = .ok (fd, fs')) :
    d.Base { h with fs := fs' } ∧
      d.Holding d.partTmp fd (fun f => f.data = []) K { h with fs := fs' } := by
  have hsame := FS.sameBut_createExcl hc
  obtain ⟨rfl, hcreate⟩ := FS.createExcl_ok hc
  obtain ⟨q, hset, hq, -, rfl⟩ := FS.create_ok hcreate
  rw [FS.locate_newInode] at hq
  have htouch := hb.touched_part hs hq
  rw [partTmp, FS.locate_real hd (tmpName_plain _ _), Except.ok.injEq] at hq
  obtain rfl : d.partTmp = q := hq
  have hnot : ¬ h.fs.locate d.partTmp = .ok d.src := fun hl => (hb.touched_part hs hl).2 rfl
  refine ⟨hb.change hsame ?_ (fun p hp => hb.touched_part hs hp) fun _ hi => hi.elim, ?_⟩
  · exact (FS.NoNewLinks.of_node rfl).trans (FS.NoNewLinks.setNode hset rfl)
  · refine ⟨hsame.realDir hd, ?_, ⟨hb.frame.nextIno, ?_, ?_⟩, ?_, fun hclean => hK ?_⟩
    · rw [FS.node_setNode, Function.update_self]
    · show h.fs.nextIno < h.fs.nextIno + 1
      omega
    · intro hn
      have hsrc := hsame.node _ hnot
      have := h.fs.fresh _ _ (hsrc ▸ hn)
      omega
    · simp
    · exact (clean_of_change hsame hnot (fun hi => hi) hb.frame.nextIno).mp hclean

variable (hreg : d.Regular)

include hreg

/-- What has been read is a prefix of the source, unless somebody wrote to it. -/
def ReadSoFar (d : Demotion) (src_fd : ℕ) (acc : Bytes) : Prop :=
  src_fd = d.i₀ ∧ acc <+: d.f₀.data

omit hs hf hreg in
theorem ReadSoFar.next {h : Host} {src_fd n : ℕ} {acc : Bytes} (hr : d.ReadSoFar src_fd acc)
    (hc : d.Clean h) (hreg : d.Regular) :
    d.ReadSoFar src_fd (acc ++ ((h.fs.inode src_fd).data.drop acc.length).take n) := by
  obtain ⟨rfl, t, ht⟩ := hr
  refine ⟨rfl, ?_⟩
  rw [hc.inode hreg, ← ht, List.drop_left]
  exact (List.prefix_append_right_inj acc).mpr (List.take_prefix n t)

theorem copy_and_hash_spec :
    Triple d.Always (fun h => d.Base h ∧ h.fs.RealDir (d.cold ++ d.sub))
      (copy_and_hash d.sha256 (d.env.toEnv d.src) .copy d.env.cp d.src d.partTmp)
      (fun r h => ∃ read, r.1 = d.sha256 read ∧ r.2.1 = read.length ∧ d.Base h ∧
        d.Holding d.partTmp r.2.2 (fun f => f.data = read) (read <+: d.f₀.data) h)
      (fun _ h => d.Base h) := by
  have hopen : d.Stable fun h => h.fs.RealDir (d.cold ++ d.sub) := stable_realDir _
  have hopened : ∀ src_fd, d.Stable fun h =>
      h.fs.RealDir (d.cold ++ d.sub) ∧ (d.Clean h → src_fd = d.i₀) := by
    intro src_fd i a h ha hb hP
    refine ⟨hopen i a h ha hb hP.1, fun hc => ?_⟩
    exact absurd (apply_base hs hf ha hb).2 (hc.not_dirty hreg)
  have hst : ∀ src_fd fd (R : Inode → Prop) acc,
      d.Stable (d.Holding d.partTmp fd R (d.ReadSoFar src_fd acc)) := fun src_fd fd R acc =>
    stable_holding hs hf (partTmp_ne_path hs) fd R _
  refine (copy_and_hash_rule (O := fun src_fd h => d.Base h ∧
    h.fs.RealDir (d.cold ++ d.sub) ∧ (d.Clean h → src_fd = d.i₀))
    (H := fun src_fd fd data acc h => d.Base h ∧
      d.Holding d.partTmp fd (fun f => f.data = data) (d.ReadSoFar src_fd acc) h)
    ?_ ?_ ?_ ?_ ?_).conseq (fun _ _ h => h) ?_ fun _ _ _ h => h
  · -- opening the source
    refine (early_ask hs hf hopen ?_).except fun _ _ _ h => h.1
    intro h src_fd hb _ ho hc
    obtain ⟨q, hq, hn⟩ := FS.openRead_ok ho
    rw [src, FS.locate_real (hb.frame.realDir hs.realSrc) hs.plain, Except.ok.injEq] at hq
    obtain rfl : d.src = q := hq
    rw [hc.file hreg, Option.some_inj, Node.file.injEq] at hn
    exact hn.symm
  · -- creating the temporary
    intro src_fd
    refine (sys_early hs hf (hopened src_fd) (R := fun _ => True) ?_
      fun _ _ _ => ⟨trivial, trivial⟩).except fun _ _ _ h => h.1
    intro h hb hP
    cases hc : h.fs.createExcl d.partTmp 0o600#12 with
    | error e =>
      simp only [Work.update, hc, Except.map]
      exact ⟨hb, fun a ha => absurd ha (by simp)⟩
    | ok r =>
      have h' := hb.create_part hs (K := d.ReadSoFar src_fd []) hP.1
        (fun hclean => ⟨hP.2 hclean, List.nil_prefix⟩) hc
      simp only [Work.update, hc, Except.map]
      refine ⟨h'.1, fun a ha => ?_⟩
      rw [← Except.ok.inj ha]
      exact h'.2
  · -- reading a buffer
    intro src_fd fd k acc
    refine (early_ask hs hf (hst src_fd fd _ acc)
      (Q := fun buf h => d.Clean h → d.ReadSoFar src_fd (acc ++ buf)) ?_).conseq
        (fun _ _ h => h) ?_ fun _ _ _ h => h.1
    · intro h buf _ hh ho hc
      rw [← Except.ok.inj ho]
      exact (hh.clean hc).next hc hreg
    · rintro buf h - ⟨hb, hh, hc⟩
      exact ⟨hb, hh.dir, hh.node, hh.ours, hh.file, hc⟩
  · -- writing a part of it
    intro src_fd fd data acc bs k j _
    refine early_fd hs hf hreg (partTmp_ne_path hs) (fun _ => rfl) ?_
    rintro fs rfl
    rfl
  · exact fun src_fd fd read i => (early_id hs hf (hst src_fd fd _ read)).except fun _ _ _ h => h.1
  · rintro x h - ⟨src_fd, read, hsha, hn, hb, hh⟩
    exact ⟨read, hsha, hn, hb, hh.dir, hh.node, hh.ours, hh.file, fun hc => (hh.clean hc).2⟩

/-! ### Verifying and publishing the copy -/

section Verified

variable (d : Demotion)

/-- What the cold tier gives back for the bytes `read`. -/
def storedAs (read : Bytes) : Bytes := d.env.stored.getD read

/-- `p` holds a file that the cold tier has read back with the right digest, with
the source's owner, mode and mtime; it is the source's content unless somebody
wrote to the source. -/
def Verified (p : Path) (read : Bytes) (fd : ℕ) : Host → Prop :=
  d.Holding p fd
    (fun f => f.data = d.storedAs read ∧ f.perm = d.f₀.perm ∧ f.mtime = d.f₀.mtime)
    (d.storedAs read = d.f₀.data ∧ read = d.f₀.data)

/-- The answer of the first stat. -/
def st₀ : FS.Stat :=
  ⟨.file d.i₀, some d.i₀, d.f₀.data.length, d.h₀.fs.alloc d.f₀.data, d.f₀.perm, d.f₀.atime,
    d.f₀.mtime, d.f₀.ctime⟩

end Verified

/-- Reading the copy back. -/
theorem fd_sha256_spec {fd : ℕ} {read : Bytes} {K : Prop} :
    Triple d.Always
      (fun h => d.Base h ∧ d.Holding d.partTmp fd (fun f => f.data = read) K h)
      (fd_sha256 d.sha256 d.env d.src fd)
      (fun sha h => sha = d.sha256 (d.storedAs read) ∧ d.Base h ∧
        d.Holding d.partTmp fd (fun f => f.data = d.storedAs read) K h)
      (fun _ h => d.Base h) := by
  refine (sys_early hs hf (stable_holding hs hf (partTmp_ne_path hs) fd _ K)
    (Q := fun sha h => sha = d.sha256 (d.storedAs read) ∧
      d.Holding d.partTmp fd (fun f => f.data = d.storedAs read) K h)
    (R := fun _ => True) ?_ fun _ _ _ => ⟨trivial, trivial⟩).conseq (fun _ _ h => h)
      (fun _ _ _ h => ⟨h.2.1, h.1, h.2.2⟩) fun _ _ _ h => h.1
  intro h hb hh
  cases hst : d.env.stored with
  | none =>
    simp only [storedAs, hst, Option.getD_none, hh.file]
    refine ⟨hb, fun a ha => ⟨(Except.ok.inj ha).symm, hh⟩⟩
  | some b =>
    have hsame := @FS.sameBut_setInode h.fs fd { h.fs.inode fd with data := b }
    have hne : ¬ d.i₀ = fd := by
      have := hreg.ino_lt
      have := hh.ours.1
      omega
    simp only [storedAs, hst, Option.getD_some]
    refine ⟨hb.change hsame (FS.NoNewLinks.of_node rfl) (fun _ hn => hn.elim) ?_,
      fun a ha => ⟨?_, hsame.realDir hh.dir, hh.node, hh.ours, ?_, fun hc => hh.clean ?_⟩⟩
    · rintro j rfl
      exact ⟨hh.ours.1, hh.ours.2.2⟩
    · rw [← Except.ok.inj ha]
      simp
    · simp
    · exact (clean_of_change hsame (fun hn => hn) hne
        hb.frame.nextIno).mp hc

theorem archive_verify_spec {fd : ℕ} {read : Bytes} :
    Triple d.Always
      (fun h => d.Base h ∧
        d.Holding d.partTmp fd (fun f => f.data = read) (read <+: d.f₀.data) h)
      (archive_verify d.sha256 d.env d.src d.st₀ d.partTmp (d.sha256 read) read.length fd)
      (fun ok h => d.Base h ∧ (ok = true → d.Verified d.partTmp read fd h))
      (fun _ h => d.Base h) := by
  have hunlink : ∀ i, Triple d.Always (fun h => d.Base h)
      (sys d.env d.src i (change (·.unlink d.partTmp))) (fun _ h => d.Base h)
      (fun _ h => d.Base h) := fun i =>
    (unlinkPart_spec hs hf []).conseq
      (fun _ _ h => ⟨h, FS.realDir_nil⟩) (fun _ _ _ h => h.1)
      fun _ _ _ h => h.1
  rw [archive_verify]
  by_cases hlen : read.length ≠ d.st₀.size
  · rw [if_pos hlen]
    refine Triple.bind ((hunlink _).weaken fun _ _ h => h.1) fun _ => ?_
    exact Triple.pure fun _ _ h => ⟨h, fun hc => absurd hc (by simp)⟩
  rw [if_neg hlen]
  refine Triple.bind (fd_sha256_spec hs hf hreg) fun sha => Triple.of_fact ?_
  rintro rfl
  by_cases hsha : d.sha256 (d.storedAs read) ≠ d.sha256 read
  · rw [if_pos hsha]
    refine Triple.bind ((hunlink _).weaken fun _ _ h => h.1) fun _ => ?_
    exact Triple.pure fun _ _ h => ⟨h, fun hc => absurd hc (by simp)⟩
  rw [if_neg hsha]
  -- the copy is as long as the source was and reads back with the digest of what was read
  have hread : read <+: d.f₀.data → d.storedAs read = d.f₀.data ∧ read = d.f₀.data := by
    intro hpre
    have heq : read = d.f₀.data := hpre.eq_of_length (not_not.mp hlen)
    refine ⟨?_, heq⟩
    cases hst : d.env.stored with
    | none => simpa [storedAs, hst] using heq
    | some b =>
      have hb : d.sha256 b = d.sha256 read := by simpa [storedAs, hst] using hsha
      exact absurd (heq ▸ hb) (hf.stored b hst)
  have hpart := partTmp_ne_path hs
  refine Triple.bind (early_fd hs hf hreg hpart (fun _ => rfl)
    (S := fun f => f.data = d.storedAs read ∧ f.perm.uid = d.f₀.perm.uid ∧
      f.perm.gid = d.f₀.perm.gid) fun _ hr => ⟨hr, rfl, rfl⟩) fun _ => ?_
  refine Triple.bind (early_fd hs hf hreg hpart (fun _ => rfl)
    (S := fun f => f.data = d.storedAs read ∧ f.perm = d.f₀.perm) ?_) fun _ => ?_
  · rintro fs ⟨hdata, huid, hgid⟩
    refine ⟨hdata, ?_⟩
    show Perm.mk (fs.inode fd).perm.uid (fs.inode fd).perm.gid d.f₀.perm.mode = d.f₀.perm
    rw [huid, hgid]
  refine Triple.bind (early_fd hs hf hreg hpart (fun _ => rfl)
    (S := fun f => f.data = d.storedAs read ∧ f.perm = d.f₀.perm ∧ f.mtime = d.f₀.mtime)
    fun _ hr => ⟨hr.1, hr.2, rfl⟩) fun _ => ?_
  have hst := stable_holding hs hf hpart fd
    (fun f => f.data = d.storedAs read ∧ f.perm = d.f₀.perm ∧ f.mtime = d.f₀.mtime)
    (read <+: d.f₀.data)
  refine Triple.bind ((early_id hs hf hst).except fun _ _ _ h => h.1) fun _ => ?_
  refine Triple.bind (((early_ask hs hf hst (Q := fun _ _ => True)
    fun _ _ _ _ _ => trivial).except fun _ _ _ h => h.1)) fun lp => ?_
  refine Triple.bind (((early_ask hs hf hst (Q := fun _ _ => True)
    fun _ _ _ _ _ => trivial).weaken fun _ _ h => ⟨h.1, h.2.1⟩).except fun _ _ _ h => h.1)
      fun fst => ?_
  show Triple _ _ (if _ then _ else _) _ _
  by_cases hswapped : lp.node.isLink = true ∨ lp.ino ≠ fst.ino
  · rw [if_pos hswapped]
    exact Triple.throw fun _ _ h => h.1
  · rw [if_neg hswapped]
    refine Triple.pure ?_
    rintro h - ⟨hb, hh, -⟩
    exact ⟨hb, fun _ => ⟨hh.dir, hh.node, hh.ours, hh.file, fun hc => hread (hh.clean hc)⟩⟩

/-- The verified copy becomes the destination in one step. -/
theorem replaceDest_spec {read : Bytes} {fd : ℕ} :
    Triple d.Always (fun h => d.Base h ∧ d.Verified d.partTmp read fd h)
      (sys d.env d.src .replaceDest (change (·.replace d.partTmp d.dest)))
      (fun _ h => d.Base h ∧ d.Verified d.dest read fd h) (fun _ h => d.Base h) := by
  refine (early_change hs hf (stable_holding hs hf (partTmp_ne_path hs) fd _ _) ?_
    (R := fun _ => True) (fun _ _ => trivial) fun _ _ => trivial).except fun _ _ _ h => h.1
  intro h fs' hb hh hr
  have hsame := FS.sameBut_replace hr
  have hpart : h.fs.locate d.partTmp = .ok d.partTmp :=
    FS.locate_real hh.dir (tmpName_plain _ _)
  have hdest : h.fs.locate d.dest = .ok d.dest := FS.locate_real hh.dir hs.plain
  have hP : ∀ p, h.fs.locate d.partTmp = .ok p ∨ h.fs.locate d.dest = .ok p →
      d.Touched p ∧ p ≠ d.src := by
    rintro p (hp | hp)
    · exact hb.touched_part hs hp
    · rw [hdest, Except.ok.injEq] at hp
      subst hp
      exact ⟨.inr (.inl ⟨rfl, hreg⟩), dest_ne_path hs⟩
  obtain ⟨q, r, n, hq, hr', hn, hcase⟩ := FS.replace_ok hr
  rw [hpart, Except.ok.injEq] at hq
  rw [hdest, Except.ok.injEq] at hr'
  subst hq hr'
  rw [hh.node, Option.some_inj] at hn
  subst hn
  obtain ⟨heq, -⟩ | ⟨-, hdir, hset, rfl⟩ := hcase
  · exact absurd heq (partTmp_ne_dest hs)
  have hnot : ¬ (h.fs.locate d.partTmp = .ok d.src ∨ h.fs.locate d.dest = .ok d.src) :=
    fun hp => (hP _ hp).2 rfl
  refine ⟨hb.change hsame ?_ hP fun _ hi => hi.elim, hsame.realDir hh.dir, ?_,
    ⟨hh.ours.1, hh.ours.2.1, ?_⟩, hh.file, fun hc => hh.clean ?_⟩
  · exact (FS.NoNewLinks.clearNode hdir).trans (FS.NoNewLinks.setNode hset rfl)
  · rw [FS.node_setNode, Function.update_self]
  · rw [hsame.node _ hnot]
    exact hh.ours.2.2
  · exact (clean_of_change hsame hnot (fun hi => hi)
      hb.frame.nextIno).mp hc

theorem archive_copy_spec {rel : Path} (hrel : dirname rel = d.sub) :
    Triple d.Always d.Base
      (archive_copy d.sha256 d.env d.src d.scratch d.cold d.st₀ rel d.dest d.partTmp)
      (fun r h => d.Base h ∧ ∀ sha, r = some sha →
        ∃ read fd, sha = d.sha256 read ∧ d.Verified d.dest read fd h)
      (fun _ h => d.Base h) := by
  refine Triple.bind (makedirs_mirror_spec hs hf hrel) fun _ => ?_
  refine Triple.bind ((unlinkIfThere_part_spec hs hf _).except fun _ _ _ h => h.1) fun _ => ?_
  refine Triple.bind (copy_and_hash_spec hs hf hreg) ?_
  rintro ⟨sha, n, fd⟩
  refine Triple.exists_pre fun read => Triple.of_fact ?_
  rintro rfl
  refine Triple.of_fact ?_
  rintro rfl
  refine Triple.bind (Triple.withFinally (B := fun ok h =>
    d.Base h ∧ (ok = true → d.Verified d.partTmp read fd h)) (archive_verify_spec hs hf hreg) ?_ ?_) ?_
  · intro ok
    refine (early_id hs hf ?_).except fun _ _ _ h => h.1
    intro i a h ha hb hP hok
    exact stable_holding hs hf (partTmp_ne_path hs) fd _ _ i a h ha hb (hP hok)
  · intro e
    refine (early_id hs hf (P := fun _ => True) fun _ _ _ _ _ _ => trivial).conseq
      (fun _ _ h => ⟨h, trivial⟩) (fun _ _ _ h => h.1) fun _ _ _ h => h.1
  · intro verified
    cases verified with
    | false => exact Triple.pure fun _ _ h => ⟨h.1, fun _ hc => absurd hc (by simp)⟩
    | true =>
      refine Triple.bind ((replaceDest_spec hs hf hreg).weaken fun _ _ h => ⟨h.1, h.2 rfl⟩) fun _ => ?_
      refine Triple.pure ?_
      rintro h - ⟨hb, hh⟩
      refine ⟨hb, fun sha hsha => ⟨read, fd, ?_, hh⟩⟩
      exact (Option.some_inj.mp hsha).symm

/-! ### The swap -/

omit hs hreg in
/-- Nobody else writes after the second stat. -/
theorem before_late {i : ArchiveSite} (hi : i.late = true) (h : Host) :
    (d.env.toEnv d.src).before i h = h := by
  simp [ArchiveEnv.toEnv, hf.late i hi]

omit hs hreg in
theorem keep_late {i : ArchiveSite} {P : Host → Prop} (hi : i.late = true) :
    ∀ h, d.Always h → P h →
      d.Always ((d.env.toEnv d.src).before i h) ∧ P ((d.env.toEnv d.src).before i h) := by
  intro h hI hp
  rw [before_late hf hi]
  exact ⟨hI, hp⟩

omit hs hf hreg in
/-- What is published stays so through a change elsewhere. -/
theorem Published.change {h : Host} {fs' : FS} {P : Path → Prop} {m : List ManifestEntry}
    {l : Option Bytes} (hp : d.Published h) (hc : FS.SameBut P (fun _ => False) h.fs fs')
    (hP : ¬ P d.dest) : d.Published ⟨fs', m, l⟩ := by
  obtain ⟨hd, fd, hn, hge, hf⟩ := hp
  refine ⟨hc.realDir hd, fd, (hc.node _ hP).trans hn, hge, ?_⟩
  rw [hc.inode fd (h.fs.fresh _ _ hn) fun hF => hF]
  exact hf

omit hf hreg in
/-- A change of the link temporary or the source. -/
theorem SwapFrame.change {h : Host} {fs' : FS} {P : Path → Prop} {m : List ManifestEntry}
    {l : Option Bytes} (hfr : d.SwapFrame h) (hc : FS.SameBut P (fun _ => False) h.fs fs')
    (hP : ∀ p, P p → p = d.linkTmp ∨ p = d.src) : d.SwapFrame ⟨fs', m, l⟩ := by
  refine ⟨hfr.frame.extend hc (fun p hp => ?_) fun _ _ hF => hF.elim, fun q t hq hn => ?_⟩
  · rcases hP p hp with h' | h'
    · exact .inr h'
    · exact .inl (.inl h')
  · refine hfr.links q t hq ((hc.node q fun hp => ?_).symm.trans hn)
    rcases hP q hp with rfl | rfl
    · rw [linkTmp, List.append_assoc] at hq
      exact cold_not_prefix hs _ hq
    · rw [src, List.append_assoc] at hq
      exact cold_not_prefix hs _ hq

omit hf hreg in
/-- A change of the link temporary leaves the copy published and the source in
place. -/
theorem Late.change {h : Host} {fs' : FS} (hl : d.Late h)
    (hc : FS.SameBut (· = d.linkTmp) (fun _ => False) h.fs fs')
    (htmp : fs'.node d.linkTmp = none ∨ fs'.node d.linkTmp = some (.link ⟨true, d.dest⟩)) :
    d.Late { h with fs := fs' } where
  toSwapFrame := hl.toSwapFrame.change hs hc fun _ hp => .inl hp
  clean := (clean_of_change hc (linkTmp_ne_path hs).symm (fun hF => hF)
    hl.frame.nextIno).mpr hl.clean
  copy := hl.copy.change hc (dest_ne_linkTmp hs)
  tmp := fun _ => htmp

omit hf hreg in
theorem SwapFrame.locate_linkTmp {h : Host} (hfr : d.SwapFrame h) :
    h.fs.locate d.linkTmp = .ok d.linkTmp :=
  FS.locate_real (hfr.frame.realDir hs.realSrc) (tmpName_plain _ _)

omit hreg in
theorem unlinkLink_spec {i : ArchiveSite} (hi : i.late = true) :
    Triple d.Always d.Late (sys d.env d.src i (change (·.unlink d.linkTmp))) (fun _ => d.Late)
      (fun _ => d.Late) := by
  refine Triple.of_change (keep_late hf hi) ?_ (fun _ h _ => h) fun _ h => h
  intro h fs' hl hu
  have hsame := FS.sameBut_unlink hu
  obtain ⟨q, hdir, hq, rfl⟩ := FS.unlink_ok hu
  rw [hl.toSwapFrame.locate_linkTmp hs, Except.ok.injEq] at hq
  subst hq
  have hl' : d.Late { h with fs := h.fs.clearNode d.linkTmp hdir } :=
    hl.change hs (FS.sameBut_clearNode hdir) (.inl (by simp))
  exact ⟨hl', .inr (.inl hl')⟩

theorem archive_swap_spec :
    Triple d.Always d.Late (archive_swap d.env d.src d.dest d.linkTmp) (fun _ => d.Swapped)
      (fun _ h => d.Late h ∨ d.Swapped h) := by
  -- a stale temporary is removed
  refine Triple.bind (Q := fun _ => d.Late) ?_ fun _ => ?_
  · have hlook : Triple d.Always d.Late (lexists (d.env.toEnv d.src) .lexistsLink d.linkTmp)
        (fun _ => d.Late) (fun _ h => d.Late h ∨ d.Swapped h) := by
      refine Triple.map (Q := fun _ => d.Late) (Triple.attempt ?_) fun _ _ _ h => h
      exact (Triple.of_ask (i := ArchiveSite.lexistsLink) (keep_late hf rfl)).conseq (fun _ _ h => h) (fun _ _ _ h => h.1)
        fun _ _ _ h => h.1
    refine Triple.bind hlook fun there => ?_
    cases there with
    | false => exact Triple.pure fun _ _ h => h
    | true => exact (unlinkLink_spec hs hf rfl).except fun _ _ _ h => .inl h
  -- the link is made
  refine Triple.bind (Q := fun _ h => d.Late h ∧ h.fs.node d.linkTmp = some (.link ⟨true, d.dest⟩))
    ((Triple.of_change (R := d.Late) (keep_late hf rfl) ?_ (fun _ h _ => h) fun _ h => h.1).except
      fun _ _ _ h => .inl h) fun _ => ?_
  · intro h fs' hl hc
    obtain ⟨q, hset, hq, -, rfl⟩ := FS.create_ok hc
    rw [hl.toSwapFrame.locate_linkTmp hs, Except.ok.injEq] at hq
    subst hq
    have hnode : (h.fs.setNode d.linkTmp _ hset).node d.linkTmp = some (.link ⟨true, d.dest⟩) := by
      rw [FS.node_setNode, Function.update_self]
    have hl' : d.Late { h with fs := h.fs.setNode d.linkTmp _ hset } :=
      hl.change hs (FS.sameBut_setNode hset) (.inr hnode)
    exact ⟨⟨hl', hnode⟩, .inr (.inl hl')⟩
  -- and renamed over the source
  refine Triple.of_change (keep_late hf rfl) ?_ (fun _ h _ => .inl h.1) fun _ h => .inr h
  rintro h fs' ⟨hl, hlink⟩ hr
  have hsame := FS.sameBut_replace hr
  have hsrc : h.fs.locate d.src = .ok d.src :=
    FS.locate_real (hl.frame.realDir hs.realSrc) hs.plain
  have hP : ∀ p, h.fs.locate d.linkTmp = .ok p ∨ h.fs.locate d.src = .ok p →
      p = d.linkTmp ∨ p = d.src := by
    rintro p (hp | hp)
    · rw [hl.toSwapFrame.locate_linkTmp hs, Except.ok.injEq] at hp
      exact .inl hp.symm
    · rw [hsrc, Except.ok.injEq] at hp
      exact .inr hp.symm
  obtain ⟨q, r, n, hq, hr', hn, hcase⟩ := FS.replace_ok hr
  rw [hl.toSwapFrame.locate_linkTmp hs, Except.ok.injEq] at hq
  rw [hsrc, Except.ok.injEq] at hr'
  subst hq hr'
  rw [hlink, Option.some_inj] at hn
  subst hn
  obtain ⟨heq, -⟩ | ⟨hne, hdir, hset, rfl⟩ := hcase
  · exact absurd heq (linkTmp_ne_path hs)
  have hsw : d.Swapped { h with fs := (h.fs.clearNode d.linkTmp hdir).setNode d.src _ hset } := by
    refine ⟨hl.toSwapFrame.change hs hsame hP, ?_, hl.copy.change hsame ?_,
      hl.clean.2.2.trans hreg.latest, ?_⟩
    · rw [FS.node_setNode, Function.update_self]
    · intro hp
      rcases hP _ hp with h' | h'
      · exact dest_ne_linkTmp hs h'
      · exact dest_ne_path hs h'
    · rw [FS.node_setNode, Function.update_of_ne hne, FS.node_clearNode, Function.update_self]
  exact ⟨hsw, .inr (.inr hsw)⟩

/-- The swap is over, done or not. -/
def Over (d : Demotion) (h : Host) : Prop := d.Late h ∨ d.Swapped h

/-- The link temporary was free, and its cleanup meets no error. -/
def Tidy (d : Demotion) : Prop :=
  d.FreshTmp ∧ d.env.outcome .lexistsLinkCleanup = .ok ∧ d.env.outcome .unlinkLink = .ok

omit hf hreg in
theorem Over.unlink {h : Host} {fs' : FS} (ho : d.Over h)
    (hu : h.fs.unlink d.linkTmp = .ok fs') :
    d.Over { h with fs := fs' } ∧ fs'.node d.linkTmp = none := by
  obtain ⟨q, hdir, hq, rfl⟩ := FS.unlink_ok hu
  have hloc : h.fs.locate d.linkTmp = .ok d.linkTmp := by
    rcases ho with hl | hw
    · exact hl.toSwapFrame.locate_linkTmp hs
    · exact hw.toSwapFrame.locate_linkTmp hs
  rw [hloc, Except.ok.injEq] at hq
  subst hq
  have hsame := FS.sameBut_clearNode hdir
  refine ⟨?_, by simp⟩
  rcases ho with hl | hw
  · exact .inl (hl.change hs hsame (.inl (by simp)))
  · refine .inr ⟨hw.toSwapFrame.change hs hsame fun _ hp => .inl hp, ?_,
      hw.copy.change hsame (dest_ne_linkTmp hs), hw.latest, by simp⟩
    exact (hsame.node _ (linkTmp_ne_path hs).symm).trans hw.link

omit hreg in
/-- The cleanup leaves no temporary behind when nothing fails in it. -/
theorem cleanup_link_spec {E : OSError → Host → Prop} :
    Triple d.Always d.Over
      (cleanup (d.env.toEnv d.src) .lexistsLinkCleanup .unlinkLink d.linkTmp)
      (fun _ h => d.Over h ∧ (d.Tidy → h.fs.node d.linkTmp = none)) E := by
  have hnode : ∀ h, d.Over h → d.Tidy → h.fs.node d.linkTmp = none ∨
      h.fs.node d.linkTmp = some (.link ⟨true, d.dest⟩) := by
    rintro h (hl | hw) ht
    · exact hl.tmp ht.1
    · exact .inl hw.tmp
  have hloc : ∀ h, d.Over h → h.fs.locate d.linkTmp = .ok d.linkTmp := by
    rintro h (hl | hw)
    · exact hl.toSwapFrame.locate_linkTmp hs
    · exact hw.toSwapFrame.locate_linkTmp hs
  -- what `lexists` has seen: if it saw nothing, there is nothing
  have hlook : Triple d.Always d.Over
      (lexists (d.env.toEnv d.src) .lexistsLinkCleanup d.linkTmp)
      (fun there h => d.Over h ∧ (there = false → d.Tidy → h.fs.node d.linkTmp = none))
      (fun _ h => d.Over h ∧ (d.Tidy → h.fs.node d.linkTmp = none)) := by
    refine Triple.map (Q := fun st h => d.Over h ∧
      (st = none → d.Tidy → h.fs.node d.linkTmp = none)) (Triple.attempt ?_) ?_
    · refine (Triple.of_ask (i := ArchiveSite.lexistsLinkCleanup) (keep_late hf rfl)).conseq (fun _ _ h => h) ?_ ?_
      · rintro st h - ⟨ho, -⟩
        exact ⟨ho, fun hst => absurd hst (by simp)⟩
      · rintro e h - ⟨ho, he⟩
        refine ⟨ho, fun _ ht => ?_⟩
        rcases hnode h ho ht with hn | hn
        · exact hn
        · have := he ht.2.1
          rw [FS.lstat, hloc h ho] at this
          simp [bind, Except.bind, FS.statAt, hn] at this
    · rintro (_ | st) h - ⟨ho, hst⟩
      · exact ⟨ho, fun _ => hst rfl⟩
      · exact ⟨ho, fun hc => absurd hc (by simp)⟩
  refine Triple.attempt (Triple.bind hlook fun there => ?_)
  cases there with
  | false => exact Triple.pure fun _ _ h => ⟨h.1, h.2 rfl⟩
  | true =>
    refine (Triple.of_change (P := d.Over) (keep_late hf rfl) ?_ ?_ fun _ h => h).weaken fun _ _ h => h.1
    · intro h fs' ho hu
      have hu' := ho.unlink hs hu
      exact ⟨⟨hu'.1, fun _ => hu'.2⟩, .inr hu'.1⟩
    · -- the link itself can be unlinked
      intro h ho hfail
      refine ⟨ho, fun ht => ?_⟩
      rcases hnode h ho ht with hn | hn
      · exact hn
      · obtain ⟨e, he⟩ := hfail ht.2.2
        have hdir : h.fs.isDir d.linkTmp = false := FS.isDir_of_node (by simp [linkTmp]) hn
        rw [FS.unlink, hloc h ho] at he
        simp [bind, Except.bind, hn, hdir] at he

/-! ### The whole -/

/-- What `archive_one` ends with. -/
def Done (d : Demotion) (h : Host) : Prop :=
  d.Base h ∨ (d.Over h ∧ (d.Tidy → h.fs.node d.linkTmp = none))

omit hf hreg in
/-- The second stat sees what the first one saw only if the source is clean. -/
theorem Base.restat {h : Host} {st : FS.Stat} (hb : d.Base h) (hst : h.fs.stat d.src = .ok st)
    (hid : identity st = identity d.st₀) : d.Clean h := by
  refine hb.source.resolve_right fun ⟨hdirty, _⟩ => ?_
  have hlink : ∀ t, h.fs.node d.src ≠ some (.link t) := by
    intro t hn
    rcases hdirty with ⟨-, hnone⟩ | ⟨i, hi, -⟩
    · exact absurd (hn.symm.trans hnone) (by simp)
    · exact absurd (hn.symm.trans hi) (by simp)
  rw [FS.stat, src, FS.resolve_real (hb.frame.realDir hs.realSrc) hs.plain hlink] at hst
  simp only [bind, Except.bind] at hst
  change h.fs.statAt d.src = .ok st at hst
  rcases hdirty with ⟨-, hnone⟩ | ⟨i, hi, -, -, hne⟩
  · simp [FS.statAt, hnone] at hst
  · simp only [FS.statAt, hi, Except.ok.injEq] at hst
    subst hst
    simp only [identity, st₀, Prod.mk.injEq, Option.some_inj] at hid
    obtain ⟨h₁, h₂, h₃, h₄⟩ := hid
    exact hne (by rw [h₁, ← h₁, h₂, h₃, h₄])

omit hf hreg in
/-- A clean source and a published copy: the swap may begin. -/
theorem Base.late {h : Host} {read : Bytes} {fd : ℕ} (hb : d.Base h)
    (hv : d.Verified d.dest read fd h) (hc : d.Clean h) : d.Late h where
  frame := hb.frame.mono (fun _ hp => .inl hp) fun _ _ hF => hF
  links := fun q t _ hn => hb.links q t hn
  clean := hc
  copy := by
    refine ⟨hv.dir, fd, hv.node, hv.ours.1, ?_⟩
    obtain ⟨hdata, hperm, hmtime⟩ := hv.file
    exact ⟨hdata.trans (hv.clean hc).1, hperm, hmtime⟩
  tmp := fun ht => .inl <| by
    rw [hb.frame.node _ (not_touched_linkTmp hs ht.1)]
    exact ht.2

omit hs hf hreg in
theorem Swapped.manifest {h : Host} (hw : d.Swapped h) (m : List ManifestEntry) :
    d.Swapped { h with manifest := m } where
  frame := hw.frame
  links := hw.links
  link := hw.link
  copy := hw.copy
  latest := hw.latest
  tmp := hw.tmp

omit hs hf hreg in
/-- The last line, and the answer. -/
theorem logged_spec {P Q E : Host → Prop} {n : ℕ} (hQ : ∀ h, P h → Q h) (hE : ∀ h, P h → E h) :
    Triple d.Always P (logged d.env n) (fun _ => Q) (fun _ => E) :=
  Triple.bind (Triple.log (R := fun _ => Q) hQ fun _ => hE) fun _ => Triple.pure fun _ _ h => h

omit hs hf hreg in
theorem Swapped.done {h : Host} (hw : d.Swapped h) : d.Done h := .inr ⟨.inr hw, fun _ => hw.tmp⟩

theorem archive_switch_spec {read : Bytes} {fd : ℕ} {reason : Reason} :
    Triple d.Always (fun h => d.Base h ∧ d.Verified d.dest read fd h)
      (archive_switch d.env d.src d.st₀ d.dest (d.sha256 read) reason)
      (fun _ => d.Done) (fun _ => d.Done) := by
  have hst := stable_holding hs hf (dest_ne_path hs) fd
    (fun f => f.data = d.storedAs read ∧ f.perm = d.f₀.perm ∧ f.mtime = d.f₀.mtime)
    (d.storedAs read = d.f₀.data ∧ read = d.f₀.data)
  refine Triple.bind (Q := fun st2 h => d.Base h ∧ d.Verified d.dest read fd h ∧
    (st2.map identity = some (identity d.st₀) → d.Clean h)) (Triple.attempt ?_) fun st2 => ?_
  · refine (early_ask hs hf hst (Q := fun st h => identity st = identity d.st₀ → d.Clean h)
      fun h st hb _ hr hid => hb.restat hs hr hid).conseq (fun _ _ h => h) ?_ ?_
    · rintro st h - ⟨hb, hv, hc⟩
      exact ⟨hb, hv, fun hid => hc (Option.some_inj.mp hid)⟩
    · rintro e h - ⟨hb, hv⟩
      exact ⟨hb, hv, fun hid => absurd hid (by simp)⟩
  by_cases hid : st2.map identity ≠ some (identity d.st₀)
  · -- the source changed: the copy is dropped
    rw [if_pos hid]
    refine Triple.bind (Q := fun _ => d.Base) (Triple.attempt ?_) fun _ =>
      logged_spec (fun _ h => .inl h) fun _ h => .inl h
    refine ((early_change hs hf hst (Q := fun _ => True) (R := fun _ => True) ?_
      (fun _ _ => trivial) fun _ _ => trivial).weaken fun _ _ h => ⟨h.1, h.2.1⟩).conseq
        (fun _ _ h => h) (fun _ _ _ h => h.1) fun _ _ _ h => h.1
    intro h fs' hb hv hu
    obtain ⟨q, hdir, hq, rfl⟩ := FS.unlink_ok hu
    rw [dest, FS.locate_real hv.dir hs.plain, Except.ok.injEq] at hq
    obtain rfl : d.dest = q := hq
    refine ⟨hb.change (FS.sameBut_clearNode hdir) (FS.NoNewLinks.clearNode hdir) ?_
      fun _ hi => hi.elim, trivial⟩
    rintro p rfl
    exact ⟨.inr (.inl ⟨rfl, hreg⟩), dest_ne_path hs⟩
  · rw [if_neg hid]
    have hlink : tmp_sibling d.src "so" d.env.urandomLink = d.linkTmp := by
      rw [tmp_sibling, dirname, src, List.dropLast_concat, linkTmp]
    simp only [hlink]
    refine Triple.bind (Q := fun swapped h => d.Over h ∧ (swapped ≠ none → d.Swapped h))
      (Triple.attempt ?_) fun swapped => ?_
    · refine (archive_swap_spec hs hf hreg).conseq ?_ (fun _ _ _ h => ⟨.inr h, fun _ => h⟩)
        fun _ _ _ h => ⟨h, fun hc => absurd rfl hc⟩
      rintro h - ⟨hb, hv, hc⟩
      exact hb.late hs hv (hc (not_not.mp hid))
    by_cases hsw : swapped = none
    · rw [if_pos hsw]
      refine Triple.bind ((cleanup_link_spec hs hf).weaken fun _ _ h => h.1) fun _ => ?_
      exact logged_spec (fun _ h => .inr h) fun _ h => .inr h
    · rw [if_neg hsw]
      refine Triple.bind (Q := fun _ => d.Swapped) ?_ fun _ => ?_
      · refine Triple.of_call d.Swapped ?_ ?_ ?_
        · rintro h hI ⟨-, hw⟩
          rw [before_late hf rfl]
          exact ⟨hI, hw hsw⟩
        · exact fun h _ hw => ⟨.inr (.inr (hw.manifest _)), hw.manifest _⟩
        · rintro e (_ | _) h - - hw
          · exact hw.done
          · exact (hw.manifest _).done
      · exact logged_spec (fun _ h => h.done) fun _ h => h.done

omit hs hf hreg in
theorem base_start : d.Base d.h₀ :=
  ⟨FS.SameBut.refl _, FS.NoNewLinks.refl _, .inl ⟨rfl, fun _ => rfl, rfl⟩⟩

omit hf in
theorem stat_start : d.h₀.fs.stat d.src = .ok d.st₀ := by
  rw [FS.stat, src, FS.resolve_real hs.realSrc hs.plain fun t hn =>
    absurd (hreg.file.symm.trans hn) (by simp)]
  simp only [bind, Except.bind]
  show d.h₀.fs.statAt d.src = _
  rw [FS.statAt, hreg.file]
  rfl

omit hs hreg in
/-- The first stat, which nobody's writing comes before. -/
theorem statPath_spec {E : OSError → Host → Prop} :
    Triple d.Always (· = d.h₀) (attempt (sys d.env d.src .statPath (ask (·.stat d.src))))
      (fun found h => (∀ st, found = some st → d.h₀.fs.stat d.src = .ok st) ∧ h = d.h₀) E := by
  refine Triple.attempt (Triple.of_call (· = d.h₀) ?_ ?_ ?_)
  · rintro h hI rfl
    have : (d.env.toEnv d.src).before .statPath d.h₀ = d.h₀ := by
      simp [ArchiveEnv.toEnv, hf.first]
    rw [this]
    exact ⟨hI, rfl⟩
  · rintro h hI rfl
    refine ⟨hI, ?_⟩
    simp only [ask, Work.query]
    cases hst : d.h₀.fs.stat d.src with
    | ok st => exact ⟨fun st' h => congrArg Except.ok (Option.some_inj.mp h), trivial⟩
    | error e => exact ⟨fun st' h => absurd h (by simp), trivial⟩
  · rintro e done h - - rfl
    cases done with
    | true => exact ⟨fun st hst => absurd hst (by simp), rfl⟩
    | false => exact ⟨fun st hst => absurd hst (by simp), rfl⟩

omit hreg in
/-- `archive_one` does what its first `try` block and its swap do: `V` is what the
first leaves when it has published the copy. -/
theorem archive_one_rule {dry_run : Bool} {reason : Reason} {V : FS.Stat → String → Host → Prop}
    {Q E : Host → Prop}
    (hcopy : ∀ st, d.h₀.fs.stat d.src = .ok st → Triple d.Always d.Base
      (archive_copy d.sha256 d.env d.src d.scratch d.cold st (d.sub ++ [d.name]) d.dest d.partTmp)
      (fun r h => d.Base h ∧ ∀ sha, r = some sha → V st sha h) (fun _ h => d.Base h))
    (hswitch : ∀ st sha, d.h₀.fs.stat d.src = .ok st →
      Triple d.Always (fun h => d.Base h ∧ V st sha h)
        (archive_switch d.env d.src st d.dest sha reason) (fun _ => Q) (fun _ => E))
    (hbase : ∀ h, d.Base h → Q h) (hlog : ∀ h, d.Base h → E h) :
    Triple d.Always (· = d.h₀)
      (archive_one d.sha256 d.env d.src d.scratch d.cold dry_run reason)
      (fun _ => Q) (fun _ => E) := by
  have hrel : relpath d.src d.scratch = d.sub ++ [d.name] := by
    rw [src, List.append_assoc, relpath_append _ _ (by simp)]
  have hdest : join d.cold (d.sub ++ [d.name]) = d.dest := by
    rw [join, dest, List.append_assoc]
  have hpart : tmp_sibling d.dest "so" d.env.urandomPart = d.partTmp := by
    rw [tmp_sibling, dirname, dest, List.dropLast_concat, partTmp]
  rw [archive_one]
  simp only [hrel, hdest]
  refine Triple.bind (statPath_spec hf) fun found => Triple.of_fact fun hfound => ?_
  cases found with
  | none =>
    refine Triple.pure ?_
    rintro h - rfl
    exact hbase _ base_start
  | some st =>
    have hst := hfound st rfl
    cases dry_run with
    | true =>
      refine logged_spec ?_ ?_
      · rintro h rfl
        exact hbase _ base_start
      · rintro h rfl
        exact hlog _ base_start
    | false =>
      refine Triple.weaken (P := d.Base) ?_ ?_
      · simp only [Bool.false_eq_true, if_false]
        refine Triple.bind Triple.of_peek fun cold_real => ?_
        refine Triple.bind Triple.of_peek fun dest_real => ?_
        by_cases hunder : under dest_real cold_real = false
        · rw [if_pos hunder]
          exact logged_spec hbase hlog
        rw [if_neg hunder, hpart]
        refine Triple.bind (Q := fun r h => d.Base h ∧ ∀ sha, r = some sha → V st sha h)
          (Triple.tryCatch (hcopy st hst) ?_) ?_
        · intro e
          refine Triple.bind (Q := fun _ => d.Base) (Triple.attempt ?_) fun _ =>
            Triple.pure fun _ _ h => ⟨h, fun _ hc => absurd hc (by simp)⟩
          refine (unlinkIfThere_part_spec hs hf []).conseq (fun _ _ h => ⟨h, FS.realDir_nil⟩)
            (fun _ _ _ h => h.1) fun _ _ _ h => h.1
        · rintro (_ | sha)
          · exact logged_spec (fun _ h => hbase _ h.1) fun _ h => hlog _ h.1
          · exact (hswitch st sha hst).weaken fun _ _ h => ⟨h.1, h.2 sha rfl⟩
      · rintro h - rfl
        exact base_start

theorem archive_one_spec (dry_run : Bool) (reason : Reason) :
    Triple d.Always (· = d.h₀)
      (archive_one d.sha256 d.env d.src d.scratch d.cold dry_run reason)
      (fun _ => d.Done) (fun _ => d.Done) := by
  have hst₀ : ∀ {st}, d.h₀.fs.stat d.src = .ok st → st = d.st₀ := fun hst =>
    Except.ok.inj (hst.symm.trans (stat_start hs hreg))
  refine archive_one_rule hs hf (V := fun _ sha h => ∃ read fd, sha = d.sha256 read ∧
    d.Verified d.dest read fd h) ?_ ?_ (fun _ hb => .inl hb) fun _ hb => .inl hb
  · intro st hst
    obtain rfl := hst₀ hst
    exact archive_copy_spec hs hf hreg (by rw [dirname, List.dropLast_concat])
  · intro st sha hst
    obtain rfl := hst₀ hst
    refine (Triple.exists_pre (P := fun read h => ∃ fd, sha = d.sha256 read ∧ d.Base h ∧
      d.Verified d.dest read fd h) fun read => Triple.exists_pre fun fd =>
        Triple.of_fact ?_).weaken ?_
    · rintro rfl
      exact archive_switch_spec hs hf hreg
    · rintro h - ⟨hb, read, fd, hsha, hv⟩
      exact ⟨read, fd, hsha, hb, hv⟩

omit hreg in
/-- What is no regular file is not demoted: the copy cannot open it. -/
theorem archive_one_irregular (hno : ∀ i, d.h₀.fs.node d.src ≠ some (.file i))
    (dry_run : Bool) (reason : Reason) :
    Triple d.Always (· = d.h₀)
      (archive_one d.sha256 d.env d.src d.scratch d.cold dry_run reason)
      (fun _ => d.Base) (fun _ => d.Base) := by
  refine archive_one_rule hs hf (V := fun _ _ _ => False) ?_ ?_ (fun _ hb => hb) fun _ hb => hb
  · intro st _
    refine Triple.bind (makedirs_mirror_spec hs hf (by rw [dirname, List.dropLast_concat]))
      fun _ => ?_
    refine Triple.bind ((unlinkIfThere_part_spec hs hf _).except fun _ _ _ h => h.1) fun _ => ?_
    refine Triple.bind (Q := fun _ _ => False) ?_ fun _ t _ hF => hF.elim
    refine Triple.bind (Q := fun _ _ => False) ?_ fun _ t _ hF => hF.elim
    refine (early_ask hs hf (stable_realDir _) (Q := fun _ _ => False) ?_).conseq
      (fun _ _ h => h) (fun _ _ _ h => h.2.2) fun _ _ _ h => h.1
    intro h i hb _ ho
    obtain ⟨q, hq, hn⟩ := FS.openRead_ok ho
    rw [src, FS.locate_real (hb.frame.realDir hs.realSrc) hs.plain, Except.ok.injEq] at hq
    obtain rfl : d.src = q := hq
    rcases hb.source with hc | ⟨-, j, hw⟩
    · exact hno i (hc.1.symm.trans hn)
    · exact hno _ (hf.regular j hw).file
  · exact fun _ _ _ t _ hF => hF.2.elim

/-- The host that `archive_one` leaves. -/
def moved (d : Demotion) (dry_run : Bool) (reason : Reason) : Host :=
  (outcomeOf (archive_one d.sha256 d.env d.src d.scratch d.cold dry_run reason) d.h₀).2.now

/-! ### Reading the file -/

omit hs hf hreg in
/-- What the symlink promises: the destination holds a complete copy. -/
def Complete (d : Demotion) (h : Host) : Prop :=
  ∃ i, h.fs.node d.dest = some (.file i) ∧ (h.fs.inode i).data = d.f₀.data ∧
    d.sha256 (h.fs.inode i).data = d.sha256 d.f₀.data

omit hf in
theorem Always.reads {h : Host} (ha : d.Always h) :
    (∀ b, h.latest = some b → Reads h.fs d.src b) ∧
      (h.latest = none → h.fs.node d.src = none) ∧
      (∀ t, h.fs.node d.src = some (.link t) → t = ⟨true, d.dest⟩ ∧ d.Complete h) := by
  have hclean : FS.RealDir h.fs (d.scratch ++ d.sub) → d.Clean h →
      (∀ b, h.latest = some b → Reads h.fs d.src b) ∧
      (h.latest = none → h.fs.node d.src = none) ∧
      (∀ t, h.fs.node d.src = some (.link t) → t = ⟨true, d.dest⟩ ∧ d.Complete h) := by
    intro hd hc
    have hl : h.latest = some d.f₀.data := hc.2.2.trans hreg.latest
    refine ⟨fun b hb => ?_, fun hl' => absurd (hl.symm.trans hl') (by simp), fun t ht =>
      absurd ((hc.file hreg).symm.trans ht) (by simp)⟩
    rw [hl, Option.some_inj] at hb
    subst hb
    have := reads_file hd hs.plain (hc.file hreg)
    rwa [hc.inode hreg] at this
  obtain hb | hl | hw := ha
  · have hd := hb.frame.realDir hs.realSrc
    rcases hb.source with hc | ⟨⟨hl, hn⟩ | ⟨i, hn, -, hl, -⟩, -⟩
    · exact hclean hd hc
    · exact ⟨fun b hb => absurd (hl.symm.trans hb) (by simp), fun _ => hn, fun t ht =>
        absurd (hn.symm.trans ht) (by simp)⟩
    · refine ⟨fun b hb => ?_, fun hl' => absurd (hl.symm.trans hl') (by simp), fun t ht =>
        absurd (hn.symm.trans ht) (by simp)⟩
      rw [hl, Option.some_inj] at hb
      subst hb
      exact reads_file hd hs.plain hn
  · exact hclean (hl.frame.realDir hs.realSrc) hl.clean
  · obtain ⟨hd, i, hn, -, hdata, -⟩ := hw.copy
    refine ⟨fun b hb => ?_, fun hl => absurd (hw.latest.symm.trans hl) (by simp), fun t ht => ?_⟩
    · rw [hw.latest, Option.some_inj] at hb
      subst hb
      have := reads_file hd hs.plain hn
      rw [hdata] at this
      exact reads_link (hw.frame.realDir hs.realSrc) hs.plain hw.link rfl this
    · rw [hw.link, Option.some_inj, Node.link.injEq] at ht
      exact ⟨ht.symm, i, hn, hdata, by rw [hdata]⟩

/-- However `archive_one` is cut short, and whatever other processes write to the
file before its second stat: in every state it passes through, reading the file
gives what it held, or what they last wrote, and a symlink stands in its place
only where the destination holds a complete copy. -/
theorem archive_fail_closed (dry_run : Bool) (reason : Reason) :
    ∀ h ∈ (outcomeOf (archive_one d.sha256 d.env d.src d.scratch d.cold dry_run reason)
        d.h₀).2.states,
      (∀ b, h.latest = some b → Reads h.fs d.src b) ∧
      (h.latest = none → h.fs.node d.src = none) ∧
      (∀ t, h.fs.node d.src = some (.link t) → t = ⟨true, d.dest⟩ ∧ d.Complete h) := by
  intro h hh
  have hrun := (archive_one_spec hs hf hreg dry_run reason).of_start (.inl (base_start)) rfl
  exact Always.reads hs hreg (hrun.1 h hh)

omit hs hf hreg in
/-- One file of three bytes on the scratch tier, with another process writing to it
while it is copied. -/
def small : Demotion where
  sha256 b := toString b.length
  env :=
    { writes := fun i => if i = .copy (.read 0) then [.rewrite [7] 5 5] else []
      cp := ⟨2, fun _ _ => 1⟩
      urandomPart := "0"
      urandomLink := "1" }
  scratch := ["scratch"]
  cold := ["cold"]
  sub := []
  name := "a"
  h₀ := { fs := smallTiers ⟨[1, 2, 3], ⟨1000, 100, 0o644#12⟩, 0, 0, 0⟩, latest := some [1, 2, 3] }
  i₀ := 0

omit hs hf hreg in
theorem small_start : small.Start where
  realSrc := FS.realDir_nil.concat (by decide) (by decide)
  plain := by decide
  realCold := FS.realDir_nil.concat (by decide) (by decide)
  notCold := by decide
  notScratch := by decide
  uniquePart := by decide
  uniqueLink := by decide

omit hs hf hreg in
theorem small_regular : small.Regular where
  file := by decide
  latest := by decide

omit hs hf hreg in
theorem small_fair : small.Fair where
  first := by decide
  late i hi := if_neg (by rintro rfl; exact absurd hi (by decide))
  regular _ _ := small_regular
  changes i data m c h := by
    simp only [small] at h
    split at h
    · obtain ⟨rfl, rfl, rfl⟩ := SourceAct.rewrite.inj (List.mem_singleton.mp h)
      decide
    · exact absurd h (by simp)
  stored b h := absurd h (by simp [small])

omit hs hf hreg in
theorem archive_fail_closed_small : small.Start ∧
    ∀ h ∈ (outcomeOf (archive_one small.sha256 small.env small.src small.scratch small.cold false
        .ttl) small.h₀).2.states,
      (∀ b, h.latest = some b → Reads h.fs small.src b) ∧
      (h.latest = none → h.fs.node small.src = none) ∧
      (∀ t, h.fs.node small.src = some (.link t) → t = ⟨true, small.dest⟩ ∧ small.Complete h) :=
  ⟨small_start, archive_fail_closed small_start small_fair small_regular false .ttl⟩

end Demotion

end Scratch
