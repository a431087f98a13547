/-
What a call of `archive_one` leaves of the files that a sweep has still to come to.

The candidates of a sweep are found by one walk, long before the turn comes to the last of them.
Here a call of `archive_one` on one of them is shown to leave the others: their places, their bytes
and their times.  What else may happen to them in between is what users do.

* `World.Described` — the walk and the host it was made on;
* `Demotion.moved_frame` — what a call may have changed;
* `throughout_archive_one` — that it does not change what bytes take on disk;
* `World.frame` — so no other candidate has changed.
-/
import KrgInfra.ArchiveSafety
import KrgInfra.SweepErrors

namespace Scratch

open Posix

/-- However a demotion ends, nothing but its places has changed. -/
theorem Demotion.moved_frame {d : Demotion} (hs : d.Start) (hf : d.Fair) (hreg : d.Regular)
    (dry_run : Bool) (reason : Reason) :
    FS.SameBut (fun p => d.Touched p ∨ p = d.linkTmp) d.Written d.h₀.fs
      (d.moved dry_run reason).fs := by
  have hframe : Triple d.Always (· = d.h₀)
      (archive_one d.sha256 d.env d.src d.scratch d.cold dry_run reason)
      (fun _ h => FS.SameBut (fun p => d.Touched p ∨ p = d.linkTmp) d.Written d.h₀.fs h.fs)
      (fun _ h => FS.SameBut (fun p => d.Touched p ∨ p = d.linkTmp) d.Written d.h₀.fs h.fs) := by
    have hdone : ∀ h, d.Done h →
        FS.SameBut (fun p => d.Touched p ∨ p = d.linkTmp) d.Written d.h₀.fs h.fs := by
      rintro h (hb | ⟨hl | hw, -⟩)
      · exact hb.frame.mono (fun _ hp => .inl hp) fun _ _ hF => hF
      · exact hl.frame
      · exact hw.frame
    exact (archive_one_spec hs hf hreg dry_run reason).conseq (fun _ _ h => h)
      (fun _ h _ hd => hdone h hd) fun _ h _ hd => hdone h hd
  exact hframe.of_end (.inl Demotion.base_start) rfl

/-! ### What a file takes on disk -/

section Disk

variable {fs fs' : FS}

theorem alloc_unlink {p : Path} (h : fs.unlink p = .ok fs') : fs'.alloc = fs.alloc := by
  obtain ⟨q, hq, -, rfl⟩ := FS.unlink_ok h
  rfl

theorem alloc_create {p : Path} {n : Node} (h : fs.create p n = .ok fs') :
    fs'.alloc = fs.alloc := by
  obtain ⟨q, hq, -, -, rfl⟩ := FS.create_ok h
  rfl

theorem alloc_createExcl {p : Path} {mode : BitVec 12} {i : ℕ}
    (h : fs.createExcl p mode = .ok (i, fs')) : fs'.alloc = fs.alloc := by
  obtain ⟨-, hcreate⟩ := FS.createExcl_ok h
  exact (alloc_create hcreate).trans rfl

theorem alloc_replace {src dst : Path} (h : fs.replace src dst = .ok fs') :
    fs'.alloc = fs.alloc := by
  obtain ⟨q, r, n, -, -, -, ⟨-, rfl⟩ | ⟨-, hq, hr, rfl⟩⟩ := FS.replace_ok h
  · rfl
  · rfl

theorem alloc_lchown {p : Path} {uid gid : ℕ} (h : fs.lchown p uid gid = .ok fs') :
    fs'.alloc = fs.alloc := by
  obtain ⟨q, -, ⟨i, -, rfl⟩ | ⟨m, m', -, hq, rfl⟩ | rfl⟩ := FS.lchown_ok h
  · rfl
  · rfl
  · rfl

theorem alloc_chmod {p : Path} {mode : BitVec 12} (h : fs.chmod p mode = .ok fs') :
    fs'.alloc = fs.alloc := by
  obtain ⟨q, -, ⟨i, -, rfl⟩ | ⟨m, m', -, hq, rfl⟩⟩ := FS.chmod_ok h
  · rfl
  · rfl

end Disk

section Throughout

variable {sha256 : Bytes → String} {env : ArchiveEnv} {path scratch cold : Path} {alloc : Bytes → ℕ}
  (hquiet : ∀ i, env.writes i = [])

/-- The host's files take `alloc` of their bytes on disk. -/
def OnDisk (alloc : Bytes → ℕ) (h : Host) : Prop := h.fs.alloc = alloc

theorem onDisk_ask {α : Type} {f : FS → Except OSError α} {h : Host} (hh : OnDisk alloc h) :
    OnDisk alloc (ask f h).2 := hh

theorem onDisk_change {f : FS → Except OSError FS}
    (hf : ∀ fs fs', f fs = .ok fs' → fs'.alloc = fs.alloc) {h : Host} (hh : OnDisk alloc h) :
    OnDisk alloc (change f h).2 := by
  obtain ⟨fs', hok, hact⟩ | ⟨e, -, hact⟩ := change_cases f h
  · rw [hact]
    exact (hf _ _ hok).trans hh
  · rw [hact]
    exact hh

theorem throughout_peek {α : Type} {f : Host → α} {I : Host → Prop} : Throughout I (peek f) :=
  Triple.of_peek.conseq (fun _ _ h => h) (fun _ _ _ _ => trivial) fun _ _ _ h => h

include hquiet

theorem throughout_call {α : Type} {i : ArchiveSite} {act : Work OSError Host α}
    (hact : ∀ h, OnDisk alloc h → OnDisk alloc (act h).2) :
    Throughout (OnDisk alloc) (call (env.toEnv path) i act) := by
  refine Throughout.call (fun h hh => ?_) hact
  rw [show (env.toEnv path).before i h = h by simp [ArchiveEnv.toEnv, hquiet i]]
  exact hh

theorem throughout_ask {α : Type} {i : ArchiveSite} {f : FS → Except OSError α} :
    Throughout (OnDisk alloc) (sys env path i (ask f)) :=
  throughout_call hquiet fun _ hh => onDisk_ask hh

theorem throughout_change {i : ArchiveSite} {f : FS → Except OSError FS}
    (hf : ∀ fs fs', f fs = .ok fs' → fs'.alloc = fs.alloc) :
    Throughout (OnDisk alloc) (sys env path i (change f)) :=
  throughout_call hquiet fun _ hh => onDisk_change hf hh

theorem throughout_fd {i : ArchiveSite} {f : FS → FS} (hf : ∀ fs, (f fs).alloc = fs.alloc) :
    Throughout (OnDisk alloc) (sys env path i (changeFd f)) :=
  throughout_change hquiet fun fs _ h => Except.ok.inj h ▸ hf fs

theorem throughout_unlinkIfThere {i j : ArchiveSite} {tmp : Path} :
    Throughout (OnDisk alloc) (unlinkIfThere (env.toEnv path) i j tmp) := by
  refine Throughout.bind (Throughout.map (Throughout.attempt (throughout_ask hquiet)))
    fun found => ?_
  split_ifs
  · exact throughout_change hquiet fun _ _ h => alloc_unlink h
  · exact Throughout.pure

theorem throughout_mirror : ∀ (parts : List String) (k : ℕ) (cur_src cur_cold : Path),
    Throughout (OnDisk alloc) (mirrorLevels env path k cur_src cur_cold parts)
  | [], _, _, _ => Throughout.pure
  | part :: parts, k, cur_src, cur_cold => by
    rw [mirrorLevels]
    split_ifs
    · exact throughout_mirror parts _ _ _
    refine Throughout.bind ?_ fun _ => Throughout.bind ?_ fun _ => throughout_mirror parts _ _ _
    · refine Throughout.bind (Throughout.tryCatch (Throughout.map (throughout_ask hquiet))
        fun e => ?_) fun cst => ?_
      · split_ifs
        · exact Throughout.pure
        · exact Throughout.throw
      cases cst with
      | none => exact throughout_change hquiet fun _ _ h => alloc_create h
      | some cst =>
        dsimp only
        split_ifs
        · exact Throughout.throw
        · exact Throughout.throw
        · exact Throughout.pure
    · refine Throughout.attempt (Throughout.bind (throughout_ask hquiet) fun sst => ?_)
      refine Throughout.bind (throughout_change hquiet fun _ _ h => alloc_lchown h) fun _ => ?_
      exact throughout_change hquiet fun _ _ h => alloc_chmod h

theorem throughout_copy {site : CopySite → ArchiveSite} {cp : CopyEnv} {src dst : Path} :
    Throughout (OnDisk alloc) (copy_and_hash sha256 (env.toEnv path) site cp src dst) := by
  have hdrain : ∀ (fd k n j : ℕ) (mv : Bytes),
      Throughout (OnDisk alloc) (drain (env.toEnv path) site cp fd k n j mv) := by
    intro fd k n
    induction n with
    | zero => exact fun _ _ => Throughout.pure
    | succ n ih =>
      intro j mv
      rw [drain]
      split_ifs
      · exact Throughout.pure
      · exact Throughout.bind (throughout_fd hquiet fun _ => rfl) fun _ => ih _ _
  have hloop : ∀ (src_fd fd n k : ℕ) (acc : Bytes),
      Throughout (OnDisk alloc) (copyLoop (env.toEnv path) site cp src_fd fd n k acc) := by
    intro src_fd fd n
    induction n with
    | zero => exact fun _ _ => Throughout.pure
    | succ n ih =>
      intro k acc
      rw [copyLoop]
      refine Throughout.bind (throughout_ask hquiet) fun buf => ?_
      split_ifs
      · exact Throughout.pure
      · exact Throughout.bind (hdrain _ _ _ _ _) fun _ => ih _ _
  refine Throughout.bind (throughout_ask hquiet) fun src_fd => ?_
  refine Throughout.bind (throughout_call hquiet fun h hh => ?_) fun fd => ?_
  · rw [Work.update]
    cases hcreate : h.fs.createExcl dst 0o600#12 with
    | error e => exact hh
    | ok r => exact (alloc_createExcl hcreate).trans hh
  refine Throughout.bind (hloop _ _ _ _ _) fun read => ?_
  refine Throughout.bind (throughout_fd hquiet fun _ => rfl) fun _ => ?_
  exact Throughout.bind (throughout_fd hquiet fun _ => rfl) fun _ => Throughout.pure

theorem throughout_verify {st : FS.Stat} {part : Path} {src_sha : String} {nbytes fd : ℕ} :
    Throughout (OnDisk alloc) (archive_verify sha256 env path st part src_sha nbytes fd) := by
  rw [archive_verify]
  split_ifs
  · exact Throughout.bind (throughout_change hquiet fun _ _ h => alloc_unlink h) fun _ =>
      Throughout.pure
  refine Throughout.bind ?_ fun sha => ?_
  · unfold fd_sha256 sys
    refine throughout_call hquiet fun h hh => ?_
    cases env.stored with
    | none => exact hh
    | some b => exact hh
  split_ifs
  · exact Throughout.bind (throughout_change hquiet fun _ _ h => alloc_unlink h) fun _ =>
      Throughout.pure
  refine Throughout.bind (throughout_fd hquiet fun _ => rfl) fun _ => ?_
  refine Throughout.bind (throughout_fd hquiet fun _ => rfl) fun _ => ?_
  refine Throughout.bind (throughout_fd hquiet fun _ => rfl) fun _ => ?_
  refine Throughout.bind (throughout_fd hquiet fun _ => rfl) fun _ => ?_
  refine Throughout.bind (throughout_ask hquiet) fun lp => ?_
  refine Throughout.bind (throughout_ask hquiet) fun fst => ?_
  split_ifs
  · exact Throughout.throw
  · exact Throughout.pure

omit hquiet in
theorem throughout_logged {n : ℕ} : Throughout (OnDisk alloc) (logged env n) :=
  Throughout.bind (Triple.log (R := fun _ _ => True) (fun _ _ => trivial) fun _ _ _ => trivial)
    fun _ => Throughout.pure

theorem throughout_switch {st : FS.Stat} {dest : Path} {src_sha : String} {reason : Reason} :
    Throughout (OnDisk alloc) (archive_switch env path st dest src_sha reason) := by
  rw [archive_switch]
  refine Throughout.bind (Throughout.attempt (throughout_ask hquiet)) fun st2 => ?_
  split_ifs
  · exact Throughout.bind (Throughout.attempt (throughout_change hquiet fun _ _ h =>
      alloc_unlink h)) fun _ => throughout_logged
  refine Throughout.bind (Throughout.attempt ?_) fun swapped => ?_
  · refine Throughout.bind (throughout_unlinkIfThere hquiet) fun _ => ?_
    refine Throughout.bind (throughout_change hquiet fun _ _ h => alloc_create h) fun _ => ?_
    exact throughout_change hquiet fun _ _ h => alloc_replace h
  split_ifs
  · exact Throughout.bind (Throughout.attempt (throughout_unlinkIfThere hquiet)) fun _ =>
      throughout_logged
  · exact Throughout.bind (throughout_call hquiet fun _ hh => hh) fun _ => throughout_logged

/-- `archive_one` does not change what bytes take on disk. -/
theorem throughout_archive_one (dry_run : Bool) (reason : Reason) :
    Throughout (OnDisk alloc) (archive_one sha256 env path scratch cold dry_run reason) := by
  rw [archive_one]
  refine Throughout.bind (Throughout.attempt (throughout_ask hquiet)) fun found => ?_
  cases found with
  | none => exact Throughout.pure
  | some st =>
    dsimp only
    split_ifs
    · exact throughout_logged
    refine Throughout.bind throughout_peek fun cold_real => ?_
    refine Throughout.bind throughout_peek fun dest_real => ?_
    split_ifs
    · exact throughout_logged
    refine Throughout.bind (Throughout.tryCatch ?_ fun e => ?_) fun copied => ?_
    · refine Throughout.bind (throughout_mirror hquiet _ _ _ _) fun _ => ?_
      refine Throughout.bind (throughout_unlinkIfThere hquiet) fun _ => ?_
      refine Throughout.bind (throughout_copy hquiet) fun r => ?_
      refine Throughout.bind (Throughout.withFinally (throughout_verify hquiet)
        (throughout_fd hquiet fun _ => rfl)) fun verified => ?_
      split_ifs
      · exact Throughout.bind (throughout_change hquiet fun _ _ h => alloc_replace h) fun _ =>
          Throughout.pure
      · exact Throughout.pure
    · exact Throughout.bind (Throughout.attempt (throughout_unlinkIfThere hquiet)) fun _ =>
        Throughout.pure
    · cases copied with
      | none => exact throughout_logged
      | some src_sha => exact throughout_switch hquiet

end Throughout

namespace Sweep

/-- A file ahead of a call is another one than the call's. -/
theorem not_ahead {ε σ : Type} {l rest : List (Attempt ε σ)} {a : Attempt ε σ}
    (hnodup : (l.map Attempt.path).Nodup) (hsuffix : a :: rest <:+ l) :
    ∀ b ∈ rest, b.path ≠ a.path := by
  have hsub : ((a :: rest).map Attempt.path).Nodup :=
    hnodup.sublist (hsuffix.sublist.map Attempt.path)
  rw [List.map_cons, List.nodup_cons] at hsub
  exact fun b hb heq => hsub.1 (heq ▸ List.mem_map_of_mem hb)

section Frame

variable {F : Type} [PyFloat F] (W : World F) (args : Args F)

/-- The sweep's tree is what a walk of `fs` finds, the two tiers are apart, and no random name is
the name of a candidate. -/
structure World.Described (fs : FS) : Prop where
  distinct : W.tree.Distinct
  found : ∀ p st, (p, some st) ∈ W.tree.walk [join args.scratch [ARCHIVE_DIR]] args.scratch →
    ∃ sub name, p = args.scratch ++ sub ++ [name] ∧ fs.RealDir (args.scratch ++ sub) ∧
      Plain name ∧ fs.lstat p = .ok st
  realCold : fs.RealDir args.cold
  notCold : ¬ args.cold <+: args.scratch
  notScratch : ¬ args.scratch <+: args.cold
  fresh : ∀ c ∈ candidates args (W.outside args), ∀ c' ∈ candidates args (W.outside args),
    c'.path.getLast? ≠ some (tmpName "so" (W.env c.path).urandomPart) ∧
      c'.path.getLast? ≠ some (tmpName "so" (W.env c.path).urandomLink)

/-- Nobody writes to a file while `archive_one` is at work on it. -/
def World.Quiet : Prop := ∀ p i, (W.env p).writes i = []

variable {W args} {fs : FS}

/-- A candidate is a regular file in a real directory. -/
theorem World.Described.candidate (hD : W.Described args fs) {c : Candidate F}
    (hc : c ∈ candidates args (W.outside args)) : ∃ sub name i,
      c.path = args.scratch ++ sub ++ [name] ∧ fs.RealDir (args.scratch ++ sub) ∧ Plain name ∧
      fs.node c.path = some (.file i) ∧ c.lu = last_use (fs.fstat i) ∧
      c.lu ≤ cutoff args (W.outside args) := by
  obtain ⟨st, hwalk, hfile, hlu, hcold⟩ := mem_gather_candidates hc
  obtain ⟨sub, name, hpath, hdir, hplain, hst⟩ := hD.found _ _ hwalk
  rw [FS.lstat, hpath, FS.locate_real hdir hplain] at hst
  simp only [bind, Except.bind, FS.statAt] at hst
  rw [← hpath] at hst
  rcases hnode : fs.node c.path with _ | ⟨m⟩ | ⟨i⟩ | ⟨t⟩
  · rw [hnode] at hst
    cases hst
  · rw [hnode] at hst
    rw [← Except.ok.inj hst] at hfile
    cases hfile
  · rw [hnode] at hst
    refine ⟨sub, name, i, hpath, hdir, hplain, rfl, ?_, hcold⟩
    rw [hlu, ← Except.ok.inj hst]
    rfl
  · rw [hnode] at hst
    rw [← Except.ok.inj hst] at hfile
    cases hfile

/-- The call of `archive_one` on a candidate, at its turn. -/
def World.demotion (W : World F) (args : Args F) (sub : Path) (name : String) (i : ℕ) (h : Host) :
    Demotion where
  sha256 := W.sha256
  env := W.env (args.scratch ++ sub ++ [name])
  scratch := args.scratch
  cold := args.cold
  sub := sub
  name := name
  h₀ := W.turn (args.scratch ++ sub ++ [name]) h
  i₀ := i

/-- When the turn comes to `path`: what was a directory still is one, and nothing has taken the
place of the file. -/
structure World.Ready (W : World F) (fs : FS) (path : Path) (h : Host) : Prop where
  isDir : ∀ d, fs.isDir d = true → (W.turn path h).fs.isDir d = true
  node : (W.turn path h).fs.node path = fs.node path
  /-- What the cold tier does not keep shows in the digest. -/
  stored : ∀ i b, fs.node path = some (.file i) → (W.env path).stored = some b →
    W.sha256 b ≠ W.sha256 ((W.turn path h).fs.inode i).data

theorem latest_facing {path : Path} {h : Host} {i : ℕ} (hnode : h.fs.node path = some (.file i)) :
    (h.facing path).latest = some (h.fs.inode i).data := by
  unfold Host.facing
  rw [hnode]

/-- What `archive_one` is called on at the turn of a candidate. -/
theorem World.Ready.demotion (hD : W.Described args fs) (hquiet : W.Quiet) {c : Candidate F}
    (hc : c ∈ candidates args (W.outside args)) {h : Host} (hready : W.Ready fs c.path h) :
    ∃ sub name i, c.path = args.scratch ++ sub ++ [name] ∧ fs.node c.path = some (.file i) ∧
      (W.demotion args sub name i h).Start ∧ (W.demotion args sub name i h).Fair ∧
      (W.demotion args sub name i h).Regular := by
  obtain ⟨sub, name, i, hpath, hdir, hplain, hfile, -, -⟩ := hD.candidate hc
  obtain ⟨hpart, hlink⟩ := hD.fresh c hc c hc
  rw [hpath, List.getLast?_append, List.getLast?_singleton] at hpart hlink
  rw [hpath] at hready hfile
  have hnode := hready.node.trans hfile
  refine ⟨sub, name, i, hpath, hpath ▸ hfile, ⟨?_, hplain, ?_, hD.notCold, hD.notScratch, ?_, ?_⟩,
    ⟨hquiet _ _, fun j _ => hquiet _ j, fun j hj => absurd (hquiet _ j) hj, ?_, ?_⟩, ⟨hnode, ?_⟩⟩
  · exact ⟨hdir.1, fun q hq => hready.isDir q (hdir.2 q hq)⟩
  · exact ⟨hD.realCold.1, fun q hq => hready.isDir q (hD.realCold.2 q hq)⟩
  · exact fun heq => hpart (congrArg some heq.symm)
  · exact fun heq => hlink (congrArg some heq.symm)
  · intro j data m ct hwrite
    rw [show (W.demotion args sub name i h).env.writes j = [] from hquiet _ j] at hwrite
    exact absurd hwrite List.not_mem_nil
  · exact fun b hb => hready.stored i b hfile hb
  · exact latest_facing hnode

/-- The file with the times that a call on `path` leaves on it. -/
def World.stamped (W : World F) (path : Path) (f : Inode) : Inode :=
  { f with atime := (W.stamps path f).1, ctime := (W.stamps path f).2 }

omit [PyFloat F] in
/-- The times that a call leaves behind are those of one file; all else stays. -/
theorem stamp_spec (path : Path) (before after : FS) :
    (W.stamp path before after).node = after.node ∧
      (W.stamp path before after).alloc = after.alloc ∧
      ∀ i, (before.node path ≠ some (.file i) →
          (W.stamp path before after).inode i = after.inode i) ∧
        (before.node path = some (.file i) →
          (W.stamp path before after).inode i = W.stamped path (after.inode i)) := by
  unfold World.stamp
  rcases hnode : before.node path with _ | ⟨m⟩ | ⟨j⟩ | ⟨t⟩
  · exact ⟨rfl, rfl, fun _ => ⟨fun _ => rfl, nofun⟩⟩
  · exact ⟨rfl, rfl, fun _ => ⟨fun _ => rfl, nofun⟩⟩
  · refine ⟨rfl, rfl, fun i => ⟨fun hne => ?_, fun heq => ?_⟩⟩
    · rw [FS.inode_setInode, Function.update_of_ne fun hij => hne (by rw [hij])]
    · obtain rfl := Node.file.inj (Option.some.inj heq)
      rw [FS.inode_setInode, Function.update_self]
      rfl
  · exact ⟨rfl, rfl, fun _ => ⟨fun _ => rfl, nofun⟩⟩

/-- What a call on the candidate `path` leaves: directories, the other candidates, the files but for
the times of the one that `path` named, and what bytes take on disk. -/
structure World.Leaves (W : World F) (args : Args F) (path : Path) (fs₁ fs₂ : FS) : Prop where
  isDir : ∀ d, fs₁.isDir d = true → fs₂.isDir d = true
  node : ∀ c ∈ candidates args (W.outside args), c.path ≠ path → fs₂.node c.path = fs₁.node c.path
  inode : ∀ i < fs₁.nextIno, fs₂.inode i = fs₁.inode i ∨
    fs₁.node path = some (.file i) ∧ fs₂.inode i = W.stamped path (fs₁.inode i)
  alloc : fs₂.alloc = fs₁.alloc

omit [PyFloat F] in
/-- Whatever the times, a file holds the bytes that it held. -/
theorem World.Leaves.data {_ : PyFloat F} {path : Path} {fs₁ fs₂ : FS}
    (h : W.Leaves args path fs₁ fs₂) (i : ℕ) (hi : i < fs₁.nextIno) :
    (fs₂.inode i).data = (fs₁.inode i).data := by
  obtain hsame | ⟨-, hstamped⟩ := h.inode i hi
  · rw [hsame]
  · rw [hstamped]
    rfl

theorem World.frame (hD : W.Described args fs) (hquiet : W.Quiet) {c : Candidate F}
    (hc : c ∈ candidates args (W.outside args)) {h : Host} (hready : W.Ready fs c.path h)
    (dry_run : Bool) (reason : Reason) :
    W.Leaves args c.path (W.turn c.path h).fs (W.archive_one args c.path dry_run reason h).2.fs := by
  obtain ⟨sub, name, i, hpath, -, hs, hf, hreg⟩ := hready.demotion hD hquiet hc
  -- what the program leaves, before the times that it leaves
  obtain ⟨fs₂, hfs₂⟩ : ∃ fs₂, (outcomeOf (Scratch.archive_one W.sha256 (W.env c.path) c.path
      args.scratch args.cold dry_run reason) (W.turn c.path h)).2.now.fs = fs₂ := ⟨_, rfl⟩
  have hframe := Demotion.moved_frame hs hf hreg dry_run reason
  rw [show (W.demotion args sub name i h).h₀.fs = (W.turn c.path h).fs by rw [hpath]; rfl,
    show ((W.demotion args sub name i h).moved dry_run reason).fs = fs₂ by
      rw [← hfs₂, hpath]; rfl] at hframe
  have hsame : ∀ j < (W.turn c.path h).fs.nextIno, fs₂.inode j = (W.turn c.path h).fs.inode j := by
    refine fun j hj => hframe.inode j hj ?_
    rintro ⟨-, k, hk⟩
    exact hk (hquiet _ k)
  have hleaves : W.Leaves args c.path (W.turn c.path h).fs fs₂ := by
    have hdisk : fs₂.alloc = (W.turn c.path h).fs.alloc := by
      rw [← hfs₂]
      exact (throughout_archive_one (hquiet c.path) dry_run reason).of_end (I := OnDisk _) rfl
    refine ⟨hframe.isDir, fun c' hc' hne => hframe.node _ ?_, fun j hj => .inl (hsame j hj), hdisk⟩
    obtain ⟨sub', name', -, hpath', -⟩ := hD.candidate hc'
    obtain ⟨hpart, hlink⟩ := hD.fresh c hc c' hc'
    have hscratch : ∀ q : Path, args.cold <+: q → c'.path ≠ q := by
      rintro q hq rfl
      rw [hpath', List.append_assoc] at hq
      exact Demotion.cold_not_prefix hs _ hq
    rw [hpath] at hne hpart hlink
    rintro ((h | ⟨h, -⟩ | h | ⟨h, -⟩ | ⟨h, -⟩) | h)
    · exact hne h
    · exact hscratch _ (by rw [Demotion.dest, List.append_assoc]; exact List.prefix_append _ _) h
    · exact hscratch _ (by rw [Demotion.partTmp, List.append_assoc]; exact List.prefix_append _ _) h
    · exact hpart h
    · exact hscratch _ h rfl
    · rw [h, Demotion.linkTmp, List.getLast?_append, List.getLast?_singleton] at hlink
      exact hlink rfl
  have hafter : (W.archive_one args c.path dry_run reason h).2.fs =
      if dry_run then fs₂ else W.stamp c.path (W.turn c.path h).fs fs₂ := by
    rw [← hfs₂]
    rfl
  rw [hafter]
  split_ifs
  · exact hleaves
  obtain ⟨hnode, halloc, hinode⟩ := stamp_spec (W := W) c.path (W.turn c.path h).fs fs₂
  refine ⟨fun d hd => ?_, fun c' hc' hne => ?_, fun j hj => ?_, halloc.trans hleaves.alloc⟩
  · rw [FS.isDir_congr (congrFun hnode d)]
    exact hleaves.isDir d hd
  · rw [hnode]
    exact hleaves.node c' hc' hne
  · by_cases hnamed : (W.turn c.path h).fs.node c.path = some (.file j)
    · exact .inr ⟨hnamed, ((hinode j).2 hnamed).trans (by rw [hsame j hj])⟩
    · exact .inl (((hinode j).1 hnamed).trans (hsame j hj))

/-- Opening the manifest leaves the directories and the candidates as they were. -/
theorem World.opened_kept {h : Host} (hD : W.Described args h.fs) {c : Candidate F}
    (hc : c ∈ candidates args (W.outside args)) {result : Except OSError Unit} {s : Host}
    (hopen : opened args (W.outside args) h = (result, s)) :
    Kept (args.scratch ++ [ARCHIVE_DIR]) h.fs s.fs := by
  obtain ⟨sub, -, -, -, hdir, -⟩ := hD.candidate hc
  have hroot : h.fs.RealDir args.scratch := hdir.of_prefix (List.prefix_append _ _)
  rw [opened] at hopen
  split_ifs at hopen
  · obtain ⟨-, rfl⟩ := Prod.mk.inj hopen
    exact Kept.refl _ _
  · rw [show s = (outcomeOf (manifest_or_null W.manifest (args.scratch ++ [ARCHIVE_DIR]))
      h).2.now from (congrArg Prod.snd hopen).symm]
    exact (open_manifest_spec hroot (by decide)).of_end trivial (Kept.refl _ _)

theorem World.Described.kept_node {h : Host} (hD : W.Described args h.fs) {c : Candidate F}
    (hc : c ∈ candidates args (W.outside args)) {dir : Path} {s : Host}
    (hkept : Kept dir h.fs s.fs) : s.fs.node c.path = h.fs.node c.path := by
  obtain ⟨-, -, i, -, -, -, hfile, -⟩ := hD.candidate hc
  rw [hfile]
  exact hkept.file _ i hfile

end Frame

end Sweep

end Scratch
