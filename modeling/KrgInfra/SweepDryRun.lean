/-
The dry run of a sweep predicts the run.

A dry run calls `archive_one` as the run does, which there answers what it would have freed, and
between the passes it reckons with that where the run measures the pool again.  So the two agree as
long as the run's calls free what they answer.

* `dry_spec`, `demote_found` — what `archive_one` answers in a dry run, and when it succeeds;
* `stops_unique` — where the capacity pass stops is determined by what the files free;
* `dry_run_predicts` — both runs attempt the same files for the same reasons in the same order.
-/
import KrgInfra.SweepFrame

namespace Scratch

open Posix

/-! ### One call -/

section Call

variable {sha256 : Bytes → String} {env : ArchiveEnv} {path scratch cold : Path} {s : Host}

/-- What the first call of `archive_one` finds at the path. -/
def restatted (env : ArchiveEnv) (path : Path) (s : Host) : Option FS.Stat :=
  if env.outcome .statPath = .ok then (s.fs.stat path).toOption else none

variable (hquiet : env.writes .statPath = [])

include hquiet

theorem restat_spec {E : OSError → Host → Prop} : Triple (fun _ => True) (· = s)
    (attempt (sys env path .statPath (ask (·.stat path))))
    (fun found h => found = restatted env path s ∧ h = s) E := by
  refine Triple.attempt ((Triple.call_at ?_).conseq (fun _ _ h => h) ?_ ?_)
  · simp [ArchiveEnv.toEnv, hquiet]
  · rintro st h - ⟨hok, hact⟩
    replace hok : env.outcome .statPath = .ok := hok
    obtain ⟨hst, rfl⟩ := Prod.mk.inj hact
    replace hst : s.fs.stat path = .ok st := hst
    refine ⟨?_, rfl⟩
    rw [restatted, if_pos hok, hst]
    rfl
  · rintro e h - (⟨hok, hact⟩ | ⟨done, hraise, rfl⟩)
    · replace hok : env.outcome .statPath = .ok := hok
      obtain ⟨hst, rfl⟩ := Prod.mk.inj hact
      replace hst : s.fs.stat path = .error e := hst
      refine ⟨?_, rfl⟩
      rw [restatted, if_pos hok, hst]
      rfl
    · replace hraise : env.outcome .statPath = .raise e done := hraise
      refine ⟨?_, by cases done <;> rfl⟩
      rw [restatted, hraise, if_neg (by rintro ⟨⟩)]

/-- In a dry run `archive_one` answers what the file takes on disk, and changes nothing. -/
theorem dry_spec (hprint : env.printable = true) (reason : Reason) :
    Triple (fun _ => True) (· = s)
    (archive_one sha256 env path scratch cold true reason)
    (fun n h => n = ((restatted env path s).map fun st => st.blocks * 512).getD 0 ∧ h = s)
    fun _ _ => False := by
  have hlogged : ∀ n, logged env n = pure n := fun n => by
    rw [logged, log, if_pos hprint]
    rfl
  rw [archive_one]
  refine Triple.bind (restat_spec hquiet) fun found => Triple.of_fact fun hfound => ?_
  rw [← hfound]
  cases found with
  | none => exact Triple.pure fun _ _ h => ⟨rfl, h⟩
  | some st =>
    simp only [if_true, hlogged]
    exact Triple.pure fun _ _ h => ⟨rfl, h⟩

theorem dry_outcome (hprint : env.printable = true) (reason : Reason) :
    ∃ t, outcomeOf (archive_one sha256 env path scratch cold true reason) s =
      (.ok (((restatted env path s).map fun st => st.blocks * 512).getD 0), t) ∧ t.now = s := by
  have hspec : Triple (fun _ => True) (· = s) (archive_one sha256 env path scratch cold true reason)
      (fun n h => n = ((restatted env path s).map fun st => st.blocks * 512).getD 0 ∧ h = s)
      fun _ _ => False := dry_spec hquiet hprint reason
  have hrun := (hspec.of_start trivial rfl).2
  cases hout : outcomeOf (archive_one sha256 env path scratch cold true reason) s with
  | mk r t =>
    rw [hout] at hrun
    cases r with
    | error e => exact hrun.elim
    | ok n =>
      obtain ⟨rfl, hnow⟩ := hrun
      exact ⟨t, rfl, hnow⟩

/-- What the manifest is to record is what the first call has found. -/
theorem demote_found : Triple (fun _ => True) (· = s) (demote sha256 env path scratch cold false)
    (fun r _ => ∀ st sha, r = .due st sha → restatted env path s = some st)
    fun _ _ => True := by
  rw [demote]
  refine Triple.bind ((restat_spec hquiet).except fun _ _ _ h => h) fun found =>
    Triple.of_fact fun hfound => ?_
  have hother : ∀ {P : Host → Prop} {E : OSError → Host → Prop} (r : Verdict),
      (∀ st sha, r ≠ .due st sha) → Triple (fun _ => True) P (pure r : Program OSError Host Verdict)
      (fun r _ => ∀ st sha, r = .due st sha → restatted env path s = some st) E :=
    fun r hr => Triple.pure fun _ _ _ st sha h => absurd h (hr st sha)
  cases found with
  | none => exact hother .gone fun _ _ h => by cases h
  | some st =>
    refine Triple.bind Triple.of_peek fun cold_real => ?_
    refine Triple.bind Triple.of_peek fun dest_real => ?_
    split_ifs
    · exact hother (.answer 0) fun _ _ h => by cases h
    refine Triple.bind Triple.top fun copied => ?_
    cases copied with
    | none => exact hother (.answer 0) fun _ _ h => by cases h
    | some src_sha =>
      refine Triple.bind Triple.top fun due => ?_
      split_ifs
      · refine Triple.pure fun _ _ _ st' sha h => ?_
        obtain ⟨rfl, -⟩ := Verdict.due.inj h
        exact hfound.symm
      · exact hother (.answer 0) fun _ _ h => by cases h

end Call

/-- With its lines written `archive_one` answers what its first call has found. -/
theorem answer_of_due {sha256 : Bytes → String} {env : ArchiveEnv} {path scratch cold : Path}
    {dry_run : Bool} {reason : Reason} {s : Host} {st : FS.Stat} {src_sha : String}
    (hdue : (outcomeOf (demote sha256 env path scratch cold dry_run) s).1 = .ok (.due st src_sha))
    (hok : env.outcome .manifest = .ok) (hprint : env.printable = true) :
    (outcomeOf (archive_one sha256 env path scratch cold dry_run reason) s).1 =
      .ok (st.blocks * 512) := by
  rw [outcomeOf, archive_one_run]
  rw [outcomeOf] at hdue
  cases hrun : demote sha256 env path scratch cold dry_run ⟨s, []⟩ with
  | error e t =>
    rw [hrun] at hdue
    cases hdue
  | ok r t =>
    rw [hrun] at hdue
    obtain rfl : r = .due st src_sha := Except.ok.inj hdue
    obtain ⟨t', hlast⟩ := recorded_answer env path st (join cold (relpath path scratch)) src_sha reason
      t hok hprint
    simp only [unguarded, hlast]

/-- A regular file in a real directory, as `stat` shows it. -/
theorem FS.stat_file {fs : FS} {d : Path} {n : String} {i : ℕ} (hd : fs.RealDir d) (hn : Plain n)
    (hf : fs.node (d ++ [n]) = some (.file i)) : fs.stat (d ++ [n]) = .ok (fs.fstat i) := by
  rw [FS.stat, FS.resolve_real hd hn fun t ht => by cases hf.symm.trans ht]
  show fs.statAt (d ++ [n]) = _
  rw [FS.statAt, hf]
  rfl

namespace Sweep

/-! ### Where the capacity pass stops -/

section Stops

variable {F ε σ : Type} {new new' : List (Attempt ε σ)} {b : Path → ℕ}

theorem freedBy_eq (h : ∀ a ∈ new, a.got = b a.path) :
    freedBy new = ((new.map Attempt.path).map b).sum := by
  rw [freedBy, List.map_map]
  exact congrArg List.sum (List.map_congr_left h)

/-- Two passes over one list with one target, in which the files free the same. -/
theorem stops_le {l : List Path} {target : ℕ} (hpaths : new.map Attempt.path <+: l)
    (hpaths' : new'.map Attempt.path <+: l) (hgot : ∀ a ∈ new, a.got = b a.path)
    (hgot' : ∀ a ∈ new', a.got = b a.path) (h : StopsAt target l.length new)
    (h' : StopsAt target l.length new') : new.length ≤ new'.length := by
  by_contra hlt
  rw [not_le] at hlt
  have hle : new.length ≤ l.length := by
    have := hpaths.length_le
    rwa [List.length_map] at this
  -- the shorter pass frees what the longer one has freed when it is that long
  have hsame : freedBy (new.take new'.length) = freedBy new' := by
    rw [freedBy_eq fun a ha => hgot a (List.mem_of_mem_take ha), freedBy_eq hgot', List.map_take,
      List.prefix_iff_eq_take.mp hpaths, List.prefix_iff_eq_take.mp hpaths', List.take_take,
      List.length_map, List.length_map, Nat.min_eq_left hlt.le]
  have hbefore := h.before new'.length hlt
  obtain hafter | hafter := h'.after
  · omega
  · omega

theorem stops_unique {l : List Path} {target : ℕ} (hpaths : new.map Attempt.path <+: l)
    (hpaths' : new'.map Attempt.path <+: l) (hgot : ∀ a ∈ new, a.got = b a.path)
    (hgot' : ∀ a ∈ new', a.got = b a.path) (h : StopsAt target l.length new)
    (h' : StopsAt target l.length new') : new.map Attempt.path = new'.map Attempt.path := by
  have hlength : new.length = new'.length :=
    (stops_le hpaths hpaths' hgot hgot' h h').antisymm (stops_le hpaths' hpaths hgot' hgot h' h)
  rw [List.prefix_iff_eq_take.mp hpaths, List.prefix_iff_eq_take.mp hpaths', List.length_map,
    List.length_map, hlength]

end Stops

/-! ### Both runs -/

section Runs

variable {F : Type} (W : World F) (args : Args F)

/-- The arguments of the run, and of the dry run. -/
def Args.real : Args F := { args with dry_run := false }

def Args.dry : Args F := { args with dry_run := true }

/-- What `archive_one` finds at the turn of `path`. -/
def World.found (path : Path) (h : Host) : Option FS.Stat :=
  restatted (W.env path) path (W.turn path h)

/-- The bytes that the file of a path takes on disk, as `archive_one` finds it. -/
def World.bytes (path : Path) (h : Host) : ℕ :=
  ((W.found path h).map fun st => st.blocks * 512).getD 0

/-- The call comes to its end, with the file demoted, its line in the manifest, and one in the
log. -/
def World.Succeeds (a : Attempt OSError Host) : Prop :=
  (∃ st src_sha, (outcomeOf (demote W.sha256 (W.env a.path) a.path args.scratch args.cold false)
    (W.turn a.path a.before)).1 = .ok (.due st src_sha)) ∧
    (W.env a.path).outcome .manifest = .ok ∧ (W.env a.path).printable = true

/-- The file is reported as one that would be archived. -/
def World.Reported (a : Attempt OSError Host) : Prop :=
  (W.found a.path a.before).isSome ∧ (W.env a.path).printable = true

variable {W args}

/-- A call of the dry run. -/
theorem World.dry_call (hquiet : W.Quiet) (hnobody : ∀ p, W.users p = id) {path : Path}
    (hprint : (W.env path).printable = true) (reason : Reason) (h : Host) :
    W.archive_one args path true reason h = (.ok (W.bytes path h), h) := by
  have hturn : ({ W.turn path h with latest := h.latest } : Host) = h := by
    rw [World.turn, hnobody]
    rfl
  obtain ⟨t, hrun, hnow⟩ : ∃ t : Trace Host, outcomeOf (Scratch.archive_one W.sha256 (W.env path)
      path args.scratch args.cold true reason) (W.turn path h) = (.ok (W.bytes path h), t) ∧
      t.now = W.turn path h := dry_outcome (hquiet path .statPath) hprint reason
  rw [World.archive_one, hrun]
  show (Except.ok _, ({ t.now with fs := t.now.fs, latest := h.latest } : Host)) = _
  rw [hnow, hturn]

/-- A call that succeeds has found the file, and answers what it takes on disk. -/
theorem World.Succeeds.answer (hquiet : W.Quiet) {a : Attempt OSError Host}
    (h : W.Succeeds args a) (reason : Reason) : (W.found a.path a.before).isSome ∧
      (W.archive_one args a.path false reason a.before).1 = .ok (W.bytes a.path a.before) := by
  obtain ⟨⟨st, src_sha, hdue⟩, hmanifest, hprint⟩ := h
  have hspec : Triple (fun _ => True) (· = W.turn a.path a.before)
      (demote W.sha256 (W.env a.path) a.path args.scratch args.cold false)
      (fun r _ => ∀ st sha, r = .due st sha → W.found a.path a.before = some st)
      fun _ _ => True := demote_found (hquiet a.path .statPath)
  have hfound : W.found a.path a.before = some st :=
    hspec.of_answer trivial rfl (by rw [hdue, Except.toOption]) st src_sha rfl
  refine ⟨by rw [hfound]; rfl, ?_⟩
  have hbytes : W.bytes a.path a.before = st.blocks * 512 := by
    rw [World.bytes, hfound]
    rfl
  rw [hbytes, World.archive_one, ← answer_of_due hdue hmanifest hprint]

/-- The pool grows by what the calls of a chain have freed. -/
theorem chain_pool {ε σ : Type} {out : Outside F ε σ} {s s' : σ} {new : List (Attempt ε σ)}
    (hchain : Chain args out s new s') :
    ∀ {size free : ℤ}, out.pool_bytes s = some (size, free) →
    (∀ a ∈ new, ∀ size free, out.pool_bytes a.before = some (size, free) →
      out.pool_bytes (out.archive_one a.path args.dry_run a.reason a.before).2 =
        some (size, free + a.got)) →
    out.pool_bytes s' = some (size, free + freedBy new) := by
  induction hchain with
  | nil s =>
    intro size free hpool _
    rw [hpool, freedBy, List.map_nil, List.sum_nil, Nat.cast_zero, add_zero]
  | @cons a new s' _ _ ih =>
    intro size free hpool hgrows
    obtain ⟨hfirst, hothers⟩ := List.forall_mem_cons.mp hgrows
    rw [ih (hfirst size free hpool) hothers, freedBy_cons, Nat.cast_add, add_assoc]

/-- What holds before each call of the run: the files whose turn is still to come are where the walk
has found them, with the bytes that they had. -/
structure World.Ahead (W : World F) (fs : FS) (rest : List (Attempt OSError Host)) (h : Host) :
    Prop where
  isDir : ∀ d, fs.isDir d = true → h.fs.isDir d = true
  node : ∀ a ∈ rest, h.fs.node a.path = fs.node a.path
  data : ∀ a ∈ rest, ∀ i, fs.node a.path = some (.file i) → (h.fs.inode i).data = (fs.inode i).data
  alloc : h.fs.alloc = fs.alloc

variable [PyFloat F] {h : Host} (hD : W.Described args h.fs) (hquiet : W.Quiet)
  (hnobody : ∀ p, W.users p = id)

include hnobody

omit [PyFloat F] in
theorem turn_fs (path : Path) (s : Host) : (W.turn path s).fs = s.fs := by
  rw [World.turn, hnobody]
  rfl

include hD

/-- Ahead of its turn a file is found to take on disk what it took when the walk saw it. -/
theorem World.Ahead.found {a : Attempt OSError Host} {rest : List (Attempt OSError Host)} {s : Host}
    (hahead : W.Ahead h.fs rest s) (ha : a ∈ rest) {c : Candidate F}
    (hc : c ∈ candidates args (W.outside args)) (hpath : c.path = a.path) :
    (W.found a.path s).map FS.Stat.blocks = (W.found a.path h).map FS.Stat.blocks := by
  obtain ⟨sub, name, i, hsub, hdir, hplain, hfile, -, -⟩ := hD.candidate hc
  rw [hpath] at hsub hfile
  have hnode := hahead.node a ha
  have hdata := hahead.data a ha i hfile
  have hdir' : s.fs.RealDir (args.scratch ++ sub) :=
    ⟨hdir.1, fun q hq => hahead.isDir q (hdir.2 q hq)⟩
  have hstat : s.fs.stat a.path = .ok (s.fs.fstat i) := by
    rw [hsub] at hnode hfile ⊢
    exact FS.stat_file hdir' hplain (hnode.trans hfile)
  have hstat' : h.fs.stat a.path = .ok (h.fs.fstat i) := by
    rw [hsub] at hfile ⊢
    exact FS.stat_file hdir hplain hfile
  have hblocks : (s.fs.fstat i).blocks = (h.fs.fstat i).blocks := by
    show s.fs.alloc _ = h.fs.alloc _
    rw [hdata, hahead.alloc]
  rw [World.found, World.found, restatted, restatted, turn_fs hnobody, turn_fs hnobody, hstat,
    hstat']
  split_ifs
  · exact congrArg some hblocks
  · rfl

omit hnobody in
/-- Where the manifest is open the files are as the walk has found them. -/
theorem opened_ahead {l : List (Attempt OSError Host)} {s : Host}
    (hopen : opened args (W.outside args) h = (.ok (), s))
    (hcandidates : ∀ a ∈ l, ∃ c ∈ candidates args (W.outside args), c.path = a.path)
    (hne : candidates args (W.outside args) ≠ []) : W.Ahead h.fs l s := by
  obtain ⟨c, hc⟩ := List.exists_mem_of_ne_nil _ hne
  have hkept := World.opened_kept hD hc hopen
  refine ⟨hkept.same.isDir, fun a ha => ?_, fun a _ i hi => ?_, hkept.alloc⟩
  · obtain ⟨c, hc, hpath⟩ := hcandidates a ha
    exact hpath ▸ hD.kept_node hc hkept
  · rw [hkept.same.inode i (h.fs.fresh _ _ hi) fun hF => hF]

include hquiet

/-- The calls of a run leave the files ahead of them as the walk has found them. -/
theorem chain_ahead (hstored : ∀ p i b, h.fs.node p = some (.file i) → (W.env p).stored = some b →
      W.sha256 b ≠ W.sha256 (h.fs.inode i).data)
    {l : List (Attempt OSError Host)} {s s' : Host} (hchain : Chain args (W.outside args) s l s')
    (hstart : W.Ahead h.fs l s) (hnodup : (l.map Attempt.path).Nodup)
    (hcandidates : ∀ a ∈ l, ∃ c ∈ candidates args (W.outside args), c.path = a.path) :
    ∀ a rest, a :: rest <:+ l → W.Ahead h.fs (a :: rest) a.before := by
  refine (hchain.invariant (I := W.Ahead h.fs) hstart fun a rest hsuffix hahead => ?_).1
  obtain ⟨c, hc, hpath⟩ := hcandidates a (hsuffix.subset List.mem_cons_self)
  have hfs := turn_fs hnobody c.path a.before
  have hready : W.Ready h.fs c.path a.before := by
    refine ⟨fun d hd => ?_, ?_, fun i b hi hb => ?_⟩
    · rw [hfs]
      exact hahead.isDir d hd
    · rw [hfs, hpath]
      exact hahead.node a List.mem_cons_self
    · rw [hfs, hahead.data a List.mem_cons_self i (hpath ▸ hi)]
      exact hstored c.path i b hi hb
  have hleaves := World.frame hD hquiet hc hready args.dry_run a.reason
  rw [hfs, hpath] at hleaves
  have hnot := not_ahead hnodup hsuffix
  have hnode : ∀ b ∈ rest, (W.archive_one args a.path args.dry_run a.reason a.before).2.fs.node
      b.path = a.before.fs.node b.path := by
    intro b hb
    obtain ⟨c', hc', hpath'⟩ := hcandidates b (hsuffix.subset (List.mem_cons_of_mem _ hb))
    rw [← hpath']
    exact hleaves.node c' hc' (hpath' ▸ hnot b hb)
  refine ⟨fun d hd => hleaves.isDir d (hahead.isDir d hd), fun b hb => ?_, fun b hb i hi => ?_, ?_⟩
  · exact (hnode b hb).trans (hahead.node b (List.mem_cons_of_mem _ hb))
  · have hold := hahead.node b (List.mem_cons_of_mem _ hb)
    exact (hleaves.data i (a.before.fs.fresh _ _ (hold.trans hi))).trans
      (hahead.data b (List.mem_cons_of_mem _ hb) i hi)
  · exact hleaves.alloc.trans hahead.alloc

omit hD [PyFloat F] in
/-- The calls of a dry run change nothing, and each answers what its file takes on disk. -/
theorem dry_chain (hprint : ∀ p, (W.env p).printable = true) {l : List (Attempt OSError Host)}
    {s : Host} (hchain : Chain args.dry (W.outside args) h l s) :
    s = h ∧ ∀ a ∈ l, a.before = h ∧ a.result = .ok (W.bytes a.path h) := by
  obtain ⟨hbefore, hend⟩ := hchain.invariant (I := fun _ s => s = h) rfl fun a rest _ hs => by
    show (W.archive_one args a.path true a.reason a.before).2 = h
    rw [World.dry_call hquiet hnobody (hprint a.path)]
    exact hs
  refine ⟨hend, fun a ha => ?_⟩
  obtain ⟨before, rest, rfl⟩ := List.append_of_mem ha
  have hs := hbefore a rest (List.suffix_append _ _)
  refine ⟨hs, (hchain.result a ha).trans ?_⟩
  show (W.archive_one args a.path true a.reason a.before).1 = _
  rw [World.dry_call hquiet hnobody (hprint a.path), hs]

/-- The calls of a run that succeed answer what their files took on disk when the walk saw them. -/
theorem real_chain (hstored : ∀ p i b, h.fs.node p = some (.file i) → (W.env p).stored = some b →
      W.sha256 b ≠ W.sha256 (h.fs.inode i).data)
    {l : List (Attempt OSError Host)} {s s' : Host}
    (hchain : Chain args.real (W.outside args) s l s') (hstart : W.Ahead h.fs l s)
    (hnodup : (l.map Attempt.path).Nodup)
    (hcandidates : ∀ a ∈ l, ∃ c ∈ candidates args (W.outside args), c.path = a.path)
    (hsucceeds : ∀ a ∈ l, W.Succeeds args a) :
    ∀ a ∈ l, (W.found a.path h).isSome ∧ a.result = .ok (W.bytes a.path h) := by
  intro a ha
  obtain ⟨before, rest, rfl⟩ := List.append_of_mem ha
  have hreal : W.Described args.real h.fs := ⟨hD.distinct, hD.found, hD.realCold, hD.notCold,
    hD.notScratch, hD.fresh⟩
  have hahead := chain_ahead hreal hquiet hnobody hstored hchain hstart hnodup hcandidates a rest
    (List.suffix_append _ _)
  obtain ⟨c, hc, hpath⟩ := hcandidates a ha
  have hblocks := hahead.found hD hnobody List.mem_cons_self hc hpath
  obtain ⟨hsome, hanswer⟩ := (hsucceeds a ha).answer hquiet a.reason
  constructor
  · rw [← Option.isSome_map (f := FS.Stat.blocks)] at hsome ⊢
    rwa [← hblocks]
  · have hbytes : W.bytes a.path a.before = W.bytes a.path h := by
      have hmap : ∀ s : Host, W.bytes a.path s =
          (((W.found a.path s).map FS.Stat.blocks).map (· * 512)).getD 0 := fun s => by
        rw [Option.map_map]
        rfl
      rw [hmap, hmap, hblocks]
    exact (hchain.result a ha).trans (hbytes ▸ hanswer)

omit hquiet hD hnobody [PyFloat F] in
theorem pairs_eq {ε σ : Type} {l : List (Attempt ε σ)} {r : Reason} (h : ∀ a ∈ l, a.reason = r) :
    l.map (fun a => (a.path, a.reason)) = (l.map Attempt.path).map fun p => (p, r) := by
  rw [List.map_map]
  exact List.map_congr_left fun a ha => congrArg (a.path, ·) (h a ha)

omit hquiet hD hnobody in
/-- A sweep that comes to an end has opened the manifest, or goes on without it. -/
theorem opened_of_ends {pool : ℤ × ℤ} (hentry : entry args.real (W.outside args) h = .inr pool)
    (hends : ∀ e, (main args.real (W.outside args) h).1 ≠ .raised e) :
    opened args.real (W.outside args) h = (.ok (), (W.open_manifest args h).2) := by
  have hopen : opened args.real (W.outside args) h = W.open_manifest args h :=
    if_neg Bool.false_ne_true
  cases hresult : (W.open_manifest args h).1 with
  | ok _ => rw [hopen, ← hresult]
  | error e =>
    refine absurd ?_ (hends e)
    rw [main, hentry]
    dsimp only
    rw [hopen, show W.open_manifest args h = (.error e, (W.open_manifest args h).2) by
      rw [← hresult]]

/-- Of a sweep whose files all have names that can be printed. -/
theorem printed_predicts (hprint : ∀ p, (W.env p).printable = true)
    (hends : ∀ e, (main args.real (W.outside args) h).1 ≠ .raised e)
    (hopened : W.pool_bytes (W.open_manifest args h).2 = W.pool_bytes h)
    (hstored : ∀ p i b, h.fs.node p = some (.file i) → (W.env p).stored = some b →
      W.sha256 b ≠ W.sha256 (h.fs.inode i).data)
    (hsucceeds : ∀ a ∈ (main args.real (W.outside args) h).2.attempts, W.Succeeds args a)
    (hgrows : ∀ a ∈ (main args.real (W.outside args) h).2.attempts, ∀ size free,
      W.pool_bytes a.before = some (size, free) →
      W.pool_bytes (W.archive_one args a.path false a.reason a.before).2 =
        some (size, free + a.got)) :
    (main args.dry (W.outside args) h).2.state = h ∧
      (main args.dry (W.outside args) h).2.attempts.map (fun a => (a.path, a.reason)) =
        (main args.real (W.outside args) h).2.attempts.map (fun a => (a.path, a.reason)) ∧
      ∀ a ∈ (main args.dry (W.outside args) h).2.attempts, W.Reported a := by
  have hentry' : entry args.dry (W.outside args) h = entry args.real (W.outside args) h := rfl
  obtain ⟨-, hpool, -⟩ := entry_spec args.real (W.outside args) h
  cases hentry : entry args.real (W.outside args) h with
  | inl exit =>
    have hreal : main args.real (W.outside args) h = (exit, { state := h }) := by
      rw [main, hentry]
    have hdry : main args.dry (W.outside args) h = (exit, { state := h }) := by
      rw [main, hentry', hentry]
    rw [hreal, hdry]
    exact ⟨rfl, rfl, fun _ h => by cases h⟩
  | inr pool =>
    obtain ⟨size, free⟩ := pool
    replace hpool : W.pool_bytes h = some (size, free) := hpool size free hentry
    have hopen₁ := opened_of_ends hentry hends
    have hreal : main args.real (W.outside args) h =
        passes args.real (W.outside args) size free { state := (W.open_manifest args h).2 } :=
      main_of_entry hentry hopen₁
    have hne : candidates args.real (W.outside args) ≠ [] := entry_candidates hentry
    have hdry : main args.dry (W.outside args) h =
        passes args.dry (W.outside args) size free { state := h } :=
      main_of_entry (hentry'.trans hentry) (if_pos rfl)
    obtain ⟨ttl, cap, w₁, w₂, httl, hcap, hend, hraised, hswept⟩ :=
      passes_spec args.real (W.outside args) size free { state := (W.open_manifest args h).2 }
    obtain ⟨ttl', cap', v₁, v₂, httl', hcap', hend', hraised', hswept'⟩ :=
      passes_spec args.dry (W.outside args) size free { state := h }
    have hattempts := passes_attempts httl hcap hend
    have hattempts' := passes_attempts httl' hcap' hend'
    rw [List.nil_append] at hattempts hattempts'
    rw [hreal, hattempts] at hsucceeds hgrows
    rw [hreal, hdry, hattempts, hattempts']
    obtain ⟨hnodup, hcandidates⟩ := passes_paths hD.distinct httl hcap
    have hreal' : W.Described args.real h.fs := ⟨hD.distinct, hD.found, hD.realCold, hD.notCold,
      hD.notScratch, hD.fresh⟩
    have hstart : W.Ahead h.fs (ttl ++ cap) (W.open_manifest args h).2 :=
      opened_ahead hreal' hopen₁ hcandidates hne
    have hanswers := real_chain hD hquiet hnobody hstored (httl.chain.append hcap.chain) hstart
      hnodup hcandidates hsucceeds
    obtain ⟨hstate, hanswers'⟩ := dry_chain hquiet hnobody hprint (httl'.chain.append hcap'.chain)
    have hgot : ∀ a ∈ ttl ++ cap, a.got = W.bytes a.path h := fun a ha => by
      rw [Attempt.got, (hanswers a ha).2]
      rfl
    have hgot' : ∀ a ∈ ttl' ++ cap', a.got = W.bytes a.path h := fun a ha => by
      rw [Attempt.got, (hanswers' a ha).2]
      rfl
    -- the pool as the run measures it, and as the dry run reckons it to be
    have hmeasured : remeasured args.real (W.outside args) size free w₁ =
        some (size, free + freedBy ttl) :=
      (if_neg Bool.false_ne_true).trans
        (chain_pool httl.chain (hopened.trans hpool) fun a ha => hgrows a (List.mem_append_left _ ha))
    have hreckoned : remeasured args.dry (W.outside args) size free v₁ =
        some (size, free + freedBy ttl') := by
      rw [remeasured, if_pos (show args.dry.dry_run = true from rfl), httl'.freed, Nat.zero_add]
    -- no attempt raises, so both come to the capacity pass
    obtain ⟨-, hnone⟩ | ⟨size₁, free₁, hpool₁, hswept, -⟩ := hswept fun e he => by
      obtain ⟨a, ha, hresult⟩ := hraised e he
      cases (hanswers a ha).2.symm.trans hresult
    · cases hnone.symm.trans hmeasured
    obtain ⟨-, hnone⟩ | ⟨size₂, free₂, hpool₂, hswept', -⟩ := hswept' fun e he => by
      obtain ⟨a, ha, hresult⟩ := hraised' e he
      cases (hanswers' a ha).2.symm.trans hresult
    · cases hnone.symm.trans hreckoned
    have hpaths : ttl'.map Attempt.path = ttl.map Attempt.path :=
      hswept'.ttl_all.trans hswept.ttl_all.symm
    have hfreed : freedBy ttl' = freedBy ttl := by
      rw [freedBy_eq (b := fun p => W.bytes p h) fun a ha => hgot' a (List.mem_append_left _ ha),
        freedBy_eq (b := fun p => W.bytes p h) fun a ha => hgot a (List.mem_append_left _ ha), hpaths]
    have hsame : (size₂, free₂) = (size₁, free₁) := by
      rw [hmeasured] at hpool₁
      rw [hreckoned, hfreed] at hpool₂
      exact Option.some.inj (hpool₂.symm.trans hpool₁)
    obtain ⟨rfl, rfl⟩ := Prod.mk.inj hsame
    have hpaths' : cap'.map Attempt.path = cap.map Attempt.path := by
      obtain hlow | hhigh := lt_or_ge (capacity_pct size₂ free₂) args.high
      · rw [hswept.cap_idle hlow, hswept'.cap_idle hlow]
      · have hlength : ((cap_list args (W.outside args)).map Candidate.path).length =
            (cap_list args (W.outside args)).length := List.length_map _
        have hstops : StopsAt (to_free args size₂ free₂)
            ((cap_list args (W.outside args)).map Candidate.path).length cap :=
          hlength ▸ hswept.cap_stops hhigh
        have hstops' : StopsAt (to_free args size₂ free₂)
            ((cap_list args (W.outside args)).map Candidate.path).length cap' :=
          hlength ▸ hswept'.cap_stops hhigh
        exact stops_unique (b := fun p => W.bytes p h) hswept'.cap_first hswept.cap_first
          (fun a ha => hgot' a (List.mem_append_right _ ha))
          (fun a ha => hgot a (List.mem_append_right _ ha)) hstops' hstops
    have hfinish : (finish args.dry (W.outside args) v₂).2 = v₂ := by
      rw [finish, if_neg fun h => by cases h.1]
    have hlast : (passes args.dry (W.outside args) size free { state := h }).2 = v₂ :=
      hend'.elim id fun he => he.trans hfinish
    have hpairs : (ttl' ++ cap').map (fun a => (a.path, a.reason)) =
        (ttl ++ cap).map fun a => (a.path, a.reason) := by
      rw [List.map_append, List.map_append, pairs_eq httl.reason, pairs_eq hcap.reason,
        pairs_eq httl'.reason, pairs_eq hcap'.reason, hpaths, hpaths']
    refine ⟨by rw [hlast, hstate], hpairs, fun a ha => ?_⟩
    have hmem : (a.path, a.reason) ∈ (ttl ++ cap).map fun a => (a.path, a.reason) :=
      hpairs ▸ List.mem_map_of_mem ha
    obtain ⟨b, hb, hba⟩ := List.mem_map.mp hmem
    refine ⟨?_, hprint a.path⟩
    rw [(hanswers' a ha).1, ← (Prod.mk.inj hba).1]
    exact (hanswers b hb).1

omit hD hquiet hnobody [PyFloat F] in
/-- The same sweep, with names that can all be printed. -/
def World.printing (W : World F) : World F :=
  { W with env := fun p => { W.env p with printable := true } }

omit hD hquiet hnobody [PyFloat F] in
theorem printing_env {p : Path} (hprint : (W.env p).printable = true) :
    W.printing.env p = W.env p := by
  rw [World.printing, ← hprint]

omit hD hquiet hnobody [PyFloat F] in
theorem printing_call {p : Path} (hprint : (W.env p).printable = true) (dry_run : Bool)
    (reason : Reason) (s : Host) :
    W.printing.archive_one args p dry_run reason s = W.archive_one args p dry_run reason s := by
  rw [World.archive_one, World.archive_one, printing_env hprint]
  rfl

/-- Where the run demotes all that it attempts, and the pool tells of that and of nothing else, the
dry run changes nothing, and reports the files that the run demotes, for the same reasons in the
same order. -/
theorem dry_run_predicts (hends : ∀ e, (main args.real (W.outside args) h).1 ≠ .raised e)
    (hopened : W.pool_bytes (W.open_manifest args h).2 = W.pool_bytes h)
    (hstored : ∀ p i b, h.fs.node p = some (.file i) → (W.env p).stored = some b →
      W.sha256 b ≠ W.sha256 (h.fs.inode i).data)
    (hsucceeds : ∀ a ∈ (main args.real (W.outside args) h).2.attempts, W.Succeeds args a)
    (hgrows : ∀ a ∈ (main args.real (W.outside args) h).2.attempts, ∀ size free,
      W.pool_bytes a.before = some (size, free) →
      W.pool_bytes (W.archive_one args a.path false a.reason a.before).2 =
        some (size, free + a.got)) :
    (main args.dry (W.outside args) h).2.state = h ∧
      (main args.dry (W.outside args) h).2.attempts.map (fun a => (a.path, a.reason)) =
        (main args.real (W.outside args) h).2.attempts.map (fun a => (a.path, a.reason)) ∧
      ∀ a ∈ (main args.dry (W.outside args) h).2.attempts, W.Reported a := by
  have hD' : W.printing.Described args h.fs := ⟨hD.distinct, hD.found, hD.realCold, hD.notCold,
    hD.notScratch, hD.fresh⟩
  -- the names that matter are those of the files that the run demotes
  have hreal : main args.real (W.printing.outside args) h = main args.real (W.outside args) h :=
    main_congr (show Beside (W.printing.outside args) (W.outside args) from rfl) h fun a ha =>
      printing_call (hsucceeds a ha).2.2 false a.reason a.before
  obtain ⟨hstate, hpairs, hreported⟩ := printed_predicts hD' hquiet hnobody (fun _ => rfl)
    (by rwa [hreal]) hopened hstored
    (by
      rw [hreal]
      intro a ha
      have hprint := (hsucceeds a ha).2.2
      rw [World.Succeeds, printing_env hprint]
      exact hsucceeds a ha)
    (by
      rw [hreal]
      intro a ha
      rw [printing_call (hsucceeds a ha).2.2]
      exact hgrows a ha)
  rw [hreal] at hpairs
  have hprintable : ∀ a ∈ (main args.dry (W.printing.outside args) h).2.attempts,
      (W.env a.path).printable = true := by
    intro a ha
    have hmem : (a.path, a.reason) ∈ (main args.real (W.outside args) h).2.attempts.map
        fun a => (a.path, a.reason) := hpairs ▸ List.mem_map_of_mem ha
    obtain ⟨b, hb, hba⟩ := List.mem_map.mp hmem
    exact (Prod.mk.inj hba).1 ▸ (hsucceeds b hb).2.2
  have hdry : main args.dry (W.outside args) h = main args.dry (W.printing.outside args) h :=
    main_congr (show Beside (W.outside args) (W.printing.outside args) from rfl) h fun a ha =>
      (printing_call (hprintable a ha) true a.reason a.before).symm
  rw [hdry]
  refine ⟨hstate, hpairs, fun a ha => ?_⟩
  have hfound : W.printing.found a.path a.before = W.found a.path a.before := by
    rw [World.found, printing_env (hprintable a ha)]
    rfl
  exact ⟨hfound ▸ (hreported a ha).1, hprintable a ha⟩

end Runs

/-- The full pool again, with a manifest that can be written and a pool that tells when its one file
is gone. -/
def calmWorld : World ℚ :=
  { fullWorld with
    pool_bytes := fun h =>
      some (1000, if (h.fs.node ["scratch", "a"]).any Node.isLink then 512 else 0)
    env := fun _ => { cp := ⟨2, fun _ _ => 1⟩, urandomPart := "0", urandomLink := "1" } }

theorem calmWorld_described : calmWorld.Described smallArgs (smallTiers coldFile) where
  distinct := ⟨by decide, trivial⟩
  found p st h := by
    obtain ⟨rfl, hst⟩ := Prod.mk.inj (List.mem_singleton.mp h)
    obtain rfl := Option.some.inj hst
    exact ⟨[], "a", rfl, FS.realDir_nil.concat (by decide) (by decide), by decide, by decide⟩
  realCold := FS.realDir_nil.concat (by decide) (by decide)
  notCold := by decide
  notScratch := by decide
  fresh := by decide +kernel

/-- The verdict that a file has given way to its symlink. -/
def Verdict.isDue : Verdict → Bool
  | .due _ _ => true
  | _ => false

theorem exists_due {ε : Type} {x : Except ε Verdict} (h : x.toOption.any Verdict.isDue = true) :
    ∃ st src_sha, x = .ok (.due st src_sha) := by
  rcases x with e | (_ | _ | ⟨st, src_sha⟩)
  · exact absurd h (by simp [Except.toOption])
  · exact absurd h (by simp [Except.toOption, Verdict.isDue])
  · exact absurd h (by simp [Except.toOption, Verdict.isDue])
  · exact ⟨st, src_sha, rfl⟩

/-- Its dry run reports what its run moves. -/
theorem calmWorld_predicts :
    (main smallArgs.dry (calmWorld.outside smallArgs) { fs := smallTiers coldFile }).2.attempts.map
        (fun a => (a.path, a.reason)) =
      (main smallArgs.real (calmWorld.outside smallArgs)
        { fs := smallTiers coldFile }).2.attempts.map (fun a => (a.path, a.reason)) := by
  have hreturned : (main smallArgs.real (calmWorld.outside smallArgs)
      { fs := smallTiers coldFile }).1 = .returned := by
    decide +kernel
  have hopened : calmWorld.pool_bytes (calmWorld.open_manifest smallArgs
      { fs := smallTiers coldFile }).2 = calmWorld.pool_bytes { fs := smallTiers coldFile } := by
    decide +kernel
  have hdue : ∀ a ∈ (main smallArgs.real (calmWorld.outside smallArgs)
      { fs := smallTiers coldFile }).2.attempts, (outcomeOf (demote calmWorld.sha256
        (calmWorld.env a.path) a.path smallArgs.scratch smallArgs.cold false)
        (calmWorld.turn a.path a.before)).1.toOption.any Verdict.isDue = true := by
    decide +kernel
  have hpool : ∀ a ∈ (main smallArgs.real (calmWorld.outside smallArgs)
      { fs := smallTiers coldFile }).2.attempts, calmWorld.pool_bytes a.before = some (1000, 0) ∧
        calmWorld.pool_bytes (calmWorld.archive_one smallArgs a.path false a.reason a.before).2 =
          some (1000, 512) ∧ a.got = 512 := by
    decide +kernel
  refine (dry_run_predicts calmWorld_described (fun _ _ => rfl) (fun _ => rfl)
    (fun e h => nomatch hreturned.symm.trans h) hopened
    (fun _ _ _ _ h => nomatch (show (none : Option Bytes) = some _ from h))
    (fun a ha => ⟨exists_due (hdue a ha), rfl, rfl⟩) fun a ha size free h => ?_).2.1
  · obtain ⟨hbefore, hafter, hgot⟩ := hpool a ha
    obtain ⟨rfl, rfl⟩ := Prod.mk.inj (Option.some.inj (h.symm.trans hbefore))
    rw [hafter, hgot]
    rfl

end Sweep

end Scratch
