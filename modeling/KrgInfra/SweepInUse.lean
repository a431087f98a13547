/-
A sweep and the users of the files.

A sweep may run for hours.  Which files it demotes is decided by one walk at its start, and
`archive_one`, when it comes to a file, looks at it again but not at when it was last used.  A file
that is taken into use in between is demoted all the same, and so is the second name of a file that
the sweep itself has read and taken the first name from.

* `UserAct` — what users do between two calls of `archive_one`;
* `Unused` — no file whose turn is still to come is stamped as used;
* `in_use_spared` — in a sweep during which that is so, no file in use is demoted.
-/
import KrgInfra.SweepDryRun

namespace Scratch

open Posix

namespace Sweep

/-! ### What users do -/

/-- Something that stamps a file's times: a read, a write, or a change of its metadata or of the
number of its names. -/
inductive UserAct where
  | read (path : Path) (time : ℤ)
  | write (path : Path) (data : Bytes) (time : ℤ)
  | change (path : Path) (time : ℤ)
  deriving DecidableEq, Repr

namespace UserAct

def path : UserAct → Path
  | read p _ => p
  | write p _ _ => p
  | change p _ => p

def time : UserAct → ℤ
  | read _ t => t
  | write _ _ t => t
  | change _ t => t

/-- What the act makes of the file it is on. -/
def stamp (act : UserAct) (f : Inode) : Inode :=
  match act with
  | read _ t => { f with atime := t }
  | write _ data t => { f with data := data, mtime := t, ctime := t }
  | change _ t => { f with ctime := t }

/-- The file that the act is on. -/
def file (act : UserAct) (fs : FS) : Option ℕ :=
  match fs.resolve act.path with
  | .ok q =>
    match fs.node q with
    | some (.file i) => some i
    | _ => none
  | .error _ => none

def apply (act : UserAct) (fs : FS) : FS :=
  match act.file fs with
  | some i => fs.setInode i (act.stamp (fs.inode i))
  | none => fs

end UserAct

/-- The host after the acts, one after the other. -/
def afterActs (acts : List UserAct) (h : Host) : Host :=
  { h with fs := acts.foldl (fun fs act => act.apply fs) h.fs }

section Acts

variable {fs fs' : FS}

/-- An act leaves the tree. -/
theorem apply_node (act : UserAct) (fs : FS) :
    (act.apply fs).node = fs.node ∧ (act.apply fs).walkLimit = fs.walkLimit := by
  rw [UserAct.apply]
  cases act.file fs with
  | none => exact ⟨rfl, rfl⟩
  | some i => exact ⟨rfl, rfl⟩

/-- Which file an act is on depends on the tree only. -/
theorem file_congr (hnode : fs'.node = fs.node) (hlimit : fs'.walkLimit = fs.walkLimit)
    (act : UserAct) : act.file fs' = act.file fs := by
  rw [UserAct.file, UserAct.file, FS.resolve, FS.resolve, FS.walk_congr hnode, hlimit, hnode]

variable {F : Type} [PyFloat F] {i : ℕ} {x : F}

theorem last_use_le_iff (st : FS.Stat) : last_use st ≤ x ↔
    PyFloat.ofNs st.atime ≤ x ∧ PyFloat.ofNs st.mtime ≤ x ∧ PyFloat.ofNs st.ctime ≤ x := by
  rw [last_use, max_le_iff, max_le_iff]

/-- A file stays cold under an act that is on another file, or stamped early enough. -/
theorem apply_cold {act : UserAct} (hcold : last_use (fs.fstat i) ≤ x)
    (hact : x < PyFloat.ofNs act.time → act.file fs ≠ some i) :
    last_use ((act.apply fs).fstat i) ≤ x := by
  rw [UserAct.apply]
  cases hfile : act.file fs with
  | none => exact hcold
  | some j =>
    by_cases hij : i = j
    · subst hij
      have htime : PyFloat.ofNs act.time ≤ x := not_lt.mp fun hlt => hact hlt hfile
      rw [last_use_le_iff] at hcold ⊢
      obtain ⟨ha, hm, hc⟩ := hcold
      simp only [FS.fstat, FS.inode_setInode, Function.update_self]
      cases act with
      | read p t => exact ⟨htime, hm, hc⟩
      | write p data t => exact ⟨ha, htime, htime⟩
      | change p t => exact ⟨ha, hm, htime⟩
    · have hsame : (fs.setInode j (act.stamp (fs.inode j))).fstat i = fs.fstat i := by
        rw [FS.fstat, FS.inode_setInode, Function.update_of_ne hij]
        rfl
      rw [hsame]
      exact hcold

/-- So it does under acts that are all so. -/
theorem afterActs_cold (acts : List UserAct) : ∀ fs : FS, last_use (fs.fstat i) ≤ x →
    (∀ act ∈ acts, x < PyFloat.ofNs act.time → act.file fs ≠ some i) →
    last_use ((acts.foldl (fun fs act => act.apply fs) fs).fstat i) ≤ x := by
  induction acts with
  | nil => exact fun _ hcold _ => hcold
  | cons act acts ih =>
    intro fs hcold hacts
    obtain ⟨hfirst, hothers⟩ := List.forall_mem_cons.mp hacts
    obtain ⟨hnode, hlimit⟩ := apply_node act fs
    refine ih (act.apply fs) (apply_cold hcold hfirst) fun b hb hlt => ?_
    rw [file_congr hnode hlimit]
    exact hothers b hb hlt

theorem afterActs_node (acts : List UserAct) : ∀ fs : FS,
    (acts.foldl (fun fs act => act.apply fs) fs).node = fs.node := by
  induction acts with
  | nil => exact fun _ => rfl
  | cons act acts ih => exact fun fs => (ih (act.apply fs)).trans (apply_node act fs).1

end Acts

/-! ### A sweep beside its users -/

section Run

variable {F : Type} [PyFloat F] (W : World F) (args : Args F)

/-- A file that was in use when `archive_one` looked at it has not become a symlink. -/
def World.Spared (a : Attempt OSError Host) : Prop :=
  ∀ st t, W.found a.path a.before = some st →
    (W.archive_one args a.path args.dry_run a.reason a.before).2.fs.node a.path = some (.link t) →
    last_use st ≤ cutoff args (W.outside args)

/-- No file whose turn is still to come is stamped later than the cutoff. -/
structure Unused (acts : Path → List UserAct) (fs : FS) (l : List (Attempt OSError Host)) : Prop where
  /-- No act before a call is on such a file. -/
  acts : ∀ a rest, a :: rest <:+ l → ∀ act ∈ acts a.path,
    cutoff args (W.outside args) < PyFloat.ofNs act.time →
    ∀ b ∈ a :: rest, ∀ i, act.file a.before.fs = some i → fs.node b.path ≠ some (.file i)
  /-- Nor does a call read such a file under another of its names, or take that name from it. -/
  names : ∀ a rest, a :: rest <:+ l → ∀ b ∈ rest, ∀ i, fs.node a.path = some (.file i) →
    fs.node b.path = some (.file i) → ∀ atime ctime,
    W.stamps a.path ((W.turn a.path a.before).fs.inode i) = (atime, ctime) →
    PyFloat.ofNs atime ≤ cutoff args (W.outside args) ∧
      PyFloat.ofNs ctime ≤ cutoff args (W.outside args)

/-- What holds before each call: the files whose turn is still to come are where they were, and
cold. -/
structure World.Cold (fs : FS) (rest : List (Attempt OSError Host)) (h : Host) : Prop where
  isDir : ∀ d, fs.isDir d = true → h.fs.isDir d = true
  node : ∀ a ∈ rest, h.fs.node a.path = fs.node a.path
  cold : ∀ a ∈ rest, ∀ i, fs.node a.path = some (.file i) →
    last_use (h.fs.fstat i) ≤ cutoff args (W.outside args)

variable {W args} {h : Host} {acts : Path → List UserAct} (hD : W.Described args h.fs)
  (hquiet : W.Quiet) (husers : ∀ p s, W.users p s = afterActs (acts p) s)

include husers

/-- What users do before a call leaves the files ahead where they are, and cold. -/
theorem World.Cold.turn {l : List (Attempt OSError Host)} (hunused : Unused W args acts h.fs l)
    {a : Attempt OSError Host} {rest : List (Attempt OSError Host)} (hsuffix : a :: rest <:+ l)
    (hcold : W.Cold args h.fs (a :: rest) a.before) :
    W.Cold args h.fs (a :: rest) (W.turn a.path a.before) := by
  have hfs : (W.turn a.path a.before).fs =
      (acts a.path).foldl (fun fs act => act.apply fs) a.before.fs := by
    rw [World.turn, husers]
    rfl
  have hnode : (W.turn a.path a.before).fs.node = a.before.fs.node := by
    rw [hfs, afterActs_node]
  refine ⟨fun d hd => ?_, fun b hb => ?_, fun b hb i hi => ?_⟩
  · rw [FS.isDir_congr (congrFun hnode d)]
    exact hcold.isDir d hd
  · rw [hnode]
    exact hcold.node b hb
  · rw [hfs]
    refine afterActs_cold (acts a.path) a.before.fs (hcold.cold b hb i hi) fun act hact hlt hfile => ?_
    exact hunused.acts a rest hsuffix act hact hlt b hb i hfile hi

include hD

omit husers in
/-- Where the manifest is open the files are where the walk has found them, and cold. -/
theorem opened_cold {l : List (Attempt OSError Host)} {s : Host}
    (hopen : opened args (W.outside args) h = (.ok (), s))
    (hcandidates : ∀ a ∈ l, ∃ c ∈ candidates args (W.outside args), c.path = a.path)
    (hne : candidates args (W.outside args) ≠ []) : W.Cold args h.fs l s := by
  obtain ⟨hdirs, hnodes, hdata, halloc⟩ := opened_ahead hD hopen hcandidates hne
  obtain ⟨c, hc⟩ := List.exists_mem_of_ne_nil _ hne
  have hkept := World.opened_kept hD hc hopen
  refine ⟨hdirs, hnodes, fun a ha i hi => ?_⟩
  obtain ⟨c, hc, hpath⟩ := hcandidates a ha
  obtain ⟨-, -, j, -, -, -, hj, hlu, hle⟩ := hD.candidate hc
  rw [hpath, hi] at hj
  obtain rfl := Node.file.inj (Option.some.inj hj)
  have hstat : s.fs.fstat i = h.fs.fstat i := by
    rw [FS.fstat, FS.fstat, hkept.same.inode i (h.fs.fresh _ _ hi) fun hF => hF, halloc]
  rw [hstat]
  exact hlu ▸ hle

include hquiet

/-- Where no file ahead is stamped as used, every call finds its file cold. -/
theorem chain_cold {l : List (Attempt OSError Host)} {s s' : Host}
    (hchain : Chain args (W.outside args) s l s') (hstart : W.Cold args h.fs l s)
    (hnodup : (l.map Attempt.path).Nodup)
    (hcandidates : ∀ a ∈ l, ∃ c ∈ candidates args (W.outside args), c.path = a.path)
    (hstored : ∀ a ∈ l, ∀ i b, (W.turn a.path a.before).fs.node a.path = some (.file i) →
      (W.env a.path).stored = some b →
      W.sha256 b ≠ W.sha256 ((W.turn a.path a.before).fs.inode i).data)
    (hunused : Unused W args acts h.fs l) :
    ∀ a rest, a :: rest <:+ l → W.Cold args h.fs (a :: rest) a.before := by
  refine (hchain.invariant (I := W.Cold args h.fs) hstart fun a rest hsuffix hcold => ?_).1
  have hturn := hcold.turn husers hunused hsuffix
  obtain ⟨c, hc, hpath⟩ := hcandidates a (hsuffix.subset List.mem_cons_self)
  have hready : W.Ready h.fs c.path a.before := by
    rw [hpath]
    refine ⟨hturn.isDir, hturn.node a List.mem_cons_self, fun i b hi hb => ?_⟩
    exact hstored a (hsuffix.subset List.mem_cons_self) i b
      ((hturn.node a List.mem_cons_self).trans hi) hb
  have hleaves := World.frame hD hquiet hc hready args.dry_run a.reason
  rw [hpath] at hleaves
  have hnot := not_ahead hnodup hsuffix
  refine ⟨fun d hd => hleaves.isDir d (hturn.isDir d hd), fun b hb => ?_, fun b hb i hi => ?_⟩
  · obtain ⟨c', hc', hpath'⟩ := hcandidates b (hsuffix.subset (List.mem_cons_of_mem _ hb))
    have hnode := hleaves.node c' hc' (hpath' ▸ hnot b hb)
    rw [hpath'] at hnode
    exact hnode.trans (hturn.node b (List.mem_cons_of_mem _ hb))
  · have hold := (hturn.node b (List.mem_cons_of_mem _ hb)).trans hi
    have hwas := hturn.cold b (List.mem_cons_of_mem _ hb) i hi
    have halloc : (W.archive_one args a.path args.dry_run a.reason a.before).2.fs.alloc =
        (W.turn a.path a.before).fs.alloc := hleaves.alloc
    show last_use ((W.archive_one args a.path args.dry_run a.reason a.before).2.fs.fstat i) ≤ _
    rw [last_use_le_iff] at hwas ⊢
    obtain hsame | ⟨hnamed, hstamped⟩ := hleaves.inode i ((W.turn a.path a.before).fs.fresh _ _ hold)
    · simp only [FS.fstat, hsame]
      exact hwas
    · -- `b` is another name of the file that the call was on
      obtain ⟨hatime, hctime⟩ := hunused.names a rest hsuffix b hb i
        ((hturn.node a List.mem_cons_self).symm.trans hnamed) hi _ _ rfl
      simp only [FS.fstat, hstamped]
      exact ⟨hatime, hwas.2.1, hctime⟩

/-- In a sweep during which no file whose turn is still to come is stamped as used, no file in use is
demoted. -/
theorem in_use_spared
    (hstored : ∀ a ∈ (main args (W.outside args) h).2.attempts, ∀ i b,
      (W.turn a.path a.before).fs.node a.path = some (.file i) → (W.env a.path).stored = some b →
      W.sha256 b ≠ W.sha256 ((W.turn a.path a.before).fs.inode i).data)
    (hunused : Unused W args acts h.fs (main args (W.outside args) h).2.attempts) :
    ∀ a ∈ (main args (W.outside args) h).2.attempts, W.Spared args a := by
  intro a ha st t hfound _
  obtain ⟨hnodup, hcandidates⟩ := main_paths args (W.outside args) hD.distinct h
  obtain ⟨s₁, s₂, hchain, hstart, -⟩ := main_chain args (W.outside args) h
  obtain ⟨before, rest, hl⟩ := List.append_of_mem ha
  have hsuffix : a :: rest <:+ (main args (W.outside args) h).2.attempts :=
    ⟨before, hl.symm⟩
  obtain ⟨c, hc, hpath⟩ := hcandidates a ha
  have hcold₁ : W.Cold args h.fs (main args (W.outside args) h).2.attempts s₁ :=
    opened_cold hD (hstart (List.ne_nil_of_mem ha)) hcandidates (List.ne_nil_of_mem hc)
  have hcold := chain_cold hD hquiet husers hchain hcold₁ hnodup hcandidates hstored hunused a rest
    hsuffix
  have hturn := hcold.turn husers hunused hsuffix
  obtain ⟨sub, name, i, hsub, hdir, hplain, hfile, -, -⟩ := hD.candidate hc
  rw [hpath] at hsub hfile
  -- what `archive_one` finds is the file that the walk has found
  have hnode := (hturn.node a List.mem_cons_self).trans hfile
  have hdir' : (W.turn a.path a.before).fs.RealDir (args.scratch ++ sub) :=
    ⟨hdir.1, fun q hq => hturn.isDir q (hdir.2 q hq)⟩
  have hstat : (W.turn a.path a.before).fs.stat a.path =
      .ok ((W.turn a.path a.before).fs.fstat i) := by
    generalize W.turn a.path a.before = s at hnode hdir' ⊢
    rw [hsub] at hnode ⊢
    exact FS.stat_file hdir' hplain hnode
  rw [World.found, restatted, hstat] at hfound
  split_ifs at hfound
  rw [← Option.some.inj hfound]
  exact hturn.cold a List.mem_cons_self i hfile

end Run

/-- The pool with one file that was last used on day 0, and a user who reads it when the sweep has
made its walk. -/
def readWorld (time : ℤ) : World ℚ :=
  { calmWorld with users := fun _ => afterActs [.read ["scratch", "a"] time] }

/-- Had the user read it on day 0, it would be demoted by right. -/
theorem readWorld_spared : (readWorld 0).Described smallArgs (smallTiers coldFile) ∧
    ∀ a ∈ (main smallArgs ((readWorld 0).outside smallArgs)
      { fs := smallTiers coldFile }).2.attempts, (readWorld 0).Spared smallArgs a := by
  have hD : (readWorld 0).Described smallArgs (smallTiers coldFile) :=
    { calmWorld_described with }
  have hone : (main smallArgs ((readWorld 0).outside smallArgs)
      { fs := smallTiers coldFile }).2.attempts.length = 1 := by
    decide +kernel
  refine ⟨hD, in_use_spared hD (fun _ _ => rfl) (show ∀ p s, (readWorld 0).users p s =
    afterActs ((fun _ => [.read ["scratch", "a"] 0]) p) s from fun _ _ => rfl)
    (fun _ _ _ _ _ h => nomatch (show (none : Option Bytes) = some _ from h)) ⟨?_, ?_⟩⟩
  · intro a rest _ act hact hlt
    obtain rfl := List.mem_singleton.mp hact
    exact absurd hlt (by decide +kernel)
  · intro a rest hsuffix b hb
    have hlen := hsuffix.length_le
    rw [hone, List.length_cons] at hlen
    exact absurd (List.length_pos_of_mem hb) (by omega)

/-- A file that is read on the day of the sweep, between the walk and its turn, is demoted. -/
theorem read_file_demoted :
    ¬ ∀ a ∈ (main smallArgs ((readWorld (100 * 86400 * 1000000000)).outside smallArgs)
      { fs := smallTiers coldFile }).2.attempts,
      (readWorld (100 * 86400 * 1000000000)).Spared smallArgs a := by
  have hdemoted : ∃ a ∈ (main smallArgs ((readWorld (100 * 86400 * 1000000000)).outside smallArgs)
      { fs := smallTiers coldFile }).2.attempts,
      (∃ st ∈ (readWorld (100 * 86400 * 1000000000)).found a.path a.before,
        cutoff smallArgs ((readWorld (100 * 86400 * 1000000000)).outside smallArgs) <
          last_use st) ∧
      (((readWorld (100 * 86400 * 1000000000)).archive_one smallArgs a.path smallArgs.dry_run
        a.reason a.before).2.fs.node a.path).any Node.isLink := by
    decide +kernel
  intro hspared
  obtain ⟨a, ha, ⟨st, hfound, hused⟩, hlink⟩ := hdemoted
  rw [Option.any_eq_true] at hlink
  obtain ⟨n, hnode, hn⟩ := hlink
  cases n with
  | dir m => exact nomatch hn
  | file i => exact nomatch hn
  | link t => exact absurd (hspared a ha st t hfound hnode) (not_le.mpr hused)

end Sweep

end Scratch
