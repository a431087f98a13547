/-
What a failing call does to a sweep.

`archive_one` catches whatever the file system's calls raise, up to the last of them: where the file
has given way to its symlink, the append to the manifest is not guarded.  Nor is what it prints,
which no `OSError` handler is for: a name that is not UTF-8 may have no encoding.  So a sweep goes on
past a file that fails, unless the append fails or the line cannot be printed, which ends the whole
sweep.

* `World.outside` — a sweep whose calls of `archive_one` are the program of that name;
* `main_congr` — a sweep knows `archive_one` only by the calls it makes of it;
* `demote_answers`, `answers_iff` — when `archive_one` answers;
* `isolated_iff` — when a failing file is passed over.
-/
import KrgInfra.ArchiveOne
import KrgInfra.Sweep

namespace Scratch

open Posix

/-! ### The calls of `archive_one` that are guarded -/

section Guarded

variable (sha256 : Bytes → String) (env : ArchiveEnv) (path scratch cold : Path)

/-- What the guarded calls come to: the file was gone, the call answers `n` and says so, or the file
has given way to its symlink, which is due to be recorded. -/
inductive Verdict where
  | gone
  | answer (n : ℕ)
  | due (st : FS.Stat) (src_sha : String)
  deriving DecidableEq, Repr

/-- `archive_switch` up to its last calls: whether the file has given way to its symlink. -/
def switched (st : FS.Stat) (dest : Path) : Program OSError Host Bool := do
  let st2 ← attempt (sys env path .restat (ask (·.stat path)))
  if st2.map identity ≠ some (identity st) then do
    let _ ← attempt (sys env path .unlinkDest (change (·.unlink dest)))
    return false
  else do
    let link_tmp := tmp_sibling path "so" env.urandomLink
    let swapped ← attempt (archive_swap env path dest link_tmp)
    if swapped = none then do
      let _ ← cleanup (env.toEnv path) .lexistsLinkCleanup .unlinkLink link_tmp
      return false
    else return true

/-- The line of the manifest, that of the log, and the answer after them. -/
def recorded (st : FS.Stat) (dest : Path) (src_sha : String) (reason : Reason) :
    Program OSError Host ℕ := do
  sys env path .manifest (Work.update fun h => .ok ((), { h with
    manifest := h.manifest ++ [{
      ts := seconds env.time
      reason := reason
      path := path
      dest := dest
      size := st.size
      sha256 := src_sha
      atime := seconds st.atime
      last_use := seconds (last_use st) }] }))
  logged env (st.blocks * 512)

/-- `archive_one` up to its last calls. -/
def demote (dry_run : Bool) : Program OSError Host Verdict := do
  let rel := relpath path scratch
  let dest := join cold rel
  let found ← attempt (sys env path .statPath (ask (·.stat path)))
  match found with
  | none => return .gone
  | some st =>
    if dry_run then return .answer (st.blocks * 512)
    else do
      let cold_real ← peek fun h => h.fs.realpath cold
      let dest_real ← peek fun h => h.fs.realpath dest
      if under dest_real cold_real = false then return .answer 0
      else do
        let part := tmp_sibling dest "so" env.urandomPart
        let copied ← tryCatch (archive_copy sha256 env path scratch cold st rel dest part) fun _ => do
          let _ ← cleanup (env.toEnv path) .lexistsPartCleanup .unlinkPart part
          return none
        match copied with
        | none => return .answer 0
        | some src_sha =>
          if ← switched env path st dest then return .due st src_sha
          else return .answer 0

/-- The last calls, which nothing guards. -/
def unguarded (reason : Reason) : Verdict → Program OSError Host ℕ
  | .gone => pure 0
  | .answer n => logged env n
  | .due st src_sha => recorded env path st (join cold (relpath path scratch)) src_sha reason

theorem archive_switch_eq (st : FS.Stat) (dest : Path) (src_sha : String) (reason : Reason) :
    archive_switch env path st dest src_sha reason = (do
      if ← switched env path st dest then recorded env path st dest src_sha reason
      else logged env 0) := by
  rw [archive_switch, switched, bind_assoc]
  refine bind_congr fun st2 => ?_
  by_cases hchanged : st2.map identity ≠ some (identity st)
  · rw [if_pos hchanged, if_pos hchanged, bind_assoc]
    rfl
  rw [if_neg hchanged, if_neg hchanged, bind_assoc]
  refine bind_congr fun swapped => ?_
  by_cases hfailed : swapped = none
  · rw [if_pos hfailed, if_pos hfailed, bind_assoc]
    rfl
  · rw [if_neg hfailed, if_neg hfailed]
    rfl

theorem archive_one_eq (dry_run : Bool) (reason : Reason) :
    archive_one sha256 env path scratch cold dry_run reason =
      demote sha256 env path scratch cold dry_run >>= unguarded env path scratch cold reason := by
  rw [archive_one, demote, bind_assoc]
  refine bind_congr fun found => ?_
  cases found with
  | none => rfl
  | some st =>
    cases dry_run with
    | true => rfl
    | false =>
      simp only [Bool.false_eq_true, ↓reduceIte, bind_assoc]
      refine bind_congr fun cold_real => bind_congr fun dest_real => ?_
      by_cases hescapes : under dest_real cold_real = false
      · rw [if_pos hescapes, if_pos hescapes]
        rfl
      rw [if_neg hescapes, if_neg hescapes, bind_assoc]
      refine bind_congr fun copied => ?_
      cases copied with
      | none => rfl
      | some src_sha =>
        simp only [archive_switch_eq, bind_assoc]
        refine bind_congr fun due => ?_
        cases due <;> rfl

/-- A call that nothing guards fails: the file is gone and the append of its line raises, or the
file was there and its name cannot be printed. -/
def LastCallFails (dry_run : Bool) (h : Host) : Prop :=
  ∃ verdict, (outcomeOf (demote sha256 env path scratch cold dry_run) h).1 = .ok verdict ∧
    ((∃ st src_sha, verdict = .due st src_sha) ∧ env.outcome .manifest ≠ .ok ∨
      verdict ≠ .gone ∧ env.printable = false)

/-! ### When `archive_one` answers -/

/-- Whatever its calls raise, it comes to a verdict. -/
theorem demote_answers (dry_run : Bool) : Triple (fun _ => True) (fun _ => True)
    (demote sha256 env path scratch cold dry_run) (fun _ _ => True) fun _ _ => False := by
  have hattempt : ∀ {α : Type} (x : Program OSError Host α), Triple (fun _ => True) (fun _ => True)
      (attempt x) (fun _ _ => True) fun _ _ => False := fun x => Triple.attempt Triple.top
  have hpure : ∀ verdict, Triple (fun _ => True) (fun _ => True)
      (pure verdict : Program OSError Host Verdict) (fun _ _ => True)
      fun _ _ => False := fun verdict => Triple.pure fun _ _ h => h
  have hswitched : ∀ st dest, Triple (fun _ => True) (fun _ => True) (switched env path st dest)
      (fun _ _ => True) fun _ _ => False := by
    intro st dest
    refine Triple.bind (hattempt _) fun st2 => ?_
    split_ifs
    · exact Triple.bind (hattempt _) fun _ => Triple.pure fun _ _ h => h
    · refine Triple.bind (hattempt _) fun swapped => ?_
      split_ifs
      · exact Triple.bind (hattempt _) fun _ => Triple.pure fun _ _ h => h
      · exact Triple.pure fun _ _ h => h
  refine Triple.bind (hattempt _) fun found => ?_
  cases found with
  | none => exact hpure .gone
  | some st =>
    cases dry_run with
    | true => exact hpure _
    | false =>
      refine Triple.bind Triple.of_peek fun cold_real => ?_
      refine Triple.bind Triple.of_peek fun dest_real => ?_
      split_ifs
      · exact hpure _
      -- whatever the copy raises, its handler is a cleanup that raises nothing
      refine Triple.bind (Triple.tryCatch Triple.top fun e =>
        Triple.bind (hattempt _) fun _ => Triple.pure fun _ _ h => h) fun copied => ?_
      cases copied with
      | none => exact hpure _
      | some src_sha =>
        refine Triple.bind (hswitched st _) fun due => ?_
        split_ifs
        · exact Triple.pure fun _ _ h => h
        · exact hpure _

/-- What comes of a run of `archive_one`, by what comes of its guarded calls. -/
theorem archive_one_run (dry_run : Bool) (reason : Reason) (t : Trace Host) :
    archive_one sha256 env path scratch cold dry_run reason t =
      match demote sha256 env path scratch cold dry_run t with
      | .ok verdict t => unguarded env path scratch cold reason verdict t
      | .error e t => .error e t := by
  rw [archive_one_eq]
  show EStateM.bind _ _ _ = _
  rw [EStateM.bind]
  cases demote sha256 env path scratch cold dry_run t with
  | ok verdict t => rfl
  | error e t => rfl

/-- A line that can be printed. -/
theorem logged_of_printable (n : ℕ) (t : Trace Host) (hok : env.printable = true) :
    logged env n t = .ok n t := by
  rw [logged, log, if_pos hok]
  rfl

theorem logged_of_not_printable (n : ℕ) (t : Trace Host) (hno : env.printable = false) :
    logged env n t = .error .unicodeEncode t := by
  rw [logged, log, if_neg (by rw [hno]; decide)]
  rfl

/-- What the last calls answer, if none of them is made to raise. -/
theorem recorded_answer (st : FS.Stat) (dest : Path) (src_sha : String) (reason : Reason)
    (t : Trace Host) (hok : env.outcome .manifest = .ok) (hprint : env.printable = true) :
    ∃ t', recorded env path st dest src_sha reason t = .ok (st.blocks * 512) t' := by
  show ∃ t', EStateM.bind _ _ _ = _
  simp only [EStateM.bind, sys, call, ArchiveEnv.toEnv, hok]
  exact ⟨_, logged_of_printable env _ _ hprint⟩

/-- The last calls answer unless one of them is made to raise. -/
theorem recorded_ok_iff (st : FS.Stat) (dest : Path) (src_sha : String) (reason : Reason)
    (t : Trace Host) : (∃ n t', recorded env path st dest src_sha reason t = .ok n t') ↔
      env.outcome .manifest = .ok ∧ env.printable = true := by
  constructor
  · rintro ⟨n, t', h⟩
    change EStateM.bind _ _ _ = _ at h
    simp only [EStateM.bind, sys, call, ArchiveEnv.toEnv] at h
    cases hm : env.outcome .manifest with
    | ok =>
      refine ⟨rfl, (Bool.not_eq_false _).mp fun hno => ?_⟩
      rw [hm] at h
      exact nomatch (logged_of_not_printable env _ _ hno).symm.trans h
    | raise e done =>
      rw [hm] at h
      exact nomatch h
  · rintro ⟨hok, hprint⟩
    exact ⟨_, recorded_answer env path st dest src_sha reason t hok hprint⟩

/-- When the last calls answer. -/
theorem unguarded_ok_iff (reason : Reason) (verdict : Verdict) (t : Trace Host) :
    (∃ n t', unguarded env path scratch cold reason verdict t = .ok n t') ↔
      ¬ ((∃ st src_sha, verdict = .due st src_sha) ∧ env.outcome .manifest ≠ .ok ∨
        verdict ≠ .gone ∧ env.printable = false) := by
  cases verdict with
  | gone =>
    refine ⟨fun _ h => ?_, fun _ => ⟨0, t, rfl⟩⟩
    obtain ⟨⟨_, _, h⟩, -⟩ | ⟨h, -⟩ := h
    · exact nomatch h
    · exact h rfl
  | answer n =>
    cases hprint : env.printable with
    | true =>
      refine ⟨fun _ h => ?_, fun _ => ⟨n, t, logged_of_printable env n t hprint⟩⟩
      obtain ⟨⟨_, _, h⟩, -⟩ | ⟨-, h⟩ := h
      · exact nomatch h
      · exact nomatch h
    | false =>
      refine ⟨?_, fun h => absurd (.inr ⟨nofun, rfl⟩) h⟩
      rintro ⟨m, t', h⟩
      exact nomatch (logged_of_not_printable env n t hprint).symm.trans h
  | due st src_sha =>
    rw [unguarded, recorded_ok_iff]
    constructor
    · rintro ⟨hok, hprint⟩ (⟨-, h⟩ | ⟨-, h⟩)
      · exact h hok
      · exact nomatch h.symm.trans hprint
    · intro h
      rw [not_or] at h
      refine ⟨by_contra fun hok => h.1 ⟨⟨st, src_sha, rfl⟩, hok⟩, ?_⟩
      exact (Bool.not_eq_false _).mp fun hprint => h.2 ⟨nofun, hprint⟩

/-- `archive_one` answers, unless one of the calls fails that nothing guards. -/
theorem answers_iff (dry_run : Bool) (reason : Reason) (h : Host) :
    (∃ n, (outcomeOf (archive_one sha256 env path scratch cold dry_run reason) h).1 = .ok n) ↔
      ¬ LastCallFails sha256 env path scratch cold dry_run h := by
  have hdemote := (demote_answers sha256 env path scratch cold dry_run ⟨h, []⟩
    (fun _ _ => trivial) trivial)
  rw [LastCallFails, outcomeOf, outcomeOf, archive_one_run]
  cases hrun : demote sha256 env path scratch cold dry_run ⟨h, []⟩ with
  | error e t =>
    rw [hrun] at hdemote
    exact hdemote.2.elim
  | ok verdict t =>
    have hlast := unguarded_ok_iff env path scratch cold reason verdict t
    simp only [Except.ok.injEq, exists_eq_left']
    rw [← hlast]
    cases unguarded env path scratch cold reason verdict t with
    | ok n t' => exact ⟨fun _ => ⟨n, t', rfl⟩, fun _ => ⟨n, rfl⟩⟩
    | error e t' => exact ⟨fun ⟨n, hn⟩ => (nomatch hn), fun ⟨n, t'', hn⟩ => (nomatch hn)⟩

end Guarded

/-- The host as `archive_one` finds it when the turn comes to `path`. -/
def Host.facing (path : Path) (h : Host) : Host :=
  { h with
    latest :=
      match h.fs.node path with
      | some (.file i) => some (h.fs.inode i).data
      | _ => none }

namespace Sweep

/-! ### The sweep of a host -/

/-- What a sweep meets: the pool, the tree and the clock, how the calls that open the manifest and
those of `archive_one` on a file are served, the times that these leave on a file that is read and
then loses its name, and what users do before them. -/
structure World (F : Type) where
  sha256 : Bytes → String
  ismount : Path → Bool
  pool_bytes : Host → Option (ℤ × ℤ)
  time : F
  tree : Dir
  manifest : ManifestSite → Outcome OSError := fun _ => .ok
  write_note : Host → Host
  env : Path → ArchiveEnv
  /-- `atime` and `ctime` of the file that the path named. -/
  stamps : Path → Inode → ℤ × ℤ := fun _ f => (f.atime, f.ctime)
  users : Path → Host → Host

section Outside

variable {F : Type} (W : World F) (args : Args F)

/-- The host when `archive_one` is called on `path`. -/
def World.turn (path : Path) (h : Host) : Host := (W.users path h).facing path

/-- The times that a call leaves on the file that `path` named before it. -/
def World.stamp (path : Path) (before after : FS) : FS :=
  match before.node path with
  | some (.file i) =>
    let (atime, ctime) := W.stamps path (after.inode i)
    after.setInode i { after.inode i with atime := atime, ctime := ctime }
  | _ => after

/-- The call of `archive_one` on `path`; a dry run reads no file, and so stamps none. -/
def World.archive_one (path : Path) (dry_run : Bool) (reason : Reason) (h : Host) :
    Except OSError ℕ × Host :=
  let (result, t) := outcomeOf (Scratch.archive_one W.sha256 (W.env path) path args.scratch
    args.cold dry_run reason) (W.turn path h)
  let fs := if dry_run then t.now.fs else W.stamp path (W.turn path h).fs t.now.fs
  (result, { t.now with fs := fs, latest := h.latest })

/-- The calls that open the manifest. -/
def World.open_manifest (h : Host) : Except OSError Unit × Host :=
  let (result, t) := outcomeOf (manifest_or_null W.manifest (join args.scratch [ARCHIVE_DIR])) h
  (result, t.now)

def World.outside : Outside F OSError Host where
  ismount := W.ismount
  pool_bytes := W.pool_bytes
  time := W.time
  tree := W.tree
  open_manifest := W.open_manifest args
  archive_one := W.archive_one args
  write_note := W.write_note

end Outside

section Contained

variable {F ε σ : Type} (args : Args F) (out : Outside F ε σ)

/-- The outside in which a call that raises answers instead: `n` of its file, which is 0 where the
file counts as skipped. -/
def Outside.contained (n : Path → ℕ) : Outside F ε σ :=
  { out with
    archive_one := fun path dry_run reason s =>
      match out.archive_one path dry_run reason s with
      | (.ok got, s) => (.ok got, s)
      | (.error _, s) => (.ok (n path), s) }

variable [PyFloat F]

/-- The sweep goes on past a file that fails. -/
structure Isolated (n : Path → ℕ) (s : σ) : Prop where
  same : main args out s = main args (out.contained n) s
  answers : ∀ a ∈ (main args out s).2.attempts, ∃ got, a.result = .ok got
  ends : ∀ e, (main args out s).1 = .raised e → (out.open_manifest s).1 = .error e

end Contained

/-! ### A sweep knows `archive_one` by its calls -/

section Congr

variable {F ε σ : Type} [PyFloat F] {args : Args F} {out out' : Outside F ε σ}

/-- Both outsides make the same of a call. -/
def SameCall (args : Args F) (out out' : Outside F ε σ) (a : Attempt ε σ) : Prop :=
  out.archive_one a.path args.dry_run a.reason a.before =
    out'.archive_one a.path args.dry_run a.reason a.before

omit [PyFloat F] in
theorem archive_congr {reason : Reason} {c : Candidate F} {w : Run ε σ}
    (h : ∀ a ∈ (w.archive args out' reason c).2.attempts, SameCall args out out' a) :
    w.archive args out reason c = w.archive args out' reason c := by
  obtain ⟨hattempts, -, -, -⟩ := archive_spec args out' reason c w
  have hcall := h ⟨c.path, reason, w.state, (w.archive args out' reason c).1⟩ (by
    rw [hattempts]
    exact List.mem_append_right _ (List.mem_singleton.mpr rfl))
  rw [Run.archive, Run.archive, show out.archive_one c.path args.dry_run reason w.state =
    out'.archive_one c.path args.dry_run reason w.state from hcall]

omit [PyFloat F] in
theorem ttl_pass_congr (l : List (Candidate F)) : ∀ w : Run ε σ,
    (∀ a ∈ (ttl_pass args out' l w).2.attempts, SameCall args out out' a) →
    ttl_pass args out l w = ttl_pass args out' l w := by
  induction l with
  | nil => exact fun _ _ => rfl
  | cons c cs ih =>
    intro w h
    rw [ttl_pass] at h ⊢
    rw [ttl_pass]
    cases hcall : w.archive args out' .ttl c with
    | mk result w₁ =>
      rw [hcall] at h
      have hfirst : ∀ a ∈ w₁.attempts, SameCall args out out' a := by
        cases result with
        | error e => exact h
        | ok got =>
          obtain ⟨new, hnew, -⟩ := ttl_pass_spec args out' cs w₁
          refine fun a ha => h a ?_
          rw [hnew.attempts]
          exact List.mem_append_left _ ha
      rw [archive_congr (by rw [hcall]; exact hfirst), hcall]
      cases result with
      | error e => rfl
      | ok got => exact ih w₁ h

omit [PyFloat F] in
theorem capacity_pass_congr (target : ℕ) (l : List (Candidate F)) :
    ∀ (cap_freed : ℕ) (w : Run ε σ),
    (∀ a ∈ (capacity_pass args out' target l cap_freed w).2.attempts, SameCall args out out' a) →
    capacity_pass args out target l cap_freed w =
      capacity_pass args out' target l cap_freed w := by
  induction l with
  | nil => exact fun _ _ _ => rfl
  | cons c cs ih =>
    intro cap_freed w h
    by_cases hmet : target ≤ cap_freed
    · rw [capacity_pass, capacity_pass, if_pos hmet, if_pos hmet]
    rw [capacity_pass, if_neg hmet] at h ⊢
    rw [capacity_pass, if_neg hmet]
    cases hcall : w.archive args out' .capacity c with
    | mk result w₁ =>
      rw [hcall] at h
      have hfirst : ∀ a ∈ w₁.attempts, SameCall args out out' a := by
        cases result with
        | error e => exact h
        | ok got =>
          obtain ⟨new, hnew, -⟩ := capacity_pass_spec args out' target cs (cap_freed + got) w₁
          refine fun a ha => h a ?_
          rw [hnew.attempts]
          exact List.mem_append_left _ ha
      rw [archive_congr (by rw [hcall]; exact hfirst), hcall]
      cases result with
      | error e => rfl
      | ok got => exact ih (cap_freed + got) w₁ h

/-- The two outsides differ in how they serve `archive_one`. -/
def Beside (out out' : Outside F ε σ) : Prop := { out with archive_one := out'.archive_one } = out'

section Beside

variable (hbeside : Beside out out')

include hbeside

theorem ttl_list_congr : ttl_list args out = ttl_list args out' := by
  rw [← hbeside]
  rfl

theorem cap_list_congr : cap_list args out = cap_list args out' := by
  rw [← hbeside]
  rfl

omit [PyFloat F] in
theorem remeasured_congr (size free : ℤ) (w : Run ε σ) :
    remeasured args out size free w = remeasured args out' size free w := by
  rw [← hbeside]
  rfl

omit [PyFloat F] in
theorem finish_congr (w : Run ε σ) : finish args out w = finish args out' w := by
  rw [← hbeside]
  rfl

/-- The passes are the same with two outsides that make the same of each call that one makes. -/
theorem passes_congr (size free : ℤ) (w : Run ε σ)
    (h : ∀ a ∈ (passes args out' size free w).2.attempts, SameCall args out out' a) :
    passes args out size free w = passes args out' size free w := by
  rw [passes] at h ⊢
  rw [passes, ttl_list_congr hbeside, cap_list_congr hbeside]
  cases httl : ttl_pass args out' (ttl_list args out') w with
  | mk result w₁ =>
    rw [httl] at h
    have hgo : (∀ a ∈ w₁.attempts, SameCall args out out' a) →
        ttl_pass args out (ttl_list args out') w = (result, w₁) := by
      intro hw₁
      rw [ttl_pass_congr _ w (by rw [httl]; exact hw₁), httl]
    cases result with
    | error e => rw [hgo h]
    | ok _ =>
      dsimp only at h
      cases hpool : remeasured args out' size free w₁ with
      | none =>
        rw [hpool] at h
        rw [hgo h]
        simp only [remeasured_congr hbeside, hpool]
      | some pool =>
        obtain ⟨size', free'⟩ := pool
        rw [hpool] at h
        dsimp only at h
        by_cases hhigh : args.high ≤ capacity_pct size' free'
        · rw [if_pos hhigh] at h
          cases hcap : capacity_pass args out' (to_free args size' free') (cap_list args out') 0 w₁ with
          | mk result w₂ =>
            rw [hcap] at h
            have hw₂ : ∀ a ∈ w₂.attempts, SameCall args out out' a := by
              cases result with
              | error e => exact h
              | ok _ =>
                dsimp only at h
                rwa [finish_attempts] at h
            obtain ⟨new, hnew, -⟩ :=
              capacity_pass_spec args out' (to_free args size' free') (cap_list args out') 0 w₁
            rw [hcap] at hnew
            rw [hgo fun a ha => hw₂ a (by rw [hnew.attempts]; exact List.mem_append_left _ ha)]
            have hsame : capacity_pass args out (to_free args size' free') (cap_list args out') 0 w₁ =
                capacity_pass args out' (to_free args size' free') (cap_list args out') 0 w₁ :=
              capacity_pass_congr _ _ _ _ (by rw [hcap]; exact hw₂)
            simp only [remeasured_congr hbeside, hpool, if_pos hhigh, hsame, hcap,
              finish_congr hbeside]
        · rw [if_neg hhigh, finish_attempts] at h
          rw [hgo h]
          simp only [remeasured_congr hbeside, hpool, if_neg hhigh, finish_congr hbeside]

/-- So is the sweep. -/
theorem main_congr (s : σ) (h : ∀ a ∈ (main args out' s).2.attempts, SameCall args out out' a) :
    main args out s = main args out' s := by
  have hentry : entry args out s = entry args out' s := by
    rw [← hbeside]
    rfl
  have hopened : opened args out s = opened args out' s := by
    rw [← hbeside]
    rfl
  rw [main] at h ⊢
  rw [main, hentry, hopened]
  cases hfound : entry args out' s with
  | inl exit => rfl
  | inr pool =>
    rw [hfound] at h
    rcases hopen : opened args out' s with ⟨e | _, s₁⟩
    · rfl
    · rw [hopen] at h
      exact passes_congr hbeside _ _ _ h

end Beside

end Congr

/-! ### Failing files -/

section Errors

variable {F : Type} [PyFloat F] (W : World F) (args : Args F)

/-- A call of `archive_one` in which one of those fails that nothing guards. -/
def World.Exposed (a : Attempt OSError Host) : Prop :=
  LastCallFails W.sha256 (W.env a.path) a.path args.scratch args.cold args.dry_run
    (W.turn a.path a.before)

omit [PyFloat F] in
theorem World.answers_iff (a : Attempt OSError Host) :
    (∃ n, ((W.outside args).archive_one a.path args.dry_run a.reason a.before).1 = .ok n) ↔
      ¬ W.Exposed args a :=
  Scratch.answers_iff W.sha256 (W.env a.path) a.path args.scratch args.cold args.dry_run a.reason
    (W.turn a.path a.before)

omit [PyFloat F] in
theorem contained_archive_one {ε σ : Type} (out : Outside F ε σ) (n : Path → ℕ) (path : Path)
    (dry_run : Bool) (reason : Reason) (s : σ) :
    (out.contained n).archive_one path dry_run reason s =
      match out.archive_one path dry_run reason s with
      | (.ok got, s) => (.ok got, s)
      | (.error _, s) => (.ok (n path), s) := rfl

omit [PyFloat F] in
/-- A call that answers is served alike where errors are contained. -/
theorem sameCall_contained {ε σ : Type} {out : Outside F ε σ} {n : Path → ℕ} {a : Attempt ε σ}
    (h : ∃ got, (out.archive_one a.path args.dry_run a.reason a.before).1 = .ok got) :
    SameCall args out (out.contained n) a := by
  obtain ⟨got, hgot⟩ := h
  rw [SameCall, contained_archive_one]
  cases hcall : out.archive_one a.path args.dry_run a.reason a.before with
  | mk result s =>
    rw [hcall] at hgot
    obtain rfl : result = .ok got := hgot
    rfl

omit [PyFloat F] in
theorem contained_answers {ε σ : Type} (out : Outside F ε σ) (n : Path → ℕ) (path : Path)
    (reason : Reason) (s : σ) :
    ∃ got, ((out.contained n).archive_one path args.dry_run reason s).1 = .ok got := by
  rw [contained_archive_one]
  rcases out.archive_one path args.dry_run reason s with ⟨(e | got), s'⟩
  · exact ⟨n path, rfl⟩
  · exact ⟨got, rfl⟩

/-- Whatever a failing file is counted for, a sweep goes on past it as if it had answered just that
if and only if no file is replaced whose line then cannot be appended to the manifest, and none is
there whose name cannot be printed. -/
theorem isolated_iff (n : Path → ℕ) (h : Host) :
    Isolated args (W.outside args) n h ↔
      ∀ a ∈ (main args ((W.outside args).contained n) h).2.attempts, ¬ W.Exposed args a := by
  constructor
  · intro hisolated a ha
    rw [← hisolated.same] at ha
    obtain ⟨got, hgot⟩ := hisolated.answers a ha
    obtain ⟨s₁, s₂, hchain, -⟩ := main_chain args (W.outside args) h
    exact (W.answers_iff args a).mp ⟨got, (hchain.result a ha).symm.trans hgot⟩
  · intro hguarded
    have hsame : main args (W.outside args) h = main args ((W.outside args).contained n) h :=
      main_congr (show Beside (W.outside args) ((W.outside args).contained n) from rfl) h
        fun a ha => sameCall_contained args ((W.answers_iff args a).mpr (hguarded a ha))
    obtain ⟨s₁, s₂, hchain, -, -, hraised⟩ := main_chain args ((W.outside args).contained n) h
    have hanswers : ∀ a ∈ (main args ((W.outside args).contained n) h).2.attempts,
        ∃ got, a.result = .ok got := by
      intro a ha
      obtain ⟨got, hgot⟩ := contained_answers args (W.outside args) n a.path a.reason a.before
      exact ⟨got, (hchain.result a ha).trans hgot⟩
    refine ⟨hsame, by rwa [hsame], fun e he => ?_⟩
    rw [hsame] at he
    obtain hopen | ⟨a, ha, hresult⟩ := hraised e he
    · exact hopen
    · obtain ⟨got, hgot⟩ := hanswers a ha
      exact nomatch hresult.symm.trans hgot

end Errors

/-- A file of three bytes that was last used on day 0. -/
def coldFile : Inode := ⟨[1, 2, 3], ⟨1000, 100, 0o644#12⟩, 0, 0, 0⟩

/-- A full pool with that file, where nothing can be appended to the manifest. -/
def fullWorld : World ℚ where
  sha256 b := toString b.length
  ismount _ := true
  pool_bytes _ := some (1000, 0)
  time := 100 * 86400
  tree := .mk [("a", some ⟨.file 0, some 0, 3, 1, ⟨1000, 100, 0o644#12⟩, 0, 0, 0⟩)] .nil
  write_note := id
  env _ :=
    { outcome := fun i => if i = .manifest then .raise .other false else .ok
      cp := ⟨2, fun _ _ => 1⟩
      urandomPart := "0"
      urandomLink := "1" }
  users _ := id

/-- There the first file demoted ends the sweep. -/
theorem full_pool_raises :
    ¬ ∃ n, Isolated smallArgs (fullWorld.outside smallArgs) n { fs := smallTiers coldFile } := by
  rintro ⟨n, hisolated⟩
  have hraised : (main smallArgs (fullWorld.outside smallArgs) { fs := smallTiers coldFile }).1 =
      .raised .other := by
    decide +kernel
  have hopened : ((fullWorld.outside smallArgs).open_manifest { fs := smallTiers coldFile }).1 =
      .ok () := by
    decide +kernel
  exact nomatch hopened.symm.trans (hisolated.ends _ hraised)

/-- The same pool with a manifest that can be written, and a file whose name is not UTF-8. -/
def garbledWorld : World ℚ :=
  { fullWorld with
    env := fun _ =>
      { cp := ⟨2, fun _ _ => 1⟩, urandomPart := "0", urandomLink := "1", printable := false } }

/-- There too the first file demoted ends the sweep, though no call of the file system fails. -/
theorem garbled_name_raises :
    ¬ ∃ n, Isolated smallArgs (garbledWorld.outside smallArgs) n { fs := smallTiers coldFile } := by
  rintro ⟨n, hisolated⟩
  have hraised : (main smallArgs (garbledWorld.outside smallArgs) { fs := smallTiers coldFile }).1 =
      .raised .unicodeEncode := by
    decide +kernel
  have hopened : ((garbledWorld.outside smallArgs).open_manifest { fs := smallTiers coldFile }).1 =
      .ok () := by
    decide +kernel
  exact nomatch hopened.symm.trans (hisolated.ends _ hraised)

end Sweep

end Scratch
