/-
scratch-overflow's sweep: which files it demotes, in which order, and when it stops.

One walk of the scratch tier gives the candidates, coldest first.  Those that are idle for longer
than the TTL are demoted in any case; of the others as many as it takes to bring the pool below its
low-water mark, if it is above the high-water mark then.  How a file is demoted (`archive_one`), and
how full the pool is, stand outside of the sweep.

* `Dir.walk`, `gather_candidates` — the walk, and what of it is a candidate;
* `ttl_pass`, `capacity_pass`, `main` — the two passes, and the run;
* `ttl_pass_spec`, `capacity_pass_spec` — what each pass attempts;
* `Dir.HasFile`, `Eligible`, `mem_candidates_iff` — which files of the tree are candidates;
* `sweep_policy` — what a whole run attempts.
-/
import KrgInfra.Manifest
import Mathlib

namespace Scratch

namespace Sweep

open Posix

/-! ### Numbers and times -/

/-- The script's floats.  What is proved of a sweep relies on their order only, so that it holds
however they are rounded. -/
class PyFloat (F : Type) extends LinearOrder F, Add F, Sub F, Mul F, Div F where
  ofInt : ℤ → F
  /-- `int(x)` -/
  toInt : F → ℤ
  /-- A time stamp in nanoseconds, as `st_atime` and the like give it in seconds. -/
  ofNs : ℤ → F

/-- Floats that are not rounded. -/
instance : PyFloat ℚ where
  ofInt n := n
  toInt x := x.num.tdiv x.den
  ofNs ns := ns / 1000000000

section Numbers

variable {F : Type} [PyFloat F]

/-- When this file was last used on this pool: the latest of its three times. -/
def last_use (st : FS.Stat) : F :=
  max (PyFloat.ofNs st.atime) (max (PyFloat.ofNs st.mtime) (PyFloat.ofNs st.ctime))

/-- How full the pool is, in per cent. -/
def capacity_pct (size free : ℤ) : F :=
  if size ≤ 0 then PyFloat.ofInt 0
  else PyFloat.ofInt 100 * PyFloat.ofInt (size - free) / PyFloat.ofInt size

def days (n : F) : F := n * PyFloat.ofInt 86400

end Numbers

/-! ### The walk -/

mutual

/-- A directory as `os.walk` finds it: the names that are no directories, with what `lstat` says of
each, and the directories it descends into. -/
inductive Dir where
  | mk (files : List (String × Option FS.Stat)) (dirs : Dirs)

inductive Dirs where
  | nil
  | cons (name : String) (dir : Dir) (rest : Dirs)

end

mutual

/-- The files below a directory; the directories in `skip` are not descended into. -/
def Dir.walk (skip : List Path) (root : Path) : Dir → List (Path × Option FS.Stat)
  | .mk files dirs => files.map (fun f => (join root [f.1], f.2)) ++ dirs.walk skip root

def Dirs.walk (skip : List Path) (root : Path) : Dirs → List (Path × Option FS.Stat)
  | .nil => []
  | .cons name dir rest =>
    (if join root [name] ∈ skip then [] else dir.walk skip (join root [name])) ++
      rest.walk skip root

end

/-- A file that may be demoted, as the walk saw it. -/
structure Candidate (F : Type) where
  lu : F
  size : ℕ
  path : Path

section Gather

variable {F : Type} [PyFloat F]

/-- `p.startswith(dir + os.sep)` -/
def inside (dir p : Path) : Bool := dir.isPrefixOf p && p != dir

/-- What the walk makes of one file. -/
def candidate (cutoff : F) (skip_dirs skip_exact : List Path) (f : Path × Option FS.Stat) :
    Option (Candidate F) :=
  if f.1 ∈ skip_exact then none
  else if skip_dirs.any fun dir => inside dir f.1 then none
  else
    match f.2 with
    | none => none
    | some st =>
      if st.node.isFile = false then none
      else if st.size = 0 then none
      else if cutoff < last_use st then none
      else some ⟨last_use st, st.size, f.1⟩

/-- Coldest first; of files of one last use the bigger one first. -/
def colder (a b : Candidate F) : Bool :=
  decide (a.lu < b.lu ∨ a.lu = b.lu ∧ b.size ≤ a.size)

/-- The regular files that were not used since `cutoff`. -/
def gather_candidates (tree : Dir) (scratch : Path) (cutoff : F) (skip_dirs skip_exact : List Path) :
    List (Candidate F) :=
  ((tree.walk skip_dirs scratch).filterMap (candidate cutoff skip_dirs skip_exact)).mergeSort colder

end Gather

/-! ### The run -/

structure Args (F : Type) where
  scratch : Path
  cold : Path
  high : F
  low : F
  min_age_days : F
  max_idle_days : F
  dry_run : Bool

/-- The outside of a run: the pool, the tree, the clock, and `archive_one`. -/
structure Outside (F ε σ : Type) where
  ismount : Path → Bool
  /-- The pool's size and free space; `none` where `zpool list` cannot be had or read. -/
  pool_bytes : σ → Option (ℤ × ℤ)
  time : F
  tree : Dir
  open_manifest : σ → Except ε Unit × σ
  archive_one : Path → Bool → Reason → σ → Except ε ℕ × σ
  write_note : σ → σ

/-- One call of `archive_one`, the state it was made in, and what came of it. -/
structure Attempt (ε σ : Type) where
  path : Path
  reason : Reason
  before : σ
  result : Except ε ℕ

/-- The bytes that a call has freed. -/
def Attempt.got {ε σ : Type} (a : Attempt ε σ) : ℕ := a.result.toOption.getD 0

/-- The state of a run, and what it has attempted. -/
structure Run (ε σ : Type) where
  state : σ
  attempts : List (Attempt ε σ) := []
  freed : ℕ := 0
  moved : ℕ := 0

/-- How a run ends. -/
inductive Exit (ε : Type) where
  | returned
  | died
  | raised (e : ε)
  deriving DecidableEq, Repr

/-- breadcrumb dropped at the scratch root -/
def NOTE_NAME : String := "WHERE-IS-MY-DATA.txt"

section Main

variable {F ε σ : Type} [PyFloat F]

def Args.ttl_on (args : Args F) : Bool := decide (PyFloat.ofInt 0 < args.max_idle_days)

/-- The capacity sweep's floor: what was used later is not moved. -/
def cutoff (args : Args F) (out : Outside F ε σ) : F := out.time - days args.min_age_days

/-- Idle for longer than the TTL. -/
def expired (args : Args F) (out : Outside F ε σ) (c : Candidate F) : Bool :=
  args.ttl_on && decide (c.lu < out.time - days args.max_idle_days)

def candidates (args : Args F) (out : Outside F ε σ) : List (Candidate F) :=
  gather_candidates out.tree args.scratch (cutoff args out) [join args.scratch [ARCHIVE_DIR]]
    [join args.scratch [NOTE_NAME]]

def ttl_list (args : Args F) (out : Outside F ε σ) : List (Candidate F) :=
  (candidates args out).filter (expired args out)

def cap_list (args : Args F) (out : Outside F ε σ) : List (Candidate F) :=
  (candidates args out).filter fun c => !expired args out c

variable (args : Args F) (out : Outside F ε σ)

/-- `got = archive_one(…)`, and what is counted of it. -/
def Run.archive (reason : Reason) (c : Candidate F) (w : Run ε σ) : Except ε ℕ × Run ε σ :=
  let (result, s) := out.archive_one c.path args.dry_run reason w.state
  let w := { w with state := s, attempts := w.attempts ++ [⟨c.path, reason, w.state, result⟩] }
  match result with
  | .ok 0 => (result, w)
  | .ok got => (result, { w with freed := w.freed + got, moved := w.moved + 1 })
  | .error _ => (result, w)

/-- The TTL pass: unconditional. -/
def ttl_pass : List (Candidate F) → Run ε σ → Except ε Unit × Run ε σ
  | [], w => (.ok (), w)
  | c :: cs, w =>
    match w.archive args out .ttl c with
    | (.ok _, w) => ttl_pass cs w
    | (.error e, w) => (.error e, w)

/-- The capacity pass, until `to_free` bytes are freed. -/
def capacity_pass (to_free : ℕ) : List (Candidate F) → ℕ → Run ε σ → Except ε ℕ × Run ε σ
  | [], cap_freed, w => (.ok cap_freed, w)
  | c :: cs, cap_freed, w =>
    if to_free ≤ cap_freed then (.ok cap_freed, w)
    else
      match w.archive args out .capacity c with
      | (.ok got, w) => capacity_pass to_free cs (cap_freed + got) w
      | (.error e, w) => (.error e, w)

/-- `max(0, int(target_free - free))` -/
def to_free (size free : ℤ) : ℕ :=
  (PyFloat.toInt (PyFloat.ofInt size * (PyFloat.ofInt 1 - args.low / PyFloat.ofInt 100) -
    PyFloat.ofInt free)).toNat

/-- The pool after the TTL pass: measured again, or in a dry run estimated. -/
def remeasured (size free : ℤ) (w : Run ε σ) : Option (ℤ × ℤ) :=
  if args.dry_run then some (size, free + w.freed) else out.pool_bytes w.state

/-- The end of a run: the note, and a last look at the pool. -/
def finish (w : Run ε σ) : Exit ε × Run ε σ :=
  if args.dry_run = false ∧ w.moved ≠ 0 then
    let w := { w with state := out.write_note w.state }
    match out.pool_bytes w.state with
    | none => (.died, w)
    | some _ => (.returned, w)
  else (.returned, w)

/-- The two passes. -/
def passes (size free : ℤ) (w : Run ε σ) : Exit ε × Run ε σ :=
  match ttl_pass args out (ttl_list args out) w with
  | (.error e, w) => (.raised e, w)
  | (.ok _, w) =>
    match remeasured args out size free w with
    | none => (.died, w)
    | some (size, free) =>
      if args.high ≤ capacity_pct size free then
        match capacity_pass args out (to_free args size free) (cap_list args out) 0 w with
        | (.error e, w) => (.raised e, w)
        | (.ok _, w) => finish args out w
      else finish args out w

/-- What `main` does up to the manifest: it ends, or it has found the pool's size and free space. -/
def entry (s : σ) : Exit ε ⊕ ℤ × ℤ :=
  if out.ismount args.scratch = false then .inl .returned
  else if out.ismount args.cold = false then .inl .died
  else if ¬ (PyFloat.ofInt 0 < args.low ∧ args.low < args.high ∧ args.high ≤ PyFloat.ofInt 100) then
    .inl .died
  else
    match out.pool_bytes s with
    | none => .inl .died
    | some (size, free) =>
      if capacity_pct size free < args.high ∧ args.ttl_on = false then .inl .returned
      else if (candidates args out).isEmpty then .inl .returned
      else .inr (size, free)

/-- The manifest, which a dry run does not open. -/
def opened (s : σ) : Except ε Unit × σ := if args.dry_run then (.ok (), s) else out.open_manifest s

def main (s : σ) : Exit ε × Run ε σ :=
  match entry args out s with
  | .inl exit => (exit, { state := s })
  | .inr (size, free) =>
    match opened args out s with
    | (.error e, s) => (.raised e, { state := s })
    | (.ok _, s) => passes args out size free { state := s }

end Main

/-! ### What a pass attempts -/

section Passes

variable {F ε σ : Type} (args : Args F) (out : Outside F ε σ)

/-- The bytes that some calls have freed. -/
def freedBy (l : List (Attempt ε σ)) : ℕ := (l.map Attempt.got).sum

theorem archive_spec (reason : Reason) (c : Candidate F) (w : Run ε σ) :
    (w.archive args out reason c).2.attempts =
        w.attempts ++ [⟨c.path, reason, w.state, (w.archive args out reason c).1⟩] ∧
      (w.archive args out reason c).1 = (out.archive_one c.path args.dry_run reason w.state).1 ∧
      (w.archive args out reason c).2.state = (out.archive_one c.path args.dry_run reason w.state).2 ∧
      (w.archive args out reason c).2.freed =
        w.freed + ((w.archive args out reason c).1.toOption.getD 0) := by
  rw [Run.archive]
  rcases out.archive_one c.path args.dry_run reason w.state with ⟨(e | got), s⟩
  · exact ⟨rfl, rfl, rfl, rfl⟩
  · cases got with
    | zero => exact ⟨rfl, rfl, rfl, rfl⟩
    | succ got => exact ⟨rfl, rfl, rfl, rfl⟩

/-- The calls `new` were made one after the other, the first one in the state `s`, and the last one
left `s'`. -/
inductive Chain : σ → List (Attempt ε σ) → σ → Prop
  | nil (s : σ) : Chain s [] s
  | cons {a : Attempt ε σ} {new : List (Attempt ε σ)} {s' : σ} :
      a.result = (out.archive_one a.path args.dry_run a.reason a.before).1 →
      Chain (out.archive_one a.path args.dry_run a.reason a.before).2 new s' →
      Chain a.before (a :: new) s'

/-- From `w` to `w'` the attempts `new` were made, for one reason and on the first of the files `l`,
in their order. -/
structure Attempted (reason : Reason) (l : List (Candidate F)) (w w' : Run ε σ)
    (new : List (Attempt ε σ)) : Prop where
  attempts : w'.attempts = w.attempts ++ new
  paths : new.map Attempt.path <+: l.map Candidate.path
  reason : ∀ a ∈ new, a.reason = reason
  freed : w'.freed = w.freed + freedBy new
  chain : Chain args out w.state new w'.state

variable {args out}

/-- What holds before the first call, and what each call hands on to those after it, holds before
each of them. -/
theorem Chain.invariant {I : List (Attempt ε σ) → σ → Prop} {s s' : σ} {new : List (Attempt ε σ)}
    (h : Chain args out s new s') (hs : I new s)
    (hkeep : ∀ a rest, a :: rest <:+ new → I (a :: rest) a.before →
      I rest (out.archive_one a.path args.dry_run a.reason a.before).2) :
    (∀ a rest, a :: rest <:+ new → I (a :: rest) a.before) ∧ I [] s' := by
  induction h with
  | nil s => exact ⟨fun _ _ h => absurd (List.eq_nil_of_suffix_nil h) (List.cons_ne_nil _ _), hs⟩
  | @cons a new s' hresult hnew ih =>
    obtain ⟨hall, hend⟩ := ih (hkeep a new List.suffix_rfl hs) fun b rest hb =>
      hkeep b rest (hb.trans (List.suffix_cons a new))
    refine ⟨fun b rest hb => ?_, hend⟩
    obtain heq | hb := List.suffix_cons_iff.mp hb
    · obtain ⟨rfl, rfl⟩ := List.cons.inj heq
      exact hs
    · exact hall b rest hb

theorem Chain.append {s s' s'' : σ} {l l' : List (Attempt ε σ)} (h : Chain args out s l s')
    (h' : Chain args out s' l' s'') : Chain args out s (l ++ l') s'' := by
  induction h with
  | nil s => exact h'
  | cons hresult _ ih => exact .cons hresult (ih h')

theorem Chain.result {s s' : σ} {l : List (Attempt ε σ)} (h : Chain args out s l s') :
    ∀ a ∈ l, a.result = (out.archive_one a.path args.dry_run a.reason a.before).1 := by
  induction h with
  | nil s => exact fun _ h => nomatch h
  | cons hresult _ ih => exact List.forall_mem_cons.mpr ⟨hresult, ih⟩

theorem Attempted.nil (reason : Reason) (l : List (Candidate F)) (w : Run ε σ) :
    Attempted args out reason l w w [] :=
  ⟨(List.append_nil _).symm, List.nil_prefix, fun _ h => (nomatch h), rfl, .nil _⟩

/-- One attempt more, before the others. -/
theorem Attempted.cons {reason : Reason} {c : Candidate F} {cs : List (Candidate F)}
    {w w' : Run ε σ} {new : List (Attempt ε σ)}
    (h : Attempted args out reason cs (w.archive args out reason c).2 w' new) :
    Attempted args out reason (c :: cs) w w'
      (⟨c.path, reason, w.state, (w.archive args out reason c).1⟩ :: new) := by
  obtain ⟨hattempts, hresult, hstate, hfreed⟩ := archive_spec args out reason c w
  refine ⟨?_, ?_, List.forall_mem_cons.mpr ⟨rfl, h.reason⟩, ?_, ?_⟩
  · rw [h.attempts, hattempts, List.append_assoc, List.singleton_append]
  · rw [List.map_cons, List.map_cons]
    exact (List.prefix_cons_inj _).mpr h.paths
  · rw [h.freed, hfreed, freedBy, freedBy, List.map_cons, List.sum_cons, Nat.add_assoc]
    rfl
  · have hchain := h.chain
    rw [hstate] at hchain
    exact .cons (a := ⟨c.path, reason, w.state, _⟩) hresult hchain

variable (args out)

/-- Unless a call raises, the TTL pass attempts all of its files. -/
theorem ttl_pass_spec (l : List (Candidate F)) : ∀ w : Run ε σ, ∃ new,
    Attempted args out .ttl l w (ttl_pass args out l w).2 new ∧
      ((ttl_pass args out l w).1 = .ok () → new.length = l.length) ∧
      ∀ e, (ttl_pass args out l w).1 = .error e → ∃ a ∈ new, a.result = .error e := by
  induction l with
  | nil => exact fun w => ⟨[], .nil _ _ w, fun _ => rfl, fun _ h => nomatch h⟩
  | cons c cs ih =>
    intro w
    cases hresult : (w.archive args out .ttl c).1 with
    | error e =>
      have hpass : ttl_pass args out (c :: cs) w = (.error e, (w.archive args out .ttl c).2) := by
        rw [ttl_pass]
        split <;> simp_all
      rw [hpass]
      exact ⟨[_], .cons (.nil _ _ _), fun h => (nomatch h), fun _ h => ⟨_, List.mem_cons_self,
        hresult.trans (congrArg Except.error (Except.error.inj h))⟩⟩
    | ok got =>
      have hpass : ttl_pass args out (c :: cs) w =
          ttl_pass args out cs (w.archive args out .ttl c).2 := by
        rw [ttl_pass]
        split <;> simp_all
      obtain ⟨new, hnew, hall, hraised⟩ := ih (w.archive args out .ttl c).2
      rw [hpass]
      refine ⟨_ :: new, .cons hnew, fun h => ?_, fun e h => ?_⟩
      · rw [List.length_cons, List.length_cons, hall h]
      · obtain ⟨a, ha, hresult⟩ := hraised e h
        exact ⟨a, List.mem_cons_of_mem _ ha, hresult⟩

/-- The capacity pass stops at the first point at which the target is met, or at the end. -/
structure StopsAt (target n : ℕ) (new : List (Attempt ε σ)) : Prop where
  before : ∀ k < new.length, freedBy (new.take k) < target
  after : target ≤ freedBy new ∨ new.length = n

theorem freedBy_cons (a : Attempt ε σ) (l : List (Attempt ε σ)) :
    freedBy (a :: l) = a.got + freedBy l := by
  rw [freedBy, List.map_cons, List.sum_cons, freedBy]

theorem capacity_pass_spec (target : ℕ) (l : List (Candidate F)) : ∀ (cap_freed : ℕ) (w : Run ε σ),
    ∃ new, Attempted args out .capacity l w (capacity_pass args out target l cap_freed w).2 new ∧
      ((capacity_pass args out target l cap_freed w).1.toOption.isSome →
        StopsAt (target - cap_freed) l.length new) ∧
      ∀ e, (capacity_pass args out target l cap_freed w).1 = .error e →
        ∃ a ∈ new, a.result = .error e := by
  induction l with
  | nil =>
    exact fun cap_freed w => ⟨[], .nil _ _ w, fun _ =>
      ⟨fun _ h => absurd h (Nat.not_lt_zero _), .inr rfl⟩, fun _ h => nomatch h⟩
  | cons c cs ih =>
    intro cap_freed w
    by_cases hmet : target ≤ cap_freed
    · rw [capacity_pass, if_pos hmet]
      refine ⟨[], .nil _ _ w, fun _ => ⟨fun _ h => absurd h (Nat.not_lt_zero _), .inl ?_⟩,
        fun _ h => nomatch h⟩
      rw [Nat.sub_eq_zero_of_le hmet]
      exact Nat.zero_le _
    rw [capacity_pass, if_neg hmet]
    cases hresult : (w.archive args out .capacity c).1 with
    | error e =>
      have hpass : (match w.archive args out .capacity c with
          | (.ok got, w) => capacity_pass args out target cs (cap_freed + got) w
          | (.error e, w) => (.error e, w)) = (.error e, (w.archive args out .capacity c).2) := by
        split <;> simp_all
      rw [hpass]
      exact ⟨[_], .cons (.nil _ _ _), fun h => (nomatch h), fun _ h => ⟨_, List.mem_cons_self,
        hresult.trans (congrArg Except.error (Except.error.inj h))⟩⟩
    | ok got =>
      have hpass : (match w.archive args out .capacity c with
          | (.ok got, w) => capacity_pass args out target cs (cap_freed + got) w
          | (.error e, w) => (.error e, w)) =
          capacity_pass args out target cs (cap_freed + got) (w.archive args out .capacity c).2 := by
        split <;> simp_all
      rw [hpass]
      obtain ⟨new, hnew, hstops, hraised⟩ := ih (cap_freed + got) (w.archive args out .capacity c).2
      refine ⟨_ :: new, .cons hnew, fun h => ?_, fun e h => ?_⟩
      case refine_2 =>
        obtain ⟨a, ha, hresult⟩ := hraised e h
        exact ⟨a, List.mem_cons_of_mem _ ha, hresult⟩
      obtain ⟨hbefore, hafter⟩ := hstops h
      have hgot : ∀ l : List (Attempt ε σ),
          freedBy (⟨c.path, .capacity, w.state, (w.archive args out .capacity c).1⟩ :: l) =
            got + freedBy l := by
        intro l
        rw [freedBy_cons, Attempt.got, hresult]
        rfl
      constructor
      · intro k hk
        cases k with
        | zero =>
          show 0 < _
          omega
        | succ k =>
          have hlt := hbefore k (Nat.lt_of_succ_lt_succ hk)
          rw [List.take_succ_cons, hgot]
          omega
      · rw [hgot, List.length_cons, List.length_cons]
        omega

end Passes

/-! ### The candidates -/

mutual

/-- No name occurs twice in a directory. -/
def Dir.Distinct : Dir → Prop
  | .mk files dirs => (files.map Prod.fst ++ dirs.names).Nodup ∧ dirs.Distinct

def Dirs.Distinct : Dirs → Prop
  | .nil => True
  | .cons _ dir rest => dir.Distinct ∧ rest.Distinct

def Dirs.names : Dirs → List String
  | .nil => []
  | .cons name _ rest => name :: rest.names

end

section Walk

variable {skip : List Path}

mutual

/-- What is below a directory is below one of its names. -/
theorem Dir.walk_below : ∀ (t : Dir) (root : Path), ∀ f ∈ t.walk skip root,
    ∃ rest, rest ≠ [] ∧ f.1 = root ++ rest
  | .mk files dirs, root, f, hf => by
    rw [Dir.walk] at hf
    obtain hf | hf := List.mem_append.mp hf
    · obtain ⟨g, -, rfl⟩ := List.mem_map.mp hf
      exact ⟨[g.1], List.cons_ne_nil _ _, rfl⟩
    · obtain ⟨name, rest, -, -, hpath⟩ := Dirs.walk_below dirs root f hf
      exact ⟨name :: rest, List.cons_ne_nil _ _, hpath⟩

theorem Dirs.walk_below : ∀ (dirs : Dirs) (root : Path), ∀ f ∈ dirs.walk skip root,
    ∃ name rest, name ∈ dirs.names ∧ rest ≠ [] ∧ f.1 = root ++ name :: rest
  | .nil, _, _, hf => nomatch hf
  | .cons name dir rest, root, f, hf => by
    rw [Dirs.walk] at hf
    obtain hf | hf := List.mem_append.mp hf
    · split_ifs at hf with hskip
      · exact absurd hf List.not_mem_nil
      obtain ⟨r, hr, hpath⟩ := Dir.walk_below dir (join root [name]) f hf
      refine ⟨name, r, List.mem_cons_self, hr, ?_⟩
      rw [hpath, join, List.append_assoc, List.singleton_append]
    · obtain ⟨name', r, hname, hr, hpath⟩ := Dirs.walk_below rest root f hf
      exact ⟨name', r, List.mem_cons_of_mem _ hname, hr, hpath⟩

end

mutual

/-- The walk meets no path twice. -/
theorem Dir.walk_nodup : ∀ (t : Dir), t.Distinct → ∀ root : Path,
    ((t.walk skip root).map Prod.fst).Nodup
  | .mk files dirs, h, root => by
    rw [Dir.Distinct] at h
    obtain ⟨hnames, hdirs⟩ := h
    obtain ⟨hfiles, -, hapart⟩ := List.nodup_append.mp hnames
    have hpath : Function.Injective fun name : String => join root [name] := fun a b hab =>
      List.singleton_inj.mp (List.append_cancel_left hab)
    have hmap : (files.map fun f => (join root [f.1], f.2)).map Prod.fst =
        (files.map Prod.fst).map fun name => join root [name] := by
      rw [List.map_map, List.map_map]
      rfl
    rw [Dir.walk, List.map_append, hmap, List.nodup_append]
    refine ⟨(List.nodup_map_iff hpath).mpr hfiles, Dirs.walk_nodup dirs hdirs
      (List.nodup_append.mp hnames).2.1 root, ?_⟩
    rintro p hp q hq rfl
    -- a file's path is one name longer than the root, what is in a directory is longer
    obtain ⟨name, hname, rfl⟩ := List.mem_map.mp hp
    obtain ⟨g, hg, hgp⟩ := List.mem_map.mp hq
    obtain ⟨name', rest, -, hrest, hg'⟩ := Dirs.walk_below dirs root g hg
    have hsame := List.append_cancel_left (hg'.symm.trans hgp)
    exact hrest (List.cons.inj hsame).2

theorem Dirs.walk_nodup : ∀ (dirs : Dirs), dirs.Distinct → dirs.names.Nodup → ∀ root : Path,
    ((dirs.walk skip root).map Prod.fst).Nodup
  | .nil, _, _, _ => List.nodup_nil
  | .cons name dir rest, h, hnames, root => by
    rw [Dirs.Distinct] at h
    rw [Dirs.names, List.nodup_cons] at hnames
    rw [Dirs.walk, List.map_append, List.nodup_append]
    refine ⟨?_, Dirs.walk_nodup rest h.2 hnames.2 root, ?_⟩
    · split_ifs
      · exact List.nodup_nil
      · exact Dir.walk_nodup dir h.1 _
    · rintro p hp q hq rfl
      split_ifs at hp with hskip
      · exact absurd hp List.not_mem_nil
      obtain ⟨f, hf, rfl⟩ := List.mem_map.mp hp
      obtain ⟨g, hg, hgp⟩ := List.mem_map.mp hq
      obtain ⟨r, -, hf'⟩ := Dir.walk_below dir (join root [name]) f hf
      obtain ⟨name', r', hname', -, hg'⟩ := Dirs.walk_below rest root g hg
      rw [hf', hg', join, List.append_assoc, List.singleton_append] at hgp
      obtain ⟨rfl, -⟩ := List.cons.inj (List.append_cancel_left hgp)
      exact hnames.1 hname'

end

end Walk

/-! ### Which files those are -/

/-- `dirs` has the directory `dir` under the name `name`. -/
inductive Dirs.Has : Dirs → String → Dir → Prop
  | first (name : String) (dir : Dir) (rest : Dirs) : Has (.cons name dir rest) name dir
  | later {name : String} {dir : Dir} {rest : Dirs} (other : String) (d : Dir) :
      Has rest name dir → Has (.cons other d rest) name dir

/-- The tree has a name that is no directory at the relative path; `st` is what `lstat` says of
it. -/
inductive Dir.HasFile : Dir → Path → Option FS.Stat → Prop
  | here {files : List (String × Option FS.Stat)} {dirs : Dirs} {name : String}
      {st : Option FS.Stat} : (name, st) ∈ files → HasFile (.mk files dirs) [name] st
  | within {files : List (String × Option FS.Stat)} {dirs : Dirs} {name : String} {dir : Dir}
      {rest : Path} {st : Option FS.Stat} : dirs.Has name dir → HasFile dir rest st →
      HasFile (.mk files dirs) (name :: rest) st

theorem Dir.HasFile.ne_nil {t : Dir} {rest : Path} {st : Option FS.Stat}
    (h : t.HasFile rest st) : rest ≠ [] := by
  cases h with
  | here _ => exact List.cons_ne_nil _ _
  | within _ _ => exact List.cons_ne_nil _ _

theorem Dirs.Has.mem_names {dirs : Dirs} {name : String} {dir : Dir} (h : dirs.Has name dir) :
    name ∈ dirs.names := by
  induction h with
  | first name dir rest => exact List.mem_cons_self
  | later other d _ ih => exact List.mem_cons_of_mem _ ih

theorem Dirs.Has.distinct {dirs : Dirs} {name : String} {dir : Dir} (h : dirs.Has name dir)
    (hdistinct : dirs.Distinct) : dir.Distinct := by
  induction h with
  | first name dir rest => exact hdistinct.1
  | later other d _ ih => exact ih hdistinct.2

theorem Dirs.Has.unique {dirs : Dirs} {name : String} {dir dir' : Dir} (h : dirs.Has name dir)
    (h' : dirs.Has name dir') (hnames : dirs.names.Nodup) : dir = dir' := by
  induction h with
  | first name dir rest =>
    cases h' with
    | first => rfl
    | later _ _ h' => exact absurd h'.mem_names (List.nodup_cons.mp hnames).1
  | later other d hrest ih =>
    cases h' with
    | first => exact absurd hrest.mem_names (List.nodup_cons.mp hnames).1
    | later _ _ h' => exact ih h' (List.nodup_cons.mp hnames).2

/-- Where no name occurs twice, a path is one file's. -/
theorem Dir.HasFile.unique {t : Dir} {rest : Path} {st st' : Option FS.Stat}
    (h : t.HasFile rest st) (hdistinct : t.Distinct) (h' : t.HasFile rest st') : st = st' := by
  induction h with
  | here hmem =>
    rw [Dir.Distinct] at hdistinct
    obtain ⟨hfiles, -, -⟩ := List.nodup_append.mp hdistinct.1
    cases h' with
    | here hmem' => exact (Prod.mk.inj (List.inj_on_of_nodup_map hfiles hmem hmem' rfl)).2
    | within _ hbelow => exact absurd rfl hbelow.ne_nil
  | within hhas hbelow ih =>
    rw [Dir.Distinct] at hdistinct
    obtain ⟨-, hnames, -⟩ := List.nodup_append.mp hdistinct.1
    cases h' with
    | here _ => exact absurd rfl hbelow.ne_nil
    | within hhas' hbelow' =>
      obtain rfl := hhas.unique hhas' hnames
      exact ih (hhas.distinct hdistinct.2) hbelow'

/-- No directory on the way from `root` down `rest` is in `skip`. -/
def Unskipped (skip : List Path) (root rest : Path) : Prop :=
  ∀ sub, sub <+: rest → sub ≠ [] → sub ≠ rest → root ++ sub ∉ skip

/-- The way into a directory. -/
theorem unskipped_cons {skip : List Path} {root rest : Path} {name : String} (hrest : rest ≠ []) :
    Unskipped skip root (name :: rest) ↔
      root ++ [name] ∉ skip ∧ Unskipped skip (root ++ [name]) rest := by
  constructor
  · refine fun h => ⟨h [name] ?_ (List.cons_ne_nil _ _) ?_, fun sub hsub hne hne' => ?_⟩
    · exact (List.prefix_cons_inj name).mpr List.nil_prefix
    · exact fun he => hrest (List.cons.inj he).2.symm
    · rw [List.append_assoc, List.singleton_append]
      refine h (name :: sub) ((List.prefix_cons_inj name).mpr hsub) (List.cons_ne_nil _ _) ?_
      exact fun he => hne' (List.cons.inj he).2
  · rintro ⟨hfirst, hothers⟩ sub hsub hne hne'
    cases sub with
    | nil => exact absurd rfl hne
    | cons other sub =>
      obtain ⟨rfl, htail⟩ := List.cons_prefix_cons.mp hsub
      by_cases hnil : sub = []
      · rw [hnil]
        exact hfirst
      · rw [← List.singleton_append, ← List.append_assoc]
        exact hothers sub htail hnil fun he => hne' (congrArg (other :: ·) he)

section WalkIff

variable {skip : List Path}

mutual

/-- The walk finds the files of the tree, but for those in a directory that is skipped. -/
theorem Dir.mem_walk_iff : ∀ (t : Dir) (root p : Path) (st : Option FS.Stat),
    (p, st) ∈ t.walk skip root ↔
      ∃ rest, p = root ++ rest ∧ t.HasFile rest st ∧ Unskipped skip root rest
  | .mk files dirs, root, p, st => by
    rw [Dir.walk, List.mem_append, Dirs.mem_walk_iff dirs root p st]
    constructor
    · rintro (hfile | ⟨name, dir, rest, hhas, hpath, hbelow, hskip⟩)
      · obtain ⟨⟨name, _⟩, hmem, heq⟩ := List.mem_map.mp hfile
        obtain ⟨rfl, rfl⟩ := Prod.mk.inj heq
        refine ⟨[name], rfl, .here hmem, fun sub hsub hne hne' => ?_⟩
        -- a prefix of one name is nothing or all of it
        have hpos := List.length_pos_iff.mpr hne
        exact absurd (hsub.eq_of_length_le hpos) hne'
      · exact ⟨name :: rest, hpath, .within hhas hbelow, (unskipped_cons hbelow.ne_nil).mpr hskip⟩
    · rintro ⟨rest, rfl, hfile, hskip⟩
      cases hfile with
      | here hmem => exact .inl (List.mem_map.mpr ⟨_, hmem, rfl⟩)
      | within hhas hbelow =>
        exact .inr ⟨_, _, _, hhas, rfl, hbelow, (unskipped_cons hbelow.ne_nil).mp hskip⟩

theorem Dirs.mem_walk_iff : ∀ (dirs : Dirs) (root p : Path) (st : Option FS.Stat),
    (p, st) ∈ dirs.walk skip root ↔
      ∃ name dir rest, dirs.Has name dir ∧ p = root ++ name :: rest ∧ dir.HasFile rest st ∧
        root ++ [name] ∉ skip ∧ Unskipped skip (root ++ [name]) rest
  | .nil, root, p, st => by
    rw [Dirs.walk]
    refine ⟨fun h => absurd h List.not_mem_nil, ?_⟩
    rintro ⟨name, dir, rest, hhas, -⟩
    exact nomatch hhas
  | .cons first d others, root, p, st => by
    rw [Dirs.walk, List.mem_append, Dirs.mem_walk_iff others root p st]
    constructor
    · rintro (hfirst | ⟨name, dir, rest, hhas, hothers⟩)
      · split_ifs at hfirst with hskip
        · exact absurd hfirst List.not_mem_nil
        obtain ⟨rest, rfl, hbelow, hopen⟩ :=
          (Dir.mem_walk_iff d (join root [first]) p st).mp hfirst
        refine ⟨first, d, rest, .first first d others, ?_, hbelow, hskip, hopen⟩
        rw [join, List.append_assoc, List.singleton_append]
      · exact ⟨name, dir, rest, .later first d hhas, hothers⟩
    · rintro ⟨name, dir, rest, hhas, rfl, hbelow, hskip, hopen⟩
      cases hhas with
      | first =>
        refine .inl ?_
        rw [join, if_neg hskip, Dir.mem_walk_iff d (root ++ [first]) _ st]
        refine ⟨rest, ?_, hbelow, hopen⟩
        rw [List.append_assoc, List.singleton_append]
      | later _ _ hhas => exact .inr ⟨name, dir, rest, hhas, rfl, hbelow, hskip, hopen⟩

end

end WalkIff

section Candidates

variable {F : Type} [PyFloat F] {tree : Dir} {scratch : Path} {cutoff : F}
  {skip_dirs skip_exact : List Path}

theorem candidate_spec {f : Path × Option FS.Stat} {c : Candidate F}
    (h : candidate cutoff skip_dirs skip_exact f = some c) : ∃ st, f = (c.path, some st) ∧
      st.node.isFile = true ∧ c.lu = last_use st ∧ c.lu ≤ cutoff := by
  obtain ⟨p, o⟩ := f
  rw [candidate] at h
  split_ifs at h
  cases o with
  | none => exact nomatch h
  | some st =>
    dsimp only at h
    split_ifs at h with hfile hsize hhot
    obtain rfl := Option.some.inj h
    exact ⟨st, rfl, (Bool.not_eq_false _).mp hfile, rfl, not_lt.mp hhot⟩

theorem candidate_eq_some_iff {p : Path} {st : Option FS.Stat} {c : Candidate F} :
    candidate cutoff skip_dirs skip_exact (p, st) = some c ↔
      p ∉ skip_exact ∧ (∀ dir ∈ skip_dirs, inside dir p = false) ∧
        ∃ found, st = some found ∧ found.node.isFile = true ∧ found.size ≠ 0 ∧
          last_use found ≤ cutoff ∧ c = ⟨last_use found, found.size, p⟩ := by
  rw [candidate]
  constructor
  · intro h
    split_ifs at h with hexact hdirs
    cases st with
    | none => exact nomatch h
    | some found =>
      dsimp only at h
      split_ifs at h with hfile hsize hhot
      refine ⟨hexact, fun dir hdir => ?_, found, rfl, (Bool.not_eq_false _).mp hfile, hsize,
        not_lt.mp hhot, (Option.some.inj h).symm⟩
      exact Bool.eq_false_iff.mpr fun hin => hdirs (List.any_eq_true.mpr ⟨dir, hdir, hin⟩)
  · rintro ⟨hexact, hdirs, found, rfl, hfile, hsize, hcold, rfl⟩
    have hdirs' : ¬ (skip_dirs.any fun dir => inside dir p) = true := by
      rw [List.any_eq_true]
      rintro ⟨dir, hdir, hin⟩
      exact nomatch (hdirs dir hdir).symm.trans hin
    rw [if_neg hexact, if_neg hdirs']
    dsimp only
    rw [if_neg (by rw [hfile]; decide), if_neg hsize, if_neg (not_lt.mpr hcold)]

/-- A candidate is a regular file that the walk saw, and that was not used since `cutoff`. -/
theorem mem_gather_candidates {c : Candidate F}
    (h : c ∈ gather_candidates tree scratch cutoff skip_dirs skip_exact) :
    ∃ st, (c.path, some st) ∈ tree.walk skip_dirs scratch ∧ st.node.isFile = true ∧
      c.lu = last_use st ∧ c.lu ≤ cutoff := by
  rw [gather_candidates, List.mem_mergeSort, List.mem_filterMap] at h
  obtain ⟨f, hf, hc⟩ := h
  obtain ⟨st, rfl, hst⟩ := candidate_spec hc
  exact ⟨st, hf, hst⟩

theorem gather_candidates_nodup (h : tree.Distinct) :
    ((gather_candidates tree scratch cutoff skip_dirs skip_exact).map Candidate.path).Nodup := by
  refine (((List.mergeSort_perm _ _).map Candidate.path).nodup_iff).mpr ?_
  have hwalk : ((tree.walk skip_dirs scratch).map Prod.fst).Nodup :=
    Dir.walk_nodup tree h scratch
  refine hwalk.sublist ?_
  rw [List.map_filterMap]
  induction tree.walk skip_dirs scratch with
  | nil => exact List.Sublist.slnil
  | cons f l ih =>
    rw [List.filterMap_cons, List.map_cons]
    cases hc : candidate cutoff skip_dirs skip_exact f with
    | none => exact ih.cons _
    | some c =>
      obtain ⟨st, rfl, -⟩ := candidate_spec hc
      exact ih.cons_cons _

/-- The candidates come coldest first, and of one last use the bigger first. -/
theorem gather_candidates_sorted :
    (gather_candidates tree scratch cutoff skip_dirs skip_exact).Pairwise fun a b =>
      a.lu < b.lu ∨ a.lu = b.lu ∧ b.size ≤ a.size := by
  refine (List.pairwise_mergeSort ?_ ?_ _).imp ?_
  · intro a b c hab hbc
    simp only [colder, decide_eq_true_eq] at hab hbc ⊢
    obtain hab | ⟨hab, hsize⟩ := hab
    · obtain hbc | ⟨hbc, -⟩ := hbc
      · exact .inl (hab.trans hbc)
      · exact .inl (hbc ▸ hab)
    · obtain hbc | ⟨hbc, hsize'⟩ := hbc
      · exact .inl (hab ▸ hbc)
      · exact .inr ⟨hab.trans hbc, hsize'.trans hsize⟩
  · intro a b
    simp only [colder, Bool.or_eq_true, decide_eq_true_eq]
    obtain h | h | h := lt_trichotomy a.lu b.lu
    · exact .inl (.inl h)
    · obtain hsize | hsize := le_total a.size b.size
      · exact .inr (.inr ⟨h.symm, hsize⟩)
      · exact .inl (.inr ⟨h, hsize⟩)
    · exact .inr (.inl h)
  · intro a b h
    simpa only [colder, decide_eq_true_eq] using h

end Candidates

/-! ### The whole run -/

section Policy

variable {F ε σ : Type} [PyFloat F] (args : Args F) (out : Outside F ε σ)

/-- A file of the tree that may be demoted, by its path below scratch: a regular file that is not
empty and was not used since the cutoff; neither the note, nor in the state directory. -/
structure Eligible (rest : Path) (st : FS.Stat) : Prop where
  there : out.tree.HasFile rest (some st)
  regular : st.node.isFile = true
  not_empty : st.size ≠ 0
  idle : last_use st ≤ cutoff args out
  not_note : rest ≠ [NOTE_NAME]
  not_state : ∀ sub, sub ≠ [] → rest ≠ ARCHIVE_DIR :: sub

/-- The candidates are the files of the tree that may be demoted. -/
theorem mem_candidates_iff {c : Candidate F} : c ∈ candidates args out ↔
    ∃ rest st, Eligible args out rest st ∧
      c = ⟨last_use st, st.size, args.scratch ++ rest⟩ := by
  rw [candidates, gather_candidates, List.mem_mergeSort, List.mem_filterMap]
  constructor
  · rintro ⟨⟨p, st⟩, hwalk, hc⟩
    obtain ⟨rest, rfl, hfile, hopen⟩ := (Dir.mem_walk_iff _ _ _ _).mp hwalk
    obtain ⟨hexact, hdirs, found, rfl, hregular, hsize, hidle, rfl⟩ := candidate_eq_some_iff.mp hc
    refine ⟨rest, found, ⟨hfile, hregular, hsize, hidle, fun he => ?_, fun sub hsub he => ?_⟩, rfl⟩
    · exact hexact (List.mem_singleton.mpr (by rw [he, join]))
    · subst he
      refine hopen [ARCHIVE_DIR] ?_ (List.cons_ne_nil _ _) ?_ (List.mem_singleton.mpr rfl)
      · exact (List.prefix_cons_inj _).mpr List.nil_prefix
      · exact fun he => hsub (List.cons.inj he).2.symm
  · rintro ⟨rest, st, h, rfl⟩
    refine ⟨(args.scratch ++ rest, some st), (Dir.mem_walk_iff _ _ _ _).mpr
      ⟨rest, rfl, h.there, ?_⟩, candidate_eq_some_iff.mpr ⟨?_, ?_, st, rfl, h.regular, h.not_empty,
        h.idle, rfl⟩⟩
    · intro sub hsub _ hne hskip
      obtain rfl := List.append_cancel_left (List.mem_singleton.mp hskip)
      obtain ⟨last, rfl⟩ := hsub
      exact h.not_state last (fun hnil => hne (by rw [hnil, List.append_nil])) rfl
    · intro hexact
      exact h.not_note (List.append_cancel_left (List.mem_singleton.mp hexact))
    · intro dir hdir
      obtain rfl := List.mem_singleton.mp hdir
      rw [inside, Bool.and_eq_false_iff]
      by_contra hin
      rw [not_or, Bool.not_eq_false, Bool.not_eq_false, List.isPrefixOf_iff_prefix, join,
        List.prefix_append_right_inj, bne_iff_ne] at hin
      obtain ⟨⟨last, rfl⟩, hne⟩ := hin
      exact h.not_state last (fun hnil => hne (by rw [hnil, List.append_nil])) rfl

/-- Two lists of attempts that are those of the two passes, with the pool as it was found between
them. -/
structure Swept (size free : ℤ) (ttl cap : List (Attempt ε σ)) : Prop where
  ttl_all : ttl.map Attempt.path = (ttl_list args out).map Candidate.path
  cap_first : cap.map Attempt.path <+: (cap_list args out).map Candidate.path
  cap_idle : capacity_pct size free < args.high → cap = []
  cap_stops : args.high ≤ capacity_pct size free →
    StopsAt (to_free args size free) (cap_list args out).length cap

variable {args out}

omit [PyFloat F] in
theorem Attempted.paths_eq {reason : Reason} {l : List (Candidate F)} {w w' : Run ε σ}
    {new : List (Attempt ε σ)} (h : Attempted args out reason l w w' new) (hlength : new.length = l.length) :
    new.map Attempt.path = l.map Candidate.path :=
  h.paths.eq_of_length (by rw [List.length_map, List.length_map, hlength])

omit [PyFloat F] in
theorem finish_attempts (w : Run ε σ) : (finish args out w).2.attempts = w.attempts := by
  rw [finish]
  split_ifs
  · dsimp only
    split <;> rfl
  · rfl

omit [PyFloat F] in
theorem finish_not_raised (w : Run ε σ) (e : ε) : (finish args out w).1 ≠ .raised e := by
  rw [finish]
  split_ifs
  · dsimp only
    split <;> exact fun h => nomatch h
  · exact fun h => nomatch h

variable (args out)

/-- The two passes attempt files of the one list, and then of the other; `w₁` and `w₂` are the run
after each of them. -/
theorem passes_spec (size free : ℤ) (w : Run ε σ) : ∃ ttl cap w₁ w₂,
    Attempted args out .ttl (ttl_list args out) w w₁ ttl ∧
    Attempted args out .capacity (cap_list args out) w₁ w₂ cap ∧
    ((passes args out size free w).2 = w₂ ∨
      (passes args out size free w).2 = (finish args out w₂).2) ∧
    (∀ e, (passes args out size free w).1 = .raised e → ∃ a ∈ ttl ++ cap, a.result = .error e) ∧
    ((∀ e, (passes args out size free w).1 ≠ .raised e) →
      ((passes args out size free w).1 = .died ∧ remeasured args out size free w₁ = none) ∨
      ∃ size' free', remeasured args out size free w₁ = some (size', free') ∧
        Swept args out size' free' ttl cap ∧
        (passes args out size free w).2 = (finish args out w₂).2) := by
  obtain ⟨ttl, httl, hall, hraised⟩ := ttl_pass_spec args out (ttl_list args out) w
  rw [passes]
  cases hpass : ttl_pass args out (ttl_list args out) w with
  | mk result w₁ =>
    rw [hpass] at httl hall hraised
    cases result with
    | error e =>
      refine ⟨ttl, [], w₁, w₁, httl, .nil _ _ _, .inl rfl, fun e' h => ?_, fun h => absurd rfl (h e)⟩
      obtain ⟨a, ha, hresult⟩ := hraised e rfl
      exact ⟨a, List.mem_append_left _ ha, hresult.trans (congrArg Except.error (Exit.raised.inj h))⟩
    | ok _ =>
      have hpaths := httl.paths_eq (hall rfl)
      cases hpool : remeasured args out size free w₁ with
      | none =>
        simp only [hpool]
        exact ⟨ttl, [], w₁, w₁, httl, .nil _ _ _, .inl rfl, fun _ h => (nomatch h),
          fun _ => .inl ⟨trivial, hpool⟩⟩
      | some pool =>
        obtain ⟨size', free'⟩ := pool
        simp only [hpool]
        -- the pool is looked at again when the TTL pass is done
        by_cases hhigh : args.high ≤ capacity_pct size' free'
        · rw [if_pos hhigh]
          obtain ⟨cap, hcap, hstops, hraised'⟩ := capacity_pass_spec args out
            (to_free args size' free') (cap_list args out) 0 w₁
          cases hpass' : capacity_pass args out (to_free args size' free') (cap_list args out) 0 w₁ with
          | mk result w₂ =>
            rw [hpass'] at hcap hstops hraised'
            cases result with
            | error e =>
              refine ⟨ttl, cap, w₁, w₂, httl, hcap, .inl rfl, fun e' h => ?_,
                fun h => absurd rfl (h e)⟩
              obtain ⟨a, ha, hresult⟩ := hraised' e rfl
              exact ⟨a, List.mem_append_right _ ha,
                hresult.trans (congrArg Except.error (Exit.raised.inj h))⟩
            | ok _ =>
              refine ⟨ttl, cap, w₁, w₂, httl, hcap, .inr rfl, fun e h => ?_, fun _ =>
                .inr ⟨size', free', hpool, ⟨hpaths, hcap.paths, fun h => ?_, fun _ => ?_⟩, rfl⟩⟩
              · exact absurd h (finish_not_raised w₂ e)
              · exact absurd hhigh (not_le.mpr h)
              · exact hstops rfl
        · rw [if_neg hhigh]
          exact ⟨ttl, [], w₁, w₁, httl, .nil _ _ _, .inr rfl,
            fun e h => absurd h (finish_not_raised w₁ e), fun _ => .inr ⟨size', free', hpool,
              ⟨hpaths, List.nil_prefix, fun _ => rfl, fun h => absurd h hhigh⟩, rfl⟩⟩

variable {args out} in
/-- What the passes have attempted in all. -/
theorem passes_attempts {size free : ℤ} {w w₁ w₂ : Run ε σ} {ttl cap : List (Attempt ε σ)}
    (httl : Attempted args out .ttl (ttl_list args out) w w₁ ttl)
    (hcap : Attempted args out .capacity (cap_list args out) w₁ w₂ cap)
    (hend : (passes args out size free w).2 = w₂ ∨
      (passes args out size free w).2 = (finish args out w₂).2) :
    (passes args out size free w).2.attempts = w.attempts ++ (ttl ++ cap) := by
  have hattempts : w₂.attempts = w.attempts ++ (ttl ++ cap) := by
    rw [hcap.attempts, httl.attempts, List.append_assoc]
  obtain hend | hend := hend
  · rw [hend, hattempts]
  · rw [hend, finish_attempts, hattempts]

/-- Why a run may end early without a failure, and what it has found if it does not. -/
theorem entry_spec (s : σ) :
    (entry args out s = .inl .returned → out.ismount args.scratch = false ∨
      (∃ size free, out.pool_bytes s = some (size, free) ∧ capacity_pct size free < args.high ∧
        args.ttl_on = false) ∨ candidates args out = []) ∧
    (∀ size free, entry args out s = .inr (size, free) → out.pool_bytes s = some (size, free)) ∧
    ∀ e, entry args out s ≠ .inl (.raised e) := by
  rw [entry]
  by_cases hscratch : out.ismount args.scratch = false
  · rw [if_pos hscratch]
    exact ⟨fun _ => .inl hscratch, fun _ _ h => (nomatch h), fun _ h => nomatch h⟩
  rw [if_neg hscratch]
  by_cases hcold : out.ismount args.cold = false
  · rw [if_pos hcold]
    exact ⟨fun h => (nomatch h), fun _ _ h => (nomatch h), fun _ h => nomatch h⟩
  rw [if_neg hcold]
  by_cases hmarks : PyFloat.ofInt 0 < args.low ∧ args.low < args.high ∧ args.high ≤ PyFloat.ofInt 100
  case neg =>
    rw [if_pos hmarks]
    exact ⟨fun h => (nomatch h), fun _ _ h => (nomatch h), fun _ h => nomatch h⟩
  rw [if_neg (not_not.mpr hmarks)]
  cases hpool : out.pool_bytes s with
  | none => exact ⟨fun h => (nomatch h), fun _ _ h => (nomatch h), fun _ h => nomatch h⟩
  | some pool =>
    obtain ⟨size, free⟩ := pool
    dsimp only
    by_cases hbelow : capacity_pct size free < args.high ∧ args.ttl_on = false
    · rw [if_pos hbelow]
      exact ⟨fun _ => .inr (.inl ⟨size, free, rfl, hbelow⟩), fun _ _ h => (nomatch h),
        fun _ h => nomatch h⟩
    rw [if_neg hbelow]
    by_cases hempty : (candidates args out).isEmpty = true
    · rw [if_pos hempty]
      exact ⟨fun _ => .inr (.inr (List.isEmpty_iff.mp hempty)), fun _ _ h => (nomatch h),
        fun _ h => nomatch h⟩
    rw [if_neg hempty]
    exact ⟨fun h => (nomatch h), fun size' free' h => congrArg some (Sum.inr.inj h),
      fun _ h => nomatch h⟩

variable {args out} in
/-- A run that comes to its manifest has found something to demote. -/
theorem entry_candidates {size free : ℤ} {s : σ} (hentry : entry args out s = .inr (size, free)) :
    candidates args out ≠ [] := by
  intro hnone
  have hempty : (candidates args out).isEmpty = true := List.isEmpty_iff.mpr hnone
  rw [entry] at hentry
  split_ifs at hentry
  cases hpool : out.pool_bytes s with
  | none =>
    rw [hpool] at hentry
    cases hentry
  | some pool =>
    rw [hpool] at hentry
    dsimp only at hentry
    split_ifs at hentry

variable {args out} in
/-- A run whose entry finds the pool, and whose manifest can be opened, comes to its passes. -/
theorem main_of_entry {size free : ℤ} {s s₁ : σ} (hentry : entry args out s = .inr (size, free))
    (hopen : opened args out s = (.ok (), s₁)) :
    main args out s = passes args out size free { state := s₁ } := by
  rw [main, hentry]
  simp only [hopen]

/-- A run attempts nothing, or it comes to its passes. -/
theorem main_spec (s : σ) : ((main args out s).2.attempts = [] ∧
      (args.dry_run = true → (main args out s).2.state = s) ∧
      (∀ e, (main args out s).1 = .raised e → (out.open_manifest s).1 = .error e) ∧
      ((main args out s).1 = .returned → out.ismount args.scratch = false ∨
        (∃ size free, out.pool_bytes s = some (size, free) ∧ capacity_pct size free < args.high ∧
          args.ttl_on = false) ∨ candidates args out = [])) ∨
    ∃ size free s₁, out.pool_bytes s = some (size, free) ∧ opened args out s = (.ok (), s₁) ∧
      main args out s = passes args out size free { state := s₁ } := by
  obtain ⟨hreturned, hpool, hraised⟩ := entry_spec args out s
  rw [main]
  cases hentry : entry args out s with
  | inl exit =>
    refine .inl ⟨rfl, fun _ => rfl, fun e h => ?_,
      fun h => hreturned (hentry.trans (congrArg Sum.inl h))⟩
    exact absurd (hentry.trans (congrArg Sum.inl h)) (hraised e)
  | inr pool =>
    obtain ⟨size, free⟩ := pool
    dsimp only
    rcases hopen : opened args out s with ⟨e | _, s₁⟩
    · have hreal : args.dry_run ≠ true := fun hdry => by
        rw [opened, if_pos hdry] at hopen
        exact nomatch (Prod.mk.inj hopen).1
      refine .inl ⟨rfl, fun hdry => absurd hdry hreal, fun e' h => ?_, fun h => nomatch h⟩
      obtain rfl := Exit.raised.inj h
      rw [opened, if_neg hreal] at hopen
      exact congrArg Prod.fst hopen
    · exact .inr ⟨size, free, s₁, hpool size free hentry, rfl, rfl⟩

/-- The calls of a run, one after the other; a run ends with what one of them raised, or with what
opening the manifest did. -/
theorem main_chain (s : σ) : ∃ s₁ s₂, Chain args out s₁ (main args out s).2.attempts s₂ ∧
    ((main args out s).2.attempts ≠ [] → opened args out s = (.ok (), s₁)) ∧
    (args.dry_run = true → s₁ = s ∧ (main args out s).2.state = s₂) ∧
    ∀ e, (main args out s).1 = .raised e → (out.open_manifest s).1 = .error e ∨
      ∃ a ∈ (main args out s).2.attempts, a.result = .error e := by
  obtain ⟨hnone, hstate, hopen, -⟩ | ⟨size, free, s₁, -, hopen, hmain⟩ := main_spec args out s
  · rw [hnone]
    exact ⟨s, s, .nil s, fun h => absurd rfl h, fun hdry => ⟨rfl, hstate hdry⟩,
      fun e h => .inl (hopen e h)⟩
  obtain ⟨ttl, cap, w₁, w₂, httl, hcap, hend, hraised, -⟩ :=
    passes_spec args out size free { state := s₁ }
  have hattempts : (main args out s).2.attempts = ttl ++ cap := by
    rw [hmain, passes_attempts httl hcap hend, List.nil_append]
  rw [hattempts]
  refine ⟨s₁, w₂.state, httl.chain.append hcap.chain, fun _ => hopen, fun hdry => ?_, fun e h => ?_⟩
  · rw [opened, if_pos hdry] at hopen
    refine ⟨(Prod.mk.inj hopen).2.symm, ?_⟩
    have hfinish : finish args out w₂ = (.returned, w₂) := by
      rw [finish, if_neg fun h => by rw [hdry] at h; exact absurd h.1 (by decide)]
    obtain hend | hend := hend
    · rw [hmain, hend]
    · rw [hmain, hend, hfinish]
  · rw [hmain] at h
    exact .inr (hraised e h)

variable {args out} in
/-- The two lists share no file. -/
theorem lists_nodup (hdistinct : out.tree.Distinct) :
    ((ttl_list args out ++ cap_list args out).map Candidate.path).Nodup := by
  have hperm : List.Perm (ttl_list args out ++ cap_list args out) (candidates args out) :=
    List.filter_append_perm (expired args out) (candidates args out)
  exact ((hperm.map Candidate.path).nodup_iff).mpr (gather_candidates_nodup hdistinct)

variable {args out} in
/-- What the passes attempt are candidates, each of them once. -/
theorem passes_paths (hdistinct : out.tree.Distinct) {args' : Args F} {w w₁ w₂ : Run ε σ}
    {ttl cap : List (Attempt ε σ)} (httl : Attempted args' out .ttl (ttl_list args out) w w₁ ttl)
    (hcap : Attempted args' out .capacity (cap_list args out) w₁ w₂ cap) :
    ((ttl ++ cap).map Attempt.path).Nodup ∧
      ∀ a ∈ ttl ++ cap, ∃ c ∈ candidates args out, c.path = a.path := by
  constructor
  · have hlists : ((ttl_list args out ++ cap_list args out).map Candidate.path).Nodup :=
      lists_nodup hdistinct
    refine hlists.sublist ?_
    rw [List.map_append, List.map_append]
    exact httl.paths.sublist.append hcap.paths.sublist
  · intro a ha
    obtain ha | ha := List.mem_append.mp ha
    · obtain ⟨c, hc, hpath⟩ := List.mem_map.mp (httl.paths.subset (List.mem_map_of_mem ha))
      exact ⟨c, List.mem_of_mem_filter hc, hpath⟩
    · obtain ⟨c, hc, hpath⟩ := List.mem_map.mp (hcap.paths.subset (List.mem_map_of_mem ha))
      exact ⟨c, List.mem_of_mem_filter hc, hpath⟩

/-- What a run attempts are candidates, each of them once. -/
theorem main_paths (hdistinct : out.tree.Distinct) (s : σ) :
    ((main args out s).2.attempts.map Attempt.path).Nodup ∧
      ∀ a ∈ (main args out s).2.attempts, ∃ c ∈ candidates args out, c.path = a.path := by
  obtain ⟨hnone, -⟩ | ⟨size, free, s₁, -, -, hmain⟩ := main_spec args out s
  · rw [hnone]
    exact ⟨List.nodup_nil, fun _ h => nomatch h⟩
  obtain ⟨ttl, cap, w₁, w₂, httl, hcap, hend, -, -⟩ := passes_spec args out size free { state := s₁ }
  rw [hmain, passes_attempts httl hcap hend, List.nil_append]
  exact passes_paths hdistinct httl hcap

variable {args out} in
/-- A file of the tree that a run attempts may be demoted. -/
theorem eligible_of_attempted (hdistinct : out.tree.Distinct) {s : σ} {rest : Path} {st : FS.Stat}
    (hfile : out.tree.HasFile rest (some st))
    (hattempted : args.scratch ++ rest ∈ (main args out s).2.attempts.map Attempt.path) :
    Eligible args out rest st := by
  obtain ⟨a, ha, hpath⟩ := List.mem_map.mp hattempted
  obtain ⟨c, hc, hcpath⟩ := (main_paths args out hdistinct s).2 a ha
  obtain ⟨rest', st', heligible, rfl⟩ := (mem_candidates_iff args out).mp hc
  obtain rfl : rest' = rest := List.append_cancel_left (hcpath.trans hpath)
  obtain rfl := Option.some.inj (heligible.there.unique hdistinct hfile)
  exact heligible

/-- What a run attempts.  The two lists hold the files of the tree that may be demoted, each file
once: those idle for longer than the TTL, and the others, coldest first.  Of the tree nothing else
is attempted, and so nothing that the walk saw used later than `cutoff`.  A run that returns
attempts nothing, and for a cause; or all files of the TTL list, and then, if the pool, looked at
when those calls are done, is above the high-water mark, files of the other list up to the first
point at which the target is met. -/
theorem sweep_policy (hdistinct : out.tree.Distinct) (s : σ) :
    (∀ c, c ∈ ttl_list args out ↔ (∃ rest st, Eligible args out rest st ∧
      c = ⟨last_use st, st.size, args.scratch ++ rest⟩) ∧ expired args out c = true) ∧
    (∀ c, c ∈ cap_list args out ↔ (∃ rest st, Eligible args out rest st ∧
      c = ⟨last_use st, st.size, args.scratch ++ rest⟩) ∧ expired args out c = false) ∧
    ((ttl_list args out ++ cap_list args out).map Candidate.path).Nodup ∧
    (cap_list args out).Pairwise (fun a b => a.lu < b.lu ∨ a.lu = b.lu ∧ b.size ≤ a.size) ∧
    (∀ rest st, out.tree.HasFile rest (some st) →
      args.scratch ++ rest ∈ (main args out s).2.attempts.map Attempt.path →
      Eligible args out rest st) ∧
    (∀ rest st, out.tree.HasFile rest (some st) → cutoff args out < last_use st →
      args.scratch ++ rest ∉ (main args out s).2.attempts.map Attempt.path) ∧
    ((main args out s).1 = .returned →
      ((main args out s).2.attempts = [] ∧ (out.ismount args.scratch = false ∨
        (∃ size free, out.pool_bytes s = some (size, free) ∧ capacity_pct size free < args.high ∧
          args.ttl_on = false) ∨ candidates args out = [])) ∨
      ∃ (ttl cap : List (Attempt ε σ)) (s₁ : σ) (w₁ w₂ : Run ε σ) (size free size' free' : ℤ),
        (main args out s).2.attempts = ttl ++ cap ∧ (∀ a ∈ ttl, a.reason = .ttl) ∧
        (∀ a ∈ cap, a.reason = .capacity) ∧ out.pool_bytes s = some (size, free) ∧
        opened args out s = (.ok (), s₁) ∧
        Chain args out s₁ ttl w₁.state ∧ Chain args out w₁.state cap w₂.state ∧
        (main args out s).2 = (finish args out w₂).2 ∧
        w₁.attempts = ttl ∧ w₁.freed = freedBy ttl ∧
        remeasured args out size free w₁ = some (size', free') ∧
        Swept args out size' free' ttl cap) := by
  have helig := fun c => mem_candidates_iff args out (c := c)
  refine ⟨fun c => ?_, fun c => ?_, lists_nodup hdistinct,
    gather_candidates_sorted.sublist List.filter_sublist,
    fun rest st => eligible_of_attempted hdistinct, fun rest st hfile hhot hattempted => ?_,
    fun hreturned => ?_⟩
  · rw [ttl_list, List.mem_filter, helig]
  · rw [cap_list, List.mem_filter, helig, Bool.not_eq_true']
  · exact absurd hhot (not_lt.mpr (eligible_of_attempted hdistinct hfile hattempted).idle)
  · obtain ⟨hnone, -, -, hcause⟩ | ⟨size, free, s₁, hpool, hopen, hmain⟩ := main_spec args out s
    · exact .inl ⟨hnone, hcause hreturned⟩
    obtain ⟨ttl, cap, w₁, w₂, httl, hcap, hend, -, hswept⟩ :=
      passes_spec args out size free { state := s₁ }
    rw [hmain] at hreturned ⊢
    obtain ⟨hdied, -⟩ | ⟨size', free', hremeasured, hswept, hfinish⟩ :=
      hswept fun e h => nomatch hreturned.symm.trans h
    · exact nomatch hreturned.symm.trans hdied
    have hw₁ : w₁.attempts = ttl := httl.attempts.trans (List.nil_append _)
    exact .inr ⟨ttl, cap, s₁, w₁, w₂, size, free, size', free', passes_attempts httl hcap hend,
      httl.reason, hcap.reason, hpool, hopen, httl.chain, hcap.chain, hfinish, hw₁,
      httl.freed.trans (Nat.zero_add _), hremeasured, hswept⟩

/-- A pool of 1000 bytes with 100 free, and two files: one used on day 0, one on day 99. -/
def smallOutside : Outside ℚ OSError Unit where
  ismount _ := true
  pool_bytes _ := some (1000, 100)
  time := 100 * 86400
  tree := .mk
    [("cold", some ⟨.file 0, some 0, 300, 1, ⟨0, 0, 0o644#12⟩, 0, 0, 0⟩),
      ("hot", some ⟨.file 1, some 1, 300, 1, ⟨0, 0, 0o644#12⟩, 99 * 86400 * 1000000000, 0, 0⟩)] .nil
  open_manifest s := (.ok (), s)
  archive_one _ _ _ s := (.ok 512, s)
  write_note := id

def smallArgs : Args ℚ where
  scratch := ["scratch"]
  cold := ["cold"]
  high := 85
  low := 75
  min_age_days := 14
  max_idle_days := 0
  dry_run := false

theorem smallTree_distinct : smallOutside.tree.Distinct := ⟨by decide, trivial⟩

/-- The file of day 0 is attempted; that of day 99 is left alone, though the pool is above the
mark. -/
theorem sweep_policy_small :
    (main smallArgs smallOutside ()).2.attempts.map Attempt.path = [["scratch", "cold"]] ∧
    Eligible smallArgs smallOutside ["cold"] ⟨.file 0, some 0, 300, 1, ⟨0, 0, 0o644#12⟩, 0, 0, 0⟩ ∧
    ["scratch", "hot"] ∉ (main smallArgs smallOutside ()).2.attempts.map Attempt.path := by
  have hattempts : (main smallArgs smallOutside ()).2.attempts.map Attempt.path =
      [["scratch", "cold"]] := by decide +kernel
  obtain ⟨-, -, -, -, heligible, hhot, -⟩ :=
    sweep_policy smallArgs smallOutside smallTree_distinct ()
  refine ⟨hattempts, heligible ["cold"] _ (.here (by decide)) ?_,
    hhot ["hot"] ⟨.file 1, some 1, 300, 1, ⟨0, 0, 0o644#12⟩, 99 * 86400 * 1000000000, 0, 0⟩
      (.here (by decide)) (by decide +kernel)⟩
  exact hattempts ▸ List.mem_singleton_self _

end Policy

end Sweep

end Scratch
