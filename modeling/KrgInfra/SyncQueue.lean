/-
The queue of the LDAP sync (`authentik-ldap-sync/worker.sh`).

A writer asks for a sync by creating `pending`, a file or a symbolic link.  A run of the script
renames it to `processing`, syncs, and removes `processing`; a marker that is left by a run that
failed or crashed is taken up by the next.

* `Queue`, `Event`, `step` — the two markers, the run of the script that is under way, and what
  happens to them, one line of the script after the other;
* `Sound` — the invariant: what each line of the script may rely on;
* `sound_step`, `sound_run` — it is kept by every event, and so by every interleaving;
* `no_request_lost` — a request is represented by a marker until a later sync has succeeded;
* `run_serves` — a run that is not disturbed serves what it has found.
-/
import Mathlib.Data.List.Basic
import Mathlib.Data.Option.Basic
import Mathlib.Logic.Relation

namespace SyncQueue

/-! ### The script -/

/-- What may stand at the path of a marker. -/
inductive Kind where
  | file
  | symlink

/-- A marker, and the times of the requests that it stands for: their writers found or left it. -/
structure Marker where
  kind : Kind
  requests : List ℕ

/-- The line that a run of the script comes to next. -/
inductive Line where
  /-- No run is under way. -/
  | idle
  /-- `[[ ! -e "$processing" …` -/
  | processingExists
  /-- `… && ! -L "$processing" ]]` -/
  | processingIsLink
  /-- `[[ ! -e "$queue_dir/pending" …` -/
  | pendingExists
  /-- `… && ! -L "$queue_dir/pending" ]]` -/
  | pendingIsLink
  /-- `mv -T -- "$queue_dir/pending" "$processing"` -/
  | move
  /-- `"$@"` -/
  | sync
  /-- The sync that started at a time is running. -/
  | syncing (since : ℕ)
  /-- `rm -f -- "$processing"`, after that sync. -/
  | remove (since : ℕ)

/-- The queue, the run that is under way, and what has been. -/
structure Queue where
  pending : Option Marker
  processing : Option Marker
  line : Line
  /-- Whether a test of the run that is under way has found a marker. -/
  found : Bool
  /-- The number of events so far. -/
  clock : ℕ
  /-- When requests were written. -/
  written : List ℕ
  /-- When syncs were started. -/
  started : List ℕ
  /-- When those syncs were started that have succeeded. -/
  succeeded : List ℕ

inductive Event where
  /-- A writer creates `pending`, or writes to the one that is there. -/
  | write (kind : Kind)
  /-- A run is started. -/
  | start
  /-- The run does its next line; a link that it tests leads somewhere or not. -/
  | work (leads : Bool)
  /-- The command of the next line fails, and ends the run by `set -e`. -/
  | fail
  | crash

/-- `-e`, which follows a link -/
def pathExists (leads : Bool) : Option Marker → Bool
  | none => false
  | some ⟨.file, _⟩ => true
  | some ⟨.symlink, _⟩ => leads

/-- `-L` -/
def isLink : Option Marker → Bool
  | some ⟨.symlink, _⟩ => true
  | _ => false

/-- The next line of the script, where its command does not fail. -/
def work (leads : Bool) (q : Queue) : Option Queue :=
  match q.line with
  | .idle => none
  | .processingExists =>
    if pathExists leads q.processing then some { q with line := .sync, found := true }
    else some { q with line := .processingIsLink }
  | .processingIsLink =>
    if isLink q.processing then some { q with line := .sync, found := true }
    else some { q with line := .pendingExists }
  | .pendingExists =>
    if pathExists leads q.pending then some { q with line := .move, found := true }
    else some { q with line := .pendingIsLink }
  | .pendingIsLink =>
    if isLink q.pending then some { q with line := .move, found := true }
    else some { q with line := .idle }
  | .move =>
    -- a rename replaces what is at the new path
    match q.pending with
    | none => none
    | some m => some { q with pending := none, processing := some m, line := .sync }
  | .sync => some { q with line := .syncing q.clock, started := q.clock :: q.started }
  | .syncing since => some { q with line := .remove since, succeeded := since :: q.succeeded }
  | .remove _ => some { q with processing := none, line := .idle }

/-- The lines whose command can fail. -/
def Line.fails : Line → Bool
  | .move | .syncing _ | .remove _ => true
  | _ => false

/-- What an event makes of the queue; `none` where it cannot happen. -/
def happen (q : Queue) : Event → Option Queue
  | .write kind =>
    some { q with
      pending := some ⟨kind, q.clock :: (q.pending.elim [] Marker.requests)⟩
      written := q.clock :: q.written }
  | .start =>
    match q.line with
    | .idle => some { q with line := .processingExists, found := false }
    | _ => none
  | .work leads => work leads q
  | .fail => if q.line.fails then some { q with line := .idle } else none
  | .crash => some { q with line := .idle }

def step (q : Queue) (e : Event) : Option Queue :=
  (happen q e).map fun q' => { q' with clock := q.clock + 1 }

/-- An interleaving of writers, runs, failures and crashes. -/
def run (q : Queue) : List Event → Option Queue
  | [] => some q
  | e :: events => (step q e).bind fun q' => run q' events

/-- No run is under way, and the markers that are there stand for no request. -/
structure Initial (q : Queue) : Prop where
  idle : q.line = .idle
  written : q.written = []
  pending : ∀ m ∈ q.pending, m.requests = []
  processing : ∀ m ∈ q.processing, m.requests = []

/-! ### The invariant -/

/-- A request is represented by one of the markers. -/
def Represented (q : Queue) (t : ℕ) : Prop :=
  (∃ m ∈ q.pending, t ∈ m.requests) ∨ ∃ m ∈ q.processing, t ∈ m.requests

/-- A marker, if there is one, stands for requests before a time only. -/
def Older (o : Option Marker) (n : ℕ) : Prop := ∀ m ∈ o, ∀ t ∈ m.requests, t < n

theorem Older.succ {o : Option Marker} {n : ℕ} (h : Older o n) : Older o (n + 1) :=
  fun m hm t ht => Nat.lt_succ_of_lt (h m hm t ht)

theorem Older.none (n : ℕ) : Older none n := fun _ hm => nomatch hm

/-- What a line of the script relies on. -/
def Relies (q : Queue) : Line → Prop
  | .idle | .processingExists => True
  | .processingIsLink => ∀ m ∈ q.processing, m.kind = .symlink
  | .pendingExists | .pendingIsLink => q.processing = none
  | .move => q.processing = none ∧ q.found = true
  | .sync => q.found = true
  | .syncing since => q.found = true ∧ Older q.processing since
  | .remove since => q.found = true ∧ Older q.processing since ∧ since ∈ q.succeeded

structure Sound (q : Queue) : Prop where
  kept : ∀ t ∈ q.written, Represented q t ∨ ∃ since ∈ q.succeeded, t < since
  pending_past : Older q.pending q.clock
  processing_past : Older q.processing q.clock
  relies : Relies q q.line

theorem Initial.sound {q : Queue} (h : Initial q) : Sound q where
  kept t ht := absurd (h.written ▸ ht) List.not_mem_nil
  pending_past m hm t ht := absurd (h.pending m hm ▸ ht) List.not_mem_nil
  processing_past m hm t ht := absurd (h.processing m hm ▸ ht) List.not_mem_nil
  relies := by
    rw [h.idle]
    trivial

/-- What an event can change. -/
inductive Change (q : Queue) : Queue → Prop where
  | write (kind : Kind) : Change q { q with
      pending := some ⟨kind, q.clock :: (q.pending.elim [] Marker.requests)⟩
      written := q.clock :: q.written
      clock := q.clock + 1 }
  /-- The run comes to another line, or ends; the markers stay. -/
  | goto {here line : Line} {found : Bool} (hline : q.line = here)
      (h : Relies q here → Relies { q with line, found, clock := q.clock + 1 } line) :
      Change q { q with line, found, clock := q.clock + 1 }
  | move {m : Marker} (hline : q.line = .move) (hm : q.pending = some m) : Change q { q with
      pending := none, processing := some m, line := .sync, clock := q.clock + 1 }
  | sync (hline : q.line = .sync) : Change q { q with
      line := .syncing q.clock, started := q.clock :: q.started, clock := q.clock + 1 }
  | succeed {since : ℕ} (hline : q.line = .syncing since) : Change q { q with
      line := .remove since, succeeded := since :: q.succeeded, clock := q.clock + 1 }
  | remove {since : ℕ} (hline : q.line = .remove since) : Change q { q with
      processing := none, line := .idle, clock := q.clock + 1 }

/-- A marker that `-e` does not find is a link, if there is one. -/
theorem kind_of_not_pathExists {leads : Bool} {o : Option Marker} (h : ¬ pathExists leads o = true) :
    ∀ m ∈ o, m.kind = .symlink := by
  rintro ⟨kind, requests⟩ rfl
  cases kind with
  | file => exact absurd rfl h
  | symlink => rfl

theorem eq_none_of_not_isLink {o : Option Marker} (hkind : ∀ m ∈ o, m.kind = .symlink)
    (h : ¬ isLink o = true) : o = none := by
  obtain _ | ⟨kind, requests⟩ := o
  · rfl
  · obtain rfl : kind = .symlink := hkind _ rfl
    exact absurd rfl h

section Events

variable {q q' : Queue}

/-- The lines of the script. -/
theorem change_of_work {leads : Bool} (hwork : work leads q = some q') :
    Change q { q' with clock := q.clock + 1 } := by
  rw [work] at hwork
  cases hline : q.line with rw [hline] at hwork
  | idle => exact nomatch hwork
  | processingExists =>
    dsimp only at hwork
    split_ifs at hwork with hexists <;> obtain rfl := Option.some.inj hwork
    · exact .goto hline fun _ => rfl
    · exact .goto hline fun _ => kind_of_not_pathExists hexists
  | processingIsLink =>
    dsimp only at hwork
    split_ifs at hwork with hlink <;> obtain rfl := Option.some.inj hwork
    · exact .goto hline fun _ => rfl
    · exact .goto hline fun h => eq_none_of_not_isLink h hlink
  | pendingExists =>
    dsimp only at hwork
    split_ifs at hwork with hexists <;> obtain rfl := Option.some.inj hwork
    · exact .goto hline fun h => ⟨h, rfl⟩
    · exact .goto hline fun h => h
  | pendingIsLink =>
    dsimp only at hwork
    split_ifs at hwork with hlink <;> obtain rfl := Option.some.inj hwork
    · exact .goto hline fun h => ⟨h, rfl⟩
    · exact .goto hline fun _ => trivial
  | move =>
    cases hm : q.pending with rw [hm] at hwork
    | none => exact nomatch hwork
    | some m =>
      obtain rfl := Option.some.inj hwork
      exact .move hline hm
  | sync =>
    obtain rfl := Option.some.inj hwork
    exact .sync hline
  | syncing since =>
    obtain rfl := Option.some.inj hwork
    exact .succeed hline
  | remove since =>
    obtain rfl := Option.some.inj hwork
    exact .remove hline

theorem change_of_step {e : Event} (hstep : step q e = some q') : Change q q' := by
  obtain ⟨q'', hhappen, rfl⟩ := Option.map_eq_some_iff.mp hstep
  cases e with
  | write kind =>
    obtain rfl := Option.some.inj hhappen
    exact .write kind
  | start =>
    rw [happen] at hhappen
    split at hhappen
    · obtain rfl := Option.some.inj hhappen
      exact .goto rfl fun _ => trivial
    · exact nomatch hhappen
  | work leads => exact change_of_work hhappen
  | fail =>
    rw [happen] at hhappen
    split_ifs at hhappen
    obtain rfl := Option.some.inj hhappen
    exact .goto rfl fun _ => trivial
  | crash =>
    obtain rfl := Option.some.inj hhappen
    exact .goto rfl fun _ => trivial

/-! ### Requests are not lost -/

/-- A writer may come at any line. -/
theorem sound_write (h : Sound q) (kind : Kind) :
    Sound { q with
      pending := some ⟨kind, q.clock :: (q.pending.elim [] Marker.requests)⟩
      written := q.clock :: q.written
      clock := q.clock + 1 } where
  kept := by
    refine List.forall_mem_cons.mpr ⟨.inl (.inl ⟨_, rfl, List.mem_cons_self⟩), fun t ht => ?_⟩
    obtain (⟨m, hm, hmt⟩ | hprocessing) | hserved := h.kept t ht
    · -- the marker that was there stands for its requests still
      refine .inl (.inl ⟨_, rfl, List.mem_cons_of_mem _ ?_⟩)
      rw [Option.mem_def.mp hm]
      exact hmt
    · exact .inl (.inr hprocessing)
    · exact .inr hserved
  pending_past := by
    rintro m ⟨⟩
    refine List.forall_mem_cons.mpr ⟨Nat.lt_succ_self _, fun t ht => ?_⟩
    cases hpending : q.pending with
    | none =>
      rw [hpending] at ht
      exact absurd ht List.not_mem_nil
    | some m =>
      rw [hpending] at ht
      exact h.pending_past.succ m hpending t ht
  processing_past := h.processing_past.succ
  relies := by
    have hrelies := h.relies
    revert hrelies
    show Relies q q.line → Relies _ q.line
    cases q.line <;> exact id

/-- The rename does not replace a marker, and takes the requests along. -/
theorem sound_move (h : Sound q) (hline : Relies q .move) {m : Marker} (hm : q.pending = some m) :
    Sound { q with pending := none, processing := some m, line := .sync, clock := q.clock + 1 } where
  kept t ht := by
    obtain (⟨m', hm', hmt⟩ | ⟨m', hm', -⟩) | hserved := h.kept t ht
    · obtain rfl := Option.some.inj (hm.symm.trans hm')
      exact .inl (.inr ⟨m, rfl, hmt⟩)
    · rw [hline.1] at hm'
      exact nomatch hm'
    · exact .inr hserved
  pending_past := .none _
  processing_past := hm ▸ h.pending_past.succ
  relies := hline.2

/-- The requests of the marker that is removed have been served. -/
theorem sound_remove (h : Sound q) {since : ℕ} (hserves : Older q.processing since)
    (hsince : since ∈ q.succeeded) :
    Sound { q with processing := none, line := .idle, clock := q.clock + 1 } where
  kept t ht := by
    obtain (hpending | ⟨m, hm, hmt⟩) | hserved := h.kept t ht
    · exact .inl (.inl hpending)
    · exact .inr ⟨since, hsince, hserves m hm t hmt⟩
    · exact .inr hserved
  pending_past := h.pending_past.succ
  processing_past := .none _
  relies := trivial

theorem sound_sync (h : Sound q) (hline : Relies q .sync) :
    Sound { q with
      line := .syncing q.clock, started := q.clock :: q.started, clock := q.clock + 1 } where
  kept := h.kept
  pending_past := h.pending_past.succ
  processing_past := h.processing_past.succ
  relies := ⟨hline, h.processing_past⟩

theorem sound_succeed (h : Sound q) {since : ℕ} (hline : Relies q (.syncing since)) :
    Sound { q with
      line := .remove since, succeeded := since :: q.succeeded, clock := q.clock + 1 } where
  kept t ht := (h.kept t ht).imp_right fun ⟨s, hs, hts⟩ => ⟨s, List.mem_cons_of_mem _ hs, hts⟩
  pending_past := h.pending_past.succ
  processing_past := h.processing_past.succ
  relies := ⟨hline.1, hline.2, List.mem_cons_self⟩

/-- One event, whatever the run is at. -/
theorem sound_step (h : Sound q) (hchange : Change q q') : Sound q' := by
  have hrelies := h.relies
  cases hchange with
  | write kind => exact sound_write h kind
  | goto hline hnext => exact ⟨h.kept, h.pending_past.succ, h.processing_past.succ,
    hnext (hline ▸ hrelies)⟩
  | move hline hm => exact sound_move h (hline ▸ hrelies) hm
  | sync hline => exact sound_sync h (hline ▸ hrelies)
  | succeed hline => exact sound_succeed h (hline ▸ hrelies)
  | remove hline =>
    rw [hline] at hrelies
    exact sound_remove h hrelies.2.1 hrelies.2.2

/-- A marker that is not at `processing` any more has been served. -/
theorem processing_kept (h : Sound q) (hchange : Change q q') {m : Marker}
    (hm : q.processing = some m) : q'.processing = some m ∨
    q'.processing = none ∧ ∃ since ∈ q.succeeded, ∀ t ∈ m.requests, t < since := by
  have hrelies := h.relies
  cases hchange with
  | move hline _ =>
    -- nothing is at `processing` then
    rw [hline] at hrelies
    exact absurd (hm.symm.trans hrelies.1) (by simp)
  | @remove since hline =>
    rw [hline] at hrelies
    exact .inr ⟨rfl, since, hrelies.2.2, hrelies.2.1 m hm⟩
  | write | goto | sync | succeed => exact .inl hm

/-- A sync is started by a run that has found a marker. -/
theorem found_of_started (h : Sound q) (hchange : Change q q')
    (hstarted : q'.started ≠ q.started) : q.found = true := by
  have hrelies := h.relies
  cases hchange with
  | sync hline =>
    rw [hline] at hrelies
    exact hrelies
  | write | goto | move | succeed | remove => exact absurd rfl hstarted

end Events

theorem sound_run {events : List Event} : ∀ {q q' : Queue}, Sound q → run q events = some q' →
    Sound q' := by
  induction events with
  | nil =>
    rintro q q' h ⟨⟩
    exact h
  | cons e events ih =>
    intro q q' h hrun
    obtain ⟨q₁, hstep, hrest⟩ := Option.bind_eq_some_iff.mp hrun
    exact ih (sound_step h (change_of_step hstep)) hrest

/-- Whatever has happened, a request is represented by a marker or has been served by a sync that
started later; `processing` is removed only then; and a run that finds no marker starts no sync. -/
theorem no_request_lost {q₀ q : Queue} {events : List Event} (hinitial : Initial q₀)
    (hrun : run q₀ events = some q) :
    (∀ t ∈ q.written, Represented q t ∨ ∃ since ∈ q.succeeded, t < since) ∧
    ∀ e q', step q e = some q' →
      (∀ m, q.processing = some m → q'.processing = some m ∨
        q'.processing = none ∧ ∃ since ∈ q.succeeded, ∀ t ∈ m.requests, t < since) ∧
      (q'.started ≠ q.started → q.found = true) := by
  have hsound := sound_run hinitial.sound hrun
  exact ⟨hsound.kept, fun e q' hstep =>
    ⟨fun m hm => processing_kept hsound (change_of_step hstep) hm,
      found_of_started hsound (change_of_step hstep)⟩⟩

/-- No marker, and no run. -/
def emptyQueue : Queue where
  pending := none
  processing := none
  line := .idle
  found := false
  clock := 0
  written := []
  started := []
  succeeded := []

/-- A link that leads nowhere is taken up, a second request comes while it is served, the run
crashes, and the next one succeeds. -/
def crashedRun : List Event :=
  [.write .symlink, .start, .work false, .work false, .work false, .work false, .work false,
    .work false, .write .file, .crash, .start, .work false, .work false, .work false, .work false]

theorem crashed_run_kept : ∃ q, run emptyQueue crashedRun = some q ∧ q.written = [8, 0] ∧
    ∀ t ∈ q.written, Represented q t ∨ ∃ since ∈ q.succeeded, t < since :=
  ⟨_, rfl, rfl, (no_request_lost (show Initial emptyQueue from ⟨rfl, rfl, nofun, nofun⟩)
    (show run emptyQueue crashedRun = _ from rfl)).1⟩

/-! ### A run that is not disturbed -/

/-- A run with so many lines. -/
def undisturbed (n : ℕ) : List Event := .start :: List.replicate n (.work true)

/-- A run that finds no marker ends without a sync. -/
theorem run_without_marker {q : Queue} (hidle : q.line = .idle) (hprocessing : q.processing = none)
    (hpending : q.pending = none) :
    ∃ q', run q (undisturbed 4) = some q' ∧ q'.line = .idle ∧ q'.started = q.started := by
  simp [undisturbed, run, step, happen, work, pathExists, isLink, hidle, hprocessing, hpending,
    List.replicate]

/-- A run takes up what is at `processing`, or else at `pending`, and serves it. -/
theorem run_serves {q : Queue} (hidle : q.line = .idle)
    (hmarker : q.processing ≠ none ∨ q.pending ≠ none) :
    ∃ n q', run q (undisturbed n) = some q' ∧ q'.line = .idle ∧ q'.processing = none ∧
      q'.pending = (if q.processing = none then none else q.pending) ∧
      ∃ since ∈ q'.succeeded, q.clock ≤ since := by
  have hexists : ∀ m : Marker, pathExists true (some m) = true
    | ⟨.file, _⟩ => rfl
    | ⟨.symlink, _⟩ => rfl
  cases hprocessing : q.processing with
  | some m =>
    refine ⟨4, ?_⟩
    simp [undisturbed, run, step, happen, work, hexists, hidle, hprocessing, List.replicate]
    omega
  | none =>
    obtain ⟨m, hm⟩ := Option.ne_none_iff_exists'.mp (hmarker.resolve_left (not_not.mpr hprocessing))
    refine ⟨7, ?_⟩
    have habsent : pathExists true none = false := rfl
    simp [undisturbed, run, step, happen, work, hexists, habsent, isLink, hidle, hprocessing, hm,
      List.replicate]
    omega

end SyncQueue
