/-
await-self-update: a switch of the control node, watched from outside.

The script reads the state of the node's runner from the GitHub API: once before it waits, then
until the runner is offline, then until it is online again.  A read that fails prints an error
body; after some failing reads in a row a wait gives up.  Either wait tells its caller no more
than that it has not seen what it waited for.

* `Read`, `status_of` — a read of the API, and the globals that it writes;
* `wait_for`, `await_self_update` — a wait, and the script, run for a number of rounds;
* `WaitEnds`, `wait_spec` — how a wait ends, in terms of the reads;
* `watcher_reliable_iff` — when the exit status of the script is to be relied on.

What the script prints is left out.
-/
import KrgInfra.Shell
import Mathlib.Tactic.Ring
import Mathlib.Tactic.Linarith

namespace SelfUpdateWatch

/-- A call of `gh api`: whether it succeeds, and what it prints on standard output, which is an
error body where it does not. -/
structure Read where
  ok : Bool
  stdout : String

/-- The variables of the environment; the poll interval is positive. -/
structure Config where
  offline_timeout : ℤ := 300
  online_timeout : ℤ := 900
  poll : ℕ := 10
  max_api_errors : ℤ := 3
  poll_pos : 0 < poll := by decide

/-- The last status that was read, and the reads that were made. -/
structure Watch where
  status : String := ""
  reads : ℕ := 0

/-- `printf '%s\n' "$out" | head -n1` -/
def firstLine (out : String) : String :=
  captured (String.ofList ((captured out).toList.takeWhile (· ≠ '\n')))

section Script

variable (api : ℕ → Read) (c : Config)

/-- `status_of`: a read that fails leaves the status as it is. -/
def status_of (w : Watch) : Bool × Watch :=
  let out := api w.reads
  if out.ok then (true, ⟨firstLine out.stdout, w.reads + 1⟩)
  else (false, { w with reads := w.reads + 1 })

/-- How a wait ends. -/
inductive Wait where
  | seen
  | unreadable
  | timedOut
  deriving DecidableEq, Repr

/-- The return status of `wait_for`. -/
def Wait.rc : Wait → ℕ
  | .seen => 0
  | .unreadable => 1
  | .timedOut => 1

/-- `while ((waited < timeout))`, for so many rounds; `none` where it goes on. -/
def wait_loop (want : String) (timeout : ℤ) : ℕ → ℤ → ℤ → Watch → Option (Wait × Watch)
  | 0, _, _, _ => none
  | n + 1, waited, errors, w =>
    if waited < timeout then
      let (ok, w) := status_of api w
      if ok then
        if w.status = want then some (.seen, w)
        else wait_loop want timeout n (waited + c.poll) 0 w
      else if errors + 1 ≥ c.max_api_errors then some (.unreadable, w)
      else wait_loop want timeout n (waited + c.poll) (errors + 1) w
    else some (.timedOut, w)

def wait_for (want : String) (timeout : ℤ) (rounds : ℕ) (w : Watch) : Option (Wait × Watch) :=
  wait_loop api c want timeout rounds 0 0 w

/-- A script that has ended. -/
structure Run where
  status : ℕ
  watch : Watch

/-- The second wait, and the end of the script. -/
def await_online (rounds : ℕ) (w : Watch) : Option Run := do
  let (wait, w) ← wait_for api c "online" c.online_timeout rounds w
  return if wait.rc ≠ 0 then ⟨1, w⟩ else ⟨0, w⟩

/-- The script: `preflight`, and the two waits. -/
def await_self_update (rounds : ℕ) : Option Run :=
  let (ok, w) := status_of api {}
  if ok = false then some ⟨1, w⟩
  else if w.status = "" then some ⟨1, w⟩
  else do
    let (wait, w) ← wait_for api c "offline" c.offline_timeout rounds w
    if wait.rc ≠ 0 then return ⟨0, w⟩ else await_online api c rounds w

end Script

/-! ### Reads -/

section Reads

variable (api : ℕ → Read)

/-- A read that succeeds, and what it says. -/
def Says (k : ℕ) (status : String) : Prop :=
  (api k).ok = true ∧ firstLine (api k).stdout = status

/-- So many reads in a row fail, and one at least, among those from `first` to before `last`. -/
def Burst (max : ℤ) (first last : ℕ) : Prop :=
  ∃ i m : ℕ, first ≤ i ∧ 0 < m ∧ max ≤ m ∧ i + m ≤ last ∧ ∀ j, i ≤ j → j < i + m → (api j).ok = false

/-- The status after some reads: what the last of them that succeeded said. -/
def statusAfter : ℕ → String
  | 0 => ""
  | n + 1 => if (api n).ok then firstLine (api n).stdout else statusAfter n

end Reads

variable {api : ℕ → Read} {c : Config}

theorem Burst.mono {max : ℤ} {first last last' : ℕ} (h : Burst api max first last)
    (hle : last ≤ last') : Burst api max first last' := by
  obtain ⟨i, m, hi, hm, hmax, hlast, hfail⟩ := h
  exact ⟨i, m, hi, hm, hmax, hlast.trans hle, hfail⟩

/-- A read that succeeds ends a burst. -/
theorem not_burst_of_ok {max : ℤ} {first n : ℕ} (h : ¬ Burst api max first n)
    (hok : (api n).ok = true) : ¬ Burst api max first (n + 1) := by
  rintro ⟨i, m, hi, hm, hmax, hlast, hfail⟩
  rcases Nat.lt_or_ge n (i + m) with hlt | hge
  · rw [hfail n (by omega) hlt] at hok
    exact nomatch hok
  · exact h ⟨i, m, hi, hm, hmax, hge, hfail⟩

/-- The reads before `n`, back to `first`, that failed last. -/
structure Trailing (api : ℕ → Read) (first n : ℕ) (errors : ℕ) : Prop where
  le : first + errors ≤ n
  fail : ∀ j, n - errors ≤ j → j < n → (api j).ok = false
  stop : first + errors < n → (api (n - errors - 1)).ok = true

theorem Trailing.zero_of_ok {first n : ℕ} (hn : first ≤ n) (hok : (api n).ok = true) :
    Trailing api first (n + 1) 0 where
  le := by omega
  fail j h h' := by omega
  stop _ := hok

theorem Trailing.succ {first n errors : ℕ} (h : Trailing api first n errors)
    (hfail : (api n).ok = false) : Trailing api first (n + 1) (errors + 1) where
  le := by
    have := h.le
    omega
  fail j hj hjn := by
    rcases Nat.lt_succ_iff_lt_or_eq.mp hjn with hlt | rfl
    · exact h.fail j (by omega) hlt
    · exact hfail
  stop hlt := by
    have hstop := h.stop (by omega)
    rwa [Nat.add_sub_add_right]

/-- Fewer failing reads than that are no burst. -/
theorem Trailing.not_burst {max : ℤ} {first n errors : ℕ} (h : Trailing api first n (errors + 1))
    (hno : ¬ Burst api max first (n - 1)) (hlt : (errors : ℤ) + 1 < max) :
    ¬ Burst api max first n := by
  rintro ⟨i, m, hi, hm, hmax, hlast, hfail⟩
  have hle := h.le
  rcases Nat.lt_or_ge (i + m) n with hbefore | hend
  · exact hno ⟨i, m, hi, hm, hmax, by omega, hfail⟩
  · -- the burst reaches back beyond the trailing reads, over one that succeeded
    have hlong : errors + 1 < m := by omega
    have hok := h.stop (by omega)
    rw [hfail _ (by omega) (by omega)] at hok
    exact nomatch hok

/-! ### A wait -/

/-- How a wait ends that began with read number `first` and made those before `n`. -/
inductive WaitEnds (api : ℕ → Read) (c : Config) (want : String) (timeout : ℤ) (first : ℕ) :
    Wait → ℕ → Prop
  | seen {n : ℕ} : first ≤ n → Says api n want → (∀ k, first ≤ k → k < n → ¬ Says api k want) →
      ¬ Burst api c.max_api_errors first (n + 1) → WaitEnds api c want timeout first .seen (n + 1)
  | unreadable {n : ℕ} : first ≤ n → (∀ k, first ≤ k → k ≤ n → ¬ Says api k want) →
      Burst api c.max_api_errors first (n + 1) → (api n).ok = false →
      (c.poll : ℤ) * (n - first) < timeout → WaitEnds api c want timeout first .unreadable (n + 1)
  | timedOut {n : ℕ} : first ≤ n → (∀ k, first ≤ k → k < n → ¬ Says api k want) →
      ¬ Burst api c.max_api_errors first n → timeout ≤ (c.poll : ℤ) * (n - first) →
      WaitEnds api c want timeout first .timedOut n

/-- A wait under way: nothing was seen, and there was no burst. -/
structure Waiting (api : ℕ → Read) (c : Config) (want : String) (first : ℕ) (waited : ℤ)
    (errors : ℕ) (w : Watch) : Prop where
  status : w.status = statusAfter api w.reads
  first_le : first ≤ w.reads
  waited : waited = (c.poll : ℤ) * (w.reads - first)
  trailing : Trailing api first w.reads errors
  unseen : ∀ k, first ≤ k → k < w.reads → ¬ Says api k want
  no_burst : ¬ Burst api c.max_api_errors first w.reads

/-- The status that a read leaves is that of the last one that succeeded. -/
theorem status_status_of {w : Watch} (h : w.status = statusAfter api w.reads) :
    (status_of api w).2.status = statusAfter api (status_of api w).2.reads := by
  unfold status_of
  by_cases hok : (api w.reads).ok = true
  · simp [hok, statusAfter]
  · simp [hok, statusAfter, h]

theorem status_of_ok {w : Watch} (hok : (api w.reads).ok = true) :
    status_of api w = (true, ⟨firstLine (api w.reads).stdout, w.reads + 1⟩) := by
  simp [status_of, hok]

theorem status_of_fail {w : Watch} (hok : (api w.reads).ok = false) :
    status_of api w = (false, { w with reads := w.reads + 1 }) := by
  simp [status_of, hok]

namespace Waiting

variable {want : String} {first errors : ℕ} {waited : ℤ} {w : Watch}

/-- A read that succeeds and says something else. -/
theorem other (h : Waiting api c want first waited errors w) (hok : (api w.reads).ok = true)
    (hne : firstLine (api w.reads).stdout ≠ want) :
    Waiting api c want first (waited + c.poll) 0
      ⟨firstLine (api w.reads).stdout, w.reads + 1⟩ where
  status := by rw [statusAfter, if_pos hok]
  first_le := Nat.le_succ_of_le h.first_le
  waited := by
    rw [h.waited]
    push_cast
    ring
  trailing := .zero_of_ok h.first_le hok
  unseen k hk hlt := by
    rcases Nat.lt_succ_iff_lt_or_eq.mp hlt with hlt | rfl
    · exact h.unseen k hk hlt
    · exact fun htold => hne htold.2
  no_burst := not_burst_of_ok h.no_burst hok

/-- A read that fails, where that does not make too many. -/
theorem failed (h : Waiting api c want first waited errors w) (hok : (api w.reads).ok = false)
    (hlt : (errors : ℤ) + 1 < c.max_api_errors) :
    Waiting api c want first (waited + c.poll) (errors + 1)
      { w with reads := w.reads + 1 } where
  status := by
    show w.status = statusAfter api (w.reads + 1)
    rw [statusAfter, hok, h.status]
    rfl
  first_le := Nat.le_succ_of_le h.first_le
  waited := by
    rw [h.waited]
    push_cast
    ring
  trailing := h.trailing.succ hok
  unseen k hk hle := by
    rcases Nat.lt_succ_iff_lt_or_eq.mp hle with hlt | rfl
    · exact h.unseen k hk hlt
    · intro htold
      rw [htold.1] at hok
      exact nomatch hok
  no_burst := (h.trailing.succ hok).not_burst h.no_burst hlt

/-- The reads that failed last, with one more, are a burst. -/
theorem burst (h : Waiting api c want first waited errors w) (hok : (api w.reads).ok = false)
    (hge : c.max_api_errors ≤ (errors : ℤ) + 1) :
    Burst api c.max_api_errors first (w.reads + 1) := by
  have htrail := h.trailing.succ hok
  have hle := htrail.le
  refine ⟨w.reads + 1 - (errors + 1), errors + 1, by omega, by omega, by push_cast; omega,
    by omega, fun j hj hlt => htrail.fail j hj (by omega)⟩

end Waiting

/-- **A wait.**  With more rounds than seconds it ends. -/
theorem wait_spec {want : String} {timeout : ℤ} {first : ℕ} :
    ∀ (n : ℕ) (waited : ℤ) (errors : ℕ) (w : Watch),
      Waiting api c want first waited errors w → 0 < n → timeout < waited + n →
      ∃ wait w', wait_loop api c want timeout n waited errors w = some (wait, w') ∧
        w'.status = statusAfter api w'.reads ∧ WaitEnds api c want timeout first wait w'.reads := by
  intro n
  induction n with
  | zero => exact fun _ _ _ _ h => absurd h (lt_irrefl 0)
  | succ n ih =>
    intro waited errors w hw _ hlt
    have hpoll := c.poll_pos
    rw [wait_loop]
    by_cases htime : waited < timeout
    · rw [if_pos htime]
      have hn : 0 < n := by
        push_cast at hlt
        omega
      have hlt' : timeout < waited + c.poll + n := by
        push_cast at hlt
        omega
      cases hok : (api w.reads).ok with
      | true =>
        rw [status_of_ok hok]
        simp only [if_true]
        by_cases hwant : firstLine (api w.reads).stdout = want
        · rw [if_pos hwant]
          refine ⟨_, _, rfl, by rw [statusAfter, if_pos hok], ?_⟩
          exact .seen hw.first_le ⟨hok, hwant⟩ hw.unseen (not_burst_of_ok hw.no_burst hok)
        · rw [if_neg hwant]
          exact ih _ _ _ (hw.other hok hwant) hn hlt'
      | false =>
        rw [status_of_fail hok]
        simp only [Bool.false_eq_true, if_false]
        by_cases hmax : (errors : ℤ) + 1 ≥ c.max_api_errors
        · rw [if_pos hmax]
          refine ⟨_, _, rfl, ?_, ?_⟩
          · show w.status = statusAfter api (w.reads + 1)
            rw [statusAfter, hok, hw.status]
            rfl
          · refine .unreadable hw.first_le (fun k hk hle => ?_) (hw.burst hok hmax) hok ?_
            · rcases eq_or_lt_of_le hle with rfl | hlt
              · intro htold
                rw [htold.1] at hok
                exact nomatch hok
              · exact hw.unseen k hk hlt
            · rw [← hw.waited]
              exact htime
        · rw [if_neg hmax]
          have hstep := hw.failed hok (not_le.mp hmax)
          exact ih _ (errors + 1) _ hstep hn hlt'
    · rw [if_neg htime]
      refine ⟨_, _, rfl, hw.status, .timedOut hw.first_le hw.unseen hw.no_burst ?_⟩
      rw [← hw.waited]
      exact not_lt.mp htime

/-- A wait that has ended ends the same way with more rounds. -/
theorem wait_loop_mono {want : String} {timeout : ℤ} {r : Wait × Watch} :
    ∀ (n k : ℕ) (waited errors : ℤ) (w : Watch),
      wait_loop api c want timeout n waited errors w = some r →
      wait_loop api c want timeout (n + k) waited errors w = some r := by
  intro n
  induction n with
  | zero => exact fun _ _ _ _ h => nomatch h
  | succ n ih =>
    intro k waited errors w h
    rw [Nat.succ_add]
    rw [wait_loop] at h ⊢
    by_cases htime : waited < timeout
    · rw [if_pos htime] at h ⊢
      rcases hread : status_of api w with ⟨ok, w'⟩
      rw [hread] at h
      cases ok with
      | true =>
        simp only [if_true] at h ⊢
        by_cases hwant : w'.status = want
        · rwa [if_pos hwant] at h ⊢
        · rw [if_neg hwant] at h ⊢
          exact ih k _ _ _ h
      | false =>
        simp only [Bool.false_eq_true, if_false] at h ⊢
        by_cases hmax : errors + 1 ≥ c.max_api_errors
        · rwa [if_pos hmax] at h ⊢
        · rw [if_neg hmax] at h ⊢
          exact ih k _ _ _ h
    · rwa [if_neg htime] at h ⊢

/-- A wait that begins at some read ends, in the same way for all large numbers of rounds. -/
theorem wait_for_ends (want : String) (timeout : ℤ) {w : Watch}
    (hw : w.status = statusAfter api w.reads) : ∃ N wait w',
      (∀ rounds ≥ N, wait_for api c want timeout rounds w = some (wait, w')) ∧
        w'.status = statusAfter api w'.reads ∧
        WaitEnds api c want timeout w.reads wait w'.reads := by
  have hstart : Waiting api c want w.reads 0 (0 : ℕ) w := by
    refine ⟨hw, le_rfl, by simp, ⟨le_rfl, fun j hj hlt => ?_, fun h => ?_⟩, fun k hk hlt => ?_, ?_⟩
    · omega
    · omega
    · omega
    · rintro ⟨i, m, hi, hm, -, hlast, -⟩
      omega
  have hpos : 0 < timeout.toNat + 1 := Nat.succ_pos _
  have hfuel : timeout < 0 + ((timeout.toNat + 1 : ℕ) : ℤ) := by omega
  obtain ⟨wait, w', hwait, hstatus, hends⟩ := wait_spec _ _ _ _ hstart hpos hfuel
  refine ⟨timeout.toNat + 1, wait, w', fun rounds hrounds => ?_, hstatus, hends⟩
  obtain ⟨k, rfl⟩ := Nat.exists_eq_add_of_le hrounds
  exact wait_loop_mono _ k _ _ _ hwait

/-! ### The script -/

/-- How the script ends. -/
inductive Ends (api : ℕ → Read) (c : Config) : Run → Prop
  | preflight {w : Watch} : w.reads = 1 → ((api 0).ok = false ∨ Says api 0 "") → Ends api c ⟨1, w⟩
  | unobserved {wait : Wait} {w : Watch} : (api 0).ok = true → ¬ Says api 0 "" →
      WaitEnds api c "offline" c.offline_timeout 1 wait w.reads → wait ≠ .seen → Ends api c ⟨0, w⟩
  | lost {n : ℕ} {wait : Wait} {w : Watch} : WaitEnds api c "offline" c.offline_timeout 1 .seen n →
      WaitEnds api c "online" c.online_timeout n wait w.reads → wait ≠ .seen → Ends api c ⟨1, w⟩
  | back {n : ℕ} {w : Watch} : WaitEnds api c "offline" c.offline_timeout 1 .seen n →
      WaitEnds api c "online" c.online_timeout n .seen w.reads → Ends api c ⟨0, w⟩

theorem rc_ne_zero {wait : Wait} : wait.rc ≠ 0 ↔ wait ≠ .seen := by
  cases wait <;> simp [Wait.rc]

/-- **The script.**  It ends, with the status that was read last. -/
theorem await_self_update_ends (api : ℕ → Read) (c : Config) : ∃ N run,
    (∀ rounds ≥ N, await_self_update api c rounds = some run) ∧
      run.watch.status = statusAfter api run.watch.reads ∧ Ends api c run := by
  have hstatus : ({} : Watch).status = statusAfter api ({} : Watch).reads := rfl
  cases hok : (api 0).ok with
  | false =>
    have hread : status_of api {} = (false, { status := "", reads := 1 }) := status_of_fail hok
    refine ⟨0, ⟨1, ⟨"", 1⟩⟩, fun rounds _ => by simp [await_self_update, hread], ?_,
      .preflight rfl (.inl hok)⟩
    simp [statusAfter, hok]
  | true =>
    have hread : status_of api {} = (true, ⟨firstLine (api 0).stdout, 1⟩) := status_of_ok hok
    have hstatus : (⟨firstLine (api 0).stdout, 1⟩ : Watch).status = statusAfter api 1 := by
      simp [statusAfter, hok]
    by_cases hempty : firstLine (api 0).stdout = ""
    · refine ⟨0, ⟨1, ⟨firstLine (api 0).stdout, 1⟩⟩, fun rounds _ => ?_, hstatus,
        .preflight rfl (.inr ⟨hok, hempty⟩)⟩
      simp [await_self_update, hread, hempty]
    · have htold : ¬ Says api 0 "" := fun h => hempty h.2
      obtain ⟨N, wait, w, hwait, hlast, hends⟩ :=
        wait_for_ends (c := c) "offline" c.offline_timeout hstatus
      by_cases hseen : wait = .seen
      · subst hseen
        obtain ⟨N', wait', w', hwait', hlast', hends'⟩ :=
          wait_for_ends (c := c) "online" c.online_timeout hlast
        have hrun : ∀ rounds ≥ max N N', await_self_update api c rounds =
            some (if wait'.rc ≠ 0 then ⟨1, w'⟩ else ⟨0, w'⟩) := by
          intro rounds hrounds
          simp [await_self_update, hread, hempty, hwait rounds (le_of_max_le_left hrounds),
            Wait.rc, await_online, hwait' rounds (le_of_max_le_right hrounds)]
        by_cases hback : wait' = .seen
        · subst hback
          exact ⟨_, ⟨0, w'⟩, hrun, hlast', .back hends hends'⟩
        · rw [if_pos (rc_ne_zero.mpr hback)] at hrun
          exact ⟨_, ⟨1, w'⟩, hrun, hlast', .lost hends hends' hback⟩
      · refine ⟨N, ⟨0, w⟩, fun rounds hrounds => ?_, hlast, .unobserved hok htold hends hseen⟩
        simp [await_self_update, hread, hempty, hwait rounds hrounds, rc_ne_zero.mpr hseen]

/-! ### What is to be relied on -/

/-- The reads before `n` say that the runner was offline, and later that it was online. -/
def SawSwitch (api : ℕ → Read) (n : ℕ) : Prop :=
  ∃ i j, 1 ≤ i ∧ i < j ∧ j < n ∧ Says api i "offline" ∧ Says api j "online"

/-- The first wait has run to its timeout, without many failing reads in a row. -/
def QuietTimeout (api : ℕ → Read) (c : Config) (n : ℕ) : Prop :=
  1 ≤ n ∧ (∀ k, 1 ≤ k → k < n → ¬ Says api k "offline") ∧
    c.offline_timeout ≤ (c.poll : ℤ) * (n - 1) ∧ ¬ Burst api c.max_api_errors 1 n

/-- What the watcher promises of a run that has ended: its status is no output of a failed read;
it succeeds only after a switch that it saw or a quiet timeout; and it fails if it ends among
reads that fail, the timeout apart. -/
structure Reliable (api : ℕ → Read) (c : Config) (run : Run) : Prop where
  status : run.watch.status = statusAfter api run.watch.reads
  succeeds : run.status = 0 →
    SawSwitch api run.watch.reads ∨ QuietTimeout api c run.watch.reads
  fails : ∀ k < run.watch.reads, (∀ j, k ≤ j → j < run.watch.reads → (api j).ok = false) →
    ¬ QuietTimeout api c run.watch.reads → run.status ≠ 0

/-- Many reads in a row fail during the first wait, before it is over. -/
def GivesUpOffline (api : ℕ → Read) (c : Config) : Prop :=
  ∃ n : ℕ, 1 ≤ n ∧ (∀ k, 1 ≤ k → k < n → ¬ Says api k "offline") ∧
    (c.poll : ℤ) * (n - 1) < c.offline_timeout ∧ Burst api c.max_api_errors 1 (n + 1)

/-- The first wait gives up exactly where many reads in a row fail before it is over. -/
theorem WaitEnds.gives_up_iff {wait : Wait} {m : ℕ}
    (h : WaitEnds api c "offline" c.offline_timeout 1 wait m) :
    GivesUpOffline api c ↔ wait = .unreadable := by
  have hpoll := c.poll_pos
  constructor
  · rintro ⟨n, hn, hunseen, htime, hburst⟩
    cases h with
    | unreadable => rfl
    | @seen k hk htold _ hno =>
      have hle : n ≤ k := by
        by_contra hlt
        exact hunseen k hk (not_le.mp hlt) htold
      exact absurd (hburst.mono (Nat.succ_le_succ hle)) hno
    | timedOut hle _ hno hover =>
      have hlt : (c.poll : ℤ) * (n - 1) < c.poll * (m - 1) := htime.trans_le (by exact_mod_cast hover)
      have hlt := lt_of_mul_lt_mul_left hlt (Int.natCast_nonneg _)
      exact absurd (hburst.mono (by omega)) hno
  · rintro rfl
    cases h with
    | unreadable hle hunseen hburst _ htime =>
      exact ⟨_, hle, fun k hk hlt => hunseen k hk hlt.le, by exact_mod_cast htime, hburst⟩

theorem reliable_iff_of_ends {run : Run} (h : Ends api c run)
    (hstatus : run.watch.status = statusAfter api run.watch.reads) :
    Reliable api c run ↔
      ((api 0).ok = true → ¬ Says api 0 "" → ¬ GivesUpOffline api c) := by
  cases h with
  | preflight hreads hbad =>
    refine iff_of_true ⟨hstatus, fun h => absurd h Nat.one_ne_zero,
      fun _ _ _ _ => Nat.one_ne_zero⟩ fun hok htold => ?_
    rcases hbad with hfail | hempty
    · rw [hok] at hfail
      exact nomatch hfail
    · exact absurd hempty htold
  | @unobserved wait w hok htold hends hseen =>
    rw [hends.gives_up_iff]
    generalize hm : w.reads = m at hends
    cases hends with
    | seen => exact absurd rfl hseen
    | @unreadable n hle hunseen hburst hfail htime =>
      -- the script has succeeded on an API that it cannot read
      refine iff_of_false (fun hrel => ?_) fun h => h hok htold rfl
      have hsucceeds := hrel.succeeds rfl
      rw [hm] at hsucceeds
      rcases hsucceeds with ⟨i, j, hi, hij, hj, hoff, -⟩ | ⟨-, -, -, hno⟩
      · exact hunseen i hi (by omega) hoff
      · exact hno hburst
    | timedOut hle hunseen hno hover =>
      have hquiet : QuietTimeout api c w.reads := by
        rw [hm]
        exact ⟨hle, hunseen, by exact_mod_cast hover, hno⟩
      exact iff_of_true ⟨hstatus, fun _ => .inr hquiet, fun _ _ _ hnot => absurd hquiet hnot⟩
        fun _ _ => nofun
  | lost hoff _ _ =>
    rw [hoff.gives_up_iff]
    exact iff_of_true ⟨hstatus, fun h => absurd h Nat.one_ne_zero,
      fun _ _ _ _ => Nat.one_ne_zero⟩ fun _ _ => nofun
  | @back n w hoff hon =>
    rw [hoff.gives_up_iff]
    generalize hm : w.reads = m at hon
    cases hoff with
    | @seen i hi hsaw =>
      cases hon with
      | @seen j hj hback =>
        refine iff_of_true ⟨hstatus, fun _ => .inl ?_, fun k hk hfail _ => ?_⟩ fun _ _ => nofun
        · exact ⟨i, j, hi, hj, hm ▸ Nat.lt_succ_self j, hsaw, hback⟩
        · -- the last read of all has said that the runner is online
          replace hk : k < w.reads := hk
          have hlast := hfail j (by omega) (hm ▸ Nat.lt_succ_self j)
          rw [hback.1] at hlast
          exact nomatch hlast

/-- **The watcher.**  It ends, and is reliable exactly when the first wait does not give up: when
fewer reads in a row fail than make the API unreadable, for as long as the runner was not seen
offline and the time is not over. -/
theorem watcher_reliable_iff (api : ℕ → Read) (c : Config) :
    (∃ N run, (∀ rounds ≥ N, await_self_update api c rounds = some run) ∧ Reliable api c run) ↔
      ((api 0).ok = true → ¬ Says api 0 "" → ¬ GivesUpOffline api c) := by
  obtain ⟨N, run, hrun, hstatus, hends⟩ := await_self_update_ends api c
  rw [← reliable_iff_of_ends hends hstatus]
  constructor
  · rintro ⟨N', run', hrun', hrel⟩
    have heq := (hrun (max N N') (le_max_left _ _)).symm.trans (hrun' _ (le_max_right _ _))
    rwa [Option.some_inj.mp heq]
  · exact fun hrel => ⟨N, run, hrun, hrel⟩

/-- The runner is online, and then the token is revoked: an error body is all there is to read. -/
def revoked : ℕ → Read
  | 0 => ⟨true, "online\n"⟩
  | _ + 1 => ⟨false, "\x7b\"message\": \"Bad credentials\"\x7d"⟩

/-- The watcher succeeds on the API that it cannot read. -/
theorem revoked_token_resumes :
    ¬ ∃ N run, (∀ rounds ≥ N, await_self_update revoked {} rounds = some run) ∧
      Reliable revoked {} run := by
  rintro ⟨N, run, hrun, hrel⟩
  obtain ⟨N', run', hrun', hstatus, hends⟩ := await_self_update_ends revoked {}
  have heq := (hrun _ (le_max_left N N')).symm.trans (hrun' _ (le_max_right N N'))
  rw [Option.some_inj.mp heq, reliable_iff_of_ends hends hstatus] at hrel
  refine hrel rfl (fun h => absurd h.2 (by decide)) ⟨3, by decide, fun k hk _ htold => ?_, by decide,
    1, 3, le_rfl, by decide, le_rfl, le_rfl, fun j hj _ => ?_⟩
  · obtain ⟨k, rfl⟩ := Nat.exists_eq_succ_of_ne_zero (Nat.ne_of_gt hk)
    exact nomatch htold.1
  · obtain ⟨j, rfl⟩ := Nat.exists_eq_succ_of_ne_zero (Nat.ne_of_gt hj)
    rfl

end SelfUpdateWatch
