/-
deploy-nixos: a switch that ended with exit status 4.

`switch-to-configuration` exits with 4 when the new configuration is active and a unit failed
to start.  The script then compares the running generation with the one that it built, and
polls the failed units until there are none.  A poll is a pipeline on the host, whose status
is that of its last command.

* `Poll`, `answer` — a poll, and what the script gets of it;
* `settle`, `switch_exit4_recovered` — the polls, and the function;
* `settle_iff` — at which poll it stops;
* `excused_iff` — when the function succeeds;
* `recovered_on_evidence_iff` — when the failure is excused on evidence only.
-/
import KrgInfra.Shell

namespace DeployNixos

/-- A poll of the failed units: whether ssh reaches the host and stays connected, the exit
status of `systemctl` and what it prints, and the exit status of `awk`. -/
structure Poll where
  ssh : Bool := true
  systemctl : ℕ := 0
  listing : String
  awk : ℕ := 0

/-! ### What a poll gives -/

/-- The lines of a text; a newline at its end does not begin another one. -/
def records (text : List Char) : List (List Char) :=
  if text = [] then []
  else if text.getLast? = some '\n' then text.dropLast.splitOn '\n' else text.splitOn '\n'

/-- `$1` -/
def field (line : List Char) : List Char :=
  (line.dropWhile fun c => c = ' ' || c = '\t').takeWhile fun c => !(c = ' ' || c = '\t')

/-- `awk "{print \$1}"` -/
def print_fields (text : String) : String :=
  String.ofList ((records text.toList).flatMap fun line => field line ++ ['\n'])

/-- `[[:space:]]` -/
def isSpace (c : Char) : Bool := c ∈ [' ', '\t', '\n', '\x0b', '\x0c', '\r']

/-- What the script gets of a poll: nothing, where the remote command has failed. -/
def answer (p : Poll) : Option String :=
  if p.ssh = true ∧ p.awk = 0 then some (captured (print_fields p.listing)) else none

/-- `[[ -z "${failed//[[:space:]]/}" ]]` -/
def isBlank (text : String) : Bool := text.toList.all isSpace

/-! ### The function -/

/-- How the polls end. -/
inductive Settling where
  | lost
  | settled
  | failing
  deriving DecidableEq, Repr

/-- `for ((i = 0; i < 24; i++))`, with so many rounds left: how it ends, and the polls made. -/
def settle (polls : ℕ → Poll) : ℕ → ℕ → Settling × ℕ
  | 0, i => (.failing, i)
  | n + 1, i =>
    match answer (polls i) with
    | none => (.lost, i + 1)
    | some failed => if isBlank failed then (.settled, i + 1) else settle polls n (i + 1)

/-- The exit status of the function, and the polls that it made. -/
structure Verdict where
  status : ℕ
  polls : ℕ

/-- `switch_exit4_recovered`: `built` is what `nix eval` prints and `running` what the host
answers, `none` where the command fails. -/
def switch_exit4_recovered (built running : Option String) (polls : ℕ → Poll) : Verdict :=
  match built.map captured, running.map captured with
  | none, _ => ⟨1, 0⟩
  | some _, none => ⟨1, 0⟩
  | some want, some got =>
    if got ≠ want then ⟨1, 0⟩
    else
      match settle polls 24 0 with
      | (.settled, n) => ⟨0, n⟩
      | (_, n) => ⟨1, n⟩

/-! ### What the polls say -/

namespace Poll

/-- The pipeline has run on the host. -/
def Reached (p : Poll) : Prop := p.ssh = true ∧ p.awk = 0

/-- The units that `systemctl` lists. -/
def units (p : Poll) : List (List Char) :=
  ((records p.listing.toList).map field).filter fun name =>
    name.any fun c => c ≠ Char.ofNat 0 && !isSpace c

/-- The remote `systemctl` has succeeded and listed no failed units. -/
def Evidence (p : Poll) : Prop := p.Reached ∧ p.systemctl = 0 ∧ p.units = []

end Poll

theorem all_rdropWhile {l : List Char} :
    (l.rdropWhile (· = '\n')).all isSpace = l.all isSpace := by
  induction l using List.reverseRecOn with
  | nil => rfl
  | append_singleton l c ih =>
    by_cases hc : c = '\n'
    · rw [List.rdropWhile_concat_pos _ _ _ (by simpa using hc), ih, List.all_append, hc]
      simp [isSpace]
    · rw [List.rdropWhile_concat_neg _ _ _ (by simpa using hc)]

/-- What the script gets is blank exactly when no unit is listed. -/
theorem isBlank_captured_iff (p : Poll) :
    isBlank (captured (print_fields p.listing)) = true ↔ p.units = [] := by
  rw [isBlank, captured, String.toList_ofList, all_rdropWhile, print_fields, String.toList_ofList,
    Poll.units, List.filter_eq_nil_iff, List.all_eq_true, List.forall_mem_map]
  have hname : ∀ name : List Char,
      ¬ (name.any fun c => c ≠ Char.ofNat 0 && !isSpace c) = true ↔
        ∀ c ∈ name, c ≠ Char.ofNat 0 → isSpace c = true := by
    intro name
    simp
  simp only [hname, List.mem_filter, List.mem_flatMap, decide_eq_true_eq]
  constructor
  · intro h line hline c hc hnul
    exact h c ⟨⟨line, hline, List.mem_append_left _ hc⟩, hnul⟩
  · rintro h c ⟨⟨line, hline, hc⟩, hnul⟩
    obtain hc | hc := List.mem_append.mp hc
    · exact h line hline c hc hnul
    · rw [List.mem_singleton.mp hc]
      rfl

theorem answer_of_reached {p : Poll} (h : p.Reached) :
    answer p = some (captured (print_fields p.listing)) := if_pos h

theorem answer_of_not_reached {p : Poll} (h : ¬ p.Reached) : answer p = none := if_neg h

/-- The pipeline has run, and no unit is listed. -/
def Poll.Quiet (p : Poll) : Prop := p.Reached ∧ p.units = []

/-- The pipeline has run, and a unit is listed. -/
def Poll.Names (p : Poll) : Prop := p.Reached ∧ p.units ≠ []

/-- **Where the polls settle.**  They settle at the first one that lists no unit, if every one
before it has reached the host and listed some. -/
theorem settle_iff (polls : ℕ → Poll) (m : ℕ) : ∀ n i, settle polls n i = (.settled, m) ↔
    ∃ k, m = k + 1 ∧ i ≤ k ∧ k < i + n ∧ (polls k).Quiet ∧
      ∀ j, i ≤ j → j < k → (polls j).Names := by
  intro n
  induction n with
  | zero =>
    intro i
    refine iff_of_false (by simp [settle]) ?_
    rintro ⟨k, -, hik, hki, -⟩
    omega
  | succ n ih =>
    intro i
    rw [settle]
    by_cases hreached : (polls i).Reached
    · rw [answer_of_reached hreached]
      show (if isBlank (captured (print_fields (polls i).listing)) = true then _ else _) = _ ↔ _
      by_cases hunits : (polls i).units = []
      · rw [if_pos ((isBlank_captured_iff _).mpr hunits), Prod.mk.injEq]
        constructor
        · rintro ⟨-, rfl⟩
          refine ⟨i, rfl, le_rfl, by omega, ⟨hreached, hunits⟩, fun j hij hji => ?_⟩
          omega
        · rintro ⟨k, rfl, hik, -, -, hbefore⟩
          rcases eq_or_lt_of_le hik with rfl | hlt
          · exact ⟨rfl, rfl⟩
          · exact absurd hunits (hbefore i le_rfl hlt).2
      · rw [if_neg fun hb => hunits ((isBlank_captured_iff _).mp hb), ih]
        constructor
        · rintro ⟨k, hm, hik, hki, hk, hbefore⟩
          refine ⟨k, hm, by omega, by omega, hk, fun j hij hjk => ?_⟩
          rcases eq_or_lt_of_le hij with rfl | hlt
          · exact ⟨hreached, hunits⟩
          · exact hbefore j hlt hjk
        · rintro ⟨k, hm, hik, hki, hk, hbefore⟩
          have hne : i ≠ k := by
            rintro rfl
            exact hunits hk.2
          exact ⟨k, hm, by omega, by omega, hk, fun j hij hjk => hbefore j (by omega) hjk⟩
    · rw [answer_of_not_reached hreached]
      refine iff_of_false (by simp) ?_
      rintro ⟨k, -, hik, -, hk, hbefore⟩
      rcases eq_or_lt_of_le hik with rfl | hlt
      · exact hreached hk.1
      · exact hreached (hbefore i le_rfl hlt).1

/-- The polls are not more than the rounds. -/
theorem settle_polls_le (polls : ℕ → Poll) : ∀ n i, (settle polls n i).2 ≤ i + n := by
  intro n
  induction n with
  | zero => exact fun i => le_rfl
  | succ n ih =>
    intro i
    rw [settle]
    cases answer (polls i) with
    | none => exact Nat.add_le_add_left (Nat.le_add_left 1 n) i
    | some failed =>
      show ((if isBlank failed = true then _ else _ : Settling × ℕ)).2 ≤ _
      split
      · exact Nat.add_le_add_left (Nat.le_add_left 1 n) i
      · exact (ih (i + 1)).trans (by omega)

/-! ### The verdict -/

/-- The host runs what was built. -/
def Live (built running : Option String) : Prop :=
  ∃ path, built.map captured = some path ∧ running.map captured = some path

/-- The failure is excused exactly on a live generation, when the polls settle. -/
theorem excused_iff (built running : Option String) (polls : ℕ → Poll) (m : ℕ) :
    switch_exit4_recovered built running polls = ⟨0, m⟩ ↔
      Live built running ∧ settle polls 24 0 = (.settled, m) := by
  unfold switch_exit4_recovered Live
  cases built.map captured with
  | none => simp
  | some want =>
    cases running.map captured with
    | none => simp
    | some got =>
      by_cases hgot : got = want
      · subst hgot
        simp only [ne_eq, not_true_eq_false, if_false]
        rcases settle polls 24 0 with ⟨_ | _ | _, n⟩ <;> simp
      · simp only [ne_eq, hgot, not_false_eq_true, if_true]
        refine iff_of_false (by simp) ?_
        rintro ⟨⟨path, hwant, hpath⟩, -⟩
        exact hgot ((Option.some_inj.mp hpath).trans (Option.some_inj.mp hwant).symm)

theorem polls_le (built running : Option String) (polls : ℕ → Poll) :
    (switch_exit4_recovered built running polls).polls ≤ 24 := by
  have hle := settle_polls_le polls 24 0
  unfold switch_exit4_recovered
  cases built.map captured with
  | none => exact Nat.zero_le _
  | some want =>
    cases running.map captured with
    | none => exact Nat.zero_le _
    | some got =>
      show (if got ≠ want then _ else _ : Verdict).polls ≤ 24
      split
      · exact Nat.zero_le _
      · rcases hs : settle polls 24 0 with ⟨_ | _ | _, n⟩ <;> rw [hs] at hle <;> exact hle

/-- A failed switch is excused on evidence only, within 24 polls: on the generation that was
built, and on a poll whose `systemctl` succeeded and listed no failed units. -/
def OnEvidence (built running : Option String) (polls : ℕ → Poll) : Prop :=
  (switch_exit4_recovered built running polls).polls ≤ 24 ∧
    ((switch_exit4_recovered built running polls).status = 0 →
      Live built running ∧
        ∃ k < (switch_exit4_recovered built running polls).polls, (polls k).Evidence)

/-- A failed switch is excused on evidence only, exactly when the first poll that lists no unit
is one whose `systemctl` succeeded. -/
theorem recovered_on_evidence_iff (built running : Option String) (polls : ℕ → Poll) :
    OnEvidence built running polls ↔
      (Live built running → ∀ k < 24, (polls k).Quiet → (∀ j < k, (polls j).Names) →
        (polls k).systemctl = 0) := by
  constructor
  · rintro ⟨-, hev⟩ hlive k hk hquiet hbefore
    have hsettle := (settle_iff polls (k + 1) 24 0).mpr
      ⟨k, rfl, Nat.zero_le k, by omega, hquiet, fun j _ hjk => hbefore j hjk⟩
    rw [(excused_iff built running polls (k + 1)).mpr ⟨hlive, hsettle⟩] at hev
    obtain ⟨-, i, hi, -, hok, hunits⟩ := hev rfl
    -- an earlier poll has listed a unit, so it is this one
    rcases Nat.lt_succ_iff_lt_or_eq.mp hi with hlt | rfl
    · exact absurd hunits (hbefore i hlt).2
    · exact hok
  · intro h
    refine ⟨polls_le built running polls, fun hstatus => ?_⟩
    have hverdict : switch_exit4_recovered built running polls =
        ⟨0, (switch_exit4_recovered built running polls).polls⟩ := by
      rw [← hstatus]
    obtain ⟨hlive, hsettle⟩ := (excused_iff built running polls _).mp hverdict
    obtain ⟨k, hm, -, hk, hquiet, hbefore⟩ := (settle_iff polls _ 24 0).mp hsettle
    have hok := h hlive k (by omega) hquiet fun j hj => hbefore j (Nat.zero_le j) hj
    exact ⟨hlive, k, by omega, hquiet.1, hok, hquiet.2⟩

/-- A host whose `systemctl` cannot be asked: it fails and prints nothing. -/
def unanswered : Poll := { systemctl := 1, listing := "" }

/-- On a live generation that host has its failed switch excused. -/
theorem silent_failure_excused :
    ¬ OnEvidence (some "/nix/store/new") (some "/nix/store/new\n") fun _ => unanswered := by
  rintro ⟨-, h⟩
  obtain ⟨-, k, -, -, hok, -⟩ := h (by decide)
  exact absurd (show (1 : ℕ) = 0 from hok) (by decide)

end DeployNixos
