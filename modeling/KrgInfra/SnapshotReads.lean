/-
Outline group sync: a paged read, and what the server held.

The totals and the ids that a read compares do not say that it has read one table: where a row
that has been read is deleted and another is inserted, the total stays and the later rows move
up by one, so that the first row of the next page is not read at all.

* `Undisturbed` — the rows that have been read stay the first ones, or the read notices;
* `paged_reads_are_snapshots` — an undisturbed read returns the rows of one instant;
* `undisturbed_of_late` — edits of rows that come after what has been read do not disturb;
* `row_missed` — one row of the first page is deleted and one is inserted at the end.
-/
import KrgInfra.PagedReads

namespace GroupSync

section Snapshots

variable {ρ ι κ : Type} [DecidableEq ι] [LinearOrder κ] (ident : ρ → ι) (key : ρ → κ)
  (env : Schedule ρ ι) (w : Server ρ)

/-- A read raises `SyncError`, or returns the rows of a table that the server held at some
instant between the first request and the last. -/
def Snapshot (read : Read ρ (List ρ)) : Prop :=
  match outcomeOf read w with
  | (.error e, _) => ∃ text, e = .syncError text
  | (.ok rows, t) => ∃ table ∈ t.now.instants, ∀ row, row ∈ rows ↔ row ∈ table

/-- At each request the rows that have been read are still the first ones, unless a request
fails, the totals differ or a row is served twice. -/
def Undisturbed : Prop :=
  Consistent ident key env w → ∀ n, n + 1 < requests w →
    (env.tableAt ident key w (n + 1)).take (100 * (n + 1)) =
      (env.tableAt ident key w n).take (100 * (n + 1))

variable {ident key env w} {n : ℕ}

theorem table_mem_foldl (edits : List (Edit ρ ι)) : ∀ w : Server ρ, w.table ∈ w.instants →
    (edits.foldl (Server.edit ident key) w).table ∈
      (edits.foldl (Server.edit ident key) w).instants := by
  induction edits with
  | nil => exact fun _ h => h
  | cons e edits ih =>
    exact fun w _ => ih _ (List.mem_append_right _ (List.mem_singleton.mpr rfl))

/-- The table that a request is answered from is one of those since the first request. -/
theorem table_mem_instants (n : ℕ) :
    env.tableAt ident key w n ∈ (env.world ident key w (n + 1)).instants := by
  induction n with
  | zero => exact List.mem_singleton.mpr rfl
  | succ n ih => exact table_mem_foldl _ _ ih

/-- The pages of an undisturbed read are the first rows of the last table. -/
theorem readUpTo_eq_take (h : ∀ m, m < n → (env.tableAt ident key w (m + 1)).take (100 * (m + 1)) =
      (env.tableAt ident key w m).take (100 * (m + 1))) :
    env.readUpTo ident key w (n + 1) = (env.tableAt ident key w n).take (100 * (n + 1)) := by
  induction n with
  | zero => rfl
  | succ n ih =>
    have hbefore := ih fun m hm => h m (by omega)
    rw [Schedule.readUpTo, hbefore, ← h n (by omega), pageAt, ← List.take_add]
    rfl

/-- **An undisturbed read is a snapshot**: of the table that its last request is answered
from. -/
theorem paged_reads_are_snapshots (h : Undisturbed ident key env w) :
    Snapshot w (outline_list ident key env) ∧ Snapshot w (authentik_list ident key env) := by
  have hread : ∀ read : Read ρ (List ρ), ReadsPages ident key env w w read → Snapshot w read := by
    intro read hrule
    have hend := (Triple.of_start hrule trivial (s := w) rfl).2
    unfold Snapshot
    cases hr : outcomeOf read w with
    | mk r t =>
      rw [hr] at hend
      cases r with
      | error e => exact hend.1
      | ok rows =>
        obtain ⟨hconsistent, hrows, hworld⟩ := hend
        obtain ⟨n, hn⟩ := Nat.exists_eq_add_of_le' (requests_pos (w := w))
        have hall : w.table.length ≤ 100 * (n + 1) := by
          unfold requests total_pages at hn
          omega
        have htable : rows = env.tableAt ident key w n := by
          rw [hrows, hn, readUpTo_eq_take fun m hm => h hconsistent m (by omega)]
          refine List.take_of_length_le ?_
          rwa [hconsistent.count n (by omega)]
        refine ⟨env.tableAt ident key w n, ?_, fun row => by rw [htable]⟩
        show _ ∈ t.now.instants
        rw [hworld, hn]
        exact table_mem_instants n
  exact ⟨hread _ outline_list_rule, hread _ authentik_list_rule⟩

/-! ### Edits that do not disturb -/

/-- An edit of a row that comes after the first `k`. -/
def Edit.Late (ident : ρ → ι) (key : ρ → κ) (k : ℕ) (table : List ρ) : Edit ρ ι → Prop
  | .insert row => ∀ r ∈ table.take k, key r < key row
  | .delete i => ∀ r ∈ table.take k, ident r ≠ i

/-- Each of some edits comes after the first `k` rows of the table that it is made in. -/
def LateEdits (ident : ρ → ι) (key : ρ → κ) (k : ℕ) : List ρ → List (Edit ρ ι) → Prop
  | _, [] => True
  | table, e :: edits =>
    e.Late ident key k table ∧ LateEdits ident key k (e.apply ident key table) edits

theorem take_orderedInsert {k : ℕ} {row : ρ} {table : List ρ} (hk : k ≤ table.length)
    (h : ∀ r ∈ table.take k, key r < key row) :
    (table.orderedInsert (fun a b => key a ≤ key b) row).take k = table.take k := by
  induction table generalizing k with
  | nil => rw [Nat.le_zero.mp hk, List.take_zero, List.take_zero]
  | cons r table ih =>
    cases k with
    | zero => rfl
    | succ k =>
      rw [List.take_succ_cons] at h
      have hr : ¬ key row ≤ key r := not_le.mpr (h r List.mem_cons_self)
      rw [List.orderedInsert_cons, if_neg hr, List.take_succ_cons, List.take_succ_cons,
        ih (Nat.le_of_succ_le_succ hk) fun r hr => h r (List.mem_cons_of_mem _ hr)]

theorem take_filter {k : ℕ} {i : ι} {table : List ρ} (hk : k ≤ table.length)
    (h : ∀ r ∈ table.take k, ident r ≠ i) :
    (table.filter fun r => ident r ≠ i).take k = table.take k := by
  induction table generalizing k with
  | nil => rfl
  | cons r table ih =>
    cases k with
    | zero => rfl
    | succ k =>
      rw [List.take_succ_cons] at h
      rw [List.filter_cons_of_pos (by simpa using h r List.mem_cons_self), List.take_succ_cons,
        List.take_succ_cons, ih (Nat.le_of_succ_le_succ hk) fun r hr =>
          h r (List.mem_cons_of_mem _ hr)]

/-- A late edit keeps the first rows. -/
theorem Edit.Late.take {k : ℕ} {table : List ρ} {e : Edit ρ ι} (h : e.Late ident key k table)
    (hk : k ≤ table.length) : (e.apply ident key table).take k = table.take k := by
  cases e with
  | insert row =>
    show (if _ then _ else _ : List ρ).take k = _
    split_ifs
    · rfl
    · exact take_orderedInsert hk h
  | delete i => exact take_filter hk h

theorem LateEdits.take {k : ℕ} {edits : List (Edit ρ ι)} : ∀ {w : Server ρ},
    LateEdits ident key k w.table edits → k ≤ w.table.length →
      (edits.foldl (Server.edit ident key) w).table.take k = w.table.take k := by
  induction edits with
  | nil => exact fun _ _ => rfl
  | cons e edits ih =>
    rintro w ⟨he, hedits⟩ hk
    have htake : (e.apply ident key w.table).take k = w.table.take k := he.take hk
    -- the first `k` rows are still there, so the table has not become shorter than that
    have hlength : k ≤ (e.apply ident key w.table).length := by
      have hlen := congrArg List.length htake
      rw [List.length_take, List.length_take] at hlen
      omega
    exact (ih (w := w.edit ident key e) hedits hlength).trans htake

/-- A read is undisturbed if all edits during it come after what has been read. -/
theorem undisturbed_of_late (h : ∀ n, n + 1 < requests w →
      LateEdits ident key (100 * (n + 1)) (env.tableAt ident key w n) (env.edits (n + 1))) :
    Undisturbed ident key env w := by
  intro hconsistent n hn
  have hlast := (last_request (show n < requests w by omega)).2.mp hn
  refine LateEdits.take (w := env.world ident key w (n + 1)) (h n hn) ?_
  rw [show (env.world ident key w (n + 1)).table.length = _ from hconsistent.count n (by omega)]
  omega

end Snapshots

/-! ### A row that is missed -/

/-- 101 rows, of which the first request reads 100. -/
def long_table : Server ℕ where
  table := List.range 101

/-- Between the requests the last row is deleted, and one is inserted after it. -/
def late_edits : Schedule ℕ ℕ where
  edits n := if n = 1 then [.delete 100, .insert 200] else []

/-- Between the requests the first row is deleted, and one is inserted at the end. -/
def shifting_edits : Schedule ℕ ℕ where
  edits n := if n = 1 then [.delete 0, .insert 200] else []

theorem paged_reads_are_snapshots_late :
    Snapshot long_table (outline_list id id late_edits) ∧
      Snapshot long_table (authentik_list id id late_edits) := by
  refine paged_reads_are_snapshots (undisturbed_of_late fun n hn => ?_)
  obtain rfl : n = 0 := by
    have : requests long_table = 2 := by decide
    omega
  refine ⟨?_, ?_, trivial⟩
  · show ∀ r ∈ _, _
    decide +kernel
  · show ∀ r ∈ _, _
    decide +kernel

/-- Row 100 is there all the time; the second page starts with the row after it. -/
theorem row_missed :
    ¬ Snapshot long_table (outline_list id id shifting_edits) ∧
      ¬ Snapshot long_table (authentik_list id id shifting_edits) := by
  have hrequests : requests long_table = 2 := by decide
  have hconsistent : Consistent id id shifting_edits long_table := by
    rw [Consistent, hrequests]
    exact ⟨by decide, by decide +kernel, by decide +kernel⟩
  have hthere : ∀ table ∈ (shifting_edits.world id id long_table 2).instants, 100 ∈ table := by
    decide +kernel
  have hmissed : 100 ∉ shifting_edits.readUpTo id id long_table 2 := by decide +kernel
  have hread : ∀ read : Read ℕ (List ℕ), ReadsPages id id shifting_edits long_table long_table read →
      ¬ Snapshot long_table read := by
    intro read hrule hsnapshot
    have hend := (Triple.of_start hrule trivial (s := long_table) rfl).2
    unfold Snapshot at hsnapshot
    cases hr : outcomeOf read long_table with
    | mk r t =>
      rw [hr] at hend hsnapshot
      cases r with
      | error e => exact hend.2 hconsistent
      | ok rows =>
        obtain ⟨-, hrows, hworld⟩ := hend
        obtain ⟨table, hmem, hsame⟩ := hsnapshot
        rw [hrequests] at hrows hworld
        rw [show t.now = _ from hworld] at hmem
        have hread := (hsame 100).mpr (hthere table hmem)
        rw [hrows] at hread
        exact hmissed hread
  exact ⟨hread _ outline_list_rule, hread _ authentik_list_rule⟩

end GroupSync
