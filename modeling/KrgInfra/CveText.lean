/-
The vulnerability text is read back as it was written.

* `Readable` — a result whose labels are plain, and whose numbers are exact as floats;
* `FineCounts`, `FineResult`, `FinePrevious` — the same of what a scan leaves: its numbers are small;
* `fineCounts_summarize` — the counts of a report are fine;
* `splitlines_render` — the lines of the text;
* `parse_render` — what is read are the samples of the counts and of the times;
* `fine_parse`, `lookup_parse` — the entry of a target, where no other has its name.
-/
import KrgInfra.CveScan
import Mathlib.Data.List.ReduceOption

namespace CveScan

open Python

/-- Counts of distinct buckets. -/
structure FineCounts (counts : Counts) : Prop where
  nodup : (Dict.keys counts).Nodup
  plain : ∀ item ∈ counts, Plain item.1.1 ∧ Plain item.1.2
  bounded : ∀ item ∈ counts, item.2 < 2 ^ 53

structure FineResult (r : Result) : Prop where
  target : Plain r.target
  image : Plain r.image
  counts : ∀ counts, r.counts = some counts → FineCounts counts
  time : ∀ t, r.scanned_at = some t → t < 2 ^ 53

/-- The entry of a target, as it is read. -/
structure FineEntry (entry : Counts × Option ℕ) : Prop where
  counts : FineCounts entry.1
  time : ∀ t, entry.2 = some t → t < 2 ^ 53

structure FinePrevious (prev : Previous) : Prop where
  nodup : (Dict.keys prev).Nodup
  plain : ∀ item ∈ prev, Plain item.1.1 ∧ Plain item.1.2
  entry : ∀ item ∈ prev, FineEntry item.2

/-- A number that is not too large for a float. -/
def InRange (n : ℕ) : Prop := toDouble n < 2 ^ 1024

/-- A number that is a float. -/
def Exact (n : ℕ) : Prop := toDouble n = n ∧ n < 2 ^ 1024

theorem Exact.inRange {n : ℕ} (h : Exact n) : InRange n := by
  rw [InRange, h.1]
  exact h.2

/-- A result whose lines are read as they were written. -/
structure Readable (r : Result) : Prop where
  target : Plain r.target
  image : Plain r.image
  plain : ∀ counts, r.counts = some counts → ∀ item ∈ counts, Plain item.1.1 ∧ Plain item.1.2
  exact_counts : ∀ counts, r.counts = some counts → ∀ item ∈ counts, Exact item.2
  exact_time : ∀ t, r.scanned_at = some t → Exact t

/-! ### Numbers and labels -/

/-- Below `2 ^ 53` a float is exact. -/
theorem toDouble_eq_self {n : ℕ} (h : n < 2 ^ 53) : toDouble n = n := by
  have hlog : n.log2 - 52 = 0 := by
    by_cases hn : n = 0
    · subst hn
      rfl
    · have := (Nat.log2_lt hn).mpr h
      omega
  unfold toDouble
  simp only [hlog, Nat.pow_zero, Nat.mod_one, Nat.div_one]
  rw [if_neg (by omega), Nat.mul_one]

theorem toList_toString (n : ℕ) : (toString n).toList = Nat.toDigits 10 n := by
  rw [Nat.toString_eq_ofList_toDigits, String.toList_ofList]

theorem isDigit_of_mem {n : ℕ} {c : Char} (h : c ∈ (toString n).toList) : c.isDigit = true := by
  rw [toList_toString] at h
  exact Nat.isDigit_of_mem_toDigits (by omega) (by omega) h

theorem exact_of_lt {n : ℕ} (h : n < 2 ^ 53) : Exact n := by
  have hpow : 2 ^ 53 < 2 ^ 1024 :=
    Nat.pow_lt_pow_right (a := 2) (m := 53) (n := 1024) (by decide) (by decide)
  exact ⟨toDouble_eq_self h, Nat.lt_trans h hpow⟩

theorem mul_pow_lt {m e k : ℕ} (hm : m < 2 ^ 53) (hk : 53 + e ≤ k) : m * 2 ^ e < 2 ^ k :=
  calc m * 2 ^ e < 2 ^ 53 * 2 ^ e := Nat.mul_lt_mul_of_pos_right hm (Nat.two_pow_pos e)
    _ = 2 ^ (53 + e) := (Nat.pow_add 2 53 e).symm
    _ ≤ 2 ^ k := Nat.pow_le_pow_right Nat.two_pos hk

/-- A number with few digits is a float. -/
theorem toDouble_mul_pow {m e : ℕ} (hm : m < 2 ^ 53) : toDouble (m * 2 ^ e) = m * 2 ^ e := by
  by_cases hzero : m * 2 ^ e = 0
  · rw [hzero]
    rfl
  · have hlog := (Nat.log2_lt hzero).mpr (mul_pow_lt hm le_rfl)
    have hdvd : 2 ^ ((m * 2 ^ e).log2 - 52) ∣ m * 2 ^ e :=
      Nat.dvd_mul_left_of_dvd (Nat.pow_dvd_pow 2 (by omega)) m
    have hpos : 0 < 2 ^ ((m * 2 ^ e).log2 - 52) := Nat.two_pow_pos _
    unfold toDouble
    simp only [Nat.mod_eq_zero_of_dvd hdvd]
    rw [if_neg (by omega), Nat.div_mul_cancel hdvd]

theorem exact_mul_pow {m e : ℕ} (hm : m < 2 ^ 53) (he : e ≤ 971) : Exact (m * 2 ^ e) :=
  ⟨toDouble_mul_pow hm, mul_pow_lt (k := 1024) hm (by omega)⟩

theorem FineResult.readable {r : Result} (h : FineResult r) : Readable r where
  target := h.target
  image := h.image
  plain counts hcounts := (h.counts counts hcounts).plain
  exact_counts counts hcounts item hitem :=
    exact_of_lt ((h.counts counts hcounts).bounded item hitem)
  exact_time t ht := exact_of_lt (h.time t ht)

theorem readable_of_fine {results : List Result} (h : ∀ r ∈ results, FineResult r) :
    ∀ r ∈ results, Readable r := fun r hr => (h r hr).readable

/-- A number is read as the float nearest to it. -/
theorem float_toString {n : ℕ} (h : InRange n) :
    float (toString n).toList = some (toDouble n) := by
  have hne : (toString n).toList ≠ [] := by
    rw [toList_toString]
    exact Nat.toDigits_ne_nil
  have hvalue : Nat.ofDigitChars 10 (toString n).toList 0 = n := by
    rw [toList_toString, Nat.ofDigitChars_ten_toDigits]
  unfold float
  rw [if_pos ⟨hne, fun c hc => isDigit_of_mem hc⟩]
  simp only [hvalue]
  exact if_pos h

/-- A digit is no white space, no quote and no line break. -/
theorem digit_facts {c : Char} (h : c.isDigit = true) :
    isspace c = false ∧ c ≠ '"' ∧ isLineBreak c = false := by
  have hrange : 48 ≤ c.toNat ∧ c.toNat ≤ 57 := by
    simp only [Char.isDigit, Bool.and_eq_true, decide_eq_true_eq, UInt32.le_iff_toNat_le,
      ge_iff_le] at h
    exact ⟨h.1, h.2⟩
  refine ⟨?_, ?_, ?_⟩
  · simp only [isspace]
    simp
    omega
  · rintro rfl
    exact absurd hrange.1 (by decide)
  · simp only [isLineBreak]
    simp
    omega

theorem value_toString (n : ℕ) : Prom.Value (toString n) := by
  constructor
  · rw [toList_toString]
    exact Nat.toDigits_ne_nil
  · exact fun c hc => digit_facts (isDigit_of_mem hc)

theorem value_ok (ok : Bool) : Prom.Value (if ok then "1" else "0") := by
  cases ok
  · exact ⟨by decide, by decide⟩
  · exact ⟨by decide, by decide⟩

theorem word_names : Prom.Word VULNERABILITIES ∧ Prom.Word SUCCESS ∧ Prom.Word TIMESTAMP ∧
    Prom.Word DB_BUILT :=
  ⟨⟨by decide, by decide⟩, ⟨by decide, by decide⟩, ⟨by decide, by decide⟩,
    ⟨by decide, by decide⟩⟩

theorem word_labels : Prom.Word "fix" ∧ Prom.Word "image" ∧ Prom.Word "severity" ∧
    Prom.Word "target" :=
  ⟨⟨by decide, by decide⟩, ⟨by decide, by decide⟩, ⟨by decide, by decide⟩,
    ⟨by decide, by decide⟩⟩

/-- Labels whose names are words and whose values are plain. -/
def PlainLabels (labels : Prom.Labels) : Prop := ∀ kv ∈ labels, Prom.Word kv.1 ∧ Plain kv.2

theorem PlainLabels.readable {labels : Prom.Labels} (h : PlainLabels labels) :
    Prom.Readable labels :=
  fun kv hkv => ⟨(h kv hkv).1, fun hq => ((h kv hkv).2 _ hq).1 rfl⟩

theorem PlainLabels.no_break {labels : Prom.Labels} (h : PlainLabels labels) :
    ∀ kv ∈ labels, Prom.Word kv.1 ∧ ∀ c ∈ kv.2.toList, isLineBreak c = false :=
  fun kv hkv => ⟨(h kv hkv).1, fun c hc => ((h kv hkv).2 c hc).2⟩

section Labels

variable {key sf : String × String} (hkey : Plain key.1 ∧ Plain key.2)
include hkey

theorem plain_targetLabels : PlainLabels (targetLabels key) := by
  intro kv hkv
  simp only [targetLabels, List.mem_cons, List.not_mem_nil, or_false] at hkv
  obtain rfl | rfl := hkv
  · exact ⟨word_labels.2.1, hkey.2⟩
  · exact ⟨word_labels.2.2.2, hkey.1⟩

theorem plain_bucketLabels (hsf : Plain sf.1 ∧ Plain sf.2) : PlainLabels (bucketLabels key sf) := by
  intro kv hkv
  simp only [bucketLabels, List.mem_cons, List.not_mem_nil, or_false] at hkv
  obtain rfl | rfl | rfl | rfl := hkv
  · exact ⟨word_labels.1, hsf.2⟩
  · exact ⟨word_labels.2.1, hkey.2⟩
  · exact ⟨word_labels.2.2.1, hsf.1⟩
  · exact ⟨word_labels.2.2.2, hkey.1⟩

end Labels

/-! ### The counts of a report -/

theorem plain_of_mem_severities {s : String} (h : s ∈ SEVERITIES) : Plain s := by
  simp only [SEVERITIES, List.mem_cons, List.not_mem_nil, or_false] at h
  obtain rfl | rfl | rfl | rfl | rfl | rfl := h <;> unfold Plain <;> decide

theorem plain_of_mem_fixes {s : String} (h : s ∈ FIXES) : Plain s := by
  simp only [FIXES, List.mem_cons, List.not_mem_nil, or_false] at h
  obtain rfl | rfl := h <;> unfold Plain <;> decide

theorem bucket_mem (m : Match) : (bucket m).1 ∈ SEVERITIES ∧ (bucket m).2 ∈ FIXES := by
  unfold bucket
  constructor
  · dsimp only
    split_ifs with h
    · exact h
    · decide
  · dsimp only
    split_ifs
    · decide
    · decide

/-- The buckets stay those of the table, and a count is at most the number of matches. -/
structure Tallied (counts : Counts) (n : ℕ) : Prop where
  nodup : (Dict.keys counts).Nodup
  buckets : ∀ item ∈ counts, item.1.1 ∈ SEVERITIES ∧ item.1.2 ∈ FIXES
  bounded : ∀ item ∈ counts, item.2 ≤ n

theorem Tallied.tally {state : Counts × List (Option String × Option String × Option String)}
    {n : ℕ} (h : Tallied state.1 n) (m : Match) : Tallied (CveScan.tally state m).1 (n + 1) := by
  have hold : Tallied state.1 (n + 1) :=
    ⟨h.nodup, h.buckets, fun item hitem => Nat.le_succ_of_le (h.bounded item hitem)⟩
  unfold CveScan.tally
  dsimp only
  split_ifs with hseen
  · exact hold
  · have hcount : (state.1.lookup (bucket m)).getD 0 ≤ n := by
      cases hlookup : state.1.lookup (bucket m) with
      | none => exact Nat.zero_le n
      | some k => exact h.bounded _ (Dict.mem_of_lookup hlookup)
    refine ⟨Dict.nodup_keys_set h.nodup _ _, fun item hitem => ?_, fun item hitem => ?_⟩
    · obtain rfl | hitem := Dict.mem_set hitem
      · exact bucket_mem m
      · exact h.buckets item hitem
    · obtain rfl | hitem := Dict.mem_set hitem
      · exact Nat.succ_le_succ hcount
      · exact hold.bounded item hitem

theorem tallied_summarize (report : Report) :
    Tallied (summarize report) report.allMatches.length := by
  have hfold : ∀ (ms : List Match) state n, Tallied state.1 n →
      Tallied (ms.foldl tally state).1 (n + ms.length) := by
    intro ms
    induction ms with
    | nil => exact fun _ _ h => h
    | cons m ms ih =>
      intro state n h
      have := ih (tally state m) (n + 1) (h.tally m)
      rwa [Nat.add_right_comm] at this
  have hstart : Tallied noCounts 0 := ⟨by decide, by decide, by decide⟩
  have := hfold report.allMatches (noCounts, []) 0 hstart
  rwa [Nat.zero_add] at this

theorem fineCounts_summarize (report : Report) : FineCounts (summarize report) := by
  obtain ⟨hnodup, hbuckets, hbounded⟩ := tallied_summarize report
  refine ⟨hnodup, fun item hitem => ?_, fun item hitem => ?_⟩
  · exact ⟨plain_of_mem_severities (hbuckets item hitem).1,
      plain_of_mem_fixes (hbuckets item hitem).2⟩
  · exact lt_of_le_of_lt (hbounded item hitem) report.bounded

/-! ### Lines -/

section Lines

variable {key : String × String} (hkey : Plain key.1 ∧ Plain key.2)
include hkey

theorem readLine_rounded {item : (String × String) × ℕ} (hitem : Plain item.1.1 ∧ Plain item.1.2)
    (hn : InRange item.2) :
    readLine (countLine key item) = some (some (key, .count item.1 (toDouble item.2))) := by
  have hlabels := Prom.findLabels_eq_self (plain_bucketLabels hkey hitem).readable
  unfold readLine countLine
  rw [Prom.matchSample_sample (value_toString _)]
  simp only [hlabels, float_toString hn]
  rfl

theorem readLine_countLine {item : (String × String) × ℕ} (hitem : Plain item.1.1 ∧ Plain item.1.2)
    (hn : Exact item.2) :
    readLine (countLine key item) = some (some (key, .count item.1 item.2)) := by
  have hread := readLine_rounded hkey hitem hn.inRange
  rwa [hn.1] at hread

theorem readLine_timestampLine {t : ℕ} (ht : Exact t) :
    readLine (timestampLine key t) = some (some (key, .time t)) := by
  have hlabels := Prom.findLabels_eq_self (plain_targetLabels hkey).readable
  have hfloat := float_toString ht.inRange
  rw [ht.1] at hfloat
  unfold readLine timestampLine
  rw [Prom.matchSample_other word_names.1 word_names.2.2.1 (by decide),
    Prom.matchSample_sample (value_toString _)]
  simp only [hlabels, hfloat]
  rfl

end Lines

/-- A line of no metric that is read. -/
theorem readLine_other {line : String}
    (hv : ¬ (VULNERABILITIES.toList ++ ['{']) <+: line.toList)
    (ht : ¬ (TIMESTAMP.toList ++ ['{']) <+: line.toList) : readLine line = some none := by
  unfold readLine
  rw [Prom.matchSample_of_not_prefix hv, Prom.matchSample_of_not_prefix ht]

theorem readLine_successLine (key : String × String) (ok : Bool) :
    readLine (successLine key ok) = some none := by
  unfold readLine successLine
  rw [Prom.matchSample_other word_names.1 word_names.2.1 (by decide),
    Prom.matchSample_other word_names.2.2.1 word_names.2.1 (by decide)]

theorem not_prefix_of_head {p l : List Char} (hp : p ≠ []) (h : p.head? ≠ l.head?) : ¬ p <+: l := by
  rintro ⟨rest, rfl⟩
  exact h (List.head?_append_of_ne_nil p hp).symm

/-- A comment is not read. -/
theorem readLine_comment (rest : List Char) :
    readLine (String.ofList ('#' :: rest)) = some none := by
  refine readLine_other ?_ ?_
  · rw [String.toList_ofList]
    exact not_prefix_of_head (by decide) (by rw [List.head?_cons]; decide)
  · rw [String.toList_ofList]
    exact not_prefix_of_head (by decide) (by rw [List.head?_cons]; decide)

theorem readLine_comments (a b : List Char) :
    ∀ line ∈ [String.ofList ('#' :: a), String.ofList ('#' :: b)], readLine line = some none := by
  intro line hline
  simp only [List.mem_cons, List.not_mem_nil, or_false] at hline
  obtain rfl | rfl := hline
  · exact readLine_comment a
  · exact readLine_comment b

/-- A line that starts with another text of the same length. -/
theorem not_prefix_append {p l : List Char} (hlength : p.length ≤ l.length) (h : ¬ p <+: l)
    (rest : List Char) : ¬ p <+: l ++ rest :=
  fun hp => h (List.prefix_of_prefix_length_le hp (List.prefix_append _ _) hlength)

/-- What is written about the database is not read. -/
theorem readLine_dbLines (db_built : Option ℕ) :
    ∀ line ∈ dbLines db_built, readLine line = some none := by
  intro line hline
  cases db_built with
  | none => exact nomatch hline
  | some built =>
    rw [dbLines] at hline
    split_ifs at hline
    · exact nomatch hline
    · simp only [List.mem_cons, List.not_mem_nil, or_false] at hline
      obtain rfl | rfl | rfl := hline
      · exact readLine_comment _
      · exact readLine_comment _
      · refine readLine_other ?_ ?_
        · rw [String.toList_append, String.toList_append, List.append_assoc]
          exact not_prefix_append (by decide) (by decide) _
        · rw [String.toList_append, String.toList_append, List.append_assoc]
          exact not_prefix_append (by decide) (by decide) _

/-! ### The lines of the text -/

/-- A line that `splitlines` leaves whole. -/
def Whole (line : String) : Prop := ∀ c ∈ line.toList, isLineBreak c = false

/-- A literal without line breaks. -/
theorem whole_ofList {l : List Char} (h : ∀ c ∈ l, isLineBreak c = false) :
    Whole (String.ofList l) := by
  rwa [Whole, String.toList_ofList]

theorem whole_pair {a b : List Char} (ha : ∀ c ∈ a, isLineBreak c = false)
    (hb : ∀ c ∈ b, isLineBreak c = false) :
    ∀ line ∈ [String.ofList a, String.ofList b], Whole line := by
  intro line hline
  simp only [List.mem_cons, List.not_mem_nil, or_false] at hline
  obtain rfl | rfl := hline
  · exact whole_ofList ha
  · exact whole_ofList hb

theorem whole_dbLines (db_built : Option ℕ) : ∀ line ∈ dbLines db_built, Whole line := by
  intro line hline
  cases db_built with
  | none => exact nomatch hline
  | some built =>
    rw [dbLines] at hline
    split_ifs at hline
    · exact nomatch hline
    · simp only [List.mem_cons, List.not_mem_nil, or_false] at hline
      obtain rfl | rfl | rfl := hline
      · exact whole_ofList (by decide)
      · exact whole_ofList (by decide)
      · intro c hc
        simp only [String.toList_append, List.mem_append] at hc
        obtain (hc | hc) | hc := hc
        · exact Prom.not_break_of_isWord (word_names.2.2.2.2 c hc)
        · revert hc
          revert c
          decide
        · exact (digit_facts (isDigit_of_mem hc)).2.2

theorem Readable.key {r : Result} (h : Readable r) : Plain r.key.1 ∧ Plain r.key.2 :=
  ⟨h.target, h.image⟩

/-- The lines of the text, from those of the three metrics. -/
def textLines (counts success times : List String) (db_built : Option ℕ) : List String :=
  ["# HELP krg_cve_vulnerabilities Vulnerability matches by severity and fix availability (grype).",
    "# TYPE krg_cve_vulnerabilities gauge"] ++
  counts ++
  ["# HELP krg_cve_scan_success Whether this target was scanned successfully on the last run.",
    "# TYPE krg_cve_scan_success gauge"] ++
  success ++
  ["# HELP krg_cve_scan_timestamp_seconds Time of the last successful scan of this target.",
    "# TYPE krg_cve_scan_timestamp_seconds gauge"] ++
  times ++
  dbLines db_built

theorem metricLines_eq (results : List Result) (db_built : Option ℕ) :
    metricLines results db_built =
      textLines (results.flatMap countLines) (results.map fun r => successLine r.key r.ok)
        (results.flatMap timestampLines) db_built := rfl

theorem whole_textLines {counts success times : List String} (hcounts : ∀ l ∈ counts, Whole l)
    (hsuccess : ∀ l ∈ success, Whole l) (htimes : ∀ l ∈ times, Whole l) (db_built : Option ℕ) :
    ∀ line ∈ textLines counts success times db_built, Whole line := by
  intro line hline
  simp only [textLines, List.mem_append, or_assoc] at hline
  obtain hline | hline | hline | hline | hline | hline | hline := hline
  · exact whole_pair (by decide) (by decide) line hline
  · exact hcounts line hline
  · exact whole_pair (by decide) (by decide) line hline
  · exact hsuccess line hline
  · exact whole_pair (by decide) (by decide) line hline
  · exact htimes line hline
  · exact whole_dbLines db_built line hline

section Whole

variable {key : String × String} (hkey : Plain key.1 ∧ Plain key.2)
include hkey

theorem whole_countLine {item : (String × String) × ℕ} (hitem : Plain item.1.1 ∧ Plain item.1.2) :
    Whole (countLine key item) :=
  Prom.sample_no_break word_names.1 (plain_bucketLabels hkey hitem).no_break
    fun c hc => ((value_toString _).2 c hc).2.2

theorem whole_successLine (ok : Bool) : Whole (successLine key ok) :=
  Prom.sample_no_break word_names.2.1 (plain_targetLabels hkey).no_break
    fun c hc => ((value_ok _).2 c hc).2.2

theorem whole_timestampLine (t : ℕ) : Whole (timestampLine key t) :=
  Prom.sample_no_break word_names.2.2.1 (plain_targetLabels hkey).no_break
    fun c hc => ((value_toString _).2 c hc).2.2

end Whole

theorem mem_countLines {r : Result} {line : String} (h : line ∈ countLines r) :
    ∃ counts, r.counts = some counts ∧ ∃ item ∈ counts, line = countLine r.key item := by
  unfold countLines at h
  cases hcounts : r.counts with
  | none =>
    rw [hcounts] at h
    exact nomatch h
  | some counts =>
    rw [hcounts] at h
    obtain ⟨item, hitem, rfl⟩ := List.mem_map.mp h
    exact ⟨counts, rfl, item, (List.mem_insertionSort _).mp hitem, rfl⟩

theorem mem_timestampLines {r : Result} {line : String} (h : line ∈ timestampLines r) :
    ∃ t, r.scanned_at = some t ∧ line = timestampLine r.key t := by
  unfold timestampLines at h
  cases htime : r.scanned_at with
  | none =>
    rw [htime] at h
    exact nomatch h
  | some t =>
    simp only [htime] at h
    split_ifs at h
    · exact nomatch h
    · exact ⟨t, rfl, List.mem_singleton.mp h⟩

theorem whole_metricLines {results : List Result} (h : ∀ r ∈ results, Readable r)
    (db_built : Option ℕ) : ∀ line ∈ metricLines results db_built, Whole line := by
  refine whole_textLines (fun line hline => ?_) (fun line hline => ?_) (fun line hline => ?_)
    db_built
  · obtain ⟨r, hr, hline⟩ := List.mem_flatMap.mp hline
    obtain ⟨counts, hcounts, item, hitem, rfl⟩ := mem_countLines hline
    exact whole_countLine (h r hr).key ((h r hr).plain counts hcounts item hitem)
  · obtain ⟨r, hr, rfl⟩ := List.mem_map.mp hline
    exact whole_successLine (h r hr).key r.ok
  · obtain ⟨r, hr, hline⟩ := List.mem_flatMap.mp hline
    obtain ⟨t, _, rfl⟩ := mem_timestampLines hline
    exact whole_timestampLine (h r hr).key t

/-- The text is read line by line as it was written. -/
theorem splitlines_render {results : List Result} (h : ∀ r ∈ results, Readable r)
    (db_built : Option ℕ) :
    splitlines (render_metrics results db_built) = metricLines results db_built :=
  splitlines_unlines (whole_metricLines h db_built)

/-! ### What is read -/

/-- The samples that `parse_previous` takes from some lines. -/
def Reads (lines : List String) (samples : List ((String × String) × Datum)) : Prop :=
  (lines.mapM readLine).map List.reduceOption = some samples

theorem Reads.append {lines more : List String} {samples rest : List ((String × String) × Datum)}
    (h : Reads lines samples) (hmore : Reads more rest) : Reads (lines ++ more) (samples ++ rest) := by
  unfold Reads at h hmore ⊢
  obtain ⟨read, hread, rfl⟩ := Option.map_eq_some_iff.mp h
  obtain ⟨next, hnext, rfl⟩ := Option.map_eq_some_iff.mp hmore
  rw [List.mapM_append, hread, hnext]
  exact congrArg some (List.reduceOption_append _ _)

theorem reads_nil : Reads [] [] := rfl

theorem Reads.cons {line : String} {lines : List String} {sample : (String × String) × Datum}
    {samples : List ((String × String) × Datum)} (hline : readLine line = some (some sample))
    (h : Reads lines samples) : Reads (line :: lines) (sample :: samples) := by
  unfold Reads at h ⊢
  obtain ⟨read, hread, rfl⟩ := Option.map_eq_some_iff.mp h
  rw [List.mapM_cons, hline, hread]
  exact congrArg some (List.reduceOption_cons_of_some _ _)

/-- Lines that say nothing. -/
theorem reads_other {lines : List String} (h : ∀ line ∈ lines, readLine line = some none) :
    Reads lines [] := by
  induction lines with
  | nil => exact reads_nil
  | cons line lines ih =>
    obtain ⟨read, hread, hnone⟩ :=
      Option.map_eq_some_iff.mp (ih fun l hl => h l (List.mem_cons_of_mem _ hl))
    unfold Reads
    rw [List.mapM_cons, h line List.mem_cons_self, hread]
    exact congrArg some ((List.reduceOption_cons_of_none _).trans hnone)

theorem Reads.append_other {lines more : List String}
    {samples : List ((String × String) × Datum)} (h : Reads lines samples)
    (hmore : ∀ line ∈ more, readLine line = some none) : Reads (lines ++ more) samples := by
  have := h.append (reads_other hmore)
  rwa [List.append_nil] at this

/-- What a line says is among the samples. -/
theorem Reads.mem {lines : List String} {samples : List ((String × String) × Datum)}
    (h : Reads lines samples) {line : String} (hline : line ∈ lines)
    {sample : (String × String) × Datum} (hsample : readLine line = some (some sample)) :
    sample ∈ samples := by
  have hread : ∀ read, lines.mapM readLine = some read → some sample ∈ read := by
    clear h
    induction lines with
    | nil => exact nomatch hline
    | cons first lines ih =>
      intro read hread
      rw [List.mapM_cons] at hread
      obtain ⟨x, hx, hread⟩ := Option.bind_eq_some_iff.mp hread
      obtain ⟨xs, hxs, hread⟩ := Option.bind_eq_some_iff.mp hread
      obtain rfl := Option.some_inj.mp hread
      obtain rfl | hline := List.mem_cons.mp hline
      · rw [hsample] at hx
        exact Option.some_inj.mp hx ▸ List.mem_cons_self
      · exact List.mem_cons_of_mem _ (ih hline xs hxs)
  obtain ⟨read, hall, rfl⟩ := Option.map_eq_some_iff.mp h
  exact List.mem_filterMap.mpr ⟨some sample, hread read hall, rfl⟩

/-- Lines that are written from some items. -/
theorem reads_map {α : Type} {items : List α} {line : α → String}
    {sample : α → (String × String) × Datum}
    (h : ∀ item ∈ items, readLine (line item) = some (some (sample item))) :
    Reads (items.map line) (items.map sample) := by
  induction items with
  | nil => exact reads_nil
  | cons item items ih =>
    exact Reads.cons (h item List.mem_cons_self) (ih fun i hi => h i (List.mem_cons_of_mem _ hi))

theorem reads_flatMap {α : Type} {items : List α} {lines : α → List String}
    {samples : α → List ((String × String) × Datum)}
    (h : ∀ item ∈ items, Reads (lines item) (samples item)) :
    Reads (items.flatMap lines) (items.flatMap samples) := by
  induction items with
  | nil => exact reads_nil
  | cons item items ih =>
    rw [List.flatMap_cons, List.flatMap_cons]
    exact (h item List.mem_cons_self).append (ih fun i hi => h i (List.mem_cons_of_mem _ hi))

/-- What the count lines of a target say. -/
def countSamples (r : Result) : List ((String × String) × Datum) :=
  match r.counts with
  | none => []
  | some counts => (counts.insertionSort BucketLe).map fun item => (r.key, .count item.1 item.2)

/-- What the time line of a target says. -/
def timeSamples (r : Result) : List ((String × String) × Datum) :=
  match r.scanned_at with
  | none => []
  | some t => if t = 0 then [] else [(r.key, .time t)]

theorem reads_countLines {r : Result} (h : Readable r) :
    Reads (countLines r) (countSamples r) := by
  unfold countLines countSamples
  cases hcounts : r.counts with
  | none => exact reads_nil
  | some counts =>
    refine reads_map fun item hitem => ?_
    have hitem := (List.mem_insertionSort _).mp hitem
    exact readLine_countLine h.key (h.plain counts hcounts item hitem)
      (h.exact_counts counts hcounts item hitem)

theorem reads_timestampLines {r : Result} (h : Readable r) :
    Reads (timestampLines r) (timeSamples r) := by
  unfold timestampLines timeSamples
  cases htime : r.scanned_at with
  | none => exact reads_nil
  | some t =>
    dsimp only
    split_ifs
    · exact reads_nil
    · exact Reads.cons (readLine_timestampLine h.key (h.exact_time t htime)) reads_nil

/-- All samples that are read. -/
def samplesOf (results : List Result) : List ((String × String) × Datum) :=
  results.flatMap countSamples ++ results.flatMap timeSamples

theorem reads_textLines {counts success times : List String}
    {countSamples timeSamples : List ((String × String) × Datum)} (hcounts : Reads counts countSamples)
    (hsuccess : ∀ line ∈ success, readLine line = some none) (htimes : Reads times timeSamples)
    (db_built : Option ℕ) :
    Reads (textLines counts success times db_built) (countSamples ++ timeSamples) := by
  unfold textLines
  refine Reads.append_other ?_ (readLine_dbLines db_built)
  refine Reads.append ?_ htimes
  refine Reads.append_other ?_ (readLine_comments _ _)
  refine Reads.append_other ?_ hsuccess
  refine Reads.append_other ?_ (readLine_comments _ _)
  exact (reads_other (readLine_comments _ _)).append hcounts

theorem reads_metricLines {results : List Result} (h : ∀ r ∈ results, Readable r)
    (db_built : Option ℕ) : Reads (metricLines results db_built) (samplesOf results) := by
  refine reads_textLines (reads_flatMap fun r hr => reads_countLines (h r hr)) (fun line hline => ?_)
    (reads_flatMap fun r hr => reads_timestampLines (h r hr)) db_built
  obtain ⟨r, _, rfl⟩ := List.mem_map.mp hline
  exact readLine_successLine r.key r.ok

/-- Lines that are read one by one. -/
theorem parse_lines {lines : List String} {samples : List ((String × String) × Datum)}
    (hwhole : ∀ line ∈ lines, Whole line) (h : Reads lines samples) :
    parse_previous (unlines lines) = some (samples.foldl (Dict.update Prod.fst store) []) := by
  obtain ⟨read, hread, hsamples⟩ := Option.map_eq_some_iff.mp h
  unfold parse_previous
  rw [splitlines_unlines hwhole, hread]
  exact congrArg (fun s => some (s.foldl (Dict.update Prod.fst store) [])) hsamples

theorem parse_render {results : List Result} (h : ∀ r ∈ results, Readable r)
    (db_built : Option ℕ) : parse_previous (render_metrics results db_built) =
      some ((samplesOf results).foldl (Dict.update Prod.fst store) []) :=
  parse_lines (whole_metricLines h db_built) (reads_metricLines h db_built)

/-! ### The entries -/

structure FineSample (sample : (String × String) × Datum) : Prop where
  key : Plain sample.1.1 ∧ Plain sample.1.2
  count : ∀ b n, sample.2 = .count b n → (Plain b.1 ∧ Plain b.2) ∧ n < 2 ^ 53
  time : ∀ t, sample.2 = .time t → t < 2 ^ 53

theorem FineCounts.set {counts : Counts} (h : FineCounts counts) {b : String × String}
    (hb : Plain b.1 ∧ Plain b.2) {n : ℕ} (hn : n < 2 ^ 53) : FineCounts (Dict.set counts b n) := by
  refine ⟨Dict.nodup_keys_set h.nodup _ _, fun item hitem => ?_, fun item hitem => ?_⟩
  · obtain rfl | hitem := Dict.mem_set hitem
    · exact hb
    · exact h.plain item hitem
  · obtain rfl | hitem := Dict.mem_set hitem
    · exact hn
    · exact h.bounded item hitem

theorem fineCounts_nil : FineCounts [] :=
  ⟨List.nodup_nil, fun _ h => (nomatch h), fun _ h => nomatch h⟩

theorem fine_store {entry : Option (Counts × Option ℕ)} (hentry : ∀ e, entry = some e → FineEntry e)
    {sample : (String × String) × Datum} (hsample : FineSample sample) :
    FineEntry (store entry sample) := by
  have hold : FineEntry (entry.getD ([], none)) := by
    cases entry with
    | none => exact ⟨fineCounts_nil, fun _ h => nomatch h⟩
    | some e => exact hentry e rfl
  obtain ⟨key, datum⟩ := sample
  cases datum with
  | count b n =>
    obtain ⟨hb, hn⟩ := hsample.count b n rfl
    exact ⟨hold.counts.set hb hn, hold.time⟩
  | time t => exact ⟨hold.counts, fun t' ht => Option.some_inj.mp ht ▸ hsample.time t rfl⟩

theorem finePrevious_nil : FinePrevious [] :=
  ⟨List.nodup_nil, fun _ h => (nomatch h), fun _ h => nomatch h⟩

theorem fine_fold {samples : List ((String × String) × Datum)} (h : ∀ s ∈ samples, FineSample s) :
    ∀ {prev : Previous}, FinePrevious prev →
      FinePrevious (samples.foldl (Dict.update Prod.fst store) prev) := by
  induction samples with
  | nil => exact fun hprev => hprev
  | cons s samples ih =>
    intro prev hprev
    refine ih (fun s' hs' => h s' (List.mem_cons_of_mem _ hs')) ?_
    have hs := h s List.mem_cons_self
    have hstored : FineEntry (store (prev.lookup s.1) s) :=
      fine_store (fun e he => hprev.entry _ (Dict.mem_of_lookup he)) hs
    refine ⟨Dict.nodup_keys_set hprev.nodup _ _, fun item hitem => ?_, fun item hitem => ?_⟩
    · obtain rfl | hitem := Dict.mem_set hitem
      · exact hs.key
      · exact hprev.plain item hitem
    · obtain rfl | hitem := Dict.mem_set hitem
      · exact hstored
      · exact hprev.entry item hitem

theorem fine_samplesOf {results : List Result} (h : ∀ r ∈ results, FineResult r) :
    ∀ s ∈ samplesOf results, FineSample s := by
  intro s hs
  obtain hs | hs := List.mem_append.mp hs
  · obtain ⟨r, hr, hs⟩ := List.mem_flatMap.mp hs
    unfold countSamples at hs
    cases hcounts : r.counts with
    | none =>
      rw [hcounts] at hs
      exact nomatch hs
    | some counts =>
      rw [hcounts] at hs
      obtain ⟨item, hitem, rfl⟩ := List.mem_map.mp hs
      have hitem := (List.mem_insertionSort _).mp hitem
      have hfine := (h r hr).counts counts hcounts
      refine ⟨(h r hr).readable.key, fun b n hb => ?_, fun t ht => nomatch ht⟩
      obtain ⟨rfl, rfl⟩ := Datum.count.inj hb
      exact ⟨hfine.plain item hitem, hfine.bounded item hitem⟩
  · obtain ⟨r, hr, hs⟩ := List.mem_flatMap.mp hs
    unfold timeSamples at hs
    cases htime : r.scanned_at with
    | none =>
      rw [htime] at hs
      exact nomatch hs
    | some t =>
      simp only [htime] at hs
      split_ifs at hs
      · exact nomatch hs
      · obtain rfl := List.mem_singleton.mp hs
        refine ⟨(h r hr).readable.key, fun _ _ hb => (nomatch hb), fun t' ht => ?_⟩
        exact Datum.time.inj ht ▸ (h r hr).time t htime

/-- What is read from the text of fine results is fine. -/
theorem fine_parse {results : List Result} (h : ∀ r ∈ results, FineResult r)
    (db_built : Option ℕ) : ∃ prev, parse_previous (render_metrics results db_built) = some prev ∧
      FinePrevious prev :=
  ⟨_, parse_render (readable_of_fine h) db_built, fine_fold (fine_samplesOf h) finePrevious_nil⟩

/-- Counts of new buckets are stored one after the other. -/
theorem fold_counts (key : String × String) (ts : Option ℕ) (counts : Counts) :
    ∀ old : Counts, (Dict.keys (old ++ counts)).Nodup →
      (counts.map fun item => (key, Datum.count item.1 item.2)).foldl
        (fun value c => some (store value c)) (some (old, ts)) = some (old ++ counts, ts) := by
  induction counts with
  | nil =>
    intro old _
    rw [List.append_nil]
    rfl
  | cons item counts ih =>
    intro old hnodup
    have hnew : item.1 ∉ Dict.keys old := by
      intro hmem
      rw [Dict.keys, List.map_append, List.map_cons] at hnodup
      exact List.disjoint_of_nodup_append hnodup hmem List.mem_cons_self
    have hstore : store (some (old, ts)) (key, .count item.1 item.2) = (old ++ [item], ts) :=
      congrArg (·, ts) (Dict.set_of_not_mem hnew _)
    rw [List.map_cons, List.foldl_cons, hstore, ih (old ++ [item]) (by rwa [List.append_assoc]),
      List.append_assoc]
    rfl

/-- What is read of some targets: their counts, and then their times. -/
structure Targets (α : Type) where
  key : α → String × String
  counts : α → Counts
  time : α → Option ℕ

namespace Targets

variable {α : Type} (T : Targets α)

def countSamples (a : α) : List ((String × String) × Datum) :=
  (T.counts a).map fun item => (T.key a, .count item.1 item.2)

def timeSamples (a : α) : List ((String × String) × Datum) :=
  (T.time a).toList.map fun t => (T.key a, .time t)

def samples (l : List α) : List ((String × String) × Datum) :=
  l.flatMap T.countSamples ++ l.flatMap T.timeSamples

/-- The entry that is read of a target. -/
def entry (a : α) : Option (Counts × Option ℕ) :=
  if T.counts a = [] ∧ T.time a = none then none else some (T.counts a, T.time a)

variable {T}

theorem key_of_mem_countSamples (a : α) : ∀ s ∈ T.countSamples a, s.1 = T.key a := by
  intro s hs
  obtain ⟨item, _, rfl⟩ := List.mem_map.mp hs
  rfl

theorem key_of_mem_timeSamples (a : α) : ∀ s ∈ T.timeSamples a, s.1 = T.key a := by
  intro s hs
  obtain ⟨t, _, rfl⟩ := List.mem_map.mp hs
  rfl

/-- The samples of one of some targets with different keys. -/
theorem filter_flatMap {f : α → List ((String × String) × Datum)}
    (hf : ∀ a, ∀ s ∈ f a, s.1 = T.key a) {l : List α} (hnodup : (l.map T.key).Nodup) {a : α}
    (ha : a ∈ l) : ((l.flatMap f).filter fun s => s.1 = T.key a) = f a := by
  have hself : ∀ a : α, ((f a).filter fun s => s.1 = T.key a) = f a := fun a =>
    List.filter_eq_self.mpr fun s hs => by simpa using hf a s hs
  have hother : ∀ b : α, T.key b ≠ T.key a → ((f b).filter fun s => s.1 = T.key a) = [] :=
    fun b hne => List.filter_eq_nil_iff.mpr fun s hs => by simpa [hf b s hs] using hne
  induction l with
  | nil => exact nomatch ha
  | cons first l ih =>
    rw [List.map_cons, List.nodup_cons] at hnodup
    rw [List.flatMap_cons, List.filter_append]
    obtain rfl | ha := List.mem_cons.mp ha
    · have hnone : ((l.flatMap f).filter fun s => s.1 = T.key a) = [] := by
        refine List.filter_eq_nil_iff.mpr fun s hs => ?_
        obtain ⟨b, hb, hs⟩ := List.mem_flatMap.mp hs
        have hne : T.key b ≠ T.key a := fun he => hnodup.1 (List.mem_map.mpr ⟨b, hb, he⟩)
        simpa [hf b s hs] using hne
      rw [hnone, hself, List.append_nil]
    · have hne : T.key first ≠ T.key a := fun he => hnodup.1 (List.mem_map.mpr ⟨a, ha, he.symm⟩)
      rw [hother first hne, ih hnodup.2 ha, List.nil_append]

/-- The time is stored after the counts. -/
theorem fold_samples {a : α} (h : (Dict.keys (T.counts a)).Nodup) :
    (T.countSamples a ++ T.timeSamples a).foldl (fun value c => some (store value c)) none =
      T.entry a := by
  rw [List.foldl_append, countSamples, timeSamples, entry]
  cases hcounts : T.counts a with
  | nil => cases T.time a <;> rfl
  | cons item counts =>
    have hfirst : store none (T.key a, .count item.1 item.2) = ([item], none) := rfl
    rw [hcounts] at h
    rw [List.map_cons, List.foldl_cons, hfirst, fold_counts (T.key a) none counts [item] h,
      if_neg fun hnil => List.cons_ne_nil _ _ hnil.1]
    cases T.time a <;> rfl

/-- The entry of a target, where no other target has its key. -/
theorem lookup_samples {l : List α} (hnodup : (l.map T.key).Nodup) {a : α} (ha : a ∈ l)
    (hkeys : (Dict.keys (T.counts a)).Nodup) :
    ((T.samples l).foldl (Dict.update Prod.fst store) []).lookup (T.key a) = T.entry a := by
  rw [Dict.lookup_foldl, samples, List.filter_append,
    filter_flatMap key_of_mem_countSamples hnodup ha,
    filter_flatMap key_of_mem_timeSamples hnodup ha, List.lookup_nil, fold_samples hkeys]

/-- A key that no target has is not read. -/
theorem lookup_other {l : List α} {key : String × String} (h : key ∉ l.map T.key) :
    ((T.samples l).foldl (Dict.update Prod.fst store) []).lookup key = none := by
  have hnone : ((T.samples l).filter fun s => s.1 = key) = [] := by
    refine List.filter_eq_nil_iff.mpr fun s hs hkey => ?_
    rw [samples, List.mem_append, List.mem_flatMap, List.mem_flatMap] at hs
    have hkey := of_decide_eq_true hkey
    obtain ⟨a, ha, hs⟩ | ⟨a, ha, hs⟩ := hs
    · exact h (List.mem_map.mpr ⟨a, ha, (key_of_mem_countSamples a s hs).symm.trans hkey⟩)
    · exact h (List.mem_map.mpr ⟨a, ha, (key_of_mem_timeSamples a s hs).symm.trans hkey⟩)
  rw [Dict.lookup_foldl, hnone]
  rfl

end Targets

/-- The time that is written. -/
def keptTime (r : Result) : Option ℕ :=
  match r.scanned_at with
  | none => none
  | some t => if t = 0 then none else some t

/-- The counts that are written. -/
def keptCounts (r : Result) : Counts := (r.counts.getD []).insertionSort BucketLe

theorem countSamples_eq (r : Result) :
    countSamples r = (keptCounts r).map fun item => (r.key, Datum.count item.1 item.2) := by
  unfold countSamples keptCounts
  cases r.counts with
  | none => rfl
  | some counts => rfl

theorem timeSamples_eq (r : Result) :
    timeSamples r = (keptTime r).toList.map fun t => (r.key, Datum.time t) := by
  unfold timeSamples keptTime
  cases r.scanned_at with
  | none => rfl
  | some t =>
    dsimp only
    split_ifs <;> rfl

/-- What is read of some results. -/
def kept : Targets Result := ⟨Result.key, keptCounts, keptTime⟩

theorem samplesOf_eq (results : List Result) : samplesOf results = kept.samples results := by
  have hcounts : countSamples = kept.countSamples := funext countSamples_eq
  have htimes : timeSamples = kept.timeSamples := funext timeSamples_eq
  rw [samplesOf, Targets.samples, hcounts, htimes]

theorem nodup_sorted {counts : Counts} (h : (Dict.keys counts).Nodup) :
    (Dict.keys (counts.insertionSort BucketLe)).Nodup :=
  ((List.perm_insertionSort BucketLe counts).map Prod.fst).nodup_iff.mpr h

/-- The entry of a target with counts and a time. -/
theorem lookup_parse {results : List Result} (hnodup : (results.map Result.key).Nodup) {r : Result}
    (hr : r ∈ results) {counts : Counts} (hcounts : r.counts = some counts)
    (hfine : FineCounts counts) {t : ℕ} (htime : r.scanned_at = some t) (ht : t ≠ 0) :
    ((samplesOf results).foldl (Dict.update Prod.fst store) []).lookup r.key =
      some (counts.insertionSort BucketLe, some t) := by
  have hkept : keptCounts r = counts.insertionSort BucketLe := by
    rw [keptCounts, hcounts, Option.getD_some]
  have htime' : keptTime r = some t := by
    unfold keptTime
    rw [htime]
    exact if_neg ht
  have hentry : kept.entry r = some (counts.insertionSort BucketLe, some t) := by
    show (if keptCounts r = [] ∧ keptTime r = none then none
      else some (keptCounts r, keptTime r)) = _
    rw [hkept, htime', if_neg fun h => nomatch h.2]
  have hkeys : (Dict.keys (keptCounts r)).Nodup := hkept.symm ▸ nodup_sorted hfine.nodup
  rw [samplesOf_eq, ← hentry]
  exact Targets.lookup_samples (T := kept) hnodup hr hkeys

end CveScan
