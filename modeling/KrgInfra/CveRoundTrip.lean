/-
Published counts and times are read back, and publishing what was read changes nothing.

A time is a float, of which the text has the whole seconds; counts go through a float when they
are read.

* `Row` — an entry of the results, with its time as a float;
* `rowLines`, `render` — `render_metrics`, of such entries;
* `IsDouble`, `exact_whole` — the whole part of a float is a float;
* `Publishable` — an entry whose numbers survive;
* `published_read_back` — what is read of a text, and the text of what was read.
-/
import KrgInfra.CveSummary
import Mathlib.Algebra.Order.Floor.Semifield
import Mathlib.Data.Rat.Floor
import Mathlib.Data.String.Basic

namespace CveScan

open Python

/-- A float that is not negative. -/
def IsDouble (q : ℚ) : Prop :=
  ∃ m e : ℕ, m < 2 ^ 53 ∧ (q = (m * 2 ^ e : ℕ) ∧ e ≤ 971 ∨ q = (m : ℚ) / (2 ^ e : ℕ))

/-- `int(t)` -/
def whole (t : ℚ) : ℕ := ⌊t⌋₊

/-- An entry of the results. -/
structure Row where
  target : String
  image : String
  ok : Bool
  counts : Option Counts
  scanned_at : Option ℚ

/-- The entry in whole seconds. -/
def Row.result (r : Row) : Result := ⟨r.target, r.image, r.ok, r.counts, r.scanned_at.map whole⟩

/-- `(target, image)` -/
def Row.key (r : Row) : String × String := (r.target, r.image)

/-- `if r.get("scanned_at")`: neither `None` nor zero. -/
def Row.timestampLines (r : Row) : List String :=
  match r.scanned_at with
  | none => []
  | some t => if t = 0 then [] else [timestampLine r.key (whole t)]

/-- The lines of the text. -/
def rowLines (rows : List Row) (db_built : Option ℕ) : List String :=
  textLines (rows.flatMap fun r => countLines r.result) (rows.map fun r => successLine r.key r.ok)
    (rows.flatMap Row.timestampLines) db_built

/-- `render_metrics` -/
def render (rows : List Row) (db_built : Option ℕ) : String := unlines (rowLines rows db_built)

/-- The integer timestamp of an entry that was scanned. -/
def Row.time (r : Row) : Option ℕ :=
  match r.scanned_at with
  | none => none
  | some t => if t = 0 then none else some (whole t)

/-- The entry of a target that could not be scanned: what was read is kept. -/
def carry (prev : Previous) (r : Row) : Row :=
  match prev.lookup (r.target, r.image) with
  | some (counts, ts) => ⟨r.target, r.image, false, some counts, ts.map fun t => (t : ℚ)⟩
  | none => ⟨r.target, r.image, false, none, none⟩

/-- An entry whose labels are plain.  Its counts are there for every bucket, and none of them is
too large for a float. -/
structure Wellformed (r : Row) : Prop where
  target : Plain r.target
  image : Plain r.image
  full : ∀ counts, r.counts = some counts → (Dict.keys counts).Perm buckets
  finite : ∀ counts, r.counts = some counts → ∀ item ∈ counts, InRange item.2
  time : ∀ t, r.scanned_at = some t → IsDouble t

/-- An entry whose counts are floats, and whose time is none, or at least one second. -/
structure Publishable (r : Row) : Prop where
  target : Plain r.target
  image : Plain r.image
  full : ∀ counts, r.counts = some counts → (Dict.keys counts).Perm buckets
  exact_counts : ∀ counts, r.counts = some counts → ∀ item ∈ counts, IsDouble item.2
  time : ∀ t, r.scanned_at = some t → IsDouble t ∧ (t = 0 ∨ 1 ≤ t)

/-- What was read of an entry: its counts and its time, where it has any of them. -/
structure ReadBackOf (prev : Previous) (r : Row) : Prop where
  entry : r.counts ≠ none ∨ r.time ≠ none →
    ∃ counts, prev.lookup r.key = some (counts, r.time) ∧ counts.Perm (r.counts.getD [])
  nothing : r.counts = none → r.time = none → prev.lookup r.key = none

/-! ### Floats -/

/-- The whole part of a float is a float. -/
theorem exact_whole {q : ℚ} (h : IsDouble q) : Exact (whole q) := by
  obtain ⟨m, e, hm, ⟨rfl, he⟩ | rfl⟩ := h
  · rw [whole, Nat.floor_natCast]
    exact exact_mul_pow hm he
  · rw [whole, Nat.floor_div_eq_div]
    exact exact_of_lt (Nat.lt_of_le_of_lt (Nat.div_le_self m _) hm)

theorem exact_of_isDouble {n : ℕ} (h : IsDouble n) : Exact n := by
  have hexact := exact_whole h
  rwa [whole, Nat.floor_natCast] at hexact

theorem isDouble_of_lt {n : ℕ} (h : n < 2 ^ 53) : IsDouble n :=
  ⟨n, 0, h, .inl ⟨by rw [Nat.pow_zero, Nat.mul_one], by omega⟩⟩

/-! ### The first text -/

theorem Wellformed.key {r : Row} (h : Wellformed r) : Plain r.key.1 ∧ Plain r.key.2 :=
  ⟨h.target, h.image⟩

theorem plain_of_mem_buckets {b : String × String} (h : b ∈ buckets) : Plain b.1 ∧ Plain b.2 := by
  obtain ⟨s, hs, hf⟩ := List.mem_flatMap.mp h
  obtain ⟨f, hfix, rfl⟩ := List.mem_map.mp hf
  exact ⟨plain_of_mem_severities hs, plain_of_mem_fixes hfix⟩

theorem countLines_eq (r : Result) : countLines r = (keptCounts r).map (countLine r.key) := by
  unfold countLines keptCounts
  cases r.counts with
  | none => rfl
  | some counts => rfl

theorem timestampLines_eq (r : Row) :
    r.timestampLines = r.time.toList.map (timestampLine r.key) := by
  unfold Row.timestampLines Row.time
  cases r.scanned_at with
  | none => rfl
  | some t =>
    dsimp only
    split_ifs <;> rfl

/-- The counts of an entry, in the order in which they are written. -/
theorem keptCounts_perm (r : Row) : (keptCounts r.result).Perm (r.counts.getD []) :=
  List.perm_insertionSort _ _

/-- A count that is written. -/
theorem Wellformed.of_mem {r : Row} (h : Wellformed r) {item : (String × String) × ℕ}
    (hitem : item ∈ keptCounts r.result) :
    (Plain item.1.1 ∧ Plain item.1.2) ∧ InRange item.2 := by
  have hmem := (keptCounts_perm r).mem_iff.mp hitem
  cases hcounts : r.counts with
  | none =>
    rw [hcounts] at hmem
    exact nomatch hmem
  | some counts =>
    rw [hcounts, Option.getD_some] at hmem
    have hbucket := (h.full counts hcounts).mem_iff.mp (List.mem_map_of_mem hmem)
    exact ⟨plain_of_mem_buckets hbucket, h.finite counts hcounts item hmem⟩

/-- A time that is written is a float. -/
theorem Wellformed.exact_time {r : Row} (h : Wellformed r) {t : ℕ} (ht : r.time = some t) :
    Exact t := by
  unfold Row.time at ht
  cases hat : r.scanned_at with
  | none =>
    rw [hat] at ht
    exact nomatch ht
  | some q =>
    simp only [hat] at ht
    split_ifs at ht
    rw [← Option.some_inj.mp ht]
    exact exact_whole (h.time q hat)

theorem Wellformed.nodup {r : Row} (h : Wellformed r) :
    (Dict.keys (keptCounts r.result)).Nodup := by
  rw [Dict.keys, ((keptCounts_perm r).map Prod.fst).nodup_iff]
  cases hcounts : r.counts with
  | none => exact List.nodup_nil
  | some counts => exact (h.full counts hcounts).nodup_iff.mpr nodup_buckets

/-- Counts as they are read. -/
def rounded (counts : Counts) : Counts := counts.map fun item => (item.1, toDouble item.2)

/-- What is read of some entries. -/
def readRows : Targets Row := ⟨Row.key, fun r => rounded (keptCounts r.result), Row.time⟩

section Text

variable {rows : List Row} (h : ∀ r ∈ rows, Wellformed r)
include h

theorem whole_rowLines (db_built : Option ℕ) : ∀ line ∈ rowLines rows db_built, Whole line := by
  refine whole_textLines (fun line hline => ?_) (fun line hline => ?_) (fun line hline => ?_)
    db_built
  · obtain ⟨r, hr, hline⟩ := List.mem_flatMap.mp hline
    rw [countLines_eq] at hline
    obtain ⟨item, hitem, rfl⟩ := List.mem_map.mp hline
    exact whole_countLine (h r hr).key ((h r hr).of_mem hitem).1
  · obtain ⟨r, hr, rfl⟩ := List.mem_map.mp hline
    exact whole_successLine (h r hr).key r.ok
  · obtain ⟨r, hr, hline⟩ := List.mem_flatMap.mp hline
    rw [timestampLines_eq] at hline
    obtain ⟨t, _, rfl⟩ := List.mem_map.mp hline
    exact whole_timestampLine (h r hr).key t

theorem reads_rowLines (db_built : Option ℕ) :
    Reads (rowLines rows db_built) (readRows.samples rows) := by
  refine reads_textLines (reads_flatMap fun r hr => ?_) (fun line hline => ?_)
    (reads_flatMap fun r hr => ?_) db_built
  · have hsamples : readRows.countSamples r = (keptCounts r.result).map fun item =>
        (r.key, Datum.count item.1 (toDouble item.2)) := List.map_map
    rw [countLines_eq, hsamples]
    exact reads_map fun item hitem =>
      readLine_rounded (h r hr).key ((h r hr).of_mem hitem).1 ((h r hr).of_mem hitem).2
  · obtain ⟨r, _, rfl⟩ := List.mem_map.mp hline
    exact readLine_successLine r.key r.ok
  · rw [timestampLines_eq]
    refine reads_map fun t ht => readLine_timestampLine (h r hr).key ?_
    exact (h r hr).exact_time (Option.mem_toList.mp ht)

theorem parse_rows (db_built : Option ℕ) : parse_previous (render rows db_built) =
    some ((readRows.samples rows).foldl (Dict.update Prod.fst store) []) :=
  parse_lines (whole_rowLines h db_built) (reads_rowLines h db_built)

end Text

/-- The entry of a target, as it is read. -/
theorem lookup_rows {rows : List Row} (hdistinct : (rows.map Row.key).Nodup) {r : Row}
    (hr : r ∈ rows) (h : Wellformed r) :
    ((readRows.samples rows).foldl (Dict.update Prod.fst store) []).lookup r.key =
      readRows.entry r := by
  have hkeys : Dict.keys (rounded (keptCounts r.result)) = Dict.keys (keptCounts r.result) := by
    rw [Dict.keys, rounded, List.map_map, Dict.keys]
    rfl
  exact Targets.lookup_samples (T := readRows) hdistinct hr (hkeys.symm ▸ h.nodup)

/-! ### What survives -/

theorem Publishable.wellformed {r : Row} (h : Publishable r) : Wellformed r where
  target := h.target
  image := h.image
  full := h.full
  finite counts hcounts item hitem :=
    (exact_of_isDouble (h.exact_counts counts hcounts item hitem)).inRange
  time t ht := (h.time t ht).1

/-- Counts that are floats are read as they are. -/
theorem Publishable.rounded_eq {r : Row} (h : Publishable r) :
    rounded (keptCounts r.result) = keptCounts r.result := by
  refine (List.map_congr_left fun item hitem => ?_).trans (List.map_id _)
  have hmem := (keptCounts_perm r).mem_iff.mp hitem
  cases hcounts : r.counts with
  | none =>
    rw [hcounts] at hmem
    exact nomatch hmem
  | some counts =>
    rw [hcounts, Option.getD_some] at hmem
    exact Prod.ext rfl (exact_of_isDouble (h.exact_counts counts hcounts item hmem)).1

theorem Publishable.entry_eq {r : Row} (h : Publishable r) : readRows.entry r =
    if keptCounts r.result = [] ∧ r.time = none then none
    else some (keptCounts r.result, r.time) := by
  rw [Targets.entry]
  exact if_congr (and_congr_left' (by rw [← h.rounded_eq]; rfl)) rfl
    (congrArg (fun c => some (c, r.time)) h.rounded_eq)

/-- A time that is written is not zero. -/
theorem Publishable.time_ne_zero {r : Row} (h : Publishable r) {t : ℕ} (ht : r.time = some t) :
    t ≠ 0 := by
  unfold Row.time at ht
  cases hat : r.scanned_at with
  | none =>
    rw [hat] at ht
    exact nomatch ht
  | some q =>
    simp only [hat] at ht
    split_ifs at ht with hzero
    have hone := (h.time q hat).2.resolve_left hzero
    rw [← Option.some_inj.mp ht]
    exact (Nat.floor_pos.mpr hone).ne'

/-- Counts that are there are not empty. -/
theorem Publishable.keptCounts_eq_nil {r : Row} (h : Publishable r) :
    keptCounts r.result = [] ↔ r.counts = none := by
  have hperm := keptCounts_perm r
  constructor
  · intro hnil
    cases hcounts : r.counts with
    | none => rfl
    | some counts =>
      rw [hnil, hcounts] at hperm
      have hfull := h.full counts hcounts
      have hempty : counts = [] := hperm.nil_eq.symm
      rw [hempty] at hfull
      exact absurd hfull.length_eq (by decide)
  · intro hnone
    rw [hnone] at hperm
    exact hperm.eq_nil

theorem readBackOf {prev : Previous} {r : Row} (h : Publishable r)
    (hlookup : prev.lookup r.key = readRows.entry r) : ReadBackOf prev r := by
  rw [h.entry_eq] at hlookup
  constructor
  · intro hany
    refine ⟨keptCounts r.result, ?_, keptCounts_perm r⟩
    rw [hlookup, if_neg]
    rintro ⟨hcounts, htime⟩
    exact hany.elim (fun hc => hc (h.keptCounts_eq_nil.mp hcounts)) fun ht => ht htime
  · intro hcounts htime
    rw [hlookup, if_pos ⟨h.keptCounts_eq_nil.mpr hcounts, htime⟩]

/-! ### The second text -/

instance : Std.Total BucketLe where
  total a b := by
    unfold BucketLe
    obtain h | h | h := lt_trichotomy a.1.1 b.1.1
    · exact .inl (.inl h)
    · obtain h' | h' := le_total a.1.2 b.1.2
      · exact .inl (.inr ⟨h, not_lt.mpr h'⟩)
      · exact .inr (.inr ⟨h.symm, not_lt.mpr h'⟩)
    · exact .inr (.inl h)

instance : IsTrans ((String × String) × ℕ) BucketLe where
  trans a b c := by
    unfold BucketLe
    simp only [not_lt]
    rintro (hab | ⟨hab, hab'⟩) (hbc | ⟨hbc, hbc'⟩)
    · exact .inl (hab.trans hbc)
    · exact .inl (hbc ▸ hab)
    · exact .inl (hab ▸ hbc)
    · exact .inr ⟨hab.trans hbc, hab'.trans hbc'⟩

/-- Counts that were read are written in their order. -/
theorem sort_keptCounts (r : Result) :
    (keptCounts r).insertionSort BucketLe = keptCounts r :=
  (List.pairwise_insertionSort BucketLe _).insertionSort_eq

/-- An entry that is marked failed. -/
def Row.failed (r : Row) : Row := { r with ok := false }

/-- A time that was read is the time of the entry that carries it. -/
theorem time_of_read {r a : Row} (h : Publishable r)
    (ha : a.scanned_at = r.time.map fun t => (t : ℚ)) : a.time = r.time := by
  rw [Row.time, ha]
  cases htime : r.time with
  | none => rfl
  | some t =>
    have hne : (t : ℚ) ≠ 0 := Nat.cast_ne_zero.mpr (h.time_ne_zero htime)
    have hwhole : whole (t : ℚ) = t := Nat.floor_natCast t
    show (if (t : ℚ) = 0 then none else some (whole (t : ℚ))) = some t
    rw [if_neg hne, hwhole]

/-- What is written of two entries is the same. -/
structure SameLines (a b : Row) : Prop where
  counts : countLines a.result = countLines b.result
  success : successLine a.key a.ok = successLine b.key b.ok
  times : a.timestampLines = b.timestampLines

/-- What was read of an entry is written as the entry was. -/
theorem sameLines_carry {prev : Previous} {r : Row} (h : Publishable r)
    (hlookup : prev.lookup r.key = readRows.entry r) : SameLines (carry prev r) r.failed := by
  have hkey : prev.lookup (r.target, r.image) = readRows.entry r := hlookup
  unfold carry
  rw [hkey, h.entry_eq]
  by_cases hnone : keptCounts r.result = [] ∧ r.time = none
  · rw [if_pos hnone]
    refine ⟨?_, rfl, ?_⟩
    · rw [countLines_eq, countLines_eq]
      exact congrArg (List.map _) hnone.1.symm
    · rw [timestampLines_eq, timestampLines_eq]
      exact congrArg (fun t : Option ℕ => t.toList.map _) hnone.2.symm
  · rw [if_neg hnone]
    refine ⟨?_, rfl, ?_⟩
    · rw [countLines_eq, countLines_eq]
      exact congrArg (List.map _) (sort_keptCounts r.result)
    · rw [timestampLines_eq, timestampLines_eq]
      exact congrArg (fun t : Option ℕ => t.toList.map _) (time_of_read (r := r) h rfl)

theorem rowLines_congr {α : Type} {l : List α} {f g : α → Row}
    (h : ∀ a ∈ l, SameLines (f a) (g a)) (db_built : Option ℕ) :
    rowLines (l.map f) db_built = rowLines (l.map g) db_built := by
  have hcounts : (l.map f).flatMap (fun r => countLines r.result) =
      (l.map g).flatMap fun r => countLines r.result := by
    rw [List.flatMap_map, List.flatMap_map]
    exact List.flatMap_congr fun a ha => (h a ha).counts
  have hsuccess : (l.map f).map (fun r => successLine r.key r.ok) =
      (l.map g).map fun r => successLine r.key r.ok := by
    rw [List.map_map, List.map_map]
    exact List.map_congr_left fun a ha => (h a ha).success
  have htimes : (l.map f).flatMap Row.timestampLines =
      (l.map g).flatMap Row.timestampLines := by
    rw [List.flatMap_map, List.flatMap_map]
    exact List.flatMap_congr fun a ha => (h a ha).times
  rw [rowLines, rowLines, hcounts, hsuccess, htimes]

/-- The text of some entries is read back, entry by entry, and the text of what was read differs
from it in the flags of success only. -/
structure ReadsBack (rows : List Row) (db_built : Option ℕ) (prev : Previous) : Prop where
  parse : parse_previous (render rows db_built) = some prev
  entries : ∀ r ∈ rows, ReadBackOf prev r
  others : ∀ key, key ∉ rows.map Row.key → prev.lookup key = none
  lines : rowLines (rows.map (carry prev)) db_built = rowLines (rows.map Row.failed) db_built

theorem published_read_back {rows : List Row} (hdistinct : (rows.map Row.key).Nodup)
    (h : ∀ r ∈ rows, Publishable r) (db_built : Option ℕ) :
    ∃ prev, ReadsBack rows db_built prev := by
  have hwellformed : ∀ r ∈ rows, Wellformed r := fun r hr => (h r hr).wellformed
  have hlookup : ∀ r ∈ rows, ((readRows.samples rows).foldl
      (Dict.update Prod.fst store) []).lookup r.key = readRows.entry r := fun r hr =>
    lookup_rows hdistinct hr (hwellformed r hr)
  exact ⟨_, parse_rows hwellformed db_built, fun r hr => readBackOf (h r hr) (hlookup r hr),
    fun _ hkey => Targets.lookup_other (T := readRows) hkey,
    rowLines_congr (fun r hr => sameLines_carry (h r hr) (hlookup r hr)) db_built⟩

/-! ### A host and an image -/

/-- Counts with one that is not zero. -/
def counted (b : String × String) (n : ℕ) : Counts := table fun b' => if b' = b then n else 0

def scanned (target image : String) (b : String × String) (n : ℕ) (at_ : ℚ) : Row :=
  ⟨target, image, true, some (counted b n), some at_⟩

theorem publishable_scanned {target image : String} (htarget : Plain target) (himage : Plain image)
    (b : String × String) {n t : ℕ} (hn : n < 2 ^ 53) (ht : t < 2 ^ 53) (hpos : 1 ≤ t) :
    Publishable (scanned target image b n t) where
  target := htarget
  image := himage
  full counts hcounts := by
    obtain rfl := Option.some_inj.mp hcounts
    exact .of_eq rfl
  exact_counts counts hcounts item hitem := by
    obtain rfl := Option.some_inj.mp hcounts
    obtain ⟨b', _, rfl⟩ := List.mem_map.mp hitem
    dsimp only
    split_ifs
    · exact isDouble_of_lt hn
    · exact isDouble_of_lt (by decide)
  time q hq := by
    obtain rfl := Option.some_inj.mp hq
    exact ⟨isDouble_of_lt ht, .inr (by exact_mod_cast hpos)⟩

theorem host_and_image_read_back : ∃ prev, ReadsBack
    [scanned "system" "" ("high", "available") 4 (1000 : ℕ),
      scanned "image" "traefik:v3.7" ("low", "none") 2 (1001 : ℕ)] (some 900) prev := by
  refine published_read_back (by decide) (fun r hr => ?_) (some 900)
  simp only [List.mem_cons, List.not_mem_nil, or_false] at hr
  obtain rfl | rfl := hr
  · exact publishable_scanned (by unfold Plain; decide) (by unfold Plain; decide) _ (by decide)
      (by decide) (by decide)
  · exact publishable_scanned (by unfold Plain; decide) (by unfold Plain; decide) _ (by decide)
      (by decide) (by decide)

/-- More findings than a float can count. -/
def many : Row := scanned "system" "" ("critical", "available") (2 ^ 53 + 1) (1000 : ℕ)

/-- A scan within the first second. -/
def early : Row := scanned "system" "" ("critical", "available") 1 (1 / 2)

theorem plain_system : Plain "system" ∧ Plain "" := by
  unfold Plain
  decide

theorem wellformed_scanned {b : String × String} {n : ℕ} {t : ℚ} (hn : InRange n)
    (ht : IsDouble t) : Wellformed (scanned "system" "" b n t) where
  target := plain_system.1
  image := plain_system.2
  full counts hcounts := by
    obtain rfl := Option.some_inj.mp hcounts
    exact .of_eq rfl
  finite counts hcounts item hitem := by
    obtain rfl := Option.some_inj.mp hcounts
    obtain ⟨b', _, rfl⟩ := List.mem_map.mp hitem
    dsimp only
    split_ifs
    · exact hn
    · exact (exact_of_lt (by decide)).inRange
  time q hq := by
    obtain rfl := Option.some_inj.mp hq
    exact ht

/-- What is read of one entry. -/
theorem ReadsBack.lookup_single {r : Row} (h : Wellformed r) {prev : Previous}
    (hread : ReadsBack [r] none prev) : prev.lookup r.key = readRows.entry r := by
  have hrows : ∀ r' ∈ [r], Wellformed r' := fun r' hr' => List.mem_singleton.mp hr' ▸ h
  have hdistinct : ([r].map Row.key).Nodup := List.nodup_singleton _
  have hparse := hread.parse
  rw [parse_rows hrows none, Option.some_inj] at hparse
  rw [← hparse]
  exact lookup_rows hdistinct List.mem_cons_self h

theorem length_rowLines (r : Row) : (rowLines [r] none).length =
    (r.counts.getD []).length + r.time.toList.length + 7 := by
  rw [← (keptCounts_perm r).length_eq, rowLines, textLines]
  simp only [List.flatMap_cons, List.flatMap_nil, List.append_nil, countLines_eq,
    timestampLines_eq, dbLines, List.length_append, List.length_map, List.length_cons,
    List.length_nil, List.map_cons, List.map_nil]
  omega

/-- What is read of an entry that has counts. -/
theorem entry_of_ne_nil {r : Row} (h : keptCounts r.result ≠ []) :
    readRows.entry r = some (rounded (keptCounts r.result), r.time) := by
  have hne : readRows.counts r ≠ [] := fun hnil => h (List.map_eq_nil_iff.mp hnil)
  exact if_neg fun hnone => hne hnone.1

theorem numbers_lost :
    (¬ ∃ prev, ReadsBack [many] none prev) ∧ ¬ ∃ prev, ReadsBack [early] none prev := by
  constructor
  · rintro ⟨prev, h⟩
    have hdouble : toDouble (2 ^ 53 + 1) = 1 * 2 ^ 53 := by decide
    have hrange : InRange (2 ^ 53 + 1) := by
      rw [InRange, hdouble]
      exact (exact_mul_pow (m := 1) (e := 53) (by decide) (by decide)).2
    have hlookup := h.lookup_single (r := many)
      (wellformed_scanned hrange (isDouble_of_lt (by decide)))
    rw [entry_of_ne_nil (by decide +kernel)] at hlookup
    -- the count is read as a smaller one
    have hrounded : (("critical", "available"), 2 ^ 53 + 1) ∉ rounded (keptCounts many.result) := by
      decide +kernel
    obtain ⟨counts, hentry, hperm⟩ :=
      (h.entries many List.mem_cons_self).entry (.inl (Option.some_ne_none _))
    have hmem : (("critical", "available"), 2 ^ 53 + 1) ∈ counts := by
      refine hperm.mem_iff.mpr (List.mem_map.mpr ⟨("critical", "available"), by decide, ?_⟩)
      exact congrArg (Prod.mk _) (if_pos rfl)
    rw [hlookup] at hentry
    rw [(Prod.mk.inj (Option.some_inj.mp hentry)).1] at hrounded
    exact hrounded hmem
  · rintro ⟨prev, h⟩
    have hhalf : IsDouble (1 / 2) := ⟨1, 1, by decide, .inr (by norm_num)⟩
    have hone : InRange 1 := (exact_of_lt (by decide)).inRange
    have hlookup := h.lookup_single (r := early) (wellformed_scanned hone hhalf)
    rw [entry_of_ne_nil (by decide +kernel)] at hlookup
    have htime : early.time = some 0 := by
      have hwhole : whole (1 / 2) = 0 := Nat.floor_eq_zero.mpr (by norm_num)
      show (if (1 / 2 : ℚ) = 0 then none else some (whole (1 / 2))) = some 0
      rw [if_neg (by norm_num), hwhole]
    -- the time that is read is zero, and is not written again
    have hcarry : carry prev early = ⟨"system", "", false,
        some (rounded (keptCounts early.result)), some ((0 : ℕ) : ℚ)⟩ := by
      have hkey : prev.lookup ("system", "") = _ := hlookup
      show (match prev.lookup ("system", "") with
        | some (counts, ts) => (⟨"system", "", false, some counts, ts.map fun t => (t : ℚ)⟩ : Row)
        | none => ⟨"system", "", false, none, none⟩) = _
      rw [hkey, htime]
      rfl
    have hnone : (carry prev early).time = none := by
      have hzero : ((0 : ℕ) : ℚ) = 0 := Nat.cast_zero
      rw [hcarry]
      show (if ((0 : ℕ) : ℚ) = 0 then none else some (whole ((0 : ℕ) : ℚ))) = none
      rw [if_pos hzero]
    have hcounts : ((carry prev early).counts.getD []).length =
        (early.failed.counts.getD []).length := by
      rw [hcarry]
      decide +kernel
    have hfailed : early.failed.time = some 0 := htime
    have hlines : (rowLines [carry prev early] none).length =
        (rowLines [early.failed] none).length := congrArg List.length h.lines
    rw [length_rowLines, length_rowLines, hcounts, hnone, hfailed] at hlines
    simp at hlines

end CveScan
