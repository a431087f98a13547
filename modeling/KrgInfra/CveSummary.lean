/-
What the counts of a report depend on.

A CVE that was matched several ways against one package is counted once, in the bucket of its
first match.  The counts therefore depend on the order of the matches where these disagree.

* `summarizeMatches` — `summarize`, of a list of any length;
* `summarizeMatches_eq` — every count is a number of first matches;
* `sum_summarizeMatches` — together they are the distinct findings;
* `summarize_of_permutations` — the lists whose order does not matter.
-/
import KrgInfra.CveText
import KrgInfra.Firsts
import Mathlib

namespace CveScan

open Firsts

/-- `(vulnerability id, package name, version)` -/
def triple (m : Match) : Option String × Option String × Option String := (m.id, m.name, m.version)

/-- The counts of some matches. -/
def summarizeMatches (ms : List Match) : Counts := (ms.foldl tally (noCounts, [])).1

theorem summarize_eq (report : Report) : summarize report = summarizeMatches report.allMatches := rfl

/-- All severities and fix states. -/
def buckets : List (String × String) := SEVERITIES.flatMap fun s => FIXES.map fun f => (s, f)

theorem nodup_buckets : buckets.Nodup := by decide

theorem bucket_mem_buckets (m : Match) : bucket m ∈ buckets :=
  List.mem_flatMap.mpr ⟨_, (bucket_mem m).1, List.mem_map.mpr ⟨_, (bucket_mem m).2, rfl⟩⟩

/-- Counts for every bucket. -/
def table (n : String × String → ℕ) : Counts := buckets.map fun b => (b, n b)

theorem noCounts_eq : noCounts = table fun _ => 0 := rfl

theorem lookup_table {n : String × String → ℕ} {b : String × String} (h : b ∈ buckets) :
    (table n).lookup b = some (n b) := by
  refine Dict.lookup_of_mem ?_ (List.mem_map.mpr ⟨b, h, rfl⟩)
  rw [Dict.keys, table, List.map_map]
  exact (List.map_id buckets).symm ▸ nodup_buckets

theorem table_injective {n n' : String × String → ℕ} (h : table n = table n') {b : String × String}
    (hb : b ∈ buckets) : n b = n' b := by
  have hlookup := lookup_table (n := n) hb
  rw [h, lookup_table hb] at hlookup
  exact (Option.some_inj.mp hlookup).symm

/-- A count is set where its bucket stands. -/
theorem set_table {n : String × String → ℕ} {b : String × String} (h : b ∈ buckets) (v : ℕ) :
    Dict.set (table n) b v = table fun b' => if b' = b then v else n b' := by
  have hset : ∀ bs : List (String × String), bs.Nodup → b ∈ bs →
      Dict.set (bs.map fun b => (b, n b)) b v =
        bs.map fun b' => (b', if b' = b then v else n b') := by
    intro bs
    induction bs with
    | nil => exact fun _ h => nomatch h
    | cons first bs ih =>
      intro hnodup hmem
      obtain ⟨hfirst, htail⟩ := List.nodup_cons.mp hnodup
      rw [List.map_cons, List.map_cons, Dict.set]
      by_cases hb : first = b
      · rw [if_pos hb, if_pos hb]
        refine congrArg _ (List.map_congr_left fun b' hb' => ?_)
        have hne : b' ≠ b := fun he => hfirst (hb ▸ he ▸ hb')
        rw [if_neg hne]
      · rw [if_neg hb, if_neg hb, ih htail ((List.mem_cons.mp hmem).resolve_left (Ne.symm hb))]
  exact hset buckets nodup_buckets h

/-! ### The counts -/

/-- How many first matches fall into a bucket. -/
def countOf (ms : List Match) (b : String × String) : ℕ := (ms.map bucket).count b

theorem countOf_cons (m : Match) (ms : List Match) (b : String × String) :
    countOf (m :: ms) b = countOf ms b + if b = bucket m then 1 else 0 := by
  rw [countOf, List.map_cons, List.count_cons, countOf]
  by_cases h : b = bucket m
  · rw [if_pos h, if_pos (beq_iff_eq.mpr h.symm)]
  · rw [if_neg h, if_neg fun h' => h (beq_iff_eq.mp h').symm]

/-- One match, on counts for every bucket. -/
theorem tally_table (n : String × String → ℕ)
    (seen : List (Option String × Option String × Option String)) (m : Match) :
    tally (table n, seen) m =
      if triple m ∈ seen then (table n, seen)
      else (table fun b => if b = bucket m then n b + 1 else n b, triple m :: seen) := by
  have hb := bucket_mem_buckets m
  have hset : Dict.set (table n) (bucket m) (((table n).lookup (bucket m)).getD 0 + 1) =
      table fun b => if b = bucket m then n b + 1 else n b := by
    rw [lookup_table hb, Option.getD_some, set_table hb]
    refine congrArg table (funext fun b => ?_)
    by_cases h : b = bucket m
    · rw [if_pos h, if_pos h, h]
    · rw [if_neg h, if_neg h]
  rw [tally, ← hset]
  rfl

theorem foldl_tally (ms : List Match) : ∀ (n : String × String → ℕ)
    (seen : List (Option String × Option String × Option String)),
    (ms.foldl tally (table n, seen)).1 =
      table fun b => n b + countOf (firstsFrom triple seen ms) b := by
  induction ms with
  | nil => exact fun _ _ => rfl
  | cons m ms ih =>
    intro n seen
    rw [List.foldl_cons, tally_table, firstsFrom]
    by_cases hseen : triple m ∈ seen
    · rw [if_pos hseen, if_pos hseen, ih]
    · rw [if_neg hseen, if_neg hseen, ih]
      refine congrArg table (funext fun b => ?_)
      rw [countOf_cons]
      split_ifs <;> omega

/-- A bucket counts the findings whose first match falls into it. -/
theorem summarizeMatches_eq (ms : List Match) :
    summarizeMatches ms = table (countOf (firsts triple ms)) := by
  rw [summarizeMatches, noCounts_eq, foldl_tally]
  exact congrArg table (funext fun b => Nat.zero_add _)

theorem sum_countOf (ms : List Match) : (buckets.map (countOf ms)).sum = ms.length := by
  induction ms with
  | nil => rfl
  | cons m ms ih =>
    have hevery : ∀ b' ∈ buckets, (buckets.map fun b => if b = b' then 1 else 0).sum = 1 := by
      decide
    have hone := hevery (bucket m) (bucket_mem_buckets m)
    rw [List.map_congr_left fun b _ => countOf_cons m ms b, List.sum_map_add, ih, hone,
      List.length_cons]

/-- The counts add up to the number of distinct findings. -/
theorem sum_summarizeMatches (ms : List Match) :
    ((summarizeMatches ms).map Prod.snd).sum = (ms.map triple).dedup.length := by
  rw [summarizeMatches_eq, table, List.map_map, ← length_firsts, ← sum_countOf]
  rfl

/-- Matches of one finding fall into one bucket. -/
def Agree (ms : List Match) : Prop :=
  ∀ m ∈ ms, ∀ n ∈ ms, triple m = triple n → bucket m = bucket n

/-- Lists whose first matches fall into the same buckets have the same counts. -/
theorem summarizeMatches_congr {ms ns : List Match}
    (h : ∀ c, (first? triple c ms).map bucket = (first? triple c ns).map bucket) :
    summarizeMatches ms = summarizeMatches ns := by
  rw [summarizeMatches_eq, summarizeMatches_eq]
  exact congrArg table (funext fun b => (perm_map_firsts triple h).count_eq b)

theorem first?_of_agree {ms ns : List Match} (h : Agree ms) (hperm : ns.Perm ms)
    (c : Option String × Option String × Option String) :
    (first? triple c ns).map bucket = (first? triple c ms).map bucket := by
  cases hns : first? triple c ns with
  | none =>
    cases hms : first? triple c ms with
    | none => rfl
    | some m =>
      obtain rfl := key_of_first? triple hms
      obtain ⟨n, hn⟩ := exists_first? triple (hperm.mem_iff.mpr (mem_of_first? triple hms))
      exact nomatch hns.symm.trans hn
  | some n =>
    obtain rfl := key_of_first? triple hns
    have hmem := hperm.mem_iff.mp (mem_of_first? triple hns)
    obtain ⟨m, hm⟩ := exists_first? triple hmem
    rw [hm]
    have hkey := key_of_first? triple hm
    exact congrArg some (h n hmem m (mem_of_first? triple hm) hkey.symm)

/-- Two matches of one finding that disagree come first in two permutations. -/
theorem summarizeMatches_exchange {m n : Match} (ms : List Match) (hkey : triple m = triple n)
    (hbucket : bucket m ≠ bucket n) :
    summarizeMatches (m :: n :: ms) ≠ summarizeMatches (n :: m :: ms) := by
  have hfirsts : ∀ m n : Match, triple m = triple n →
      firsts triple (m :: n :: ms) = m :: firstsFrom triple [triple m] ms := by
    intro m n hkey
    rw [firsts, firstsFrom, if_neg List.not_mem_nil, firstsFrom,
      if_pos (List.mem_singleton.mpr hkey.symm)]
  intro h
  rw [summarizeMatches_eq, summarizeMatches_eq, hfirsts m n hkey, hfirsts n m hkey.symm] at h
  have hcount := table_injective h (bucket_mem_buckets m)
  rw [countOf_cons, countOf_cons, if_pos rfl, if_neg hbucket, hkey] at hcount
  omega

theorem exists_perm_cons_cons {m n : Match} {ms : List Match} (hm : m ∈ ms) (hn : n ∈ ms)
    (hne : m ≠ n) : ∃ rest, ms.Perm (m :: n :: rest) := by
  obtain ⟨before, after, rfl⟩ := List.append_of_mem hm
  have hfirst : (before ++ m :: after).Perm (m :: (before ++ after)) := List.perm_middle
  obtain hn | hn := List.mem_cons.mp (hfirst.mem_iff.mp hn)
  · exact absurd hn.symm hne
  · obtain ⟨before', after', hrest⟩ := List.append_of_mem hn
    refine ⟨before' ++ after', hfirst.trans (.cons m ?_)⟩
    rw [hrest]
    exact List.perm_middle

/-- The counts add up to the number of distinct findings, and they are the same for every order
of the matches exactly where matches of one finding fall into one bucket.  Where they do not, the
first match of a finding decides: every count is a number of first matches. -/
theorem summarize_of_permutations (ms : List Match) :
    ((summarizeMatches ms).map Prod.snd).sum = (ms.map triple).dedup.length ∧
    ((∀ ns : List Match, ns.Perm ms → summarizeMatches ns = summarizeMatches ms) ↔ Agree ms) ∧
    summarizeMatches ms = table (countOf (firsts triple ms)) := by
  refine ⟨sum_summarizeMatches ms, ⟨fun h m hm n hn hkey => ?_, fun h ns hperm => ?_⟩,
    summarizeMatches_eq ms⟩
  · by_contra hbucket
    have hne : m ≠ n := fun he => hbucket (congrArg bucket he)
    obtain ⟨rest, hrest⟩ := exists_perm_cons_cons hm hn hne
    refine summarizeMatches_exchange rest hkey hbucket ?_
    rw [h _ hrest.symm, h _ ((List.Perm.swap m n rest).trans hrest.symm)]
  · exact summarizeMatches_congr (first?_of_agree h hperm)

/-! ### A CVE with two severities -/

namespace TwoSeverities

/-- A match of one CVE against one package, with the severity that a database has for it. -/
def found (severity : String) : Match :=
  ⟨some "CVE-1", some "openssl", some "3.4.1", some severity, some "fixed"⟩

theorem order_matters : [found "Low", found "High"].Perm [found "High", found "Low"] ∧
    summarizeMatches [found "Low", found "High"] ≠
      summarizeMatches [found "High", found "Low"] :=
  ⟨.swap _ _ _, by decide +kernel⟩

end TwoSeverities

end CveScan
