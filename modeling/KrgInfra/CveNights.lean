/-
The published vulnerability text, over any nights.

* `fine_published` — the text can always be read, and its entries are fine;
* `series_nodup_iff` — a text has no series twice exactly where no two images of the night have
  one label;
* `lastGood`, `KeepsLastGood` — the last good scan of a target, and the text that keeps it;
* `keepsLastGood_of_remembered` — every night keeps it, as long as the old text is read back;
* `one_label`, `forgotten` — two digests of one tag, and a failed read of the old text.
-/
import KrgInfra.CveText
import Mathlib.Data.List.Induction

namespace CveScan

open Python

/-! ### The results of a night -/

theorem plain_of_subset {s t : String} (h : ∀ c ∈ s.toList, c ∈ t.toList) (ht : Plain t) :
    Plain s := fun c hc => ht c (h c hc)

theorem plain_beforeAt {r : String} (h : Plain r) : Plain (beforeAt r) :=
  plain_of_subset (fun c hc => by
    rw [beforeAt, String.toList_ofList] at hc
    exact (List.takeWhile_sublist _).subset hc) h

theorem plain_container_ref {refs : List Reference} {name : String}
    (h : container_ref refs = some name) : Plain name := by
  have hmem := List.mem_of_mem_head? h
  rw [List.mem_insertionSort] at hmem
  obtain ⟨r, _, rfl⟩ := List.mem_map.mp hmem
  exact plain_beforeAt r.plain

/-- The label of an image is plain. -/
theorem plain_ref (lines : List InventoryLine) (image_id : Reference) (tags : List Reference)
    (digests : List String) (size : Option ℕ) :
    Plain (imageOf lines image_id tags digests size).ref := by
  have hid : Plain (String.ofList (image_id.text.toList.take 19)) := by
    refine plain_of_subset (fun c hc => ?_) image_id.plain
    rw [String.toList_ofList] at hc
    exact List.mem_of_mem_take hc
  unfold imageOf orElse
  dsimp only
  cases href : container_ref (refsOf lines image_id) with
  | none =>
    cases tags with
    | nil => exact hid
    | cons tag _ => exact tag.plain
  | some name =>
    dsimp only
    split_ifs
    · cases tags with
      | nil => exact hid
      | cons tag _ => exact tag.plain
    · exact plain_container_ref href

theorem fine_record {prev : Previous} (hprev : FinePrevious prev) {target image : String}
    (htarget : Plain target) (himage : Plain image) (scan : Option Scan) :
    FineResult (record prev target image scan) := by
  unfold record
  cases scan with
  | some s =>
    refine ⟨htarget, himage, fun counts hcounts => ?_, fun t ht => ?_⟩
    · exact Option.some_inj.mp hcounts ▸ fineCounts_summarize s.report
    · exact Option.some_inj.mp ht ▸ s.bounded
  | none =>
    cases hlookup : prev.lookup (target, image) with
    | none => exact ⟨htarget, himage, fun _ h => (nomatch h), fun _ h => nomatch h⟩
    | some entry =>
      have hentry := hprev.entry _ (Dict.mem_of_lookup hlookup)
      refine ⟨htarget, himage, fun counts hcounts => ?_, hentry.time⟩
      exact Option.some_inj.mp hcounts ▸ hentry.counts

theorem plain_literals : Plain "system" ∧ Plain "image" ∧ Plain "" := by
  unfold Plain
  decide

theorem fine_results {prev : Previous} (hprev : FinePrevious prev) (night : Night) :
    ∀ r ∈ results night prev, FineResult r := by
  intro r hr
  obtain rfl | hr := List.mem_cons.mp hr
  · exact fine_record hprev plain_literals.1 plain_literals.2.2 _
  · unfold imageResults at hr
    split_ifs at hr
    · cases hlisting : night.listing with
      | none =>
        rw [hlisting] at hr
        obtain ⟨item, hitem, rfl⟩ := List.mem_map.mp hr
        have hitem := (List.mem_filter.mp hitem).1
        have hentry := hprev.entry item hitem
        refine ⟨plain_literals.2.1, (hprev.plain item hitem).2, fun counts hcounts => ?_,
          hentry.time⟩
        exact Option.some_inj.mp hcounts ▸ hentry.counts
      | some lines =>
        rw [hlisting] at hr
        obtain ⟨i, hi, rfl⟩ := List.mem_map.mp hr
        obtain ⟨line, _, hline⟩ := List.mem_filterMap.mp hi
        refine fine_record hprev plain_literals.2.1 ?_ _
        cases line with
        | container _ _ => exact nomatch hline
        | image image_id tags digests size =>
          rw [← Option.some_inj.mp hline]
          exact plain_ref lines image_id tags digests size
    · exact nomatch hr

/-! ### The text over the nights -/

/-- A text that can be read, with fine entries. -/
def Fine (file : String) : Prop := ∃ prev, parse_previous file = some prev ∧ FinePrevious prev

theorem parse_empty : parse_previous "" = some [] := rfl

/-- What is published is rendered from the results of the night, with the entries of the old
text, or with none after a failed read. -/
theorem host_cases {night : Night} {file text : String} (hfile : Fine file)
    (h : host night file = some text) : ∃ prev, FinePrevious prev ∧
      text = render_metrics (results night prev) night.db_built ∧
      (night.readBack = .file → parse_previous file = some prev) ∧
      (night.readBack = .nothing → prev = []) := by
  unfold host readPublished at h
  cases hread : night.readBack with
  | file =>
    obtain ⟨prev, hprev, hfine⟩ := hfile
    rw [hread] at h
    simp only [Option.bind_some, hprev, Option.map_some] at h
    exact ⟨prev, hfine, (Option.some_inj.mp h).symm, fun _ => hprev, fun hc => nomatch hc⟩
  | nothing =>
    rw [hread] at h
    simp only [Option.bind_some, parse_empty, Option.map_some] at h
    exact ⟨[], finePrevious_nil, (Option.some_inj.mp h).symm, fun hc => (nomatch hc),
      fun _ => rfl⟩
  | raises =>
    rw [hread] at h
    exact nomatch h

/-- A run publishes, unless reading the old text raises. -/
theorem exists_host {night : Night} {file : String} (hfile : Fine file)
    (hread : night.readBack ≠ .raises) : ∃ text, host night file = some text := by
  unfold host readPublished
  cases h : night.readBack with
  | file =>
    obtain ⟨prev, hprev, _⟩ := hfile
    exact ⟨_, by rw [Option.bind_some, hprev, Option.map_some]⟩
  | nothing => exact ⟨_, by rw [Option.bind_some, parse_empty, Option.map_some]⟩
  | raises => exact absurd h hread

theorem published_append (nights : List Night) (night : Night) :
    published (nights ++ [night]) = (host night (published nights)).getD (published nights) := by
  rw [published, List.foldl_append]
  rfl

theorem fine_published (nights : List Night) : Fine (published nights) := by
  induction nights using List.reverseRecOn with
  | nil => exact ⟨[], parse_empty, finePrevious_nil⟩
  | append_singleton nights night ih =>
    rw [published_append]
    cases hhost : host night (published nights) with
    | none => exact ih
    | some text =>
      obtain ⟨prev, hprev, rfl, _⟩ := host_cases ih hhost
      exact fine_parse (fine_results hprev night) night.db_built

/-! ### Series -/

/-- The metric and the labels of each sample line. -/
def seriesOf (text : String) : List (String × Prom.Labels) := (splitlines text).filterMap Prom.series

/-- The labels of the images that are listed. -/
def Night.refs (night : Night) : List String :=
  if night.nixos then
    match night.listing with
    | none => []
    | some lines => (parse_image_inventory lines).map Image.ref
  else []

def countSeries (r : Result) : List (String × Prom.Labels) :=
  match r.counts with
  | none => []
  | some counts =>
    (counts.insertionSort BucketLe).map fun item => (VULNERABILITIES, bucketLabels r.key item.1)

def timeSeries (r : Result) : List (String × Prom.Labels) :=
  match r.scanned_at with
  | none => []
  | some t => if t = 0 then [] else [(TIMESTAMP, targetLabels r.key)]

def dbSeries : Option ℕ → List (String × Prom.Labels)
  | none => []
  | some built => if built = 0 then [] else [(DB_BUILT, [])]

theorem filterMap_map_some {α : Type} {items : List α} {line : α → String}
    {series : α → String × Prom.Labels}
    (h : ∀ item ∈ items, Prom.series (line item) = some (series item)) :
    (items.map line).filterMap Prom.series = items.map series := by
  rw [List.filterMap_map, ← List.filterMap_eq_map]
  exact List.filterMap_congr h

theorem filterMap_flatMap_eq {α : Type} {items : List α} {lines : α → List String}
    {series : α → List (String × Prom.Labels)}
    (h : ∀ item ∈ items, (lines item).filterMap Prom.series = series item) :
    (items.flatMap lines).filterMap Prom.series = items.flatMap series := by
  rw [List.filterMap_flatMap]
  exact List.flatMap_congr h

theorem series_append {lines more : List String} {series rest : List (String × Prom.Labels)}
    (h : lines.filterMap Prom.series = series) (hmore : more.filterMap Prom.series = rest) :
    (lines ++ more).filterMap Prom.series = series ++ rest := by
  rw [List.filterMap_append, h, hmore]

theorem series_append_none {lines more : List String} {series : List (String × Prom.Labels)}
    (h : lines.filterMap Prom.series = series) (hmore : more.filterMap Prom.series = []) :
    (lines ++ more).filterMap Prom.series = series := by
  rw [List.filterMap_append, h, hmore, List.append_nil]

theorem series_comments (a b : List Char) :
    [String.ofList ('#' :: a), String.ofList ('#' :: b)].filterMap Prom.series = [] := by
  have hcomment : ∀ rest, Prom.series (String.ofList ('#' :: rest)) = none := fun rest =>
    Prom.series_comment (by rw [String.toList_ofList]; rfl)
  rw [List.filterMap_cons_none (hcomment a), List.filterMap_cons_none (hcomment b)]
  rfl

theorem series_dbLines (db_built : Option ℕ) :
    (dbLines db_built).filterMap Prom.series = dbSeries db_built := by
  cases db_built with
  | none => rfl
  | some built =>
    rw [dbLines, dbSeries]
    split_ifs
    · rfl
    · have hquote : '"' ∉ (toString built).toList := fun hc =>
        ((value_toString built).2 _ hc).2.1 rfl
      have hline := Prom.series_bare word_names.2.2.2 hquote
      have hlast : [DB_BUILT ++ " " ++ toString built].filterMap Prom.series =
          [(DB_BUILT, [])] := by
        rw [List.filterMap_cons_some hline, List.filterMap_nil]
      exact series_append (series_comments _ _) hlast

/-- The series of the text, metric by metric. -/
theorem seriesOf_render {results : List Result} (h : ∀ r ∈ results, Readable r)
    (db_built : Option ℕ) : seriesOf (render_metrics results db_built) =
      results.flatMap countSeries ++ results.map (fun r => (SUCCESS, targetLabels r.key)) ++
        results.flatMap timeSeries ++ dbSeries db_built := by
  have hcounts : (results.flatMap countLines).filterMap Prom.series =
      results.flatMap countSeries := by
    refine filterMap_flatMap_eq fun r hr => ?_
    unfold countLines countSeries
    cases hcounts : r.counts with
    | none => rfl
    | some counts =>
      refine filterMap_map_some fun item hitem => ?_
      have hitem := (List.mem_insertionSort _).mp hitem
      have hplain := (h r hr).plain counts hcounts item hitem
      exact Prom.series_sample word_names.1 (plain_bucketLabels (h r hr).key hplain).readable
        fun hq => ((value_toString _).2 _ hq).2.1 rfl
  have hsuccess : (results.map fun r => successLine r.key r.ok).filterMap Prom.series =
      results.map fun r => (SUCCESS, targetLabels r.key) :=
    filterMap_map_some fun r hr =>
      Prom.series_sample word_names.2.1 (plain_targetLabels (h r hr).key).readable
        fun hq => ((value_ok _).2 _ hq).2.1 rfl
  have htimes : (results.flatMap timestampLines).filterMap Prom.series =
      results.flatMap timeSeries := by
    refine filterMap_flatMap_eq fun r hr => ?_
    unfold timestampLines timeSeries
    cases r.scanned_at with
    | none => rfl
    | some t =>
      dsimp only
      split_ifs
      · rfl
      · rw [List.filterMap_cons_some, List.filterMap_nil]
        exact Prom.series_sample word_names.2.2.1 (plain_targetLabels (h r hr).key).readable
          fun hq => ((value_toString _).2 _ hq).2.1 rfl
  rw [seriesOf, splitlines_render h, metricLines]
  refine series_append ?_ (series_dbLines db_built)
  refine series_append ?_ htimes
  refine series_append_none ?_ (series_comments _ _)
  refine series_append ?_ hsuccess
  refine series_append_none ?_ (series_comments _ _)
  exact series_append (series_comments _ _) hcounts

/-! ### No series twice -/

theorem targetLabels_inj {k k' : String × String} (h : targetLabels k = targetLabels k') :
    k = k' := by
  simp only [targetLabels, List.cons.injEq, Prod.mk.injEq, true_and, and_true] at h
  exact Prod.ext h.2 h.1

theorem bucketLabels_inj {k k' b b' : String × String} (h : bucketLabels k b = bucketLabels k' b') :
    k = k' ∧ b = b' := by
  simp only [bucketLabels, List.cons.injEq, Prod.mk.injEq, true_and, and_true] at h
  exact ⟨Prod.ext h.2.2.2 h.2.1, Prod.ext h.2.2.1 h.1⟩

theorem mem_countSeries {r : Result} {s : String × Prom.Labels} (h : s ∈ countSeries r) :
    ∃ b, s = (VULNERABILITIES, bucketLabels r.key b) := by
  unfold countSeries at h
  cases hcounts : r.counts with
  | none =>
    rw [hcounts] at h
    exact nomatch h
  | some counts =>
    rw [hcounts] at h
    obtain ⟨item, _, rfl⟩ := List.mem_map.mp h
    exact ⟨item.1, rfl⟩

theorem mem_timeSeries {r : Result} {s : String × Prom.Labels} (h : s ∈ timeSeries r) :
    s = (TIMESTAMP, targetLabels r.key) := by
  unfold timeSeries at h
  cases htime : r.scanned_at with
  | none =>
    rw [htime] at h
    exact nomatch h
  | some t =>
    simp only [htime] at h
    split_ifs at h
    · exact nomatch h
    · exact List.mem_singleton.mp h

theorem nodup_countSeries {r : Result} (h : FineResult r) : (countSeries r).Nodup := by
  unfold countSeries
  cases hcounts : r.counts with
  | none => exact List.nodup_nil
  | some counts =>
    have hsorted : ((counts.insertionSort BucketLe).map Prod.fst).Nodup :=
      ((List.perm_insertionSort BucketLe counts).map Prod.fst).nodup_iff.mpr
        (h.counts counts hcounts).nodup
    have hinj : Function.Injective fun b => (VULNERABILITIES, bucketLabels r.key b) :=
      fun b b' hb => (bucketLabels_inj (Prod.mk.inj hb).2).2
    have hbuckets := hsorted.map hinj
    rw [List.map_map] at hbuckets
    exact hbuckets

/-- The series of targets with different keys are different. -/
theorem nodup_flatMap_series {f : Result → List (String × Prom.Labels)} {results : List Result}
    (hself : ∀ r ∈ results, (f r).Nodup)
    (hkey : ∀ r r' s, s ∈ f r → s ∈ f r' → r.key = r'.key)
    (hnodup : (results.map Result.key).Nodup) : (results.flatMap f).Nodup := by
  rw [List.nodup_flatMap]
  refine ⟨hself, (List.pairwise_map.mp hnodup).imp fun {r r'} hne => ?_⟩
  exact fun s hs hs' => hne (hkey r r' s hs hs')

/-- Series of a metric that has no series yet. -/
theorem nodup_append_name {a b : List (String × Prom.Labels)} (ha : a.Nodup) (hb : b.Nodup)
    {name : String} (hname : ∀ s ∈ b, s.1 = name) (hother : ∀ s ∈ a, s.1 ≠ name) :
    (a ++ b).Nodup := by
  rw [List.nodup_append]
  refine ⟨ha, hb, fun s hs s' hs' he => hother s hs ?_⟩
  rw [he]
  exact hname s' hs'

theorem nodup_series_iff {results : List Result} (h : ∀ r ∈ results, FineResult r)
    (db_built : Option ℕ) : (seriesOf (render_metrics results db_built)).Nodup ↔
      (results.map Result.key).Nodup := by
  rw [seriesOf_render (readable_of_fine h)]
  constructor
  · -- each target has one success line
    intro hnodup
    have hsuccess := ((hnodup.of_append_left).of_append_left).of_append_right
    have hmap : (results.map fun r => (SUCCESS, targetLabels r.key)) =
        (results.map Result.key).map fun k => (SUCCESS, targetLabels k) := by
      rw [List.map_map]
      rfl
    rw [hmap] at hsuccess
    exact hsuccess.of_map
  · intro hnodup
    have hcounts : (results.flatMap countSeries).Nodup := by
      refine nodup_flatMap_series (fun r hr => nodup_countSeries (h r hr)) ?_ hnodup
      intro r r' s hs hs'
      obtain ⟨b, rfl⟩ := mem_countSeries hs
      obtain ⟨b', he⟩ := mem_countSeries hs'
      exact (bucketLabels_inj (Prod.mk.inj he).2).1
    have hsuccess : (results.map fun r => (SUCCESS, targetLabels r.key)).Nodup := by
      have hinj : Function.Injective fun k => (SUCCESS, targetLabels k) :=
        fun k k' hk => targetLabels_inj (Prod.mk.inj hk).2
      have hmap := hnodup.map hinj
      rw [List.map_map] at hmap
      exact hmap
    have htimes : (results.flatMap timeSeries).Nodup := by
      refine nodup_flatMap_series (fun r _ => ?_) ?_ hnodup
      · unfold timeSeries
        cases r.scanned_at with
        | none => exact List.nodup_nil
        | some t =>
          dsimp only
          split_ifs
          · exact List.nodup_nil
          · exact List.nodup_singleton _
      · intro r r' s hs hs'
        exact targetLabels_inj (Prod.mk.inj ((mem_timeSeries hs).symm.trans (mem_timeSeries hs'))).2
    have hdb : (dbSeries db_built).Nodup := by
      cases db_built with
      | none => exact List.nodup_nil
      | some built =>
        rw [dbSeries]
        split_ifs
        · exact List.nodup_nil
        · exact List.nodup_singleton _
    have hvulnerability : ∀ s ∈ results.flatMap countSeries, s.1 = VULNERABILITIES := by
      intro s hs
      obtain ⟨r, _, hs⟩ := List.mem_flatMap.mp hs
      obtain ⟨b, rfl⟩ := mem_countSeries hs
      rfl
    have hsuccessName : ∀ s ∈ results.map fun r => (SUCCESS, targetLabels r.key), s.1 = SUCCESS := by
      intro s hs
      obtain ⟨r, _, rfl⟩ := List.mem_map.mp hs
      rfl
    have htimeName : ∀ s ∈ results.flatMap timeSeries, s.1 = TIMESTAMP := by
      intro s hs
      obtain ⟨r, _, hs⟩ := List.mem_flatMap.mp hs
      rw [mem_timeSeries hs]
    have hdbName : ∀ s ∈ dbSeries db_built, s.1 = DB_BUILT := by
      cases db_built with
      | none => exact fun _ hs => nomatch hs
      | some built =>
        rw [dbSeries]
        split_ifs
        · exact fun _ hs => nomatch hs
        · intro s hs
          rw [List.mem_singleton.mp hs]
    refine nodup_append_name (nodup_append_name (nodup_append_name hcounts hsuccess
      hsuccessName ?_) htimes htimeName ?_) hdb hdbName ?_
    · exact fun s hs => hvulnerability s hs ▸ by decide
    · intro s hs
      obtain hs | hs := List.mem_append.mp hs
      · exact hvulnerability s hs ▸ by decide
      · exact hsuccessName s hs ▸ by decide
    · intro s hs
      obtain hs | hs := List.mem_append.mp hs
      · obtain hs | hs := List.mem_append.mp hs
        · exact hvulnerability s hs ▸ by decide
        · exact hsuccessName s hs ▸ by decide
      · exact htimeName s hs ▸ by decide

theorem key_record (prev : Previous) (target image : String) (scan : Option Scan) :
    (record prev target image scan).key = (target, image) := by
  unfold record
  cases scan with
  | some _ => rfl
  | none => cases prev.lookup (target, image) <;> rfl

/-- The images of last night are the keys that were read. -/
theorem keys_keepImages (prev : Previous) :
    (keepImages prev).map Result.key = Dict.keys (prev.filter fun item => item.1.1 = "image") := by
  rw [keepImages, List.map_map, Dict.keys]
  refine List.map_congr_left fun item hitem => ?_
  have himage : item.1.1 = "image" := by simpa using (List.mem_filter.mp hitem).2
  exact Prod.ext himage.symm rfl

theorem keys_imageResults (night : Night) (prev : Previous) :
    (imageResults night prev).map Result.key =
      if night.nixos ∧ night.listing = none then
        Dict.keys (prev.filter fun item => item.1.1 = "image")
      else night.refs.map fun ref => ("image", ref) := by
  unfold imageResults Night.refs
  cases night.nixos with
  | false => rfl
  | true =>
    cases night.listing with
    | none => exact keys_keepImages prev
    | some lines =>
      have hlisted : ¬ (true = true ∧ some lines = none) := fun h => nomatch h.2
      rw [if_neg hlisted]
      show ((parse_image_inventory lines).map _).map Result.key =
        ((parse_image_inventory lines).map Image.ref).map _
      rw [List.map_map, List.map_map]
      exact List.map_congr_left fun i _ => key_record prev "image" i.ref _

theorem keys_results {prev : Previous} (hprev : FinePrevious prev) (night : Night) :
    ((results night prev).map Result.key).Nodup ↔ night.refs.Nodup := by
  have himage : ∀ k ∈ (imageResults night prev).map Result.key, k.1 = "image" := by
    rw [keys_imageResults]
    intro k hk
    split_ifs at hk
    · obtain ⟨item, hitem, rfl⟩ := List.mem_map.mp hk
      simpa using (List.mem_filter.mp hitem).2
    · obtain ⟨ref, _, rfl⟩ := List.mem_map.mp hk
      rfl
  have hsystem : (record prev "system" "" night.system).key ∉
      (imageResults night prev).map Result.key := by
    rw [key_record]
    exact fun hmem => absurd (himage _ hmem) (by decide)
  rw [results, List.map_cons, List.nodup_cons, and_iff_right hsystem, keys_imageResults]
  split_ifs with hfailed
  · -- the old keys are distinct, and nothing is listed
    have hrefs : night.refs = [] := by
      rw [Night.refs, if_pos hfailed.1, hfailed.2]
    rw [hrefs]
    have hsub := (List.filter_sublist (l := prev) (p := fun item => item.1.1 = "image")).map Prod.fst
    exact iff_of_true (hprev.nodup.sublist hsub) List.nodup_nil
  · have hinj : Function.Injective fun ref : String => ("image", ref) :=
      fun _ _ h => (Prod.mk.inj h).2
    exact List.nodup_map_iff hinj

/-- A published text has no series twice exactly where the images of the night have different
labels. -/
theorem series_nodup_iff (nights : List Night) (night : Night) (text : String)
    (h : host night (published nights) = some text) :
    (seriesOf text).Nodup ↔ night.refs.Nodup := by
  obtain ⟨prev, hprev, rfl, _⟩ := host_cases (fine_published nights) h
  exact (nodup_series_iff (fine_results hprev night) night.db_built).trans
    (keys_results hprev night)

theorem plain_postgres : Plain "postgres:16@sha256:a" ∧ Plain "postgres:16@sha256:b" ∧
    Plain "sha256:1" ∧ Plain "sha256:2" := by
  unfold Plain
  decide

/-- Two images of one tag with different digests. -/
def twoDigests : Night where
  nixos := true
  readBack := .file
  system := none
  listing := some
    [.container ⟨"sha256:1", plain_postgres.2.2.1⟩ ⟨"postgres:16@sha256:a", plain_postgres.1⟩,
      .container ⟨"sha256:2", plain_postgres.2.2.2⟩ ⟨"postgres:16@sha256:b", plain_postgres.2.1⟩,
      .image ⟨"sha256:1", plain_postgres.2.2.1⟩ [] [] none,
      .image ⟨"sha256:2", plain_postgres.2.2.2⟩ [] [] none]
  image := fun _ => none
  db_built := none

theorem series_nodup_iff_twoDigests : ∃ text, host twoDigests (published []) = some text ∧
    ((seriesOf text).Nodup ↔ twoDigests.refs.Nodup) :=
  ⟨_, rfl, series_nodup_iff [] twoDigests _ rfl⟩

/-- Both have one label, and the text has their success line twice. -/
theorem one_label : ∃ text, host twoDigests (published []) = some text ∧
    ¬ (seriesOf text).Nodup := by
  have hrefs : twoDigests.refs = ["postgres:16", "postgres:16"] := by decide +kernel
  refine ⟨_, rfl, fun hnodup => ?_⟩
  have hkeys := (nodup_series_iff (fine_results finePrevious_nil twoDigests) none).mp hnodup
  have hdistinct := (keys_results finePrevious_nil twoDigests).mp hkeys
  rw [hrefs] at hdistinct
  exact absurd hdistinct (by decide)

/-! ### The last good scan -/

/-- What a night says of a target. -/
inductive Outcome where
  | scanned (counts : Counts) (time : ℕ)
  | failed
  | absent

def outcomeOf : Option Scan → Outcome
  | some s => .scanned (summarize s.report) s.time
  | none => .failed

/-- Where the listing fails, any image may be running: none of them is scanned. -/
def outcome (night : Night) (key : String × String) : Outcome :=
  if key = ("system", "") then outcomeOf night.system
  else if key.1 = "image" ∧ night.nixos then
    match night.listing with
    | none => .failed
    | some lines =>
      match (parse_image_inventory lines).find? fun i => i.ref = key.2 with
      | some i => outcomeOf (night.image i.image_id)
      | none => .absent
  else .absent

/-- A run that raises before it scans says nothing. -/
def nextGood (night : Night) (key : String × String) (good : Option (Counts × ℕ)) :
    Option (Counts × ℕ) :=
  if night.readBack = .raises then good
  else
    match outcome night key with
    | .scanned counts time => some (counts, time)
    | .failed => good
    | .absent => none

/-- The last successful scan of a target that has been in the inventory since. -/
def lastGood (nights : List Night) (key : String × String) : Option (Counts × ℕ) :=
  nights.foldl (fun good night => nextGood night key good) none

/-- The text has these counts and this time for a target, and says that its scan failed. -/
def Carries (text : String) (key : String × String) (counts : Counts) (time : ℕ) : Prop :=
  (∀ item ∈ counts, countLine key item ∈ splitlines text) ∧
    timestampLine key time ∈ splitlines text ∧ successLine key false ∈ splitlines text

/-- The night publishes a text that carries the last good scan of each target that failed. -/
def KeepsLastGood (before : List Night) (night : Night) : Prop :=
  night.readBack ≠ .raises → ∃ text, host night (published before) = some text ∧
    ∀ key counts time, outcome night key = .failed →
      lastGood before key = some (counts, time) → Carries text key counts time

/-- No read of the old text fails while a target has a scan to keep. -/
def Remembered (before : List Night) (night : Night) : Prop :=
  night.readBack = .nothing → ∀ key, outcome night key = .failed → lastGood before key = none

/-- The text after some nights has the last good scan of every target. -/
def Kept (nights : List Night) : Prop :=
  ∀ key counts time, lastGood nights key = some (counts, time) → time ≠ 0 ∧
    ∃ prev stored, parse_previous (published nights) = some prev ∧ stored.Perm counts ∧
      prev.lookup key = some (stored, some time)

theorem lastGood_append (nights : List Night) (night : Night) (key : String × String) :
    lastGood (nights ++ [night]) key = nextGood night key (lastGood nights key) := by
  rw [lastGood, List.foldl_append]
  rfl

/-- A target that was scanned is in the results. -/
theorem result_of_scanned (night : Night) (prev : Previous) {key : String × String}
    {counts : Counts} {time : ℕ} (h : outcome night key = .scanned counts time) :
    time ≠ 0 ∧ ∃ r ∈ results night prev, r.key = key ∧ r.counts = some counts ∧
      r.scanned_at = some time := by
  have hscan : ∀ {target image : String} {scan : Option Scan},
      outcomeOf scan = .scanned counts time → time ≠ 0 ∧
        (record prev target image scan).counts = some counts ∧
        (record prev target image scan).scanned_at = some time := by
    intro target image scan hscan
    cases scan with
    | none => exact nomatch hscan
    | some s =>
      obtain ⟨rfl, rfl⟩ := Outcome.scanned.inj hscan
      exact ⟨Nat.pos_iff_ne_zero.mp s.positive, rfl, rfl⟩
  unfold outcome at h
  split_ifs at h with hsystem himage
  · obtain ⟨htime, hcounts, hat⟩ := hscan h
    exact ⟨htime, _, List.mem_cons_self, (key_record prev "system" "" _).trans hsystem.symm,
      hcounts, hat⟩
  · cases hlisting : night.listing with
    | none =>
      rw [hlisting] at h
      exact nomatch h
    | some lines =>
      simp only [hlisting] at h
      cases hfind : (parse_image_inventory lines).find? fun i => i.ref = key.2 with
      | none =>
        rw [hfind] at h
        exact nomatch h
      | some i =>
        rw [hfind] at h
        obtain ⟨htime, hcounts, hat⟩ := hscan h
        have href : i.ref = key.2 := by simpa using List.find?_some hfind
        refine ⟨htime, record prev "image" i.ref (night.image i.image_id), ?_, ?_, hcounts, hat⟩
        · refine List.mem_cons_of_mem _ ?_
          rw [imageResults, if_pos himage.2, hlisting]
          exact List.mem_map.mpr ⟨i, List.mem_of_find?_eq_some hfind, rfl⟩
        · rw [key_record, href]
          exact Prod.ext himage.1.symm rfl

/-- A target that failed is in the results with its old entry. -/
theorem result_of_failed (night : Night) {prev : Previous} {key : String × String}
    {counts : Counts} {ts : Option ℕ} (h : outcome night key = .failed)
    (hprev : prev.lookup key = some (counts, ts)) :
    ∃ r ∈ results night prev, r.key = key ∧ r.ok = false ∧ r.counts = some counts ∧
      r.scanned_at = ts := by
  have hscan : ∀ {target image : String} {scan : Option Scan}, outcomeOf scan = .failed →
      (target, image) = key → (record prev target image scan).ok = false ∧
        (record prev target image scan).counts = some counts ∧
        (record prev target image scan).scanned_at = ts := by
    rintro target image scan hscan rfl
    cases scan with
    | some s => exact nomatch hscan
    | none =>
      unfold record
      simp only [hprev, and_self]
  unfold outcome at h
  split_ifs at h with hsystem himage
  · exact ⟨_, List.mem_cons_self, (key_record prev "system" "" _).trans hsystem.symm,
      hscan h hsystem.symm⟩
  · cases hlisting : night.listing with
    | none =>
      refine ⟨⟨"image", key.2, false, some counts, ts⟩, ?_, Prod.ext himage.1.symm rfl, rfl, rfl,
        rfl⟩
      refine List.mem_cons_of_mem _ ?_
      rw [imageResults, if_pos himage.2, hlisting]
      refine List.mem_map.mpr ⟨(key, counts, ts), List.mem_filter.mpr ⟨?_, ?_⟩, rfl⟩
      · exact Dict.mem_of_lookup hprev
      · simpa using himage.1
    | some lines =>
      simp only [hlisting] at h
      cases hfind : (parse_image_inventory lines).find? fun i => i.ref = key.2 with
      | none =>
        rw [hfind] at h
        exact nomatch h
      | some i =>
        rw [hfind] at h
        have href : i.ref = key.2 := by simpa using List.find?_some hfind
        have hkey : ("image", i.ref) = key := Prod.ext himage.1.symm href
        refine ⟨record prev "image" i.ref (night.image i.image_id), ?_, ?_, hscan h hkey⟩
        · refine List.mem_cons_of_mem _ ?_
          rw [imageResults, if_pos himage.2, hlisting]
          exact List.mem_map.mpr ⟨i, List.mem_of_find?_eq_some hfind, rfl⟩
        · rw [key_record, hkey]

/-- The text carries what a failed result has. -/
theorem carries_render {results : List Result} (h : ∀ r ∈ results, FineResult r)
    (db_built : Option ℕ) {r : Result} (hr : r ∈ results) (hok : r.ok = false)
    {stored counts : Counts} (hstored : r.counts = some stored) (hperm : stored.Perm counts)
    {time : ℕ} (htime : r.scanned_at = some time) (hne : time ≠ 0) :
    Carries (render_metrics results db_built) r.key counts time := by
  unfold Carries
  rw [splitlines_render (readable_of_fine h)]
  simp only [metricLines, List.mem_append, List.mem_flatMap, List.mem_map]
  refine ⟨fun item hitem => ?_, ?_, ?_⟩
  · have hline : countLine r.key item ∈ countLines r := by
      rw [countLines, hstored]
      exact List.mem_map.mpr ⟨item, (List.mem_insertionSort _).mpr (hperm.mem_iff.mpr hitem), rfl⟩
    exact .inl (.inl (.inl (.inl (.inl (.inr ⟨r, hr, hline⟩)))))
  · have hline : timestampLine r.key time ∈ timestampLines r := by
      rw [timestampLines, htime]
      dsimp only
      rw [if_neg hne]
      exact List.mem_singleton.mpr rfl
    exact .inl (.inr ⟨r, hr, hline⟩)
  · exact .inl (.inl (.inl (.inr ⟨r, hr, by rw [hok]⟩)))

theorem kept_nil : Kept [] := fun _ _ _ h => nomatch h

/-- A night that raises leaves everything as it was. -/
theorem host_raises {night : Night} (h : night.readBack = .raises) (file : String) :
    host night file = none := by
  unfold host readPublished
  rw [h]
  rfl

/-- The entry that a run finds for a target that has a scan to keep. -/
theorem lookup_of_kept {before : List Night} {night : Night} (hkept : Kept before)
    (hremembered : Remembered before night) {prev : Previous}
    (hfile : night.readBack = .file → parse_previous (published before) = some prev)
    {key : String × String} {counts : Counts} {time : ℕ}
    (hfailed : outcome night key = .failed) (hgood : lastGood before key = some (counts, time))
    (hraises : night.readBack ≠ .raises) :
    time ≠ 0 ∧ ∃ stored : Counts, stored.Perm counts ∧
      prev.lookup key = some (stored, some time) := by
  obtain ⟨hne, old, stored, hold, hperm, hlookup⟩ := hkept key counts time hgood
  cases hread : night.readBack with
  | file =>
    rw [hfile hread] at hold
    obtain rfl := Option.some_inj.mp hold
    exact ⟨hne, stored, hperm, hlookup⟩
  | nothing =>
    rw [hremembered hread key hfailed] at hgood
    exact nomatch hgood
  | raises => exact absurd hread hraises

/-- One night. -/
theorem keepsLastGood_step {before : List Night} {night : Night} (hkept : Kept before)
    (hrefs : night.refs.Nodup) (hremembered : Remembered before night) :
    KeepsLastGood before night ∧ Kept (before ++ [night]) := by
  by_cases hraises : night.readBack = .raises
  · refine ⟨fun h => absurd hraises h, fun key counts time hgood => ?_⟩
    rw [lastGood_append, nextGood, if_pos hraises] at hgood
    rw [published_append, host_raises hraises]
    exact hkept key counts time hgood
  · obtain ⟨text, htext⟩ := exists_host (fine_published before) hraises
    obtain ⟨prev, hprev, rfl, hfile, _⟩ := host_cases (fine_published before) htext
    have hfine := fine_results hprev night
    have hkeys := (keys_results hprev night).mpr hrefs
    constructor
    · refine fun _ => ⟨_, htext, fun key counts time hfailed hgood => ?_⟩
      obtain ⟨hne, stored, hperm, hlookup⟩ :=
        lookup_of_kept hkept hremembered hfile hfailed hgood hraises
      obtain ⟨r, hr, rfl, hok, hcounts, hat⟩ := result_of_failed night hfailed hlookup
      exact carries_render hfine night.db_built hr hok hcounts hperm hat hne
    · intro key counts time hgood
      rw [lastGood_append, nextGood, if_neg hraises] at hgood
      rw [published_append, htext, Option.getD_some, parse_render (readable_of_fine hfine)]
      -- the entry is in the results, by a scan of this night or from the old text
      have hresult : time ≠ 0 ∧ ∃ r ∈ results night prev, r.key = key ∧ ∃ stored : Counts,
          stored.Perm counts ∧ r.counts = some stored ∧ r.scanned_at = some time := by
        cases hnight : outcome night key with
        | scanned c t =>
          rw [hnight] at hgood
          obtain ⟨rfl, rfl⟩ := Prod.mk.inj (Option.some_inj.mp hgood)
          obtain ⟨hne, r, hr, hkey, hcounts, hat⟩ := result_of_scanned night prev hnight
          exact ⟨hne, r, hr, hkey, c, List.Perm.refl c, hcounts, hat⟩
        | failed =>
          rw [hnight] at hgood
          obtain ⟨hne, stored, hperm, hlookup⟩ :=
            lookup_of_kept hkept hremembered hfile hnight hgood hraises
          obtain ⟨r, hr, hkey, _, hcounts, hat⟩ := result_of_failed night hnight hlookup
          exact ⟨hne, r, hr, hkey, stored, hperm, hcounts, hat⟩
        | absent =>
          rw [hnight] at hgood
          exact nomatch hgood
      obtain ⟨hne, r, hr, rfl, stored, hperm, hcounts, hat⟩ := hresult
      refine ⟨hne, _, stored.insertionSort BucketLe, rfl,
        (List.perm_insertionSort BucketLe stored).trans hperm, ?_⟩
      exact lookup_parse hkeys hr hcounts ((hfine r hr).counts stored hcounts) hat hne

/-- Every night with distinct labels that reads the old text back keeps the last good scans. -/
theorem keepsLastGood_of_remembered (nights : List Night)
    (h : ∀ before night after, nights = before ++ night :: after →
      night.refs.Nodup ∧ Remembered before night) :
    ∀ before night after, nights = before ++ night :: after → KeepsLastGood before night := by
  have hkept : ∀ before after, nights = before ++ after → Kept before := by
    intro before
    induction before using List.reverseRecOn with
    | nil => exact fun _ _ => kept_nil
    | append_singleton before night ih =>
      intro after hnights
      rw [List.append_assoc] at hnights
      obtain ⟨hrefs, hremembered⟩ := h before night after hnights
      exact (keepsLastGood_step (ih _ hnights) hrefs hremembered).2
  intro before night after hnights
  obtain ⟨hrefs, hremembered⟩ := h before night after hnights
  exact (keepsLastGood_step (hkept before _ hnights) hrefs hremembered).1

/-- A night on which the system is scanned, and no containers run. -/
def goodNight : Night where
  nixos := true
  readBack := .file
  system := some ⟨⟨[], by decide⟩, 1000, by decide, by decide⟩
  listing := some []
  image := fun _ => none
  db_built := none

/-- A night on which the scan fails. -/
def failedNight : Night := { goodNight with system := none }

/-- A night on which the old text cannot be read either. -/
def lostNight : Night := { failedNight with readBack := .nothing }

theorem keepsLastGood_failedNight : KeepsLastGood [goodNight] failedNight := by
  refine keepsLastGood_of_remembered [goodNight, failedNight] ?_ [goodNight] failedNight [] rfl
  intro before night after hnights
  have hmem : night ∈ [goodNight, failedNight] := by
    rw [hnights]
    exact List.mem_append_right _ List.mem_cons_self
  simp only [List.mem_cons, List.not_mem_nil, or_false] at hmem
  obtain rfl | rfl := hmem
  · exact ⟨by decide, fun h => nomatch h⟩
  · exact ⟨by decide, fun h => nomatch h⟩

/-- The scan of the first night is lost. -/
theorem forgotten : ¬ KeepsLastGood [goodNight] lostNight := by
  intro h
  obtain ⟨text, htext, hcarries⟩ := h (by decide)
  obtain ⟨_, htime, _⟩ := hcarries ("system", "") _ 1000 rfl rfl
  have hrender : text = render_metrics (results lostNight []) none :=
    (Option.some_inj.mp htext).symm
  have hfine := readable_of_fine (fine_results finePrevious_nil lostNight)
  rw [hrender, splitlines_render hfine] at htime
  -- no result has a time
  have hsample := (reads_metricLines hfine none).mem htime
    (readLine_timestampLine ⟨plain_literals.1, plain_literals.2.2⟩ (exact_of_lt (by decide)))
  exact nomatch hsample

end CveScan
