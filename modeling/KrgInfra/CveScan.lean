/-
The nightly vulnerability scan of one host (`cve-scan.py`), and the text file that it publishes.

What a night keeps of the nights before it is what `parse_previous` reads out of the published
text: the counts and the time of the last good scan of each target.

* `container_ref`, `parse_image_inventory` — the label of an image;
* `summarize`, `render_metrics`, `parse_previous` — counts, and the text in both directions;
* `Night`, `host` — one run for one host: what fails that night, and what is published;
* `published` — the text after some nights.
-/
import KrgInfra.Dict
import KrgInfra.PromText
import Mathlib

namespace CveScan

open Python

/-! ### Image labels -/

/-- A text that a label can carry: it has no quotes and no line breaks. -/
def Plain (s : String) : Prop := ∀ c ∈ s.toList, c ≠ '"' ∧ isLineBreak c = false

/-- An image id, or a reference such as `postgres:16.15@sha256:…`. -/
structure Reference where
  text : String
  plain : Plain text

/-- `r.split("@", 1)[0]` -/
def beforeAt (r : String) : String := String.ofList (r.toList.takeWhile (· ≠ '@'))

/-- `(-len(n), n)`: the longest name first, then by the alphabet. -/
def Before (m n : String) : Prop :=
  n.length < m.length ∨ n.length = m.length ∧ ¬ n < m

instance : DecidableRel Before := fun _ _ => inferInstanceAs (Decidable (_ ∨ _))

/-- The label for an image from the references its containers were created from. -/
def container_ref (refs : List Reference) : Option String :=
  (((refs.filter fun r => r.text ≠ "" ∧ ¬ "sha256:".toList <+: r.text.toList).map
    fun r => beforeAt r.text).insertionSort Before).head?

/-- A line of `DOCKER_IMAGES`, as it is split at the tabs: a container's image and reference, or
an image with its tags, its digests and its size. -/
inductive InventoryLine where
  | container (image_id ref : Reference)
  | image (image_id : Reference) (tags : List Reference) (digests : List String)
      (size : Option ℕ)

/-- The containers' references of an image. -/
def refsOf (lines : List InventoryLine) (image_id : Reference) : List Reference :=
  lines.filterMap fun
    | .container i ref => if i.text = image_id.text then some ref else none
    | .image .. => none

/-- `x or fallback`, of a text that may be missing. -/
def orElse (x : Option String) (fallback : String) : String :=
  match x with
  | some s => if s = "" then fallback else s
  | none => fallback

/-- `ref.rsplit(":", 1)[0] if ":" in ref.split("/")[-1] else ref` -/
def repository (ref : String) : String :=
  if ':' ∈ ref.toList.reverse.takeWhile (· ≠ '/') then
    String.ofList ((ref.toList.reverse.dropWhile (· ≠ ':')).drop 1).reverse
  else ref

/-- An image of the inventory: its id, the label, the digest and the size. -/
structure Image where
  image_id : String
  ref : String
  digest : Option String
  size : Option ℕ

/-- `parse_image_inventory`, of one image's line. -/
def imageOf (lines : List InventoryLine) (image_id : Reference) (tags : List Reference)
    (digests : List String) (size : Option ℕ) : Image :=
  let ref := orElse (container_ref (refsOf lines image_id))
    (match tags with
      | tag :: _ => tag.text
      | [] => String.ofList (image_id.text.toList.take 19))
  { image_id := image_id.text
    ref
    digest := (digests.find? fun d => beforeAt d = repository ref).or digests.head?
    size }

def parse_image_inventory (lines : List InventoryLine) : List Image :=
  lines.filterMap fun
    | .container .. => none
    | .image image_id tags digests size => some (imageOf lines image_id tags digests size)

/-! ### Counts -/

def SEVERITIES : List String := ["critical", "high", "medium", "low", "negligible", "unknown"]

def FIXES : List String := ["available", "none"]

/-- `{(severity, fix): count}` -/
abbrev Counts : Type := List ((String × String) × ℕ)

/-- What `summarize` reads of a match of a grype report. -/
structure Match where
  id : Option String
  name : Option String
  version : Option String
  severity : Option String
  fixState : Option String

/-- A report has fewer matches than a float can count. -/
structure Report where
  allMatches : List Match
  bounded : allMatches.length < 2 ^ 53

/-- The bucket of a match. -/
def bucket (m : Match) : String × String :=
  let sev := (orElse m.severity "unknown").toLower
  (if sev ∈ SEVERITIES then sev else "unknown",
    if m.fixState = some "fixed" then "available" else "none")

/-- One match: a CVE that was seen against the same package is not counted again. -/
def tally (state : Counts × List (Option String × Option String × Option String)) (m : Match) :
    Counts × List (Option String × Option String × Option String) :=
  let key := (m.id, m.name, m.version)
  if key ∈ state.2 then state
  else (Dict.set state.1 (bucket m) ((state.1.lookup (bucket m)).getD 0 + 1), key :: state.2)

/-- Every bucket, with nothing in it. -/
def noCounts : Counts := SEVERITIES.flatMap fun s => FIXES.map fun f => ((s, f), 0)

def summarize (report : Report) : Counts := (report.allMatches.foldl tally (noCounts, [])).1

/-! ### The published text -/

/-- The entry of a target in the results of a night. -/
structure Result where
  target : String
  image : String
  ok : Bool
  counts : Option Counts
  scanned_at : Option ℕ

/-- `(target, image)` -/
def Result.key (r : Result) : String × String := (r.target, r.image)

def VULNERABILITIES : String := "krg_cve_vulnerabilities"

def SUCCESS : String := "krg_cve_scan_success"

def TIMESTAMP : String := "krg_cve_scan_timestamp_seconds"

def DB_BUILT : String := "krg_cve_db_built_timestamp_seconds"

/-- `_labels`, sorted by the names of the labels. -/
def bucketLabels (key sf : String × String) : Prom.Labels :=
  [("fix", sf.2), ("image", key.2), ("severity", sf.1), ("target", key.1)]

def targetLabels (key : String × String) : Prom.Labels := [("image", key.2), ("target", key.1)]

/-- `sorted(counts.items())` looks at the buckets only: they are distinct. -/
def BucketLe (a b : (String × String) × ℕ) : Prop :=
  a.1.1 < b.1.1 ∨ a.1.1 = b.1.1 ∧ ¬ b.1.2 < a.1.2

instance : DecidableRel BucketLe := fun _ _ => inferInstanceAs (Decidable (_ ∨ _))

def countLine (key : String × String) (item : (String × String) × ℕ) : String :=
  Prom.sample VULNERABILITIES (bucketLabels key item.1) (toString item.2)

def countLines (r : Result) : List String :=
  match r.counts with
  | none => []
  | some counts => (counts.insertionSort BucketLe).map (countLine r.key)

def successLine (key : String × String) (ok : Bool) : String :=
  Prom.sample SUCCESS (targetLabels key) (if ok then "1" else "0")

def timestampLine (key : String × String) (time : ℕ) : String :=
  Prom.sample TIMESTAMP (targetLabels key) (toString time)

/-- `if r.get("scanned_at")`: neither `None` nor zero. -/
def timestampLines (r : Result) : List String :=
  match r.scanned_at with
  | none => []
  | some time => if time = 0 then [] else [timestampLine r.key time]

def dbLines : Option ℕ → List String
  | none => []
  | some built =>
    if built = 0 then []
    else
      ["# HELP krg_cve_db_built_timestamp_seconds Build time of the grype vulnerability DB used.",
        "# TYPE krg_cve_db_built_timestamp_seconds gauge",
        DB_BUILT ++ " " ++ toString built]

/-- The lines of the text. -/
def metricLines (results : List Result) (db_built : Option ℕ) : List String :=
  ["# HELP krg_cve_vulnerabilities Vulnerability matches by severity and fix availability (grype).",
    "# TYPE krg_cve_vulnerabilities gauge"] ++
  results.flatMap countLines ++
  ["# HELP krg_cve_scan_success Whether this target was scanned successfully on the last run.",
    "# TYPE krg_cve_scan_success gauge"] ++
  results.map (fun r => successLine r.key r.ok) ++
  ["# HELP krg_cve_scan_timestamp_seconds Time of the last successful scan of this target.",
    "# TYPE krg_cve_scan_timestamp_seconds gauge"] ++
  results.flatMap timestampLines ++
  dbLines db_built

def render_metrics (results : List Result) (db_built : Option ℕ) : String :=
  unlines (metricLines results db_built)

/-! ### Reading it back -/

/-- The double nearest to a number, ties to the even one. -/
def toDouble (n : ℕ) : ℕ :=
  let ulp := 2 ^ (n.log2 - 52)
  let q := n / ulp
  if ulp < 2 * (n % ulp) ∨ (ulp = 2 * (n % ulp) ∧ q % 2 = 1) then (q + 1) * ulp else q * ulp

/-- `float(s)`, of the values that are written: base ten, without sign or fraction.  On other
texts it is taken to raise. -/
def float (s : List Char) : Option ℕ :=
  if s ≠ [] ∧ ∀ c ∈ s, c.isDigit then
    let n := toDouble (Nat.ofDigitChars 10 s 0)
    if n < 2 ^ 1024 then some n else none
  else none

/-- `dict(labels).get(name)`: of equal names the last one counts. -/
def get (labels : Prom.Labels) (name : String) : Option String := labels.reverse.lookup name

/-- What a line says about its target: the count of a bucket, or the time of the last scan. -/
inductive Datum where
  | count (bucket : String × String) (n : ℕ)
  | time (t : ℕ)

/-- The target and the datum of a line; `some none` for the lines that are not read, and `none`
where the value is no number.  A missing severity or fix is `None`, which prints so. -/
def readLine (line : String) : Option (Option ((String × String) × Datum)) :=
  match Prom.matchSample VULNERABILITIES line with
  | some (text, value) =>
    let labels := Prom.findLabels text
    (float value).map fun n =>
      some (((get labels "target").getD "", (get labels "image").getD ""),
        .count ((get labels "severity").getD "None", (get labels "fix").getD "None") n)
  | none =>
    match Prom.matchSample TIMESTAMP line with
    | some (text, value) =>
      let labels := Prom.findLabels text
      (float value).map fun n =>
        some (((get labels "target").getD "", (get labels "image").getD ""), .time n)
    | none => some none

/-- `{(target, image): (counts, scanned_at)}` -/
abbrev Previous : Type := List ((String × String) × Counts × Option ℕ)

/-- What a line adds to the entry of its target. -/
def store (entry : Option (Counts × Option ℕ)) (sample : (String × String) × Datum) :
    Counts × Option ℕ :=
  let (counts, ts) := entry.getD ([], none)
  match sample.2 with
  | .count bucket n => (Dict.set counts bucket n, ts)
  | .time t => (counts, some t)

/-- `parse_previous`; a value that is no number raises, whatever was read before. -/
def parse_previous (text : String) : Option Previous :=
  ((splitlines text).mapM readLine).map fun samples =>
    samples.reduceOption.foldl (Dict.update Prod.fst store) []

/-! ### A night -/

/-- A scan that succeeds: the report, and the time in whole seconds. -/
structure Scan where
  report : Report
  time : ℕ
  positive : 0 < time
  bounded : time < 2 ^ 53

/-- How `_read_published` ends: with the file, with nothing after a failed command, or with an
exception that ends the run for the host. -/
inductive ReadBack where
  | file
  | nothing
  | raises
deriving DecidableEq

/-- What a run meets on one host: the scans and the listing, `none` where they fail. -/
structure Night where
  nixos : Bool
  readBack : ReadBack
  system : Option Scan
  listing : Option (List InventoryLine)
  image : String → Option Scan
  db_built : Option ℕ

/-- `record` -/
def record (prev : Previous) (target image : String) (scan : Option Scan) : Result :=
  match scan with
  | some s => ⟨target, image, true, some (summarize s.report), some s.time⟩
  | none =>
    match prev.lookup (target, image) with
    | some (counts, ts) => ⟨target, image, false, some counts, ts⟩
    | none => ⟨target, image, false, none, none⟩

/-- Last night's images, marked failed. -/
def keepImages (prev : Previous) : List Result :=
  (prev.filter fun item => item.1.1 = "image").map fun item =>
    ⟨"image", item.1.2, false, some item.2.1, item.2.2⟩

/-- The results of the images. -/
def imageResults (night : Night) (prev : Previous) : List Result :=
  if night.nixos then
    match night.listing with
    | none => keepImages prev
    | some lines => (parse_image_inventory lines).map fun i =>
        record prev "image" i.ref (night.image i.image_id)
  else []

def results (night : Night) (prev : Previous) : List Result :=
  record prev "system" "" night.system :: imageResults night prev

/-- `_read_published` -/
def readPublished (readBack : ReadBack) (file : String) : Option String :=
  match readBack with
  | .file => some file
  | .nothing => some ""
  | .raises => none

/-- `Scanner.host`: the text that is published; `none` where the run raises before that. -/
def host (night : Night) (file : String) : Option String :=
  (readPublished night.readBack file).bind fun text =>
    (parse_previous text).map fun prev => render_metrics (results night prev) night.db_built

/-- The published text after some nights; there is no file before the first one. -/
def published (nights : List Night) : String :=
  nights.foldl (fun file night => (host night file).getD file) ""

end CveScan
