/-
The text format of metrics, as a server reads it.

A line is a comment, or a sample `name{label="value",…} value`; in a label value a backslash, a
quote and a line feed are escaped.

* `readSample`, `readMetrics` — a sample, and the samples of a text that is well formed;
* `escaped`, `Line.text` — a label value and a line as they are written;
* `readSample_written`, `readMetrics_unlines` — what is written is read back.

Samples without labels, and those with a time of their own, are left out.
-/
import KrgInfra.PromText

namespace Exposition

open Python Prom

structure Sample where
  name : String
  labels : Labels
  value : String
  deriving DecidableEq

/-! ### Reading -/

/-- Where the reader of labels stands. -/
inductive Pos where
  | name (w : List Char)
  | equals (name : List Char)
  | value (name v : List Char)
  | escape (name v : List Char)
  | next

/-- The labels up to `}`, and what follows. -/
def labelsFrom (labels : Labels) : Pos → List Char → Option (Labels × List Char)
  | _, [] => none
  | .name w, c :: text =>
    if c = '=' then labelsFrom labels (.equals w) text
    else if isWord c then labelsFrom labels (.name (w ++ [c])) text
    else none
  | .equals name, c :: text =>
    if c = '"' then labelsFrom labels (.value name []) text else none
  | .value name v, c :: text =>
    if c = '"' then labelsFrom (labels ++ [(String.ofList name, String.ofList v)]) .next text
    else if c = '\\' then labelsFrom labels (.escape name v) text
    else labelsFrom labels (.value name (v ++ [c])) text
  | .escape name v, c :: text =>
    if c = '\\' ∨ c = '"' then labelsFrom labels (.value name (v ++ [c])) text
    else if c = 'n' then labelsFrom labels (.value name (v ++ ['\n'])) text
    else none
  | .next, c :: text =>
    if c = ',' then labelsFrom labels (.name []) text
    else if c = '}' then some (labels, text)
    else none

def readSample (line : List Char) : Option Sample :=
  if line.takeWhile isWord = [] then none
  else
    match line.dropWhile isWord with
    | '{' :: text =>
      match labelsFrom [] (.name []) text with
      | some (labels, ' ' :: value) =>
        some ⟨String.ofList (line.takeWhile isWord), labels, String.ofList value⟩
      | _ => none
    | _ => none

/-- A line with a sample: it is not empty, and no comment. -/
def hasSample (line : List Char) : Bool := line ≠ [] && line.head? ≠ some '#'

/-- The samples of a text; `none` where a line is not well formed. -/
def readMetrics (text : String) : Option (List Sample) :=
  ((text.toList.splitOn '\n').filter hasSample).mapM readSample

/-! ### Writing -/

def escaped (text : List Char) : List Char :=
  text.flatMap fun c => if c = '\\' ∨ c = '"' then ['\\', c] else [c]

inductive Line where
  | comment (text : String)
  | sample (s : Sample)

def Sample.text (s : Sample) : String :=
  sample s.name (s.labels.map fun kv => (kv.1, String.ofList (escaped kv.2.toList))) s.value

def Line.text : Line → String
  | .comment text => "# " ++ text
  | .sample s => s.text

def Line.sample? : Line → Option Sample
  | .comment _ => none
  | .sample s => some s

/-- A sample that can be written on one line. -/
structure Fine (s : Sample) : Prop where
  name : Word s.name
  labels : s.labels ≠ []
  words : ∀ kv ∈ s.labels, Word kv.1 ∧ '\n' ∉ kv.2.toList
  value : '\n' ∉ s.value.toList

def Line.Fine : Line → Prop
  | .comment text => '\n' ∉ text.toList
  | .sample s => Exposition.Fine s

/-! ### What is written is read back -/

section Labels

variable {labels : Labels} {rest : List Char}

theorem escaped_cons (c : Char) (v : List Char) :
    escaped (c :: v) = (if c = '\\' ∨ c = '"' then ['\\', c] else [c]) ++ escaped v := by
  rw [escaped, List.flatMap_cons]
  rfl

theorem labelsFrom_name {k : List Char} (h : ∀ c ∈ k, isWord c = true) :
    ∀ w, labelsFrom labels (.name w) (k ++ '=' :: rest) =
      labelsFrom labels (.equals (w ++ k)) rest := by
  induction k with
  | nil => exact fun w => by simp [labelsFrom]
  | cons c k ih =>
    intro w
    obtain ⟨hc, hk⟩ := List.forall_mem_cons.mp h
    have hne : c ≠ '=' := by
      rintro rfl
      exact absurd hc (by decide)
    rw [List.cons_append, labelsFrom, if_neg hne, if_pos hc, ih hk, List.append_assoc]
    rfl

theorem labelsFrom_value (name : List Char) (v : List Char) :
    ∀ w, labelsFrom labels (.value name w) (escaped v ++ '"' :: rest) =
      labelsFrom (labels ++ [(String.ofList name, String.ofList (w ++ v))]) .next rest := by
  induction v with
  | nil => exact fun w => by simp [labelsFrom, escaped]
  | cons c v ih =>
    intro w
    rw [escaped_cons]
    by_cases hc : c = '\\' ∨ c = '"'
    · rw [if_pos hc]
      show labelsFrom labels (.value name w) ('\\' :: c :: (escaped v ++ '"' :: rest)) = _
      rw [labelsFrom, if_neg (by decide), if_pos rfl, labelsFrom, if_pos hc, ih, List.append_assoc]
      rfl
    · rw [if_neg hc]
      rw [not_or] at hc
      show labelsFrom labels (.value name w) (c :: (escaped v ++ '"' :: rest)) = _
      rw [labelsFrom, if_neg hc.2, if_neg hc.1, ih, List.append_assoc]
      rfl

theorem labelsFrom_label {kv : String × String} (h : Word kv.1) :
    labelsFrom labels (.name []) (label (kv.1, String.ofList (escaped kv.2.toList)) ++ rest) =
      labelsFrom (labels ++ [kv]) .next rest := by
  have htext : label (kv.1, String.ofList (escaped kv.2.toList)) ++ rest =
      kv.1.toList ++ '=' :: '"' :: (escaped kv.2.toList ++ '"' :: rest) := by
    simp [label]
  rw [htext, labelsFrom_name h.2, labelsFrom, if_pos rfl, labelsFrom_value]
  simp

/-- Labels as they are written. -/
def writtenLabels (labels : Labels) : List Char :=
  labelText (labels.map fun kv => (kv.1, String.ofList (escaped kv.2.toList)))

theorem labelsFrom_written {more : Labels} (hmore : more ≠ []) (h : ∀ kv ∈ more, Word kv.1) :
    ∀ labels, labelsFrom labels (.name []) (writtenLabels more ++ '}' :: rest) =
      some (labels ++ more, rest) := by
  induction more with
  | nil => exact absurd rfl hmore
  | cons kv more ih =>
    intro labels
    obtain ⟨hkv, hmore⟩ := List.forall_mem_cons.mp h
    cases more with
    | nil =>
      rw [writtenLabels, List.map_cons, List.map_nil, labelText, labelsFrom_label hkv, labelsFrom,
        if_neg (by decide), if_pos rfl]
    | cons next more =>
      have htext : writtenLabels (kv :: next :: more) =
          label (kv.1, String.ofList (escaped kv.2.toList)) ++ ',' :: writtenLabels (next :: more) :=
        rfl
      rw [htext, List.append_assoc, labelsFrom_label hkv, List.cons_append, labelsFrom, if_pos rfl,
        ih (List.cons_ne_nil _ _) hmore, List.append_assoc]
      rfl

end Labels

section Text

variable {s : Sample}

theorem toList_text : s.text.toList =
    s.name.toList ++ '{' :: (writtenLabels s.labels ++ '}' :: ' ' :: s.value.toList) := by
  rw [Sample.text, sample, String.toList_ofList]
  rfl

theorem readSample_written (h : Fine s) : readSample s.text.toList = some s := by
  have hword : ∀ c ∈ s.name.toList, isWord c = true := h.name.2
  have htake : s.text.toList.takeWhile isWord = s.name.toList := by
    rw [toList_text, List.takeWhile_append_of_pos hword]
    simp [show isWord '{' = false from rfl]
  have hdrop : s.text.toList.dropWhile isWord =
      '{' :: (writtenLabels s.labels ++ '}' :: ' ' :: s.value.toList) := by
    rw [toList_text, List.dropWhile_append_of_pos hword]
    simp [show isWord '{' = false from rfl]
  have hlabels : labelsFrom [] (.name []) (writtenLabels s.labels ++ '}' :: ' ' :: s.value.toList) =
      some (s.labels, ' ' :: s.value.toList) :=
    labelsFrom_written h.labels (fun kv hkv => (h.words kv hkv).1) []
  rw [readSample, htake, if_neg h.name.1, hdrop]
  simp only [hlabels]
  simp

theorem newline_not_mem_escaped {v : List Char} (h : '\n' ∉ v) : '\n' ∉ escaped v := by
  intro hmem
  obtain ⟨c, hc, hmem⟩ := List.mem_flatMap.mp hmem
  have hne : c ≠ '\n' := fun heq => h (heq ▸ hc)
  split_ifs at hmem <;> simp [hne.symm] at hmem

theorem newline_not_mem_label {kv : String × String} (hname : Word kv.1)
    (hvalue : '\n' ∉ kv.2.toList) :
    '\n' ∉ label (kv.1, String.ofList (escaped kv.2.toList)) := by
  have hword : '\n' ∉ kv.1.toList := fun hmem => absurd (hname.2 _ hmem) (by decide)
  simp [label, hword, newline_not_mem_escaped hvalue]

theorem newline_not_mem_written {labels : Labels}
    (h : ∀ kv ∈ labels, Word kv.1 ∧ '\n' ∉ kv.2.toList) : '\n' ∉ writtenLabels labels := by
  induction labels with
  | nil => exact List.not_mem_nil
  | cons kv labels ih =>
    obtain ⟨hkv, hlabels⟩ := List.forall_mem_cons.mp h
    have hlabel := newline_not_mem_label hkv.1 hkv.2
    cases labels with
    | nil => exact hlabel
    | cons next labels =>
      have htext : writtenLabels (kv :: next :: labels) =
          label (kv.1, String.ofList (escaped kv.2.toList)) ++ ',' :: writtenLabels (next :: labels) :=
        rfl
      have hrest := ih hlabels
      rw [htext]
      simp [hlabel, hrest]

theorem newline_not_mem_text (h : Fine s) : '\n' ∉ s.text.toList := by
  have hword : '\n' ∉ s.name.toList := fun hmem => absurd (h.name.2 _ hmem) (by decide)
  have hlabels := newline_not_mem_written h.words
  rw [toList_text]
  simp [hword, hlabels, h.value]

/-- A sample begins with its name. -/
theorem hasSample_text (h : Fine s) : hasSample s.text.toList = true := by
  have hname := h.name.1
  rw [hasSample, toList_text]
  cases hchars : s.name.toList with
  | nil => exact absurd hchars hname
  | cons c name =>
    have hc : c ≠ '#' := by
      rintro rfl
      exact absurd (h.name.2 '#' (by rw [hchars]; exact List.mem_cons_self)) (by decide)
    simp [hc]

end Text

theorem splitOn_lines {lines : List (List Char)} (h : ∀ line ∈ lines, '\n' ∉ line) :
    (lines.flatMap fun line => line ++ ['\n']).splitOn '\n' = lines ++ [[]] := by
  induction lines with
  | nil => rfl
  | cons line lines ih =>
    obtain ⟨hline, hlines⟩ := List.forall_mem_cons.mp h
    rw [List.flatMap_cons, List.append_assoc, List.singleton_append,
      List.splitOn_append_cons_self_of_not_mem hline, ih hlines, List.cons_append]

theorem hasSample_comment (text : String) : hasSample (Line.comment text).text.toList = false := by
  simp [hasSample, Line.text, String.toList_append]

/-- **The samples of a text** are those that were written. -/
theorem readMetrics_unlines {lines : List Line} (h : ∀ line ∈ lines, line.Fine) :
    readMetrics (unlines (lines.map Line.text)) = some (lines.filterMap Line.sample?) := by
  have hnewline : ∀ line ∈ lines.map (fun line => line.text.toList), '\n' ∉ line := by
    intro text htext
    obtain ⟨line, hline, rfl⟩ := List.mem_map.mp htext
    cases line with
    | comment text => simpa [Line.text, String.toList_append, Line.Fine] using h _ hline
    | sample s => exact newline_not_mem_text (h _ hline)
  have hsplit : (unlines (lines.map Line.text)).toList.splitOn '\n' =
      lines.map (fun line => line.text.toList) ++ [[]] := by
    rw [← splitOn_lines hnewline, unlines, String.toList_ofList, List.flatMap_map,
      List.flatMap_map]
  rw [readMetrics, hsplit, List.filter_append, show [[]].filter hasSample = [] from rfl,
    List.append_nil]
  clear hnewline hsplit
  induction lines with
  | nil => rfl
  | cons line lines ih =>
    obtain ⟨hline, hlines⟩ := List.forall_mem_cons.mp h
    rw [List.map_cons]
    cases line with
    | comment text =>
      rw [List.filter_cons_of_neg (by rw [hasSample_comment]; decide), ih hlines]
      rfl
    | sample s =>
      have hpos : hasSample (Line.sample s).text.toList = true := hasSample_text hline
      have hread : readSample (Line.sample s).text.toList = some s := readSample_written hline
      rw [List.filter_cons_of_pos hpos, List.mapM_cons, hread, ih hlines]
      rfl

end Exposition
