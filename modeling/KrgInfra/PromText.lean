/-
The text format of Prometheus samples, as it is written and as it is read back.

A line is a comment, or `name{label="value",…} value`.  Label values are not escaped.

* `sample` — a line as it is written;
* `findLabels`, `matchSample` — the labels and the value of a line, by the regular expressions
  `(\w+)="([^"]*)"` and `^name\{(.*)\} (\S+)$`;
* `series` — the metric and the labels of a line;
* `findLabels_labelText`, `matchSample_sample`, `series_sample` — what is written is read back,
  where no label value has a quote.
-/
import KrgInfra.Python
import Mathlib

namespace Prom

open Python

/-- The labels of a sample, in the order of the text. -/
abbrev Labels : Type := List (String × String)

/-- `\w`, of ASCII characters. -/
def isWord (c : Char) : Bool := c.isAlphanum || c = '_'

/-! ### Writing -/

/-- `label="value"` -/
def label (kv : String × String) : List Char :=
  kv.1.toList ++ '=' :: '"' :: (kv.2.toList ++ ['"'])

/-- The labels with commas between them. -/
def labelText : Labels → List Char
  | [] => []
  | [kv] => label kv
  | kv :: next :: labels => label kv ++ ',' :: labelText (next :: labels)

/-- `name{labels} value` -/
def sample (name : String) (labels : Labels) (value : String) : String :=
  String.ofList (name.toList ++ '{' :: (labelText labels ++ '}' :: ' ' :: value.toList))

/-! ### Reading -/

/-- Where a search for labels stands: in a word, after the `=` that follows one, or in the
quotes after that. -/
inductive Scan where
  | word (w : List Char)
  | equals (name : List Char)
  | quoted (name value : List Char)

/-- `re.findall(r'(\w+)="([^"]*)"', text)`: a word with quotes that do not end has no match, and
neither has anything after it. -/
def labelsFrom : Scan → List Char → Labels
  | _, [] => []
  | .word w, c :: text =>
    if isWord c then labelsFrom (.word (w ++ [c])) text
    else if c = '=' ∧ w ≠ [] then labelsFrom (.equals w) text
    else labelsFrom (.word []) text
  | .equals name, c :: text =>
    if c = '"' then labelsFrom (.quoted name []) text
    else if isWord c then labelsFrom (.word [c]) text
    else labelsFrom (.word []) text
  | .quoted name value, c :: text =>
    if c = '"' then (String.ofList name, String.ofList value) :: labelsFrom (.word []) text
    else labelsFrom (.quoted name (value ++ [c])) text

def findLabels (text : List Char) : Labels := labelsFrom (.word []) text

example : findLabels "a=\"1\", b =\"2\",c=d=\"\"".toList = [("a", "1"), ("d", "")] := by decide

/-- What follows a prefix. -/
def afterPrefix : List Char → List Char → Option (List Char)
  | [], text => some text
  | p :: ps, c :: text => if p = c then afterPrefix ps text else none
  | _ :: _, [] => none

/-- `^name\{(.*)\} (\S+)$`: the text of the labels, and the value.  The value is what comes
after the last white space. -/
def matchSample (name line : String) : Option (List Char × List Char) :=
  match afterPrefix (name.toList ++ ['{']) line.toList with
  | none => none
  | some text =>
    match text.reverse.dropWhile fun c => !isspace c with
    | ' ' :: '}' :: labels =>
      if (text.reverse.takeWhile fun c => !isspace c) = [] then none
      else some (labels.reverse, (text.reverse.takeWhile fun c => !isspace c).reverse)
    | _ => none

/-- The metric name and the labels of a line that is not a comment. -/
def series (line : String) : Option (String × Labels) :=
  match line.toList with
  | [] => none
  | '#' :: _ => none
  | text => some (String.ofList (text.takeWhile isWord), findLabels (text.dropWhile isWord))

/-! ### What is written is read back -/

/-- A word. -/
def Word (s : String) : Prop := s.toList ≠ [] ∧ ∀ c ∈ s.toList, isWord c = true

/-- Labels with names that are words, and values without quotes. -/
def Readable (labels : Labels) : Prop := ∀ kv ∈ labels, Word kv.1 ∧ '"' ∉ kv.2.toList

/-- A value that is one word of its own. -/
def Value (s : String) : Prop :=
  s.toList ≠ [] ∧ ∀ c ∈ s.toList, isspace c = false ∧ c ≠ '"' ∧ isLineBreak c = false

theorem labelsFrom_word {k : List Char} (h : ∀ c ∈ k, isWord c = true) (rest : List Char) :
    ∀ w, labelsFrom (.word w) (k ++ rest) = labelsFrom (.word (w ++ k)) rest := by
  induction k with
  | nil => simp
  | cons c k ih =>
    intro w
    rw [List.cons_append, labelsFrom, if_pos (h c List.mem_cons_self),
      ih fun d hd => h d (List.mem_cons_of_mem _ hd), List.append_assoc, List.singleton_append]

theorem labelsFrom_quoted {value : List Char} (h : '"' ∉ value) (name rest : List Char) :
    ∀ v, labelsFrom (.quoted name v) (value ++ '"' :: rest) =
      (String.ofList name, String.ofList (v ++ value)) :: labelsFrom (.word []) rest := by
  induction value with
  | nil =>
    intro v
    rw [List.nil_append, labelsFrom, if_pos rfl, List.append_nil]
  | cons c value ih =>
    intro v
    rw [List.mem_cons, not_or] at h
    rw [List.cons_append, labelsFrom, if_neg fun hc => h.1 hc.symm, ih h.2, List.append_assoc,
      List.singleton_append]

theorem labelsFrom_label {kv : String × String} (hname : Word kv.1) (hvalue : '"' ∉ kv.2.toList)
    (rest : List Char) : findLabels (label kv ++ rest) = kv :: findLabels rest := by
  unfold findLabels label
  rw [List.append_assoc, labelsFrom_word hname.2, List.nil_append, List.cons_append, labelsFrom,
    if_neg (by decide), if_pos ⟨rfl, hname.1⟩, List.cons_append, labelsFrom, if_pos rfl,
    List.append_assoc, List.singleton_append, labelsFrom_quoted hvalue, List.nil_append,
    String.ofList_toList, String.ofList_toList]

/-- A text without quotes has no labels. -/
theorem labelsFrom_of_not_mem {text : List Char} (h : '"' ∉ text) :
    (∀ w, labelsFrom (.word w) text = []) ∧ ∀ name, labelsFrom (.equals name) text = [] := by
  induction text with
  | nil => exact ⟨fun _ => rfl, fun _ => rfl⟩
  | cons c text ih =>
    rw [List.mem_cons, not_or] at h
    obtain ⟨hword, hequals⟩ := ih h.2
    constructor
    · intro w
      rw [labelsFrom]
      split_ifs
      · exact hword _
      · exact hequals _
      · exact hword _
    · intro name
      rw [labelsFrom, if_neg fun hc => h.1 hc.symm]
      split_ifs
      · exact hword _
      · exact hword _

theorem findLabels_labelText {labels : Labels} (h : Readable labels) {rest : List Char}
    (hrest : '"' ∉ rest) : findLabels (labelText labels ++ rest) = labels := by
  induction labels with
  | nil => exact (labelsFrom_of_not_mem hrest).1 []
  | cons kv labels ih =>
    obtain ⟨hname, hvalue⟩ := h kv List.mem_cons_self
    have ih := ih fun kv hkv => h kv (List.mem_cons_of_mem _ hkv)
    cases labels with
    | nil => rw [labelText, labelsFrom_label hname hvalue, findLabels,
        (labelsFrom_of_not_mem hrest).1]
    | cons next labels =>
      rw [labelText, List.append_assoc, labelsFrom_label hname hvalue]
      refine congrArg (kv :: ·) ?_
      -- the comma belongs to no word
      exact ih

theorem findLabels_eq_self {labels : Labels} (h : Readable labels) :
    findLabels (labelText labels) = labels := by
  have hnil := @findLabels_labelText labels h [] List.not_mem_nil
  rwa [List.append_nil] at hnil

theorem afterPrefix_append (p rest : List Char) : afterPrefix p (p ++ rest) = some rest := by
  induction p with
  | nil => rfl
  | cons c p ih => rw [List.cons_append, afterPrefix, if_pos rfl, ih]

theorem afterPrefix_some {p text rest : List Char} (h : afterPrefix p text = some rest) :
    p ++ rest = text := by
  induction p generalizing text with
  | nil => exact (Option.some_inj.mp h).symm
  | cons c p ih =>
    cases text with
    | nil => exact nomatch h
    | cons d text =>
      rw [afterPrefix] at h
      split_ifs at h with hc
      rw [List.cons_append, ih h, hc]

theorem matchSample_sample {name value : String} {labels : Labels} (hvalue : Value value) :
    matchSample name (sample name labels value) = some (labelText labels, value.toList) := by
  have hreverse : ∀ c ∈ value.toList.reverse, isspace c = false := fun c hc =>
    (hvalue.2 c (List.mem_reverse.mp hc)).1
  have htake : ((labelText labels ++ '}' :: ' ' :: value.toList).reverse.takeWhile
      fun c => !isspace c) = value.toList.reverse := by
    rw [List.reverse_append, List.reverse_cons, List.reverse_cons, List.append_assoc,
      List.append_assoc, List.takeWhile_append_of_pos fun c hc => by simp [hreverse c hc]]
    simp [isspace]
  have hdrop : ((labelText labels ++ '}' :: ' ' :: value.toList).reverse.dropWhile
      fun c => !isspace c) = ' ' :: '}' :: (labelText labels).reverse := by
    rw [List.reverse_append, List.reverse_cons, List.reverse_cons, List.append_assoc,
      List.append_assoc, List.dropWhile_append_of_pos fun c hc => by simp [hreverse c hc]]
    simp [isspace]
  have hafter : afterPrefix (name.toList ++ ['{']) (sample name labels value).toList =
      some (labelText labels ++ '}' :: ' ' :: value.toList) := by
    have h := afterPrefix_append (name.toList ++ ['{'])
      (labelText labels ++ '}' :: ' ' :: value.toList)
    rw [List.append_assoc, List.singleton_append] at h
    rwa [sample, String.toList_ofList]
  rw [matchSample, hafter]
  simp only [hdrop, htake]
  rw [if_neg (by simpa using hvalue.1), List.reverse_reverse, List.reverse_reverse]

/-- A line is matched as a sample of a metric only if it starts with its name and a brace. -/
theorem matchSample_of_not_prefix {name line : String}
    (h : ¬ (name.toList ++ ['{']) <+: line.toList) : matchSample name line = none := by
  unfold matchSample
  cases hafter : afterPrefix (name.toList ++ ['{']) line.toList with
  | none => rfl
  | some rest => exact absurd ⟨rest, afterPrefix_some hafter⟩ h

/-- A word ends before a character of no word. -/
theorem takeWhile_word {s : String} (h : Word s) {c : Char} (hc : isWord c = false)
    (rest : List Char) : (s.toList ++ c :: rest).takeWhile isWord = s.toList ∧
      (s.toList ++ c :: rest).dropWhile isWord = c :: rest := by
  have hneg : ¬ isWord c = true := by simp [hc]
  rw [List.takeWhile_append_of_pos h.2, List.dropWhile_append_of_pos h.2,
    List.takeWhile_cons_of_neg hneg, List.dropWhile_cons_of_neg hneg, List.append_nil]
  exact ⟨rfl, rfl⟩

/-- A sample of another metric is not matched. -/
theorem matchSample_other {name other value : String} {labels : Labels} (hname : Word name)
    (hother : Word other) (h : name ≠ other) :
    matchSample name (sample other labels value) = none := by
  refine matchSample_of_not_prefix fun ⟨rest, hrest⟩ => h (String.toList_inj.mp ?_)
  rw [sample, String.toList_ofList, List.append_assoc, List.singleton_append] at hrest
  -- both names are the word at the start of the line
  rw [← (@takeWhile_word name hname '{' (by decide) rest).1, hrest,
    (takeWhile_word hother (by decide) _).1]

theorem series_word {name : String} (hname : Word name) {c : Char} (hc : isWord c = false)
    (rest : List Char) :
    series (String.ofList (name.toList ++ c :: rest)) = some (name, findLabels (c :: rest)) := by
  have hword := takeWhile_word hname hc rest
  obtain ⟨first, cs, hfirst⟩ := List.exists_cons_of_ne_nil hname.1
  have hhash : first ≠ '#' := by
    rintro rfl
    exact absurd (hname.2 '#' (hfirst ▸ List.mem_cons_self)) (by decide)
  rw [series, String.toList_ofList]
  rw [hfirst, List.cons_append] at hword ⊢
  split
  · next h => exact nomatch h
  · next h => exact absurd (List.cons.inj h).1 hhash
  · rw [hword.1, hword.2, ← hfirst, String.ofList_toList]

theorem series_sample {name value : String} {labels : Labels} (hname : Word name)
    (hlabels : Readable labels) (hvalue : '"' ∉ value.toList) :
    series (sample name labels value) = some (name, labels) := by
  have hbrace : '"' ∉ '}' :: ' ' :: value.toList := by simpa using hvalue
  have hfind : findLabels ('{' :: (labelText labels ++ '}' :: ' ' :: value.toList)) = labels :=
    findLabels_labelText hlabels hbrace
  rw [sample, series_word hname (by decide), hfind]

/-- A sample without labels. -/
theorem series_bare {name value : String} (hname : Word name) (hvalue : '"' ∉ value.toList) :
    series (name ++ " " ++ value) = some (name, []) := by
  have htext : name ++ " " ++ value = String.ofList (name.toList ++ ' ' :: value.toList) := by
    rw [← String.toList_inj, String.toList_append, String.toList_append, List.append_assoc]
    exact String.toList_ofList.symm
  have hnone : findLabels (' ' :: value.toList) = [] :=
    (labelsFrom_of_not_mem (by simpa using hvalue)).1 []
  rw [htext, series_word hname (by decide), hnone]

/-- A comment is no sample. -/
theorem series_comment {line : String} (h : line.toList.head? = some '#') : series line = none := by
  rw [series]
  split
  · rfl
  · rfl
  · next h' hhash =>
    cases hl : line.toList with
    | nil => rw [hl] at h; exact nomatch h
    | cons c cs =>
      rw [hl] at h
      exact absurd (by rw [hl, Option.some_inj.mp h]) (hhash cs)

/-- Label values that are found have no quotes, and the characters of the text. -/
theorem mem_findLabels {text : List Char} {kv : String × String} (h : kv ∈ findLabels text) :
    '"' ∉ kv.2.toList ∧ ∀ c ∈ kv.2.toList, c ∈ text := by
  -- `seen` is the value as far as it is read
  have hword : ∀ (w seen : List Char) (name value : List Char),
      Scan.word w = .quoted name value → '"' ∉ value ∧ ∀ c ∈ value, c ∈ seen :=
    fun _ _ _ _ h => nomatch h
  have hequals : ∀ (n seen : List Char) (name value : List Char),
      Scan.equals n = .quoted name value → '"' ∉ value ∧ ∀ c ∈ value, c ∈ seen :=
    fun _ _ _ _ h => nomatch h
  have hfrom : ∀ (text : List Char) (scan : Scan) (seen : List Char),
      (∀ name value, scan = .quoted name value → '"' ∉ value ∧ ∀ c ∈ value, c ∈ seen) →
      ∀ kv ∈ labelsFrom scan text, '"' ∉ kv.2.toList ∧ ∀ c ∈ kv.2.toList, c ∈ seen ++ text := by
    intro text
    induction text with
    | nil =>
      intro scan seen _ kv hkv
      rw [labelsFrom] at hkv
      exact nomatch hkv
    | cons c text ih =>
      intro scan seen hscan kv hkv
      have hcons : seen ++ c :: text = (seen ++ [c]) ++ text := by simp
      rw [hcons]
      cases scan with
      | word w =>
        rw [labelsFrom] at hkv
        split_ifs at hkv
        · exact ih _ _ (hword _ _) kv hkv
        · exact ih _ _ (hequals _ _) kv hkv
        · exact ih _ _ (hword _ _) kv hkv
      | equals name =>
        rw [labelsFrom] at hkv
        split_ifs at hkv
        · refine ih _ _ (fun _ value h => ?_) kv hkv
          rw [← (Scan.quoted.inj h).2]
          exact ⟨List.not_mem_nil, fun _ h => nomatch h⟩
        · exact ih _ _ (hword _ _) kv hkv
        · exact ih _ _ (hword _ _) kv hkv
      | quoted name value =>
        obtain ⟨hquote, hmem⟩ := hscan name value rfl
        rw [labelsFrom] at hkv
        split_ifs at hkv with hc
        · obtain rfl | hkv := List.mem_cons.mp hkv
          · rw [String.toList_ofList]
            exact ⟨hquote, fun d hd => by simp [hmem d hd]⟩
          · exact ih _ _ (hword _ _) kv hkv
        · refine ih _ _ (fun _ value' h => ?_) kv hkv
          rw [← (Scan.quoted.inj h).2]
          constructor
          · rw [List.mem_append, List.mem_singleton, not_or]
            exact ⟨hquote, fun he => hc he.symm⟩
          · intro d hd
            obtain hd | hd := List.mem_append.mp hd
            · exact List.mem_append_left _ (hmem d hd)
            · exact List.mem_append_right _ hd
  exact hfrom text (.word []) [] (hword _ _) kv h

/-- Word characters end no line. -/
theorem not_break_of_isWord {c : Char} (h : isWord c = true) : isLineBreak c = false := by
  have hrange : 48 ≤ c.toNat ∧ c.toNat ≤ 122 := by
    simp only [isWord, Char.isAlphanum, Char.isAlpha, Char.isUpper, Char.isLower, Char.isDigit,
      Bool.or_eq_true, Bool.and_eq_true, decide_eq_true_eq, UInt32.le_iff_toNat_le,
      ge_iff_le] at h
    have hval : c.toNat = c.val.toNat := rfl
    obtain ((h | h) | h) | h := h
    · simp at h
      omega
    · simp at h
      omega
    · simp at h
      omega
    · subst h
      decide
  simp only [isLineBreak]
  simp
  omega

/-- A line of parts without line breaks has none. -/
theorem sample_no_break {name value : String} {labels : Labels} (hname : Word name)
    (hlabels : ∀ kv ∈ labels, Word kv.1 ∧ ∀ c ∈ kv.2.toList, isLineBreak c = false)
    (hvalue : ∀ c ∈ value.toList, isLineBreak c = false) :
    ∀ c ∈ (sample name labels value).toList, isLineBreak c = false := by
  have hlabel : ∀ kv ∈ labels, ∀ c ∈ label kv, isLineBreak c = false := by
    intro kv hkv c hc
    simp only [label, List.mem_append, List.mem_cons, List.not_mem_nil, or_false] at hc
    obtain hc | rfl | rfl | hc | rfl := hc
    · exact not_break_of_isWord ((hlabels kv hkv).1.2 c hc)
    · decide
    · decide
    · exact (hlabels kv hkv).2 c hc
    · decide
  have hlabels : ∀ c ∈ labelText labels, isLineBreak c = false := by
    clear hlabels
    induction labels with
    | nil => exact fun _ h => nomatch h
    | cons kv labels ih =>
      have ih := ih fun kv hkv => hlabel kv (List.mem_cons_of_mem _ hkv)
      cases labels with
      | nil => exact hlabel kv List.mem_cons_self
      | cons next labels =>
        intro c hc
        rw [labelText, List.mem_append, List.mem_cons] at hc
        obtain hc | rfl | hc := hc
        · exact hlabel kv List.mem_cons_self c hc
        · decide
        · exact ih c hc
  intro c hc
  rw [sample, String.toList_ofList] at hc
  simp only [List.mem_append, List.mem_cons] at hc
  obtain hc | rfl | hc | rfl | rfl | hc := hc
  · exact not_break_of_isWord (hname.2 c hc)
  · decide
  · exact hlabels c hc
  · decide
  · decide
  · exact hvalue c hc

end Prom
