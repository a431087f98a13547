/-
TOML documents of single-line entries: what a reader makes of them.

A document is read line by line: comments, headers of tables, and entries whose values are basic
strings or integers (TOML 1.0.0).  What else TOML has — arrays, floats, dates, dotted keys,
strings of several lines — is not read at all; a basic string ends on its line.

* `line`, `build`, `document` — the lines of a document, its tables, and the document;
* `toml`, `parse` — the format, and the reader;
* `Item` — the lines of a template;
* `parse_render_iff` — a rendered template is read as it is meant exactly if all strings in it are
  plain.
-/
import KrgInfra.DecimalText
import KrgInfra.QuotedText
import KrgInfra.RenderedText
import Mathlib.Data.List.TakeWhile

namespace TomlText

open DecimalText QuotedText RenderedText

inductive Value
  | str (s : String)
  | int (n : ℤ)
  deriving DecidableEq

abbrev Table : Type := List (String × Value)

/-- The entries before the first table, and the tables. -/
structure Document where
  root : Table
  tables : List (String × Table)
  deriving DecidableEq

/-! ### Lines -/

def isBlank (c : Char) : Bool := c = ' ' || c = '\t'

/-- A character of a comment: no control character but the tab. -/
def isComment (c : Char) : Bool := c = '\t' || (0x20 ≤ c.toNat && c.toNat ≠ 0x7F)

/-- A character that stands for itself in a basic string. -/
def isPlain (c : Char) : Bool := isComment c && c ≠ '"' && c ≠ '\\'

/-- The escape sequences of basic strings. -/
def basic : Dialect where
  plain := isPlain
  simple := [('b', Char.ofNat 8), ('t', '\t'), ('n', '\n'), ('f', Char.ofNat 12), ('r', '\r'),
    ('"', '"'), ('\\', '\\')]
  hex := [('u', 4), ('U', 8)]
  quote_not_plain := by decide
  backslash_not_plain := by decide
  newline := by decide
  backslash_not_hex := by decide

/-- A character of a bare key. -/
def isBare (c : Char) : Bool := c.isAlphanum || c = '_' || c = '-'

/-- Nothing is left of a line but blanks and a comment. -/
def ends (l : List Char) : Bool :=
  match l.dropWhile isBlank with
  | [] => true
  | c :: rest => c = '#' && rest.all isComment

/-- A basic string, after its first quote, and the rest of the line. -/
def basicString (l : List Char) : Option Value :=
  -- three quotes begin a string of several lines
  if ['"', '"'].isPrefixOf l then none else (unquote basic ends l).map .str

-- a backslash begins an escape sequence, also before the last quote
example : unquote basic ends "a\\b\"".toList = some "a\x08" := by decide
example : unquote basic ends "a\\\"".toList = none := by decide

/-- A character of a number. -/
def isWord (c : Char) : Bool := !isBlank c && c ≠ '#'

def value : List Char → Option Value
  | [] => none
  | c :: rest =>
    if c = '"' then basicString rest
    else if ends ((c :: rest).dropWhile isWord) then
      (integer ((c :: rest).takeWhile isWord)).map .int
    else none

inductive Line
  | blank
  | header (name : String)
  | entry (key : String) (value : Value)
  deriving DecidableEq

/-- The header of a table, after its bracket. -/
def header (l : List Char) : Option Line :=
  if l.takeWhile isBare = [] then none
  else
    match l.dropWhile isBare with
    | [] => none
    | c :: rest =>
      if c = ']' ∧ ends rest then some (.header (String.ofList (l.takeWhile isBare))) else none

def entry (l : List Char) : Option Line :=
  if l.takeWhile isBare = [] then none
  else
    match (l.dropWhile isBare).dropWhile isBlank with
    | [] => none
    | c :: rest =>
      if c = '=' then
        (value (rest.dropWhile isBlank)).map (.entry (String.ofList (l.takeWhile isBare)))
      else none

def line (l : List Char) : Option Line :=
  match l.dropWhile isBlank with
  | [] => some .blank
  | c :: rest =>
    if c = '#' then if rest.all isComment then some .blank else none
    else if c = '[' then header rest
    else entry (c :: rest)

/-! ### Documents -/

/-- The tables of some lines; no key, and no name of a table, comes twice. -/
def build : List Line → Option Document
  | [] => some ⟨[], []⟩
  | .blank :: lines => build lines
  | .header name :: lines => (build lines).bind fun d =>
    if name ∈ d.tables.map Prod.fst then none else some ⟨[], (name, d.root) :: d.tables⟩
  | .entry key value :: lines => (build lines).bind fun d =>
    if key ∈ d.root.map Prod.fst then none else some ⟨(key, value) :: d.root, d.tables⟩

/-- A document; a table has not the name of a key before it. -/
def document (lines : List Line) : Option Document :=
  (build lines).bind fun d =>
    if d.tables.any fun t => t.1 ∈ d.root.map Prod.fst then none else some d

theorem build_concat_blank (lines : List Line) : build (lines ++ [.blank]) = build lines := by
  induction lines with
  | nil => rfl
  | cons l lines ih =>
    rw [List.cons_append]
    cases l with
    | blank => exact ih
    | header name => rw [build, build, ih]
    | entry key v => rw [build, build, ih]

def Value.strings : Value → List String
  | .str s => [s]
  | .int _ => []

def Line.strings : Line → List String
  | .entry _ value => value.strings
  | _ => []

def tableStrings (t : Table) : List String := t.flatMap fun e => e.2.strings

/-- The strings of a document, in their order. -/
def Document.strings (d : Document) : List String :=
  tableStrings d.root ++ d.tables.flatMap fun t => tableStrings t.2

theorem build_strings {lines : List Line} : ∀ {d : Document}, build lines = some d →
    d.strings = lines.flatMap Line.strings := by
  induction lines with
  | nil =>
    intro d h
    obtain rfl := Option.some_inj.mp h
    rfl
  | cons l lines ih =>
    intro d h
    cases l with
    | blank => exact ih h
    | header name =>
      obtain ⟨e, he, h⟩ := Option.bind_eq_some_iff.mp h
      split_ifs at h
      obtain rfl := Option.some_inj.mp h
      have hstrings : e.strings = lines.flatMap Line.strings := ih he
      exact hstrings
    | entry key v =>
      obtain ⟨e, he, h⟩ := Option.bind_eq_some_iff.mp h
      split_ifs at h
      obtain rfl := Option.some_inj.mp h
      have hstrings : e.strings = lines.flatMap Line.strings := ih he
      rw [List.flatMap_cons, ← hstrings, Document.strings, Document.strings, tableStrings,
        List.flatMap_cons, List.append_assoc]
      rfl

/-- The format. -/
def toml : Format Line Document where
  line := line
  document := document
  blank := .blank
  strings := Line.strings
  held := Document.strings
  line_nil := rfl
  document_concat_blank lines := by rw [document, document, build_concat_blank]
  held_document h := by
    obtain ⟨e, he, h⟩ := Option.bind_eq_some_iff.mp h
    split_ifs at h
    obtain rfl := Option.some_inj.mp h
    exact build_strings he

def parse (text : String) : Option Document := toml.parse text

/-! ### Templates -/

/-- A line of a template, with what is put into it. -/
inductive Item
  | blank
  | comment (text : String)
  | header (name : String)
  | quoted (key value : String)
  | int (key : String) (n : ℤ)

def Item.text : Item → String
  | .blank => ""
  | .comment text => "#" ++ text
  | .header name => "[" ++ name ++ "]"
  | .quoted key value => key ++ " = \"" ++ value ++ "\""
  | .int key n => key ++ " = " ++ toString n

/-- The line that is meant. -/
def Item.line : Item → Line
  | .blank => .blank
  | .comment _ => .blank
  | .header name => .header name
  | .quoted key value => .entry key (.str value)
  | .int key n => .entry key (.int n)

/-- A name of letters, digits, `_` and `-`. -/
def bare (name : String) : Bool := name.toList ≠ [] && name.toList.all isBare

/-- The names and the comments of a line are such. -/
def Item.named : Item → Bool
  | .blank => true
  | .comment text => text.toList.all isComment
  | .header name => bare name
  | .quoted key _ => bare key
  | .int key _ => bare key

/-- The strings that are written between quotes. -/
def Item.strings : Item → List String
  | .quoted _ value => [value]
  | _ => []

/-- What can be put into a template: a string without a quote and without a line break. -/
def Item.WellFormed (i : Item) : Prop :=
  i.named = true ∧ ∀ s ∈ i.strings, '"' ∉ s.toList ∧ '\n' ∉ s.toList

/-- Every character of a string stands for itself. -/
def Plain (s : String) : Prop := ∀ c ∈ s.toList, isPlain c = true

instance : DecidablePred Plain :=
  fun s => inferInstanceAs (Decidable (∀ c ∈ s.toList, isPlain c = true))

/-! ### Lines of a template -/

theorem bare_facts {c : Char} (h : isBare c = true) : isBlank c = false ∧ c ≠ '#' ∧ c ≠ '[' := by
  refine ⟨?_, ?_, ?_⟩
  · cases hb : isBlank c with
    | false => rfl
    | true =>
      obtain hc | hc : c = ' ' ∨ c = '\t' := by simpa [isBlank] using hb
      · exact absurd (hc ▸ h) (by decide)
      · exact absurd (hc ▸ h) (by decide)
  · rintro rfl
    exact absurd h (by decide)
  · rintro rfl
    exact absurd h (by decide)

theorem bare_iff {name : String} :
    bare name = true ↔ name.toList ≠ [] ∧ ∀ c ∈ name.toList, isBare c = true := by
  rw [bare, Bool.and_eq_true, decide_eq_true_eq, List.all_eq_true]

theorem takeWhile_bare {name : String} (h : bare name = true) {c : Char} (hc : isBare c = false)
    (rest : List Char) : (name.toList ++ c :: rest).takeWhile isBare = name.toList ∧
      (name.toList ++ c :: rest).dropWhile isBare = c :: rest := by
  have h := (bare_iff.mp h).2
  rw [List.takeWhile_append_of_pos h, List.dropWhile_append_of_pos h,
    List.takeWhile_cons_of_neg (by simp [hc]), List.dropWhile_cons_of_neg (by simp [hc]),
    List.append_nil]
  exact ⟨rfl, rfl⟩

/-- An entry of a template. -/
theorem line_entry {key : String} (hkey : bare key = true) (rest : List Char) :
    line (key.toList ++ ' ' :: '=' :: ' ' :: rest) =
      (value (rest.dropWhile isBlank)).map (.entry key) := by
  obtain ⟨htake, hdrop⟩ := takeWhile_bare hkey (c := ' ') (by decide) ('=' :: ' ' :: rest)
  have hkey := bare_iff.mp hkey
  obtain ⟨c, l, hcons⟩ := List.exists_cons_of_ne_nil hkey.1
  obtain ⟨hblank, hcomment, hheader⟩ := bare_facts (hkey.2 c (hcons ▸ List.mem_cons_self))
  have hline : line (key.toList ++ ' ' :: '=' :: ' ' :: rest) =
      entry (key.toList ++ ' ' :: '=' :: ' ' :: rest) := by
    rw [hcons, List.cons_append, line, List.dropWhile_cons_of_neg (by simp [hblank])]
    dsimp only
    rw [if_neg hcomment, if_neg hheader]
  rw [hline, entry, htake, hdrop, if_neg hkey.1, String.ofList_toList]
  rfl

/-- A number is read back. -/
theorem value_int (n : ℤ) :
    value ((toString n).toList.dropWhile isBlank) = some (.int n) := by
  have hword : ∀ c ∈ (toString n).toList, isWord c = true := by
    intro c hc
    obtain rfl | hdigit := mem_toString hc
    · decide
    · rw [isWord, isBlank]
      have h : c ≠ ' ' ∧ c ≠ '\t' ∧ c ≠ '#' :=
        ⟨fun he => absurd (he ▸ hdigit) (by decide), fun he => absurd (he ▸ hdigit) (by decide),
          fun he => absurd (he ▸ hdigit) (by decide)⟩
      simp [h]
  have hread := integer_toString n
  cases hl : (toString n).toList with
  | nil =>
    rw [hl] at hread
    exact nomatch hread
  | cons c l =>
    rw [hl] at hread hword
    have hc := hword c List.mem_cons_self
    have hquote : c ≠ '"' := by
      rintro rfl
      obtain h | h := mem_toString (n := n) (hl ▸ List.mem_cons_self)
      · exact absurd h (by decide)
      · exact absurd h (by decide)
    have hblank : isBlank c = false := by
      rw [isWord, Bool.and_eq_true, Bool.not_eq_true'] at hc
      exact hc.1
    have htake : (c :: l).takeWhile isWord = c :: l := List.takeWhile_eq_self_iff.mpr hword
    have hdrop : (c :: l).dropWhile isWord = [] := List.dropWhile_eq_nil_iff.mpr hword
    rw [List.dropWhile_cons_of_neg (by simp [hblank]), value, if_neg hquote, hdrop, htake,
      hread]
    rfl

theorem newline_not_mem_of_bare {name : String} (h : bare name = true) : '\n' ∉ name.toList :=
  fun hmem => absurd ((bare_iff.mp h).2 _ hmem) (by decide)

theorem rendered_header {name : String} (h : bare name = true) :
    Rendered toml ("[" ++ name ++ "]").toList (.header name) True := by
  have hnewline := newline_not_mem_of_bare h
  refine .of_eq ?_ ?_
  · rw [String.toList_append, String.toList_append]
    simpa using hnewline
  · obtain ⟨htake, hdrop⟩ := takeWhile_bare h (c := ']') (by decide) []
    rw [String.toList_append, String.toList_append]
    show header (name.toList ++ [']']) = _
    rw [header, htake, hdrop, if_neg (bare_iff.mp h).1, String.ofList_toList]
    rfl

theorem rendered_comment {text : String} (h : text.toList.all isComment = true) :
    Rendered toml ("#" ++ text).toList .blank True := by
  rw [String.toList_append]
  refine .of_eq ?_ ?_
  · refine List.not_mem_cons_of_ne_of_not_mem (by decide) fun hmem => ?_
    exact absurd (List.all_eq_true.mp h _ hmem) (by decide)
  · show (if text.toList.all isComment then some Line.blank else none) = _
    rw [h]
    rfl

theorem rendered_quoted {key v : String} (hkey : bare key = true) (hquote : '"' ∉ v.toList)
    (hnewline : '\n' ∉ v.toList) :
    Rendered toml (key ++ " = \"" ++ v ++ "\"").toList (.entry key (.str v))
      (Plain v) := by
  have hread := unquote_iff basic (show ends [] = true from rfl) hnewline
  refine .of_string (fun v => Line.entry key (.str v)) ?_ ?_ (fun _ => rfl) hread
  · rw [String.toList_append, String.toList_append, String.toList_append]
    simpa using ⟨newline_not_mem_of_bare hkey, hnewline⟩
  · rw [String.toList_append, String.toList_append, String.toList_append, List.append_assoc,
      List.append_assoc]
    show line (key.toList ++ ' ' :: '=' :: ' ' :: ('"' :: (v.toList ++ ['"']))) = _
    have hthree : ¬ ['"', '"'].isPrefixOf (v.toList ++ ['"']) = true := by
      cases hv : v.toList with
      | nil => decide
      | cons c l =>
        rw [hv, List.mem_cons, not_or] at hquote
        simp [List.isPrefixOf, hquote.1]
    rw [line_entry hkey]
    show Option.map _ (basicString (v.toList ++ ['"'])) = _
    rw [basicString, if_neg hthree, Option.map_map]
    rfl

theorem rendered_int {key : String} (hkey : bare key = true) (n : ℤ) :
    Rendered toml (key ++ " = " ++ toString n).toList (.entry key (.int n)) True := by
  rw [String.toList_append, String.toList_append, List.append_assoc]
  refine .of_eq ?_ ?_
  · have hn : '\n' ∉ (toString n).toList := by
      intro hmem
      obtain hc | hc := mem_toString hmem
      · exact absurd hc (by decide)
      · exact absurd hc (by decide)
    simpa using ⟨newline_not_mem_of_bare hkey, hn⟩
  · show line (key.toList ++ ' ' :: '=' :: ' ' :: (toString n).toList) = _
    rw [line_entry hkey, value_int]
    rfl

/-- A line of a template is read as it is meant exactly if the string in it is plain. -/
theorem Item.rendered {i : Item} (h : i.WellFormed) :
    Rendered toml i.text.toList i.line (∀ s ∈ i.strings, Plain s) := by
  obtain ⟨hnamed, hstrings⟩ := h
  have hnone : True ↔ ∀ s ∈ ([] : List String), Plain s := by simp
  cases i with
  | blank => exact (Rendered.of_eq List.not_mem_nil rfl).congr hnone
  | comment text => exact (rendered_comment hnamed).congr hnone
  | header name => exact (rendered_header hnamed).congr hnone
  | quoted key v =>
    obtain ⟨hquote, hnewline⟩ := hstrings v List.mem_cons_self
    exact (rendered_quoted hnamed hquote hnewline).congr List.forall_mem_singleton.symm
  | int key n => exact (rendered_int hnamed n).congr hnone

/-- A rendered template gives back its document exactly if all of its strings are plain. -/
theorem parse_render_iff {items : List Item} {d : Document} (hnamed : items.all Item.named = true)
    (hstrings : ∀ s ∈ items.flatMap Item.strings, '"' ∉ s.toList ∧ '\n' ∉ s.toList)
    (hdocument : document (items.map Item.line) = some d) :
    parse (render Item.text items) = some d ↔ ∀ s ∈ items.flatMap Item.strings, Plain s := by
  have hrendered : ∀ i ∈ items,
      Rendered toml i.text.toList i.line (∀ s ∈ i.strings, Plain s) := by
    intro i hi
    refine Item.rendered ⟨List.all_eq_true.mp hnamed i hi, fun s hs => ?_⟩
    exact hstrings s (List.mem_flatMap.mpr ⟨i, hi, hs⟩)
  have hd : d.strings = (items.map Item.line).flatMap Line.strings := toml.held_document hdocument
  have hiff := RenderedText.parse_render_iff hrendered hd
  rw [parse, hiff, List.forall_mem_flatMap]
  exact and_iff_left hdocument

end TomlText
