/-
YAML documents of block mappings: what a reader makes of them.

A document is read line by line: comments, entries of mappings and items of sequences, whose values
are strings in double quotes or words (YAML 1.2, core schema).  What else YAML has — anchors, tags,
flow collections, strings of several lines, sequences of collections — is not read at all.  A
string in quotes could only go on in a line deeper than its own, and no line is admitted there.

* `line` — the lines of a document;
* `build`, `collect` — lines below one another, and what they are the value of;
* `yaml`, `parse` — the format, and the reader: a document, as the paths to its leaves;
* `Item` — the lines of a template;
* `parse_render_iff` — a rendered template is read as it is meant exactly if all strings in it are
  plain.
-/
import KrgInfra.DecimalText
import KrgInfra.QuotedText
import KrgInfra.RenderedText
import Mathlib.Data.List.TakeWhile

namespace YamlText

open DecimalText QuotedText RenderedText

inductive Scalar
  | null
  | bool (b : Bool)
  | int (n : ℤ)
  | str (s : String)
  deriving DecidableEq

inductive Leaf
  | scalar (s : Scalar)
  | seq (items : List Scalar)
  deriving DecidableEq

/-- A value, as the paths of keys to its leaves: a value that is no mapping has one leaf and the
empty path. -/
abbrev Tree : Type := List (List String × Leaf)

/-! ### Lines -/

def isBlank (c : Char) : Bool := c = ' ' || c = '\t'

/-- A character of a comment: printable, and no byte order mark. -/
def isComment (c : Char) : Bool :=
  c = '\t' || (0x20 ≤ c.toNat && c.toNat ≤ 0x7E) || c.toNat = 0x85 ||
    (0xA0 ≤ c.toNat && c.toNat ≠ 0xFEFF && c.toNat ≠ 0xFFFE && c.toNat ≠ 0xFFFF)

/-- A character that stands for itself between quotes. -/
def isPlain (c : Char) : Bool := (c = '\t' || 0x20 ≤ c.toNat) && c ≠ '"' && c ≠ '\\'

/-- The escape sequences between quotes. -/
def double : Dialect where
  plain := isPlain
  simple := [('0', Char.ofNat 0), ('a', Char.ofNat 7), ('b', Char.ofNat 8), ('t', '\t'),
    ('\t', '\t'), ('n', '\n'), ('v', Char.ofNat 11), ('f', Char.ofNat 12), ('r', '\r'),
    ('e', Char.ofNat 27), (' ', ' '), ('"', '"'), ('/', '/'), ('\\', '\\'),
    ('N', Char.ofNat 0x85), ('_', Char.ofNat 0xA0), ('L', Char.ofNat 0x2028),
    ('P', Char.ofNat 0x2029)]
  hex := [('x', 2), ('u', 4), ('U', 8)]
  quote_not_plain := by decide
  backslash_not_plain := by decide
  newline := by decide
  backslash_not_hex := by decide

/-- A character of a key or of a word. -/
def isWord (c : Char) : Bool := c.isAlphanum || c = '_' || c = '-' || c = '+'

/-- Nothing is left of a line but blanks, and a comment after a blank. -/
def ends (l : List Char) : Bool :=
  match l.dropWhile isBlank with
  | [] => true
  | c :: rest => (l.head?.map isBlank).getD false && c = '#' && rest.all isComment

/-- A string, after its first quote, and the rest of the line. -/
def quoted (l : List Char) : Option Scalar :=
  (unquote double ends l).map .str

/-- A word that stands for itself: it begins with a letter. -/
def isName (l : List Char) : Bool :=
  (l.head?.map Char.isAlpha).getD false && l.all isWord &&
    l.map Char.toLower ∉ ["true".toList, "false".toList, "null".toList]

/-- What a word without quotes stands for. -/
def word (l : List Char) : Option Scalar :=
  if l = "true".toList then some (.bool true)
  else if l = "false".toList then some (.bool false)
  else if l = "null".toList then some .null
  else if isName l then some (.str (String.ofList l))
  else (integer l).map .int

def scalar : List Char → Option Scalar
  | [] => none
  | c :: rest =>
    if c = '"' then quoted rest
    else if ends ((c :: rest).dropWhile isWord) then word ((c :: rest).takeWhile isWord)
    else none

/-- A line, with the number of spaces before it. -/
inductive Line
  | blank
  | item (indent : ℕ) (value : Scalar)
  | entry (indent : ℕ) (key : String) (value : Option Scalar)
  deriving DecidableEq

/-- An entry of a mapping. -/
def entry (indent : ℕ) (l : List Char) : Option Line :=
  if !isName (l.takeWhile isWord) then none
  else
    match l.dropWhile isWord with
    | [] => none
    | c :: rest =>
      if c ≠ ':' then none
      else if ends rest then some (.entry indent (String.ofList (l.takeWhile isWord)) none)
      else if (rest.head?.map isBlank).getD false then
        (scalar (rest.dropWhile isBlank)).map fun v =>
          .entry indent (String.ofList (l.takeWhile isWord)) (some v)
      else none

def isSpace (c : Char) : Bool := c = ' '

def line (l : List Char) : Option Line :=
  match l.dropWhile isSpace with
  | [] => some .blank
  | c :: rest =>
    if c = '#' then if rest.all isComment then some .blank else none
    else if c = '-' ∧ (rest.head?.map isBlank).getD false then
      (scalar (rest.dropWhile isBlank)).map (.item (l.takeWhile isSpace).length)
    else entry (l.takeWhile isSpace).length (c :: rest)

/-! ### Documents -/

/-- A line, with the value it was given by the lines below it. -/
inductive Part
  | item (value : Scalar)
  | entry (key : String) (value : Tree)
  deriving DecidableEq

def Part.item? : Part → Option Scalar
  | .item v => some v
  | .entry _ _ => none

def Part.entry? : Part → Option (String × Tree)
  | .item _ => none
  | .entry key t => some (key, t)

/-- The value that lines of one depth make up: nothing, a sequence, or a mapping without a key that
comes twice. -/
def collect : List (ℕ × Part) → Option Tree
  | [] => some [([], .scalar .null)]
  | (n, p) :: rest =>
    if rest.all fun q => q.1 = n then
      match ((p :: rest.map Prod.snd).mapM Part.item?), (p :: rest.map Prod.snd).mapM Part.entry? with
      | some values, _ => some [([], .seq values)]
      | none, some entries =>
        if (entries.map Prod.fst).Nodup then
          some (entries.flatMap fun e => e.2.map fun leaf => (e.1 :: leaf.1, leaf.2))
        else none
      | none, none => none
    else none

/-- The lines that are not below one another; a line is below an entry that is not as deep and has
no value of its own. -/
def build : List Line → Option (List (ℕ × Part))
  | [] => some []
  | .blank :: lines => build lines
  | .item n v :: lines => (build lines).bind fun parts =>
    if parts.head?.any fun q => n < q.1 then none else some ((n, .item v) :: parts)
  | .entry n key (some v) :: lines => (build lines).bind fun parts =>
    if parts.head?.any fun q => n < q.1 then none
    else some ((n, .entry key [([], .scalar v)]) :: parts)
  | .entry n key none :: lines => (build lines).bind fun parts =>
    (collect (parts.takeWhile fun q => n < q.1)).map fun t =>
      (n, .entry key t) :: parts.dropWhile fun q => n < q.1

def document (lines : List Line) : Option Tree := (build lines).bind collect

theorem build_concat_blank (lines : List Line) : build (lines ++ [.blank]) = build lines := by
  induction lines with
  | nil => rfl
  | cons l lines ih =>
    rw [List.cons_append]
    match l with
    | .blank => exact ih
    | .item n v => rw [build, build, ih]
    | .entry n key (some v) => rw [build, build, ih]
    | .entry n key none => rw [build, build, ih]

/-! ### Strings -/

def Scalar.strings : Scalar → List String
  | .str s => [s]
  | _ => []

def Leaf.strings : Leaf → List String
  | .scalar v => v.strings
  | .seq items => items.flatMap Scalar.strings

/-- The strings of a value, in their order. -/
def treeStrings (t : Tree) : List String := t.flatMap fun leaf => leaf.2.strings

def Part.strings : Part → List String
  | .item v => v.strings
  | .entry _ t => treeStrings t

def Line.strings : Line → List String
  | .blank => []
  | .item _ v => v.strings
  | .entry _ _ v => v.elim [] Scalar.strings

theorem flatMap_mapM {α β γ : Type*} {f : α → Option β} {g : α → List γ} {h : β → List γ}
    (hfg : ∀ a b, f a = some b → h b = g a) {l : List α} : ∀ {m : List β},
      l.mapM f = some m → m.flatMap h = l.flatMap g := by
  induction l with
  | nil =>
    intro m hm
    obtain rfl := Option.some_inj.mp hm
    rfl
  | cons a l ih =>
    intro m hm
    rw [List.mapM_cons] at hm
    obtain ⟨b, hb, hm⟩ := Option.bind_eq_some_iff.mp hm
    obtain ⟨rest, hrest, hm⟩ := Option.bind_eq_some_iff.mp hm
    obtain rfl := Option.some_inj.mp hm
    rw [List.flatMap_cons, List.flatMap_cons, hfg a b hb, ih hrest]

theorem collect_strings {parts : List (ℕ × Part)} {t : Tree} (h : collect parts = some t) :
    treeStrings t = parts.flatMap fun q => q.2.strings := by
  match parts, h with
  | [], h =>
    obtain rfl := Option.some_inj.mp h
    rfl
  | (n, p) :: rest, h =>
    have hparts : ((n, p) :: rest).flatMap (fun q => q.2.strings) =
        (p :: rest.map Prod.snd).flatMap Part.strings := by
      rw [List.flatMap_cons, List.flatMap_cons, List.flatMap_map]
    rw [hparts]
    rw [collect] at h
    split_ifs at h
    split at h
    · next values _ hvalues =>
      obtain rfl := Option.some_inj.mp h
      have hstrings := flatMap_mapM (g := Part.strings) (h := Scalar.strings) (fun p v hp => by
        cases p with
        | item w =>
          obtain rfl := Option.some_inj.mp hp
          rfl
        | entry key t => exact nomatch hp) hvalues
      rw [← hstrings]
      exact List.append_nil _
    · next entries _ hentries =>
      split_ifs at h
      obtain rfl := Option.some_inj.mp h
      have hstrings := flatMap_mapM (g := Part.strings)
        (h := fun e : String × Tree => treeStrings e.2) (fun p e hp => by
          cases p with
          | item w => exact nomatch hp
          | entry key t =>
            obtain rfl := Option.some_inj.mp hp
            rfl) hentries
      rw [← hstrings, treeStrings, List.flatMap_assoc]
      refine List.flatMap_congr fun e _ => ?_
      rw [List.flatMap_map]
      rfl
    · exact nomatch h

theorem build_strings {lines : List Line} : ∀ {parts : List (ℕ × Part)},
    build lines = some parts →
      parts.flatMap (fun q => q.2.strings) = lines.flatMap Line.strings := by
  induction lines with
  | nil =>
    intro parts h
    obtain rfl := Option.some_inj.mp h
    rfl
  | cons l lines ih =>
    intro parts h
    match l with
    | .blank => exact ih h
    | .item n v =>
      obtain ⟨rest, hrest, h⟩ := Option.bind_eq_some_iff.mp h
      split_ifs at h
      obtain rfl := Option.some_inj.mp h
      rw [List.flatMap_cons, List.flatMap_cons, ih hrest]
      rfl
    | .entry n key (some v) =>
      obtain ⟨rest, hrest, h⟩ := Option.bind_eq_some_iff.mp h
      split_ifs at h
      obtain rfl := Option.some_inj.mp h
      rw [List.flatMap_cons, List.flatMap_cons, ih hrest]
      exact congrArg (· ++ _) (List.append_nil _)
    | .entry n key none =>
      obtain ⟨rest, hrest, h⟩ := Option.bind_eq_some_iff.mp h
      obtain ⟨t, ht, rfl⟩ := Option.map_eq_some_iff.mp h
      -- the lines below the entry are its value, and the others follow
      have hsplit := congrArg (fun l => l.flatMap fun q : ℕ × Part => q.2.strings)
        (List.takeWhile_append_dropWhile (p := fun q : ℕ × Part => n < q.1) (l := rest))
      simp only [List.flatMap_append] at hsplit
      rw [List.flatMap_cons, List.flatMap_cons, ← ih hrest, ← hsplit]
      show treeStrings t ++ _ = [] ++ _
      rw [collect_strings ht, List.nil_append]

/-- The format. -/
def yaml : Format Line Tree where
  line := line
  document := document
  blank := .blank
  strings := Line.strings
  held := treeStrings
  line_nil := rfl
  document_concat_blank lines := by rw [document, document, build_concat_blank]
  held_document h := by
    obtain ⟨parts, hparts, ht⟩ := Option.bind_eq_some_iff.mp h
    rw [collect_strings ht, build_strings hparts]

def parse (text : String) : Option Tree := yaml.parse text

/-! ### Templates -/

/-- What a word without quotes is written as. -/
def Scalar.text : Scalar → String
  | .null => "null"
  | .bool true => "true"
  | .bool false => "false"
  | .int n => toString n
  | .str s => s

/-- A line of a template, with what is put into it; of an escaped value every newline is written as
`\n`. -/
inductive Item
  | blank
  | comment (text : String)
  | parent (indent : ℕ) (key : String)
  | quoted (indent : ℕ) (key value : String)
  | escaped (indent : ℕ) (key value : String)
  | word (indent : ℕ) (key : String) (value : Scalar)
  | int (indent : ℕ) (key : String) (n : ℤ)
  | item (indent : ℕ) (value : String)

def spaces (n : ℕ) : String := String.ofList (List.replicate n ' ')

def Item.text : Item → String
  | .blank => ""
  | .comment text => "#" ++ text
  | .parent n key => spaces n ++ key ++ ":"
  | .quoted n key value => spaces n ++ key ++ ": \"" ++ value ++ "\""
  | .escaped n key value =>
    spaces n ++ key ++ ": \"" ++ String.ofList (written value.toList) ++ "\""
  | .word n key value => spaces n ++ key ++ ": " ++ value.text
  | .int n key v => spaces n ++ key ++ ": " ++ toString v
  | .item n value => spaces n ++ "- \"" ++ value ++ "\""

/-- The line that is meant. -/
def Item.line : Item → Line
  | .blank => .blank
  | .comment _ => .blank
  | .parent n key => .entry n key none
  | .quoted n key value => .entry n key (some (.str value))
  | .escaped n key value => .entry n key (some (.str value))
  | .word n key value => .entry n key (some value)
  | .int n key v => .entry n key (some (.int v))
  | .item n value => .item n (.str value)

/-- The names, the comments and the words of a line are such. -/
def Item.named : Item → Bool
  | .blank => true
  | .comment text => text.toList.all isComment
  | .parent _ key => isName key.toList
  | .quoted _ key _ => isName key.toList
  | .escaped _ key _ => isName key.toList
  | .word _ key value => isName key.toList && value.text.toList.all isWord &&
      YamlText.word value.text.toList = some value
  | .int _ key _ => isName key.toList
  | .item _ _ => true

/-- The strings that are written between quotes as they are. -/
def Item.strings : Item → List String
  | .quoted _ _ value => [value]
  | .item _ value => [value]
  | _ => []

/-- The strings whose newlines are escaped. -/
def Item.escapedStrings : Item → List String
  | .escaped _ _ value => [value]
  | _ => []

/-- What can be put into a template: a string without a newline, if it is not escaped. -/
def Item.WellFormed (i : Item) : Prop :=
  i.named = true ∧ ∀ s ∈ i.strings, '\n' ∉ s.toList

/-- Every character of a string stands for itself. -/
def Plain (s : String) : Prop := ∀ c ∈ s.toList, isPlain c = true

instance : DecidablePred Plain :=
  fun s => inferInstanceAs (Decidable (∀ c ∈ s.toList, isPlain c = true))

/-- The same, but for newlines. -/
def PlainLines (s : String) : Prop := ∀ c ∈ s.toList, c = '\n' ∨ isPlain c = true

instance : DecidablePred PlainLines :=
  fun s => inferInstanceAs (Decidable (∀ c ∈ s.toList, c = '\n' ∨ isPlain c = true))

/-- Every string of a line is read back. -/
def Item.Plain (i : Item) : Prop :=
  (∀ s ∈ i.strings, YamlText.Plain s) ∧ ∀ s ∈ i.escapedStrings, PlainLines s

/-! ### Lines of a template -/

/-- The first character of a name. -/
theorem exists_of_isName {l : List Char} (h : isName l = true) :
    (∃ c rest, l = c :: rest ∧ c.isAlpha = true) ∧ ∀ c ∈ l, isWord c = true := by
  rw [isName, Bool.and_eq_true, Bool.and_eq_true] at h
  obtain ⟨⟨hhead, hall⟩, -⟩ := h
  refine ⟨?_, List.all_eq_true.mp hall⟩
  cases l with
  | nil => exact absurd hhead (by decide)
  | cons c rest => exact ⟨c, rest, rfl, hhead⟩

theorem newline_not_mem_of_isWord {l : List Char} (h : ∀ c ∈ l, isWord c = true) : '\n' ∉ l :=
  fun hmem => absurd (h _ hmem) (by decide)

theorem toList_spaces (n : ℕ) : (spaces n).toList = List.replicate n ' ' :=
  String.toList_ofList

/-- The spaces before a line. -/
theorem drop_spaces {n : ℕ} {c : Char} (h : isSpace c = false) (rest : List Char) :
    ((spaces n).toList ++ c :: rest).dropWhile isSpace = c :: rest ∧
      (((spaces n).toList ++ c :: rest).takeWhile isSpace).length = n := by
  have hspaces : ∀ d ∈ (spaces n).toList, isSpace d = true := by
    intro d hd
    rw [toList_spaces] at hd
    rw [List.eq_of_mem_replicate hd]
    rfl
  rw [List.dropWhile_append_of_pos hspaces, List.takeWhile_append_of_pos hspaces,
    List.dropWhile_cons_of_neg (by simp [h]), List.takeWhile_cons_of_neg (by simp [h]),
    List.append_nil, toList_spaces, List.length_replicate]
  exact ⟨rfl, rfl⟩

/-- An entry of a template. -/
theorem line_entry {key : String} (hkey : isName key.toList = true) (n : ℕ) (rest : List Char) :
    line ((spaces n).toList ++ (key.toList ++ ':' :: rest)) =
      if ends rest then some (.entry n key none)
      else if (rest.head?.map isBlank).getD false then
        (scalar (rest.dropWhile isBlank)).map fun v => .entry n key (some v)
      else none := by
  obtain ⟨⟨c, l, hcons, halpha⟩, hword⟩ := exists_of_isName hkey
  have hspace : isSpace c = false := by
    cases hc : isSpace c with
    | false => rfl
    | true => exact absurd ((of_decide_eq_true hc : c = ' ') ▸ halpha) (by decide)
  have hcomment : c ≠ '#' := by
    rintro rfl
    exact absurd halpha (by decide)
  have hdash : ¬ (c = '-' ∧ ((l ++ ':' :: rest).head?.map isBlank).getD false = true) := by
    rintro ⟨rfl, -⟩
    exact absurd halpha (by decide)
  have htake : (key.toList ++ ':' :: rest).takeWhile isWord = key.toList := by
    rw [List.takeWhile_append_of_pos hword, List.takeWhile_cons_of_neg (by decide), List.append_nil]
  have hdrop : (key.toList ++ ':' :: rest).dropWhile isWord = ':' :: rest := by
    rw [List.dropWhile_append_of_pos hword, List.dropWhile_cons_of_neg (by decide)]
  have hline : line ((spaces n).toList ++ (key.toList ++ ':' :: rest)) =
      entry n (key.toList ++ ':' :: rest) := by
    rw [hcons, List.cons_append, line, (drop_spaces hspace _).1, (drop_spaces hspace _).2]
    dsimp only
    rw [if_neg hcomment, if_neg hdash]
  rw [hline, entry, htake, hdrop, hkey, String.ofList_toList]
  rfl

/-- An entry with a string in quotes. -/
theorem line_quoted {key : String} (hkey : isName key.toList = true) (n : ℕ) (l : List Char) :
    line ((spaces n).toList ++ (key.toList ++ ':' :: ' ' :: '"' :: l)) =
      (unquote double ends l).map fun v => .entry n key (some (.str v)) := by
  have hends : ends (' ' :: '"' :: l) = false := rfl
  rw [line_entry hkey, hends, if_neg (by decide)]
  show Option.map _ (quoted l) = _
  rw [quoted, Option.map_map]
  rfl

theorem rendered_comment {text : String} (h : text.toList.all isComment = true) :
    Rendered yaml ("#" ++ text).toList .blank True := by
  rw [String.toList_append]
  refine .of_eq ?_ ?_
  · refine List.not_mem_cons_of_ne_of_not_mem (by decide) fun hmem => ?_
    exact absurd (List.all_eq_true.mp h _ hmem) (by decide)
  · show (if text.toList.all isComment then some Line.blank else none) = _
    rw [h]
    rfl

theorem rendered_parent {key : String} (hkey : isName key.toList = true) (n : ℕ) :
    Rendered yaml (spaces n ++ key ++ ":").toList (.entry n key none) True := by
  have hnewline := newline_not_mem_of_isWord (exists_of_isName hkey).2
  rw [String.toList_append, String.toList_append, List.append_assoc]
  refine .of_eq ?_ ?_
  · simpa [toList_spaces] using hnewline
  · show line ((spaces n).toList ++ (key.toList ++ ':' :: [])) = _
    rw [line_entry hkey]
    rfl

/-- A string in quotes, as it is written. -/
theorem rendered_string {key value raw : String} {plain : Prop} (hkey : isName key.toList = true)
    (n : ℕ) (hraw : '\n' ∉ raw.toList)
    (hread : unquote double ends (raw.toList ++ ['"']) = some value ↔ plain) :
    Rendered yaml (spaces n ++ key ++ ": \"" ++ raw ++ "\"").toList
      (.entry n key (some (.str value))) plain := by
  have hnewline := newline_not_mem_of_isWord (exists_of_isName hkey).2
  refine .of_string (fun v => Line.entry n key (some (.str v))) ?_ ?_ (fun _ => rfl) hread
  · simp only [String.toList_append]
    simpa [toList_spaces] using ⟨hnewline, hraw⟩
  · simp only [String.toList_append, List.append_assoc]
    exact line_quoted hkey n (raw.toList ++ ['"'])

theorem rendered_quoted {key value : String} (hkey : isName key.toList = true) (n : ℕ)
    (hvalue : '\n' ∉ value.toList) :
    Rendered yaml (spaces n ++ key ++ ": \"" ++ value ++ "\"").toList
      (.entry n key (some (.str value))) (Plain value) := by
  have hread := unquote_iff double (show ends [] = true from rfl) hvalue
  exact rendered_string hkey n hvalue hread

theorem rendered_escaped {key : String} (hkey : isName key.toList = true) (n : ℕ)
    (value : String) :
    Rendered yaml
      (spaces n ++ key ++ ": \"" ++ String.ofList (written value.toList) ++ "\"").toList
      (.entry n key (some (.str value))) (PlainLines value) := by
  have hraw : (String.ofList (written value.toList)).toList = written value.toList :=
    String.toList_ofList
  have hread := unquote_written_iff double (show ends [] = true from rfl) (s := value)
  refine rendered_string hkey n ?_ ?_
  · rw [hraw]
    exact newline_not_mem_written _
  · rw [hraw]
    exact hread

theorem rendered_word {key : String} {value : Scalar} (hkey : isName key.toList = true) (n : ℕ)
    (hword : ∀ c ∈ value.text.toList, isWord c = true) (hread : word value.text.toList = some value) :
    Rendered yaml (spaces n ++ key ++ ": " ++ value.text).toList (.entry n key (some value)) True := by
  have hnewline := newline_not_mem_of_isWord (exists_of_isName hkey).2
  have hnewline' := newline_not_mem_of_isWord hword
  simp only [String.toList_append, List.append_assoc]
  refine .of_eq ?_ ?_
  · simpa [toList_spaces] using ⟨hnewline, hnewline'⟩
  · show line ((spaces n).toList ++ (key.toList ++ ':' :: ' ' :: value.text.toList)) = _
    have htake : value.text.toList.takeWhile isWord = value.text.toList :=
      List.takeWhile_eq_self_iff.mpr hword
    have hdrop : value.text.toList.dropWhile isWord = [] := List.dropWhile_eq_nil_iff.mpr hword
    cases hl : value.text.toList with
    | nil =>
      rw [hl] at hread
      exact nomatch hread
    | cons c l =>
      rw [hl] at htake hdrop hread hword
      have hc := hword c List.mem_cons_self
      have hblank : isBlank c = false := by
        cases hb : isBlank c with
        | false => rfl
        | true =>
          obtain rfl | rfl : c = ' ' ∨ c = '\t' := by simpa [isBlank] using hb
          · exact absurd hc (by decide)
          · exact absurd hc (by decide)
      have hquote : c ≠ '"' := by
        rintro rfl
        exact absurd hc (by decide)
      have hcomment : c ≠ '#' := by
        rintro rfl
        exact absurd hc (by decide)
      have hends : ends (' ' :: c :: l) = false := by
        rw [ends, List.dropWhile_cons_of_pos (by decide), List.dropWhile_cons_of_neg (by simp [hblank])]
        simp [hcomment]
      rw [line_entry hkey, hends, if_neg (by decide), List.dropWhile_cons_of_pos (by decide),
        List.dropWhile_cons_of_neg (by simp [hblank]), scalar, if_neg hquote, hdrop, htake, hread]
      rfl

theorem rendered_item {value : String} (n : ℕ) (hvalue : '\n' ∉ value.toList) :
    Rendered yaml (spaces n ++ "- \"" ++ value ++ "\"").toList (.item n (.str value))
      (Plain value) := by
  have hread := unquote_iff double (show ends [] = true from rfl) hvalue
  refine .of_string (fun v => Line.item n (.str v)) ?_ ?_ (fun _ => rfl) hread
  · simp only [String.toList_append]
    simpa [toList_spaces] using hvalue
  · simp only [String.toList_append, List.append_assoc]
    show line ((spaces n).toList ++ '-' :: (' ' :: '"' :: (value.toList ++ ['"']))) = _
    rw [line, (drop_spaces (by decide) _).1, (drop_spaces (by decide) _).2]
    show Option.map _ (quoted (value.toList ++ ['"'])) = _
    rw [quoted, Option.map_map]
    rfl

theorem isPlain_of_isDigit {c : Char} (h : c.isDigit = true) : isPlain c = true := by
  have hquote : c ≠ '"' := by
    rintro rfl
    exact absurd h (by decide)
  have hbackslash : c ≠ '\\' := by
    rintro rfl
    exact absurd h (by decide)
  simp only [Char.isDigit, Bool.and_eq_true, decide_eq_true_eq, ge_iff_le,
    UInt32.le_iff_toNat_le] at h
  have hzero : 32 ≤ c.toNat := by
    have hval : '0'.val.toNat = 48 := rfl
    have hc : c.toNat = c.val.toNat := rfl
    omega
  simp [isPlain, hquote, hbackslash, hzero]

/-- A number is a word. -/
theorem word_int (n : ℤ) : (∀ c ∈ (toString n).toList, isWord c = true) ∧
    word (toString n).toList = some (.int n) := by
  have hdigit : ∀ c ∈ (toString n).toList, c = '-' ∨ c.isDigit = true := fun c => mem_toString
  have hread := integer_toString n
  revert hdigit hread
  generalize (toString n).toList = l
  intro hdigit hread
  have hword : ∀ c ∈ l, isWord c = true := by
    intro c hc
    obtain rfl | hd := hdigit c hc
    · decide
    · rw [isWord, Char.isAlphanum, hd]
      simp
  refine ⟨hword, ?_⟩
  -- no letter stands at the beginning
  have hhead : ∀ c ∈ l.head?, c.isAlpha = false := by
    intro c hc
    obtain rfl | hd := hdigit c (List.mem_of_mem_head? hc)
    · decide
    · exact isAlpha_of_isDigit hd
  have hnot : ∀ t : List Char, (∃ c ∈ t.head?, c.isAlpha = true) → l ≠ t := by
    rintro t ⟨c, hc, halpha⟩ rfl
    exact absurd ((hhead c hc).symm.trans halpha) (by decide)
  have hname : isName l = false := by
    cases h : isName l with
    | false => rfl
    | true =>
      obtain ⟨⟨c, rest, rfl, halpha⟩, -⟩ := exists_of_isName h
      exact absurd ((hhead c rfl).symm.trans halpha) (by decide)
  rw [word, if_neg (hnot _ ⟨'t', rfl, rfl⟩), if_neg (hnot _ ⟨'f', rfl, rfl⟩),
    if_neg (hnot _ ⟨'n', rfl, rfl⟩), hname, hread]
  rfl

/-- A line of a template is read as it is meant exactly if the strings in it are plain. -/
theorem Item.rendered {i : Item} (h : i.WellFormed) :
    Rendered yaml i.text.toList i.line i.Plain := by
  obtain ⟨hnamed, hstrings⟩ := h
  cases i with
  | blank => exact (Rendered.of_eq List.not_mem_nil rfl).congr (by simp [Plain, strings, escapedStrings])
  | comment text => exact (rendered_comment hnamed).congr (by simp [Plain, strings, escapedStrings])
  | parent n key => exact (rendered_parent hnamed n).congr (by simp [Plain, strings, escapedStrings])
  | quoted n key value =>
    have hnewline := hstrings value List.mem_cons_self
    refine (rendered_quoted hnamed n hnewline).congr ?_
    simp [Plain, strings, escapedStrings]
  | escaped n key value =>
    refine (rendered_escaped hnamed n value).congr ?_
    simp [Plain, strings, escapedStrings]
  | word n key value =>
    rw [named, Bool.and_eq_true, Bool.and_eq_true, decide_eq_true_eq, List.all_eq_true] at hnamed
    obtain ⟨⟨hkey, hword⟩, hread⟩ := hnamed
    exact (rendered_word hkey n hword hread).congr (by simp [Plain, strings, escapedStrings])
  | int n key v =>
    obtain ⟨hword, hread⟩ := word_int v
    exact (@rendered_word key (.int v) hnamed n hword hread).congr
      (by simp [Plain, strings, escapedStrings])
  | item n value =>
    refine (rendered_item n (hstrings value List.mem_cons_self)).congr ?_
    simp [Plain, strings, escapedStrings]

/-- A value with the strings of a template is what is read of it exactly if all strings are plain,
and it is the value of the lines that are meant. -/
theorem parse_render_iff {items : List Item} {t : Tree} (hnamed : items.all Item.named = true)
    (hstrings : ∀ s ∈ items.flatMap Item.strings, '\n' ∉ s.toList)
    (ht : treeStrings t = (items.map Item.line).flatMap Line.strings) :
    parse (render Item.text items) = some t ↔
      ((∀ s ∈ items.flatMap Item.strings, Plain s) ∧
        ∀ s ∈ items.flatMap Item.escapedStrings, PlainLines s) ∧
      document (items.map Item.line) = some t := by
  have hrendered : ∀ i ∈ items, Rendered yaml i.text.toList i.line i.Plain := by
    intro i hi
    refine Item.rendered ⟨List.all_eq_true.mp hnamed i hi, fun s hs => ?_⟩
    exact hstrings s (List.mem_flatMap.mpr ⟨i, hi, hs⟩)
  have hplain : (∀ i ∈ items, i.Plain) ↔ (∀ s ∈ items.flatMap Item.strings, Plain s) ∧
      ∀ s ∈ items.flatMap Item.escapedStrings, PlainLines s := by
    rw [List.forall_mem_flatMap, List.forall_mem_flatMap]
    exact forall₂_and
  rw [parse, RenderedText.parse_render_iff hrendered ht, hplain]
  rfl

end YamlText
