/-
Texts that are rendered line by line, and read line by line.

What is put into a template can change the lines that are read of it.  If the strings that a
document holds are those of its lines, in their order, then no change makes up for another one: a
rendered text gives back what was put into it only if every line of it does.

* `Format`, `parse` — the lines of a format, its documents, and the reader;
* `Rendered` — a line of a template, and when it is read as it is meant;
* `parse_render_iff` — the same of a template.
-/
import KrgInfra.Python

namespace RenderedText

variable {Line Doc Item : Type*}

/-- How a text is read: its lines, and the document that they make up, with the strings that they
hold. -/
structure Format (Line Doc : Type*) where
  line : List Char → Option Line
  document : List Line → Option Doc
  blank : Line
  strings : Line → List String
  held : Doc → List String
  line_nil : line [] = some blank
  document_concat_blank (lines : List Line) : document (lines ++ [blank]) = document lines
  held_document {lines : List Line} {d : Doc} (h : document lines = some d) :
    held d = lines.flatMap strings

def Format.parse (F : Format Line Doc) (text : String) : Option Doc :=
  ((text.toList.splitOn '\n').mapM F.line).bind F.document

/-- A text whose lines are all ended. -/
def render (text : Item → String) (items : List Item) : String :=
  Python.join (items.map text ++ [""])

/-- A line of a template: it is read as it is meant exactly if what is put into it is plain, and
otherwise it is not read, or holds as many strings, but other ones. -/
structure Rendered (F : Format Line Doc) (text : List Char) (meant : Line) (plain : Prop) :
    Prop where
  newline_not_mem : '\n' ∉ text
  line_eq : plain → F.line text = some meant
  length_eq {l : Line} : F.line text = some l → (F.strings l).length = (F.strings meant).length
  plain_of_eq {l : Line} : F.line text = some l → F.strings l = F.strings meant → plain

variable {F : Format Line Doc}

/-- A line that is always read as it is meant. -/
theorem Rendered.of_eq {text : List Char} {meant : Line} (hnewline : '\n' ∉ text)
    (h : F.line text = some meant) : Rendered F text meant True where
  newline_not_mem := hnewline
  line_eq _ := h
  length_eq hl := by rw [Option.some_inj.mp (hl.symm.trans h)]
  plain_of_eq _ _ := trivial

theorem Rendered.congr {text : List Char} {meant : Line} {p q : Prop}
    (h : Rendered F text meant p) (hpq : p ↔ q) : Rendered F text meant q :=
  propext hpq ▸ h

/-- A line with one string. -/
theorem Rendered.of_string {text : List Char} (meant : String → Line) {plain : Prop}
    {read : Option String} {s : String} (hnewline : '\n' ∉ text)
    (h : F.line text = read.map meant) (hstrings : ∀ s, F.strings (meant s) = [s])
    (hread : read = some s ↔ plain) : Rendered F text (meant s) plain where
  newline_not_mem := hnewline
  line_eq hplain := by
    rw [h, hread.mpr hplain]
    rfl
  length_eq hl := by
    obtain ⟨s', -, rfl⟩ := Option.map_eq_some_iff.mp (h.symm.trans hl)
    rw [hstrings, hstrings]
    rfl
  plain_of_eq hl heq := by
    obtain ⟨s', hs', rfl⟩ := Option.map_eq_some_iff.mp (h.symm.trans hl)
    rw [hstrings, hstrings] at heq
    exact hread.mp (hs'.trans (congrArg some (List.cons.inj heq).1))

variable {text : Item → String} {meant : Item → Line} {plain : Item → Prop} {items : List Item}

/-- The last line is empty. -/
theorem parse_render (h : ∀ i ∈ items, '\n' ∉ (text i).toList) :
    F.parse (render text items) =
      (items.mapM fun i => F.line (text i).toList).bind F.document := by
  have hsplit : (render text items).toList.splitOn '\n' =
      (items.map fun i => (text i).toList) ++ [[]] := by
    rw [render, Python.join, String.toList_ofList, Python.splitOn_joinLines]
    · rw [List.map_append, List.map_map]
      rfl
    · simp
    · intro l hl
      obtain ⟨s, hs, rfl⟩ := List.mem_map.mp hl
      obtain hs | hs := List.mem_append.mp hs
      · obtain ⟨i, hi, rfl⟩ := List.mem_map.mp hs
        exact h i hi
      · rw [List.mem_singleton.mp hs]
        exact List.not_mem_nil
  have hmap : (items.map fun i => (text i).toList).mapM F.line =
      items.mapM fun i => F.line (text i).toList := by
    rw [List.mapM_map]
    rfl
  have hlast : [([] : List Char)].mapM F.line = some [F.blank] := by
    rw [List.mapM_cons, F.line_nil]
    rfl
  rw [Format.parse, hsplit, List.mapM_append, hmap, hlast]
  cases items.mapM fun i => F.line (text i).toList with
  | none => rfl
  | some lines => exact F.document_concat_blank lines

/-- If all strings are read back, then all lines are plain. -/
theorem plain_of_strings {lines : List Line}
    (h : ∀ i ∈ items, Rendered F (text i).toList (meant i) (plain i))
    (hread : (items.mapM fun i => F.line (text i).toList) = some lines)
    (hstrings : lines.flatMap F.strings = (items.map meant).flatMap F.strings) :
    ∀ i ∈ items, plain i := by
  induction items generalizing lines with
  | nil => exact fun _ h => nomatch h
  | cons i items ih =>
    obtain ⟨hi, hitems⟩ := List.forall_mem_cons.mp h
    rw [List.mapM_cons] at hread
    obtain ⟨l, hl, hread⟩ := Option.bind_eq_some_iff.mp hread
    obtain ⟨rest, hrest, hread⟩ := Option.bind_eq_some_iff.mp hread
    obtain rfl := Option.some_inj.mp hread
    rw [List.map_cons, List.flatMap_cons, List.flatMap_cons] at hstrings
    -- as many strings are read of the first line as are meant
    obtain ⟨hhead, htail⟩ := List.append_inj hstrings (hi.length_eq hl)
    exact List.forall_mem_cons.mpr ⟨hi.plain_of_eq hl hhead, ih hitems hrest htail⟩

/-- Plain lines are read as they are meant. -/
theorem mapM_of_plain (h : ∀ i ∈ items, Rendered F (text i).toList (meant i) (plain i))
    (hplain : ∀ i ∈ items, plain i) :
    (items.mapM fun i => F.line (text i).toList) = some (items.map meant) := by
  induction items with
  | nil => rfl
  | cons i items ih =>
    obtain ⟨hi, hitems⟩ := List.forall_mem_cons.mp h
    obtain ⟨hp, hps⟩ := List.forall_mem_cons.mp hplain
    rw [List.mapM_cons, hi.line_eq hp, ih hitems hps]
    rfl

/-- A document with the strings that were put into a template is what is read exactly if every line
is plain, and the lines that are meant have this document. -/
theorem parse_render_iff (h : ∀ i ∈ items, Rendered F (text i).toList (meant i) (plain i))
    {d : Doc} (hd : F.held d = (items.map meant).flatMap F.strings) :
    F.parse (render text items) = some d ↔
      (∀ i ∈ items, plain i) ∧ F.document (items.map meant) = some d := by
  rw [parse_render fun i hi => (h i hi).newline_not_mem]
  constructor
  · intro hparse
    obtain ⟨lines, hlines, hdocument⟩ := Option.bind_eq_some_iff.mp hparse
    have hplain := plain_of_strings h hlines ((F.held_document hdocument).symm.trans hd)
    rw [mapM_of_plain h hplain] at hlines
    obtain rfl := Option.some_inj.mp hlines
    exact ⟨hplain, hdocument⟩
  · rintro ⟨hplain, hdocument⟩
    rw [mapM_of_plain h hplain]
    exact hdocument

end RenderedText
