/-
Texts, as the Python helpers read them.

* `strip`, `rstrip`, `pyBool` — `str.strip`, `str.rstrip`, and the helpers' `_bool`;
* `readText` — what a file opened in text mode gives: every line ends with a newline;
* `splitlines`, `splitlines_unlines` — `str.splitlines`, and lines that were written one by one.
-/
import Mathlib.Data.List.Basic

-- what holds of all characters of a text is decided one by one, and not for every character there is
attribute [instance (2000)] List.decidableBAll List.decidableBEx

namespace Python

/-- `str.isspace` of one character. -/
def isspace (c : Char) : Bool :=
  let n := c.toNat
  (9 ≤ n && n ≤ 13) || (28 ≤ n && n ≤ 32) || n = 0x85 || n = 0xa0 || n = 0x1680 ||
    (0x2000 ≤ n && n ≤ 0x200a) || n = 0x2028 || n = 0x2029 || n = 0x202f || n = 0x205f ||
    n = 0x3000

/-- `s.strip()` -/
def strip (s : String) : String :=
  String.ofList ((s.toList.dropWhile isspace).reverse.dropWhile isspace).reverse

/-- `s.rstrip()` -/
def rstrip (s : String) : String := String.ofList (s.toList.reverse.dropWhile isspace).reverse

/-- `_bool(s)`: `s.strip().lower() in ("1", "true", "yes", "on")`. -/
def pyBool (s : String) : Bool := (strip s).toLower ∈ ["1", "true", "yes", "on"]

/-- Universal newlines: `\r\n` and `\r` are read as `\n`; `afterCr` says whether the last
character was a carriage return. -/
def universal (afterCr : Bool) : List Char → List Char
  | [] => []
  | c :: rest =>
    if c = '\r' then '\n' :: universal true rest
    else if afterCr ∧ c = '\n' then universal false rest
    else c :: universal false rest

/-- The text of a file. -/
def readText (content : String) : String := String.ofList (universal false content.toList)

example : readText "a\r\nb\rc\n" = "a\nb\nc\n" := by decide

/-- A content without carriage returns is read as it is. -/
theorem readText_eq_self {content : String} (h : '\r' ∉ content.toList) :
    readText content = content := by
  have huniversal : ∀ l : List Char, '\r' ∉ l → universal false l = l := by
    intro l
    induction l with
    | nil => exact fun _ => rfl
    | cons c rest ih =>
      intro hl
      rw [List.mem_cons, not_or] at hl
      rw [universal, if_neg fun hc => hl.1 hc.symm, if_neg (by simp), ih hl.2]
  rw [readText, huniversal _ h, String.ofList_toList]

/-- What is read has no carriage returns. -/
theorem cr_not_mem_readText (content : String) : '\r' ∉ (readText content).toList := by
  have huniversal : ∀ (l : List Char) (afterCr : Bool), '\r' ∉ universal afterCr l := by
    intro l
    induction l with
    | nil => exact fun _ => List.not_mem_nil
    | cons c rest ih =>
      intro afterCr
      rw [universal]
      split_ifs with hcr
      · exact List.not_mem_cons_of_ne_of_not_mem (by decide) (ih true)
      · exact ih false
      · exact List.not_mem_cons_of_ne_of_not_mem (Ne.symm hcr) (ih false)
  rw [readText, String.toList_ofList]
  exact huniversal _ _

/-- A literal without carriage returns. -/
theorem cr_not_mem_ofList {l : List Char} (h : '\r' ∉ l) : '\r' ∉ (String.ofList l).toList := by
  rwa [String.toList_ofList]

/-! ### Lines -/

/-- Where `str.splitlines` ends a line. -/
def isLineBreak (c : Char) : Bool :=
  let n := c.toNat
  (10 ≤ n && n ≤ 13) || (28 ≤ n && n ≤ 30) || n = 0x85 || n = 0x2028 || n = 0x2029

/-- The lines of a text, after the characters `line` of the first one; `\r\n` ends one line. -/
def linesFrom (afterCr : Bool) (line : List Char) : List Char → List (List Char)
  | [] => if line = [] then [] else [line]
  | c :: rest =>
    if afterCr ∧ c = '\n' then linesFrom false line rest
    else if isLineBreak c then line :: linesFrom (c = '\r') [] rest
    else linesFrom false (line ++ [c]) rest

/-- `text.splitlines()` -/
def splitlines (text : String) : List String := (linesFrom false [] text.toList).map String.ofList

example : splitlines "a\r\nb\n\nc" = ["a", "b", "", "c"] := by decide

/-- `"\n".join(lines) + "\n"`, of at least one line. -/
def unlines (lines : List String) : String :=
  String.ofList (lines.flatMap fun line => line.toList ++ ['\n'])

theorem linesFrom_line {l : List Char} (h : ∀ c ∈ l, isLineBreak c = false) (rest : List Char) :
    ∀ line, linesFrom false line (l ++ '\n' :: rest) = (line ++ l) :: linesFrom false [] rest := by
  induction l with
  | nil =>
    intro line
    rw [List.nil_append, linesFrom, if_neg (by simp), if_pos (by decide), List.append_nil]
    rfl
  | cons c l ih =>
    intro line
    rw [List.cons_append, linesFrom, if_neg (by simp), if_neg (by simp [h c List.mem_cons_self]),
      ih fun d hd => h d (List.mem_cons_of_mem _ hd), List.append_assoc, List.singleton_append]

/-- Lines without line breaks are read back. -/
theorem splitlines_unlines {lines : List String}
    (h : ∀ line ∈ lines, ∀ c ∈ line.toList, isLineBreak c = false) :
    splitlines (unlines lines) = lines := by
  rw [splitlines, unlines, String.toList_ofList]
  induction lines with
  | nil => rfl
  | cons line lines ih =>
    rw [List.flatMap_cons, List.append_assoc, List.singleton_append,
      linesFrom_line (h line List.mem_cons_self), List.nil_append, List.map_cons,
      String.ofList_toList, ih fun l hl => h l (List.mem_cons_of_mem _ hl)]

/-- A line has no line breaks. -/
theorem not_break_of_mem_splitlines {text line : String} (h : line ∈ splitlines text) :
    ∀ c ∈ line.toList, isLineBreak c = false := by
  have hfrom : ∀ (l : List Char) (afterCr : Bool) (start : List Char),
      (∀ c ∈ start, isLineBreak c = false) → ∀ line ∈ linesFrom afterCr start l,
        ∀ c ∈ line, isLineBreak c = false := by
    intro l
    induction l with
    | nil =>
      intro afterCr start hstart line hline
      rw [linesFrom] at hline
      split_ifs at hline
      · exact nomatch hline
      · rw [List.mem_singleton.mp hline]
        exact hstart
    | cons c l ih =>
      intro afterCr start hstart line hline
      rw [linesFrom] at hline
      split_ifs at hline with hcr hbreak
      · exact ih false start hstart line hline
      · obtain rfl | hline := List.mem_cons.mp hline
        · exact hstart
        · exact ih _ [] (fun _ h => nomatch h) line hline
      · refine ih false (start ++ [c]) (fun d hd => ?_) line hline
        obtain hd | hd := List.mem_append.mp hd
        · exact hstart d hd
        · rw [List.mem_singleton.mp hd]
          exact Bool.eq_false_iff.mpr hbreak
  obtain ⟨l, hl, rfl⟩ := List.mem_map.mp h
  rw [String.toList_ofList]
  exact hfrom _ false [] (fun _ h => nomatch h) l hl

/-- `"\n".join(lines)` -/
def joinLines : List (List Char) → List Char
  | [] => []
  | [line] => line
  | line :: next :: lines => line ++ '\n' :: joinLines (next :: lines)

def join (lines : List String) : String := String.ofList (joinLines (lines.map String.toList))

theorem joinLines_concat_newline {lines : List (List Char)} (h : lines ≠ []) :
    joinLines lines ++ ['\n'] = lines.flatMap fun line => line ++ ['\n'] := by
  induction lines with
  | nil => exact absurd rfl h
  | cons line lines ih =>
    cases lines with
    | nil => simp [joinLines]
    | cons next lines =>
      rw [joinLines, List.flatMap_cons, ← ih (List.cons_ne_nil _ _)]
      simp

/-- Joined lines are split again. -/
theorem splitOn_joinLines {lines : List (List Char)} (h : lines ≠ [])
    (hlines : ∀ line ∈ lines, '\n' ∉ line) : (joinLines lines).splitOn '\n' = lines := by
  induction lines with
  | nil => exact absurd rfl h
  | cons line lines ih =>
    obtain ⟨hline, hlines⟩ := List.forall_mem_cons.mp hlines
    cases lines with
    | nil => exact List.splitOn_eq_singleton hline
    | cons next lines =>
      rw [joinLines, List.splitOn_append_cons_self_of_not_mem hline,
        ih (List.cons_ne_nil _ _) hlines]

theorem joinLines_append {lines : List (List Char)} (h : lines ≠ []) (next : List Char)
    (more : List (List Char)) :
    joinLines (lines ++ next :: more) = joinLines lines ++ '\n' :: joinLines (next :: more) := by
  induction lines with
  | nil => exact absurd rfl h
  | cons line lines ih =>
    cases lines with
    | nil => rfl
    | cons line' lines =>
      rw [List.cons_append, List.cons_append, joinLines, ← List.cons_append,
        ih (List.cons_ne_nil _ _), joinLines, List.append_assoc, List.cons_append]

/-- Written with newlines, the lines of a text without other ends than `\n` and `\r` are the text,
and perhaps one newline more. -/
theorem flatMap_linesFrom {l : List Char} (h : ∀ c ∈ l, isLineBreak c → c = '\n' ∨ c = '\r') :
    ∀ (afterCr : Bool) (line : List Char), ∃ e, (e = [] ∨ e = ['\n']) ∧
      (linesFrom afterCr line l).flatMap (fun line => line ++ ['\n']) =
        line ++ universal afterCr l ++ e := by
  induction l with
  | nil =>
    intro afterCr line
    rw [linesFrom]
    split_ifs with hline
    · exact ⟨[], .inl rfl, by rw [hline]; rfl⟩
    · exact ⟨['\n'], .inr rfl, by simp [universal]⟩
  | cons c l ih =>
    intro afterCr line
    have ih := ih fun d hd => h d (List.mem_cons_of_mem c hd)
    rw [linesFrom, universal]
    by_cases hskip : afterCr ∧ c = '\n'
    · obtain ⟨e, he, heq⟩ := ih false line
      have hcr : c ≠ '\r' := hskip.2 ▸ by decide
      rw [if_pos hskip, if_neg hcr, if_pos hskip]
      exact ⟨e, he, heq⟩
    · rw [if_neg hskip]
      by_cases hbreak : isLineBreak c = true
      · rw [if_pos hbreak]
        obtain ⟨e, he, heq⟩ := ih (c = '\r') []
        refine ⟨e, he, ?_⟩
        rw [List.flatMap_cons, heq]
        obtain rfl | rfl := h c List.mem_cons_self hbreak
        · rw [if_neg (by decide), if_neg hskip]
          simp
        · rw [if_pos rfl]
          simp
      · have hcr : c ≠ '\r' := fun hc => hbreak (hc ▸ by decide)
        rw [if_neg hbreak, if_neg hcr, if_neg hskip]
        obtain ⟨e, he, heq⟩ := ih false (line ++ [c])
        exact ⟨e, he, by rw [heq]; simp⟩

/-- The same of a text that is ended by another line break. -/
theorem flatMap_linesFrom_concat {l : List Char} {b : Char}
    (h : ∀ c ∈ l, isLineBreak c → c = '\n' ∨ c = '\r') (hb : isLineBreak b = true)
    (hn : b ≠ '\n') :
    ∀ (afterCr : Bool) (line : List Char),
      (linesFrom afterCr line (l ++ [b])).flatMap (fun line => line ++ ['\n']) =
        line ++ universal afterCr l ++ ['\n'] := by
  induction l with
  | nil =>
    intro afterCr line
    rw [List.nil_append, linesFrom, if_neg fun h => hn h.2, if_pos hb, linesFrom, if_pos rfl]
    simp [universal]
  | cons c l ih =>
    intro afterCr line
    have ih := ih fun d hd => h d (List.mem_cons_of_mem c hd)
    rw [List.cons_append, linesFrom, universal]
    by_cases hskip : afterCr ∧ c = '\n'
    · have hcr : c ≠ '\r' := hskip.2 ▸ by decide
      rw [if_pos hskip, if_neg hcr, if_pos hskip]
      exact ih false line
    · rw [if_neg hskip]
      by_cases hbreak : isLineBreak c = true
      · rw [if_pos hbreak, List.flatMap_cons, ih]
        obtain rfl | rfl := h c List.mem_cons_self hbreak
        · rw [if_neg (by decide), if_neg hskip]
          simp
        · rw [if_pos rfl]
          simp
      · have hcr : c ≠ '\r' := fun hc => hbreak (hc ▸ by decide)
        rw [if_neg hbreak, if_neg hcr, if_neg hskip, ih]
        simp

/-- The lines before such a line break, and those after it. -/
theorem linesFrom_append_break {b : Char} (hb : isLineBreak b = true) (hn : b ≠ '\n')
    (hr : b ≠ '\r') (m : List Char) : ∀ (l : List Char) (afterCr : Bool) (line : List Char),
      linesFrom afterCr line (l ++ b :: m) =
        linesFrom afterCr line (l ++ [b]) ++ linesFrom false [] m := by
  intro l
  induction l with
  | nil =>
    intro afterCr line
    rw [List.nil_append, List.nil_append, linesFrom, linesFrom, if_neg fun h => hn h.2, if_pos hb,
      if_neg fun h => hn h.2, if_pos hb, linesFrom, if_pos rfl, decide_eq_false hr]
    rfl
  | cons c l ih =>
    intro afterCr line
    rw [List.cons_append, List.cons_append, linesFrom, linesFrom]
    split_ifs
    · exact ih false line
    · rw [ih, List.cons_append]
    · exact ih false (line ++ [c])

/-- The first line goes on with what was read of it. -/
theorem linesFrom_cons (c : Char) : ∀ (l : List Char) (afterCr : Bool) (line : List Char),
    ∃ m lines, linesFrom afterCr (c :: line) l = (c :: m) :: lines := by
  intro l
  induction l with
  | nil => exact fun _ line => ⟨line, [], by rw [linesFrom, if_neg (List.cons_ne_nil _ _)]⟩
  | cons d l ih =>
    intro afterCr line
    rw [linesFrom]
    split_ifs
    · exact ih false line
    · exact ⟨line, _, rfl⟩
    · exact ih false (line ++ [d])

end Python
