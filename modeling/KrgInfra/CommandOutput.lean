/-
The output of `synowebapi --exec`, as six programs read it.

`synowebapi` prints diagnostic lines (`[Line 295] Exec WebAPI: … param={…}`) and then the answer,
a JSON object that begins on a line of its own.  `apply_vpn.py` drops the diagnostic lines, the
drift detector looks for the first line that begins with a brace, and four helpers look for the
first brace of the text.

* `Vpn._exec`, `Certificate._exec`, …, `Drift.webapi_data` — the programs;
* `Output` — diagnostic lines and an answer;
* `readLines`, `readLines_wide` — an answer whose lines were taken apart;
* `readFirstBrace` — an answer after other text;
* `readAlike_iff` — when all six read the answer; `param_braces` — an output where they do not.
-/
import KrgInfra.JsonText
import Mathlib.Data.List.TakeWhile

namespace CommandOutput

open Python JsonText

/-- `brace = txt.find("{")`, and `json.loads(txt[brace:])`; `none` where either raises. -/
def loadsFromBrace (k : Scalars) (txt : List Char) : Option Json :=
  if '{' ∈ txt then loads k (txt.dropWhile (· ≠ '{')) else none

/-- Whether a line is diagnostic: `ln.startswith("[Line")`. -/
def isDiagnostic (ln : String) : Bool := "[Line".toList <+: ln.toList

/-- `apply_vpn.py` -/
def Vpn._exec (k : Scalars) (stdout : String) : Option Json :=
  loadsFromBrace k (join ((splitlines stdout).filter fun ln => !isDiagnostic ln)).toList

/-- `apply_certificate.py` -/
def Certificate._exec (k : Scalars) (stdout : String) : Option Json :=
  loadsFromBrace k stdout.toList

/-- `apply_security.py` -/
def Security._exec (k : Scalars) (stdout : String) : Option Json :=
  loadsFromBrace k stdout.toList

/-- `apply_nfs.py` -/
def Nfs._exec (k : Scalars) (stdout : String) : Option Json :=
  loadsFromBrace k stdout.toList

/-- `apply_smb.py` -/
def Smb._exec (k : Scalars) (stdout : String) : Option Json :=
  loadsFromBrace k stdout.toList

/-- `ln.lstrip().startswith("{")` -/
def startsWithBrace (ln : String) : Bool := (ln.toList.dropWhile isspace).head? = some '{'

/-- `["data"]` -/
def dataOf : Json → Option Json
  | .obj members => members.lookup "data"
  | _ => none

/-- `webapi_data(lines)` of the drift detector. -/
def Drift.webapi_data (k : Scalars) (lines : List String) : Option Json :=
  match lines.dropWhile fun ln => !startsWithBrace ln with
  | [] => none
  | ln :: rest => (loads k (join (ln :: rest)).toList).bind dataOf

/-- Diagnostic lines, and an object that is printed after them. -/
structure Output (k : Scalars) where
  diagnostics : List String
  diagnostic : ∀ ln ∈ diagnostics, isDiagnostic ln = true
  line : ∀ ln ∈ diagnostics, ∀ c ∈ ln.toList, isLineBreak c = false
  text : List Char
  members : Members
  reads : loads k ('{' :: text) = some (.obj members)

variable {k : Scalars}

def Output.stdout (o : Output k) : String :=
  unlines o.diagnostics ++ String.ofList ('{' :: o.text)

/-- All programs read the object. -/
structure ReadAlike (o : Output k) : Prop where
  vpn : Vpn._exec k o.stdout = some (.obj o.members)
  certificate : Certificate._exec k o.stdout = some (.obj o.members)
  security : Security._exec k o.stdout = some (.obj o.members)
  nfs : Nfs._exec k o.stdout = some (.obj o.members)
  smb : Smb._exec k o.stdout = some (.obj o.members)
  drift : Drift.webapi_data k (splitlines o.stdout) = o.members.lookup "data"

/-! ### Lines of a document -/

/-- A line break that a string of a document may hold: next line, line and paragraph separator. -/
def isWide (c : Char) : Bool :=
  c.toNat = 0x85 || c.toNat = 0x2028 || c.toNat = 0x2029

theorem isLineBreak_of_isWide {c : Char} (h : isWide c = true) : isLineBreak c = true := by
  simp only [isWide, Bool.or_eq_true, decide_eq_true_eq] at h
  simp only [isLineBreak, Bool.or_eq_true, Bool.and_eq_true, decide_eq_true_eq]
  omega

/-- The other line breaks are no white space of a document, and stand in no token but a string. -/
theorem foreign_of_break {c : Char} (h : isLineBreak c = true) (hn : c ≠ '\n') (hr : c ≠ '\r') :
    Foreign c := by
  have hcases : c.toNat = 11 ∨ c.toNat = 12 ∨ c.toNat = 28 ∨ c.toNat = 29 ∨ c.toNat = 30 ∨
      c.toNat = 0x85 ∨ c.toNat = 0x2028 ∨ c.toNat = 0x2029 := by
    have hn' : c.toNat ≠ 10 := fun h => hn (Char.toNat_inj.mp h)
    have hr' : c.toNat ≠ 13 := fun h => hr (Char.toNat_inj.mp h)
    simp only [isLineBreak, Bool.or_eq_true, Bool.and_eq_true, decide_eq_true_eq] at h
    omega
  have hchar : ∀ n, c.toNat = n → c = Char.ofNat n := fun n hn => hn ▸ (Char.ofNat_toNat c).symm
  obtain h | h | h | h | h | h | h | h := hcases <;> obtain rfl := hchar _ h <;>
    exact ⟨by decide, by decide, by decide, by decide, by decide⟩

/-- In a document the line breaks are newlines, carriage returns and wide ones. -/
theorem break_cases {s t : State} {l : List Char} (h : run k s l = some t) {c : Char} (hc : c ∈ l)
    (hb : isLineBreak c = true) : (c = '\n' ∨ c = '\r') ∨ isWide c = true := by
  by_contra hno
  rw [not_or, not_or] at hno
  obtain ⟨⟨hn, hr⟩, hwide⟩ := hno
  obtain ⟨p, q, rfl⟩ := List.append_of_mem hc
  obtain ⟨r, -, hrest⟩ := run_of_append h
  obtain ⟨r', hstep, -⟩ := run_cons_iff.mp hrest
  have hlarge := (step_foreign (foreign_of_break hb hn hr) hstep).2
  simp only [isWide, Bool.or_eq_true, decide_eq_true_eq, not_or] at hwide
  simp only [isLineBreak, Bool.or_eq_true, Bool.and_eq_true, decide_eq_true_eq] at hb
  omega

/-- No line of a document is diagnostic. -/
theorem not_diagnostic_of_run {t : State} {lines : List (List Char)} :
    ∀ {s}, Between s → run k s (joinLines lines) = some t →
      ∀ line ∈ lines, isDiagnostic (String.ofList line) = false := by
  have hline : ∀ {s t : State} {l : List Char}, Between s → run k s l = some t →
      isDiagnostic (String.ofList l) = false := by
    intro s t l hs h
    by_contra hd
    rw [Bool.not_eq_false, isDiagnostic, decide_eq_true_eq, String.toList_ofList,
      String.toList_ofList] at hd
    obtain ⟨rest, rfl⟩ := hd
    rw [show ['[', 'L', 'i', 'n', 'e'] ++ rest = '[' :: 'L' :: ('i' :: 'n' :: 'e' :: rest) from rfl,
      run_bracket hs (by decide) (by decide) fun _ => rfl] at h
    exact nomatch h
  induction lines with
  | nil => exact fun _ _ _ h => nomatch h
  | cons line lines ih =>
    intro s hs h line' hline'
    cases lines with
    | nil =>
      rw [List.mem_singleton.mp hline']
      exact hline hs h
    | cons next lines =>
      rw [joinLines] at h
      obtain ⟨r, hr, hrest⟩ := run_of_append h
      obtain ⟨r', hnewline, hmore⟩ := run_cons_iff.mp hrest
      obtain rfl | hmem := List.mem_cons.mp hline'
      · exact hline hs hr
      · exact ih (between_of_newline hnewline) hmore line' hmem

theorem linesFrom_ne_nil (c : Char) (l : List Char) : linesFrom false [] (c :: l) ≠ [] := by
  rw [linesFrom, if_neg (by simp)]
  split_ifs
  · exact List.cons_ne_nil _ _
  · obtain ⟨m, lines, h⟩ := linesFrom_cons c l false []
    rw [List.nil_append, h]
    exact List.cons_ne_nil _ _

/-- The lines of a document without wide line breaks are read as the document, and none of them
is diagnostic. -/
theorem readLines {c : Char} {l : List Char} {v : Json} (h : loads k (c :: l) = some v)
    (hwide : ∀ d ∈ c :: l, isWide d = false) :
    loads k (joinLines (linesFrom false [] (c :: l))) = some v ∧
      ∀ line ∈ linesFrom false [] (c :: l), isDiagnostic (String.ofList line) = false := by
  obtain ⟨t, hrun, hfinish⟩ := Option.bind_eq_some_iff.mp h
  have hbreaks : ∀ d ∈ c :: l, isLineBreak d → d = '\n' ∨ d = '\r' := fun d hd hb =>
    (break_cases hrun hd hb).resolve_right (by rw [hwide d hd]; simp)
  obtain ⟨e, he, hflat⟩ := flatMap_linesFrom hbreaks false []
  have huniversal : loads k (universal false (c :: l)) = some v := by
    have hrun' := run_universal (c :: l) start false (fun h => nomatch h) hrun
    rw [loads, hrun']
    exact hfinish
  have hjoin : loads k (joinLines (linesFrom false [] (c :: l))) = some v := by
    rw [← loads_concat_newline, joinLines_concat_newline (linesFrom_ne_nil c l), hflat,
      List.nil_append]
    obtain rfl | rfl := he
    · rw [List.append_nil, huniversal]
    · rw [loads_concat_newline, huniversal]
  obtain ⟨t', hrun', -⟩ := Option.bind_eq_some_iff.mp hjoin
  exact ⟨hjoin, not_diagnostic_of_run between_start hrun'⟩

/-- Where a document has a wide line break, the lines up to it end within a string: read line by
line it is no document, whichever lines come after these. -/
theorem readLines_wide {l : List Char} {v : Json} (h : loads k l = some v)
    (hwide : ∃ c ∈ l, isWide c = true) :
    ∃ lines rest, linesFrom false [] l = lines ++ rest ∧ lines ≠ [] ∧
      (∀ line ∈ lines, isDiagnostic (String.ofList line) = false) ∧
      ∀ more, loads k (joinLines (lines ++ more)) = none := by
  obtain ⟨t, hrun, -⟩ := Option.bind_eq_some_iff.mp h
  -- the first one
  obtain ⟨p, c, q, rfl, hc, hp⟩ : ∃ p c q, l = p ++ c :: q ∧ isWide c = true ∧
      ∀ d ∈ p, isWide d = false := by
    have hsome : (l.find? isWide).isSome = true := by
      rw [List.find?_isSome]
      exact hwide
    obtain ⟨c, hfind⟩ := Option.isSome_iff_exists.mp hsome
    obtain ⟨hc, p, q, hl, hp⟩ := List.find?_eq_some_iff_append.mp hfind
    exact ⟨p, c, q, hl, hc, fun d hd => by simpa using hp d hd⟩
  have hb := isLineBreak_of_isWide hc
  have hn : c ≠ '\n' := fun h => absurd hc (h ▸ by decide)
  have hr : c ≠ '\r' := fun h => absurd hc (h ▸ by decide)
  obtain ⟨s, hbefore, hafter⟩ := run_of_append hrun
  obtain ⟨s', hstep, -⟩ := run_cons_iff.mp hafter
  obtain ⟨⟨isKey, text, hmode⟩, -⟩ := step_foreign (foreign_of_break hb hn hr) hstep
  have hbreaks : ∀ d ∈ p, isLineBreak d → d = '\n' ∨ d = '\r' := fun d hd hbd =>
    (break_cases hbefore hd hbd).resolve_right (by rw [hp d hd]; simp)
  have hne : linesFrom false [] (p ++ [c]) ≠ [] := by
    cases p with
    | nil => exact linesFrom_ne_nil c []
    | cons d p => exact linesFrom_ne_nil d (p ++ [c])
  have hjoin : joinLines (linesFrom false [] (p ++ [c])) = universal false p := by
    have hflat := flatMap_linesFrom_concat hbreaks hb hn false []
    rw [← joinLines_concat_newline hne] at hflat
    exact List.append_cancel_right hflat
  have hrunjoin : run k start (joinLines (linesFrom false [] (p ++ [c]))) = some s :=
    hjoin ▸ run_universal _ _ _ (fun h => nomatch h) hbefore
  obtain ⟨stack, mode⟩ := s
  obtain rfl : mode = .str isKey text := hmode
  refine ⟨linesFrom false [] (p ++ [c]), linesFrom false [] q, linesFrom_append_break hb hn hr q _ _ _,
    hne, not_diagnostic_of_run between_start hrunjoin, fun more => ?_⟩
  cases more with
  | nil =>
    rw [List.append_nil, loads, hrunjoin]
    rfl
  | cons next more =>
    -- a newline in a string
    rw [joinLines_append hne, loads, run_append, hrunjoin]
    rfl

/-! ### What the programs read -/

theorem loadsFromBrace_cons (k : Scalars) (l : List Char) :
    loadsFromBrace k ('{' :: l) = loads k ('{' :: l) := by
  rw [loadsFromBrace, if_pos List.mem_cons_self, List.dropWhile_cons_of_neg (by simp)]

/-- The lines of the answer; the first begins with the brace. -/
def Output.lines (o : Output k) : List (List Char) := linesFrom false [] ('{' :: o.text)

theorem lines_eq (o : Output k) : ∃ m ls, o.lines = ('{' :: m) :: ls := by
  obtain ⟨m, ls, h⟩ := linesFrom_cons '{' o.text false []
  refine ⟨m, ls, ?_⟩
  rw [Output.lines, linesFrom, if_neg (by simp), if_neg (by decide)]
  exact h

theorem splitlines_stdout (o : Output k) :
    splitlines o.stdout = o.diagnostics ++ o.lines.map String.ofList := by
  have hline := o.line
  rw [splitlines, Output.stdout, String.toList_append, unlines, String.toList_ofList,
    String.toList_ofList]
  show _ = _ ++ (linesFrom false [] ('{' :: o.text)).map String.ofList
  generalize o.diagnostics = lns at hline
  induction lns with
  | nil => rfl
  | cons ln lns ih =>
    rw [List.flatMap_cons, List.append_assoc, List.append_assoc, List.singleton_append,
      linesFrom_line (hline ln List.mem_cons_self), List.nil_append, List.map_cons,
      String.ofList_toList, ih fun l hl => hline l (List.mem_cons_of_mem _ hl), List.cons_append]

theorem toList_join (lines : List (List Char)) :
    (join (lines.map String.ofList)).toList = joinLines lines := by
  rw [join, String.toList_ofList, List.map_map]
  have hid : String.toList ∘ String.ofList = id := funext fun l => String.toList_ofList
  rw [hid, List.map_id]

theorem joinLines_brace (m : List Char) (ls : List (List Char)) :
    ∃ l, joinLines (('{' :: m) :: ls) = '{' :: l := by
  cases ls with
  | nil => exact ⟨m, rfl⟩
  | cons next ls => exact ⟨_, rfl⟩

/-- `apply_vpn.py` reads the lines of the answer that are not diagnostic. -/
theorem vpn_eq (o : Output k) : Vpn._exec k o.stdout =
    loadsFromBrace k (joinLines (o.lines.filter fun l => !isDiagnostic (String.ofList l))) := by
  have hdrop : o.diagnostics.filter (fun ln => !isDiagnostic ln) = [] := by
    rw [List.filter_eq_nil_iff]
    intro ln hln
    simp [o.diagnostic ln hln]
  rw [Vpn._exec, splitlines_stdout, List.filter_append, hdrop, List.nil_append, List.filter_map,
    toList_join]
  rfl

/-- The detector reads the lines of the answer. -/
theorem drift_eq (o : Output k) : Drift.webapi_data k (splitlines o.stdout) =
    (loads k (joinLines o.lines)).bind dataOf := by
  have hdiagnostic : ∀ ln ∈ o.diagnostics, (!startsWithBrace ln) = true := by
    intro ln hln
    have hd := o.diagnostic ln hln
    rw [isDiagnostic, decide_eq_true_eq, String.toList_ofList] at hd
    obtain ⟨rest, hrest⟩ := hd
    rw [startsWithBrace, ← hrest]
    rfl
  have hdrop : (splitlines o.stdout).dropWhile (fun ln => !startsWithBrace ln) =
      o.lines.map String.ofList := by
    obtain ⟨m, ls, hlines⟩ := lines_eq o
    rw [splitlines_stdout, List.dropWhile_append_of_pos hdiagnostic, hlines, List.map_cons,
      List.dropWhile_cons_of_neg]
    rw [startsWithBrace, String.toList_ofList]
    simp [isspace]
  obtain ⟨m, ls, hlines⟩ := lines_eq o
  rw [Drift.webapi_data, hdrop, ← toList_join, hlines]
  rfl

/-- Whether the answer has a wide line break. -/
def Output.Wide (o : Output k) : Prop := ∃ c ∈ o.text, isWide c = true

theorem wide_brace (o : Output k) :
    o.Wide ↔ ∃ c ∈ '{' :: o.text, isWide c = true := by
  constructor
  · rintro ⟨c, hc, hwide⟩
    exact ⟨c, List.mem_cons_of_mem _ hc, hwide⟩
  · rintro ⟨c, hc, hwide⟩
    obtain rfl | hc := List.mem_cons.mp hc
    · exact absurd hwide (by decide)
    · exact ⟨c, hc, hwide⟩

/-- `apply_vpn.py` and the detector read an answer without wide line breaks. -/
theorem reads_of_not_wide (o : Output k) (h : ¬ o.Wide) :
    Vpn._exec k o.stdout = some (.obj o.members) ∧
      Drift.webapi_data k (splitlines o.stdout) = o.members.lookup "data" := by
  rw [wide_brace] at h
  obtain ⟨hloads, hdiagnostic⟩ := readLines o.reads fun c hc =>
    Bool.eq_false_iff.mpr fun hwide => h ⟨c, hc, hwide⟩
  have hall : o.lines.filter (fun l => !isDiagnostic (String.ofList l)) = o.lines := by
    rw [List.filter_eq_self]
    intro l hl
    rw [hdiagnostic l hl]
    rfl
  constructor
  · obtain ⟨m, ls, hlines⟩ := lines_eq o
    obtain ⟨l, hl⟩ := joinLines_brace m ls
    rw [vpn_eq, hall, hlines, hl, loadsFromBrace_cons, ← hl, ← hlines]
    exact hloads
  · rw [drift_eq]
    show (loads k (joinLines (linesFrom false [] ('{' :: o.text)))).bind dataOf = _
    rw [hloads]
    rfl

/-- With one, `apply_vpn.py` reads nothing. -/
theorem vpn_wide (o : Output k) (h : o.Wide) : Vpn._exec k o.stdout = none := by
  obtain ⟨lines, rest, hlines, hne, hdiagnostic, hnone⟩ :=
    readLines_wide o.reads ((wide_brace o).mp h)
  have hkept : lines.filter (fun l => !isDiagnostic (String.ofList l)) = lines := by
    rw [List.filter_eq_self]
    intro l hl
    rw [hdiagnostic l hl]
    rfl
  obtain ⟨m, ls, hcons⟩ := lines_eq o
  obtain ⟨first, lines, rfl⟩ := List.exists_cons_of_ne_nil hne
  have hfirst : first = '{' :: m := (List.cons.inj (hlines.symm.trans hcons)).1
  rw [vpn_eq, Output.lines, hlines, List.filter_append, hkept, hfirst, List.cons_append]
  obtain ⟨l, hl⟩ := joinLines_brace m
    (lines ++ rest.filter fun l => !isDiagnostic (String.ofList l))
  rw [hl, loadsFromBrace_cons, ← hl, ← List.cons_append, ← hfirst]
  exact hnone _

/-- Whether a diagnostic line has a brace. -/
def Output.Braced (o : Output k) : Prop := ∃ ln ∈ o.diagnostics, '{' ∈ ln.toList

/-- The first brace is that of the answer where no diagnostic line has one. -/
theorem firstBrace_of_not_braced (o : Output k) (h : ¬ o.Braced) :
    loadsFromBrace k o.stdout.toList = some (.obj o.members) := by
  have hnone : ∀ c ∈ (unlines o.diagnostics).toList, c ≠ '{' := by
    rintro c hc rfl
    rw [unlines, String.toList_ofList] at hc
    obtain ⟨ln, hln, hc⟩ := List.mem_flatMap.mp hc
    obtain hc | hc := List.mem_append.mp hc
    · exact h ⟨ln, hln, hc⟩
    · exact absurd (List.mem_singleton.mp hc) (by decide)
  have hmem : '{' ∈ o.stdout.toList := by simp [Output.stdout]
  rw [loadsFromBrace, if_pos hmem, Output.stdout, String.toList_append, String.toList_ofList,
    List.dropWhile_append_of_pos (by simpa using hnone), List.dropWhile_cons_of_neg (by simp)]
  exact o.reads

/-- Where one has, nothing is read from its first brace. -/
theorem firstBrace_braced (o : Output k) (h : o.Braced) :
    loadsFromBrace k o.stdout.toList = none := by
  obtain ⟨ln, hln, hbrace⟩ := h
  have hends : (unlines o.diagnostics).toList =
      joinLines (o.diagnostics.map String.toList) ++ ['\n'] := by
    have hne : o.diagnostics.map String.toList ≠ [] :=
      List.ne_nil_of_mem (List.mem_map_of_mem hln)
    rw [unlines, String.toList_ofList, joinLines_concat_newline hne, List.flatMap_map]
  have hmem : '{' ∈ (unlines o.diagnostics).toList := by
    rw [unlines, String.toList_ofList]
    exact List.mem_flatMap.mpr ⟨ln, hln, List.mem_append_left _ hbrace⟩
  -- the first brace stands before the last newline of the diagnostic lines
  have hmem' : '{' ∈ joinLines (o.diagnostics.map String.toList) := by
    rw [hends] at hmem
    exact (List.mem_append.mp hmem).resolve_right (by decide)
  obtain ⟨rest, hrest⟩ : ∃ rest, (joinLines (o.diagnostics.map String.toList)).dropWhile
      (· ≠ '{') = '{' :: rest := by
    have hfound : (joinLines (o.diagnostics.map String.toList)).dropWhile (· ≠ '{') ≠ [] := by
      intro hnil
      have hall := List.dropWhile_eq_nil_iff.mp hnil '{' hmem'
      simp at hall
    have hhead := List.head_dropWhile_not (· ≠ '{') hfound
    obtain ⟨c, rest, hc⟩ := List.exists_cons_of_ne_nil hfound
    simp only [hc, List.head_cons] at hhead
    exact ⟨rest, by rw [hc]; simpa using hhead⟩
  have hdrop : o.stdout.toList.dropWhile (· ≠ '{') =
      '{' :: rest ++ '\n' :: '{' :: o.text := by
    rw [Output.stdout, String.toList_append, String.toList_ofList, hends, List.append_assoc,
      List.dropWhile_append, hrest]
    rfl
  have hin : '{' ∈ o.stdout.toList := by simp [Output.stdout]
  rw [loadsFromBrace, if_pos hin, hdrop]
  exact loads_open o.reads

/-- The six programs read the answer exactly where no diagnostic line has a brace, and the answer
no line break but newlines and carriage returns. -/
theorem readAlike_iff (o : Output k) : ReadAlike o ↔ ¬ o.Braced ∧ ¬ o.Wide := by
  constructor
  · intro h
    refine ⟨fun hbraced => ?_, fun hwide => ?_⟩
    · have hread := h.certificate
      rw [Certificate._exec, firstBrace_braced o hbraced] at hread
      exact nomatch hread
    · have hread := h.vpn
      rw [vpn_wide o hwide] at hread
      exact nomatch hread
  · rintro ⟨hbraced, hwide⟩
    obtain ⟨hvpn, hdrift⟩ := reads_of_not_wide o hwide
    have hfirst := firstBrace_of_not_braced o hbraced
    exact ⟨hvpn, hfirst, hfirst, hfirst, hfirst, hdrift⟩

/-- Texts without escapes, `true`, and digits. -/
def plainScalars : Scalars :=
  ⟨fun text => some (String.ofList text), fun text =>
    if text = "true".toList then some (.bool true)
    else if text.all Char.isDigit then some (.int (text.foldl (fun n c => 10 * n + (c.toNat - 48)) 0))
    else none⟩

/-- The output of the helper's own test: the diagnostic line says which parameters were given. -/
def paramOutput : Output plainScalars where
  diagnostics := ["[Line 295] Exec WebAPI: api=X, param=\x7b\"a\":1\x7d"]
  diagnostic := by
    intro ln hln
    rw [List.mem_singleton.mp hln]
    decide
  line := by
    intro ln hln
    rw [List.mem_singleton.mp hln]
    decide
  text := "\"success\":true,\"data\":\x7b\"b\":2\x7d\x7d".toList
  members := [("success", .bool true), ("data", .obj [("b", .int 2)])]
  reads := rfl

/-- Its first brace is not that of the answer. -/
theorem param_braces : ¬ ReadAlike paramOutput := by
  intro h
  have hbraced : paramOutput.Braced :=
    ⟨_, List.mem_singleton_self _, by decide⟩
  have hread := h.certificate
  rw [Certificate._exec, firstBrace_braced paramOutput hbraced] at hread
  exact nomatch hread

end CommandOutput
