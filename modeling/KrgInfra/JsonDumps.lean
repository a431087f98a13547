/-
`json.dumps` and `repr`, and what a JSON decoder makes of them.

`json.dumps` writes every string in double quotes, in ASCII.  `repr` writes `None`, `True` and
`False`, and puts a string in single quotes unless it has an apostrophe and no double quote; then
it is JSON, but for the escape sequences that only Python knows.

* `jsonPrinter`, `dumps` — `json.dumps`;
* `pyPrinter` — `repr`;
* `loads_dumps` — what `json.dumps` writes is read back;
* `pyPrinter_spec` — which constants and strings `repr` writes as JSON.
-/
import KrgInfra.JsonPrint

namespace JsonText

open QuotedText (hexValue)

variable {F : Floats}

/-! ### Pieces of a string -/

/-- A part of a text between quotes that stands for some code units. -/
structure Piece (F : Floats) (piece : List Char) (us : List ℕ) : Prop where
  run (stack : List Frame) (isKey : Bool) (text rest : List Char) :
    run (json F) ⟨stack, .str isKey text⟩ (piece ++ rest) =
      run (json F) ⟨stack, .str isKey (text ++ piece)⟩ rest
  read (rest : List Char) : unescape .no (piece ++ rest) = (unescape .no rest).map (us ++ ·)

/-- A part at which the decoder stops. -/
def Broken (F : Floats) (piece : List Char) : Prop :=
  ∀ (stack : List Frame) (isKey : Bool) (text rest : List Char),
    run (json F) ⟨stack, .str isKey text⟩ (piece ++ rest) = none

theorem Piece.nil : Piece F [] [] where
  run stack isKey text rest := by
    rw [List.nil_append, List.append_nil]
  read rest := by
    rw [List.nil_append]
    exact Option.map_id'.symm

theorem Piece.append {a b : List Char} {us vs : List ℕ} (ha : Piece F a us) (hb : Piece F b vs) :
    Piece F (a ++ b) (us ++ vs) where
  run stack isKey text rest := by
    rw [List.append_assoc, ha.run, hb.run, List.append_assoc]
  read rest := by
    rw [List.append_assoc, ha.read, hb.read, Option.map_map]
    refine congrArg (fun f => Option.map f _) (funext fun l => ?_)
    exact (List.append_assoc us vs l).symm

theorem Piece.flatMap {α : Type} {esc : α → List Char} {us : α → List ℕ} {l : List α}
    (h : ∀ a ∈ l, Piece F (esc a) (us a)) : Piece F (l.flatMap esc) (l.flatMap us) := by
  induction l with
  | nil => exact .nil
  | cons a l ih =>
    obtain ⟨ha, hl⟩ := List.forall_mem_cons.mp h
    rw [List.flatMap_cons, List.flatMap_cons]
    exact ha.append (ih hl)

theorem step_plain {c : Char} (hquote : c ≠ '"') (hbackslash : c ≠ '\\') (hc : 32 ≤ c.toNat)
    (stack : List Frame) (isKey : Bool) (text : List Char) :
    step (json F) ⟨stack, .str isKey text⟩ c = some ⟨stack, .str isKey (text ++ [c])⟩ := by
  rw [step, if_neg hquote, if_neg hbackslash, if_neg (Nat.not_lt.mpr hc)]

/-- A character that stands for itself. -/
theorem Piece.plain {c : Char} (hquote : c ≠ '"') (hbackslash : c ≠ '\\') (hc : 32 ≤ c.toNat) :
    Piece F [c] (units c) where
  run stack isKey text rest := by
    rw [List.singleton_append, JsonText.run, step_plain hquote hbackslash hc]
    rfl
  read rest := by
    rw [List.singleton_append, unescape, if_neg hbackslash]

/-- A backslash and a character. -/
theorem Piece.simple {e : Char} {u : ℕ} (he : escapes e = true) (hu : e ≠ 'u')
    (h : JsonText.simple e = some u) : Piece F ['\\', e] [u] where
  run stack isKey text rest := by
    show (step (json F) ⟨stack, .esc isKey (text ++ ['\\'])⟩ e).bind
      (fun t => JsonText.run (json F) t rest) = _
    rw [step, if_pos he, List.append_assoc]
    rfl
  read rest := by
    show unescape .start (e :: rest) = _
    rw [unescape, if_neg hu, h]
    rfl

/-! ### Hexadecimal digits -/

def hexDigit (n : ℕ) : Char :=
  (['0', '1', '2', '3', '4', '5', '6', '7', '8', '9', 'a', 'b', 'c', 'd', 'e', 'f'][n]?).getD '0'

/-- A number of so many digits. -/
def hexDigits : ℕ → ℕ → List Char
  | 0, _ => []
  | k + 1, n => hexDigits k (n / 16) ++ [hexDigit (n % 16)]

theorem hexValue_hexDigit : ∀ n < 16, hexValue (hexDigit n) = some n := by decide

theorem hexDigit_plain : ∀ n < 16,
    hexDigit n ≠ '"' ∧ hexDigit n ≠ '\\' ∧ 32 ≤ (hexDigit n).toNat := by decide

/-- `\uXXXX` -/
theorem Piece.unicode {n : ℕ} (hn : n < 0x10000) :
    Piece F ('\\' :: 'u' :: hexDigits 4 n) [n] where
  run stack isKey text rest := by
    have hdigits : ∀ (l : List Char) (text : List Char),
        (∀ c ∈ l, c ≠ '"' ∧ c ≠ '\\' ∧ 32 ≤ c.toNat) →
        JsonText.run (json F) ⟨stack, .str isKey text⟩ (l ++ rest) =
          JsonText.run (json F) ⟨stack, .str isKey (text ++ l)⟩ rest := by
      intro l
      induction l with
      | nil =>
        intro text _
        rw [List.nil_append, List.append_nil]
      | cons c l ih =>
        intro text h
        obtain ⟨⟨hquote, hbackslash, hc⟩, hl⟩ := List.forall_mem_cons.mp h
        rw [List.cons_append, JsonText.run, step_plain hquote hbackslash hc, Option.bind_some,
          ih _ hl, List.append_assoc, List.singleton_append]
    have hplain : ∀ c ∈ hexDigits 4 n, c ≠ '"' ∧ c ≠ '\\' ∧ 32 ≤ c.toNat := by
      intro c hc
      have hc : c ∈ [hexDigit (n / 16 / 16 / 16 % 16), hexDigit (n / 16 / 16 % 16),
        hexDigit (n / 16 % 16), hexDigit (n % 16)] := hc
      simp only [List.mem_cons, List.not_mem_nil, or_false] at hc
      obtain rfl | rfl | rfl | rfl := hc
      · exact hexDigit_plain _ (Nat.mod_lt _ (by omega))
      · exact hexDigit_plain _ (Nat.mod_lt _ (by omega))
      · exact hexDigit_plain _ (Nat.mod_lt _ (by omega))
      · exact hexDigit_plain _ (Nat.mod_lt _ (by omega))
    show JsonText.run (json F) ⟨stack, .str isKey (text ++ ['\\'] ++ ['u'])⟩
      (hexDigits 4 n ++ rest) = _
    rw [hdigits _ _ hplain, List.append_assoc, List.append_assoc]
    rfl
  read rest := by
    have hvalue : ∀ m, hexValue (hexDigit (m % 16)) = some (m % 16) :=
      fun m => hexValue_hexDigit _ (Nat.mod_lt _ (by omega))
    show unescape (.hex []) (hexDigit (n / 16 / 16 / 16 % 16) :: hexDigit (n / 16 / 16 % 16) ::
      hexDigit (n / 16 % 16) :: hexDigit (n % 16) :: rest) = _
    rw [unescape, hvalue]
    show unescape (.hex [_]) _ = _
    rw [unescape, hvalue]
    show unescape (.hex [_, _]) _ = _
    rw [unescape, hvalue]
    show unescape (.hex [_, _, _]) _ = _
    rw [unescape, hvalue]
    show (unescape .no rest).map (fun us => _ :: us) = _
    have hnumber : hexNumber [n / 16 / 16 / 16 % 16, n / 16 / 16 % 16, n / 16 % 16, n % 16] = n := by
      show 16 * (16 * (16 * (16 * 0 + n / 16 / 16 / 16 % 16) + n / 16 / 16 % 16) + n / 16 % 16) +
        n % 16 = n
      omega
    refine congrArg (fun u => (unescape .no rest).map fun us => u :: us) ?_
    exact hnumber

/-! ### Strings -/

/-- A string of pieces is read back if every piece is one, and the decoder stops at any other. -/
theorem readsStr_of_pieces (esc : Char → List Char) (good : Char → Prop) {s : String}
    (hgood : ∀ c ∈ s.toList, good c → Piece F (esc c) (units c))
    (hbad : ∀ c ∈ s.toList, ¬ good c → Broken F (esc c)) :
    ReadsStr F ('"' :: (s.toList.flatMap esc ++ ['"'])) (∀ c ∈ s.toList, good c) s where
  quote := .inl ⟨_, rfl⟩
  leads ht stack isKey rest := by
    obtain rfl := (List.cons.inj ht).2
    rw [List.append_assoc, List.singleton_append]
    constructor
    · intro hall
      have hpiece : Piece F (s.toList.flatMap esc) (s.toList.flatMap units) :=
        .flatMap fun c hc => hgood c hc (hall c hc)
      have hstr : (json F).str (s.toList.flatMap esc) = some s := by
        have hread := hpiece.read []
        rw [List.append_nil] at hread
        show ((unescape .no (s.toList.flatMap esc)).bind (ofUnits none)).map String.ofList = some s
        rw [hread]
        show (ofUnits none (s.toList.flatMap units ++ [])).map String.ofList = some s
        rw [List.append_nil, ofUnits_flatMap, Option.map_some, String.ofList_toList]
      rw [hpiece.run, List.nil_append, run, step, if_pos rfl, hstr]
      rfl
    · intro hall
      have hbroken : ∀ (l : List Char) (text : List Char),
          (∀ c ∈ l, good c → Piece F (esc c) (units c)) → (∀ c ∈ l, ¬ good c → Broken F (esc c)) →
          ¬ (∀ c ∈ l, good c) →
          run (json F) ⟨stack, .str isKey text⟩ (l.flatMap esc ++ '"' :: rest) = none := by
        intro l
        induction l with
        | nil => exact fun _ _ _ h => absurd (fun _ h => absurd h List.not_mem_nil) h
        | cons c l ih =>
          intro text hgood hbad hall
          obtain ⟨hc, hl⟩ := List.forall_mem_cons.mp hgood
          obtain ⟨hc', hl'⟩ := List.forall_mem_cons.mp hbad
          rw [List.flatMap_cons, List.append_assoc]
          by_cases h : good c
          · rw [(hc h).run]
            exact ih _ hl hl' fun hl => hall (List.forall_mem_cons.mpr ⟨h, hl⟩)
          · exact hc' h stack isKey text _
      exact hbroken _ _ hgood hbad hall

/-! ### json.dumps -/

/-- The escape sequence of a code unit, if it is not written as it is. -/
def escapeUnit (u : ℕ) : List Char :=
  if u = 0x22 then ['\\', '"']
  else if u = 0x5C then ['\\', '\\']
  else if u = 10 then ['\\', 'n']
  else if u = 13 then ['\\', 'r']
  else if u = 9 then ['\\', 't']
  else if u = 12 then ['\\', 'f']
  else if u = 8 then ['\\', 'b']
  else if 0x20 ≤ u ∧ u ≤ 0x7E then [Char.ofNat u]
  else '\\' :: 'u' :: hexDigits 4 u

theorem toNat_ofNat : ∀ n < 0x7F, (Char.ofNat n).toNat = n := by decide

theorem piece_escapeUnit {u : ℕ} (hu : u < 0x10000) : Piece F (escapeUnit u) [u] := by
  rw [escapeUnit]
  split_ifs with h₁ h₂ h₃ h₄ h₅ h₆ h₇ h₈
  · exact h₁ ▸ .simple (by decide) (by decide) (by decide)
  · exact h₂ ▸ .simple (by decide) (by decide) (by decide)
  · exact h₃ ▸ .simple (by decide) (by decide) (by decide)
  · exact h₄ ▸ .simple (by decide) (by decide) (by decide)
  · exact h₅ ▸ .simple (by decide) (by decide) (by decide)
  · exact h₆ ▸ .simple (by decide) (by decide) (by decide)
  · exact h₇ ▸ .simple (by decide) (by decide) (by decide)
  · have hnat : (Char.ofNat u).toNat = u := toNat_ofNat u (by omega)
    have hne : ∀ c : Char, c.toNat ≠ u → Char.ofNat u ≠ c := fun c hc he => hc (he ▸ hnat)
    have hpiece : Piece F [Char.ofNat u] (units (Char.ofNat u)) :=
      .plain (hne _ (Ne.symm h₁)) (hne _ (Ne.symm h₂)) (by rw [hnat]; exact h₈.1)
    rwa [units, hnat, if_pos hu] at hpiece
  · exact .unicode hu

theorem units_lt {c : Char} {u : ℕ} (h : u ∈ units c) : u < 0x10000 := by
  rw [units] at h
  split_ifs at h with hsmall
  · rw [List.mem_singleton.mp h]
    exact hsmall
  · have hlt := toNat_lt c
    simp only [List.mem_cons, List.not_mem_nil, or_false] at h
    omega

def jsonPrinter : Printer where
  null := "null".toList
  bool b := if b then "true".toList else "false".toList
  str s := '"' :: ((s.toList.flatMap fun c => (units c).flatMap escapeUnit) ++ ['"'])

/-- `json.dumps(v)` -/
def dumps (F : Floats) (v : Json) : List Char := print F jsonPrinter v

/-- Everything is read back. -/
def everything : Known := ⟨True, True, fun _ => True⟩

theorem jsonPrinter_spec : jsonPrinter.Spec F everything where
  null := reads_atom (by decide) ⟨'n', rfl, by decide⟩ rfl
  bool b := by
    cases b with
    | true => exact reads_atom (by decide) ⟨'t', rfl, by decide⟩ rfl
    | false => exact reads_atom (by decide) ⟨'f', rfl, by decide⟩ rfl
  str s := by
    have hpiece : ∀ c : Char, Piece F ((units c).flatMap escapeUnit) (units c) := by
      intro c
      have hflat : Piece F ((units c).flatMap escapeUnit) ((units c).flatMap fun u => [u]) :=
        Piece.flatMap fun u hu => piece_escapeUnit (units_lt hu)
      rwa [List.flatMap_singleton'] at hflat
    have hreads := readsStr_of_pieces (F := F) (s := s)
      (fun c => (units c).flatMap escapeUnit) (fun _ => True) (fun c _ _ => hpiece c)
      (fun _ _ h => absurd trivial h)
    exact ⟨.inl ⟨_, rfl⟩, fun ht stack isKey rest =>
      ⟨fun _ => (hreads.leads ht stack isKey rest).1 fun _ _ => trivial,
        fun h => absurd trivial h⟩⟩

mutual

theorem ok_everything : ∀ v : Json, Ok everything v
  | .null => trivial
  | .bool _ => trivial
  | .int _ => trivial
  | .float _ => trivial
  | .str _ => trivial
  | .arr items => okItems_everything items
  | .obj members => okMembers_everything members

theorem okItems_everything : ∀ items : List Json, OkItems everything items
  | [] => trivial
  | v :: items => ⟨ok_everything v, okItems_everything items⟩

theorem okMembers_everything : ∀ members : List (String × Json), OkMembers everything members
  | [] => trivial
  | (_, v) :: members => ⟨trivial, ok_everything v, okMembers_everything members⟩

end

/-- What `json.dumps` writes is read back. -/
theorem loads_dumps {v : Json} (h : Wf F v) : loads (json F) (dumps F v) = some v :=
  (loads_print_iff jsonPrinter_spec h).mpr (ok_everything v)

/-! ### repr -/

/-- `str.isprintable` of a character: no control character is printable. -/
structure Printable where
  isprintable : Char → Bool
  le_of_isprintable {c : Char} (h : isprintable c = true) : 32 ≤ c.toNat

variable (P : Printable)

/-- What `repr` writes of a character of a string. -/
def pyEscape (quote c : Char) : List Char :=
  if c = quote ∨ c = '\\' then ['\\', c]
  else if c = '\n' then ['\\', 'n']
  else if c = '\r' then ['\\', 'r']
  else if c = '\t' then ['\\', 't']
  else if P.isprintable c then [c]
  else if c.toNat < 0x100 then '\\' :: 'x' :: hexDigits 2 c.toNat
  else if c.toNat < 0x10000 then '\\' :: 'u' :: hexDigits 4 c.toNat
  else '\\' :: 'U' :: hexDigits 8 c.toNat

/-- `repr(s)` of a string. -/
def pyStr (s : String) : List Char :=
  if '\'' ∈ s.toList ∧ '"' ∉ s.toList then
    '"' :: (s.toList.flatMap (pyEscape P '"') ++ ['"'])
  else '\'' :: (s.toList.flatMap (pyEscape P '\'') ++ ['\''])

/-- A character that `repr` writes as JSON does, or as it is. -/
def Shared (c : Char) : Prop :=
  c = '\\' ∨ c = '\n' ∨ c = '\r' ∨ c = '\t' ∨ P.isprintable c = true ∨
    (0x100 ≤ c.toNat ∧ c.toNat < 0x10000)

/-- A string that `repr` writes as JSON. -/
def JsonStr (s : String) : Prop :=
  '\'' ∈ s.toList ∧ '"' ∉ s.toList ∧ ∀ c ∈ s.toList, Shared P c

def pyPrinter : Printer where
  null := "None".toList
  bool b := if b then "True".toList else "False".toList
  str := pyStr P

/-- What `repr` writes as JSON. -/
def pyKnown : Known := ⟨False, False, JsonStr P⟩

variable {P}

theorem piece_pyEscape {c : Char} (hquote : c ≠ '"') (h : Shared P c) :
    Piece F (pyEscape P '"' c) (units c) := by
  have hascii : ∀ d : Char, d.toNat < 0x10000 → units d = [d.toNat] := fun d hd => by
    rw [units, if_pos hd]
  rw [pyEscape]
  split_ifs with h₁ h₂ h₃ h₄ h₅ h₆ h₇
  · obtain rfl := h₁.resolve_left hquote
    exact .simple (by decide) (by decide) (by decide)
  · rw [h₂]
    exact .simple (by decide) (by decide) (by decide)
  · rw [h₃]
    exact .simple (by decide) (by decide) (by decide)
  · rw [h₄]
    exact .simple (by decide) (by decide) (by decide)
  · exact .plain hquote (fun he => h₁ (.inr he)) (P.le_of_isprintable h₅)
  · obtain he | he | he | he | he | he := h
    · exact absurd (.inr he) h₁
    · exact absurd he h₂
    · exact absurd he h₃
    · exact absurd he h₄
    · exact absurd he h₅
    · omega
  · rw [hascii c h₇]
    exact .unicode h₇
  · obtain he | he | he | he | he | he := h
    · exact absurd (.inr he) h₁
    · exact absurd he h₂
    · exact absurd he h₃
    · exact absurd he h₄
    · exact absurd he h₅
    · omega

/-- The decoder knows no `\x` and no `\U`. -/
theorem broken_pyEscape {c : Char} (hquote : c ≠ '"') (h : ¬ Shared P c) :
    Broken F (pyEscape P '"' c) := by
  rw [Shared] at h
  simp only [not_or] at h
  obtain ⟨h₁, h₂, h₃, h₄, h₅, h₆⟩ := h
  rw [pyEscape, if_neg (not_or.mpr ⟨hquote, h₁⟩), if_neg h₂, if_neg h₃, if_neg h₄, if_neg h₅]
  split_ifs with h₇ h₈
  · exact fun _ _ _ _ => rfl
  · exact absurd ⟨Nat.le_of_not_lt h₇, h₈⟩ h₆
  · exact fun _ _ _ _ => rfl

theorem pyPrinter_spec : (pyPrinter P).Spec F (pyKnown P) where
  null := by
    refine ⟨⟨'N', _, rfl, by decide, by decide⟩, fun stack c hc rest => ⟨False.elim, fun _ => ?_⟩⟩
    have hnone : (json F).atom "None".toList = none := by
      have hread : F.read "None".toList = none := by
        refine F.read_letter fun c hc => ?_
        rw [← Option.some_inj.mp (hc : some 'N' = some c)]
        decide
      show (F.read "None".toList).map Json.float = none
      rw [hread]
      rfl
    have hatom : ∀ c ∈ "one".toList, inAtom c = true := by decide
    have hrun := run_atom (F := F) hatom stack hc rest ['N']
    rw [show ['N'] ++ "one".toList = "None".toList from rfl, hnone] at hrun
    exact hrun
  bool b := by
    cases b with
    | true =>
      exact ⟨⟨'T', _, rfl, by decide, by decide⟩, fun _ _ _ _ => ⟨False.elim, fun _ => rfl⟩⟩
    | false =>
      exact ⟨⟨'F', _, rfl, by decide, by decide⟩, fun _ _ _ _ => ⟨False.elim, fun _ => rfl⟩⟩
  str s := by
    show ReadsStr F (pyStr P s) (JsonStr P s) s
    rw [pyStr]
    split_ifs with hquotes
    · have hne : ∀ c ∈ s.toList, c ≠ '"' := fun c hc he => hquotes.2 (he ▸ hc)
      have hreads := readsStr_of_pieces (F := F) (s := s) (pyEscape P '"') (Shared P)
        (fun c hc => piece_pyEscape (hne c hc))
        (fun c hc => broken_pyEscape (hne c hc))
      have hiff : (∀ c ∈ s.toList, Shared P c) ↔ JsonStr P s :=
        ⟨fun h => ⟨hquotes.1, hquotes.2, h⟩, fun h => h.2.2⟩
      rwa [propext hiff] at hreads
    · have hnot : ¬ JsonStr P s := fun h => hquotes ⟨h.1, h.2.1⟩
      exact ⟨.inr ⟨hnot, _, rfl⟩, fun ht => absurd (List.cons.inj ht).1 (by decide)⟩

end JsonText
