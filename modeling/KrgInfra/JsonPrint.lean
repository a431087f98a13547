/-
Values that are printed as JSON, or nearly so, and read again.

Lists and dictionaries are printed alike by `json.dumps` and by `repr`; what differs are the
constants and the strings.  A decoder stops at the first of these that it does not know, so that a
value is read back exactly if all of its parts are.

* `Printer`, `print` — a value as a text;
* `Known`, `Ok` — which constants and strings are read back, and which values;
* `print_reads` — a printed value is read back, or not read at all;
* `loads_print_iff` — the same of a whole text.
-/
import KrgInfra.JsonStrings

namespace JsonText

/-- What is printed of a constant and of a string. -/
structure Printer where
  null : List Char
  bool : Bool → List Char
  str : String → List Char

/-- The constants and the strings that are read back. -/
structure Known where
  null : Prop
  bool : Prop
  str : String → Prop

section Print

variable (F : Floats) (p : Printer)

mutual

def print : Json → List Char
  | .null => p.null
  | .bool b => p.bool b
  | .int n => (toString n).toList
  | .float q => F.repr q
  | .str s => p.str s
  | .arr items => '[' :: printItems true items
  | .obj members => '{' :: printMembers true members

/-- The items of a list, and its end. -/
def printItems (first : Bool) : List Json → List Char
  | [] => [']']
  | v :: items => (if first then [] else [',', ' ']) ++ (print v ++ printItems false items)

def printMembers (first : Bool) : List (String × Json) → List Char
  | [] => ['}']
  | (key, v) :: members =>
    (if first then [] else [',', ' ']) ++
      (p.str key ++ (':' :: ' ' :: (print v ++ printMembers false members)))

end

end Print

mutual

/-- A value of Python: no dictionary has a key twice. -/
def Wf (F : Floats) : Json → Prop
  | .float q => F.isFloat q
  | .arr items => WfItems F items
  | .obj members => (Members.names members).Nodup ∧ WfMembers F members
  | _ => True

def WfItems (F : Floats) : List Json → Prop
  | [] => True
  | v :: items => Wf F v ∧ WfItems F items

def WfMembers (F : Floats) : List (String × Json) → Prop
  | [] => True
  | (_, v) :: members => Wf F v ∧ WfMembers F members

end

theorem wfMembers_iff {F : Floats} {members : Members} :
    WfMembers F members ↔ ∀ m ∈ members, Wf F m.2 := by
  induction members with
  | nil => exact iff_of_true trivial fun _ hm => nomatch hm
  | cons member members ih =>
    rw [List.forall_mem_cons, ← ih]
    exact Iff.rfl

mutual

/-- Every part of a value is read back. -/
def Ok (k : Known) : Json → Prop
  | .null => k.null
  | .bool _ => k.bool
  | .str s => k.str s
  | .arr items => OkItems k items
  | .obj members => OkMembers k members
  | _ => True

def OkItems (k : Known) : List Json → Prop
  | [] => True
  | v :: items => Ok k v ∧ OkItems k items

def OkMembers (k : Known) : List (String × Json) → Prop
  | [] => True
  | (key, v) :: members => k.str key ∧ Ok k v ∧ OkMembers k members

end

/-! ### Tokens -/

variable {F : Floats}

/-- The state after a text is that after a value, or there is none. -/
def Leads (F : Floats) (s : State) (l : List Char) (ok : Prop) (t : State) (rest : List Char) :
    Prop :=
  (ok → run (json F) s l = run (json F) t rest) ∧ (¬ ok → run (json F) s l = none)

theorem Leads.congr {s t : State} {l rest : List Char} {p q : Prop} (h : Leads F s l p t rest)
    (hpq : p ↔ q) : Leads F s l q t rest :=
  propext hpq ▸ h

/-- One text after another. -/
theorem Leads.trans {s t u : State} {l m rest : List Char} {p q : Prop} (h : Leads F s l p t m)
    (h' : Leads F t m q u rest) : Leads F s l (p ∧ q) u rest := by
  constructor
  · rintro ⟨hp, hq⟩
    rw [h.1 hp, h'.1 hq]
  · intro hpq
    by_cases hp : p
    · rw [h.1 hp, h'.2 fun hq => hpq ⟨hp, hq⟩]
    · exact h.2 hp

theorem Leads.of_step {s t : State} {c : Char} (h : step (json F) s c = some t) (l : List Char) :
    Leads F s (c :: l) True t l := by
  constructor
  · intro _
    rw [run, h]
    rfl
  · exact fun hn => absurd trivial hn

/-- Where a value may come, its first character is none that only the beginning of a list knows. -/
def Begins (text : List Char) : Prop := ∃ c t, text = c :: t ∧ c ≠ ']' ∧ isWs c = false

/-- A text is read as a value, or not at all; what follows does not belong to it. -/
structure Reads (F : Floats) (text : List Char) (ok : Prop) (v : Json) : Prop where
  begins : Begins text
  leads (stack : List Frame) {c : Char} (hc : inAtom c = false) (rest : List Char) :
    Leads F ⟨stack, .value⟩ (text ++ c :: rest) ok (place v stack) (c :: rest)

/-- A text is read as a string in quotes, or not at all. -/
structure ReadsStr (F : Floats) (text : List Char) (ok : Prop) (s : String) : Prop where
  quote : (∃ t, text = '"' :: t) ∨ (¬ ok ∧ ∃ t, text = '\'' :: t)
  leads {t : List Char} (ht : text = '"' :: t) (stack : List Frame) (isKey : Bool)
    (rest : List Char) :
    (ok → run (json F) ⟨stack, .str isKey []⟩ (t ++ rest) =
      (endString isKey s stack).bind fun u => run (json F) u rest) ∧
    (¬ ok → run (json F) ⟨stack, .str isKey []⟩ (t ++ rest) = none)

/-- The first item of a list is read as any other value. -/
theorem Reads.first {text : List Char} {ok : Prop} {v : Json} (h : Reads F text ok v)
    (stack : List Frame) {c : Char} (hc : inAtom c = false) (rest : List Char) :
    Leads F ⟨stack, .first⟩ (text ++ c :: rest) ok (place v stack) (c :: rest) := by
  obtain ⟨d, t, htext, hd, hws⟩ := h.begins
  have hleads := h.leads stack hc rest
  rw [htext, List.cons_append] at hleads ⊢
  have hstep : step (json F) ⟨stack, .first⟩ d = step (json F) ⟨stack, .value⟩ d := by
    rw [step, step, skipOr, skipOr, hws, if_neg Bool.false_ne_true, if_neg hd,
      if_neg Bool.false_ne_true]
  have hrun : run (json F) ⟨stack, .first⟩ (d :: (t ++ c :: rest)) =
      run (json F) ⟨stack, .value⟩ (d :: (t ++ c :: rest)) := by
    rw [run, run, hstep]
  exact ⟨fun hok => hrun.trans (hleads.1 hok), fun hok => hrun.trans (hleads.2 hok)⟩

/-- A string is a value. -/
theorem ReadsStr.reads {text : List Char} {ok : Prop} {s : String} (h : ReadsStr F text ok s) :
    Reads F text ok (.str s) := by
  obtain ⟨t, rfl⟩ | ⟨hok, t, rfl⟩ := h.quote
  · refine ⟨⟨'"', t, rfl, by decide, by decide⟩, fun stack c hc rest => ?_⟩
    obtain ⟨hgood, hbad⟩ := h.leads rfl stack false (c :: rest)
    exact ⟨hgood, hbad⟩
  · exact ⟨⟨'\'', t, rfl, by decide, by decide⟩, fun stack c hc rest =>
      ⟨fun h => absurd h hok, fun _ => rfl⟩⟩

/-- A string is a key. -/
theorem ReadsStr.key {text : List Char} {ok : Prop} {s : String} (h : ReadsStr F text ok s)
    (stack : List Frame) (members : Members) (old : String) {mode : Mode}
    (hmode : mode = .key ∨ mode = .firstKey) (rest : List Char) :
    Leads F ⟨.obj members old :: stack, mode⟩ (text ++ rest) ok
      ⟨.obj members s :: stack, .colon⟩ rest := by
  have hmodes : ∀ {c : Char} {l : List Char}, c ≠ '}' → isWs c = false →
      run (json F) ⟨.obj members old :: stack, mode⟩ (c :: l) =
        (if c = '"' then some ⟨.obj members old :: stack, .str true []⟩ else none).bind fun u =>
          run (json F) u l := by
    intro c l hc hws
    obtain rfl | rfl := hmode
    · rw [run, step, skipOr, hws]
      rfl
    · rw [run, step, skipOr, hws, if_neg Bool.false_ne_true, if_neg hc]
  obtain ⟨t, rfl⟩ | ⟨hok, t, rfl⟩ := h.quote
  · obtain ⟨hgood, hbad⟩ := h.leads rfl (.obj members old :: stack) true rest
    have hrun := hmodes (c := '"') (l := t ++ rest) (by decide) (by decide)
    exact ⟨fun hok => hrun.trans (hgood hok), fun hok => hrun.trans (hbad hok)⟩
  · exact ⟨fun h => absurd h hok, fun _ => hmodes (c := '\'') (by decide) (by decide)⟩

/-- What a decoder makes of what is printed of the constants and of the strings. -/
structure Printer.Spec (F : Floats) (p : Printer) (k : Known) : Prop where
  null : Reads F p.null k.null .null
  bool (b : Bool) : Reads F (p.bool b) k.bool (.bool b)
  str (s : String) : ReadsStr F (p.str s) (k.str s) s

/-! ### Numbers -/

theorem step_place (k : Scalars) (v : Json) (stack : List Frame) (c : Char) :
    step k (place v stack) c = afterValue (place v stack) c := by
  cases stack with
  | nil => rfl
  | cons f stack => cases f <;> rfl

/-- A number or a constant, after its first character. -/
theorem run_atom {text : List Char} (hatom : ∀ c ∈ text, inAtom c = true) (stack : List Frame)
    {c : Char} (hc : inAtom c = false) (rest : List Char) : ∀ before : List Char,
    run (json F) ⟨stack, .atom before⟩ (text ++ c :: rest) =
      ((json F).atom (before ++ text)).bind fun v => run (json F) (place v stack) (c :: rest) := by
  induction text with
  | nil =>
    intro before
    rw [List.nil_append, List.append_nil, run, step, hc, if_neg (by decide), Option.bind_assoc]
    refine Option.bind_congr fun v _ => ?_
    rw [run, step_place]
  | cons d text ih =>
    intro before
    obtain ⟨hd, htext⟩ := List.forall_mem_cons.mp hatom
    rw [List.cons_append, run, step, if_pos hd, Option.bind_some, ih htext, List.append_assoc,
      List.singleton_append]

/-- A text of a number or a constant is read if the decoder knows it. -/
theorem reads_atom {text : List Char} {v : Json} (hatom : ∀ c ∈ text, inAtom c = true)
    (hhead : ∃ c ∈ text.head?, startsAtom c = true) (h : (json F).atom text = some v) :
    Reads F text True v := by
  obtain ⟨d, hd, hstart⟩ := hhead
  obtain ⟨t, rfl⟩ : ∃ t, text = d :: t := by
    cases text with
    | nil => exact nomatch hd
    | cons e t => exact ⟨t, by rw [Option.some_inj.mp hd]⟩
  have hatom' : ∀ c ∈ t, inAtom c = true := fun c hc => hatom c (List.mem_cons_of_mem _ hc)
  have hin := hatom d List.mem_cons_self
  have hne : ∀ e, inAtom e = false → d ≠ e := fun e he hde => by
    rw [hde, he] at hin
    exact absurd hin (by decide)
  have hws : isWs d = false := by
    cases hws : isWs d with
    | false => rfl
    | true =>
      rw [isWs] at hws
      simp [hne ' ' (by decide), hne '\t' (by decide), hne '\n' (by decide),
        hne '\r' (by decide)] at hws
  refine ⟨⟨d, t, rfl, hne ']' (by decide), hws⟩, fun stack c hc rest => ⟨fun _ => ?_, ?_⟩⟩
  · have hstep : step (json F) ⟨stack, .value⟩ d = some ⟨stack, .atom [d]⟩ := by
      rw [step, skipOr, hws, if_neg Bool.false_ne_true, openValue, if_neg (hne '\x7b' (by decide)),
        if_neg (hne '[' (by decide)), if_neg (hne '"' (by decide)), if_pos hstart]
    rw [List.cons_append, run, hstep, Option.bind_some, run_atom hatom' stack hc rest]
    rw [List.singleton_append, h]
    rfl
  · exact fun hn => absurd trivial hn

theorem inAtom_of_isDigit {c : Char} (h : c.isDigit = true) : inAtom c = true := by
  rw [inAtom, Char.isAlphanum, h]
  simp

theorem reads_int (n : ℤ) : Reads F (toString n).toList True (.int n) := by
  have hdigit : ∀ c ∈ (toString n).toList, c = '-' ∨ c.isDigit = true :=
    fun c => DecimalText.mem_toString
  have hread := DecimalText.integer_toString n
  revert hdigit hread
  generalize (toString n).toList = l
  intro hdigit hread
  have hatom : ∀ c ∈ l, inAtom c = true := by
    intro c hc
    obtain rfl | hd := hdigit c hc
    · decide
    · exact inAtom_of_isDigit hd
  have hhead : ∃ c ∈ l.head?, startsAtom c = true := by
    cases l with
    | nil => exact nomatch hread
    | cons c l =>
      refine ⟨c, rfl, ?_⟩
      obtain rfl | hd := hdigit c List.mem_cons_self
      · decide
      · simp [startsAtom, hd]
  have hletter : ∀ c, c.isDigit = false → c ≠ '-' → c ∉ l := by
    intro c hc hdash hmem
    obtain rfl | hd := hdigit c hmem
    · exact hdash rfl
    · exact absurd (hc.symm.trans hd) (by decide)
  refine reads_atom hatom hhead ?_
  show (if _ then _ else if _ then _ else if _ then _ else _) = some (Json.int n)
  rw [if_neg, if_neg, if_neg, hread]
  · rintro rfl
    exact hletter 'f' (by decide) (by decide) List.mem_cons_self
  · rintro rfl
    exact hletter 't' (by decide) (by decide) List.mem_cons_self
  · rintro rfl
    exact hletter 'n' (by decide) (by decide) List.mem_cons_self

theorem reads_float {q : ℚ} (h : F.isFloat q) : Reads F (F.repr q) True (.float q) := by
  obtain ⟨d, hd, hhead⟩ := F.repr_head h
  obtain ⟨e, he, hfraction⟩ := F.repr_fraction h
  have hstart : startsAtom d = true := by
    obtain rfl | hd := hhead
    · decide
    · simp [startsAtom, hd]
  have hne : ∀ l : List Char, (∃ c ∈ l.head?, c ≠ '-' ∧ c.isDigit = false) → F.repr q ≠ l := by
    rintro l ⟨c, hc, hdash, hdigit⟩ rfl
    obtain rfl := Option.some_inj.mp (hc.symm.trans hd)
    obtain rfl | hd := hhead
    · exact hdash rfl
    · exact absurd (hdigit.symm.trans hd) (by decide)
  refine reads_atom (F.repr_atom h) ⟨d, hd, hstart⟩ ?_
  show (if _ then _ else if _ then _ else if _ then _ else _) = some (Json.float q)
  rw [if_neg (hne _ ⟨'n', rfl, by decide, by decide⟩),
    if_neg (hne _ ⟨'t', rfl, by decide, by decide⟩),
    if_neg (hne _ ⟨'f', rfl, by decide, by decide⟩)]
  have hinteger : DecimalText.integer (F.repr q) = none := by
    obtain rfl | rfl := hfraction
    · exact DecimalText.integer_eq_none he (by decide) (by decide) (by decide)
    · exact DecimalText.integer_eq_none he (by decide) (by decide) (by decide)
  rw [hinteger]
  show (F.read (F.repr q)).map Json.float = _
  rw [F.read_repr h]
  rfl

/-! ### Values -/

variable {p : Printer} {k : Known}

theorem head_printItems (items : List Json) (rest : List Char) :
    ∃ c t, printItems F p false items ++ rest = c :: t ∧ inAtom c = false := by
  cases items with
  | nil => exact ⟨']', rest, rfl, by decide⟩
  | cons v items => exact ⟨',', _, rfl, by decide⟩

theorem head_printMembers (members : Members) (rest : List Char) :
    ∃ c t, printMembers F p false members ++ rest = c :: t ∧ inAtom c = false := by
  cases members with
  | nil => exact ⟨'}', rest, rfl, by decide⟩
  | cons member members => exact ⟨',', _, rfl, by decide⟩

mutual

/-- A printed value is read back if all of its parts are, and otherwise not read at all. -/
theorem print_reads (hp : p.Spec F k) : ∀ v : Json, Wf F v → Reads F (print F p v) (Ok k v) v
  | .null, _ => hp.null
  | .bool b, _ => hp.bool b
  | .int n, _ => reads_int n
  | .float q, h => reads_float h
  | .str s, _ => (hp.str s).reads
  | .arr items, h => by
    refine ⟨⟨'[', _, rfl, by decide, by decide⟩, fun stack c hc rest => ?_⟩
    have hopen : Leads F ⟨stack, .value⟩ ('[' :: (printItems F p true items ++ c :: rest)) True
        ⟨.arr [] :: stack, .first⟩ (printItems F p true items ++ c :: rest) := .of_step rfl _
    have hitems := printItems_leads hp items true h stack [] (c :: rest)
    exact (hopen.trans hitems).congr (iff_of_eq (true_and _))
  | .obj members, h => by
    refine ⟨⟨'{', _, rfl, by decide, by decide⟩, fun stack c hc rest => ?_⟩
    have hopen : Leads F ⟨stack, .value⟩ ('{' :: (printMembers F p true members ++ c :: rest)) True
        ⟨.obj [] "" :: stack, .firstKey⟩ (printMembers F p true members ++ c :: rest) :=
      .of_step rfl _
    have hmembers := printMembers_leads hp members true h.2 stack [] "" (c :: rest)
    rw [List.nil_append, dictOf_of_nodup h.1] at hmembers
    exact (hopen.trans hmembers).congr (iff_of_eq (true_and _))

theorem printItems_leads (hp : p.Spec F k) : ∀ (items : List Json) (first : Bool), WfItems F items →
    ∀ (stack : List Frame) (acc : List Json) (rest : List Char),
      Leads F ⟨.arr acc :: stack, if first then .first else .next⟩
        (printItems F p first items ++ rest) (OkItems k items)
        (place (.arr (acc ++ items)) stack) rest
  | [], first, _, stack, acc, rest => by
    rw [List.append_nil]
    refine Leads.of_step ?_ rest
    cases first <;> rfl
  | v :: items, first, h, stack, acc, rest => by
    have hitems := printItems_leads hp items false h.2 stack (acc ++ [v]) rest
    have hv := print_reads hp v h.1
    obtain ⟨c, t, hct, hc⟩ := head_printItems (F := F) (p := p) items rest
    rw [List.append_assoc, List.singleton_append, hct] at hitems
    cases first with
    | true =>
      have hfirst := hv.first (.arr acc :: stack) hc t
      have htext : printItems F p true (v :: items) ++ rest = print F p v ++ c :: t := by
        rw [printItems, if_pos rfl, List.nil_append, List.append_assoc, hct]
      rw [htext]
      exact hfirst.trans hitems
    | false =>
      have hnext := hv.leads (.arr acc :: stack) hc t
      have htext : printItems F p false (v :: items) ++ rest =
          ',' :: ' ' :: (print F p v ++ c :: t) := by
        rw [printItems, if_neg Bool.false_ne_true, List.append_assoc, List.append_assoc, hct]
        rfl
      rw [htext]
      have hcomma : Leads F ⟨.arr acc :: stack, .next⟩ (',' :: ' ' :: (print F p v ++ c :: t)) True
          ⟨.arr acc :: stack, .value⟩ (' ' :: (print F p v ++ c :: t)) := .of_step rfl _
      have hspace : Leads F ⟨.arr acc :: stack, .value⟩ (' ' :: (print F p v ++ c :: t)) True
          ⟨.arr acc :: stack, .value⟩ (print F p v ++ c :: t) := .of_step rfl _
      refine (hcomma.trans (hspace.trans (hnext.trans hitems))).congr ?_
      rw [true_and, true_and]
      rfl

theorem printMembers_leads (hp : p.Spec F k) : ∀ (members : List (String × Json)) (first : Bool),
    WfMembers F members → ∀ (stack : List Frame) (acc : Members) (old : String) (rest : List Char),
      Leads F ⟨.obj acc old :: stack, if first then .firstKey else .next⟩
        (printMembers F p first members ++ rest) (OkMembers k members)
        (place (.obj (dictOf (acc ++ members))) stack) rest
  | [], first, _, stack, acc, old, rest => by
    rw [List.append_nil]
    refine Leads.of_step ?_ rest
    cases first <;> rfl
  | (key, v) :: members, first, h, stack, acc, old, rest => by
    have hmembers := printMembers_leads hp members false h.2 stack (acc ++ [(key, v)]) key rest
    have hv := print_reads hp v h.1
    obtain ⟨c, t, hct, hc⟩ := head_printMembers (F := F) (p := p) members rest
    rw [List.append_assoc, List.singleton_append, hct] at hmembers
    have hvalue := hv.leads (.obj acc key :: stack) hc t
    have hcolon : Leads F ⟨.obj acc key :: stack, .colon⟩ (':' :: ' ' :: (print F p v ++ c :: t)) True
        ⟨.obj acc key :: stack, .value⟩ (' ' :: (print F p v ++ c :: t)) := .of_step rfl _
    have hspace : Leads F ⟨.obj acc key :: stack, .value⟩ (' ' :: (print F p v ++ c :: t)) True
        ⟨.obj acc key :: stack, .value⟩ (print F p v ++ c :: t) := .of_step rfl _
    have hafter := hcolon.trans (hspace.trans (hvalue.trans hmembers))
    cases first with
    | true =>
      have hkey := (hp.str key).key stack acc old (.inr rfl)
        (':' :: ' ' :: (print F p v ++ c :: t))
      have htext : printMembers F p true ((key, v) :: members) ++ rest =
          p.str key ++ ':' :: ' ' :: (print F p v ++ c :: t) := by
        rw [printMembers, if_pos rfl, List.nil_append, List.append_assoc, List.cons_append,
          List.cons_append, List.append_assoc, hct]
      rw [htext]
      refine (hkey.trans hafter).congr ?_
      rw [true_and, true_and]
      rfl
    | false =>
      have hkey := (hp.str key).key stack acc old (.inl rfl)
        (':' :: ' ' :: (print F p v ++ c :: t))
      have htext : printMembers F p false ((key, v) :: members) ++ rest =
          ',' :: ' ' :: (p.str key ++ ':' :: ' ' :: (print F p v ++ c :: t)) := by
        rw [printMembers, if_neg Bool.false_ne_true, List.append_assoc]
        show ',' :: ' ' :: (_ ++ rest) = _
        rw [List.append_assoc, List.cons_append, List.cons_append, List.append_assoc, hct]
      rw [htext]
      have hcomma : Leads F ⟨.obj acc old :: stack, .next⟩
          (',' :: ' ' :: (p.str key ++ ':' :: ' ' :: (print F p v ++ c :: t))) True
          ⟨.obj acc old :: stack, .key⟩
          (' ' :: (p.str key ++ ':' :: ' ' :: (print F p v ++ c :: t))) := .of_step rfl _
      have hblank : Leads F ⟨.obj acc old :: stack, .key⟩
          (' ' :: (p.str key ++ ':' :: ' ' :: (print F p v ++ c :: t))) True
          ⟨.obj acc old :: stack, .key⟩
          (p.str key ++ ':' :: ' ' :: (print F p v ++ c :: t)) := .of_step rfl _
      refine (hcomma.trans (hblank.trans (hkey.trans hafter))).congr ?_
      rw [true_and, true_and, true_and, true_and]
      rfl

end

/-- A printed value is read back from a whole text exactly if all of its parts are. -/
theorem loads_print_iff (hp : p.Spec F k) {v : Json} (h : Wf F v) :
    loads (json F) (print F p v) = some v ↔ Ok k v := by
  have hleads := (print_reads hp v h).leads [] (c := '\n') (by decide) []
  rw [← loads_concat_newline]
  constructor
  · intro hloads
    by_contra hok
    have hnone : run (json F) start (print F p v ++ ['\n']) = none := hleads.2 hok
    rw [loads, hnone] at hloads
    cases hloads
  · intro hok
    have hrun : run (json F) start (print F p v ++ ['\n']) = some (place v []) := hleads.1 hok
    rw [loads, hrun]
    rfl

end JsonText
