/-
The captured output of `synowebapi`, of any shape.

An exception that says that an object is of the wrong type is never caught, so every object that
`webapi_data` comes to has to be of a type that it can use.  It looks for the first line that begins
with a brace, and what comes after it has to be lines too; where there is no such line, and where
the lines are no JSON, the error is one that is caught.

* `Caught`, `handled_get`, `handled_member` — what is caught, and the accesses that raise it;
* `Captured`, `LinesFit`, `capture_eq_ok_iff`, `handled_capture` — the lines;
* `Answers`, `AnswerFit`, `webapi_data_eq_ok_iff`, `handled_webapi_data` — the answer.
-/
import KrgInfra.DriftReport

namespace DriftReport

open PyObject Raising
open PyObject.Value (member memberOr)

variable {rt : Runtime}

/-- What `run` catches around a comparison. -/
def Caught (e : Exn) : Prop := diffError e ≠ none

theorem caught_keyError (message : String) : Caught (.keyError message) := nofun

theorem caught_valueError (message : String) : Caught (.valueError message) := nofun

theorem not_caught_of_type {e : Exn} (h : OfType e) : ¬ Caught e := by
  obtain rfl | rfl := h
  · exact fun h => h rfl
  · exact fun h => h rfl

theorem typed_handled {α : Type} {x : Except Exn α} {fits : Prop} (h : Typed x fits) :
    Handled Caught x ↔ fits :=
  h.handled_iff fun _ => not_caught_of_type

theorem handled_get {value default : Value} {name : String} :
    Handled Caught (value.get name default) ↔ ∃ members, value = .dict members :=
  typed_handled (typed_get value name default)

theorem handled_member {value : Value} {name : String} :
    Handled Caught (value.item rt name) ↔ ∃ members, value = .dict members :=
  handled_item rt caught_keyError (not_caught_of_type (.inl rfl))

/-! ### Captured output -/

/-- A text begins with a brace. -/
def braced (ln : String) : Bool := CommandOutput.startsWithBrace ln

def IsStr (value : Value) : Prop := ∃ s, value = .str s

/-- A line before the answer. -/
def Before (ln : Value) : Prop := ∃ s, ln = .str s ∧ braced s = false

theorem forall_isStr_iff {items : List Value} :
    (∀ item ∈ items, IsStr item) ↔ ∃ texts : List String, items = texts.map .str := by
  induction items with
  | nil => exact ⟨fun _ => ⟨[], rfl⟩, fun _ _ h => nomatch h⟩
  | cons item items ih =>
    rw [List.forall_mem_cons, ih]
    constructor
    · rintro ⟨⟨s, rfl⟩, texts, rfl⟩
      exact ⟨s :: texts, rfl⟩
    · rintro ⟨texts, h⟩
      cases texts with
      | nil => exact nomatch h
      | cons s texts => exact ⟨⟨s, (List.cons.inj h).1⟩, texts, (List.cons.inj h).2⟩

theorem typed_textOf (value : Value) : Typed (textOf value) (IsStr value) := by
  cases value with
  | str s => exact .ok s ⟨s, rfl⟩
  | _ => exact typed_error fun ⟨_, h⟩ => nomatch h

theorem textOf_eq_ok_iff {value : Value} {s : String} : textOf value = .ok s ↔ value = .str s := by
  cases value <;> simp [textOf]

theorem mapM_textOf {items : List Value} {texts : List String} :
    items.mapM textOf = .ok texts ↔ items = texts.map .str := by
  rw [mapM_eq_ok_iff]
  have hrel : (fun a b => textOf a = .ok b) = fun a b => a = Value.str b :=
    funext fun a => funext fun b => propext textOf_eq_ok_iff
  rw [hrel, ← List.forall₂_map_right_iff, List.forall₂_eq_eq_eq]

theorem joinLines_eq_ok_iff {lines : Value} {text : String} : joinLines lines = .ok text ↔
    ∃ texts : List String, lines.elements = some (texts.map .str) ∧ text = Python.join texts := by
  rw [joinLines, bind_eq_ok_iff]
  constructor
  · rintro ⟨items, hitems, h⟩
    obtain ⟨texts, htexts, hjoin⟩ := bind_eq_ok_iff.mp h
    rw [iter_eq_ok_iff, mapM_textOf.mp htexts] at hitems
    exact ⟨texts, hitems, (Except.ok.inj hjoin).symm⟩
  · rintro ⟨texts, hitems, rfl⟩
    exact ⟨_, iter_eq_ok_iff.mpr hitems, bind_eq_ok_iff.mpr ⟨texts, mapM_textOf.mpr rfl, rfl⟩⟩

theorem typed_joinLines (lines : Value) : Typed (joinLines lines)
    (∃ texts : List String, lines.elements = some (texts.map .str)) := by
  rw [joinLines]
  refine ((typed_iter lines).bindDep fun items _ =>
    (Strict.mapM typed_textOf items).map Python.join).congr ?_
  simp only [iter_eq_ok_iff, forall_isStr_iff]
  constructor
  · rintro ⟨items, hitems, texts, rfl⟩
    exact ⟨texts, hitems⟩
  · rintro ⟨texts, h⟩
    exact ⟨_, h, texts, rfl⟩

/-- What a slice can be taken of. -/
def Sliceable : Value → Prop
  | .str _ => True
  | .bytes _ => True
  | .list _ => True
  | .tuple _ _ => True
  | _ => False

variable (rt) in
/-- A slice is gone through from its start. -/
theorem sliceFrom_of_sliceable {lines : Value} (h : Sliceable lines) {items : List Value}
    (hitems : lines.elements = some items) (start : ℕ) :
    ∃ rest, sliceFrom rt lines start = .ok rest ∧ rest.elements = some (items.drop start) := by
  cases lines with
  | str s =>
    obtain rfl := Option.some.inj hitems
    refine ⟨_, rfl, ?_⟩
    rw [Value.elements, String.toList_ofList, List.map_drop]
  | bytes b =>
    obtain rfl := Option.some.inj hitems
    exact ⟨_, rfl, by rw [Value.elements, List.map_drop]⟩
  | list l =>
    obtain rfl := Option.some.inj hitems
    exact ⟨_, rfl, rfl⟩
  | tuple a b =>
    obtain rfl := Option.some.inj hitems
    exact ⟨_, rfl, rfl⟩
  | _ => exact h.elim

theorem typed_startsWithBrace (ln : Value) : Typed (startsWithBrace ln) (IsStr ln) := by
  cases ln with
  | str s => exact .ok _ ⟨s, rfl⟩
  | bytes b => exact typed_error fun ⟨_, h⟩ => nomatch h
  | _ => exact .error (.inr rfl) fun ⟨_, h⟩ => nomatch h

theorem startsWithBrace_eq_ok_iff {ln : Value} {b : Bool} :
    startsWithBrace ln = .ok b ↔ ∃ s, ln = .str s ∧ braced s = b := by
  cases ln <;> simp [startsWithBrace, braced]

/-- The search comes to the first line with a brace, if the lines before it are texts. -/
theorem typed_firstBrace (items : List Value) :
    ∀ i, Typed (firstBrace i items) (Along Before IsStr items) := by
  induction items with
  | nil => exact fun i => .ok _ trivial
  | cons ln items ih =>
    intro i
    rw [firstBrace]
    have hrest : ∀ b, Typed (if b = true then pure (some i) else firstBrace (i + 1) items)
        (b = false → Along Before IsStr items) := by
      intro b
      cases b with
      | true => exact .ok _ nofun
      | false => exact (ih (i + 1)).congr ⟨fun h _ => h, fun h => h rfl⟩
    refine ((typed_startsWithBrace ln).bindDep fun b _ => hrest b).congr ?_
    · simp only [startsWithBrace_eq_ok_iff, Along]
      constructor
      · rintro ⟨_, ⟨s, rfl, rfl⟩, hrest⟩
        exact ⟨⟨s, rfl⟩, fun ⟨_, hs, hbrace⟩ => hrest (Value.str.inj hs ▸ hbrace)⟩
      · rintro ⟨⟨s, rfl⟩, hrest⟩
        exact ⟨_, ⟨s, rfl, rfl⟩, fun hbrace => hrest ⟨s, rfl, hbrace⟩⟩

/-- No line begins with a brace. -/
theorem firstBrace_eq_none_iff {items : List Value} :
    ∀ {i}, firstBrace i items = .ok none ↔ ∀ ln ∈ items, Before ln := by
  induction items with
  | nil => exact fun {i} => ⟨fun _ _ h => (nomatch h), fun _ => rfl⟩
  | cons ln items ih =>
    intro i
    rw [firstBrace, bind_eq_ok_iff, List.forall_mem_cons, Before, ← ih (i := i + 1)]
    simp only [startsWithBrace_eq_ok_iff]
    constructor
    · rintro ⟨b, ⟨s, hs, hb⟩, h⟩
      cases b with
      | true => exact nomatch h
      | false => exact ⟨⟨s, hs, hb⟩, h⟩
    · rintro ⟨⟨s, hs, hb⟩, h⟩
      exact ⟨false, ⟨s, hs, hb⟩, h⟩

/-- The place of the first line that begins with a brace. -/
theorem firstBrace_eq_some_iff {items : List Value} : ∀ {i j}, firstBrace i items = .ok (some j) ↔
    ∃ before s rest, items = before ++ .str s :: rest ∧ (∀ ln ∈ before, Before ln) ∧
      braced s = true ∧ j = i + before.length := by
  induction items with
  | nil =>
    intro i j
    refine ⟨fun h => (nomatch Except.ok.inj h), ?_⟩
    rintro ⟨before, s, rest, h, -⟩
    exact absurd h.symm (by simp)
  | cons ln items ih =>
    intro i j
    rw [firstBrace, bind_eq_ok_iff]
    simp only [startsWithBrace_eq_ok_iff]
    constructor
    · rintro ⟨b, ⟨s, rfl, hb⟩, h⟩
      cases b with
      | true =>
        have hj := Option.some.inj (Except.ok.inj h)
        exact ⟨[], s, items, rfl, fun _ h => (nomatch h), hb, hj.symm⟩
      | false =>
        obtain ⟨before, s', rest, rfl, hbefore, hs', rfl⟩ := ih.mp h
        refine ⟨.str s :: before, s', rest, rfl, ?_, hs', ?_⟩
        · exact List.forall_mem_cons.mpr ⟨⟨s, rfl, hb⟩, hbefore⟩
        · rw [List.length_cons]
          omega
    · rintro ⟨before, s, rest, hitems, hbefore, hs, rfl⟩
      cases before with
      | nil =>
        obtain ⟨rfl, rfl⟩ := List.cons.inj hitems
        exact ⟨true, ⟨s, rfl, hs⟩, rfl⟩
      | cons first before =>
        obtain ⟨rfl, rfl⟩ := List.cons.inj hitems
        obtain ⟨⟨t, rfl, ht⟩, htail⟩ := List.forall_mem_cons.mp hbefore
        refine ⟨false, ⟨t, rfl, ht⟩, ?_⟩
        refine ih.mpr ⟨before, s, rest, rfl, htail, hs, ?_⟩
        rw [List.length_cons]
        omega

/-- A text is captured: all lines are texts, and it has those from the first one that begins with
a brace. -/
def Captured (raw : Value) (text : String) : Prop :=
  Sliceable raw ∧ ∃ before after : List String, raw.elements = some ((before ++ after).map .str) ∧
    (∀ ln ∈ before, braced ln = false) ∧ (∃ ln rest, after = ln :: rest ∧ braced ln = true) ∧
    text = Python.join after

theorem captured_line {text : String} (h : braced text = true) :
    Captured (.list [.str text]) text :=
  ⟨trivial, [], [text], rfl, nofun, ⟨text, [], rfl, h⟩, String.ofList_toList.symm⟩

/-- Lines in which an answer can be looked for.  All of a list have to be texts.  Where a slice is
not found in a dictionary, its keys count up to the first one that begins with a brace; otherwise
no slice can be taken of it, and there must be no such one, nor in a set. -/
def LinesFit (rt : Runtime) (raw : Value) : Prop :=
  match raw with
  | .dict members =>
    if rt.hashes_slices then Along Before IsStr (members.map Prod.fst)
    else ∀ key ∈ members.map Prod.fst, Before key
  | .set items => ∀ item ∈ items, Before item
  | raw => ∃ lines : List String, raw.elements = some (lines.map .str)

/-- The search is done, and the lines from a brace on are joined. -/
theorem handled_capture_iff {raw : Value} : Handled Caught (capture rt raw) ↔
    ∃ items, raw.elements = some items ∧ Along Before IsStr items ∧
      ∀ start, firstBrace 0 items = .ok (some start) →
        Handled Caught (sliceFrom rt raw start >>= joinLines) := by
  rw [capture, handled_bind, typed_handled (typed_iter raw)]
  constructor
  · rintro ⟨⟨items, hitems⟩, h⟩
    have hsearch := h items (iter_eq_ok_iff.mpr hitems)
    rw [handled_bind, typed_handled (typed_firstBrace items 0)] at hsearch
    exact ⟨items, hitems, hsearch.1, fun start hstart => hsearch.2 _ hstart⟩
  · rintro ⟨items, hitems, halong, h⟩
    refine ⟨⟨items, hitems⟩, fun items' hitems' => ?_⟩
    obtain rfl := Option.some.inj (hitems.symm.trans (iter_eq_ok_iff.mp hitems'))
    rw [handled_bind, typed_handled (typed_firstBrace items 0)]
    refine ⟨halong, fun found hfound => ?_⟩
    cases found with
    | none => exact handled_error.mpr (caught_valueError _)
    | some start => exact h start hfound

/-- Where a slice raises what is not caught, no line may begin with a brace. -/
theorem along_and_not_some_iff {items : List Value} {p : Prop} (hp : ¬ p) :
    (Along Before IsStr items ∧ ∀ start, firstBrace 0 items = .ok (some start) → p) ↔
      ∀ ln ∈ items, Before ln := by
  rw [← firstBrace_eq_none_iff (i := 0)]
  constructor
  · rintro ⟨halong, hsome⟩
    obtain ⟨found, hfound⟩ := (typed_firstBrace items 0).ok_iff.mpr halong
    cases found with
    | none => exact hfound
    | some start => exact absurd (hsome start hfound) hp
  · intro h
    refine ⟨(typed_firstBrace items 0).ok_iff.mp ⟨_, h⟩, fun start hstart => ?_⟩
    exact nomatch Except.ok.inj (h.symm.trans hstart)

theorem handled_capture_of_sliceable {raw : Value} (h : Sliceable raw) :
    Handled Caught (capture rt raw) ↔
      ∃ lines : List String, raw.elements = some (lines.map .str) := by
  rw [handled_capture_iff]
  constructor
  · rintro ⟨items, hitems, halong, hsome⟩
    suffices hall : ∀ item ∈ items, IsStr item by
      obtain ⟨lines, rfl⟩ := forall_isStr_iff.mp hall
      exact ⟨lines, hitems⟩
    obtain ⟨found, hfound⟩ := (typed_firstBrace items 0).ok_iff.mpr halong
    cases found with
    | none => exact fun item hi => (firstBrace_eq_none_iff.mp hfound item hi).imp fun _ => And.left
    | some start =>
      obtain ⟨before, s, rest, rfl, hbefore, -, rfl⟩ := firstBrace_eq_some_iff.mp hfound
      obtain ⟨slice, hslice, helements⟩ := sliceFrom_of_sliceable rt h hitems
        (0 + before.length)
      have hjoin := hsome _ hfound
      rw [hslice, ok_bind, typed_handled (typed_joinLines slice), helements] at hjoin
      obtain ⟨texts, htexts⟩ := hjoin
      rw [Nat.zero_add, List.drop_left] at htexts
      intro item hitem
      obtain hitem | hitem := List.mem_append.mp hitem
      · exact (hbefore item hitem).imp fun _ => And.left
      · rw [Option.some.inj htexts] at hitem
        obtain ⟨t, -, rfl⟩ := List.mem_map.mp hitem
        exact ⟨t, rfl⟩
  · rintro ⟨lines, hitems⟩
    refine ⟨_, hitems, .of_forall (forall_isStr_iff.mpr ⟨lines, rfl⟩), fun start _ => ?_⟩
    obtain ⟨slice, hslice, helements⟩ := sliceFrom_of_sliceable rt h hitems start
    rw [hslice, ok_bind, typed_handled (typed_joinLines slice), helements]
    exact ⟨lines.drop start, by rw [List.map_drop]⟩

/-- Lines are searched if they fit. -/
theorem handled_capture {raw : Value} : Handled Caught (capture rt raw) ↔ LinesFit rt raw := by
  have hstrange : ∀ {raw : Value} {items : List Value}, raw.elements = some items →
      (∀ start, ¬ Handled Caught (sliceFrom rt raw start >>= joinLines)) →
      (Handled Caught (capture rt raw) ↔ ∀ item ∈ items, Before item) := by
    intro raw items hitems hslice
    rw [handled_capture_iff]
    constructor
    · rintro ⟨items', hitems', halong, hsome⟩
      obtain rfl := Option.some.inj (hitems.symm.trans hitems')
      exact (along_and_not_some_iff not_false).mp
        ⟨halong, fun start hstart => hslice start (hsome start hstart)⟩
    · intro h
      obtain ⟨halong, hsome⟩ := (along_and_not_some_iff not_false).mpr h
      exact ⟨items, hitems, halong, fun start hstart => (hsome start hstart).elim⟩
  have hnone : ∀ {raw : Value}, raw.elements = none → (Handled Caught (capture rt raw) ↔
      ∃ lines : List String, raw.elements = some (lines.map .str)) := by
    intro raw hraw
    rw [handled_capture_iff, hraw]
    exact ⟨fun ⟨_, h, _⟩ => (nomatch h), fun ⟨_, h⟩ => nomatch h⟩
  cases raw with
  | str s => exact handled_capture_of_sliceable trivial
  | bytes b => exact handled_capture_of_sliceable trivial
  | list items => exact handled_capture_of_sliceable trivial
  | tuple a b => exact handled_capture_of_sliceable trivial
  | null => exact hnone rfl
  | bool b => exact hnone rfl
  | int n => exact hnone rfl
  | float x => exact hnone rfl
  | minusZero => exact hnone rfl
  | stamp clock moment => exact hnone rfl
  | set items =>
    exact hstrange rfl fun start h => not_caught_of_type (.inl rfl) (handled_error.mp h)
  | dict members =>
    rw [LinesFit]
    split_ifs with hslices
    · rw [handled_capture_iff]
      constructor
      · rintro ⟨items, hitems, halong, -⟩
        rwa [← Option.some.inj hitems] at halong
      · refine fun halong => ⟨_, rfl, halong, fun start _ => ?_⟩
        rw [sliceFrom, if_pos hslices, error_bind, handled_error]
        exact caught_keyError _
    · refine hstrange rfl fun start h => ?_
      rw [sliceFrom, if_neg hslices, error_bind, handled_error] at h
      exact not_caught_of_type (.inl rfl) h

theorem sliceable_of_sliceFrom {raw rest : Value} {start : ℕ}
    (h : sliceFrom rt raw start = .ok rest) : Sliceable raw := by
  cases raw with
  | str s => trivial
  | bytes b => trivial
  | list items => trivial
  | tuple a b => trivial
  | dict members =>
    rw [sliceFrom] at h
    split_ifs at h
  | _ => exact nomatch h

theorem capture_eq_ok_iff {raw : Value} {text : String} :
    capture rt raw = .ok text ↔ Captured raw text := by
  rw [capture, bind_eq_ok_iff]
  constructor
  · rintro ⟨items, hitems, h⟩
    rw [iter_eq_ok_iff] at hitems
    obtain ⟨found, hfound, h⟩ := bind_eq_ok_iff.mp h
    cases found with
    | none => exact nomatch h
    | some start =>
      obtain ⟨rest, hslice, hjoin⟩ := bind_eq_ok_iff.mp h
      obtain ⟨before, s, after, rfl, hbefore, hs, rfl⟩ := firstBrace_eq_some_iff.mp hfound
      have hsliceable := sliceable_of_sliceFrom hslice
      obtain ⟨rest', hslice', helements⟩ := sliceFrom_of_sliceable rt hsliceable hitems
        (0 + before.length)
      obtain rfl := Except.ok.inj (hslice'.symm.trans hslice)
      obtain ⟨texts, htexts, htext⟩ := joinLines_eq_ok_iff.mp hjoin
      rw [htexts, Nat.zero_add, List.drop_left] at helements
      obtain ⟨lines, rfl⟩ := forall_isStr_iff.mp fun ln hln => (hbefore ln hln).imp fun _ => And.left
      refine ⟨hsliceable, lines, texts, ?_, fun ln hln => ?_, ?_, htext⟩
      · rw [hitems, List.map_append, ← Option.some.inj helements]
      · obtain ⟨t, ht, hbrace⟩ := hbefore _ (List.mem_map_of_mem hln)
        exact Value.str.inj ht ▸ hbrace
      · cases texts with
        | nil => exact nomatch Option.some.inj helements
        | cons t texts =>
          obtain ⟨ht, -⟩ := List.cons.inj (Option.some.inj helements)
          exact ⟨t, texts, rfl, Value.str.inj ht ▸ hs⟩
  · rintro ⟨hsliceable, before, _, hitems, hbefore, ⟨ln, rest, rfl, hln⟩, rfl⟩
    refine ⟨_, iter_eq_ok_iff.mpr hitems, bind_eq_ok_iff.mpr ⟨some before.length, ?_, ?_⟩⟩
    · refine firstBrace_eq_some_iff.mpr
        ⟨before.map .str, ln, rest.map .str, by simp, fun item hitem => ?_, hln, by simp⟩
      obtain ⟨t, ht, rfl⟩ := List.mem_map.mp hitem
      exact ⟨t, rfl, hbefore t ht⟩
    · obtain ⟨slice, hslice, helements⟩ := sliceFrom_of_sliceable rt hsliceable hitems
        before.length
      refine bind_eq_ok_iff.mpr ⟨slice, hslice, joinLines_eq_ok_iff.mpr ⟨ln :: rest, ?_, rfl⟩⟩
      rw [helements, ← List.map_drop, List.drop_left]

/-- What `json.loads` makes of a captured text, if it takes it, is an object. -/
def AnswerFit (rt : Runtime) (raw : Value) : Prop :=
  LinesFit rt raw ∧ ∀ text, Captured raw text →
    (∀ e, rt.loads text = .error e → Caught e) ∧
      ∀ answer, rt.loads text = .ok answer → ∃ members, answer = .dict members

/-- The captured output is an answer with data. -/
def Answers (rt : Runtime) (raw data : Value) : Prop :=
  ∃ text members, Captured raw text ∧ rt.loads text = .ok (.dict members) ∧
    member members "data" = some data

theorem handled_webapi_data {raw : Value} :
    Handled Caught (webapi_data rt raw) ↔ AnswerFit rt raw := by
  rw [webapi_data, handled_bind, handled_capture]
  simp only [capture_eq_ok_iff, handled_bind, handled_member]
  exact Iff.rfl

theorem webapi_data_eq_ok_iff {raw data : Value} :
    webapi_data rt raw = .ok data ↔ Answers rt raw data := by
  simp only [webapi_data, bind_eq_ok_iff, capture_eq_ok_iff, item_eq_ok_iff]
  constructor
  · rintro ⟨text, htext, _, hloads, members, rfl, hdata⟩
    exact ⟨text, members, htext, hloads, hdata⟩
  · rintro ⟨text, members, htext, hloads, hdata⟩
    exact ⟨text, htext, _, hloads, members, rfl, hdata⟩

end DriftReport
