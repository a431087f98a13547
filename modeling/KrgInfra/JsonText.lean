/-
JSON texts, read character by character.

A decoder is a machine with a stack: a frame for each array or object that is open.  What it
makes of the text of a string, of a number and of a constant is left to `Scalars`.  The lemmas
say what a change of the text does to what is read: other ends of lines change nothing, and a
text that is read at the beginning is read in the same way inside of an array or object.

* `State`, `step`, `run`, `loads` — the machine;
* `loads_concat_newline`, `run_universal` — ends of lines;
* `run_bracket` — no line of a document begins with a bracket and a letter;
* `Under`, `run_under` — a machine on top of other frames;
* `loads_open` — a document does not close what an earlier text opened.
-/
import KrgInfra.Json
import KrgInfra.Python
import Mathlib

/-- What a decoder makes of the text between the quotes of a string, and of that of a number or a
constant. -/
structure Scalars where
  str : List Char → Option String
  atom : List Char → Option Json

namespace JsonText

open Python

/-- An array or an object that is not closed, with the key whose value comes. -/
inductive Frame where
  | arr (items : List Json)
  | obj (members : Members) (key : String)

/-- What may come; the text of a string, of an escape in it, or of a number or a constant is what
is read of it. -/
inductive Mode where
  | value
  | first
  | firstKey
  | key
  | colon
  | next
  | done (value : Json)
  | str (isKey : Bool) (text : List Char)
  | esc (isKey : Bool) (text : List Char)
  | atom (text : List Char)

/-- The innermost frame comes first. -/
structure State where
  stack : List Frame
  mode : Mode

def isWs (c : Char) : Bool := c = ' ' || c = '\t' || c = '\n' || c = '\r'

/-- `null`, `true`, `false`, `NaN`, `Infinity` and numbers begin with one of these. -/
def startsAtom (c : Char) : Bool :=
  c.isDigit || c = '-' || c = 'n' || c = 't' || c = 'f' || c = 'N' || c = 'I'

def inAtom (c : Char) : Bool := c.isAlphanum || c = '+' || c = '-' || c = '.'

def escapes (c : Char) : Bool := c ∈ ['"', '\\', '/', 'b', 'f', 'n', 'r', 't', 'u']

/-- A value is complete. -/
def place (v : Json) : List Frame → State
  | [] => ⟨[], .done v⟩
  | .arr items :: stack => ⟨.arr (items ++ [v]) :: stack, .next⟩
  | .obj members key :: stack => ⟨.obj (members ++ [(key, v)]) key :: stack, .next⟩

/-- A bracket closes the innermost frame. -/
def closeFrame (c : Char) : List Frame → Option State
  | .arr items :: stack => if c = ']' then some (place (.arr items) stack) else none
  | .obj members _ :: stack => if c = '}' then some (place (.obj (dictOf members)) stack) else none
  | [] => none

/-- A value begins. -/
def openValue (stack : List Frame) (c : Char) : Option State :=
  if c = '{' then some ⟨.obj [] "" :: stack, .firstKey⟩
  else if c = '[' then some ⟨.arr [] :: stack, .first⟩
  else if c = '"' then some ⟨stack, .str false []⟩
  else if startsAtom c then some ⟨stack, .atom [c]⟩
  else none

/-- After a comma. -/
def more : List Frame → Option State
  | .arr items :: stack => some ⟨.arr items :: stack, .value⟩
  | .obj members key :: stack => some ⟨.obj members key :: stack, .key⟩
  | [] => none

/-- White space between two tokens. -/
def skipOr (s : State) (c : Char) (next : Option State) : Option State :=
  if isWs c then some s else next

/-- After a value. -/
def afterValue (s : State) (c : Char) : Option State :=
  skipOr s c (if c = ',' then more s.stack else closeFrame c s.stack)

/-- After a string. -/
def endString (isKey : Bool) (text : String) (stack : List Frame) : Option State :=
  if isKey then
    match stack with
    | .obj members _ :: stack => some ⟨.obj members text :: stack, .colon⟩
    | _ => none
  else some (place (.str text) stack)

/-- One character. -/
def step (k : Scalars) : State → Char → Option State
  | ⟨stack, .value⟩, c => skipOr ⟨stack, .value⟩ c (openValue stack c)
  | ⟨stack, .first⟩, c =>
    skipOr ⟨stack, .first⟩ c (if c = ']' then closeFrame c stack else openValue stack c)
  | ⟨stack, .firstKey⟩, c =>
    skipOr ⟨stack, .firstKey⟩ c
      (if c = '}' then closeFrame c stack
      else if c = '"' then some ⟨stack, .str true []⟩ else none)
  | ⟨stack, .key⟩, c =>
    skipOr ⟨stack, .key⟩ c (if c = '"' then some ⟨stack, .str true []⟩ else none)
  | ⟨stack, .colon⟩, c => skipOr ⟨stack, .colon⟩ c (if c = ':' then some ⟨stack, .value⟩ else none)
  | ⟨stack, .next⟩, c => afterValue ⟨stack, .next⟩ c
  | ⟨stack, .done v⟩, c => afterValue ⟨stack, .done v⟩ c
  | ⟨stack, .str isKey text⟩, c =>
    if c = '"' then (k.str text).bind fun text => endString isKey text stack
    else if c = '\\' then some ⟨stack, .esc isKey (text ++ [c])⟩
    else if c.toNat < 32 then none
    else some ⟨stack, .str isKey (text ++ [c])⟩
  | ⟨stack, .esc isKey text⟩, c =>
    if escapes c then some ⟨stack, .str isKey (text ++ [c])⟩ else none
  | ⟨stack, .atom text⟩, c =>
    if inAtom c then some ⟨stack, .atom (text ++ [c])⟩
    else (k.atom text).bind fun v => afterValue (place v stack) c

def run (k : Scalars) (s : State) : List Char → Option State
  | [] => some s
  | c :: l => (step k s c).bind fun t => run k t l

/-- What has been read where the text ends. -/
def finish (k : Scalars) (s : State) : Option Json :=
  match s.mode with
  | .done v => some v
  | .atom text => if s.stack.isEmpty then k.atom text else none
  | _ => none

/-- Where a document begins. -/
def start : State := ⟨[], .value⟩

/-- `json.loads`; `none` where it raises. -/
def loads (k : Scalars) (l : List Char) : Option Json := (run k start l).bind (finish k)

theorem run_append (k : Scalars) (l m : List Char) :
    ∀ s, run k s (l ++ m) = (run k s l).bind fun t => run k t m := by
  induction l with
  | nil => exact fun _ => rfl
  | cons c l ih =>
    intro s
    rw [List.cons_append, run, run, Option.bind_assoc]
    exact congrArg _ (funext fun t => ih t)

/-- What is read to the end is read up to any point. -/
theorem run_of_append {k : Scalars} {l m : List Char} {s t : State}
    (h : run k s (l ++ m) = some t) : ∃ r, run k s l = some r ∧ run k r m = some t := by
  rw [run_append] at h
  exact Option.bind_eq_some_iff.mp h

theorem run_cons_iff {k : Scalars} {c : Char} {l : List Char} {s t : State} :
    run k s (c :: l) = some t ↔ ∃ r, step k s c = some r ∧ run k r l = some t :=
  Option.bind_eq_some_iff

/-! ### Between the tokens -/

/-- A state between two tokens. -/
def Between (s : State) : Prop :=
  match s.mode with
  | .str .. => False
  | .esc .. => False
  | .atom _ => False
  | _ => True

theorem between_start : Between start := trivial

theorem between_place (v : Json) (stack : List Frame) : Between (place v stack) := by
  cases stack with
  | nil => trivial
  | cons f stack => cases f <;> trivial

/-- White space between two tokens is passed over. -/
theorem step_ws {k : Scalars} {s : State} {c : Char} (hs : Between s) (hc : isWs c = true) :
    step k s c = some s := by
  obtain ⟨stack, mode⟩ := s
  cases mode with
  | str => exact hs.elim
  | esc => exact hs.elim
  | atom => exact hs.elim
  | next => exact if_pos hc
  | done => exact if_pos hc
  | value => exact if_pos hc
  | first => exact if_pos hc
  | firstKey => exact if_pos hc
  | key => exact if_pos hc
  | colon => exact if_pos hc

/-- After a newline no token is open. -/
theorem between_of_newline {k : Scalars} {s t : State} (h : step k s '\n' = some t) :
    Between t := by
  by_cases hs : Between s
  · rw [step_ws hs (by decide)] at h
    exact Option.some.inj h ▸ hs
  · obtain ⟨stack, mode⟩ := s
    cases mode with
    | str isKey text => exact nomatch h
    | esc isKey text => exact nomatch h
    | atom text =>
      obtain ⟨v, -, hv⟩ := Option.bind_eq_some_iff.mp h
      exact Option.some.inj hv ▸ between_place v stack
    | _ => exact (hs trivial).elim

/-- A carriage return is read as a newline. -/
theorem step_cr (k : Scalars) (s : State) : step k s '\r' = step k s '\n' := by
  by_cases hs : Between s
  · rw [step_ws hs (by decide), step_ws hs (by decide)]
  · obtain ⟨stack, mode⟩ := s
    cases mode with
    | str isKey text => rfl
    | esc isKey text => rfl
    | atom text => rfl
    | _ => exact (hs trivial).elim

/-- A newline at the end changes nothing. -/
theorem finish_newline (k : Scalars) (s : State) :
    (step k s '\n').bind (finish k) = finish k s := by
  by_cases hs : Between s
  · rw [step_ws hs (by decide)]
    rfl
  · obtain ⟨stack, mode⟩ := s
    cases mode with
    | str isKey text => rfl
    | esc isKey text => rfl
    | atom text =>
      show ((k.atom text).bind fun v => some (place v stack)).bind (finish k) = _
      cases stack with
      | nil =>
        show _ = k.atom text
        cases k.atom text with
        | none => rfl
        | some v => rfl
      | cons f stack =>
        show _ = none
        cases k.atom text with
        | none => rfl
        | some v => cases f <;> rfl
    | _ => exact (hs trivial).elim

theorem loads_concat_newline (k : Scalars) (l : List Char) :
    loads k (l ++ ['\n']) = loads k l := by
  rw [loads, run_append, Option.bind_assoc]
  refine congrArg _ (funext fun s => ?_)
  rw [← finish_newline]
  show ((step k s '\n').bind some).bind _ = _
  rw [Option.bind_fun_some]

/-- With newlines for other ends of lines a text is read as it is. -/
theorem run_universal {k : Scalars} {t : State} :
    ∀ (l : List Char) (s : State) (afterCr : Bool), (afterCr = true → Between s) →
      run k s l = some t → run k s (universal afterCr l) = some t := by
  intro l
  induction l with
  | nil => exact fun _ _ _ h => h
  | cons c l ih =>
    intro s afterCr hs h
    obtain ⟨r, hr, hrun⟩ := run_cons_iff.mp h
    rw [universal]
    split_ifs with hcr hnewline
    · rw [hcr, step_cr] at hr
      exact run_cons_iff.mpr ⟨r, hr, ih r true (fun _ => between_of_newline hr) hrun⟩
    · -- the newline after a carriage return
      rw [hnewline.2, step_ws (hs hnewline.1) (by decide)] at hr
      obtain rfl := Option.some.inj hr
      exact ih s false (fun h => Bool.noConfusion h) hrun
    · exact run_cons_iff.mpr ⟨r, hr, ih r false (fun h => Bool.noConfusion h) hrun⟩

/-! ### Characters that no document has there -/

/-- A bracket at the beginning of a line opens an array, whose first character then is `c`. -/
theorem run_bracket {k : Scalars} {s : State} (hs : Between s) {c : Char} (hws : isWs c = false)
    (hclose : c ≠ ']') (hopen : ∀ stack, openValue stack c = none) (l : List Char) :
    run k s ('[' :: c :: l) = none := by
  have hfirst : ∀ stack, step k ⟨stack, .first⟩ c = none := by
    intro stack
    rw [step, skipOr, hws, if_neg (by simp), if_neg hclose, hopen]
  have harray : ∀ stack : List Frame,
      ((some ⟨.arr [] :: stack, .first⟩ : Option State).bind fun t => run k t (c :: l)) = none := by
    intro stack
    show (step k _ c).bind _ = none
    rw [hfirst]
    rfl
  obtain ⟨stack, mode⟩ := s
  cases mode with
  | str => exact hs.elim
  | esc => exact hs.elim
  | atom => exact hs.elim
  | value => exact harray stack
  | first => exact harray stack
  | firstKey => rfl
  | key => rfl
  | colon => rfl
  | next =>
    cases stack with
    | nil => rfl
    | cons f stack => cases f <;> rfl
  | done v =>
    cases stack with
    | nil => rfl
    | cons f stack => cases f <;> rfl

/-- A character that is no white space and begins no token. -/
structure Foreign (c : Char) : Prop where
  ws : isWs c = false
  atom : inAtom c = false
  starts : startsAtom c = false
  escapes : escapes c = false
  punctuation : c ∉ ['{', '}', '[', ']', ',', ':', '"', '\\']

theorem closeFrame_foreign {c : Char} (h : Foreign c) (stack : List Frame) :
    closeFrame c stack = none := by
  have hp := h.punctuation
  simp only [List.mem_cons, List.not_mem_nil, or_false, not_or] at hp
  obtain ⟨_, hobj, _, harr, _⟩ := hp
  cases stack with
  | nil => rfl
  | cons f stack =>
    cases f with
    | arr items => exact if_neg harr
    | obj members key => exact if_neg hobj

theorem afterValue_foreign {c : Char} (h : Foreign c) (s : State) : afterValue s c = none := by
  have hp := h.punctuation
  simp only [List.mem_cons, List.not_mem_nil, or_false, not_or] at hp
  rw [afterValue, skipOr, h.ws, if_neg (by simp), if_neg hp.2.2.2.2.1, closeFrame_foreign h]

theorem openValue_foreign {c : Char} (h : Foreign c) (stack : List Frame) :
    openValue stack c = none := by
  have hp := h.punctuation
  simp only [List.mem_cons, List.not_mem_nil, or_false, not_or] at hp
  rw [openValue, if_neg hp.1, if_neg hp.2.2.1, if_neg hp.2.2.2.2.2.2.1, h.starts, if_neg (by simp)]

/-- It stands in a string, if it is no control character. -/
theorem step_foreign {k : Scalars} {s t : State} {c : Char} (hc : Foreign c)
    (h : step k s c = some t) : (∃ isKey text, s.mode = .str isKey text) ∧ 32 ≤ c.toNat := by
  have hp := hc.punctuation
  simp only [List.mem_cons, List.not_mem_nil, or_false, not_or] at hp
  obtain ⟨hbrace, hclose, hbracket, hend, hcomma, hcolon, hquote, hback⟩ := hp
  obtain ⟨stack, mode⟩ := s
  cases mode with
  | str isKey text =>
    refine ⟨⟨isKey, text, rfl⟩, ?_⟩
    by_contra hlt
    rw [step, if_neg hquote, if_neg hback, if_pos (by omega)] at h
    exact nomatch h
  | esc isKey text =>
    rw [step, hc.escapes, if_neg (by simp)] at h
    exact nomatch h
  | atom text =>
    rw [step, hc.atom, if_neg (by simp)] at h
    obtain ⟨v, -, hv⟩ := Option.bind_eq_some_iff.mp h
    rw [afterValue_foreign hc] at hv
    exact nomatch hv
  | next =>
    rw [step, afterValue_foreign hc] at h
    exact nomatch h
  | done v =>
    rw [step, afterValue_foreign hc] at h
    exact nomatch h
  | value =>
    rw [step, skipOr, hc.ws, if_neg (by simp), openValue_foreign hc] at h
    exact nomatch h
  | first =>
    rw [step, skipOr, hc.ws, if_neg (by simp), if_neg hend, openValue_foreign hc] at h
    exact nomatch h
  | firstKey =>
    rw [step, skipOr, hc.ws, if_neg (by simp), if_neg hclose, if_neg hquote] at h
    exact nomatch h
  | key =>
    rw [step, skipOr, hc.ws, if_neg (by simp), if_neg hquote] at h
    exact nomatch h
  | colon =>
    rw [step, skipOr, hc.ws, if_neg (by simp), if_neg hcolon] at h
    exact nomatch h

/-- In a string there is no newline. -/
theorem step_newline_str (k : Scalars) (stack : List Frame) (isKey : Bool) (text : List Char) :
    step k ⟨stack, .str isKey text⟩ '\n' = none := rfl

/-! ### A machine on top of other frames -/

/-- The state `s'` is the state `s` on top of the frames `under`: when `s` is done, its value has
been put into the first of these. -/
inductive Under (under : List Frame) : State → State → Prop where
  | open (f : Frame) (stack : List Frame) (mode : Mode) (h : ∀ v, mode ≠ .done v) :
    Under under ⟨f :: stack, mode⟩ ⟨f :: stack ++ under, mode⟩
  | done (v : Json) : Under under ⟨[], .done v⟩ (place v under)

variable {under : List Frame}

theorem under_place (v : Json) (stack : List Frame) :
    Under under (place v stack) (place v (stack ++ under)) := by
  cases stack with
  | nil => exact .done v
  | cons f stack =>
    cases f with
    | arr items => exact .open _ stack .next fun _ h => nomatch h
    | obj members key => exact .open _ stack .next fun _ h => nomatch h

/-- What `s` does, `s'` does as well. -/
def Follows (under : List Frame) (r r' : Option State) : Prop :=
  ∀ t, r = some t → ∃ t', r' = some t' ∧ Under under t t'

theorem follows_none (r' : Option State) : Follows under none r' := fun _ h => nomatch h

theorem follows_some {t t' : State} (h : Under under t t') :
    Follows under (some t) (some t') := by
  intro r hr
  exact ⟨t', rfl, Option.some.inj hr ▸ h⟩

theorem follows_ite {p : Prop} [Decidable p] {a b a' b' : Option State}
    (ha : Follows under a a') (hb : Follows under b b') :
    Follows under (if p then a else b) (if p then a' else b') := by
  split_ifs
  · exact ha
  · exact hb

theorem follows_bind {α : Type} {x : Option α} {f f' : α → Option State}
    (h : ∀ a, Follows under (f a) (f' a)) : Follows under (x.bind f) (x.bind f') := by
  cases x with
  | none => exact follows_none _
  | some a => exact h a

theorem follows_closeFrame (c : Char) (f : Frame) (stack : List Frame) :
    Follows under (closeFrame c (f :: stack)) (closeFrame c (f :: stack ++ under)) := by
  cases f with
  | arr items => exact follows_ite (follows_some (under_place _ stack)) (follows_none _)
  | obj members key => exact follows_ite (follows_some (under_place _ stack)) (follows_none _)

theorem follows_openValue (c : Char) (f : Frame) (stack : List Frame) :
    Follows under (openValue (f :: stack) c) (openValue (f :: stack ++ under) c) := by
  refine follows_ite (follows_some (.open _ (f :: stack) _ fun _ h => nomatch h)) ?_
  refine follows_ite (follows_some (.open _ (f :: stack) _ fun _ h => nomatch h)) ?_
  refine follows_ite (follows_some (.open _ stack _ fun _ h => nomatch h)) ?_
  exact follows_ite (follows_some (.open _ stack _ fun _ h => nomatch h)) (follows_none _)

theorem follows_endString (isKey : Bool) (text : String) (f : Frame) (stack : List Frame) :
    Follows under (endString isKey text (f :: stack))
      (endString isKey text (f :: stack ++ under)) := by
  cases isKey with
  | false => exact follows_some (under_place _ (f :: stack))
  | true =>
    cases f with
    | arr items => exact follows_none _
    | obj members key => exact follows_some (.open _ stack _ fun _ h => nomatch h)

theorem follows_afterValue {s s' : State} (h : Under under s s') (c : Char) :
    Follows under (afterValue s c) (afterValue s' c) := by
  refine follows_ite (follows_some h) ?_
  cases h with
  | done v => exact follows_ite (follows_none _) (follows_none _)
  | «open» f stack mode hmode =>
    refine follows_ite ?_ (follows_closeFrame c f stack)
    cases f with
    | arr items => exact follows_some (.open _ stack _ fun _ h => nomatch h)
    | obj members key => exact follows_some (.open _ stack _ fun _ h => nomatch h)

/-- One character, on top of other frames. -/
theorem follows_step (k : Scalars) {s s' : State} (h : Under under s s') (c : Char) :
    Follows under (step k s c) (step k s' c) := by
  cases h with
  | done v =>
    -- only white space may follow
    intro t ht
    by_cases hc : isWs c = true
    · have hdone : Between ⟨[], .done v⟩ := trivial
      rw [step_ws hdone hc] at ht
      exact ⟨_, step_ws (between_place v under) hc, Option.some.inj ht ▸ .done v⟩
    · have hnone : step k ⟨[], .done v⟩ c = none := by
        show afterValue _ c = none
        rw [afterValue, skipOr, if_neg hc]
        exact ite_self _
      rw [hnone] at ht
      exact nomatch ht
  | «open» f stack mode hmode =>
    have hopen : ∀ mode : Mode, (∀ v, mode ≠ .done v) →
        Under under ⟨f :: stack, mode⟩ ⟨f :: stack ++ under, mode⟩ :=
      fun mode h => .open f stack mode h
    cases mode with
    | done v => exact absurd rfl (hmode v)
    | value => exact follows_ite (follows_some (hopen _ hmode)) (follows_openValue c f stack)
    | first =>
      exact follows_ite (follows_some (hopen _ hmode))
        (follows_ite (follows_closeFrame c f stack) (follows_openValue c f stack))
    | firstKey =>
      refine follows_ite (follows_some (hopen _ hmode))
        (follows_ite (follows_closeFrame c f stack) (follows_ite ?_ (follows_none _)))
      exact follows_some (hopen _ fun _ h => nomatch h)
    | key =>
      refine follows_ite (follows_some (hopen _ hmode)) (follows_ite ?_ (follows_none _))
      exact follows_some (hopen _ fun _ h => nomatch h)
    | colon =>
      refine follows_ite (follows_some (hopen _ hmode)) (follows_ite ?_ (follows_none _))
      exact follows_some (hopen _ fun _ h => nomatch h)
    | next => exact follows_afterValue (hopen _ hmode) c
    | str isKey text =>
      refine follows_ite (follows_bind fun text => follows_endString isKey text f stack) ?_
      refine follows_ite (follows_some (hopen _ fun _ h => nomatch h)) ?_
      exact follows_ite (follows_none _) (follows_some (hopen _ fun _ h => nomatch h))
    | esc isKey text =>
      exact follows_ite (follows_some (hopen _ fun _ h => nomatch h)) (follows_none _)
    | atom text =>
      refine follows_ite (follows_some (hopen _ fun _ h => nomatch h)) (follows_bind fun v => ?_)
      exact follows_afterValue (under_place v (f :: stack)) c

/-- A text, on top of other frames. -/
theorem run_under (k : Scalars) (l : List Char) :
    ∀ {s s' : State}, Under under s s' → Follows under (run k s l) (run k s' l) := by
  induction l with
  | nil => exact fun h => follows_some h
  | cons c l ih =>
    intro s s' h t ht
    obtain ⟨r, hr, hrun⟩ := run_cons_iff.mp ht
    obtain ⟨r', hr', hunder⟩ := follows_step k h c r hr
    obtain ⟨t', ht', hunder'⟩ := ih hunder t hrun
    exact ⟨t', run_cons_iff.mpr ⟨r', hr', ht'⟩, hunder'⟩

/-- Within an array or object, or at the end of the document. -/
def Inside (s : State) : Prop := Under [] s s

theorem inside_open (f : Frame) (stack : List Frame) {mode : Mode} (h : ∀ v, mode ≠ .done v) :
    Inside ⟨f :: stack, mode⟩ := by
  have hunder : Under [] ⟨f :: stack, mode⟩ ⟨f :: stack ++ [], mode⟩ := .open f stack mode h
  rwa [List.append_nil] at hunder

theorem inside_run {k : Scalars} {l : List Char} {s t : State} (hs : Inside s)
    (h : run k s l = some t) : Inside t := by
  obtain ⟨t', ht', hunder⟩ := run_under k l hs t h
  obtain rfl := Option.some.inj (h.symm.trans ht')
  exact hunder

theorem Under.cases_on {s s' : State} (h : Under under s s') :
    (∃ f stack mode, s = ⟨f :: stack, mode⟩ ∧ ∀ v, mode ≠ .done v) ∨ ∃ v, s = ⟨[], .done v⟩ := by
  cases h with
  | done v => exact .inr ⟨v, rfl⟩
  | «open» f stack mode hmode => exact .inl ⟨f, stack, mode, rfl, hmode⟩

/-- The end of a document that began with a bracket. -/
theorem done_of_finish {k : Scalars} {s : State} (hs : Inside s) {v : Json}
    (h : finish k s = some v) : s = ⟨[], .done v⟩ := by
  obtain ⟨f, stack, mode, rfl, hmode⟩ | ⟨w, rfl⟩ := hs.cases_on
  · cases mode with
    | done w => exact absurd rfl (hmode w)
    | _ => exact nomatch h
  · rw [Option.some.inj h]

/-- An object begins where a value may come. -/
theorem step_brace {k : Scalars} {s t : State} (hs : Inside s) (hb : Between s)
    (h : step k s '{' = some t) :
    ∃ f stack, t = ⟨.obj [] "" :: f :: stack, .firstKey⟩ := by
  obtain ⟨f, stack, mode, rfl, hmode⟩ | ⟨v, rfl⟩ := hs.cases_on
  · cases mode with
    | value => exact ⟨f, stack, (Option.some.inj h).symm⟩
    | first => exact ⟨f, stack, (Option.some.inj h).symm⟩
    | done v => exact absurd rfl (hmode v)
    | next => cases f <;> exact nomatch h
    | str => exact hb.elim
    | esc => exact hb.elim
    | atom => exact hb.elim
    | _ => exact nomatch h
  · exact nomatch h

/-- After text that begins with a brace and ends with a newline no object is read: it does not
close what that text opened. -/
theorem loads_open {k : Scalars} {before text : List Char} {v : Json}
    (h : loads k ('{' :: text) = some v) :
    loads k ('{' :: before ++ '\n' :: '{' :: text) = none := by
  by_contra hsome
  obtain ⟨w, hw⟩ := Option.ne_none_iff_exists'.mp hsome
  obtain ⟨t, hrun, hfinish⟩ := Option.bind_eq_some_iff.mp hw
  obtain ⟨t₀, hrun₀, hfinish₀⟩ := Option.bind_eq_some_iff.mp h
  have hinside : Inside ⟨[.obj [] ""], .firstKey⟩ := inside_open _ [] fun _ h => nomatch h
  have hbrace : ∀ l, run k start ('{' :: l) = run k ⟨[.obj [] ""], .firstKey⟩ l := fun _ => rfl
  rw [List.cons_append, hbrace] at hrun
  rw [hbrace] at hrun₀
  obtain ⟨s, hbefore, hafter⟩ := run_of_append hrun
  obtain ⟨s', hnewline, hafter'⟩ := run_cons_iff.mp hafter
  obtain ⟨s'', hopen, htext⟩ := run_cons_iff.mp hafter'
  have hs' : Inside s' := by
    have hline : run k s ['\n'] = some s' := run_cons_iff.mpr ⟨s', hnewline, rfl⟩
    exact inside_run (inside_run hinside hbefore) hline
  obtain ⟨f, stack, rfl⟩ := step_brace hs' (between_of_newline hnewline) hopen
  -- the object is read on top of the frames that are open
  have hunder : Under (f :: stack) ⟨[.obj [] ""], .firstKey⟩
      ⟨.obj [] "" :: f :: stack, .firstKey⟩ := .open _ [] _ fun _ h => nomatch h
  obtain ⟨t', ht', hend⟩ := run_under k text hunder t₀ hrun₀
  obtain rfl := Option.some.inj (htext.symm.trans ht')
  rw [done_of_finish (inside_run hinside hrun₀) hfinish₀] at hend
  have hplaced : t = place v (f :: stack) := by
    generalize hdone : (⟨[], .done v⟩ : State) = s₀ at hend
    cases hend with
    | done w =>
      obtain rfl := Mode.done.inj (State.mk.inj hdone).2
      rfl
    | «open» => exact nomatch (State.mk.inj hdone).1
  rw [hplaced] at hfinish
  cases f <;> exact nomatch hfinish

end JsonText
