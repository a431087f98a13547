/-
ACEs in a security descriptor, as `ace_present` finds them.

A descriptor names an owner and a group and has two lists of ACEs, which grant, deny or audit.  The
function looks at the text between one parenthesis and the next, and asks only whether the GUID
and the SID stand in it.

* `Ace`, `Descriptor`, `Descriptor.text` — a security descriptor, and its text;
* `Grants` — the DACL has an object-allow ACE with a GUID and a SID;
* `hit_text_iff` — where the function looks;
* `ace_present_exact_iff` — when it finds exactly what is granted.
-/
import KrgInfra.KrgAd
import KrgInfra.WordSearch
import Mathlib

namespace KrgAd

open WordSearch

/-! ### Security descriptors -/

/-- A field, an owner or a group: without punctuation. -/
def Plain (l : List Char) : Prop := '(' ∉ l ∧ ')' ∉ l ∧ ';' ∉ l ∧ '\n' ∉ l

instance (l : List Char) : Decidable (Plain l) := inferInstanceAs (Decidable (_ ∧ _))

/-- The parentheses of a text match, but for those in quotes. -/
def balanced (depth : ℕ) (quoted : Bool) : List Char → Bool
  | [] => depth = 0 && !quoted
  | c :: l =>
    if c = '"' then balanced depth (!quoted) l
    else if quoted then balanced depth quoted l
    else if c = '(' then balanced (depth + 1) quoted l
    else if c = ')' then decide (0 < depth) && balanced (depth - 1) quoted l
    else balanced depth quoted l

/-- An ACE: six fields, and for some types a condition or an attribute. -/
structure Ace where
  type : List Char
  flags : List Char
  rights : List Char
  object_guid : List Char
  inherit_object_guid : List Char
  sid : List Char
  condition : Option (List Char) := none
  plain : ∀ field ∈ [type, flags, rights, object_guid, inherit_object_guid, sid], Plain field := by
    decide
  nested : ∀ text ∈ condition, balanced 0 false text = true := by decide

def Ace.text (a : Ace) : List Char :=
  '(' :: (a.type ++ ';' :: (a.flags ++ ';' :: (a.rights ++ ';' :: (a.object_guid ++ ';' ::
    (a.inherit_object_guid ++ ';' :: (a.sid ++ (a.condition.elim [] fun text => ';' :: text) ++
      [')']))))))

/-- A list of ACEs, and its flags. -/
structure Acl where
  flags : List Char
  aces : List Ace
  letters : ∀ c ∈ flags, c.isAlpha = true ∨ c = '_' := by decide

/-- The text of a list of ACEs after its letter. -/
def Acl.text (letter : Char) (acl : Acl) : List Char :=
  letter :: ':' :: (acl.flags ++ acl.aces.flatMap Ace.text)

structure Descriptor where
  owner : Option (List Char)
  group : Option (List Char)
  dacl : Option Acl
  sacl : Option Acl
  plain : (∀ name ∈ owner, Plain name) ∧ ∀ name ∈ group, Plain name := by decide

/-- What stands before the lists. -/
def Descriptor.head (d : Descriptor) : List Char :=
  d.owner.elim [] (fun name => 'O' :: ':' :: name) ++
    d.group.elim [] fun name => 'G' :: ':' :: name

def Descriptor.text (d : Descriptor) : List Char :=
  d.head ++ (d.dacl.elim [] (Acl.text 'D') ++ d.sacl.elim [] (Acl.text 'S'))

/-- The ACEs of a list that may be absent. -/
def acesOf (acl : Option Acl) : List Ace := acl.elim [] Acl.aces

/-! ### What is asked for -/

/-- The text of a GUID. -/
def IsGuid (l : List Char) : Prop :=
  (l.splitOn '-').map List.length = [8, 4, 4, 4, 12] ∧
    ∀ c ∈ l, c = '-' ∨ c.isDigit = true ∨ c.toLower ∈ ['a', 'b', 'c', 'd', 'e', 'f']

/-- The text of a SID. -/
def IsSid (l : List Char) : Prop :=
  3 ≤ (l.splitOn '-').length ∧ ∀ c ∈ l, c = 'S' ∨ c = '-' ∨ c.isDigit = true

/-- What a trustee stands for: a SID stands for itself, and some letters for a SID. -/
structure Trustees where
  resolve : List Char → List Char
  resolve_sid {l : List Char} (h : IsSid l) : resolve l = l

/-- The DACL has an object-allow ACE with the GUID and the SID. -/
def Grants (T : Trustees) (d : Descriptor) (guid sid : List Char) : Prop :=
  ∃ a ∈ acesOf d.dacl, a.type = ['O', 'A'] ∧ lower a.object_guid = lower guid ∧
    lower (T.resolve a.sid) = lower sid

/-- It has one where the SID is written out. -/
def GrantsWritten (d : Descriptor) (guid sid : List Char) : Prop :=
  ∃ a ∈ acesOf d.dacl, a.type = ['O', 'A'] ∧ lower a.object_guid = lower guid ∧
    lower a.sid = lower sid

/-- A part of a text, from one parenthesis to the next or to the end of a line, has both. -/
def Hit (guid sid text : List Char) : Prop :=
  ∃ chunk ∈ chunks text, chunk.head? = some '(' ∧ lower guid <:+: lower chunk ∧
    lower sid <:+: lower chunk

/-! ### Characters in lower case -/

/-- A character that is no small letter is one in lower case only of itself. -/
theorem eq_of_toLower_eq {c d : Char} (h : c.toLower = d) (hd : d.isLower = false) : c = d := by
  rw [Char.toLower] at h
  split at h
  · rename_i hup
    have hval : (c.val.toNat + 32) % 2 ^ 32 = d.val.toNat := by
      have heq := congrArg (fun c : Char => c.val.toNat) h
      rwa [UInt32.toNat_add] at heq
    have hge : 65 ≤ c.val.toNat := hup.1
    have hle : c.val.toNat ≤ 90 := hup.2
    have hlow : d.isLower = true := by
      simp only [Char.isLower, ge_iff_le, UInt32.le_iff_toNat_le, Bool.and_eq_true,
        decide_eq_true_eq]
      have ha : 'a'.val.toNat = 97 := rfl
      have hz : 'z'.val.toNat = 122 := rfl
      omega
    rw [hlow] at hd
    cases hd
  · exact h

theorem mem_lower {c : Char} (hc : c.isLower = false) {l : List Char} (h : c ∈ lower l) : c ∈ l := by
  obtain ⟨d, hd, hlower⟩ := List.mem_map.mp h
  rwa [← eq_of_toLower_eq hlower hc]

theorem lower_append (l m : List Char) : lower (l ++ m) = lower l ++ lower m := List.map_append

/-- A word of a text that is looked for: it has a hyphen, and no punctuation. -/
structure Needle (l : List Char) : Prop where
  hyphen : '-' ∈ l
  plain : Plain l

theorem hyphen_of_splitOn {l : List Char} (h : 2 ≤ (l.splitOn '-').length) : '-' ∈ l := by
  by_contra hno
  rw [List.splitOn_eq_singleton hno, List.length_singleton] at h
  exact absurd h (by decide)

theorem needle_of_guid {l : List Char} (h : IsGuid l) : Needle l := by
  have hlength : (l.splitOn '-').length = 5 := by
    rw [← List.length_map List.length, h.1]
    rfl
  have hno : ∀ d : Char, ¬ (d = '-' ∨ d.isDigit = true ∨
      d.toLower ∈ ['a', 'b', 'c', 'd', 'e', 'f']) → d ∉ l := fun d hd hmem => hd (h.2 d hmem)
  exact ⟨hyphen_of_splitOn (by omega), hno _ (by decide), hno _ (by decide), hno _ (by decide),
    hno _ (by decide)⟩

theorem needle_of_sid {l : List Char} (h : IsSid l) : Needle l := by
  have hno : ∀ d : Char, ¬ (d = 'S' ∨ d = '-' ∨ d.isDigit = true) → d ∉ l :=
    fun d hd hmem => hd (h.2 d hmem)
  have hlength := h.1
  exact ⟨hyphen_of_splitOn (by omega), hno _ (by decide), hno _ (by decide), hno _ (by decide),
    hno _ (by decide)⟩

theorem Needle.ne_nil {l : List Char} (h : Needle l) : lower l ≠ [] :=
  List.ne_nil_of_mem (List.mem_map_of_mem h.hyphen)

theorem Needle.not_mem {l : List Char} (h : Needle l) :
    '(' ∉ lower l ∧ ')' ∉ lower l ∧ ';' ∉ lower l :=
  ⟨fun hm => h.plain.1 (mem_lower rfl hm), fun hm => h.plain.2.1 (mem_lower rfl hm),
    fun hm => h.plain.2.2.1 (mem_lower rfl hm)⟩

/-! ### Where the function looks -/

theorem breakAces_cons (l : List Char) : breakAces ('(' :: l) = '\n' :: '(' :: breakAces l := rfl

variable {guid sid : List Char}

theorem ace_present_iff {sddl guid sid : String} :
    ace_present sddl guid sid = true ↔ Hit guid.toList sid.toList sddl.toList := by
  unfold ace_present Hit
  rw [List.any_eq_true]
  refine exists_congr fun chunk => and_congr_right fun _ => ?_
  have hhead : ['('] <+: lower chunk ↔ chunk.head? = some '(' := by
    cases chunk with
    | nil => simp [lower]
    | cons c chunk =>
      show ['('] <+: c.toLower :: lower chunk ↔ some c = some '('
      rw [List.cons_prefix_cons, Option.some_inj]
      constructor
      · rintro ⟨h, -⟩
        exact eq_of_toLower h.symm
      · rintro rfl
        exact ⟨rfl, List.nil_prefix⟩
  rw [Bool.and_eq_true, Bool.and_eq_true, decide_eq_true_iff, decide_eq_true_iff,
    decide_eq_true_iff, hhead, and_assoc]

theorem not_hit_of_not_mem {l : List Char} (h : '(' ∉ l) : ¬ Hit guid sid l := by
  rintro ⟨chunk, hchunk, hhead, -⟩
  rw [chunks, breakAces_eq_self h] at hchunk
  obtain ⟨-, before, behind, rfl, -⟩ := mem_splitOn_iff.mp hchunk
  have hmem : '(' ∈ chunk := List.mem_of_mem_head? hhead
  exact h (List.mem_append_right _ (List.mem_append_left _ hmem))

/-- A parenthesis begins a new part. -/
theorem hit_append_open (l m : List Char) :
    Hit guid sid (l ++ '(' :: m) ↔ Hit guid sid l ∨ Hit guid sid ('(' :: m) := by
  have hchunks : ∀ l, chunks (l ++ '(' :: m) = chunks l ++ ('(' :: breakAces m).splitOn '\n' := by
    intro l
    rw [chunks, breakAces_append, breakAces_cons, List.splitOn_append_cons_self]
    rfl
  have hopen := hchunks []
  rw [List.nil_append] at hopen
  have hnil : ¬ Hit guid sid [] := not_hit_of_not_mem List.not_mem_nil
  unfold Hit at hnil ⊢
  rw [hchunks l, hopen]
  simp only [List.mem_append, or_and_right, exists_or, hnil, false_or]

theorem hit_plain_append {l : List Char} (hl : '(' ∉ l) (m : List Char) :
    Hit guid sid (l ++ m) ↔ Hit guid sid m := by
  by_cases hm : '(' ∈ m
  · obtain ⟨a, b, rfl, ha⟩ := List.eq_append_cons_of_mem hm
    have hla : '(' ∉ l ++ a := by
      rw [List.mem_append, not_or]
      exact ⟨hl, ha⟩
    rw [← List.append_assoc, hit_append_open, hit_append_open,
      or_iff_right (not_hit_of_not_mem hla), or_iff_right (not_hit_of_not_mem ha)]
  · have hlm : '(' ∉ l ++ m := by
      rw [List.mem_append, not_or]
      exact ⟨hl, hm⟩
    exact iff_of_false (not_hit_of_not_mem hlm) (not_hit_of_not_mem hm)

/-- The lines of a text, when something is put after the last of them. -/
theorem exists_last_line (l : List Char) : ∃ init last, ∀ m, '\n' ∉ m →
    (l ++ m).splitOn '\n' = init ++ [last ++ m] := by
  induction l with
  | nil => exact ⟨[], [], fun m hm => List.splitOn_eq_singleton hm⟩
  | cons c l ih =>
    obtain ⟨init, last, h⟩ := ih
    by_cases hc : c = '\n'
    · refine ⟨[] :: init, last, fun m hm => ?_⟩
      rw [List.cons_append, List.splitOn_cons_eq_if_modifyHead, if_pos (by simpa using hc), h m hm]
      rfl
    · cases init with
      | nil =>
        refine ⟨[], c :: last, fun m hm => ?_⟩
        rw [List.cons_append, List.splitOn_cons_eq_if_modifyHead, if_neg (by simpa using hc), h m hm]
        rfl
      | cons first init =>
        refine ⟨(c :: first) :: init, last, fun m hm => ?_⟩
        rw [List.cons_append, List.splitOn_cons_eq_if_modifyHead, if_neg (by simpa using hc), h m hm]
        rfl

/-- What stands behind a closing parenthesis, without hyphens, has no part of a word. -/
theorem infix_close {word : List Char} (hword : Needle word) {m : List Char} (hm : '-' ∉ m)
    (l : List Char) : lower word <:+: lower (l ++ ')' :: m) ↔ lower word <:+: lower l := by
  have hclose : lower (l ++ ')' :: m) = lower l ++ ')' :: lower m := lower_append l _
  have hnot : ¬ lower word <:+: lower m :=
    not_infix_of_mem (List.mem_map_of_mem hword.hyphen) fun h => hm (mem_lower rfl h)
  rw [hclose, infix_cut hword.ne_nil hword.not_mem.2.1, or_iff_left hnot]

/-- A text between lists of ACEs: the letter of the next one, and its flags. -/
structure Quiet (m : List Char) : Prop where
  paren : '(' ∉ m
  newline : '\n' ∉ m
  hyphen : '-' ∉ m

theorem hit_close (hguid : Needle guid) (hsid : Needle sid) {m : List Char} (hm : Quiet m)
    (l : List Char) : Hit guid sid (l ++ ')' :: m) ↔ Hit guid sid (l ++ [')']) := by
  obtain ⟨init, last, hlast⟩ := exists_last_line (breakAces l)
  have hchunks : ∀ m, Quiet m → chunks (l ++ ')' :: m) = init ++ [last ++ ')' :: m] := by
    intro m hm
    have hparen : '(' ∉ ')' :: m := by
      rw [List.mem_cons, not_or]
      exact ⟨by decide, hm.paren⟩
    have hnewline : '\n' ∉ ')' :: m := by
      rw [List.mem_cons, not_or]
      exact ⟨by decide, hm.newline⟩
    rw [chunks, breakAces_append, breakAces_eq_self hparen, hlast _ hnewline]
  have hnil : Quiet [] := ⟨List.not_mem_nil, List.not_mem_nil, List.not_mem_nil⟩
  have hhead : ∀ m, (last ++ ')' :: m).head? = (last ++ [')']).head? := by
    intro m
    cases last with
    | nil => rfl
    | cons c last => rfl
  unfold Hit
  rw [hchunks m hm, hchunks [] hnil]
  simp only [List.mem_append, List.mem_singleton, or_and_right, exists_or, exists_eq_left,
    infix_close hguid hm.hyphen, infix_close hsid hm.hyphen, infix_close hguid hnil.hyphen,
    infix_close hsid hnil.hyphen, hhead m]

/-- An ACE ends with a parenthesis. -/
theorem text_eq (a : Ace) : ∃ l, a.text = '(' :: l ++ [')'] := by
  refine ⟨a.type ++ ';' :: (a.flags ++ ';' :: (a.rights ++ ';' :: (a.object_guid ++ ';' ::
    (a.inherit_object_guid ++ ';' :: (a.sid ++ a.condition.elim [] fun text => ';' :: text))))), ?_⟩
  simp [Ace.text]

/-- A list of ACEs, and what stands behind it. -/
theorem hit_aces (hguid : Needle guid) (hsid : Needle sid) {m : List Char} (hm : Quiet m)
    {rest : List Char} (hrest : rest = [] ∨ ∃ l, rest = '(' :: l) (aces : List Ace) :
    Hit guid sid (aces.flatMap Ace.text ++ (m ++ rest)) ↔
      (∃ a ∈ aces, Hit guid sid a.text) ∨ Hit guid sid rest := by
  induction aces with
  | nil =>
    rw [List.flatMap_nil, List.nil_append, hit_plain_append hm.paren]
    exact (or_iff_right fun ⟨_, hnil, _⟩ => nomatch hnil).symm
  | cons a aces ih =>
    have hfirst : Hit guid sid (a.text ++ (aces.flatMap Ace.text ++ (m ++ rest))) ↔
        Hit guid sid a.text ∨ Hit guid sid (aces.flatMap Ace.text ++ (m ++ rest)) := by
      cases aces with
      | cons b aces =>
        obtain ⟨l, hl⟩ := text_eq b
        rw [List.flatMap_cons, hl]
        exact hit_append_open _ _
      | nil =>
        obtain ⟨l, hl⟩ := text_eq a
        have hclose : a.text ++ m = '(' :: l ++ ')' :: m := by
          rw [hl, List.append_assoc, List.singleton_append]
        rw [List.flatMap_nil, List.nil_append, hit_plain_append hm.paren, ← List.append_assoc, hclose]
        rcases hrest with rfl | ⟨r, rfl⟩
        · rw [List.append_nil, hit_close hguid hsid hm, ← hl,
            or_iff_left (not_hit_of_not_mem List.not_mem_nil)]
        · rw [hit_append_open, hit_close hguid hsid hm, ← hl]
    rw [List.flatMap_cons, List.append_assoc, hfirst, ih, List.exists_mem_cons_iff, or_assoc]

/-- What stands before the ACEs of a list. -/
def lead (letter : Char) (acl : Option Acl) : List Char :=
  acl.elim [] fun acl => letter :: ':' :: acl.flags

theorem elim_text (letter : Char) (acl : Option Acl) :
    acl.elim [] (Acl.text letter) = lead letter acl ++ (acesOf acl).flatMap Ace.text := by
  cases acl with
  | none => rfl
  | some acl => rfl

theorem quiet_lead {letter : Char} (hletter : letter.isAlpha = true) (acl : Option Acl) :
    Quiet (lead letter acl) := by
  have hno : ∀ d : Char, d.isAlpha = false ∧ d ≠ '_' ∧ d ≠ ':' → d ∉ lead letter acl := by
    rintro d ⟨halpha, hunderscore, hcolon⟩ hmem
    cases acl with
    | none => exact nomatch hmem
    | some acl =>
      rcases List.mem_cons.mp hmem with rfl | hmem
      · rw [hletter] at halpha
        exact nomatch halpha
      · rcases List.mem_cons.mp hmem with rfl | hmem
        · exact hcolon rfl
        · rcases acl.letters d hmem with hd | rfl
          · rw [hd] at halpha
            exact nomatch halpha
          · exact hunderscore rfl
  exact ⟨hno _ (by decide), hno _ (by decide), hno _ (by decide)⟩

theorem not_mem_head (d : Descriptor) : '(' ∉ d.head := by
  have hname : ∀ (letter : Char) (name : Option (List Char)), letter ≠ '(' →
      (∀ l ∈ name, Plain l) → '(' ∉ name.elim [] fun l => letter :: ':' :: l := by
    intro letter name hletter hplain
    cases name with
    | none => exact List.not_mem_nil
    | some l =>
      simp only [Option.elim, List.mem_cons, not_or]
      exact ⟨Ne.symm hletter, by decide, (hplain l rfl).1⟩
  rw [Descriptor.head, List.mem_append, not_or]
  exact ⟨hname 'O' d.owner (by decide) d.plain.1, hname 'G' d.group (by decide) d.plain.2⟩

/-- All the ACEs of a descriptor. -/
def Descriptor.aces (d : Descriptor) : List Ace := acesOf d.dacl ++ acesOf d.sacl

/-- **Where the function looks**: at each ACE of either list by itself. -/
theorem hit_text_iff (hguid : Needle guid) (hsid : Needle sid) (d : Descriptor) :
    Hit guid sid d.text ↔ ∃ a ∈ d.aces, Hit guid sid a.text := by
  have hnil : Quiet [] := ⟨List.not_mem_nil, List.not_mem_nil, List.not_mem_nil⟩
  have hlast : Hit guid sid ((acesOf d.sacl).flatMap Ace.text) ↔
      ∃ a ∈ acesOf d.sacl, Hit guid sid a.text := by
    have haces := hit_aces hguid hsid hnil (.inl rfl) (acesOf d.sacl)
    rwa [List.append_nil, List.append_nil,
      or_iff_left (not_hit_of_not_mem List.not_mem_nil)] at haces
  have hrest : (acesOf d.sacl).flatMap Ace.text = [] ∨
      ∃ l, (acesOf d.sacl).flatMap Ace.text = '(' :: l := by
    cases acesOf d.sacl with
    | nil => exact .inl rfl
    | cons a aces => exact .inr ⟨_, rfl⟩
  rw [Descriptor.text, elim_text, elim_text, hit_plain_append (not_mem_head d), List.append_assoc,
    hit_plain_append (quiet_lead rfl d.dacl).paren,
    hit_aces hguid hsid (quiet_lead rfl d.sacl) hrest, hlast, Descriptor.aces]
  simp only [List.mem_append, or_and_right, exists_or]

/-- An ACE with the GUID and the SID written out is one that the function finds. -/
theorem hit_of_written {a : Ace} (hguid : lower a.object_guid = lower guid)
    (hsid : lower a.sid = lower sid) : Hit guid sid a.text := by
  have hplain : ∀ field ∈ [a.type, a.flags, a.rights, a.object_guid, a.inherit_object_guid, a.sid],
      '(' ∉ field ∧ '\n' ∉ field := fun field hfield =>
    ⟨(a.plain field hfield).1, (a.plain field hfield).2.2.2⟩
  simp only [List.forall_mem_cons] at hplain
  obtain ⟨htype, hflags, hrights, hobject, hinherit, htrustee, -⟩ := hplain
  obtain ⟨fields, rest, htext, hfields, hg, hs⟩ : ∃ fields rest, a.text = '(' :: fields ++ rest ∧
      ('(' ∉ fields ∧ '\n' ∉ fields) ∧ a.object_guid <:+: fields ∧ a.sid <:+: fields := by
    refine ⟨a.type ++ ';' :: (a.flags ++ ';' :: (a.rights ++ ';' :: (a.object_guid ++ ';' ::
      (a.inherit_object_guid ++ ';' :: a.sid)))),
      (a.condition.elim [] fun text => ';' :: text) ++ [')'], by simp [Ace.text], ⟨?_, ?_⟩, ?_, ?_⟩
    · simp [htype.1, hflags.1, hrights.1, hobject.1, hinherit.1, htrustee.1]
    · simp [htype.2, hflags.2, hrights.2, hobject.2, hinherit.2, htrustee.2]
    · exact ⟨a.type ++ ';' :: (a.flags ++ ';' :: (a.rights ++ [';'])),
        ';' :: (a.inherit_object_guid ++ ';' :: a.sid), by simp⟩
    · exact ⟨a.type ++ ';' :: (a.flags ++ ';' :: (a.rights ++ ';' :: (a.object_guid ++ ';' ::
        (a.inherit_object_guid ++ [';'])))), [], by simp⟩
  have hnewline : '\n' ∉ '(' :: fields := by
    rw [List.mem_cons, not_or]
    exact ⟨by decide, hfields.2⟩
  obtain ⟨z, hz⟩ : ∃ z, '(' :: fields ++ z ∈
      (['\n'] ++ ('(' :: fields ++ breakAces rest)).splitOn '\n' :=
    exists_longer hnewline (.inr ⟨[], rfl⟩)
  refine ⟨'(' :: fields ++ z, ?_, rfl, ?_, ?_⟩
  · rw [chunks, htext, breakAces_append, breakAces_cons, breakAces_eq_self hfields.1]
    exact hz
  · have hin := (hg.trans (List.suffix_cons '(' fields).isInfix).trans (List.prefix_append _ z).isInfix
    exact hguid ▸ hin.map Char.toLower
  · have hin := (hs.trans (List.suffix_cons '(' fields).isInfix).trans (List.prefix_append _ z).isInfix
    exact hsid ▸ hin.map Char.toLower

/-! ### When it is exact -/

/-- The function finds exactly what is granted if and only if no ACE, of any type and in either
list, has the GUID and the SID in its text without their being granted, and what is granted is
granted to the SID as it is written, or found in another ACE. -/
theorem ace_present_exact_iff (T : Trustees) (d : Descriptor) (guid sid : String)
    (hguid : IsGuid guid.toList) (hsid : IsSid sid.toList) :
    (ace_present (String.ofList d.text) guid sid = true ↔ Grants T d guid.toList sid.toList) ↔
      (∀ a ∈ d.aces, Hit guid.toList sid.toList a.text → Grants T d guid.toList sid.toList) ∧
      (Grants T d guid.toList sid.toList →
        GrantsWritten d guid.toList sid.toList ∨
          ∃ a ∈ d.aces, Hit guid.toList sid.toList a.text) := by
  rw [ace_present_iff, String.toList_ofList, hit_text_iff (needle_of_guid hguid) (needle_of_sid hsid)]
  constructor
  · intro h
    exact ⟨fun a ha hhit => h.mp ⟨a, ha, hhit⟩, fun hgrants => .inr (h.mpr hgrants)⟩
  · rintro ⟨hfound, hgranted⟩
    constructor
    · rintro ⟨a, ha, hhit⟩
      exact hfound a ha hhit
    · intro hgrants
      rcases hgranted hgrants with ⟨a, ha, -, hobject, htrustee⟩ | hfound
      · exact ⟨a, List.mem_append_left _ ha, hit_of_written hobject htrustee⟩
      · exact hfound

/-- Trustees that stand for themselves. -/
def literal : Trustees := ⟨id, fun _ => rfl⟩

def resetPassword : String := "00299570-246d-11d0-a768-00aa006e0529"

/-- A right that is granted to account 1104. -/
def grant : Ace where
  type := ['O', 'A']
  flags := ['C', 'I']
  rights := ['C', 'R']
  object_guid := resetPassword.toList
  inherit_object_guid := []
  sid := "S-1-5-21-1-2-3-1104".toList

def granted : Descriptor where
  owner := some ['D', 'A']
  group := none
  dacl := some ⟨[], [grant], by decide⟩
  sacl := none

theorem isGuid_resetPassword : IsGuid resetPassword.toList := by
  constructor
  · decide +kernel
  · decide +kernel

/-- Account 110 is taken to have it. -/
theorem prefix_sid_found :
    ¬ (ace_present (String.ofList granted.text) resetPassword "S-1-5-21-1-2-3-110" = true ↔
      Grants literal granted resetPassword.toList "S-1-5-21-1-2-3-110".toList) := by
  have hfound : Hit resetPassword.toList "S-1-5-21-1-2-3-110".toList granted.text := by
    unfold Hit
    decide +kernel
  rw [ace_present_iff, String.toList_ofList]
  intro h
  obtain ⟨a, ha, -, -, hsid⟩ := h.mp hfound
  rw [List.mem_singleton.mp ha] at hsid
  exact absurd hsid (by decide +kernel)

/-- For the account that has it the function is exact. -/
theorem ace_present_exact_iff_granted :
    (ace_present (String.ofList granted.text) resetPassword "S-1-5-21-1-2-3-1104" = true ↔
      Grants literal granted resetPassword.toList "S-1-5-21-1-2-3-1104".toList) :=
  (ace_present_exact_iff literal granted resetPassword "S-1-5-21-1-2-3-1104" isGuid_resetPassword
    ⟨by decide +kernel, by decide +kernel⟩).mpr
    ⟨fun _ _ _ => ⟨grant, List.mem_singleton.mpr rfl, rfl, rfl, rfl⟩,
      fun _ => .inl ⟨grant, List.mem_singleton.mpr rfl, rfl, rfl, rfl⟩⟩

end KrgAd
