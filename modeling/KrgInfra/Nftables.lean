/-
Rules of a packet filter, as nftables reads them.

A rule accepts the packets of one protocol and port whose source is in an anonymous set.  The set of
a rule is of one address family.

* `Rule`, `Rule.line` — a rule, and how it is written;
* `readRules` — a text of rules, one on each line;
* `readRule_line` — a rule whose set is written of plain elements is read back.
-/
import KrgInfra.DecimalText

namespace Nftables

inductive Address where
  | v4 (a : BitVec 32)
  | v6 (a : BitVec 128)

inductive Family where
  | v4
  | v6
  deriving DecidableEq

def Address.family : Address → Family
  | .v4 _ => .v4
  | .v6 _ => .v6

inductive Proto where
  | tcp
  | udp
  deriving DecidableEq

/-- `elements` are the sources that a rule accepts. -/
structure Rule where
  family : Family
  elements : List String
  proto : Proto
  port : ℕ

/-! ### Texts -/

def Family.word : Family → List Char
  | .v4 => "ip".toList
  | .v6 => "ip6".toList

def Proto.word : Proto → List Char
  | .tcp => "tcp".toList
  | .udp => "udp".toList

def readFamily (word : List Char) : Option Family :=
  if word = Family.v4.word then some .v4 else if word = Family.v6.word then some .v6 else none

def readProto (word : List Char) : Option Proto :=
  if word = Proto.tcp.word then some .tcp else if word = Proto.udp.word then some .udp else none

/-- The elements of a set: a comma ends each but the last. -/
def elementWords : List String → List (List Char)
  | [] => []
  | [e] => [e.toList]
  | e :: e' :: es => (e.toList ++ [',']) :: elementWords (e' :: es)

def readElement (word : List Char) : Option String :=
  if word = [] then none else some (String.ofList word)

def readElements : List (List Char) → Option (List String)
  | [] => none
  | [word] => (readElement word).map fun e => [e]
  | word :: word' :: words =>
    if word.getLast? = some ',' then
      (readElement word.dropLast).bind fun e =>
        (readElements (word' :: words)).map fun es => e :: es
    else none

/-- What follows the set of a rule. -/
def tailWords (proto : Proto) (port : ℕ) : List (List Char) :=
  [['}'], proto.word, "dport".toList, Nat.toDigits 10 port, "accept".toList]

def Rule.words (r : Rule) : List (List Char) :=
  r.family.word :: "saddr".toList :: ['{'] :: (elementWords r.elements ++ tailWords r.proto r.port)

/-- `ip saddr { a, b } tcp dport 22 accept` -/
def Rule.line (r : Rule) : List Char := [' '].intercalate r.words

def readTail : List (List Char) → Option (Proto × ℕ)
  | [_, proto, dport, port, accept] =>
    if dport = "dport".toList ∧ accept = "accept".toList then
      (readProto proto).bind fun p => (DecimalText.natural port).map fun n => (p, n)
    else none
  | _ => none

def readWords : List (List Char) → Option Rule
  | family :: saddr :: brace :: words =>
    if saddr = "saddr".toList ∧ brace = ['{'] then
      (readFamily family).bind fun f =>
        (readElements (words.takeWhile (· ≠ ['}']))).bind fun es =>
          (readTail (words.dropWhile (· ≠ ['}']))).map fun (p, n) => ⟨f, es, p, n⟩
    else none
  | _ => none

/-- Rules stand on lines of their own; there are empty lines between them. -/
def readRules (text : String) : Option (List Rule) :=
  ((text.toList.splitOn '\n').filter (· ≠ [])).mapM fun line => readWords (line.splitOn ' ')

/-! ### Packets -/

/-- Which addresses an element covers: those of the family that it is written in. -/
structure Matching where
  covers : String → Address → Bool
  family_of_covers {e : String} {a : Address} : covers e a = true →
    (a.family = .v6 ↔ ':' ∈ e.toList)

/-- A rule accepts what comes from an address to a port. -/
def Rule.Accepts (M : Matching) (r : Rule) (proto : Proto) (port : ℕ) (a : Address) : Prop :=
  r.proto = proto ∧ r.port = port ∧ r.family = a.family ∧ ∃ e ∈ r.elements, M.covers e a = true

/-- A text of rules accepts what one of them accepts. -/
def Accepts (M : Matching) (text : String) (proto : Proto) (port : ℕ) (a : Address) : Prop :=
  ∃ rules, readRules text = some rules ∧ ∃ r ∈ rules, r.Accepts M proto port a

/-! ### What is written is read back -/

/-- An element that ends where it is meant to end. -/
structure Plain (e : String) : Prop where
  nonempty : e.toList ≠ []
  space : ' ' ∉ e.toList
  comma : ',' ∉ e.toList
  brace : '}' ∉ e.toList
  newline : '\n' ∉ e.toList

instance (e : String) : Decidable (Plain e) :=
  decidable_of_iff (e.toList ≠ [] ∧ ' ' ∉ e.toList ∧ ',' ∉ e.toList ∧ '}' ∉ e.toList ∧
      '\n' ∉ e.toList)
    ⟨fun h => ⟨h.1, h.2.1, h.2.2.1, h.2.2.2.1, h.2.2.2.2⟩,
      fun h => ⟨h.nonempty, h.space, h.comma, h.brace, h.newline⟩⟩

theorem mem_elementWords {es : List String} {word : List Char} (h : word ∈ elementWords es) :
    ∃ e ∈ es, word = e.toList ∨ word = e.toList ++ [','] := by
  induction es with
  | nil => exact nomatch h
  | cons e es ih =>
    cases es with
    | nil => exact ⟨e, List.mem_singleton_self e, .inl (List.mem_singleton.mp h)⟩
    | cons e' es =>
      obtain rfl | h := List.mem_cons.mp h
      · exact ⟨e, List.mem_cons_self, .inr rfl⟩
      · obtain ⟨e'', he, hword⟩ := ih h
        exact ⟨e'', List.mem_cons_of_mem _ he, hword⟩

/-- A character that is in no element, and is no comma, is in no word of a set. -/
theorem not_mem_elementWords {es : List String} {c : Char} (hc : c ≠ ',')
    (h : ∀ e ∈ es, c ∉ e.toList) : ∀ word ∈ elementWords es, c ∉ word := by
  intro word hword
  obtain ⟨e, he, rfl | rfl⟩ := mem_elementWords hword
  · exact h e he
  · rw [List.mem_append, List.mem_singleton, not_or]
    exact ⟨h e he, hc⟩

theorem readElements_elementWords {es : List String} (hne : es ≠ [])
    (h : ∀ e ∈ es, e.toList ≠ []) : readElements (elementWords es) = some es := by
  induction es with
  | nil => exact absurd rfl hne
  | cons e es ih =>
    obtain ⟨he, hes⟩ := List.forall_mem_cons.mp h
    have helement : readElement e.toList = some e := by
      rw [readElement, if_neg he, String.ofList_toList]
    cases es with
    | nil =>
      rw [elementWords, readElements, helement]
      rfl
    | cons e' es =>
      have hrest := ih (List.cons_ne_nil _ _) hes
      obtain ⟨word, words, hwords⟩ : ∃ word words, elementWords (e' :: es) = word :: words := by
        cases es with
        | nil => exact ⟨_, _, rfl⟩
        | cons => exact ⟨_, _, rfl⟩
      rw [elementWords, hwords, readElements, if_pos (by simp), ← hwords, hrest,
        List.dropLast_concat, helement]
      rfl

theorem readTail_tailWords (proto : Proto) (port : ℕ) :
    readTail (tailWords proto port) = some (proto, port) := by
  have hproto : readProto proto.word = some proto := by
    cases proto <;> rfl
  rw [tailWords, readTail, if_pos ⟨rfl, rfl⟩, hproto, Option.bind_some, DecimalText.natural_toDigits]
  rfl

/-- A rule with plain elements is read back. -/
theorem readWords_words {r : Rule} (hne : r.elements ≠ []) (h : ∀ e ∈ r.elements, Plain e) :
    readWords r.words = some r := by
  have hfamily : readFamily r.family.word = some r.family := by
    cases r.family <;> rfl
  have hbrace : ∀ word ∈ elementWords r.elements, decide (word ≠ ['}']) = true := by
    intro word hword
    refine decide_eq_true fun he => ?_
    exact not_mem_elementWords (by decide) (fun e he => (h e he).brace) word hword
      (he ▸ List.mem_singleton_self _)
  rw [Rule.words, readWords, if_pos ⟨rfl, rfl⟩, hfamily, Option.bind_some,
    List.takeWhile_append_of_pos hbrace, List.dropWhile_append_of_pos hbrace]
  have htake : (tailWords r.proto r.port).takeWhile (fun word => decide (word ≠ ['}'])) = [] := rfl
  have hdrop : (tailWords r.proto r.port).dropWhile (fun word => decide (word ≠ ['}'])) =
      tailWords r.proto r.port := rfl
  rw [htake, hdrop, List.append_nil, readElements_elementWords hne fun e he => (h e he).nonempty,
    Option.bind_some,
    readTail_tailWords]
  rfl

/-- No word of a rule has a character that ends it, or ends the line. -/
theorem not_mem_words {r : Rule} {c : Char} (hc : c = ' ' ∨ c = '\n')
    (h : ∀ e ∈ r.elements, Plain e) : ∀ word ∈ r.words, c ∉ word := by
  have helement : ∀ e ∈ r.elements, c ∉ e.toList := by
    obtain rfl | rfl := hc
    · exact fun e he => (h e he).space
    · exact fun e he => (h e he).newline
  have hcomma : c ≠ ',' := by
    obtain rfl | rfl := hc <;> decide
  have hdigits : ∀ n, c ∉ Nat.toDigits 10 n := by
    intro n hmem
    have hdigit := DecimalText.isDigit_of_mem hmem
    obtain rfl | rfl := hc
    · exact absurd hdigit (by decide)
    · exact absurd hdigit (by decide)
  have hproto : c ∉ r.proto.word := by
    obtain rfl | rfl := hc <;> cases r.proto <;> decide
  have hfamily : c ∉ r.family.word := by
    obtain rfl | rfl := hc <;> cases r.family <;> decide
  have hword : ∀ word ∈ ["saddr".toList, ['{'], ['}'], "dport".toList, "accept".toList],
      c ∉ word := by
    obtain rfl | rfl := hc <;> decide
  intro word hmem
  rw [Rule.words, tailWords] at hmem
  simp only [List.mem_cons, List.mem_append, List.not_mem_nil, or_false] at hmem
  obtain rfl | rfl | rfl | hmem | rfl | rfl | rfl | rfl | rfl := hmem
  · exact hfamily
  · exact hword _ (by simp)
  · exact hword _ (by simp)
  · exact not_mem_elementWords hcomma helement word hmem
  · exact hword _ (by simp)
  · exact hproto
  · exact hword _ (by simp)
  · exact hdigits _
  · exact hword _ (by simp)

theorem readRule_line {r : Rule} (hne : r.elements ≠ []) (h : ∀ e ∈ r.elements, Plain e) :
    readWords (r.line.splitOn ' ') = some r := by
  rw [Rule.line, List.splitOn_intercalate ' ' (not_mem_words (.inl rfl) h) (List.cons_ne_nil _ _),
    readWords_words hne h]

theorem newline_not_mem_line {r : Rule} (h : ∀ e ∈ r.elements, Plain e) : '\n' ∉ r.line := by
  have hwords : ∀ words : List (List Char), (∀ word ∈ words, '\n' ∉ word) →
      '\n' ∉ [' '].intercalate words := by
    intro words
    induction words with
    | nil => exact fun _ => List.not_mem_nil
    | cons word words ih =>
      intro h
      obtain ⟨hword, hwords⟩ := List.forall_mem_cons.mp h
      cases words with
      | nil => rwa [List.intercalate_singleton]
      | cons word' words =>
        rw [List.intercalate_cons_cons]
        simp only [List.mem_append, not_or]
        exact ⟨⟨hword, by decide⟩, ih hwords⟩
  exact hwords _ (not_mem_words (.inr rfl) h)

/-- Rules that are written on lines of their own are read back. -/
theorem readRules_lines {text : String} {rules : List Rule}
    (htext : text.toList = rules.flatMap fun r => r.line ++ ['\n'])
    (hrules : ∀ r ∈ rules, r.elements ≠ [] ∧ ∀ e ∈ r.elements, Plain e) :
    readRules text = some rules := by
  have hne : ∀ r : Rule, r.line ≠ [] := by
    intro r hline
    rw [Rule.line, Rule.words, List.intercalate_cons_cons] at hline
    exact absurd (congrArg List.length hline) (by simp)
  rw [readRules, htext]
  clear htext
  induction rules with
  | nil => rfl
  | cons r rules ih =>
    obtain ⟨hr, hrules⟩ := List.forall_mem_cons.mp hrules
    rw [List.flatMap_cons, List.append_assoc, List.singleton_append,
      List.splitOn_append_cons_self_of_not_mem (newline_not_mem_line hr.2),
      List.filter_cons_of_pos (by simpa using hne r), List.mapM_cons, readRule_line hr.1 hr.2,
      ih hrules]
    rfl

end Nftables
