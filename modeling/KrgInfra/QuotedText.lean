/-
Texts in double quotes.

A reader takes most characters for themselves, ends at a quote, and reads an escape sequence
after a backslash.  What was put between quotes is read back only where nothing in it is special:
an escape sequence is always longer than what it stands for.

* `Dialect`, `escape`, `scan` — the reader of a format;
* `written` — a text whose newlines are written as `\n`;
* `scan_written` — a text of plain characters and newlines is read back;
* `plain_of_scan` — and no other text is;
* `unquote_written_iff` — the same of a string that ends its line.
-/
import Mathlib.Data.List.Basic
import Mathlib.Tactic.Common

namespace QuotedText

/-- The characters that stand for themselves, the escape sequences of one character after the
backslash, and those of a letter and a number of hexadecimal digits. -/
structure Dialect where
  plain : Char → Bool
  simple : List (Char × Char)
  hex : List (Char × ℕ)
  quote_not_plain : plain '"' = false
  backslash_not_plain : plain '\\' = false
  newline : simple.lookup 'n' = some '\n'
  backslash_not_hex : hex.lookup '\\' = none

/-- Whether an escape sequence goes on, ends, or is none. -/
inductive Progress
  | more
  | done (c : Char)
  | bad

/-- The value of a hexadecimal digit. -/
def hexValue (c : Char) : Option ℕ :=
  if '0' ≤ c ∧ c ≤ '9' then some (c.toNat - '0'.toNat)
  else if 'a' ≤ c ∧ c ≤ 'f' then some (c.toNat - 'a'.toNat + 10)
  else if 'A' ≤ c ∧ c ≤ 'F' then some (c.toNat - 'A'.toNat + 10)
  else none

/-- The character of a number; a surrogate is none. -/
def scalar (n : ℕ) : Progress := if n.isValidChar then .done (Char.ofNat n) else .bad

/-- An escape sequence, from what was read of it after the backslash. -/
def escape (d : Dialect) : List Char → Progress
  | [] => .more
  | [c] =>
    match d.simple.lookup c with
    | some x => .done x
    | none => if (d.hex.lookup c).isSome then .more else .bad
  | c :: digits =>
    match d.hex.lookup c, digits.mapM hexValue with
    | some n, some values =>
      if digits.length < n then .more else scalar (values.foldl (fun n v => 16 * n + v) 0)
    | _, _ => .bad

/-- What is read up to the closing quote, and what follows it; in an escape sequence, `pending` is
what was read of it. -/
def scan (d : Dialect) : Option (List Char) → List Char → Option (List Char × List Char)
  | _, [] => none
  | none, c :: rest =>
    if c = '"' then some ([], rest)
    else if c = '\\' then scan d (some []) rest
    else if d.plain c then (scan d none rest).map fun r => (c :: r.1, r.2)
    else none
  | some buf, c :: rest =>
    match escape d (buf ++ [c]) with
    | .more => scan d (some (buf ++ [c])) rest
    | .done x => (scan d none rest).map fun r => (x :: r.1, r.2)
    | .bad => none

/-- A text whose newlines are written as `\n`. -/
def written (text : List Char) : List Char :=
  text.flatMap fun c => if c = '\n' then ['\\', 'n'] else [c]

theorem written_cons (c : Char) (text : List Char) :
    written (c :: text) = (if c = '\n' then ['\\', 'n'] else [c]) ++ written text :=
  List.flatMap_cons

/-- A text without newlines is written as it is. -/
theorem written_eq_self {text : List Char} (h : '\n' ∉ text) : written text = text := by
  induction text with
  | nil => rfl
  | cons c text ih =>
    rw [List.mem_cons, not_or] at h
    rw [written_cons, if_neg (Ne.symm h.1), ih h.2, List.singleton_append]

variable {d : Dialect}

/-! ### Steps -/

theorem escape_newline : escape d ['n'] = .done '\n' := by
  rw [escape, d.newline]

/-- `\n` -/
theorem scan_newline (rest : List Char) :
    scan d none ('\\' :: 'n' :: rest) = (scan d none rest).map fun r => ('\n' :: r.1, r.2) := by
  rw [scan, if_neg (by decide), if_pos rfl, scan, List.nil_append, escape_newline]

theorem scan_plain {c : Char} (h : d.plain c = true) (rest : List Char) :
    scan d none (c :: rest) = (scan d none rest).map fun r => (c :: r.1, r.2) := by
  have hquote : c ≠ '"' := by
    rintro rfl
    exact absurd (d.quote_not_plain.symm.trans h) (by decide)
  have hbackslash : c ≠ '\\' := by
    rintro rfl
    exact absurd (d.backslash_not_plain.symm.trans h) (by decide)
  rw [scan, if_neg hquote, if_neg hbackslash, if_pos h]

/-- The character after the backslash. -/
theorem scan_pending {buf rest v t : List Char} {c : Char}
    (h : scan d (some buf) (c :: rest) = some (v, t)) :
    (escape d (buf ++ [c]) = .more ∧ scan d (some (buf ++ [c])) rest = some (v, t)) ∨
      ∃ x v', escape d (buf ++ [c]) = .done x ∧ v = x :: v' ∧ scan d none rest = some (v', t) := by
  rw [scan] at h
  cases hescape : escape d (buf ++ [c]) with
  | more =>
    rw [hescape] at h
    exact .inl ⟨rfl, h⟩
  | done x =>
    rw [hescape] at h
    obtain ⟨r, hr, he⟩ := Option.map_eq_some_iff.mp h
    obtain ⟨rfl, rfl⟩ := Prod.mk.inj he
    exact .inr ⟨x, r.1, rfl, rfl, hr⟩
  | bad =>
    rw [hescape] at h
    exact nomatch h

/-- Any other character. -/
theorem scan_none {rest v t : List Char} {c : Char} (h : scan d none (c :: rest) = some (v, t)) :
    (c = '"' ∧ v = []) ∨ (c = '\\' ∧ scan d (some []) rest = some (v, t)) ∨
      ∃ v', d.plain c = true ∧ v = c :: v' ∧ scan d none rest = some (v', t) := by
  rw [scan] at h
  split_ifs at h with hquote hbackslash hplain
  · exact .inl ⟨hquote, (Prod.mk.inj (Option.some_inj.mp h)).1.symm⟩
  · exact .inr (.inl ⟨hbackslash, h⟩)
  · obtain ⟨r, hr, he⟩ := Option.map_eq_some_iff.mp h
    obtain ⟨rfl, rfl⟩ := Prod.mk.inj he
    exact .inr (.inr ⟨r.1, hplain, rfl, hr⟩)

/-! ### Reading back -/

/-- Plain characters and newlines are read back. -/
theorem scan_written {text : List Char} (h : ∀ c ∈ text, c = '\n' ∨ d.plain c = true)
    (rest : List Char) : scan d none (written text ++ '"' :: rest) = some (text, rest) := by
  induction text with
  | nil => rfl
  | cons c text ih =>
    have ih := ih fun c hc => h c (List.mem_cons_of_mem _ hc)
    rw [written_cons, List.append_assoc]
    by_cases hc : c = '\n'
    · rw [if_pos hc, hc]
      show scan d none ('\\' :: 'n' :: (written text ++ '"' :: rest)) = _
      rw [scan_newline, ih]
      rfl
    · rw [if_neg hc, List.singleton_append, scan_plain ((h c List.mem_cons_self).resolve_left hc),
        ih]
      rfl

/-- A text that can be cut into a number of pieces, each of which is a character or `\n`. -/
inductive Cut : List Char → ℕ → Prop
  | nil : Cut [] 0
  | char (c : Char) {l : List Char} {n : ℕ} : Cut l n → Cut (c :: l) (n + 1)
  | newline {l : List Char} {n : ℕ} : Cut l n → Cut ('\\' :: 'n' :: l) (n + 1)

theorem cut_written (text : List Char) : Cut (written text ++ ['"']) (text.length + 1) := by
  induction text with
  | nil => exact .char _ .nil
  | cons c text ih =>
    rw [written_cons, List.append_assoc, List.length_cons]
    split_ifs
    · exact .newline ih
    · exact .char c ih

/-- No more characters are read than there are pieces, and the quote is one of them, but that an
escape sequence that has begun may end within a piece. -/
theorem length_scan (k : ℕ) : ∀ {l : List Char} {n : ℕ} {v t : List Char}, l.length ≤ k →
    Cut l n → (scan d none l = some (v, t) → v.length + 1 ≤ n) ∧
      ∀ buf, scan d (some buf) l = some (v, t) → v.length ≤ n := by
  induction k with
  | zero =>
    intro l n v t hl _
    obtain rfl := List.length_eq_zero_iff.mp (Nat.le_zero.mp hl)
    exact ⟨fun h => (nomatch h), fun buf h => by rw [scan] at h; exact nomatch h⟩
  | succ k ih =>
    intro l n v t hl hcut
    cases hcut with
    | nil => exact ⟨fun h => (nomatch h), fun buf h => by rw [scan] at h; exact nomatch h⟩
    | @char c l n hcut =>
      have hl : l.length ≤ k := Nat.le_of_succ_le_succ hl
      constructor
      · intro h
        obtain ⟨-, rfl⟩ | ⟨-, hnext⟩ | ⟨v', -, rfl, hnext⟩ := scan_none h
        · exact Nat.succ_le_succ (Nat.zero_le n)
        · exact Nat.succ_le_succ ((ih hl hcut).2 _ hnext)
        · exact Nat.succ_le_succ ((ih hl hcut).1 hnext)
      · intro buf h
        obtain ⟨-, hnext⟩ | ⟨x, v', -, rfl, hnext⟩ := scan_pending h
        · exact Nat.le_succ_of_le ((ih hl hcut).2 _ hnext)
        · exact Nat.le_succ_of_le ((ih hl hcut).1 hnext)
    | @newline l n hcut =>
      have htail : ('n' :: l).length ≤ k := Nat.le_of_succ_le_succ hl
      constructor
      · intro h
        rw [scan_newline] at h
        obtain ⟨r, hr, he⟩ := Option.map_eq_some_iff.mp h
        obtain ⟨rfl, rfl⟩ := Prod.mk.inj he
        exact Nat.succ_le_succ ((ih (Nat.le_of_succ_le htail) hcut).1 hr)
      · intro buf h
        -- the sequence may end with the backslash, and the `n` is read for itself
        obtain ⟨-, hnext⟩ | ⟨x, v', -, rfl, hnext⟩ := scan_pending h
        · exact (ih htail (.char 'n' hcut)).2 _ hnext
        · exact (ih htail (.char 'n' hcut)).1 hnext

/-- A backslash is not read back: an escape sequence is longer than what it stands for. -/
theorem not_scan_backslash {text t : List Char} :
    ¬ scan d (some []) (written text ++ ['"']) = some ('\\' :: text, t) := by
  intro h
  cases text with
  | nil =>
    -- the closing quote is taken for a part of the sequence
    obtain ⟨-, hnext⟩ | ⟨x, v, -, -, hnext⟩ := scan_pending h
    · rw [scan] at hnext
      exact nomatch hnext
    · exact nomatch hnext
  | cons c text =>
    rw [written_cons, List.append_assoc] at h
    by_cases hc : c = '\n'
    · -- of `\\n` the backslash is taken for a part of the sequence
      rw [if_pos hc] at h
      obtain ⟨hmore, -⟩ | ⟨x, v, -, hv, hnext⟩ := scan_pending h
      · rw [List.nil_append, escape, d.backslash_not_hex] at hmore
        split at hmore
        · exact nomatch hmore
        · exact nomatch hmore
      · obtain ⟨-, rfl⟩ := List.cons.inj hv
        obtain ⟨hn, -⟩ | ⟨hn, -⟩ | ⟨v, -, hv, -⟩ := scan_none hnext
        · exact absurd hn (by decide)
        · exact absurd hn (by decide)
        · exact absurd (hc.symm.trans (List.cons.inj hv).1) (by decide)
    · rw [if_neg hc] at h
      obtain ⟨-, hnext⟩ | ⟨x, v, -, hv, hnext⟩ := scan_pending h
      · have hlength := (length_scan _ (Nat.le_refl _) (cut_written text)).2 _ hnext
        simp only [List.length_cons] at hlength
        omega
      · obtain ⟨-, rfl⟩ := List.cons.inj hv
        have hlength := (length_scan _ (Nat.le_refl _) (cut_written text)).1 hnext
        simp only [List.length_cons] at hlength
        omega

/-- What is read back is plain, but for newlines. -/
theorem plain_of_scan {text : List Char} : ∀ {t : List Char},
    scan d none (written text ++ ['"']) = some (text, t) →
      ∀ c ∈ text, c = '\n' ∨ d.plain c = true := by
  induction text with
  | nil => exact fun _ _ h => nomatch h
  | cons c text ih =>
    intro t h
    rw [written_cons, List.append_assoc] at h
    by_cases hc : c = '\n'
    · rw [if_pos hc] at h
      have h : scan d none ('\\' :: 'n' :: (written text ++ ['"'])) = _ := h
      rw [scan_newline] at h
      obtain ⟨r, hr, he⟩ := Option.map_eq_some_iff.mp h
      obtain ⟨hv, rfl⟩ := Prod.mk.inj he
      have hr : scan d none (written text ++ ['"']) = some (text, r.2) :=
        (List.cons.inj hv).2 ▸ hr
      exact List.forall_mem_cons.mpr ⟨.inl hc, ih hr⟩
    · rw [if_neg hc, List.singleton_append] at h
      obtain ⟨-, hv⟩ | ⟨rfl, hpending⟩ | ⟨v', hplain, hv, hnext⟩ := scan_none h
      · exact nomatch hv
      · exact absurd hpending not_scan_backslash
      · obtain ⟨-, rfl⟩ := List.cons.inj hv
        exact List.forall_mem_cons.mpr ⟨.inr hplain, ih hnext⟩

/-- A string with its last quote, after which only what `ends` a line is left. -/
def unquote (d : Dialect) (ends : List Char → Bool) (l : List Char) : Option String :=
  (scan d none l).bind fun r => if ends r.2 then some (String.ofList r.1) else none

/-- A string is read back exactly if all of its characters are plain, but for newlines. -/
theorem unquote_written_iff (d : Dialect) {ends : List Char → Bool} (hends : ends [] = true) {s : String} :
    unquote d ends (written s.toList ++ ['"']) = some s ↔
      ∀ c ∈ s.toList, c = '\n' ∨ d.plain c = true := by
  constructor
  · intro hread
    obtain ⟨r, hscan, hr⟩ := Option.bind_eq_some_iff.mp hread
    split_ifs at hr
    have hself : r.1 = s.toList := by
      rw [← Option.some_inj.mp hr, String.toList_ofList]
    have hscan : scan d none (written s.toList ++ ['"']) = some (s.toList, r.2) := by
      rw [hscan, ← hself]
    exact plain_of_scan hscan
  · intro hplain
    rw [unquote, scan_written hplain []]
    show (if ends [] = true then some (String.ofList s.toList) else none) = some s
    rw [hends, String.ofList_toList]
    rfl

/-- The same of a string without newlines. -/
theorem unquote_iff (d : Dialect) {ends : List Char → Bool} (hends : ends [] = true) {s : String}
    (h : '\n' ∉ s.toList) :
    unquote d ends (s.toList ++ ['"']) = some s ↔ ∀ c ∈ s.toList, d.plain c = true := by
  have hiff := unquote_written_iff d hends (s := s)
  rw [written_eq_self h] at hiff
  rw [hiff]
  constructor
  · exact fun hplain c hc => (hplain c hc).resolve_left fun he => h (he ▸ hc)
  · exact fun hplain c hc => .inr (hplain c hc)

theorem newline_not_mem_written (text : List Char) : '\n' ∉ written text := by
  intro h
  obtain ⟨c, -, hc⟩ := List.mem_flatMap.mp h
  split_ifs at hc with hnewline
  · exact absurd hc (by decide)
  · exact hnewline (List.mem_singleton.mp hc).symm

end QuotedText
