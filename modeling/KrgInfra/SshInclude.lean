/-
Where the Include of the hardening drop-in stands.

sshd takes the first value of a directive, so the Include has to come before all of them.  The
function puts its block in front of a text that does not have the marker, and leaves a text with
the marker as it is, whatever has become of the block.

* `SshdSyntax`, `effective` — how sshd reads a line, and the directives of a text;
* `IncludeFirst` — the drop-in comes before every other directive;
* `include_first_iff` — when the function sees to that.
-/
import KrgInfra.SshTransaction
import Mathlib

namespace ApplySsh

/-! ### How sshd reads a text -/

structure Directive where
  keyword : String
  arguments : List String
  deriving DecidableEq

def drop_in_dir : String := "/etc/ssh/sshd_config.d/*.conf"

/-- How sshd reads a line: empty lines and those that begin with `#` have no effect. -/
structure SshdSyntax where
  directive : List Char → Option Directive
  blank : directive [] = none
  comment : ∀ rest, directive ('#' :: rest) = none
  include_drop_in :
    directive ("Include /etc/ssh/sshd_config.d/*.conf").toList = some ⟨"include", [drop_in_dir]⟩

def lines (text : String) : List (List Char) := text.toList.splitOn '\n'

/-- The directives that have an effect, in their order. -/
def effective (S : SshdSyntax) (text : String) : List Directive :=
  (lines text).filterMap S.directive

/-- The drop-in directory is included before every other directive. -/
def IncludeFirst (S : SshdSyntax) (text : String) : Prop :=
  ∃ d rest, effective S text = d :: rest ∧ d.keyword = "include" ∧ drop_in_dir ∈ d.arguments

/-! ### The block -/

variable (S : SshdSyntax)

theorem effective_line {l : List Char} (h : '\n' ∉ l) (rest : String) :
    effective S (String.ofList l ++ ("\n" ++ rest)) =
      (S.directive l).toList ++ effective S rest := by
  have htext : (String.ofList l ++ ("\n" ++ rest)).toList = l ++ '\n' :: rest.toList := by
    rw [String.toList_append, String.toList_append, String.toList_ofList]
    rfl
  rw [effective, lines, htext, List.splitOn_append_cons_self_of_not_mem h, List.filterMap_cons]
  cases S.directive l with
  | none => rfl
  | some d => rfl

/-- A text of one line, with its newline. -/
theorem effective_text {l : List Char} (h : l.getLast? = some '\n' ∧ '\n' ∉ l.dropLast)
    (rest : String) :
    effective S (String.ofList l ++ rest) = (S.directive l.dropLast).toList ++ effective S rest := by
  have hl : String.ofList l = String.ofList l.dropLast ++ "\n" := by
    have hlast := List.dropLast_append_getLast? _ h.1
    rw [← String.toList_inj, String.toList_append, String.toList_ofList, String.toList_ofList]
    exact hlast.symm
  rw [hl, String.append_assoc, effective_line S h.2]

/-- A comment has no effect. -/
theorem effective_comment {l : List Char}
    (h : l.getLast? = some '\n' ∧ '\n' ∉ l.dropLast ∧ l.dropLast.head? = some '#')
    (rest : String) : effective S (String.ofList l ++ rest) = effective S rest := by
  obtain ⟨more, hmore⟩ := List.head?_eq_some_iff.mp h.2.2
  rw [effective_text S ⟨h.1, h.2.1⟩, hmore, S.comment]
  rfl

/-- A comment, and the newline after it. -/
theorem effective_marker {l : List Char} (h : '\n' ∉ l ∧ l.head? = some '#') (rest : String) :
    effective S (String.ofList l ++ ("\n" ++ rest)) = effective S rest := by
  obtain ⟨more, hmore⟩ := List.head?_eq_some_iff.mp h.2
  rw [effective_line S h.1, hmore, S.comment]
  rfl

theorem effective_blank (rest : String) : effective S ("\n" ++ rest) = effective S rest := by
  refine (effective_text S (l := ['\n']) (by decide) rest).trans ?_
  rw [show ['\n'].dropLast = [] from rfl, S.blank]
  rfl

/-- The block has one directive. -/
theorem effective_include_block (content : String) :
    effective S (include_block ++ content) =
      ⟨"include", [drop_in_dir]⟩ :: effective S content := by
  unfold include_block
  simp only [String.append_assoc]
  refine (effective_marker S (by decide) _).trans ?_
  refine (effective_comment S (by decide) _).trans ?_
  refine (effective_comment S (by decide) _).trans ?_
  refine (effective_comment S (by decide) _).trans ?_
  refine (effective_comment S (by decide) _).trans ?_
  refine (effective_text S (by decide) _).trans ?_
  -- what is left is the Include, the end marker and an empty line
  have hend : "\n\n" ++ content = "\n" ++ ("\n" ++ content) := by
    rw [← String.append_assoc]
    rfl
  rw [hend]
  refine (congrArg (_ ++ ·) (effective_marker S (by decide) _)).trans ?_
  rw [effective_blank]
  have hinclude := S.include_drop_in
  rw [show ("Include /etc/ssh/sshd_config.d/*.conf").toList = _ from String.toList_ofList] at hinclude
  exact congrArg (fun d : Option Directive => d.toList ++ effective S content) hinclude

/-- The lines of a text stand, in their order, after those of the block. -/
theorem lines_include_block (content : String) :
    lines content <:+ lines (include_block ++ content) := by
  obtain ⟨front, hfront⟩ : ∃ front, include_block.toList = front ++ ['\n'] := by
    have hend : ("\n\n").toList = ['\n'] ++ ['\n'] := rfl
    unfold include_block
    rw [String.toList_append, hend, ← List.append_assoc]
    exact ⟨_, rfl⟩
  rw [lines, lines, String.toList_append, hfront, List.append_assoc, List.singleton_append,
    List.splitOn_append_cons_self]
  exact List.suffix_append _ _

/-! ### The function -/

/-- The marker stands somewhere in the text. -/
def Marked (content : String) : Prop := include_begin_marker.toList <:+: content.toList

theorem ensure_of_marked {content : String} (h : Marked content) :
    ensure_include_block content = content := if_pos h

theorem ensure_of_not_marked {content : String} (h : ¬ Marked content) :
    ensure_include_block content = include_block ++ content := if_neg h

theorem includeFirst_include_block (content : String) :
    IncludeFirst S (include_block ++ content) :=
  ⟨_, _, effective_include_block S content, rfl, List.mem_singleton.mpr rfl⟩

/-- What the function is asked for: the drop-in comes first, the lines of the text stay in their
order, and a second time nothing changes. -/
structure TakesEffect (content : String) : Prop where
  first : IncludeFirst S (ensure_include_block content)
  kept : (lines content).Sublist (lines (ensure_include_block content))
  idempotent : ensure_include_block (ensure_include_block content) = ensure_include_block content

theorem lines_sublist_ensure (content : String) :
    (lines content).Sublist (lines (ensure_include_block content)) := by
  by_cases h : Marked content
  · rw [ensure_of_marked h]
  · rw [ensure_of_not_marked h]
    exact (lines_include_block content).sublist

/-- **The Include of the drop-in.**  A text without the marker gets the block in front, and so the
drop-in comes first; one with the marker stays as it is, and the drop-in comes first if it did.
The lines of the text stay in their order, and a second time nothing changes. -/
theorem include_first_iff (content : String) :
    (¬ Marked content → ensure_include_block content = include_block ++ content) ∧
      (Marked content → ensure_include_block content = content) ∧
      (TakesEffect S content ↔ ¬ Marked content ∨ IncludeFirst S content) ∧
      (lines content).Sublist (lines (ensure_include_block content)) ∧
      ensure_include_block (ensure_include_block content) = ensure_include_block content := by
  refine ⟨ensure_of_not_marked, ensure_of_marked, ⟨fun h => ?_, fun h => ⟨?_, ?_, ?_⟩⟩, ?_, ?_⟩
  · by_cases hmarked : Marked content
    · have hfirst := h.first
      rw [ensure_of_marked hmarked] at hfirst
      exact .inr hfirst
    · exact .inl hmarked
  · by_cases hmarked : Marked content
    · rw [ensure_of_marked hmarked]
      exact h.resolve_left (not_not_intro hmarked)
    · rw [ensure_of_not_marked hmarked]
      exact includeFirst_include_block S content
  · exact lines_sublist_ensure content
  · exact ensure_include_block_idem content
  · exact lines_sublist_ensure content
  · exact ensure_include_block_idem content

/-! ### A text whose Include was commented out -/

/-- The words of a line; quotes and `=` mean nothing here. -/
def words (line : List Char) : List (List Char) :=
  (line.splitOnP fun c => c = ' ' || c = '\t').filter (· ≠ [])

/-- A line of plain words. -/
def plainDirective (line : List Char) : Option Directive :=
  match words line with
  | [] => none
  | keyword :: arguments =>
    if keyword.head? = some '#' then none
    else some ⟨(String.ofList keyword).toLower, arguments.map String.ofList⟩

theorem plainDirective_comment (rest : List Char) : plainDirective ('#' :: rest) = none := by
  obtain ⟨first, more, hmore⟩ := List.exists_cons_of_ne_nil
    (List.splitOnP_ne_nil (fun c => c = ' ' || c = '\t') rest)
  have hwords : words ('#' :: rest) = ('#' :: first) :: more.filter (· ≠ []) := by
    rw [words, List.splitOnP_cons_eq_if_modifyHead, if_neg (by decide), hmore]
    rfl
  rw [plainDirective, hwords]
  rfl

theorem plainDirective_include :
    plainDirective ("Include /etc/ssh/sshd_config.d/*.conf").toList =
      some ⟨"include", [drop_in_dir]⟩ := by
  decide +kernel

/-- A reading of lines of plain words. -/
def plainSyntax : SshdSyntax where
  directive := plainDirective
  blank := rfl
  comment := plainDirective_comment
  include_drop_in := plainDirective_include

/-- The block with its Include commented out, in front of a setting. -/
def commented : String :=
  include_begin_marker ++ ("\n" ++ ("#Include /etc/ssh/sshd_config.d/*.conf\n" ++
    ("# --- END KRG-MANAGED Include (synology_ssh) ---\n" ++ "PasswordAuthentication yes")))

theorem effective_commented :
    effective plainSyntax commented = [⟨"passwordauthentication", ["yes"]⟩] := by
  unfold commented
  refine (effective_marker plainSyntax (by decide) _).trans ?_
  refine (effective_comment plainSyntax (by decide) _).trans ?_
  refine (effective_comment plainSyntax (by decide) _).trans ?_
  decide +kernel

/-- The marker keeps the function from putting it in force again. -/
theorem commented_include_kept : ¬ TakesEffect plainSyntax commented := by
  rintro ⟨⟨d, rest, hd, hinclude, -⟩, -, -⟩
  have hmarked : Marked commented := by
    unfold Marked commented
    rw [String.toList_append]
    exact List.infix_append [] _ _
  rw [ensure_of_marked hmarked, effective_commented, List.cons.injEq] at hd
  rw [← hd.1] at hinclude
  exact absurd hinclude (by decide)

end ApplySsh
