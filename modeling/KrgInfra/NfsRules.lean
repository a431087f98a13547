/-
Export rules, compared in a canonical form.

`_norm` of `apply_nfs.py` and `_norm_rules` of `drift_detector.py` sort the rules of a share by
their client and print them with sorted members.  Rules of one client keep their order.

* `canon`, `normRules` — what is sorted, and by what;
* `Rule` — an export rule, whose client is a scalar;
* `norm`, `norm_rules` — the canonical forms;
* `SameRules` — one list has the rules of the other one, in any order;
* `Unordered` — the forms are there, and are equal exactly for the same rules;
* `unordered_iff` — so they are exactly where no two lists of clients are compared that have no
  order, and rules of one client do not change places.
-/
import KrgInfra.FullObject
import KrgInfra.ShareAcls
import KrgInfra.StableSort
import Mathlib.Algebra.Order.Ring.Unbundled.Rat
import Mathlib.Data.Prod.Lex
import Mathlib.Data.String.Basic

namespace DriftDetector

open Json JsonText StableSort

/-! ### The canonical form -/

/-- What a rule says, or a default: `r.get(name, default)`. -/
def getOr (s : Members) (name : String) (default : Json) : Json := (s.lookup name).getD default

mutual

/-- Members by their names, as `sort_keys` prints them. -/
def canon : Json → Json
  | .arr items => .arr (canonItems items)
  | .obj members => .obj ((canonMembers members).insertionSort fun a b => ¬ b.1 < a.1)
  | other => other

def canonItems : List Json → List Json
  | [] => []
  | item :: items => canon item :: canonItems items

def canonMembers : List (String × Json) → List (String × Json)
  | [] => []
  | (name, value) :: members => (name, canon value) :: canonMembers members

end

/-- `r.get("client", "")` -/
def client (rule : Members) : Json := getOr rule "client" (.str "")

/-- The rules as dictionaries. -/
def rulesOf (rules : Json) : Option (List Members) :=
  (ShareAcls.elements rules).bind fun items =>
    items.mapM fun rule => match rule with | .obj members => some members | _ => none

/-- Whether one client comes after another one, of texts or of numbers. -/
def clientLe (a b : Members) : Prop :=
  match client a, client b with
  | .str x, .str y => ¬ y < x
  | x, y => x.number.getD 0 ≤ y.number.getD 0

instance : DecidableRel clientLe := fun a b => by
  unfold clientLe
  split <;> infer_instance

/-- `_norm`: the rules sorted by client, as they are printed; `none` where the clients (scalars)
cannot be compared. -/
def normRules (rules : Json) : Option (List Json) :=
  (rulesOf rules).bind fun rs =>
    if rs.length ≤ 1 ∨ ShareAcls.comparable (rs.map client) = true then
      some ((rs.insertionSort clientLe).map fun r => canon (.obj r))
    else none

/-! ### Rules -/

variable {F : Floats}

/-- A value that is no collection. -/
def Scalar : Json → Prop
  | .arr _ => False
  | .obj _ => False
  | _ => True

/-- A rule of a share, as Python has it. -/
structure Rule (F : Floats) where
  members : Members
  wf : Wf F (.obj members)
  scalar : Scalar (client members)

/-- The members of a rule, by their names. -/
def Rule.sorted (r : Rule F) : Members :=
  (canonMembers r.members).insertionSort fun a b => ¬ b.1 < a.1

/-- `[r, …]` -/
def listOf (rules : List (Rule F)) : Json := .arr (rules.map fun r => .obj r.members)

/-- `json.dumps(sorted(rules, …), sort_keys=True)`; `none` where the clients have no order. -/
def printed (rules : List (Rule F)) : Option (List Char) :=
  (normRules (listOf rules)).map fun rs => dumps F (.arr rs)

/-- `_norm` of `apply_nfs.py` -/
def norm (rules : List (Rule F)) : Option (List Char) := printed rules

/-- `_norm_rules` of `drift_detector.py` -/
def norm_rules (rules : List (Rule F)) : Option (List Char) := printed rules

/-- One list is a permutation of the other one; the members of a rule have no order. -/
def SameRules (xs ys : List (Rule F)) : Prop := (xs.map Rule.sorted).Perm (ys.map Rule.sorted)

/-- Two lists have a canonical form, and the same one exactly where they are the same rules. -/
def Unordered (form : List (Rule F) → Option (List Char)) (xs ys : List (Rule F)) : Prop :=
  ∃ x y, form xs = some x ∧ form ys = some y ∧ (x = y ↔ SameRules xs ys)

/-- The clients are all texts or all numbers, where there are two of them. -/
def Sortable (rules : List (Rule F)) : Prop :=
  rules.length ≤ 1 ∨ ShareAcls.comparable (rules.map fun r => client r.members) = true

/-- The rules of one client, in their order. -/
def ofClient (r : Rule F) (rules : List (Rule F)) : List Members :=
  (rules.filter fun s => pyEq (client r.members) (client s.members)).map Rule.sorted

/-- The rules of each client stand in one order in both lists. -/
def SameOrder (xs ys : List (Rule F)) : Prop := ∀ r ∈ xs, ofClient r xs = ofClient r ys

/-! ### The members of a rule -/

theorem names_canonMembers (members : Members) :
    Members.names (canonMembers members) = members.names := by
  induction members with
  | nil => rfl
  | cons member members ih => exact congrArg (member.1 :: ·) ih

mutual

theorem wf_canon : ∀ {v : Json}, Wf F v → Wf F (canon v)
  | .null, h => h
  | .bool _, h => h
  | .int _, h => h
  | .float _, h => h
  | .str _, h => h
  | .arr items, h => wf_canonItems h
  | .obj members, h => by
    have hperm := List.perm_insertionSort (fun a b => ¬ b.1 < a.1) (canonMembers members)
    refine ⟨?_, wfMembers_iff.mpr fun m hm => ?_⟩
    · refine (hperm.map Prod.fst).nodup_iff.mpr ?_
      have hnames := names_canonMembers members
      exact Eq.mpr (congrArg List.Nodup hnames) h.1
    · exact wfMembers_iff.mp (wf_canonMembers h.2) m (hperm.mem_iff.mp hm)

theorem wf_canonItems : ∀ {items : List Json}, WfItems F items → WfItems F (canonItems items)
  | [], _ => trivial
  | _ :: _, h => ⟨wf_canon h.1, wf_canonItems h.2⟩

theorem wf_canonMembers : ∀ {members : List (String × Json)},
    WfMembers F members → WfMembers F (canonMembers members)
  | [], _ => trivial
  | (_, _) :: _, h => ⟨wf_canon h.1, wf_canonMembers h.2⟩

end

theorem lookup_canonMembers (members : Members) (name : String) :
    (canonMembers members).lookup name = (members.lookup name).map canon := by
  induction members with
  | nil => rfl
  | cons member members ih =>
    obtain ⟨other, value⟩ := member
    rw [canonMembers, Members.lookup_cons, Members.lookup_cons, ih]
    split_ifs <;> rfl

theorem lookup_insertionSort (members : Members) (name : String) :
    (members.insertionSort fun a b => ¬ b.1 < a.1).lookup name = members.lookup name := by
  have hinsert : ∀ (m : String × Json) (l : Members),
      (l.orderedInsert (fun a b => ¬ b.1 < a.1) m).lookup name = List.lookup name (m :: l) := by
    intro m l
    induction l with
    | nil => rfl
    | cons other l ih =>
      rw [List.orderedInsert_cons]
      by_cases hle : ¬ other.1 < m.1
      · rw [if_pos hle]
      · -- the names differ, so the two can change places
        have hne : m.1 ≠ other.1 := fun h => hle (h ▸ lt_irrefl _)
        rw [if_neg hle, Members.lookup_cons, ih, Members.lookup_cons, Members.lookup_cons,
          Members.lookup_cons]
        by_cases hname : name = m.1
        · rw [if_pos hname, if_pos hname, if_neg fun h => hne (hname.symm.trans h)]
        · rw [if_neg hname, if_neg hname]
  induction members with
  | nil => rfl
  | cons m members ih =>
    rw [List.insertionSort_cons, hinsert, Members.lookup_cons, ih, ← Members.lookup_cons]

/-- Sorting the members keeps the client. -/
theorem client_sorted (r : Rule F) : client r.sorted = client r.members := by
  have hscalar := r.scalar
  unfold client getOr at hscalar ⊢
  rw [Rule.sorted, lookup_insertionSort, lookup_canonMembers]
  cases hclient : r.members.lookup "client" with
  | none => rfl
  | some v =>
    rw [hclient] at hscalar
    cases v with
    | arr items => exact hscalar.elim
    | obj members => exact hscalar.elim
    | _ => rfl

/-! ### The order of the clients -/

/-- What a text is sorted by. -/
def clientText : Json → String
  | .str s => s
  | _ => ""

/-- What the rules are sorted by: a text or a number. -/
def clientKey (members : Members) : Lex (String × ℚ) :=
  toLex (clientText (client members), (client members).number.getD 0)

/-- Two clients that have an order. -/
def Ordered (a b : Json) : Prop :=
  (∃ s t, a = .str s ∧ b = .str t) ∨ ∃ p q, a.number = some p ∧ b.number = some q

theorem clientKey_sorted (r : Rule F) : clientKey r.sorted = clientKey r.members := by
  rw [clientKey, client_sorted, clientKey]

theorem clientText_of_number {v : Json} {q : ℚ} (h : v.number = some q) : clientText v = "" := by
  cases v with
  | str s => exact absurd h (by simp [Json.number])
  | _ => rfl

theorem clientLe_refl (a : Members) : clientLe a a := by
  unfold clientLe
  cases client a with
  | str s => exact lt_irrefl s
  | _ => exact le_refl _

theorem clientLe_numbers {a b : Members} {p q : ℚ} (hp : (client a).number = some p)
    (hq : (client b).number = some q) : clientLe a b ↔ p ≤ q := by
  unfold clientLe
  cases ha : client a with
  | str s => exact absurd (ha ▸ hp) (by simp [Json.number])
  | _ =>
    rw [ha] at hp
    simp only [hp, hq, Option.getD_some]

theorem clientLe_iff {a b : Members} (h : Ordered (client a) (client b)) :
    clientLe a b ↔ clientKey a ≤ clientKey b := by
  rw [clientKey, clientKey, Prod.Lex.toLex_le_toLex]
  obtain ⟨s, t, hs, ht⟩ | ⟨p, q, hp, hq⟩ := h
  · rw [clientLe, hs, ht]
    have hle : ¬ t < s ↔ s < t ∨ s = t := by rw [not_lt, le_iff_lt_or_eq]
    simpa [clientText, Json.number] using hle
  · rw [clientLe_numbers hp hq, clientText_of_number hp, clientText_of_number hq, hp, hq]
    simp

theorem pyEq_iff {a b : Members} (h : Ordered (client a) (client b)) :
    pyEq (client a) (client b) = true ↔ clientKey a = clientKey b := by
  unfold clientKey
  rw [toLex_inj, Prod.mk.injEq]
  obtain ⟨s, t, hs, ht⟩ | ⟨p, q, hp, hq⟩ := h
  · rw [hs, ht]
    simp [pyEq, clientText, Json.number]
  · rw [clientText_of_number hp, clientText_of_number hq, hp, hq]
    cases ha : client a <;> cases hb : client b <;> rw [ha] at hp <;> rw [hb] at hq <;>
      simp_all [pyEq, Json.number]

/-- Any two rules of a list that can be sorted are the same rule, or their clients have an
order. -/
theorem ordered_of_sortable {rules : List (Rule F)} (h : Sortable rules) {a b : Rule F}
    (ha : a ∈ rules) (hb : b ∈ rules) :
    a = b ∨ Ordered (client a.members) (client b.members) := by
  obtain hone | hcomparable := h
  · -- a list of one
    match rules, hone with
    | [r], _ =>
      rw [List.mem_singleton] at ha hb
      exact .inl (ha.trans hb.symm)
  · refine .inr ?_
    have hclient : ∀ r ∈ rules, client r.members ∈ rules.map fun r => client r.members :=
      fun r hr => List.mem_map.mpr ⟨r, hr, rfl⟩
    rw [ShareAcls.comparable, Bool.or_eq_true, List.all_eq_true, List.all_eq_true] at hcomparable
    obtain htext | hnumber := hcomparable
    · have hstr : ∀ r ∈ rules, ∃ s, client r.members = .str s := by
        intro r hr
        have hr' := htext _ (hclient r hr)
        cases hv : client r.members with
        | str s => exact ⟨s, rfl⟩
        | _ =>
          rw [hv] at hr'
          exact absurd hr' Bool.false_ne_true
      obtain ⟨s, hs⟩ := hstr a ha
      obtain ⟨t, ht⟩ := hstr b hb
      exact .inl ⟨s, t, hs, ht⟩
    · obtain ⟨p, hp⟩ := Option.isSome_iff_exists.mp (hnumber _ (hclient a ha))
      obtain ⟨q, hq⟩ := Option.isSome_iff_exists.mp (hnumber _ (hclient b hb))
      exact .inr ⟨p, q, hp, hq⟩

theorem pyEq_client_iff {rules : List (Rule F)} (h : Sortable rules) {a b : Rule F}
    (ha : a ∈ rules) (hb : b ∈ rules) :
    pyEq (client a.members) (client b.members) = true ↔
      clientKey a.members = clientKey b.members := by
  obtain rfl | hordered := ordered_of_sortable h ha hb
  · exact iff_of_true (pyEq_refl _) rfl
  · exact pyEq_iff hordered

/-! ### The canonical form -/

/-- The rules by their clients. -/
def arranged (rules : List (Rule F)) : List Members :=
  (rules.map Rule.sorted).insertionSort (byKey clientKey)

theorem rulesOf_listOf (rules : List (Rule F)) :
    rulesOf (listOf rules) = some (rules.map Rule.members) := by
  rw [listOf, rulesOf, ShareAcls.elements, Option.bind_some]
  induction rules with
  | nil => rfl
  | cons r rules ih => simp [List.mapM_cons, ih]

theorem sort_rules {rules : List (Rule F)} (h : Sortable rules) :
    ((rules.map Rule.members).insertionSort clientLe).map (fun r => canon (.obj r)) =
      (arranged rules).map Json.obj := by
  have hle : ∀ a ∈ rules, ∀ b ∈ rules,
      clientLe a.members b.members ↔ byKey clientKey a.sorted b.sorted := by
    intro a ha b hb
    rw [byKey, clientKey_sorted, clientKey_sorted]
    obtain rfl | hordered := ordered_of_sortable h ha hb
    · exact iff_of_true (clientLe_refl _) le_rfl
    · exact clientLe_iff hordered
  rw [arranged, ← List.map_insertionSort (fun a b => clientLe a.members b.members) clientLe
      Rule.members rules fun _ _ _ _ => Iff.rfl,
    ← List.map_insertionSort (fun a b : Rule F => clientLe a.members b.members) (byKey clientKey)
      Rule.sorted rules hle, List.map_map, List.map_map]
  rfl

theorem printed_eq (rules : List (Rule F)) [Decidable (Sortable rules)] : printed rules =
    if Sortable rules then some (dumps F (.arr ((arranged rules).map Json.obj))) else none := by
  rw [printed, normRules, rulesOf_listOf, Option.bind_some]
  have hsortable : (List.map Rule.members rules).length ≤ 1 ∨
      ShareAcls.comparable ((List.map Rule.members rules).map client) = true ↔ Sortable rules := by
    rw [List.length_map, List.map_map]
    exact Iff.rfl
  by_cases h : Sortable rules
  · rw [if_pos h, if_pos (hsortable.mpr h), Option.map_some, sort_rules h]
  · rw [if_neg h, if_neg fun h' => h (hsortable.mp h'), Option.map_none]

theorem wf_arranged (rules : List (Rule F)) : Wf F (.arr ((arranged rules).map Json.obj)) := by
  have hitems : ∀ l : List Members, (∀ m ∈ l, Wf F (.obj m)) → WfItems F (l.map Json.obj) := by
    intro l
    induction l with
    | nil => exact fun _ => trivial
    | cons m l ih =>
      intro h
      rw [List.forall_mem_cons] at h
      exact ⟨h.1, ih h.2⟩
  refine hitems _ fun m hm => ?_
  rw [arranged, List.mem_insertionSort] at hm
  obtain ⟨r, _, rfl⟩ := List.mem_map.mp hm
  exact wf_canon r.wf

/-- Different rules are printed differently. -/
theorem dumps_arranged_iff {xs ys : List (Rule F)} :
    dumps F (.arr ((arranged xs).map Json.obj)) = dumps F (.arr ((arranged ys).map Json.obj)) ↔
      arranged xs = arranged ys := by
  constructor
  · intro h
    have hread := loads_dumps (wf_arranged xs)
    rw [h, loads_dumps (wf_arranged ys), Option.some_inj, Json.arr.injEq] at hread
    exact ((List.map_injective_iff.mpr fun _ _ h => Json.obj.inj h) hread).symm
  · exact fun h => by rw [h]

theorem sameRules_of_arranged {xs ys : List (Rule F)} (h : arranged xs = arranged ys) :
    SameRules xs ys :=
  ((List.perm_insertionSort _ _).symm.trans (.of_eq h)).trans (List.perm_insertionSort _ _)

theorem ofClient_eq (r : Rule F) (rules : List (Rule F)) :
    ofClient r rules =
      (rules.map Rule.sorted).filter fun m => pyEq (client r.members) (client m) := by
  rw [ofClient, List.filter_map]
  refine congrArg (List.map Rule.sorted) (List.filter_congr fun s _ => ?_)
  rw [Function.comp_apply, client_sorted]

/-- The same rules are sorted alike exactly where the rules of each client keep their order. -/
theorem arranged_eq_iff {xs ys : List (Rule F)} (hx : Sortable xs) (hsame : SameRules xs ys) :
    arranged xs = arranged ys ↔ SameOrder xs ys := by
  -- every rule of the second list is one of the first list
  have hkeys : ∀ b ∈ ys.map Rule.sorted, ∃ a ∈ xs.map Rule.sorted, clientKey a = clientKey b :=
    fun b hb => ⟨b, hsame.mem_iff.mpr hb, rfl⟩
  -- so the rules of one client are those of one key
  have hclient : ∀ r ∈ xs, ∀ l : List Members, (∀ m ∈ l, m ∈ xs.map Rule.sorted) →
      l.filter (fun m => pyEq (client r.members) (client m)) =
        withKey clientKey (clientKey r.sorted) l := by
    intro r hr l hl
    refine List.filter_congr fun m hm => ?_
    obtain ⟨s, hs, rfl⟩ := List.mem_map.mp (hl m hm)
    rw [Bool.eq_iff_iff, client_sorted, pyEq_client_iff hx hr hs, decide_eq_true_eq,
      clientKey_sorted, clientKey_sorted]
    exact eq_comm
  rw [arranged, arranged, insertionSort_eq_iff, filter_eq_iff hkeys, List.forall_mem_map]
  refine forall₂_congr fun r hr => ?_
  rw [ofClient_eq, ofClient_eq, hclient r hr _ fun _ hm => hm,
    hclient r hr _ fun _ hm => hsame.mem_iff.mpr hm]

theorem unordered_printed {xs ys : List (Rule F)} : Unordered printed xs ys ↔
    Sortable xs ∧ Sortable ys ∧ (SameRules xs ys → SameOrder xs ys) := by
  classical
  unfold Unordered
  rw [printed_eq, printed_eq]
  constructor
  · rintro ⟨x, y, hx, hy, hiff⟩
    split_ifs at hx hy with hxs hys
    obtain rfl := Option.some_inj.mp hx
    obtain rfl := Option.some_inj.mp hy
    rw [dumps_arranged_iff] at hiff
    exact ⟨hxs, hys, fun hsame => (arranged_eq_iff hxs hsame).mp (hiff.mpr hsame)⟩
  · rintro ⟨hxs, hys, horder⟩
    refine ⟨_, _, if_pos hxs, if_pos hys, ?_⟩
    rw [dumps_arranged_iff]
    exact ⟨sameRules_of_arranged, fun hsame => (arranged_eq_iff hxs hsame).mpr (horder hsame)⟩

/-- Either form ignores the order of the rules, and nothing else, exactly where the clients of
each list have an order and rules of one client do not change places. -/
theorem unordered_iff (xs ys : List (Rule F)) :
    (Unordered norm xs ys ↔
      Sortable xs ∧ Sortable ys ∧ (SameRules xs ys → SameOrder xs ys)) ∧
    (Unordered norm_rules xs ys ↔
      Sortable xs ∧ Sortable ys ∧ (SameRules xs ys → SameOrder xs ys)) :=
  ⟨unordered_printed, unordered_printed⟩

/-- Clients that are texts have an order. -/
theorem sortable_texts {rules : List (Rule F)}
    (h : ∀ r ∈ rules, ∃ s, client r.members = .str s) : Sortable rules := by
  refine .inr (Bool.or_eq_true _ _ |>.mpr (.inl (List.all_eq_true.mpr fun v hv => ?_)))
  obtain ⟨r, hr, rfl⟩ := List.mem_map.mp hv
  obtain ⟨s, hs⟩ := h r hr
  rw [hs]

theorem ofClient_length {xs : List (Rule F)} (hx : ∀ r ∈ xs, ∃ s, client r.members = .str s)
    (hnodup : (xs.map fun r => client r.members).Nodup) {r : Rule F} (hr : r ∈ xs) :
    (ofClient r xs).length ≤ 1 := by
  obtain ⟨s, hs⟩ := hx r hr
  rw [ofClient, List.length_map]
  -- the clients of these rules are different, and are one text
  have hsub := (List.filter_sublist (p := fun s : Rule F =>
    pyEq (client r.members) (client s.members)) (l := xs)).map fun r => client r.members
  have hall : ∀ v ∈ (xs.filter fun s => pyEq (client r.members) (client s.members)).map
      (fun r => client r.members), v = .str s := by
    intro v hv
    obtain ⟨r', hr', rfl⟩ := List.mem_map.mp hv
    obtain ⟨hmem, heq⟩ := List.mem_filter.mp hr'
    obtain ⟨t, ht⟩ := hx r' hmem
    rw [hs, ht, pyEq_str] at heq
    rw [ht, heq]
  have hone := hnodup.sublist hsub
  rw [List.eq_replicate_of_mem hall, List.nodup_replicate, List.length_map] at hone
  exact hone

/-- Where no two rules have one client, the order of the rules does not matter. -/
theorem unordered_of_nodup {xs ys : List (Rule F)}
    (hx : ∀ r ∈ xs, ∃ s, client r.members = .str s) (hy : ∀ r ∈ ys, ∃ s, client r.members = .str s)
    (hnodup : (xs.map fun r => client r.members).Nodup) : Unordered printed xs ys := by
  refine unordered_printed.mpr ⟨sortable_texts hx, sortable_texts hy, fun hsame r hr => ?_⟩
  have hperm : (ofClient r xs).Perm (ofClient r ys) := by
    rw [ofClient_eq, ofClient_eq]
    exact hsame.filter _
  have hone := ofClient_length hx hnodup hr
  match hlist : ofClient r xs, hone with
  | [], _ =>
    rw [hlist] at hperm
    exact hperm.nil_eq
  | [m], _ =>
    rw [hlist] at hperm
    exact (List.perm_singleton.mp hperm.symm).symm

/-! ### Two rules of one client -/

namespace Everyone

/-- A rule for every client. -/
def rule (privilege : String) : Rule FullObject.half where
  members := [("client", .str "*"), ("privilege", .str privilege)]
  wf := ⟨by simp [Members.names], trivial, trivial, trivial⟩
  scalar := trivial

/-- Both forms tell a list from the same rules in another order. -/
theorem exchanged_differ : SameRules [rule "rw", rule "ro"] [rule "ro", rule "rw"] ∧
    norm [rule "rw", rule "ro"] ≠ norm [rule "ro", rule "rw"] ∧
    norm_rules [rule "rw", rule "ro"] ≠ norm_rules [rule "ro", rule "rw"] :=
  ⟨.swap _ _ _, by decide +kernel, by decide +kernel⟩

end Everyone

end DriftDetector
