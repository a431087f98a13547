/-
Outline group sync: the reads page by page.

Both lists are read in pages of 100 rows, Outline's by offset and Authentik's by page number.
Others insert and delete rows between the requests.  A read notes the first total and stops
where a later page says another one, or has a row that it has seen before.

A row is read as it is; `ident` is its "id" or "pk", and `key` is what the server orders by.
The checks that an answer is a JSON object with lists in the right places are left out: the
server here answers in that form, or the request fails.

* `Edit`, `Server`, `Schedule` — the server's rows, and what happens between the requests;
* `outline_list`, `authentik_list` — the program;
* `outline_list_rule`, `authentik_list_rule` — both return the pages one after another, if
  all requests succeed, all totals agree and no row is served twice.
-/
import KrgInfra.Program
import KrgInfra.OutlineSync

namespace GroupSync

/-! ### The server -/

/-- A row is inserted, or the one with an id is deleted. -/
inductive Edit (ρ ι : Type) where
  | insert (row : ρ)
  | delete (i : ι)

/-- The rows in the server's order, and all the tables there were since the first request. -/
structure Server (ρ : Type) where
  table : List ρ
  instants : List (List ρ) := []

/-- The edits before a request, which requests fail and with which text, and the text for a
page that is not there. -/
structure Schedule (ρ ι : Type) where
  edits : ℕ → List (Edit ρ ι) := fun _ => []
  fails : ℕ → Option String := fun _ => none
  noPage : String := "API request failed (404) at /api/v3/core/users/"

section Paging

variable {ρ ι κ : Type} [DecidableEq ι] [LinearOrder κ] (ident : ρ → ι) (key : ρ → κ)

/-- What an edit does: ids stay unique, and the order is kept. -/
def Edit.apply (table : List ρ) : Edit ρ ι → List ρ
  | .insert row =>
    if ident row ∈ table.map ident then table
    else table.orderedInsert (fun a b => key a ≤ key b) row
  | .delete i => table.filter fun row => ident row ≠ i

def Server.edit (w : Server ρ) (e : Edit ρ ι) : Server ρ where
  table := e.apply ident key w.table
  instants := w.instants ++ [e.apply ident key w.table]

/-- What others do before a request; what they do before the first one is not part of the
read. -/
def Schedule.before (env : Schedule ρ ι) (w : Server ρ) : ℕ → Server ρ
  | 0 => { w with instants := [w.table] }
  | n + 1 => (env.edits (n + 1)).foldl (Server.edit ident key) w

/-- The site is the number of the request. -/
def Schedule.toEnv (env : Schedule ρ ι) : Env ℕ Failure (Server ρ) where
  before n w := env.before ident key w n
  outcome n :=
    match env.fails n with
    | some text => .raise (.syncError text) false
    | none => .ok

variable (env : Schedule ρ ι)

/-- A part of a read. -/
abbrev Read (ρ α : Type) : Type := Program Failure (Server ρ) α

/-- The rows of a page: at most 100 from an offset on. -/
def pageAt (table : List ρ) (offset : ℕ) : List ρ := (table.drop offset).take 100

/-- `total_pages`: an empty list has one page too. -/
def total_pages (count : ℕ) : ℕ := max 1 ((count + 99) / 100)

/-- The answer of Outline: the total, and the rows. -/
def outline_page (n offset : ℕ) : Read ρ (ℕ × List ρ) :=
  call (env.toEnv ident key) n
    (.query fun w => .ok (w.table.length, pageAt w.table offset))

/-- The answer of Authentik. -/
structure AuthentikPage (ρ : Type) where
  total_pages : ℕ
  count : ℕ
  next : ℕ
  results : List ρ

/-- The answer of Authentik to a page number; a page that is not there is an error. -/
def authentik_answer (noPage : String) (table : List ρ) (page : ℕ) :
    Result (AuthentikPage ρ) :=
  if page > total_pages table.length then .error (.syncError noPage)
  else .ok
    { total_pages := total_pages table.length
      count := table.length
      next := if page < total_pages table.length then page + 1 else 0
      results := pageAt table (100 * (page - 1)) }

def authentik_page (n page : ℕ) : Read ρ (AuthentikPage ρ) :=
  call (env.toEnv ident key) n (.query fun w => authentik_answer env.noPage w.table page)

/-! ### The program -/

/-- `for row in batch`: every id is new. -/
def see_rows (text : String) (seen : List ι) : List ρ → Result (List ι)
  | [] => .ok seen
  | row :: rows =>
    if ident row ∈ seen then .error (.syncError text)
    else see_rows text (seen ++ [ident row]) rows

/-- The loop of `outline_list`, at request `n`. -/
def outline_loop (n : ℕ) (total : Option ℕ) (offset : ℕ) (rows : List ρ) (seen : List ι) :
    Read ρ (List ρ) := do
  let (current_total, batch) ← outline_page ident key env n offset
  let total' := total.getD current_total
  if current_total ≠ total' then
    throw (.syncError "Outline changed during pagination; retry")
  else
    match see_rows ident "Duplicate Outline result during pagination" seen batch with
    | .error e => throw e
    | .ok seen =>
      if _hend : offset + batch.length = total' then return rows ++ batch
      else if _hbad : batch = [] ∨ offset + batch.length > total' then
        throw (.syncError "Incomplete Outline pagination")
      else outline_loop (n + 1) (some total') (offset + batch.length) (rows ++ batch) seen
termination_by (total.elim 1 fun _ => 0, total.getD 0 - offset)
decreasing_by
  rw [not_or] at _hbad
  have hbatch : 0 < batch.length := List.length_pos_iff.mpr _hbad.1
  cases total with
  | none => exact Prod.Lex.left _ _ Nat.zero_lt_one
  | some t =>
    refine Prod.Lex.right _ ?_
    simp only [total', Option.getD_some] at _hend _hbad ⊢
    omega

/-- `outline_list` -/
def outline_list : Read ρ (List ρ) := outline_loop ident key env 0 none 0 [] []

/-- The loop of `authentik_list`; the number of the request is the page before. -/
def authentik_loop (page : ℕ) (pages : Option (ℕ × ℕ)) (rows : List ρ) (seen : List ι) :
    Read ρ (List ρ) := do
  let pagination ← authentik_page ident key env (page - 1) page
  let pages' := pages.getD (pagination.total_pages, pagination.count)
  if (pagination.total_pages, pagination.count) ≠ pages' then
    throw (.syncError "Authentik changed during pagination; retry")
  else
    match see_rows ident "Duplicate Authentik result during pagination" seen pagination.results with
    | .error e => throw e
    | .ok seen =>
      if pagination.next = 0 then
        if (rows ++ pagination.results).length ≠ pages'.2 ∨ page ≠ max 1 pages'.1 then
          throw (.syncError "Incomplete Authentik pagination")
        else return rows ++ pagination.results
      else if _hbad : pagination.results = [] ∨ page ≥ pages'.1 then
        throw (.syncError "Invalid Authentik pagination")
      else authentik_loop (page + 1) (some pages') (rows ++ pagination.results) seen
termination_by (pages.elim 1 fun _ => 0, (pages.getD (0, 0)).1 - page)
decreasing_by
  rw [not_or] at _hbad
  cases pages with
  | none => exact Prod.Lex.left _ _ Nat.zero_lt_one
  | some p =>
    refine Prod.Lex.right _ ?_
    simp only [pages', Option.getD_some] at _hbad ⊢
    omega

/-- `authentik_list` -/
def authentik_list : Read ρ (List ρ) := authentik_loop ident key env 1 none [] []

/-! ### What is read -/

/-- The server after some requests. -/
def Schedule.world (w : Server ρ) : ℕ → Server ρ
  | 0 => w
  | n + 1 => env.before ident key (world w n) n

variable (w : Server ρ)

/-- The table that a request is answered from. -/
def Schedule.tableAt (n : ℕ) : List ρ := (env.world ident key w (n + 1)).table

/-- The rows of the first pages. -/
def Schedule.readUpTo : ℕ → List ρ
  | 0 => []
  | n + 1 => readUpTo n ++ pageAt (env.tableAt ident key w n) (100 * n)

/-- The number of requests, as the first total has it. -/
def requests : ℕ := total_pages w.table.length

/-- The first requests succeed, say the same total, and serve no row twice. -/
structure AgreesUpTo (n : ℕ) : Prop where
  answers : ∀ m < n, env.fails m = none
  count : ∀ m < n, (env.tableAt ident key w m).length = w.table.length
  distinct : ((env.readUpTo ident key w n).map ident).Nodup

/-- All requests agree. -/
def Consistent : Prop := AgreesUpTo ident key env w (requests w)

end Paging

section Rules

variable {ρ ι κ : Type} [DecidableEq ι] [LinearOrder κ] {ident : ρ → ι} {key : ρ → κ}
  {env : Schedule ρ ι} {w : Server ρ} {n : ℕ}

/-- The loop over the rows of a page. -/
theorem see_rows_eq (text : String) {seen : List ι} (h : seen.Nodup) (rows : List ρ) :
    see_rows ident text seen rows =
      if (seen ++ rows.map ident).Nodup then .ok (seen ++ rows.map ident)
      else .error (.syncError text) := by
  induction rows generalizing seen with
  | nil => rw [List.map_nil, List.append_nil, if_pos h, see_rows]
  | cons row rows ih =>
    rw [see_rows]
    by_cases hmem : ident row ∈ seen
    · rw [if_pos hmem, if_neg fun hnodup => ?_]
      exact List.disjoint_of_nodup_append hnodup hmem List.mem_cons_self
    · have hseen : (seen ++ [ident row]).Nodup :=
        List.nodup_append.mpr ⟨h, List.nodup_singleton _, fun a ha b hb => by
          rw [List.mem_singleton.mp hb]
          exact fun he => hmem (he ▸ ha)⟩
      rw [if_neg hmem, ih hseen, List.map_cons, List.append_assoc, List.singleton_append]

theorem agreesUpTo_zero : AgreesUpTo ident key env w 0 where
  answers _ h := absurd h (Nat.not_lt_zero _)
  count _ h := absurd h (Nat.not_lt_zero _)
  distinct := List.nodup_nil

theorem AgreesUpTo.mono {m : ℕ} (h : AgreesUpTo ident key env w n) (hm : m ≤ n) :
    AgreesUpTo ident key env w m where
  answers k hk := h.answers k (by omega)
  count k hk := h.count k (by omega)
  distinct := by
    have hbegins : ∀ d, env.readUpTo ident key w m <+: env.readUpTo ident key w (m + d) := by
      intro d
      induction d with
      | zero => exact List.prefix_rfl
      | succ d ih => exact ih.trans (List.prefix_append _ _)
    obtain ⟨d, rfl⟩ := Nat.exists_eq_add_of_le hm
    exact h.distinct.sublist ((hbegins d).map ident).sublist

/-- The last request is the one whose page ends the table. -/
theorem last_request (h : n < requests w) : 100 * n ≤ w.table.length ∧
    (n + 1 < requests w ↔ 100 * (n + 1) < w.table.length) := by
  unfold requests total_pages at h ⊢
  omega

theorem requests_pos : 0 < requests w := by
  unfold requests total_pages
  omega

/-- One more request. -/
theorem AgreesUpTo.succ (h : AgreesUpTo ident key env w n) (hanswer : env.fails n = none)
    (hcount : (env.tableAt ident key w n).length = w.table.length)
    (hdistinct : ((env.readUpTo ident key w (n + 1)).map ident).Nodup) :
    AgreesUpTo ident key env w (n + 1) where
  answers k hk := by
    obtain hk | rfl := Nat.lt_succ_iff_lt_or_eq.mp hk
    · exact h.answers k hk
    · exact hanswer
  count k hk := by
    obtain hk | rfl := Nat.lt_succ_iff_lt_or_eq.mp hk
    · exact h.count k hk
    · exact hcount
  distinct := hdistinct

theorem length_pageAt (table : List ρ) (offset : ℕ) :
    (pageAt table offset).length = min 100 (table.length - offset) := by
  rw [pageAt, List.length_take, List.length_drop]

/-- All pages but the last are full. -/
theorem AgreesUpTo.length (h : AgreesUpTo ident key env w n) :
    (env.readUpTo ident key w n).length = min (100 * n) w.table.length := by
  induction n with
  | zero => simp [Schedule.readUpTo]
  | succ n ih =>
    have hcount := h.count n (by omega)
    rw [Schedule.readUpTo, List.length_append, ih (h.mono (by omega)), length_pageAt, hcount]
    omega

/-- A request: it fails, or it is answered from the table that is there then. -/
theorem request_rule {α : Type} {f : Server ρ → Except Failure α} :
    Triple (fun _ => True) (· = env.world ident key w n)
      (call (env.toEnv ident key) n (.query f))
      (fun a w' => env.fails n = none ∧ f (env.world ident key w (n + 1)) = .ok a ∧
        w' = env.world ident key w (n + 1))
      (fun e _ => (env.fails n = none ∧ f (env.world ident key w (n + 1)) = .error e) ∨
        (∃ text, e = .syncError text) ∧ env.fails n ≠ none) := by
  have houtcome : (env.toEnv ident key).outcome n = .ok → env.fails n = none := by
    show (match env.fails n with | some text => _ | none => _) = _ → _
    cases env.fails n with
    | none => exact fun _ => rfl
    | some text => exact fun h => nomatch h
  refine Triple.call_from.conseq (fun _ _ h => h) ?_ ?_
  · rintro a w' - ⟨ho, hact⟩
    obtain ⟨ha, hw⟩ := Prod.mk.inj hact
    exact ⟨houtcome ho, ha, hw.symm⟩
  · rintro e w' - (⟨ho, hact⟩ | ⟨done, ho, -⟩)
    · exact .inl ⟨houtcome ho, (Prod.mk.inj hact).1⟩
    · refine .inr ?_
      have ho : (match env.fails n with | some text => _ | none => _) = Outcome.raise e done := ho
      cases hfails : env.fails n with
      | none =>
        rw [hfails] at ho
        exact nomatch ho
      | some text =>
        rw [hfails] at ho
        obtain ⟨rfl, -⟩ := Outcome.raise.inj ho
        exact ⟨⟨text, rfl⟩, by simp⟩

/-- The end of a read: it has read the pages, if they agree, and else it raises. -/
def ReadsPages (ident : ρ → ι) (key : ρ → κ) (env : Schedule ρ ι) (w : Server ρ)
    (pre : Server ρ) (read : Read ρ (List ρ)) : Prop :=
  Triple (fun _ => True) (· = pre) read
    (fun rows w' => Consistent ident key env w ∧
      rows = env.readUpTo ident key w (requests w) ∧ w' = env.world ident key w (requests w))
    (fun e _ => (∃ text, e = .syncError text) ∧ ¬ Consistent ident key env w)

/-- The loop over the rows of the next page. -/
theorem AgreesUpTo.see_rows (h : AgreesUpTo ident key env w n) (text : String) :
    see_rows ident text ((env.readUpTo ident key w n).map ident)
        (pageAt (env.tableAt ident key w n) (100 * n)) =
      if ((env.readUpTo ident key w (n + 1)).map ident).Nodup then
        .ok ((env.readUpTo ident key w (n + 1)).map ident)
      else .error (.syncError text) := by
  rw [see_rows_eq text h.distinct, ← List.map_append]
  rfl

/-- The loop of `outline_list`, after `n` requests that agree. -/
theorem outline_loop_rule (k : ℕ) : ∀ n total, n < requests w → requests w ≤ n + k →
    (total = some w.table.length ∨ n = 0 ∧ total = none) → AgreesUpTo ident key env w n →
    ReadsPages ident key env w (env.world ident key w n)
      (outline_loop ident key env n total (100 * n) (env.readUpTo ident key w n)
        ((env.readUpTo ident key w n).map ident)) := by
  induction k with
  | zero => exact fun n _ hn hk => absurd hn (by omega)
  | succ k ih =>
    intro n total hn hk htotal hagrees
    have hlast := last_request hn
    rw [ReadsPages, outline_loop]
    refine Triple.bind (request_rule.except ?_) fun a => ?_
    · rintro e w' - (⟨-, he⟩ | ⟨htext, hfails⟩)
      · exact nomatch he
      · exact ⟨htext, fun h => hfails (h.answers n hn)⟩
    refine Triple.of_fact fun hanswer => Triple.of_fact fun ha => ?_
    obtain rfl := Except.ok.inj ha
    have htotal : total.getD (env.tableAt ident key w n).length = w.table.length := by
      obtain rfl | ⟨rfl, rfl⟩ := htotal
      · rfl
      · rfl
    have htable : (env.world ident key w (n + 1)).table = env.tableAt ident key w n := rfl
    have hrows : env.readUpTo ident key w n ++ pageAt (env.tableAt ident key w n) (100 * n) =
      env.readUpTo ident key w (n + 1) := rfl
    show Triple _ _ (if (env.tableAt ident key w n).length ≠
      total.getD (env.tableAt ident key w n).length then _ else _) _ _
    by_cases hcount : (env.tableAt ident key w n).length = w.table.length
    swap
    · rw [htotal, if_pos hcount]
      exact Triple.throw fun _ _ _ => ⟨⟨_, rfl⟩, fun h => hcount (h.count n hn)⟩
    rw [htotal, if_neg (not_not.mpr hcount), htable, hagrees.see_rows]
    by_cases hdistinct : ((env.readUpTo ident key w (n + 1)).map ident).Nodup
    swap
    · rw [if_neg hdistinct]
      exact Triple.throw fun _ _ _ => ⟨⟨_, rfl⟩, fun h => hdistinct (h.mono hn).distinct⟩
    have hagrees : AgreesUpTo ident key env w (n + 1) := hagrees.succ hanswer hcount hdistinct
    rw [if_pos hdistinct, htotal, hrows]
    show Triple _ _ (if _ : 100 * n + (pageAt (env.tableAt ident key w n) (100 * n)).length =
      w.table.length then _ else _) _ _
    have hlength : 100 * n + (pageAt (env.tableAt ident key w n) (100 * n)).length =
        min (100 * (n + 1)) w.table.length := by
      rw [length_pageAt, hcount]
      omega
    by_cases hend : n + 1 = requests w
    · rw [dif_pos (by omega)]
      refine Triple.pure fun w' _ h => ?_
      rw [← hend]
      exact ⟨by rwa [Consistent, ← hend], rfl, h⟩
    · have hfull : 100 * n + (pageAt (env.tableAt ident key w n) (100 * n)).length =
          100 * (n + 1) := by omega
      have hbatch : pageAt (env.tableAt ident key w n) (100 * n) ≠ [] := by
        refine List.ne_nil_of_length_pos ?_
        omega
      rw [dif_neg (by omega)]
      show Triple _ _ (if _ : pageAt (env.tableAt ident key w n) (100 * n) = [] ∨
        100 * n + (pageAt (env.tableAt ident key w n) (100 * n)).length > w.table.length then _
        else _) _ _
      rw [dif_neg (not_or.mpr ⟨hbatch, by omega⟩), hfull]
      exact ih (n + 1) _ (by omega) (by omega) (.inl rfl) hagrees

/-- `outline_list` -/
theorem outline_list_rule : ReadsPages ident key env w w (outline_list ident key env) :=
  outline_loop_rule (requests w) 0 none requests_pos (by omega) (.inr ⟨rfl, rfl⟩)
    agreesUpTo_zero

theorem authentik_answer_error {noPage : String} {table : List ρ} {page : ℕ} {e : Failure}
    (h : authentik_answer noPage table page = .error e) :
    (∃ text, e = .syncError text) ∧ total_pages table.length < page := by
  by_cases hpage : page > total_pages table.length
  · rw [authentik_answer, if_pos hpage] at h
    exact ⟨⟨noPage, (Except.error.inj h).symm⟩, hpage⟩
  · rw [authentik_answer, if_neg hpage] at h
    exact nomatch h

theorem authentik_answer_ok {noPage : String} {table : List ρ} {page : ℕ} {a : AuthentikPage ρ}
    (h : authentik_answer noPage table page = .ok a) :
    a = ⟨total_pages table.length, table.length,
      if page < total_pages table.length then page + 1 else 0,
      pageAt table (100 * (page - 1))⟩ := by
  by_cases hpage : page > total_pages table.length
  · rw [authentik_answer, if_pos hpage] at h
    exact nomatch h
  · rw [authentik_answer, if_neg hpage] at h
    exact (Except.ok.inj h).symm

/-- The loop of `authentik_list`, after `n` requests that agree. -/
theorem authentik_loop_rule (k : ℕ) : ∀ n pages, n < requests w → requests w ≤ n + k →
    (pages = some (requests w, w.table.length) ∨ n = 0 ∧ pages = none) →
    AgreesUpTo ident key env w n →
    ReadsPages ident key env w (env.world ident key w n)
      (authentik_loop ident key env (n + 1) pages (env.readUpTo ident key w n)
        ((env.readUpTo ident key w n).map ident)) := by
  induction k with
  | zero => exact fun n _ hn hk => absurd hn (by omega)
  | succ k ih =>
    intro n pages hn hk hpages hagrees
    have hlast := last_request hn
    rw [ReadsPages, authentik_loop]
    refine Triple.bind (request_rule.except ?_) fun a => ?_
    · rintro e w' - (⟨-, he⟩ | ⟨htext, hfails⟩)
      · -- a page that is not there: the total is another one
        obtain ⟨htext, hpage⟩ := authentik_answer_error he
        refine ⟨htext, fun h => ?_⟩
        rw [show (env.world ident key w (n + 1)).table.length = _ from h.count n hn] at hpage
        exact absurd hpage (Nat.not_lt.mpr hn)
      · exact ⟨htext, fun h => hfails (h.answers n hn)⟩
    refine Triple.of_fact fun hanswer => Triple.of_fact fun ha => ?_
    obtain rfl := authentik_answer_ok ha
    have hrows : env.readUpTo ident key w n ++ pageAt (env.tableAt ident key w n) (100 * n) =
      env.readUpTo ident key w (n + 1) := rfl
    have hpages : pages.getD (total_pages (env.tableAt ident key w n).length,
        (env.tableAt ident key w n).length) = (requests w, w.table.length) := by
      obtain rfl | ⟨rfl, rfl⟩ := hpages
      · rfl
      · rfl
    dsimp only
    rw [show (env.world ident key w (n + 1)).table = env.tableAt ident key w n from rfl, hpages,
      Nat.add_sub_cancel]
    by_cases hcount : (env.tableAt ident key w n).length = w.table.length
    swap
    · rw [if_pos fun h => hcount (Prod.mk.inj h).2]
      exact Triple.throw fun _ _ _ => ⟨⟨_, rfl⟩, fun h => hcount (h.count n hn)⟩
    rw [hcount, show total_pages w.table.length = requests w from rfl, if_neg (not_not.mpr rfl),
      hagrees.see_rows]
    by_cases hdistinct : ((env.readUpTo ident key w (n + 1)).map ident).Nodup
    swap
    · rw [if_neg hdistinct]
      exact Triple.throw fun _ _ _ => ⟨⟨_, rfl⟩, fun h => hdistinct (h.mono hn).distinct⟩
    have hagrees : AgreesUpTo ident key env w (n + 1) := hagrees.succ hanswer hcount hdistinct
    rw [if_pos hdistinct, hrows]
    by_cases hend : n + 1 = requests w
    · dsimp only
      rw [if_neg (show ¬ n + 1 < requests w by omega), if_pos rfl, if_neg ?_]
      · refine Triple.pure fun w' _ h => ?_
        rw [← hend]
        exact ⟨by rwa [Consistent, ← hend], rfl, h⟩
      · rw [hagrees.length]
        omega
    · dsimp only
      rw [if_pos (show n + 1 < requests w by omega), if_neg (Nat.succ_ne_zero _), dif_neg ?_]
      · exact ih (n + 1) _ (by omega) (by omega) (.inl rfl) hagrees
      · refine not_or.mpr ⟨List.ne_nil_of_length_pos ?_, by omega⟩
        rw [length_pageAt, hcount]
        omega

/-- `authentik_list` -/
theorem authentik_list_rule : ReadsPages ident key env w w (authentik_list ident key env) :=
  authentik_loop_rule (requests w) 0 none requests_pos (by omega) (.inr ⟨rfl, rfl⟩)
    agreesUpTo_zero

end Rules

end GroupSync
