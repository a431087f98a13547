/-
Outline group sync: reads from a server that may answer anything.

A read asks for page after page and believes the server's numbers: it ends when the rows are as
many as the first answer said, and raises when an answer contradicts an earlier one.  Nothing is
known of the answers here: they may fail, be no JSON, lack members or have others in their
place, repeat rows, or change their totals.

* `Reply`, `request` — what comes back, and `API.request`;
* `outline_list`, `authentik_list` — the program;
* `outline_page_ok`, `authentik_page_ok` — what a page that is taken has passed;
* `outline_list_ends`, `authentik_list_ends` — a read ends within as many requests as the first
  answer says, unless that is infinitely many.
-/
import KrgInfra.OutlinePlan
import KrgInfra.PyValue
import KrgInfra.Turns
import Mathlib.Algebra.Order.Floor.Semiring
import Mathlib.Data.Rat.Floor

namespace GroupSync.API

open Py

/-- A `SyncError`, or the exception of an object that is not of the right kind. -/
inductive Raised where
  | syncError (text : String)
  | python (e : Exn)
  deriving DecidableEq

/-- A request: `get` of Authentik, `post` of Outline. -/
inductive Request where
  | get (path : String)
  | post (method : String) (body : List (String × Value))

/-- What comes back: an HTTP error or none, with the text that its `SyncError` has; a body that
is no JSON; or a JSON value. -/
inductive Reply where
  | failed (text : String)
  | invalid
  | body (value : Value)

/-- A program that sends requests; the state are those that it has sent. -/
abbrev Talk (α : Type) : Type := Program (Stop Raised) (List Request) α

def syncError {α : Type} (text : String) : Except Raised α := .error (.syncError text)

def python {α : Type} (x : Except Exn α) : Except Raised α := x.mapError .python

/-- `response.json()`, which has to be a dictionary. -/
def Reply.json : Reply → Except Raised Value
  | .failed text => syncError text
  | .invalid => syncError "API returned invalid JSON"
  | .body (.dict members) => .ok (.dict members)
  | .body _ => syncError "API returned an unexpected response"

section Program

-- the server replies to the last of all the requests that it has received
variable (server : List Request → Reply)

/-- The server's reply to a request, which it has then received. -/
def reply (r : Request) : Work (Stop Raised) (List Request) Value :=
  fun sent => ((server (sent ++ [r])).json.mapError .raised, sent ++ [r])

/-- `API.request` -/
def request (r : Request) : Talk Value :=
  call ({} : Env Request (Stop Raised) (List Request)) r (reply server r)

/-! ### The rows of a page -/

/-- `row[name]`, as an element of `seen`. -/
def row_key (name : String) (row : Value) : Except Raised Key :=
  python do (← row.item name).hash

/-- `for row in batch`: every key is new. -/
def see_rows (name text : String) (seen : List Key) : List Value → Except Raised (List Key)
  | [] => .ok seen
  | row :: rows => do
    let key ← row_key name row
    if key ∈ seen then syncError text
    else see_rows name text (seen ++ [key]) rows

/-! ### Outline -/

/-- `result.get("ok") is not True` -/
def outline_result (method : String) (result : Value) : Except Raised Value := do
  let ok ← python (result.get "ok")
  if ok.isTrue then return result else syncError ("Outline rejected " ++ method)

/-- `API.outline` -/
def outline (method : String) (body : List (String × Value)) : Talk Value := do
  let result ← request server (.post method body)
  orRaise (outline_result method result)

/-- The variables of the loop of `outline_list`. -/
structure OutlineReading where
  total : Value := .null
  offset : ℕ := 0
  rows : List Value := []
  seen : List Key := []

/-- `result["data"][key] if key else result["data"]` -/
def outline_rows (key : Option String) (result : Value) : Except Raised Value := do
  let data ← python (result.item "data")
  match key with
  | some key => python (data.item key)
  | none => return data

/-- The total that the answers have to have: the first one's. -/
def OutlineReading.totalOr (s : OutlineReading) (current_total : Value) : Value :=
  match s.total with
  | .null => current_total
  | total => total

/-- The total of an answer of Outline. -/
def outline_total (result : Value) : Except Raised Value := do
  let pagination ← python (result.item "pagination")
  python (pagination.item "total")

/-- What the loop of `outline_list` does with an answer. -/
def outline_page (key : Option String) (s : OutlineReading) (result : Value) :
    Except Raised (List Value ⊕ OutlineReading) := do
  let current_total ← outline_total result
  let total := s.totalOr current_total
  if current_total.differs total then syncError "Outline changed during pagination; retry"
  else
    match ← outline_rows key result with
    | .list batch =>
      let seen ← see_rows "id" "Duplicate Outline result during pagination" s.seen batch
      let rows := s.rows ++ batch
      let offset := s.offset + batch.length
      if total.equalsNat offset then return .inl rows
      else if batch.isEmpty then syncError "Incomplete Outline pagination"
      else
        let x ← python total.asNumber
        if x.lt (.finite offset) then syncError "Incomplete Outline pagination"
        else return .inr ⟨total, offset, rows, seen⟩
    | _ => syncError "Invalid Outline results"

/-- The body of the request for the rows from an offset on. -/
def paged (body : List (String × Value)) (offset : ℕ) : List (String × Value) :=
  ("offset", .nat offset) :: ("limit", .nat 100) :: body

/-- A turn of the loop of `outline_list`. -/
def outline_turn (method : String) (key : Option String) (body : List (String × Value))
    (s : OutlineReading) : Talk (List Value ⊕ OutlineReading) := do
  let result ← outline server method (paged body s.offset)
  orRaise (outline_page key s result)

/-- `outline_list`, for `n` requests. -/
def outline_list (method : String) (key : Option String) (body : List (String × Value)) (n : ℕ) :
    Talk (List Value) :=
  turns (outline_turn server method key body) n {}

/-! ### Authentik -/

/-- The variables of the loop of `authentik_list`. -/
structure AuthentikReading where
  page : ℕ := 1
  pages : Value := .null
  count : Value := .null
  rows : List Value := []
  seen : List Key := []

/-- The totals that the answers have to have: the first one's. -/
def AuthentikReading.totalsOr (s : AuthentikReading) (totals : Value × Value) : Value × Value :=
  match s.pages with
  | .null => totals
  | pages => (pages, s.count)

/-- The total of pages, and that of rows, of an answer of Authentik. -/
def authentik_totals (result : Value) : Except Raised (Value × Value) := do
  let pagination ← python (result.item "pagination")
  let total_pages ← python (pagination.item "total_pages")
  let count ← python (pagination.item "count")
  return (total_pages, count)

/-- What the loop of `authentik_list` does with an answer. -/
def authentik_page (s : AuthentikReading) (result : Value) :
    Except Raised (List Value ⊕ AuthentikReading) := do
  let current ← authentik_totals result
  let pages := (s.totalsOr current).1
  let count := (s.totalsOr current).2
  if !(current.1.same pages && current.2.same count) then
    syncError "Authentik changed during pagination; retry"
  else
    match ← python (result.item "results") with
    | .list batch =>
      let seen ← see_rows "pk" "Duplicate Authentik result during pagination" s.seen batch
      let rows := s.rows ++ batch
      let pagination ← python (result.item "pagination")
      let next ← python (pagination.item "next")
      if !next.truthy then
        if !(count.equalsNat rows.length) then syncError "Incomplete Authentik pagination"
        else
          let x ← python pages.asNumber
          if !(((Number.finite 1).max x).eq (.finite s.page)) then
            syncError "Incomplete Authentik pagination"
          else return .inl rows
      else if batch.isEmpty then syncError "Invalid Authentik pagination"
      else
        let x ← python pages.asNumber
        if (Number.finite s.page).ge x then syncError "Invalid Authentik pagination"
        else return .inr ⟨s.page + 1, pages, count, rows, seen⟩
    | _ => syncError "Invalid Authentik results"

/-- The request for a page. -/
def authentik_request (path : String) (page : ℕ) : Request :=
  .get (path ++ (if '?' ∈ path.toList then "&" else "?") ++ "page=" ++ toString page ++
    "&page_size=100")

/-- A turn of the loop of `authentik_list`. -/
def authentik_turn (path : String) (s : AuthentikReading) :
    Talk (List Value ⊕ AuthentikReading) := do
  let result ← request server (authentik_request path s.page)
  orRaise (authentik_page s result)

/-- `authentik_list`, for `n` requests. -/
def authentik_list (path : String) (n : ℕ) : Talk (List Value) :=
  turns (authentik_turn server path) n {}

end Program

/-! ### What a page that is taken has passed -/

/-- The rows have the keys `seen`, each its own. -/
structure Seen (name : String) (rows : List Value) (seen : List Key) : Prop where
  keys : rows.map (row_key name) = seen.map Except.ok
  nodup : seen.Nodup

/-- Every row has a key, each its own. -/
def Distinct (name : String) (rows : List Value) : Prop := ∃ seen, Seen name rows seen

theorem see_rows_ok {name text : String} {batch : List Value} :
    ∀ {rows : List Value} {seen seen' : List Key}, Seen name rows seen →
      see_rows name text seen batch = .ok seen' → Seen name (rows ++ batch) seen' := by
  induction batch with
  | nil =>
    rintro rows seen seen' h hok
    obtain rfl := Except.ok.inj hok
    rwa [List.append_nil]
  | cons row batch ih =>
    intro rows seen seen' h hok
    obtain ⟨key, hkey, hok⟩ := bind_ok.mp hok
    split_ifs at hok with hmem
    · exact nomatch hok
    · have hrow : Seen name (rows ++ [row]) (seen ++ [key]) := by
        refine ⟨?_, ?_⟩
        · rw [List.map_append, List.map_append, h.keys, List.map_singleton, hkey,
            List.map_singleton]
        · refine List.nodup_append.mpr ⟨h.nodup, List.nodup_singleton _, fun a ha b hb hab => ?_⟩
          rw [List.mem_singleton] at hb
          exact hmem (hb ▸ hab ▸ ha)
      have hall := ih hrow hok
      rwa [List.append_assoc, List.singleton_append] at hall

/-- A number that a count has not reached, and that does not differ from itself. -/
theorem not_reached {x : Number} {n : ℕ} (hnan : x ≠ .nan) (hne : x ≠ .finite n)
    (hlt : x.lt (.finite n) = false) : x = .infinity ∨ ∃ q : ℚ, x = .finite q ∧ (n : ℚ) < q := by
  cases x with
  | infinity => exact .inl rfl
  | nan => exact absurd rfl hnan
  | negInfinity => exact nomatch hlt
  | finite q =>
    refine .inr ⟨q, rfl, ?_⟩
    have hle : ¬ q < n := by simpa [Number.lt] using hlt
    have hne : (n : ℚ) ≠ q := fun h => hne (by rw [h])
    exact lt_of_le_of_ne (not_lt.mp hle) hne

theorem python_asNumber {value : Value} {x : Number} (h : python value.asNumber = .ok x) :
    value.number? = some x := by
  unfold python Value.asNumber at h
  cases hv : value.number? with
  | none =>
    rw [hv] at h
    exact nomatch h
  | some y =>
    rw [hv] at h
    rw [Except.ok.inj h]

/-- The rows of the loop of `outline_list` are as many as its offset says. -/
structure OutlineReading.Sound (s : OutlineReading) : Prop where
  seen : Seen "id" s.rows s.seen
  length : s.rows.length = s.offset

/-- What an answer leads to whose total is `x`: the read ends with as many rows, or has not
reached it. -/
def OutlineReading.Next (s : OutlineReading) (total : Value) (x : Number) :
    List Value ⊕ OutlineReading → Prop
  | .inl rows => x = .finite rows.length ∧ Distinct "id" rows
  | .inr s' => s'.Sound ∧ s'.total = total ∧ s.offset < s'.offset ∧
      (x = .infinity ∨ ∃ q : ℚ, x = .finite q ∧ (s'.offset : ℚ) < q)

/-- An answer of Outline that is taken has a number for its total. -/
theorem outline_page_ok {key : Option String} {s : OutlineReading} {result : Value}
    {r : List Value ⊕ OutlineReading} (hs : s.Sound) (h : outline_page key s result = .ok r) :
    ∃ current x, outline_total result = .ok current ∧ (s.totalOr current).number? = some x ∧
      s.Next (s.totalOr current) x r := by
  obtain ⟨current, hcurrent, h⟩ := bind_ok.mp h
  dsimp only at h
  split_ifs at h with hdiffers
  · exact nomatch h
  obtain ⟨data, -, h⟩ := bind_ok.mp h
  cases data with
  | null => exact nomatch h
  | bool b => exact nomatch h
  | number x => exact nomatch h
  | str s => exact nomatch h
  | dict members => exact nomatch h
  | list batch =>
    obtain ⟨seen, hseen, h⟩ := bind_ok.mp h
    have hseen := see_rows_ok hs.seen hseen
    have hlength : (s.rows ++ batch).length = s.offset + batch.length := by
      rw [List.length_append, hs.length]
    refine ⟨current, ?_⟩
    by_cases hequal : (s.totalOr current).equalsNat (s.offset + batch.length) = true
    · rw [if_pos hequal] at h
      obtain rfl := Except.ok.inj h
      refine ⟨_, hcurrent, Value.equalsNat_iff.mp hequal, ?_, seen, hseen⟩
      rw [hlength]
    rw [if_neg hequal] at h
    split_ifs at h with hempty
    · exact nomatch h
    obtain ⟨x, hx, h⟩ := bind_ok.mp h
    have hx := python_asNumber hx
    split_ifs at h with hlt
    · exact nomatch h
    obtain rfl := Except.ok.inj h
    have hbatch : 0 < batch.length := by
      rw [List.length_pos_iff]
      simpa using hempty
    have hnan := Value.number_of_not_differs (Bool.eq_false_iff.mpr hdiffers) hx
    refine ⟨x, hcurrent, hx, ⟨hseen, hlength⟩, rfl, ?_, ?_⟩
    · show s.offset < s.offset + batch.length
      omega
    · refine not_reached hnan (fun he => hequal ?_) (Bool.eq_false_iff.mpr hlt)
      rw [Value.equalsNat_iff, hx, he]

/-- What an answer leads to whose total of pages is `x`: the read ends with as many rows as the
total of rows says, or has not reached the last page. -/
def AuthentikReading.Next (s : AuthentikReading) (totals : Value × Value) (x : Number) :
    List Value ⊕ AuthentikReading → Prop
  | .inl rows => totals.2.number? = some (.finite rows.length) ∧ Distinct "pk" rows
  | .inr s' => Seen "pk" s'.rows s'.seen ∧ (s'.pages, s'.count) = totals ∧
      s'.page = s.page + 1 ∧
      (x = .infinity ∨ x = .nan ∨ ∃ q : ℚ, x = .finite q ∧ (s.page : ℚ) < q)

/-- An answer of Authentik that is taken has a number for its total of pages. -/
theorem authentik_page_ok {s : AuthentikReading} {result : Value}
    {r : List Value ⊕ AuthentikReading} (hs : Seen "pk" s.rows s.seen)
    (h : authentik_page s result = .ok r) :
    ∃ current x, authentik_totals result = .ok current ∧
      (s.totalsOr current).1.number? = some x ∧ s.Next (s.totalsOr current) x r := by
  obtain ⟨current, hcurrent, h⟩ := bind_ok.mp h
  dsimp only at h
  split_ifs at h with hsame
  · exact nomatch h
  obtain ⟨data, -, h⟩ := bind_ok.mp h
  cases data with
  | null => exact nomatch h
  | bool b => exact nomatch h
  | number x => exact nomatch h
  | str s => exact nomatch h
  | dict members => exact nomatch h
  | list batch =>
    obtain ⟨seen, hseen, h⟩ := bind_ok.mp h
    have hseen := see_rows_ok hs hseen
    obtain ⟨pagination, -, h⟩ := bind_ok.mp h
    obtain ⟨next, -, h⟩ := bind_ok.mp h
    refine ⟨current, ?_⟩
    by_cases hnext : (!next.truthy) = true
    · rw [if_pos hnext] at h
      split_ifs at h with hcount
      · exact nomatch h
      obtain ⟨x, hx, h⟩ := bind_ok.mp h
      split_ifs at h with hpage
      · exact nomatch h
      obtain rfl := Except.ok.inj h
      refine ⟨x, hcurrent, python_asNumber hx, Value.equalsNat_iff.mp ?_, seen, hseen⟩
      simpa using hcount
    · rw [if_neg hnext] at h
      split_ifs at h with hempty
      · exact nomatch h
      obtain ⟨x, hx, h⟩ := bind_ok.mp h
      split_ifs at h with hge
      · exact nomatch h
      obtain rfl := Except.ok.inj h
      refine ⟨x, hcurrent, python_asNumber hx, hseen, rfl, rfl, ?_⟩
      cases x with
      | infinity => exact .inl rfl
      | nan => exact .inr (.inl rfl)
      | negInfinity => exact absurd rfl hge
      | finite q =>
        refine .inr (.inr ⟨q, rfl, ?_⟩)
        simp only [Number.ge, Number.lt, Number.eq, Bool.or_eq_true, not_or] at hge
        have hle : ¬ q < s.page := by simpa using hge.1
        have hne : (s.page : ℚ) ≠ q := by simpa using hge.2
        exact lt_of_le_of_ne (not_lt.mp hle) hne

/-! ### The reads end -/

/-- The answer of Outline that a reply is. -/
def Reply.outline (method : String) (reply : Reply) : Except Raised Value := do
  let result ← reply.json
  outline_result method result

/-- The total that a reply of Outline says. -/
def Reply.total (method : String) (reply : Reply) : Option Value :=
  (reply.outline method >>= outline_total).toOption

/-- The total of pages, and that of rows, that a reply of Authentik says. -/
def Reply.totals (reply : Reply) : Option (Value × Value) :=
  (reply.json >>= authentik_totals).toOption

/-- How many requests a total allows: one at least. -/
def most (total : Option Value) : ℕ :=
  match total.bind Value.number? with
  | some (.finite q) => max 1 ⌈q⌉₊
  | _ => 1

/-- Whatever the number of turns that a read is given beyond `bound`: it is not left unfinished,
and has sent no more than `bound` requests when it returns good rows or raises. -/
def EndsWithin (bound : ℕ) (sent : List Request) (good : List Value → Prop)
    (read : ℕ → Talk (List Value)) : Prop :=
  ∀ n, bound ≤ n → Triple (fun _ => True) (· = sent) (read n)
    (fun rows sent' => good rows ∧ sent'.length ≤ sent.length + bound)
    (fun e sent' => (∃ x, e = .raised x) ∧ sent'.length ≤ sent.length + bound)

section Rules

variable {server : List Request → Reply} {w : List Request}

/-- A request is sent, and its reply is a dictionary or raises. -/
theorem request_rule {r : Request} : Triple (fun _ => True) (· = w) (request server r)
    (fun result w' => w' = w ++ [r] ∧ (server w').json = .ok result)
    (fun e w' => w' = w ++ [r] ∧ ∃ x, (server w').json = .error x ∧ e = .raised x) := by
  refine (Triple.call_at rfl).conseq (fun _ _ h => h) ?_ ?_
  · rintro result w' - ⟨-, hact⟩
    obtain ⟨hresult, rfl⟩ := Prod.mk.inj hact
    refine ⟨rfl, ?_⟩
    cases hjson : (server (w ++ [r])).json with
    | ok value =>
      rw [hjson] at hresult
      rw [Except.ok.inj hresult]
    | error e =>
      rw [hjson] at hresult
      exact nomatch hresult
  · rintro e w' - (⟨-, hact⟩ | ⟨done, hraise, -⟩)
    · obtain ⟨hresult, rfl⟩ := Prod.mk.inj hact
      refine ⟨rfl, ?_⟩
      cases hjson : (server (w ++ [r])).json with
      | ok value =>
        rw [hjson] at hresult
        exact nomatch hresult
      | error x =>
        rw [hjson] at hresult
        exact ⟨x, rfl, (Except.error.inj hresult).symm⟩
    · exact nomatch hraise

theorem outline_rule {method : String} {body : List (String × Value)} :
    Triple (fun _ => True) (· = w) (outline server method body)
      (fun result w' => w' = w ++ [.post method body] ∧ (server w').outline method = .ok result)
      (fun e w' => w' = w ++ [.post method body] ∧
        ∃ x, (server w').outline method = .error x ∧ e = .raised x) := by
  refine Triple.bind (request_rule.except ?_) fun result => ?_
  · rintro e w' - ⟨hsent, x, hjson, he⟩
    refine ⟨hsent, x, ?_, he⟩
    rw [Reply.outline, hjson]
    rfl
  refine Triple.of_orRaise ?_ ?_
  · rintro result' w' hok - ⟨hsent, hjson⟩
    exact ⟨hsent, bind_ok.mpr ⟨result, hjson, hok⟩⟩
  · rintro x w' herror - ⟨hsent, hjson⟩
    refine ⟨hsent, x, ?_, rfl⟩
    rw [Reply.outline, hjson]
    exact herror

/-- A turn of `outline_list` sends one request. -/
theorem outline_turn_rule {method : String} {key : Option String} {body : List (String × Value)}
    {s : OutlineReading} (hs : s.Sound) :
    Triple (fun _ => True) (· = w) (outline_turn server method key body s)
      (fun r w' => w' = w ++ [.post method (paged body s.offset)] ∧
        ∃ current x, (server w').total method = some current ∧
          (s.totalOr current).number? = some x ∧ s.Next (s.totalOr current) x r)
      (fun e w' => w'.length = w.length + 1 ∧ ∃ x, e = .raised x) := by
  refine Triple.bind (outline_rule.except ?_) fun result => ?_
  · rintro e w' - ⟨rfl, x, -, hraised⟩
    exact ⟨List.length_append, x, hraised⟩
  refine Triple.of_orRaise ?_ ?_
  · rintro r w' hok - ⟨hsent, hresult⟩
    obtain ⟨current, x, hcurrent, hx, hnext⟩ := outline_page_ok hs hok
    refine ⟨hsent, current, x, ?_, hx, hnext⟩
    rw [Reply.total, bind_ok.mpr ⟨result, hresult, hcurrent⟩]
    rfl
  · rintro x w' - - ⟨rfl, -⟩
    exact ⟨List.length_append, x, rfl⟩

theorem OutlineReading.totalOr_eq {s : OutlineReading} {x : Number}
    (h : s.total.number? = some x) (current : Value) : s.totalOr current = s.total := by
  unfold OutlineReading.totalOr
  cases ht : s.total with
  | null =>
    rw [ht] at h
    exact nomatch h
  | bool b => rfl
  | number x => rfl
  | str s => rfl
  | list items => rfl
  | dict members => rfl

/-- The loop of `outline_list` after a total that is finite. -/
theorem outline_loop_rule {method : String} {key : Option String} {body : List (String × Value)}
    {q : ℚ} : ∀ n (s : OutlineReading), ⌈q⌉₊ - s.offset - 1 < n →
      Triple (fun _ => True)
        (fun w' => (s.Sound ∧ s.total.number? = some (.finite q) ∧ (s.offset : ℚ) < q) ∧
          w'.length ≤ w.length + s.offset)
        (turns (outline_turn server method key body) n s)
        (fun rows w' => (q = rows.length ∧ Distinct "id" rows) ∧ w'.length ≤ w.length + ⌈q⌉₊)
        (fun e w' => (∃ x, e = .raised x) ∧ w'.length ≤ w.length + ⌈q⌉₊) := by
  refine Triple.of_turns fun s => Triple.of_each ?_
  rintro w₁ ⟨⟨hs, htotal, hlt⟩, hsent⟩
  have hceil : s.offset < ⌈q⌉₊ := Nat.lt_ceil.mpr hlt
  refine (outline_turn_rule hs).conseq (fun _ _ h => h) ?_ ?_
  · rintro r w' - ⟨rfl, current, x, -, hx, hnext⟩
    rw [OutlineReading.totalOr_eq htotal] at hx hnext
    obtain rfl : Number.finite q = x := Option.some.inj (htotal.symm.trans hx)
    have hlength : (w₁ ++ [Request.post method (paged body s.offset)]).length = w₁.length + 1 :=
      List.length_append
    cases r with
    | inl rows =>
      obtain ⟨hq, hdistinct⟩ := hnext
      refine ⟨⟨Number.finite.inj hq, hdistinct⟩, ?_⟩
      omega
    | inr s' =>
      obtain ⟨hs', htotal', hoffset, hx | ⟨q', hq', hlt'⟩⟩ := hnext
      · exact nomatch hx
      · obtain rfl := Number.finite.inj hq'
        have hceil' : s'.offset < ⌈q⌉₊ := Nat.lt_ceil.mpr hlt'
        refine ⟨⟨⟨hs', by rw [htotal', htotal], hlt'⟩, ?_⟩, ?_⟩
        · omega
        · omega
  · rintro e w' - ⟨hlength, hraised⟩
    refine ⟨hraised, ?_⟩
    omega

theorem most_pos (total : Option Value) : 1 ≤ most total := by
  unfold most
  split
  · exact le_max_left _ _
  · exact le_rfl

theorem most_finite {total : Value} {q : ℚ} (h : total.number? = some (.finite q)) :
    most (some total) = max 1 ⌈q⌉₊ := by
  unfold most
  rw [Option.bind_some, h]

/-- **A read of Outline ends**, unless the first total is infinite: it raises, or returns as many
rows as the first total says, each with an id of its own. -/
theorem outline_list_ends {method : String} {key : Option String}
    {body : List (String × Value)} {total : Option Value}
    (hfirst : (server (w ++ [.post method (paged body 0)])).total method = total)
    (hfinite : total.bind Value.number? ≠ some .infinity) :
    EndsWithin (most total) w
      (fun rows => Distinct "id" rows ∧ total.bind Value.number? = some (.finite rows.length))
      (outline_list server method key body) := by
  intro n hn
  obtain ⟨n, rfl⟩ := Nat.exists_eq_add_of_le' ((most_pos total).trans hn)
  have hmost := most_pos total
  rw [outline_list, turns]
  refine Triple.bind ((outline_turn_rule ⟨⟨rfl, List.nodup_nil⟩, rfl⟩).except ?_) fun r => ?_
  · rintro e w' - ⟨hlength, hraised⟩
    refine ⟨hraised, ?_⟩
    omega
  refine Triple.of_each ?_
  rintro w₁ ⟨hw₁, current, x, hcurrent, hx, hnext⟩
  have hlength : w₁.length = w.length + 1 := by
    rw [hw₁]
    exact List.length_append
  rw [hw₁] at hcurrent
  obtain rfl : some current = total := hcurrent.symm.trans hfirst
  have hx : current.number? = some x := hx
  cases r with
  | inl rows =>
    obtain ⟨hrows, hdistinct⟩ := hnext
    refine Triple.pure fun w' _ hw' => ⟨⟨hdistinct, ?_⟩, ?_⟩
    · rw [Option.bind_some, hx, hrows]
    · rw [hw']
      omega
  | inr s =>
    obtain ⟨hs, htotal, hoffset, hinfinite | ⟨q, rfl, hlt⟩⟩ := hnext
    · exact absurd (by rw [Option.bind_some, hx, hinfinite]) hfinite
    have hceil : s.offset < ⌈q⌉₊ := Nat.lt_ceil.mpr hlt
    have hoffset : 0 < s.offset := hoffset
    have hbound : most (some current) = ⌈q⌉₊ := by
      rw [most_finite hx]
      omega
    refine (outline_loop_rule (w := w) (q := q) n s (by omega)).conseq ?_ ?_ ?_
    · rintro w' - rfl
      refine ⟨⟨hs, ?_, hlt⟩, ?_⟩
      · rw [htotal]
        exact hx
      · omega
    · rintro rows w' - ⟨⟨hrows, hdistinct⟩, hsent⟩
      refine ⟨⟨hdistinct, ?_⟩, ?_⟩
      · rw [Option.bind_some, hx, hrows]
      · omega
    · rintro e w' - ⟨hraised, hsent⟩
      exact ⟨hraised, by omega⟩

/-! ### Authentik -/

theorem authentik_turn_rule {path : String} {s : AuthentikReading}
    (hs : Seen "pk" s.rows s.seen) :
    Triple (fun _ => True) (· = w) (authentik_turn server path s)
      (fun r w' => w' = w ++ [authentik_request path s.page] ∧
        ∃ current x, (server w').totals = some current ∧
          (s.totalsOr current).1.number? = some x ∧ s.Next (s.totalsOr current) x r)
      (fun e w' => w'.length = w.length + 1 ∧ ∃ x, e = .raised x) := by
  refine Triple.bind (request_rule.except ?_) fun result => ?_
  · rintro e w' - ⟨rfl, x, -, hraised⟩
    exact ⟨List.length_append, x, hraised⟩
  refine Triple.of_orRaise ?_ ?_
  · rintro r w' hok - ⟨hsent, hresult⟩
    obtain ⟨current, x, hcurrent, hx, hnext⟩ := authentik_page_ok hs hok
    refine ⟨hsent, current, x, ?_, hx, hnext⟩
    rw [Reply.totals, bind_ok.mpr ⟨result, hresult, hcurrent⟩]
    rfl
  · rintro x w' - - ⟨rfl, -⟩
    exact ⟨List.length_append, x, rfl⟩

theorem AuthentikReading.totalsOr_eq {s : AuthentikReading} {x : Number}
    (h : s.pages.number? = some x) (current : Value × Value) :
    s.totalsOr current = (s.pages, s.count) := by
  unfold AuthentikReading.totalsOr
  cases hp : s.pages with
  | null =>
    rw [hp] at h
    exact nomatch h
  | bool b => rfl
  | number x => rfl
  | str s => rfl
  | list items => rfl
  | dict members => rfl

/-- The loop of `authentik_list` after a total of pages that is finite. -/
theorem authentik_loop_rule {path : String} {q : ℚ} {c : Value} :
    ∀ n (s : AuthentikReading), ⌈q⌉₊ - s.page < n →
      Triple (fun _ => True)
        (fun w' => (Seen "pk" s.rows s.seen ∧ s.pages.number? = some (.finite q) ∧
          s.count = c ∧ s.page ≤ ⌈q⌉₊) ∧ w'.length + 1 = w.length + s.page)
        (turns (authentik_turn server path) n s)
        (fun rows w' => (c.number? = some (.finite rows.length) ∧ Distinct "pk" rows) ∧
          w'.length ≤ w.length + ⌈q⌉₊)
        (fun e w' => (∃ x, e = .raised x) ∧ w'.length ≤ w.length + ⌈q⌉₊) := by
  refine Triple.of_turns fun s => Triple.of_each ?_
  rintro w₁ ⟨⟨hs, hpages, rfl, hpage⟩, hsent⟩
  refine (authentik_turn_rule hs).conseq (fun _ _ h => h) ?_ ?_
  · rintro r w' - ⟨rfl, current, x, -, hx, hnext⟩
    rw [AuthentikReading.totalsOr_eq hpages] at hx hnext
    obtain rfl : Number.finite q = x := Option.some.inj (hpages.symm.trans hx)
    have hlength : (w₁ ++ [authentik_request path s.page]).length = w₁.length + 1 :=
      List.length_append
    cases r with
    | inl rows =>
      refine ⟨hnext, ?_⟩
      omega
    | inr s' =>
      obtain ⟨hs', htotals, hpage', hx | hx | ⟨q', hq', hlt⟩⟩ := hnext
      · exact nomatch hx
      · exact nomatch hx
      · obtain rfl := Number.finite.inj hq'
        obtain ⟨hpages', hcount'⟩ := Prod.mk.inj htotals
        have hceil : s.page < ⌈q⌉₊ := Nat.lt_ceil.mpr hlt
        refine ⟨⟨⟨hs', ?_, hcount', ?_⟩, ?_⟩, ?_⟩
        · rw [hpages', hpages]
        · omega
        · omega
        · omega
  · rintro e w' - ⟨hlength, hraised⟩
    refine ⟨hraised, ?_⟩
    omega

/-- **A read of Authentik ends**, unless the first total of pages is infinite or no number at
all: it raises, or returns as many rows as the first total of rows says, each with a key of its
own. -/
theorem authentik_list_ends {path : String} {totals : Option (Value × Value)}
    (hfirst : (server (w ++ [authentik_request path 1])).totals = totals)
    (hfinite : (totals.map Prod.fst).bind Value.number? ∉ [some .infinity, some .nan]) :
    EndsWithin (most (totals.map Prod.fst)) w
      (fun rows => Distinct "pk" rows ∧
        (totals.map Prod.snd).bind Value.number? = some (.finite rows.length))
      (authentik_list server path) := by
  intro n hn
  obtain ⟨n, rfl⟩ := Nat.exists_eq_add_of_le' ((most_pos _).trans hn)
  have hmost := most_pos (totals.map Prod.fst)
  rw [authentik_list, turns]
  refine Triple.bind ((authentik_turn_rule ⟨rfl, List.nodup_nil⟩).except ?_) fun r => ?_
  · rintro e w' - ⟨hlength, hraised⟩
    refine ⟨hraised, ?_⟩
    omega
  refine Triple.of_each ?_
  rintro w₁ ⟨hw₁, current, x, hcurrent, hx, hnext⟩
  have hlength : w₁.length = w.length + 1 := by
    rw [hw₁]
    exact List.length_append
  rw [hw₁] at hcurrent
  obtain rfl : some current = totals := hcurrent.symm.trans hfirst
  have hx : current.1.number? = some x := hx
  rw [Option.map_some, Option.bind_some, hx] at hfinite
  cases r with
  | inl rows =>
    obtain ⟨hrows, hdistinct⟩ := hnext
    refine Triple.pure fun w' _ hw' => ⟨⟨hdistinct, hrows⟩, ?_⟩
    rw [hw']
    omega
  | inr s =>
    obtain ⟨hs, htotals, hpage, hx' | hx' | ⟨q, rfl, hlt⟩⟩ := hnext
    · exact absurd (by simp [hx']) hfinite
    · exact absurd (by simp [hx']) hfinite
    obtain ⟨hpages, hcount⟩ : s.pages = current.1 ∧ s.count = current.2 := Prod.mk.inj htotals
    have hpage : s.page = 2 := hpage
    have hceil : 1 < ⌈q⌉₊ := Nat.lt_ceil.mpr hlt
    have hbound : most (Option.map Prod.fst (some current)) = ⌈q⌉₊ := by
      rw [Option.map_some, most_finite hx]
      omega
    refine (authentik_loop_rule (w := w) (q := q) (c := current.2) n s (by omega)).conseq
      ?_ ?_ ?_
    · rintro w' - rfl
      refine ⟨⟨hs, ?_, hcount, ?_⟩, ?_⟩
      · rw [hpages]
        exact hx
      · omega
      · omega
    · rintro rows w' - ⟨⟨hrows, hdistinct⟩, hsent⟩
      exact ⟨⟨hdistinct, hrows⟩, by omega⟩
    · rintro e w' - ⟨hraised, hsent⟩
      exact ⟨hraised, by omega⟩

end Rules

end GroupSync.API
