/-
The Hyper Backup jobs (`synology_hyper_backup/files/apply_hyper_backup.py`).

`do_jobs` finds the live job of each desired one by its name, creates the jobs that are not there,
updates those that differ, and deletes the others.

* `flatten`, `normalize`, `diff_one` — what is compared;
* `plan`, `Plan.calls` — what the script plans, and its calls;
* `Dsm.store`, `do_jobs` — what the calls make of the jobs, and a run;
* `last`, `plan_eq_nothing_iff` — the live job that stands for a name, and when nothing is planned.

The text of the summary is left out, and so is the text of an argument: DSM reads the JSON value
back.
-/
import KrgInfra.Dict
import KrgInfra.Json
import Mathlib.Data.List.Sort
import Mathlib.Data.String.Basic

namespace ApplyHyperBackup

open Json

/-- `sorted` of strings. -/
def sortNames (l : List String) : List String := l.insertionSort (· ≤ ·)

theorem sortNames_sortNames (l : List String) : sortNames (sortNames l) = sortNames l :=
  (List.pairwise_insertionSort (· ≤ ·) l).insertionSort_eq

/-- `sorted`: strings are sorted as such.  Other values Python can compare or not, and it raises
where it can not. -/
structure Sorting where
  sorted : List Json → Option (List Json)
  strings : ∀ l : List String, sorted (l.map .str) = some ((sortNames l).map .str)

/-- A job of the spec.  `destination` and `schedule` are empty where they are omitted. -/
structure Job where
  name : String
  destination : Members
  sources : List String
  schedule : Members
  encrypt : Option Json
  enabled : Option Json

/-! ### Names -/

/-- What a live job is known by, as the key of a dictionary. -/
inductive Key where
  | null
  | num (q : ℚ)
  | str (s : String)
  deriving DecidableEq

/-- A list or a dictionary cannot be one. -/
def Key.of : Json → Option Key
  | .null => some .null
  | .str s => some (.str s)
  | v => v.number.map .num

theorem Key.of_eq_str {v : Json} {s : String} : Key.of v = some (.str s) ↔ v = .str s := by
  cases v <;> simp [Key.of, number]

/-- `t.get("task_name") or t.get("name")` -/
def job_key (t : Members) : Option Key :=
  Key.of (if (t.get "task_name").truthy then t.get "task_name" else t.get "name")

/-- The id of a job, or the one that the arguments of a call name: a number or a text. -/
def ident (t : Members) : Option Key := if t.get "id" matches .null then none else Key.of (t.get "id")

theorem ident_congr {t t' : Members} (h : t'.get "id" = t.get "id") : ident t' = ident t := by
  rw [ident, ident, h]

theorem ne_null_of_ident {t : Members} (h : ident t ≠ none) : t.get "id" ≠ .null := by
  intro hnull
  rw [ident, hnull] at h
  exact h rfl

/-- A job is known by a text exactly if this is its name, or its other name where it has none. -/
theorem job_key_eq_str {t : Members} {s : String} :
    job_key t = some (.str s) ↔ t.get "task_name" = .str s ∧ s ≠ "" ∨
      (t.get "task_name").truthy = false ∧ t.get "name" = .str s := by
  rw [job_key, Key.of_eq_str]
  cases htruthy : (t.get "task_name").truthy with
  | false =>
    rw [if_neg Bool.false_ne_true]
    refine ⟨fun h => .inr ⟨rfl, h⟩, fun h => h.elim (fun ⟨hname, hs⟩ => ?_) And.right⟩
    rw [hname] at htruthy
    exact absurd (of_decide_eq_false htruthy) (not_not.mpr hs)
  | true =>
    rw [if_pos rfl]
    refine ⟨fun h => .inl ⟨h, ?_⟩, fun h => h.elim And.left fun h => nomatch h.1⟩
    rw [h] at htruthy
    exact of_decide_eq_true htruthy

/-! ### Comparison -/

/-- `_flatten` -/
def flatten (defaults : Members) (job : Job) : Members :=
  [("task_name", .str job.name),
    ("dest_type", job.destination.get "type"),
    ("dest_host", job.destination.get "host"),
    ("dest_path", job.destination.get "path"),
    ("source_shares", .arr ((sortNames job.sources).map .str)),
    ("schedule_time", job.schedule.get "daily"),
    ("retention_count", job.schedule.get "retain_versions"),
    ("enable_encryption", job.encrypt.getD ((defaults.lookup "encrypt").getD (.bool true))),
    ("enable_task", job.enabled.getD ((defaults.lookup "enabled").getD (.bool true)))]

/-- The destination and schedule fields, and what the spec gives for them. -/
def optional (job : Job) : List (String × Option Json) :=
  [("dest_type", job.destination.lookup "type"),
    ("dest_host", job.destination.lookup "host"),
    ("dest_path", job.destination.lookup "path"),
    ("schedule_time", job.schedule.lookup "daily"),
    ("retention_count", job.schedule.lookup "retain_versions")]

/-- The spec omits a destination or schedule field. -/
def Omits (job : Job) (field : String) : Prop := (field, none) ∈ optional job

/-- `_normalize`; `none` where the sources cannot be sorted. -/
def normalize (S : Sorting) (live_entry : Members) : Option Members :=
  match live_entry.get "source_shares" with
  | .arr l => (S.sorted l).map fun l => live_entry.set "source_shares" (.arr l)
  | _ => some live_entry

/-- A field that differs. -/
structure Drift where
  field : String
  current : Json
  desired : Json

/-- `_diff_one` -/
def diff_one (desired live : Members) : List Drift :=
  desired.filterMap fun item =>
    if pyEq (live.get item.1) item.2 then none else some ⟨item.1, live.get item.1, item.2⟩

theorem mem_diff_one {desired live : Members} {d : Drift} :
    d ∈ diff_one desired live ↔ (d.field, d.desired) ∈ desired ∧ d.current = live.get d.field ∧
      pyEq d.current d.desired = false := by
  rw [diff_one, List.mem_filterMap]
  constructor
  · rintro ⟨item, hitem, h⟩
    split_ifs at h with heq
    obtain rfl := Option.some_inj.mp h
    exact ⟨hitem, rfl, Bool.eq_false_iff.mpr heq⟩
  · obtain ⟨field, current, value⟩ := d
    rintro ⟨hitem, hcurrent, heq⟩
    obtain rfl : current = live.get field := hcurrent
    exact ⟨(field, value), hitem, if_neg (Bool.eq_false_iff.mp heq)⟩

theorem diff_one_eq_nil {desired live : Members} :
    diff_one desired live = [] ↔ ∀ item ∈ desired, pyEq (live.get item.1) item.2 = true := by
  rw [diff_one, List.filterMap_eq_nil_iff]
  refine forall₂_congr fun item _ => ?_
  split_ifs with h
  · exact iff_of_true rfl h
  · exact iff_of_false (fun h => nomatch h) h

/-- A live job has what is desired. -/
def Agrees (S : Sorting) (want t : Members) : Prop :=
  ∃ n, normalize S t = some n ∧ diff_one want n = []

/-! ### Plan -/

/-- A job to update: its name, what is desired, the live job and what differs. -/
structure Update where
  name : String
  want : Members
  live : Members
  drift : List Drift

structure Plan where
  creates : List (String × Members)
  updates : List Update
  deletes : List (Key × Members)

def nothing : Plan := ⟨[], [], []⟩

section Planning

variable (S : Sorting) (defaults secrets : Members) (desired : List Job) (live : List Members)

def live_by_name : List (Key × Members) :=
  Dict.ofItems (live.filterMap fun t => (job_key t).map fun k => (k, t))

def desired_by_name : List (String × Members) :=
  Dict.ofItems (desired.map fun j => (j.name, flatten defaults j))

/-- The desired jobs but those that are encrypted and have no secret. -/
def wanted : List (String × Members) :=
  (desired_by_name defaults desired).filter fun w =>
    !((w.2.get "enable_encryption").truthy && decide (w.1 ∉ secrets.names))

/-- Nothing raises: each live job has a key, and the sources of those that are compared can be
sorted. -/
def Readable : Prop :=
  (∀ t ∈ live, (job_key t).isSome) ∧ ∀ w ∈ wanted defaults secrets desired,
    ((live_by_name live).lookup (.str w.1)).all fun t => (normalize S t).isSome

instance : Decidable (Readable S defaults secrets desired live) := by
  unfold Readable
  infer_instance

def creates : List (String × Members) :=
  (wanted defaults secrets desired).filter fun w => .str w.1 ∉ Dict.keys (live_by_name live)

/-- A desired job that is there, where it differs. -/
def updateOf (w : String × Members) : Option Update :=
  ((live_by_name live).lookup (.str w.1)).bind fun t => (normalize S t).bind fun n =>
    if (diff_one w.2 n).isEmpty then none else some ⟨w.1, w.2, t, diff_one w.2 n⟩

def updates : List Update := (wanted defaults secrets desired).filterMap (updateOf S live)

def deletes : List (Key × Members) :=
  (live_by_name live).filter fun e => e.1 ∉ (Dict.keys (desired_by_name defaults desired)).map .str

/-- What the script plans; `none` where it raises. -/
def plan : Option Plan :=
  if Readable S defaults secrets desired live then
    some ⟨creates defaults secrets desired live, updates S defaults secrets desired live,
      deletes defaults desired live⟩
  else none

end Planning

/-! ### Calls -/

/-- `_args_from`: null is not sent. -/
def args_from (data : Members) : Members := data.filter fun item => !(item.2 matches .null)

/-- A call, with its arguments. -/
inductive Call where
  | create (args : Members)
  | update (args : Members)
  | delete (args : Members)

/-- `if name in secrets: params["dest_password"] = secrets[name]` -/
def with_secret (secrets : Members) (name : String) (params : Members) : Members :=
  if name ∈ secrets.names then params.set "dest_password" (secrets.get name) else params

def create_args (secrets : Members) (w : String × Members) : Members :=
  args_from (with_secret secrets w.1 w.2)

def Update.args (secrets : Members) (u : Update) : Members :=
  args_from (with_secret secrets u.name (u.want.set "id" (u.live.get "id")))

def delete_args (e : Key × Members) : Members := args_from [("id", e.2.get "id")]

def Plan.isEmpty (p : Plan) : Bool := p.creates.isEmpty && p.updates.isEmpty && p.deletes.isEmpty

/-- The calls of a run, in their order. -/
def Plan.calls (secrets : Members) (p : Plan) : List Call :=
  p.creates.map (fun w => .create (create_args secrets w)) ++
    (p.updates.map (fun u => .update (u.args secrets)) ++
      p.deletes.map fun e => .delete (delete_args e))

/-- DSM, which gives a job an id that no other one has. -/
structure Dsm where
  new_id : List Members → String
  fresh : ∀ live : List Members, Key.str (new_id live) ∉ live.filterMap ident

/-- A call names this job. -/
def Names (args t : Members) : Prop := ident args ≠ none ∧ ident t = ident args

instance (args t : Members) : Decidable (Names args t) :=
  inferInstanceAs (Decidable (_ ∧ _))

/-- What a call that succeeds makes of the jobs: it stores what it is sent. -/
def Dsm.store (D : Dsm) (live : List Members) : Call → List Members
  | .create args => live ++ [args.set "id" (.str (D.new_id live))]
  | .update args => live.map fun t => if Names args t then t.update args else t
  | .delete args => live.filter fun t => ¬ Names args t

inductive Outcome where
  | ok
  | would_change (p : Plan)
  | changed (p : Plan)
  | fail (c : Call)

/-- How a run ends, the calls it has made, and the jobs after it. -/
structure Run where
  outcome : Outcome
  calls : List Call
  live : List Members

def Run.succeeds (r : Run) : Bool := !(r.outcome matches .fail _)

/-- The calls, until one does not succeed. -/
def issue (D : Dsm) (accepts : List Members → Call → Bool) (p : Plan) :
    List Call → List Members → Run
  | [], live => ⟨.changed p, [], live⟩
  | c :: cs, live =>
    if accepts live c then
      let r := issue D accepts p cs (D.store live c)
      { r with calls := c :: r.calls }
    else ⟨.fail c, [c], live⟩

/-- `do_jobs`, with what DSM accepts; `none` where it raises. -/
def do_jobs (S : Sorting) (D : Dsm) (accepts : List Members → Call → Bool) (check : Bool)
    (defaults secrets : Members) (desired : List Job) (live : List Members) : Option Run :=
  (plan S defaults secrets desired live).map fun p =>
    if p.isEmpty then ⟨.ok, [], live⟩
    else if check then ⟨.would_change p, [], live⟩
    else issue D accepts p (p.calls secrets) live

/-! ### The live job of a name -/

/-- The live job that stands for a key: the last one. -/
def last (k : Key) (live : List Members) : Option Members :=
  (live.filter fun t => job_key t = some k).getLast?

theorem mem_of_last {k : Key} {live : List Members} {t : Members} (h : last k live = some t) :
    t ∈ live ∧ job_key t = some k := by
  have hmem := List.mem_of_getLast? h
  rw [List.mem_filter, decide_eq_true_eq] at hmem
  exact hmem

theorem exists_last {k : Key} {live : List Members} {t : Members} (ht : t ∈ live)
    (hk : job_key t = some k) : ∃ d, last k live = some d := by
  have hmem : t ∈ live.filter fun t => job_key t = some k :=
    List.mem_filter.mpr ⟨ht, decide_eq_true hk⟩
  exact ⟨_, List.getLast?_eq_some_getLast (List.ne_nil_of_mem hmem)⟩

theorem lookup_live_by_name (live : List Members) (k : Key) :
    (live_by_name live).lookup k = last k live := by
  have hitems : (live.filterMap fun t => (job_key t).map fun k => (k, t)).filter
      (fun item => item.1 = k) = (live.filter fun t => job_key t = some k).map fun t => (k, t) := by
    induction live with
    | nil => rfl
    | cons t live ih =>
      cases hk : job_key t with
      | none =>
        rw [List.filterMap_cons_none (by rw [hk]; rfl), ih,
          List.filter_cons_of_neg (by simp [hk])]
      | some k' =>
        rw [List.filterMap_cons_some (by rw [hk]; rfl)]
        by_cases h : k' = k
        · rw [List.filter_cons_of_pos (by simpa using h), ih,
            List.filter_cons_of_pos (by simp [hk, h]), List.map_cons, h]
        · rw [List.filter_cons_of_neg (by simpa using h), ih,
            List.filter_cons_of_neg (by simp [hk, h])]
  rw [live_by_name, Dict.lookup_ofItems, hitems, List.getLast?_map, Option.map_map, last]
  exact Option.map_id'

theorem mem_keys_live_by_name {live : List Members} {k : Key} :
    k ∈ Dict.keys (live_by_name live) ↔ ∃ t ∈ live, job_key t = some k := by
  rw [Dict.mem_keys_iff, lookup_live_by_name, Option.ne_none_iff_exists']
  exact ⟨fun ⟨t, h⟩ => ⟨t, mem_of_last h⟩, fun ⟨t, ht, hk⟩ => exists_last ht hk⟩

theorem nodup_keys_live_by_name (live : List Members) : (Dict.keys (live_by_name live)).Nodup :=
  Dict.nodup_keys_ofItems _

section Planned

variable {S : Sorting} {defaults secrets : Members} {desired : List Job} {live : List Members}

theorem keys_desired_by_name {name : String} :
    name ∈ Dict.keys (desired_by_name defaults desired) ↔ ∃ j ∈ desired, j.name = name := by
  rw [desired_by_name, Dict.mem_keys_ofItems_iff, Dict.keys, List.map_map]
  exact List.mem_map

/-- The name of a live job is not in the spec. -/
def Undesired (desired : List Job) (k : Key) : Prop := ∀ j ∈ desired, k ≠ .str j.name

theorem not_mem_desired_iff {k : Key} :
    k ∉ (Dict.keys (desired_by_name defaults desired)).map .str ↔ Undesired desired k := by
  rw [List.mem_map, not_exists]
  constructor
  · intro h j hj hk
    exact h j.name ⟨keys_desired_by_name.mpr ⟨j, hj, rfl⟩, hk.symm⟩
  · rintro h name ⟨hname, rfl⟩
    obtain ⟨j, hj, rfl⟩ := keys_desired_by_name.mp hname
    exact h j hj rfl

theorem mem_creates {w : String × Members} : w ∈ creates defaults secrets desired live ↔
    w ∈ wanted defaults secrets desired ∧ last (.str w.1) live = none := by
  rw [creates, List.mem_filter, decide_eq_true_eq, Dict.mem_keys_iff, not_not,
    lookup_live_by_name]

theorem updateOf_eq_some {w : String × Members} {u : Update} :
    updateOf S live w = some u ↔ last (.str w.1) live = some u.live ∧ u.name = w.1 ∧
      u.want = w.2 ∧ ∃ n, normalize S u.live = some n ∧ diff_one w.2 n ≠ [] ∧
        u.drift = diff_one w.2 n := by
  rw [updateOf, lookup_live_by_name]
  constructor
  · intro h
    obtain ⟨t, ht, h⟩ := Option.bind_eq_some_iff.mp h
    obtain ⟨n, hn, h⟩ := Option.bind_eq_some_iff.mp h
    split_ifs at h with hnil
    obtain rfl := Option.some_inj.mp h
    exact ⟨ht, rfl, rfl, n, hn, fun he => hnil (List.isEmpty_iff.mpr he), rfl⟩
  · obtain ⟨name, want, t, drift⟩ := u
    rintro ⟨ht, rfl, rfl, n, hn, hne, hdrift⟩
    obtain rfl : drift = diff_one w.2 n := hdrift
    rw [ht, Option.bind_some, hn, Option.bind_some,
      if_neg fun he => hne (List.isEmpty_iff.mp he)]

theorem mem_updates {u : Update} : u ∈ updates S defaults secrets desired live ↔
    ∃ w ∈ wanted defaults secrets desired, updateOf S live w = some u :=
  List.mem_filterMap

theorem mem_deletes {e : Key × Members} : e ∈ deletes defaults desired live ↔
    last e.1 live = some e.2 ∧ Undesired desired e.1 := by
  rw [deletes, List.mem_filter, decide_eq_true_eq, not_mem_desired_iff, ← lookup_live_by_name]
  exact and_congr_left' ⟨Dict.lookup_of_mem (nodup_keys_live_by_name live), Dict.mem_of_lookup⟩

/-- Each wanted job is there and has what is desired, and there is no other job. -/
structure Settled (S : Sorting) (defaults secrets : Members) (desired : List Job)
    (live : List Members) : Prop where
  one : ∀ w ∈ wanted defaults secrets desired, ∃ t, last (.str w.1) live = some t ∧ Agrees S w.2 t
  only : ∀ t ∈ live, ∃ j ∈ desired, job_key t = some (.str j.name)

theorem Readable.key (h : Readable S defaults secrets desired live) {t : Members} (ht : t ∈ live) :
    ∃ k, job_key t = some k :=
  Option.isSome_iff_exists.mp (h.1 t ht)

theorem Readable.sources (h : Readable S defaults secrets desired live) {w : String × Members}
    (hw : w ∈ wanted defaults secrets desired) {t : Members} (ht : last (.str w.1) live = some t) :
    ∃ n, normalize S t = some n := by
  have hall := h.2 w hw
  rw [lookup_live_by_name, ht] at hall
  exact Option.isSome_iff_exists.mp hall

/-- A job that has not what is desired is updated. -/
theorem exists_update (h : Readable S defaults secrets desired live) {w : String × Members}
    (hw : w ∈ wanted defaults secrets desired) {t : Members} (ht : last (.str w.1) live = some t)
    (hdiff : ¬ Agrees S w.2 t) :
    ∃ u ∈ updates S defaults secrets desired live, u.name = w.1 ∧ u.want = w.2 ∧ u.live = t := by
  obtain ⟨n, hn⟩ := h.sources hw ht
  refine ⟨⟨w.1, w.2, t, diff_one w.2 n⟩, mem_updates.mpr ⟨w, hw, ?_⟩, rfl, rfl, rfl⟩
  exact updateOf_eq_some.mpr ⟨ht, rfl, rfl, n, hn, fun hnil => hdiff ⟨n, hn, hnil⟩, rfl⟩

theorem plan_eq_nothing_iff :
    plan S defaults secrets desired live = some nothing ↔ Settled S defaults secrets desired live := by
  constructor
  · intro h
    rw [plan] at h
    split_ifs at h with hread
    obtain ⟨hcreates, hupdates, hdeletes⟩ := Plan.mk.inj (Option.some_inj.mp h)
    constructor
    · intro w hw
      cases ht : last (.str w.1) live with
      | none =>
        have hmem := mem_creates.mpr ⟨hw, ht⟩
        rw [hcreates] at hmem
        exact nomatch hmem
      | some t =>
        by_contra hdiff
        obtain ⟨u, hu, -⟩ := exists_update hread hw ht fun ha => hdiff ⟨t, rfl, ha⟩
        rw [hupdates] at hu
        exact nomatch hu
    · intro t ht
      obtain ⟨k, hk⟩ := hread.key ht
      by_contra hnot
      obtain ⟨d, hd⟩ := exists_last ht hk
      have hmem : (k, d) ∈ deletes defaults desired live :=
        mem_deletes.mpr ⟨hd, fun j hj he => hnot ⟨j, hj, he ▸ hk⟩⟩
      rw [hdeletes] at hmem
      exact nomatch hmem
  · intro h
    have hread : Readable S defaults secrets desired live := by
      constructor
      · intro t ht
        obtain ⟨j, -, hk⟩ := h.only t ht
        exact Option.isSome_iff_exists.mpr ⟨_, hk⟩
      · intro w hw
        obtain ⟨t, ht, n, hn, -⟩ := h.one w hw
        rw [lookup_live_by_name, ht]
        exact Option.isSome_iff_exists.mpr ⟨n, hn⟩
    rw [plan, if_pos hread]
    refine congrArg some ?_
    refine Plan.mk.injEq .. ▸ ⟨?_, ?_, ?_⟩
    · refine List.eq_nil_iff_forall_not_mem.mpr fun w hw => ?_
      obtain ⟨hw, hnone⟩ := mem_creates.mp hw
      obtain ⟨t, ht, -⟩ := h.one w hw
      exact nomatch ht.symm.trans hnone
    · refine List.eq_nil_iff_forall_not_mem.mpr fun u hu => ?_
      obtain ⟨w, hw, hu⟩ := mem_updates.mp hu
      obtain ⟨hlast, -, -, n, hn, hne, -⟩ := updateOf_eq_some.mp hu
      obtain ⟨t, ht, n', hn', hnil⟩ := h.one w hw
      obtain rfl := Option.some_inj.mp (hlast.symm.trans ht)
      obtain rfl := Option.some_inj.mp (hn.symm.trans hn')
      exact hne hnil
    · refine List.eq_nil_iff_forall_not_mem.mpr fun e he => ?_
      obtain ⟨hlast, hnot⟩ := mem_deletes.mp he
      obtain ⟨ht, hk⟩ := mem_of_last hlast
      obtain ⟨j, hj, hk'⟩ := h.only _ ht
      exact hnot j hj (Option.some_inj.mp (hk.symm.trans hk'))

end Planned

end ApplyHyperBackup
