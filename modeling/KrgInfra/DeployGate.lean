/-
The gate of the deploy workflow (`.github/workflows/deploy.yml`).

Every completed run of a required workflow triggers a deploy, and so does an operator.  One deploy
runs at a time; of those that wait only the newest is kept.  Before it touches the fleet a deploy
asks the API for the head of `main` and for the runs on it, and goes on only where the newest run of
every required workflow has succeeded; of the deploys of one commit, that of the run which ended last.

* `newest`, `gate` — the script of the step `gate`;
* `Repo`, `happen` — the repository with its `deploy-fleet` group, and what happens to it;
* `no_downgrade` — the commits are deployed in the order of `main`;
* `deploys_are_green` — what was green when a commit was deployed, and when it was another commit;
* `deployed_once` — of the runs on a commit, which one deploys it.

What the gate logs is left out.  A deploy that is dispatched on another branch runs the workflow as
it is there, which is taken to be this one.
-/
import KrgInfra.Interleaving
import Mathlib

namespace DeployGate

open Interleaving

/-! ### The step -/

/-- A run of a workflow, as the API lists it; times are in seconds. -/
structure WorkflowRun where
  id : ℕ
  name : String
  event : String
  head_branch : String
  head_sha : String
  /-- `null` until the run is complete -/
  conclusion : Option String
  created_at : ℕ
  updated_at : ℕ
  deriving DecidableEq

/-- The event that a deploy runs on: a completed run, or a dispatch with its `github.sha`. -/
inductive Trigger where
  | workflow_run (run : WorkflowRun)
  | workflow_dispatch (sha : String)
  deriving DecidableEq

def Trigger.dispatched : Trigger → Bool
  | .workflow_run _ => false
  | .workflow_dispatch _ => true

/-- `if:` of the job -/
def Trigger.admitted : Trigger → Bool
  | .workflow_run run =>
    run.event = "push" && run.head_branch = "main" && run.conclusion = some "success"
  | .workflow_dispatch _ => true

/-- `github.event.workflow_run.head_sha || github.sha`: the commit that is checked out -/
def Trigger.ref : Trigger → String
  | .workflow_run run => run.head_sha
  | .workflow_dispatch sha => sha

def required : List String := ["Build NixOS configurations", "Python unit tests", "Lint"]

/-- `.sort((a, b) => new Date(b.…) - new Date(a.…))[0]`, by a sort that is stable -/
def newest (date : WorkflowRun → ℕ) (runs : List WorkflowRun) : Option WorkflowRun :=
  (runs.insertionSort fun a b => date b ≤ date a).head?

def okEvent (dispatched : Bool) (r : WorkflowRun) : Bool :=
  r.event = "push" || (dispatched && r.event = "workflow_dispatch")

def pick (dispatched : Bool) (runs : List WorkflowRun) (name : String) : Option WorkflowRun :=
  newest (·.created_at) (runs.filter fun r =>
    r.name = name && okEvent dispatched r && r.head_branch = "main")

/-- What the gate takes for the commit of the deploy. -/
def Trigger.sha (head : String) : Trigger → String
  | .workflow_run run => run.head_sha
  | .workflow_dispatch _ => head

/-- `listWorkflowRunsForRepo` with `head_sha`, and a run for each required workflow -/
def picked (dispatched : Bool) (api : List WorkflowRun) (sha : String) :
    List (Option WorkflowRun) :=
  required.map (pick dispatched (api.filter fun r => r.head_sha = sha))

def succeeded (run : Option WorkflowRun) : Bool :=
  run.any fun r => r.conclusion = some "success"

/-- The output `ok` of the step, from the head of `main` and the runs that the API lists. -/
def gate (trigger : Trigger) (head : String) (api : List WorkflowRun) : Bool :=
  if trigger.sha head ≠ head then false
  else
    let picked := picked trigger.dispatched api (trigger.sha head)
    if picked.any (fun run => !succeeded run) then false
    else
      match trigger with
      | .workflow_dispatch _ => true
      | .workflow_run run =>
        (newest (·.updated_at) picked.reduceOption).all fun last => last.id = run.id

/-! ### The newest run -/

section Newest

variable {date : WorkflowRun → ℕ} {runs : List WorkflowRun} {r : WorkflowRun}

instance : Std.Total fun a b => date b ≤ date a := ⟨fun a b => le_total (date b) (date a)⟩

instance : IsTrans WorkflowRun fun a b => date b ≤ date a := ⟨fun _ _ _ h h' => h'.trans h⟩

theorem newest_spec (h : newest date runs = some r) :
    r ∈ runs ∧ ∀ r' ∈ runs, date r' ≤ date r := by
  rw [newest] at h
  have hsorted := List.pairwise_insertionSort (fun a b => date b ≤ date a) runs
  obtain ⟨rest, hcons⟩ := List.head?_eq_some_iff.mp h
  rw [hcons] at hsorted
  have hmem : ∀ r', r' ∈ runs ↔ r' = r ∨ r' ∈ rest := by
    intro r'
    rw [← List.mem_insertionSort fun a b => date b ≤ date a, hcons, List.mem_cons]
  refine ⟨(hmem r).mpr (.inl rfl), fun r' hr' => ?_⟩
  obtain rfl | hrest := (hmem r').mp hr'
  · exact le_rfl
  · exact (List.pairwise_cons.mp hsorted).1 r' hrest

theorem newest_eq_none : newest date runs = none ↔ runs = [] := by
  rw [newest, List.head?_eq_none_iff]
  constructor
  · intro h
    have hlength := List.length_insertionSort (fun a b => date b ≤ date a) runs
    rw [h] at hlength
    exact List.length_eq_zero_iff.mp hlength.symm
  · rintro rfl
    rfl

/-- A run that is newer than all others is found. -/
theorem newest_eq (hr : r ∈ runs) (hlt : ∀ r' ∈ runs, r' = r ∨ date r' < date r) :
    newest date runs = some r := by
  cases hnewest : newest date runs with
  | none =>
    rw [newest_eq_none.mp hnewest] at hr
    exact absurd hr List.not_mem_nil
  | some last =>
    obtain ⟨hlast, hle⟩ := newest_spec hnewest
    obtain rfl | h := hlt last hlast
    · rfl
    · have := hle r hr
      omega

end Newest

/-! ### What a gate that passes has seen -/

/-- A run of a workflow on a commit that the gate looks at. -/
structure Eligible (dispatched : Bool) (sha name : String) (r : WorkflowRun) : Prop where
  sha : r.head_sha = sha
  name : r.name = name
  event : okEvent dispatched r = true
  branch : r.head_branch = "main"

/-- The newest run of every required workflow has succeeded on the commit. -/
def Green (dispatched : Bool) (api : List WorkflowRun) (sha : String) : Prop :=
  ∀ name ∈ required, ∃ r ∈ api, Eligible dispatched sha name r ∧ r.conclusion = some "success" ∧
    ∀ r' ∈ api, Eligible dispatched sha name r' → r'.created_at ≤ r.created_at

section Gate

variable {d : Bool} {api : List WorkflowRun} {sha head name : String} {r : WorkflowRun}
  {trigger : Trigger}

theorem mem_eligible : r ∈ (api.filter fun r => r.head_sha = sha).filter
    (fun r => r.name = name && okEvent d r && r.head_branch = "main") ↔
      r ∈ api ∧ Eligible d sha name r := by
  simp only [List.mem_filter, Bool.and_eq_true, decide_eq_true_eq]
  constructor
  · rintro ⟨⟨hmem, hsha⟩, ⟨hname, hevent⟩, hbranch⟩
    exact ⟨hmem, hsha, hname, hevent, hbranch⟩
  · rintro ⟨hmem, hsha, hname, hevent, hbranch⟩
    exact ⟨⟨hmem, hsha⟩, ⟨hname, hevent⟩, hbranch⟩

theorem succeeded_iff {run : Option WorkflowRun} :
    succeeded run = true ↔ ∃ r, run = some r ∧ r.conclusion = some "success" := by
  cases run <;> simp [succeeded]

/-- The gate, as one condition. -/
theorem gate_iff : gate trigger head api = true ↔ trigger.sha head = head ∧
    (∀ name ∈ required, succeeded (pick trigger.dispatched
      (api.filter fun r => r.head_sha = head) name) = true) ∧
    ∀ run, trigger = .workflow_run run → ∀ last,
      newest (·.updated_at) (picked false api head).reduceOption = some last →
        last.id = run.id := by
  rw [gate]
  by_cases hsha : trigger.sha head = head
  · rw [if_neg (not_not_intro hsha), hsha]
    simp only [true_and]
    by_cases hgreen : ∀ name ∈ required, succeeded (pick trigger.dispatched
        (api.filter fun r => r.head_sha = head) name) = true
    · have hany : (picked trigger.dispatched api head).any (fun run => !succeeded run) = false := by
        simpa [picked] using hgreen
      rw [hany, if_neg Bool.false_ne_true, iff_true_intro hgreen, true_and]
      cases trigger with
      | workflow_run run => simp [Option.all_eq_true, Trigger.dispatched]
      | workflow_dispatch sha => simp
    · have hany : (picked trigger.dispatched api head).any (fun run => !succeeded run) = true := by
        simpa [picked] using hgreen
      rw [hany]
      simp [hgreen]
  · rw [if_pos hsha]
    simp [hsha]

theorem green_of_gate (h : gate trigger head api = true) : Green trigger.dispatched api head := by
  intro name hname
  obtain ⟨r, hpick, hsuccess⟩ := succeeded_iff.mp ((gate_iff.mp h).2.1 name hname)
  obtain ⟨hmem, hnewest⟩ := newest_spec hpick
  obtain ⟨hapi, hr⟩ := mem_eligible.mp hmem
  exact ⟨r, hapi, hr, hsuccess, fun r' hr' helig => hnewest r' (mem_eligible.mpr ⟨hr', helig⟩)⟩

end Gate

/-! ### The repository -/

/-- The place of the `deploy-fleet` group. -/
inductive Slot where
  | free
  /-- A deploy that has not come to its gate. -/
  | gating (trigger : Trigger)
  /-- A deploy that has passed it. -/
  | deploying (trigger : Trigger)

/-- A commit that is brought to the fleet, with what the gate was shown, and `main` as it was then. -/
structure Deploy where
  trigger : Trigger
  head : String
  api : List WorkflowRun
  main : List String

def Deploy.ref (d : Deploy) : String := d.trigger.ref

structure Repo where
  /-- The commits of `main`, the newest first. -/
  main : List String
  api : List WorkflowRun
  /-- The deploys that were triggered. -/
  triggers : List Trigger := []
  slot : Slot := .free
  pending : Option Trigger := none
  deploys : List Deploy := []

inductive Event where
  | push (sha : String)
  /-- Runs are created, go on, end, and are run again. -/
  | ci (api : List WorkflowRun)
  | completed (run : WorkflowRun)
  /-- A dispatch on `main`, or on another ref that is at some commit. -/
  | dispatched (elsewhere : Option String)
  /-- A deploy is run again, on the event that has triggered it. -/
  | rerun (trigger : Trigger)
  /-- The deploy comes to its gate. -/
  | gate
  /-- The deploy ends, in whichever way. -/
  | ends

/-- `concurrency:` with `cancel-in-progress: false`: one runs, and the newest of the others waits. -/
def Repo.enqueue (w : Repo) (t : Trigger) : Repo :=
  match w.slot with
  | .free => { w with slot := .gating t, triggers := t :: w.triggers }
  | _ => { w with pending := some t, triggers := t :: w.triggers }

def Repo.next (w : Repo) : Repo :=
  match w.pending with
  | none => { w with slot := .free }
  | some t => { w with slot := .gating t, pending := none }

/-- What happens to the repository; `none` where it cannot happen. -/
def happen (w : Repo) : Event → Option Repo
  | .push sha => if sha ∈ w.main then none else some { w with main := sha :: w.main }
  | .ci api => some { w with api }
  | .completed run =>
    -- a run on a push to `main` is about one of its commits
    if run.event = "push" ∧ run.head_branch = "main" → run.head_sha ∈ w.main then
      some (w.enqueue (.workflow_run run))
    else none
  | .dispatched none => w.main.head?.map fun head => w.enqueue (.workflow_dispatch head)
  | .dispatched (some sha) => some (w.enqueue (.workflow_dispatch sha))
  | .rerun t => if t ∈ w.triggers then some (w.enqueue t) else none
  | .gate =>
    match w.slot, w.main.head? with
    | .gating t, some head =>
      if t.admitted && gate t head w.api then
        some { w with slot := .deploying t, deploys := w.deploys ++ [⟨t, head, w.api, w.main⟩] }
      else some w.next
    | _, _ => none
  | .ends =>
    match w.slot with
    | .free => none
    | _ => some w.next

/-! ### The order of the commits -/

/-- Commits of `main`, the second no older than the first. -/
structure Orders (main : List String) (a b : String) : Prop where
  left : a ∈ main
  right : b ∈ main
  le : main.idxOf b ≤ main.idxOf a

section Orders

variable {main : List String} {a b c sha top : String}

theorem Orders.trans (h : Orders main a b) (h' : Orders main b c) : Orders main a c :=
  ⟨h.left, h'.right, h'.le.trans h.le⟩

/-- A push puts all commits one place back. -/
theorem idxOf_push (hsha : sha ∉ main) (ha : a ∈ main) :
    (sha :: main).idxOf a = main.idxOf a + 1 := by
  apply List.idxOf_cons_ne
  rintro rfl
  exact hsha ha

theorem Orders.push (h : Orders main a b) (hsha : sha ∉ main) : Orders (sha :: main) a b where
  left := List.mem_cons_of_mem _ h.left
  right := List.mem_cons_of_mem _ h.right
  le := by
    rw [idxOf_push hsha h.left, idxOf_push hsha h.right]
    exact Nat.succ_le_succ h.le

theorem idxOf_head (h : main.head? = some top) : main.idxOf top = 0 := by
  obtain ⟨rest, rfl⟩ := List.head?_eq_some_iff.mp h
  exact List.idxOf_cons_self

theorem mem_of_head (h : main.head? = some top) : top ∈ main :=
  List.mem_of_head? h

/-- No commit is newer than the head. -/
theorem Orders.head (ha : a ∈ main) (h : main.head? = some top) : Orders main a top :=
  ⟨ha, mem_of_head h, by rw [idxOf_head h]; exact Nat.zero_le _⟩

/-- A commit that is no older than the head is the head. -/
theorem Orders.eq_head (h : Orders main top a) (hhead : main.head? = some top) : a = top := by
  have hzero : main.idxOf a = main.idxOf top := by
    have := h.le
    rw [idxOf_head hhead] at this ⊢
    omega
  exact (List.idxOf_inj h.right).mp hzero

end Orders

/-! ### What an event can do -/

/-- What an event can make of the repository. -/
inductive Change (w : Repo) : Event → Repo → Prop where
  | push {sha : String} (hsha : sha ∉ w.main) :
      Change w (.push sha) { w with main := sha :: w.main }
  | ci {api : List WorkflowRun} : Change w (.ci api) { w with api }
  | completed {run : WorkflowRun}
      (hrun : run.event = "push" ∧ run.head_branch = "main" → run.head_sha ∈ w.main) :
      Change w (.completed run) (w.enqueue (.workflow_run run))
  | dispatched {head : String} (hhead : w.main.head? = some head) :
      Change w (.dispatched none) (w.enqueue (.workflow_dispatch head))
  | elsewhere {sha : String} : Change w (.dispatched (some sha)) (w.enqueue (.workflow_dispatch sha))
  | rerun {t : Trigger} (ht : t ∈ w.triggers) : Change w (.rerun t) (w.enqueue t)
  | deploy {t : Trigger} {head : String} (hslot : w.slot = .gating t)
      (hhead : w.main.head? = some head) (hadm : t.admitted = true)
      (hgate : gate t head w.api = true) :
      Change w .gate
        { w with slot := .deploying t, deploys := w.deploys ++ [⟨t, head, w.api, w.main⟩] }
  | next {e : Event} : Change w e w.next

theorem change_of_happen {w w' : Repo} {e : Event} (h : happen w e = some w') : Change w e w' := by
  cases e with
  | push sha =>
    rw [happen] at h
    split_ifs at h with hsha
    obtain rfl := Option.some.inj h
    exact .push hsha
  | ci api =>
    obtain rfl := Option.some.inj h
    exact .ci
  | completed run =>
    rw [happen] at h
    split_ifs at h with hrun
    obtain rfl := Option.some.inj h
    exact .completed hrun
  | dispatched elsewhere =>
    cases elsewhere with
    | none =>
      obtain ⟨head, hhead, rfl⟩ := Option.map_eq_some_iff.mp h
      exact .dispatched hhead
    | some sha =>
      obtain rfl := Option.some.inj h
      exact .elsewhere
  | rerun t =>
    rw [happen] at h
    split_ifs at h with ht
    obtain rfl := Option.some.inj h
    exact .rerun ht
  | gate =>
    rw [happen] at h
    split at h
    case h_1 t head hslot hhead =>
      split_ifs at h with hgate
      · obtain rfl := Option.some.inj h
        obtain ⟨hadm, hgate⟩ := Bool.and_eq_true_iff.mp hgate
        exact .deploy hslot hhead hadm hgate
      · obtain rfl := Option.some.inj h
        exact .next
    case h_2 => exact nomatch h
  | ends =>
    rw [happen] at h
    split at h
    · exact nomatch h
    · obtain rfl := Option.some.inj h
      exact .next

section Group

variable (w : Repo) (t : Trigger)

@[simp] theorem main_enqueue : (w.enqueue t).main = w.main := by
  rw [Repo.enqueue]
  split <;> rfl

@[simp] theorem deploys_enqueue : (w.enqueue t).deploys = w.deploys := by
  rw [Repo.enqueue]
  split <;> rfl

@[simp] theorem triggers_enqueue : (w.enqueue t).triggers = t :: w.triggers := by
  rw [Repo.enqueue]
  split <;> rfl

@[simp] theorem main_next : w.next.main = w.main := by
  rw [Repo.next]
  split <;> rfl

@[simp] theorem deploys_next : w.next.deploys = w.deploys := by
  rw [Repo.next]
  split <;> rfl

@[simp] theorem triggers_next : w.next.triggers = w.triggers := by
  rw [Repo.next]
  split <;> rfl

end Group

/-! ### What is deployed -/

/-- What was known of a commit when it was deployed. -/
structure Checked (d : Deploy) : Prop where
  green : Green d.trigger.dispatched d.api d.head
  head : d.main.head? = some d.head
  same : d.ref = d.head ∨ d.trigger.dispatched = true ∧ (d.ref ∈ d.main.tail ∨ d.ref ∉ d.main)

theorem checked_deploy {t : Trigger} {head : String} {api : List WorkflowRun} {main : List String}
    (hhead : main.head? = some head) (hgate : gate t head api = true) :
    Checked ⟨t, head, api, main⟩ where
  green := green_of_gate hgate
  head := hhead
  same := by
    cases t with
    | workflow_run run => exact .inl (gate_iff.mp hgate).1
    | workflow_dispatch sha =>
      obtain ⟨rest, rfl⟩ := List.head?_eq_some_iff.mp hhead
      by_cases hsame : sha = head
      · exact .inl hsame
      · -- `main` has moved on since, or the commit is on another branch
        refine .inr ⟨rfl, ?_⟩
        show sha ∈ rest ∨ sha ∉ head :: rest
        rw [List.mem_cons, or_iff_right hsame]
        exact em _

theorem checked_happen {w w' : Repo} {e : Event} (h : ∀ d ∈ w.deploys, Checked d)
    (hstep : happen w e = some w') : ∀ d ∈ w'.deploys, Checked d := by
  cases change_of_happen hstep with
  | push | ci => exact h
  | completed | dispatched | elsewhere | rerun =>
    rw [deploys_enqueue]
    exact h
  | deploy _ hhead _ hgate =>
    intro d hd
    obtain hd | hd := List.mem_append.mp hd
    · exact h d hd
    · obtain rfl := List.mem_singleton.mp hd
      exact checked_deploy hhead hgate
  | next =>
    rw [deploys_next]
    exact h

/-- A repository before its first deploy. -/
def Repo.initial (main : List String) (api : List WorkflowRun) : Repo := { main, api }

/-- The deploys are about commits of `main`. -/
structure Known (w : Repo) : Prop where
  mem : ∀ t ∈ w.triggers, t.admitted = true → t.ref ∈ w.main
  gating : ∀ t, w.slot = .gating t → t ∈ w.triggers
  pending : ∀ t ∈ w.pending, t ∈ w.triggers
  deployed : ∀ d ∈ w.deploys, d.ref ∈ w.main

section Known

variable {w w' : Repo} {t : Trigger} {sha head : String}

theorem known_enqueue (h : Known w) (ht : t.admitted = true → t.ref ∈ w.main) :
    Known (w.enqueue t) where
  mem t' ht' := by
    rw [triggers_enqueue] at ht'
    rw [main_enqueue]
    obtain rfl | ht' := List.mem_cons.mp ht'
    · exact ht
    · exact h.mem t' ht'
  gating t' ht' := by
    rw [triggers_enqueue, List.mem_cons]
    rw [Repo.enqueue] at ht'
    split at ht'
    · exact .inl (Slot.gating.inj ht').symm
    · exact .inr (h.gating t' ht')
  pending t' ht' := by
    rw [triggers_enqueue, List.mem_cons]
    rw [Repo.enqueue] at ht'
    split at ht'
    · exact .inr (h.pending t' ht')
    · exact .inl (Option.some.inj ht').symm
  deployed := by
    rw [deploys_enqueue, main_enqueue]
    exact h.deployed

theorem known_next (h : Known w) : Known w.next := by
  rw [Repo.next]
  cases hpending : w.pending with
  | none => exact ⟨h.mem, (fun _ ht => nomatch ht), (fun _ ht => nomatch ht), h.deployed⟩
  | some t =>
    refine ⟨h.mem, ?_, (fun _ ht => nomatch ht), h.deployed⟩
    rintro _ ⟨⟩
    exact h.pending t hpending

/-- No deploy is dispatched on another ref. -/
theorem known_happen {e : Event} (he : ∀ sha, e ≠ .dispatched (some sha)) (h : Known w)
    (hstep : happen w e = some w') : Known w' := by
  cases change_of_happen hstep with
  | push hsha =>
    exact ⟨fun t ht hadm => List.mem_cons_of_mem _ (h.mem t ht hadm), h.gating, h.pending,
      fun d hd => List.mem_cons_of_mem _ (h.deployed d hd)⟩
  | ci => exact ⟨h.mem, h.gating, h.pending, h.deployed⟩
  | completed hrun =>
    refine known_enqueue h fun hadm => hrun ?_
    simp only [Trigger.admitted, Bool.and_eq_true, decide_eq_true_eq] at hadm
    exact hadm.1
  | dispatched hhead => exact known_enqueue h fun _ => mem_of_head hhead
  | elsewhere => exact absurd rfl (he _)
  | rerun ht => exact known_enqueue h (h.mem _ ht)
  | @deploy t head hslot hhead hadm hgate =>
    refine ⟨h.mem, (fun _ ht => nomatch ht), h.pending, fun d hd => ?_⟩
    obtain hd | hd := List.mem_append.mp hd
    · exact h.deployed d hd
    · obtain rfl := List.mem_singleton.mp hd
      exact h.mem t (h.gating t hslot) hadm
  | next => exact known_next h

theorem known_initial (main : List String) (api : List WorkflowRun) : Known (.initial main api) :=
  ⟨(fun _ ht => nomatch ht), (fun _ ht => nomatch ht), (fun _ ht => nomatch ht),
    fun _ hd => nomatch hd⟩

end Known

/-- A dispatched deploy that is to come checks out a commit no older than those before it. -/
def InLine (main : List String) (t : Trigger) (before : List String) : Prop :=
  t.dispatched = true → ∀ sha ∈ before, Orders main sha t.ref

/-- The commits that the group is at: those that were deployed, and the one before its gate. -/
def Repo.ahead (w : Repo) : List String :=
  w.deploys.map Deploy.ref ++
    match w.slot with
    | .gating t => if t.admitted then [t.ref] else []
    | _ => []

/-- The deploys come in the order of `main`, and so will those that wait. -/
structure Serial (w : Repo) : Prop where
  idle : w.slot = .free → w.pending = none
  sorted : (w.deploys.map Deploy.ref).Pairwise (Orders w.main)
  gating : ∀ t, w.slot = .gating t → InLine w.main t (w.deploys.map Deploy.ref)
  pending : ∀ t ∈ w.pending, InLine w.main t w.ahead

section Serial

variable {w w' : Repo} {t : Trigger} {sha head : String}

theorem InLine.push {main before : List String} (h : InLine main t before) (hsha : sha ∉ main) :
    InLine (sha :: main) t before :=
  fun hdisp a ha => (h hdisp a ha).push hsha

theorem mem_ahead (h : Known w) (ha : sha ∈ w.ahead) : sha ∈ w.main := by
  rw [Repo.ahead] at ha
  obtain hdeployed | hgating := List.mem_append.mp ha
  · obtain ⟨d, hd, rfl⟩ := List.mem_map.mp hdeployed
    exact h.deployed d hd
  · cases hslot : w.slot with rw [hslot] at hgating
    | gating t =>
      dsimp only at hgating
      split_ifs at hgating with hadm
      · obtain rfl := List.mem_singleton.mp hgating
        exact h.mem t (h.gating t hslot) hadm
      · exact absurd hgating List.not_mem_nil
    | free => exact absurd hgating List.not_mem_nil
    | deploying t => exact absurd hgating List.not_mem_nil

theorem ahead_free (hslot : w.slot = .free) : w.ahead = w.deploys.map Deploy.ref := by
  simp [Repo.ahead, hslot]

/-- A deploy that is no older than what the group is at comes in. -/
theorem serial_enqueue (h : Serial w) (hline : InLine w.main t w.ahead) :
    Serial (w.enqueue t) := by
  rw [Repo.enqueue]
  cases hslot : w.slot with
  | free =>
    refine ⟨(fun hfree => nomatch hfree), h.sorted, ?_, ?_⟩
    · rintro t' ⟨⟩
      rwa [ahead_free hslot] at hline
    · intro t' ht'
      rw [h.idle hslot] at ht'
      exact nomatch ht'
  | gating t₀ =>
    refine ⟨(fun hfree => nomatch hfree), h.sorted,
      fun t' ht' => h.gating t' (hslot.trans ht'), ?_⟩
    rintro t' ⟨⟩
    simpa [Repo.ahead, hslot] using hline
  | deploying t₀ =>
    refine ⟨(fun hfree => nomatch hfree), h.sorted, (fun t' ht' => nomatch ht'), ?_⟩
    rintro t' ⟨⟩
    simpa [Repo.ahead, hslot] using hline

theorem serial_next (h : Serial w) : Serial w.next := by
  rw [Repo.next]
  cases hpending : w.pending with
  | none => exact ⟨(fun _ => rfl), h.sorted, (fun t ht => nomatch ht), fun t ht => nomatch ht⟩
  | some t =>
    refine ⟨(fun hfree => nomatch hfree), h.sorted, ?_, fun t' ht' => nomatch ht'⟩
    rintro _ ⟨⟩ hdisp sha hsha
    exact h.pending t hpending hdisp sha (List.mem_append_left _ hsha)

/-- What a deploy checks out when its gate passes is no older than what was deployed. -/
theorem orders_gate (hknown : Known w) (h : Serial w) (hslot : w.slot = .gating t)
    (hhead : w.main.head? = some head) (hgate : gate t head w.api = true) :
    ∀ sha ∈ w.deploys.map Deploy.ref,
      Orders w.main sha t.ref := by
  intro sha hsha
  cases t with
  | workflow_dispatch ref => exact h.gating _ hslot rfl sha hsha
  | workflow_run run =>
    -- it is the head of `main`
    have hrun : run.head_sha = head := (gate_iff.mp hgate).1
    obtain ⟨d, hd, rfl⟩ := List.mem_map.mp hsha
    rw [Trigger.ref, hrun]
    exact .head (hknown.deployed d hd) hhead

/-- **A step.**  The order is kept, unless a deploy is dispatched on another ref, or one that was
dispatched is run again. -/
theorem serial_happen {e : Event} (he : ∀ t, e = .rerun t → t.dispatched = false)
    (hmain : ∀ sha, e ≠ .dispatched (some sha)) (hknown : Known w) (h : Serial w) (hstep : happen w e = some w') : Serial w' := by
  cases change_of_happen hstep with
  | push hsha =>
    exact ⟨h.idle, h.sorted.imp fun hab => hab.push hsha,
      fun t ht => (h.gating t ht).push hsha, fun t ht => (h.pending t ht).push hsha⟩
  | ci => exact ⟨h.idle, h.sorted, h.gating, h.pending⟩
  | completed hrun => exact serial_enqueue h fun hdisp => nomatch hdisp
  | dispatched hhead =>
    exact serial_enqueue h fun _ sha hsha => .head (mem_ahead hknown hsha) hhead
  | elsewhere => exact absurd rfl (hmain _)
  | rerun ht =>
    refine serial_enqueue h fun hdisp => ?_
    rw [he _ rfl] at hdisp
    exact nomatch hdisp
  | @deploy t head hslot hhead hadm hgate =>
    refine ⟨(fun hfree => nomatch hfree), ?_, (fun t ht => nomatch ht), ?_⟩
    · rw [List.map_append, List.pairwise_append]
      refine ⟨h.sorted, List.pairwise_singleton _ _, fun sha hsha ref href => ?_⟩
      obtain rfl := List.mem_singleton.mp href
      exact orders_gate hknown h hslot hhead hgate sha hsha
    · intro t' ht' hdisp sha hsha
      refine h.pending t' ht' hdisp sha ?_
      simpa [Repo.ahead, hslot, hadm, Deploy.ref] using hsha
  | next => exact serial_next h

theorem serial_initial (main : List String) (api : List WorkflowRun) :
    Serial (.initial main api) :=
  ⟨(fun _ => rfl), List.Pairwise.nil, (fun _ ht => nomatch ht),
    fun _ ht => nomatch ht⟩

end Serial

/-- A run on a push to `main` that has succeeded. -/
def passed (id : ℕ) (name sha : String) (updated_at : ℕ) : WorkflowRun :=
  ⟨id, name, "push", "main", sha, some "success", 0, updated_at⟩

/-- The runs on a commit, all of which have passed. -/
def allPassed (sha : String) : List WorkflowRun :=
  [passed 1 "Build NixOS configurations" sha 30, passed 2 "Python unit tests" sha 20,
    passed 3 "Lint" sha 10]

/-- A deploy is dispatched, and the next commit comes in before its gate. -/
def outrun : List Event :=
  [.dispatched none, .push "new", .ci (allPassed "new"), .gate, .ends,
    .completed (passed 1 "Build NixOS configurations" "new" 30), .gate]

/-- A dispatched deploy of a commit that is no longer the head is run again. -/
def again : List Event :=
  [.ci (allPassed "old"), .dispatched none, .gate, .ends, .push "new", .ci (allPassed "new"),
    .completed (passed 1 "Build NixOS configurations" "new" 30), .gate, .ends,
    .rerun (.workflow_dispatch "old"), .gate]

/-- It brings the fleet back to the older commit. -/
theorem rerun_downgrades : ∃ w, happens happen (.initial ["old"] []) again = some w ∧
    ¬ w.deploys.Pairwise fun d d' => Orders w.main d.ref d'.ref := by
  refine ⟨_, rfl, fun h => ?_⟩
  have hlast := (List.pairwise_cons.mp (List.pairwise_cons.mp h).2).1 _ List.mem_cons_self
  exact absurd hlast.le (by decide)

/-- A deploy is dispatched on another branch, after `main` is deployed. -/
def elsewhere : List Event :=
  [.ci (allPassed "old"), .dispatched none, .gate, .ends, .dispatched (some "wip"), .gate]

/-- It brings the fleet to a commit that is not on `main`. -/
theorem branch_deployed : ∃ w, happens happen (.initial ["old"] []) elsewhere = some w ∧
    ¬ w.deploys.Pairwise fun d d' => Orders w.main d.ref d'.ref := by
  refine ⟨_, rfl, fun h => ?_⟩
  have hlast := (List.pairwise_cons.mp h).1 _ List.mem_cons_self
  exact absurd hlast.right (by decide)

/-! ### The deploys of one commit -/

/-- The runs of the required workflows on a commit that is pushed to `main`: as they are in the end,
and the millisecond in which each has finished. -/
structure Ci (sha : String) where
  done : String → WorkflowRun
  finished : String → ℕ
  name (name : String) : (done name).name = name
  event (name : String) : (done name).event = "push"
  branch (name : String) : (done name).head_branch = "main"
  head_sha (name : String) : (done name).head_sha = sha
  success (name : String) : (done name).conclusion = some "success"
  updated_at (name : String) : (done name).updated_at = finished name / 1000
  id_inj : ∀ a ∈ required, ∀ b ∈ required, (done a).id = (done b).id → a = b

/-- What the API lists at some time, of the runs on the commit. -/
structure Ci.Shows {sha : String} (ci : Ci sha) (time : ℕ) (api : List WorkflowRun) : Prop where
  complete : ∀ name ∈ required, ci.finished name ≤ time → ci.done name ∈ api
  newest : ∀ name ∈ required, ci.finished name ≤ time → ∀ r ∈ api, Eligible false sha name r →
    r = ci.done name ∨ r.created_at < (ci.done name).created_at
  unfinished : ∀ name ∈ required, time < ci.finished name → ∀ r ∈ api,
    Eligible false sha name r → r.conclusion ≠ some "success"

section Once

variable {sha : String} {ci : Ci sha} {time : ℕ} {api : List WorkflowRun} {name : String}

theorem Ci.eligible (ci : Ci sha) (name : String) : Eligible false sha name (ci.done name) :=
  ⟨ci.head_sha name, ci.name name, by simp [okEvent, ci.event name], ci.branch name⟩

theorem Ci.Shows.pick_eq (h : ci.Shows time api) (hname : name ∈ required)
    (hfinished : ci.finished name ≤ time) :
    pick false (api.filter fun r => r.head_sha = sha) name = some (ci.done name) := by
  refine newest_eq (mem_eligible.mpr ⟨h.complete name hname hfinished, ci.eligible name⟩) ?_
  intro r hr
  obtain ⟨hapi, helig⟩ := mem_eligible.mp hr
  exact h.newest name hname hfinished r hapi helig

/-- A gate finds all green once all runs have finished. -/
theorem Ci.Shows.succeeded_iff (h : ci.Shows time api) (hname : name ∈ required) :
    succeeded (pick false (api.filter fun r => r.head_sha = sha) name) = true ↔
      ci.finished name ≤ time := by
  constructor
  · intro hsucceeded
    obtain ⟨r, hpick, hsuccess⟩ := DeployGate.succeeded_iff.mp hsucceeded
    obtain ⟨hapi, helig⟩ := mem_eligible.mp (newest_spec hpick).1
    by_contra htime
    exact h.unfinished name hname (not_le.mp htime) r hapi helig hsuccess
  · intro hfinished
    rw [h.pick_eq hname hfinished]
    exact DeployGate.succeeded_iff.mpr ⟨_, rfl, ci.success name⟩

theorem Ci.Shows.picked_eq (h : ci.Shows time api)
    (hfinished : ∀ name ∈ required, ci.finished name ≤ time) :
    (picked false api sha).reduceOption = required.map ci.done := by
  have hpicked : picked false api sha = (required.map ci.done).map some := by
    rw [picked, List.map_map]
    exact List.map_congr_left fun name hname => h.pick_eq hname (hfinished name hname)
  rw [hpicked]
  simp [List.reduceOption, List.filterMap_map]

/-- The gate of a run passes once all have finished, if the run is the one that ended last. -/
theorem Ci.Shows.gate_iff (h : ci.Shows time api) :
    gate (.workflow_run (ci.done name)) sha api = true ↔
      (∀ name ∈ required, ci.finished name ≤ time) ∧
        ∀ last, DeployGate.newest (·.updated_at) (required.map ci.done) = some last →
          last.id = (ci.done name).id := by
  rw [DeployGate.gate_iff]
  constructor
  · rintro ⟨-, hsucceeded, hlast⟩
    have hfinished : ∀ name ∈ required, ci.finished name ≤ time := fun name hname =>
      (h.succeeded_iff hname).mp (hsucceeded name hname)
    exact ⟨hfinished, h.picked_eq hfinished ▸ hlast _ rfl⟩
  · rintro ⟨hfinished, hlast⟩
    refine ⟨ci.head_sha name, fun name hname => (h.succeeded_iff hname).mpr (hfinished name hname),
      ?_⟩
    rintro run ⟨⟩
    rwa [h.picked_eq hfinished]

end Once

/-- **Once.**  Each run on a commit triggers a gate, which reads the API at some time after the run
has finished.  At most one of the gates passes; and one of them does, if each waits until the second
is over in which its run has finished. -/
theorem deployed_once {sha : String} (ci : Ci sha) {read : String → ℕ}
    {api : String → List WorkflowRun}
    (hshows : ∀ name ∈ required, ci.Shows (read name) (api name)) :
    (∀ a ∈ required, ∀ b ∈ required, gate (.workflow_run (ci.done a)) sha (api a) = true →
      gate (.workflow_run (ci.done b)) sha (api b) = true → a = b) ∧
    ((∀ name ∈ required, ci.finished name / 1000 < read name / 1000) →
      ∃ name ∈ required, gate (.workflow_run (ci.done name)) sha (api name) = true) := by
  obtain ⟨last, hlast⟩ : ∃ last, newest (·.updated_at) (required.map ci.done) = some last := by
    cases hnewest : newest (·.updated_at) (required.map ci.done) with
    | none => exact absurd (newest_eq_none.mp hnewest) (by simp [required])
    | some last => exact ⟨last, rfl⟩
  constructor
  · intro a ha b hb hgate hgate'
    have hid := ((hshows a ha).gate_iff.mp hgate).2 last hlast
    have hid' := ((hshows b hb).gate_iff.mp hgate').2 last hlast
    exact ci.id_inj a ha b hb (hid.symm.trans hid')
  · intro hafter
    obtain ⟨hmem, hnewest⟩ := newest_spec hlast
    obtain ⟨name, hname, rfl⟩ := List.mem_map.mp hmem
    refine ⟨name, hname, (hshows name hname).gate_iff.mpr ⟨fun other hother => ?_, ?_⟩⟩
    · -- the other has finished in the same second or before
      have hle := hnewest _ (List.mem_map_of_mem hother)
      rw [ci.updated_at, ci.updated_at] at hle
      have := hafter name hname
      omega
    · intro last' hlast'
      rw [hlast] at hlast'
      rw [← Option.some.inj hlast']

/-- The lint run is the first to finish, and the build the last. -/
def pushed : Ci "new" where
  done name :=
    if name = "Lint" then passed 3 name "new" 10
    else if name = "Python unit tests" then passed 2 name "new" 20 else passed 1 name "new" 30
  finished name := if name = "Lint" then 10500 else if name = "Python unit tests" then 20500 else 30500
  name name := by split_ifs <;> rfl
  event name := by split_ifs <;> rfl
  branch name := by split_ifs <;> rfl
  head_sha name := by split_ifs <;> rfl
  success name := by split_ifs <;> rfl
  updated_at name := by split_ifs <;> rfl
  id_inj := by decide

/-- The runs that have finished before some time. -/
def listed (time : ℕ) : List WorkflowRun :=
  (required.filter fun name => pushed.finished name ≤ time).map pushed.done

theorem pushed_shows (time : ℕ) : pushed.Shows time (listed time) := by
  have hlisted : ∀ name ∈ required, ∀ r ∈ listed time, Eligible false "new" name r →
      r = pushed.done name ∧ pushed.finished name ≤ time := by
    intro name _ r hr helig
    obtain ⟨other, hother, rfl⟩ := List.mem_map.mp hr
    obtain rfl : other = name := (pushed.name other).symm.trans helig.name
    exact ⟨rfl, by simpa using (List.mem_filter.mp hother).2⟩
  constructor
  · exact fun name hname hfinished =>
      List.mem_map_of_mem (List.mem_filter.mpr ⟨hname, by simpa using hfinished⟩)
  · exact fun name hname _ r hr helig => .inl (hlisted name hname r hr helig).1
  · exact fun name hname htime r hr helig =>
      absurd (hlisted name hname r hr helig).2 (not_le.mpr htime)

/-- Each gate reads a second after its run; the last of them passes. -/
theorem deployed_once_pushed : ∃ name ∈ required,
    gate (.workflow_run (pushed.done name)) "new" (listed (pushed.finished name + 1000)) = true :=
  (deployed_once pushed fun name _ => pushed_shows (pushed.finished name + 1000)).2
    fun name _ => by omega

end DeployGate
