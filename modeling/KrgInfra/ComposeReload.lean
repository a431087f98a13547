/-
compose-reload: the plan, and the whole run.

A run compares what the services' bind mounts show with the recorded fingerprints,
asks compose what it would recreate, plans which services to hand off, hands them off
one after the other, recreates the other services whose mounts changed, and leaves the
rest to `up`.  The programs are the functions of compose-reload.py, translated call by
call; a set of services is a list of which only membership counts.

* `changed_oneshots`, `ineligible` — what keeps a service from a handoff;
* `mount_fingerprints`, `mounts_changed`, `load_state`, `save_state`;
* `plan` and `main`.
-/
import KrgInfra.Handoff
import Mathlib.Data.List.Sort
import Mathlib.Data.String.Basic

namespace Compose

/-- `sorted` of strings. -/
def sorted (l : List String) : List String := l.insertionSort (· ≤ ·)

@[simp] theorem mem_sorted {l : List String} {x : String} : x ∈ sorted l ↔ x ∈ l :=
  List.mem_insertionSort _

def ROLLOUT_LABEL : String := "krg.rollout"

/-- `(spec.get("labels") or {}).get(ROLLOUT_LABEL) == "handoff"` -/
def Spec.labelled (spec : Spec) : Bool := decide (spec.labels.lookup ROLLOUT_LABEL = some "handoff")

/-! ### Mounted config -/

/-- The fingerprint of what a mounted source shows: its content's hash, or its path. -/
def fingerprint (content_hash : String → String) : Shown → String
  | .content text => "sha256:" ++ content_hash text
  | .path real => real

/-- `mount_fingerprints` -/
def mount_fingerprints (content_hash : String → String) (files : Files) (specs : Specs) :
    List (String × List String) :=
  specs.map fun s => (s.1, sorted ((s.2.shown files).map (fingerprint content_hash)))

/-- `mounts_changed`: without a previous state, nothing. -/
def mounts_changed (prev : Option (List (String × List String)))
    (cur : List (String × List String)) : List String :=
  match prev with
  | none => []
  | some prev => (cur.filter fun s => (prev.lookup s.1).any (· ≠ s.2)).map Prod.fst

def STATE_VERSION : ℕ := 2

/-- What `load_state` makes of the state file. -/
def SavedState.load (state : SavedState) : Option (List (String × List String)) :=
  if state.version = STATE_VERSION then state.mounts else none

/-- `ineligible`: why a labelled service can't be handed off. -/
def ineligible (spec : Spec) : Option String :=
  if spec.container_name ≠ "" then
    some "has container_name (two containers can't share a name)"
  else if spec.ports ≠ [] then
    some "publishes host ports (two containers can't bind the same port)"
  else
    match spec.healthcheck with
    | none => some "has no healthcheck (nothing to tell when the new container is ready)"
    | some hc =>
      if hc.disable ∨ hc.test = .list ["NONE"] ∨ hc.test = .text "NONE" then
        some "has no healthcheck (nothing to tell when the new container is ready)"
      else none

section Program

variable (env : ComposeEnv)

/-- `load_state`: a file that cannot be read or parsed is no state. -/
def load_state : Reload (Option (List (String × List String))) :=
  tryCatch (docker env .loadState (see fun w => .ok (w.state.bind SavedState.load, [])))
    fun _ => pure none

/-- `save_state` -/
def save_state (mounts : List (String × List String)) : Reload Unit :=
  docker env .saveState (work fun w =>
    { w with state := some ⟨STATE_VERSION, some mounts⟩ }.record [.saved])

/-! ### The plan -/

/-- The images of the containers `ids`. -/
def images (svc dep : String) : List String → Reload (List String)
  | [] => pure []
  | c :: cs => do
    let i ← image env (.image svc dep c) c
    let is ← images svc dep cs
    return i :: is

/-- Whether the one-shot `dep`, a dependency of `svc`, has containers of another image than
the compose file wants, or none: `have != {want}`. -/
def oneshotChanged (svc dep want : String) : Reload Bool := do
  let containers ← ps env (.oneshots svc dep) dep true
  let have_ ← images env svc dep containers
  return decide (have_ = []) || have_.any (· ≠ want)

/-- The image that the compose file gives a one-shot, empty where there is none. -/
def wantedImage (specs : Specs) (dep : String) : String := ((specs.lookup dep).getD {}).image

/-- `changed_oneshots`, before it is sorted -/
def pendingOneshots (specs : Specs) (svc : String) : List (String × Option String) →
    Reload (List String)
  | [] => pure []
  | (dep, cond) :: deps =>
    if cond ≠ some "service_completed_successfully" ∨ wantedImage specs dep = "" then
      pendingOneshots specs svc deps
    else do
      let changed ← oneshotChanged env svc dep (wantedImage specs dep)
      let pending ← pendingOneshots specs svc deps
      return if changed then dep :: pending else pending

/-- `changed_oneshots` -/
def changed_oneshots (specs : Specs) (svc : String) (spec : Spec) : Reload (List String) :=
  sorted <$> pendingOneshots env specs svc spec.depends_on

/-- `spec.get("build") and not self.has_image(spec.get("image"))` -/
def missingImage (svc : String) (spec : Spec) : Reload Bool :=
  if spec.build then (!·) <$> has_image env svc spec.image else return false

/-- The services whose image is to be built. -/
def missingImages : Specs → Reload (List String)
  | [] => pure []
  | (svc, spec) :: rest => do
    let missing ← missingImage env svc spec
    let todo ← missingImages rest
    return if missing then svc :: todo else todo

/-- `build_missing` -/
def build_missing (specs : Specs) : Reload (List String) := do
  let todo ← sorted <$> missingImages env specs
  if todo = [] then return todo
  else do
    build env todo
    return todo

/-- The services of the containers `names`; of two containers of one name the later counts. -/
def servicesOf (names : List String) (svc_of : List (String × String)) : List String :=
  names.filterMap (List.lookup · svc_of.reverse)

/-- `changed_services` -/
def changed_services (services : List String) : Reload (List String) :=
  if services = [] then return []
  else do
    pull env
    let names ← dry_run env
    if names = [] then return []
    else do
      let svc_of ← ps_names env
      return servicesOf names svc_of

/-- The containers of `svc` to hand off, if it is to be handed off, `old` being those that
run; the last question is whether a one-shot changed. -/
def planRunning (specs : Specs) (forced changed : List String) (svc : String) (spec : Spec)
    (old : List String) : Reload (Option (List String)) :=
  if old = [] then return none
  else if svc ∉ forced ∧ svc ∉ changed then return none
  else if old.length > 1 then return none
  else if (ineligible spec).isSome then return none
  else do
    let pending ← changed_oneshots env specs svc spec
    return if pending = [] then some old else none

/-- The plan for one service. -/
def planOne (specs : Specs) (forced changed : List String) (svc : String) :
    Reload (Option (List String)) :=
  let spec := (specs.lookup svc).getD {}
  if spec.labelled then do
    let old ← ps env (.running svc) svc false
    planRunning env specs forced changed svc spec old
  else return none

/-- The plan for the services, in this order. -/
def planAll (specs : Specs) (forced changed : List String) : List String →
    Reload (List (String × List String))
  | [] => pure []
  | svc :: svcs => do
    let one ← planOne env specs forced changed svc
    let todo ← planAll specs forced changed svcs
    return (one.map fun old => (svc, old)).toList ++ todo

/-- `plan` -/
def plan (forced : List String) : Reload (List (String × List String)) := do
  let specs ← specs env .planConfig
  let _ ← build_missing env specs
  let changed ← changed_services env ((specs.filter (·.2.labelled)).map Prod.fst)
  planAll env specs forced changed (sorted (specs.map Prod.fst))

/-! ### The run -/

/-- The services whose handoff failed. -/
def handoffs : List (String × List String) → Reload (List String)
  | [] => pure []
  | (svc, old) :: todo => do
    let done ← safe_handoff env svc old
    say (.handed svc done)
    let failed ← handoffs todo
    return if done then failed else svc :: failed

/-- `--state` and `--dry-run` -/
structure Args where
  state : Bool := true
  dry_run : Bool := false

/-- The state comparison at the start: the services whose mounts changed, and the current
fingerprints. -/
def compareState (content_hash : String → String) (args : Args) :
    Reload (List String × List (String × List String)) :=
  if args.state then do
    let specs ← specs env .config
    let prev ← load_state env
    let mounts := mount_fingerprints content_hash env.files specs
    return (mounts_changed prev mounts, mounts)
  else return ([], [])

/-- Recreate the services whose mounts changed and that are not handed off. -/
def recreateInPlace (recreate : List String) : Reload Unit :=
  if recreate = [] then return () else force_recreate env recreate

/-- Record the fingerprints, with `--state`. -/
def record_state (args : Args) (mounts : List (String × List String)) : Reload Unit :=
  if args.state then save_state env mounts else return ()

/-- The part of the run after the handoffs. -/
def finish (args : Args) (recreate : List String) (mounts : List (String × List String)) :
    Reload ℕ := do
  recreateInPlace env recreate
  up env
  record_state env args mounts
  return 0

/-- The forced services that are not handed off. -/
def toRecreate (forced : List String) (todo : List (String × List String)) : List String :=
  sorted (forced.filter (· ∉ todo.map Prod.fst))

/-- The run from the plan on. -/
def execute (args : Args) (forced : List String) (mounts : List (String × List String))
    (todo : List (String × List String)) : Reload ℕ :=
  if args.dry_run then return 0
  else do
    let failed ← handoffs env todo
    if failed ≠ [] then return 1 else finish env args (toRecreate forced todo) mounts

/-- `main`, from its parsed arguments. -/
def main (content_hash : String → String) (args : Args) : Reload ℕ := do
  let (forced, mounts) ← compareState env content_hash args
  let todo ← plan env forced
  execute env args forced mounts todo

end Program

end Compose
