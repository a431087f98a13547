/-
The docker daemon and the compose stack that compose-reload works on.

The world is the daemon's containers and a log of what was done to them and seen of
them.  Each docker or compose call of compose-reload is an action on it, made at a
call site of its own; a call can fail with any exception, before or after its effect,
and containers change their state and health between calls.

* `Spec` — a service of the resolved compose file;
* `Docker` — the world; `complete` makes a container that no listing shows
  impossible to build;
* `Event` — what the log records;
* `ps`, `health`, `stop`, `rm`, `exec_touch`, `up_scale`, `force_recreate`, `up` — the
  calls that compose-reload makes.
-/
import KrgInfra.Program
import Mathlib.Data.List.Nodup
import Mathlib.Data.Nat.Basic
import Mathlib.Logic.Function.Basic

namespace Compose

/-! ### The compose file -/

/-- An entry of `volumes`: a string, or a mapping with its `type`, `source` and
`target`. -/
inductive Volume where
  | short (text : String)
  | long (type source target : String)
  deriving DecidableEq, Repr

/-- The `test` of a healthcheck. -/
inductive HealthTest where
  | absent
  | text (s : String)
  | list (args : List String)
  deriving DecidableEq, Repr

structure Healthcheck where
  disable : Bool := false
  test : HealthTest := .absent
  deriving DecidableEq, Repr

/-- A service of the resolved compose file.  A missing string and an empty one are
both falsy; `none` for `healthcheck` is a missing or empty one. -/
structure Spec where
  image : String := ""
  build : Bool := false
  container_name : String := ""
  ports : List String := []
  healthcheck : Option Healthcheck := none
  labels : List (String × String) := []
  depends_on : List (String × Option String) := []
  volumes : List Volume := []
  deriving DecidableEq, Repr

/-- `{service: spec}`, in the order of the file. -/
abbrev Specs := List (String × Spec)

/-! ### The host's files -/

/-- The host's files as far as bind mounts see them: `os.path.realpath`, and what is at
a resolved path, if there is something. -/
structure Files where
  resolve : String → String
  content : String → Option String

def STORE : String := "/nix/store/"

/-- Whether a resolved path is in the Nix store, and there. -/
def Files.inStore (files : Files) (real : String) : Bool :=
  STORE.toList.isPrefixOf real.toList && (files.content real).isSome

/-- What a mounted source shows: the content of a store path; of any other source no
more is told apart than its resolved path. -/
inductive Shown where
  | content (text : String)
  | path (real : String)
  deriving DecidableEq, Repr

def Files.shows (files : Files) (source : String) : Shown :=
  if files.inStore (files.resolve source) then
    .content ((files.content (files.resolve source)).getD "")
  else .path (files.resolve source)

/-- The source of a bind mount that names one. -/
def Volume.bindSource : Volume → Option String
  | .short _ => none
  | .long type source _ => if type = "bind" ∧ source ≠ "" then some source else none

/-- What the bind mounts of a service show, in the order of the compose file. -/
def Spec.shown (files : Files) (spec : Spec) : List Shown :=
  (spec.volumes.filterMap Volume.bindSource).map files.shows

/-! ### The daemon -/

/-- `.State.Status`, as far as it is told apart. -/
inductive Status where
  | running
  | exited
  deriving DecidableEq, Repr

/-- `.State.Health.Status`, `none` without a check. -/
inductive Health where
  | none
  | starting
  | healthy
  | unhealthy
  deriving DecidableEq, Repr

/-- A container.  `mounts` is what its bind mounts showed when it was created, `drains`
says whether its healthcheck honours the drain file and `drained` whether that file
is there; `seen` records that an inspection found it running and healthy. -/
structure Container where
  service : String
  name : String := ""
  image : String := ""
  mounts : List Shown := []
  drains : Bool := false
  status : Status := .running
  health : Health := .starting
  drained : Bool := false
  seen : Bool := false
  deriving DecidableEq, Repr

/-- Running and healthy. -/
def Container.up (c : Container) : Bool :=
  decide (c.status = .running) && decide (c.health = .healthy)

/-- What a healthy container does unless it is being drained. -/
def Container.serving (c : Container) : Bool := c.up && !c.drained

/-- What `docker stop` leaves. -/
def Container.exit (c : Container) : Container := { c with status := .exited }

/-- What the making of the drain file leaves. -/
def Container.touch (c : Container) : Container := { c with drained := true }

/-- What an inspection leaves. -/
def Container.mark (c : Container) : Container := { c with seen := c.seen || c.up }

/-- What the log records: answers of the daemon, what was done to it, and what
compose-reload says of a handoff. -/
inductive Event where
  | listed (service : String) (ids : List String)
  | health (id : String) (status : Status) (health : Health)
  | stopped (ids : List String)
  | removed (ids : List String)
  | created (service : String)
  | completed (service image : String)
  | forceRecreated (services : List String)
  | up
  | saved
  | handing (service : String) (old : List String)
  | handed (service : String) (done : Bool)
  deriving DecidableEq, Repr

/-- What `up` does to a service, as far as the order of services is concerned. -/
inductive UpStep where
  | makes (service : String)
  | completes (service image : String)
  deriving DecidableEq, Repr

def UpStep.event : UpStep → Event
  | .makes service => .created service
  | .completes service image => .completed service image

/-- The containers that an event stops or removes. -/
def Event.taken : Event → List String
  | .stopped ids => ids
  | .removed ids => ids
  | _ => []

/-- The recorded fingerprints of the services' mounts, and the format they are in. -/
structure SavedState where
  version : ℕ
  mounts : Option (List (String × List String))
  deriving DecidableEq, Repr

/-- The daemon's containers in the order it lists them, the images on the host, the
state file, and the log, latest event last. -/
structure Docker where
  container : String → Option Container
  order : List String
  images : List String := []
  state : Option SavedState := none
  log : List Event := []
  complete : ∀ id, container id ≠ none → id ∈ order

/-- The services that an event creates or recreates containers of. -/
def Event.makes : Event → List String
  | .created service => [service]
  | .forceRecreated services => services
  | _ => []

/-- How a call fails. -/
inductive Fault where
  | calledProcess
  | timeoutExpired
  | other
  deriving DecidableEq, Repr

namespace Docker

/-- Change the containers `ids`. -/
def onIds (w : Docker) (ids : List String) (f : Container → Container) : Docker :=
  { w with
    container := fun i => if i ∈ ids then (w.container i).map f else w.container i
    complete := by
      intro i hi
      refine w.complete i fun hn => hi ?_
      simp [hn] }

/-- Remove the containers `ids`. -/
def remove (w : Docker) (ids : List String) : Docker :=
  { w with
    container := fun i => if i ∈ ids then none else w.container i
    complete := by
      intro i hi
      refine w.complete i fun hn => hi ?_
      simp [hn] }

/-- An id that no container has had. -/
def freshId (w : Docker) : String := w.order.foldl (· ++ ·) "+"

theorem length_foldl_append (l : List String) :
    ∀ s : String, (∀ i ∈ l, i.length ≤ (l.foldl (· ++ ·) s).length) ∧
      s.length ≤ (l.foldl (· ++ ·) s).length ∧ (0 < s.length → ∀ i ∈ l,
        i.length < (l.foldl (· ++ ·) s).length) := by
  induction l with
  | nil => exact fun s => ⟨by simp, le_refl _, by simp⟩
  | cons a l ih =>
    intro s
    obtain ⟨h₁, h₂, h₃⟩ := ih (s ++ a)
    rw [String.length_append] at h₂ h₃
    refine ⟨List.forall_mem_cons.mpr ⟨?_, h₁⟩, ?_, fun hs => List.forall_mem_cons.mpr ⟨?_, ?_⟩⟩
    · exact le_trans (by omega) h₂
    · exact le_trans (by omega) h₂
    · exact lt_of_lt_of_le (by omega) h₂
    · exact h₃ (by omega)

theorem container_freshId (w : Docker) : w.container w.freshId = none := by
  by_contra h
  have hlt := (length_foldl_append w.order "+").2.2 (by decide) _ (w.complete _ h)
  exact absurd hlt (lt_irrefl _)

/-- Create a container. -/
def create (w : Docker) (c : Container) : Docker :=
  { w with
    container := Function.update w.container w.freshId (some c)
    order := w.order ++ [w.freshId]
    complete := by
      intro i hi
      rcases eq_or_ne i w.freshId with rfl | hne
      · simp
      · rw [Function.update_of_ne hne] at hi
        exact List.mem_append_left _ (w.complete i hi) }

def createAll (w : Docker) (cs : List Container) : Docker := cs.foldl create w

/-- Looking for a container is going through those that the daemon lists. -/
theorem exists_container {w : Docker} {p : Container → Bool} :
    (∃ id k, w.container id = some k ∧ p k = true) ↔
      w.order.any (fun id => (w.container id).any p) = true := by
  rw [List.any_eq_true]
  constructor
  · rintro ⟨id, k, hk, hp⟩
    exact ⟨id, w.complete id (by rw [hk]; simp), by rw [hk, Option.any_some, hp]⟩
  · rintro ⟨id, -, h⟩
    obtain ⟨k, hk, hp⟩ := Option.any_eq_true _ _ |>.mp h
    exact ⟨id, k, hk, hp⟩

/-- Write to the log. -/
def record (w : Docker) (es : List Event) : Docker := { w with log := w.log ++ es }

@[simp] theorem container_onIds (w : Docker) (ids : List String) (f : Container → Container)
    (i : String) : (w.onIds ids f).container i =
      if i ∈ ids then (w.container i).map f else w.container i := rfl

@[simp] theorem log_onIds (w : Docker) (ids : List String) (f : Container → Container) :
    (w.onIds ids f).log = w.log := rfl

@[simp] theorem container_remove (w : Docker) (ids : List String) (i : String) :
    (w.remove ids).container i = if i ∈ ids then none else w.container i := rfl

@[simp] theorem log_remove (w : Docker) (ids : List String) : (w.remove ids).log = w.log := rfl

@[simp] theorem container_record (w : Docker) (es : List Event) :
    (w.record es).container = w.container := rfl

@[simp] theorem log_record (w : Docker) (es : List Event) : (w.record es).log = w.log ++ es := rfl

@[simp] theorem log_create (w : Docker) (c : Container) : (w.create c).log = w.log := rfl

@[simp] theorem log_createAll (cs : List Container) :
    ∀ w : Docker, (w.createAll cs).log = w.log := by
  induction cs with
  | nil => exact fun _ => rfl
  | cons c cs ih => exact fun w => ih (w.create c)

theorem container_create (w : Docker) (c : Container) (i : String) :
    (w.create c).container i = if i = w.freshId then some c else w.container i :=
  Function.update_apply _ _ _ _

/-- Creating a container changes none that is there. -/
theorem create_of_some {w : Docker} {i : String} {c k : Container} (h : w.container i = some k) :
    (w.create c).container i = some k := by
  have hne : i ≠ w.freshId := by
    rintro rfl
    exact absurd (h.symm.trans w.container_freshId) (by simp)
  rw [container_create, if_neg hne, h]

theorem createAll_of_some {i : String} {k : Container} (cs : List Container) :
    ∀ {w : Docker}, w.container i = some k → (w.createAll cs).container i = some k := by
  induction cs with
  | nil => exact fun h => h
  | cons c cs ih => exact fun h => ih (create_of_some h)

/-- What is there afterwards was there or was created. -/
theorem of_create {w : Docker} {i : String} {c k : Container}
    (h : (w.create c).container i = some k) : w.container i = some k ∨ k = c := by
  rw [container_create] at h
  split_ifs at h
  · exact .inr (Option.some_inj.mp h).symm
  · exact .inl h

theorem of_createAll {i : String} {k : Container} (cs : List Container) :
    ∀ {w : Docker}, (w.createAll cs).container i = some k → w.container i = some k ∨ k ∈ cs := by
  induction cs with
  | nil => exact fun h => .inl h
  | cons c cs ih =>
    intro w h
    rcases ih h with h' | h'
    · rcases of_create h' with h'' | rfl
      · exact .inl h''
      · exact .inr List.mem_cons_self
    · exact .inr (List.mem_cons_of_mem _ h')

/-- What is created is there. -/
theorem exists_of_createAll {k : Container} (cs : List Container) :
    ∀ {w : Docker}, k ∈ cs → ∃ i, (w.createAll cs).container i = some k := by
  induction cs with
  | nil => exact fun h => absurd h List.not_mem_nil
  | cons c cs ih =>
    intro w h
    rcases List.mem_cons.mp h with rfl | h
    · exact ⟨w.freshId, createAll_of_some cs (by rw [container_create, if_pos rfl])⟩
    · exact ih h

/-- The containers of a service, as `ps` lists them. -/
def ids (w : Docker) (service : String) (all : Bool) : List String :=
  w.order.filter fun i =>
    match w.container i with
    | some c => decide (c.service = service) && (all || decide (c.status = .running))
    | none => false

theorem mem_ids {w : Docker} {service i : String} {all : Bool} : i ∈ w.ids service all ↔
    ∃ c, w.container i = some c ∧ c.service = service ∧ (all = true ∨ c.status = .running) := by
  unfold ids
  rw [List.mem_filter]
  constructor
  · rintro ⟨-, h⟩
    cases hc : w.container i with
    | none =>
      rw [hc] at h
      exact absurd h (by simp)
    | some c =>
      rw [hc] at h
      simp only [Bool.and_eq_true, decide_eq_true_eq, Bool.or_eq_true] at h
      exact ⟨c, rfl, h⟩
  · rintro ⟨c, hc, h⟩
    refine ⟨w.complete i (by rw [hc]; simp), ?_⟩
    rw [hc]
    simpa using h

end Docker

/-! ### Call sites -/

/-- The calls of `_abort`. -/
inductive AbortSite where
  | logs (id : String)
  | stopNew
  | rmNew
  deriving DecidableEq, Repr

/-- The calls of the handoff of one service; `k` numbers the polls. -/
inductive HandoffSite where
  | scaleUp
  | listNew
  | health (k : ℕ) (id : String)
  | drains (id : String)
  | touch (id : String)
  | drainHealth (k : ℕ) (id : String)
  | stopOld
  | rmOld
  | abort (a : AbortSite)
  | cleanupRunning (id : String)
  | cleanupList
  | cleanupAbort (a : AbortSite)
  deriving DecidableEq, Repr

/-- The calls of compose-reload. -/
inductive Site where
  | config
  | loadState
  | planConfig
  | imageLs (service : String)
  | build
  | pull
  | dryRun
  | psNames
  | running (service : String)
  | oneshots (service dep : String)
  | image (service dep id : String)
  | handoff (service : String) (h : HandoffSite)
  | forceRecreate
  | up
  | saveState
  deriving DecidableEq, Repr

/-- The calls before the first handoff. -/
def Site.planning : Site → Bool
  | .handoff _ _ => false
  | .forceRecreate => false
  | .up => false
  | .saveState => false
  | _ => true

/-- The environment of a run: the resolved compose file, the host's files, which calls
fail, how the containers change before each call, and how many polls fit before the
deadline of a loop.  The rest is what the daemon does where it has a choice: the
containers that a scale-up creates and those stopped ones it starts, the containers that
compose would recreate, those that the final `up` keeps, the container it makes of a
service, the services that a failing command has reached, and the order in which `up`
runs the one-shots and makes the services. -/
structure ComposeEnv where
  specs : Specs := []
  files : Files := ⟨id, fun _ => none⟩
  outcome : Site → Outcome Fault := fun _ => .ok
  before : Site → Docker → Docker := fun _ w => w
  polls : String → ℕ := fun _ => 0
  drainPolls : String → ℕ := fun _ => 0
  scaled : String → List Container := fun _ => []
  started : String → List String := fun _ => []
  recreateNames : List String := []
  keeps : String → List String := fun _ => []
  made : String → Container := fun service => { service := service }
  reached : Site → List String := fun _ => []
  upSteps : List UpStep := []

/-- Nobody else writes to the log, or to the state file. -/
def ComposeEnv.toEnv (env : ComposeEnv) : Env Site Fault Docker where
  before := fun i w => { env.before i w with log := w.log, state := w.state }
  outcome := env.outcome

/-- What the bind mounts of a service show during the run. -/
def ComposeEnv.shown (env : ComposeEnv) (service : String) : List Shown :=
  ((env.specs.lookup service).getD {}).shown env.files

/-- A program of compose-reload. -/
abbrev Reload (α : Type) := Program Fault Docker α

/-! ### The calls of `Stack` -/

section Calls

/-- A call that reads the world and notes what it saw. -/
def see {α : Type} (f : Docker → Except Fault (α × List Event)) : Work Fault Docker α := fun w =>
  match f w with
  | .ok (a, es) => (.ok a, w.record es)
  | .error e => (.error e, w)

/-- A call that does its work on the world. -/
def work (f : Docker → Docker) : Work Fault Docker Unit := fun w => (.ok (), f w)

variable (env : ComposeEnv)

/-- One call of compose-reload. -/
def docker {α : Type} (i : Site) (act : Work Fault Docker α) : Reload α := call env.toEnv i act

/-- `Stack.running` and `Stack.all_containers` -/
def ps (i : Site) (service : String) (all : Bool) : Reload (List String) :=
  docker env i (see fun w => .ok (w.ids service all, [.listed service (w.ids service all)]))

/-- `docker inspect` of the state: an unknown container makes it fail. -/
def inspect (id : String) : Work Fault Docker (Status × Health) := fun w =>
  match w.container id with
  | none => (.error .calledProcess, w)
  | some c =>
    (.ok (c.status, c.health),
      (w.onIds [id] Container.mark).record [.health id c.status c.health])

theorem inspect_of_none {w : Docker} {id : String} (h : w.container id = none) :
    inspect id w = (.error .calledProcess, w) := by
  rw [inspect, h]

theorem inspect_of_some {w : Docker} {id : String} {c : Container} (h : w.container id = some c) :
    inspect id w = (.ok (c.status, c.health),
      (w.onIds [id] Container.mark).record [.health id c.status c.health]) := by
  rw [inspect, h]

/-- `Stack.health` -/
def health (i : Site) (id : String) : Reload (Status × Health) := docker env i (inspect id)

/-- `Stack.drains` -/
def drains (i : Site) (id : String) : Reload Bool :=
  docker env i (see fun w =>
    match w.container id with
    | none => .error .calledProcess
    | some c => .ok (c.drains, []))

/-- `Stack.image` -/
def image (i : Site) (id : String) : Reload String :=
  docker env i (see fun w =>
    match w.container id with
    | none => .error .calledProcess
    | some c => .ok (c.image, []))

/-- `docker logs --tail 50`: its output only goes to the journal. -/
def logs (i : Site) (id : String) : Reload Unit :=
  docker env i (see fun w =>
    match w.container id with
    | none => .error .calledProcess
    | some _ => .ok ((), []))

/-- `docker exec <id> touch /tmp/krg-drain` -/
def exec_touch (i : Site) (id : String) : Reload Unit :=
  docker env i (work fun w => w.onIds [id] Container.touch)

/-- `docker stop` -/
def stop (i : Site) (ids : List String) : Reload Unit :=
  docker env i (work fun w => (w.onIds ids Container.exit).record [.stopped ids])

/-- `docker rm` -/
def rm (i : Site) (ids : List String) : Reload Unit :=
  docker env i (work fun w => (w.remove ids).record [.removed ids])

/-- Start a stopped container: its healthcheck begins anew. -/
def Container.start (c : Container) : Container :=
  if c.status = .running then c else { c with status := .running, health := .starting }

/-- The containers that compose creates for a service: made from what the bind mounts
show now, not drained, and not yet seen by anybody. -/
def newContainers (service : String) (cs : List Container) : List Container :=
  cs.map fun c =>
    { c with service := service, mounts := env.shown service, drained := false, seen := false }

/-- `up --detach --no-deps --no-recreate --scale`: starts stopped containers of the
service, and creates new ones. -/
def up_scale (i : Site) (service : String) : Reload Unit :=
  docker env i (work fun w =>
    ((w.onIds ((env.started service).filter (· ∈ w.ids service true)) Container.start).createAll
      (newContainers env service (env.scaled service))).record [.created service])

/-- `Stack.specs` -/
def specs (i : Site) : Reload Specs := docker env i (see fun _ => .ok (env.specs, []))

/-- `Stack.has_image` -/
def has_image (service image : String) : Reload Bool :=
  if image = "" then return false
  else docker env (.imageLs service) (see fun w => .ok (decide (image ∈ w.images), []))

/-- `build`, of the services `todo` -/
def build (todo : List String) : Reload Unit :=
  docker env .build (work fun w => { w with
    images := w.images ++ (env.specs.filter (·.1 ∈ todo)).map (·.2.image) })

/-- `pull --policy missing --ignore-buildable` -/
def pull : Reload Unit :=
  docker env .pull (work fun w => { w with
    images := w.images ++ (env.specs.filter (!·.2.build)).map (·.2.image) })

/-- `--dry-run up`: the names it reports as to be recreated. -/
def dry_run : Reload (List String) := docker env .dryRun (see fun _ => .ok (env.recreateNames, []))

/-- `ps --all` with names and services -/
def ps_names : Reload (List (String × String)) :=
  docker env .psNames (see fun w =>
    .ok (w.order.filterMap fun i => (w.container i).map fun c => (c.name, c.service), []))

/-- Recreate a service, but for the containers `kept`, which are started. -/
def Docker.recreate (w : Docker) (service : String) (kept : List String) (new : List Container) :
    Docker :=
  ((w.remove ((w.ids service true).filter (· ∉ kept))).onIds
    ((w.ids service true).filter (· ∈ kept)) Container.start).createAll new

/-- The one container that compose makes of a service. -/
def newContainer (service : String) : List Container :=
  newContainers env service [{ env.made service with status := .running }]

/-- What `up` makes of a service: the containers it keeps run, and there is at least one. -/
def upService (w : Docker) (service : String) : Docker :=
  let kept := (w.ids service true).filter (· ∈ env.keeps service)
  w.recreate service kept (if kept = [] then newContainer env service else [])

/-- The services of which a command has made what it should: all of them, unless it fails. -/
def reachedOf (i : Site) (services : List String) : List String :=
  match env.outcome i with
  | .ok => services
  | .raise _ _ => services.filter (· ∈ env.reached i)

theorem mem_of_reachedOf {env : ComposeEnv} {i : Site} {services : List String} {s : String}
    (h : s ∈ reachedOf env i services) : s ∈ services := by
  unfold reachedOf at h
  split at h
  · exact h
  · exact List.mem_of_mem_filter h

/-- `up --detach --no-deps --force-recreate` -/
def force_recreate (services : List String) : Reload Unit :=
  docker env .forceRecreate (work fun w =>
    ((reachedOf env .forceRecreate services).foldl
      (fun w s => w.recreate s [] (newContainer env s)) w).record
        [.forceRecreated (reachedOf env .forceRecreate services)])

/-- The containers of services that the compose file does not name. -/
def Docker.orphans (w : Docker) (specs : Specs) : List String :=
  w.order.filter fun i => (w.container i).any fun c => (specs.lookup c.service).isNone

/-- `up --detach --remove-orphans` -/
def up : Reload Unit :=
  docker env .up (work fun w =>
    ((reachedOf env .up (env.specs.map Prod.fst)).foldl (upService env)
      (w.remove (w.orphans env.specs))).record (env.upSteps.map UpStep.event ++ [.up]))

@[simp] theorem log_recreate (w : Docker) (service : String) (kept : List String)
    (new : List Container) : (w.recreate service kept new).log = w.log := by
  rw [Docker.recreate, Docker.log_createAll, Docker.log_onIds, Docker.log_remove]

theorem log_foldl_recreate (services : List String) :
    ∀ w : Docker, (services.foldl (fun w s => w.recreate s [] (newContainer env s)) w).log =
      w.log := by
  induction services with
  | nil => exact fun _ => rfl
  | cons s services ih => exact fun w => (ih _).trans (log_recreate w s [] _)

theorem log_foldl_upService (services : List String) :
    ∀ w : Docker, (services.foldl (upService env) w).log = w.log := by
  induction services with
  | nil => exact fun _ => rfl
  | cons s services ih => exact fun w => (ih _).trans (log_recreate w s _ _)

/-- A line of the journal. -/
def say (e : Event) : Reload Unit := fun t => .ok () (t.push (t.now.record [e]))

end Calls

/-- The rule for one call of compose-reload, from a precondition that the daemon keeps
between the calls. -/
theorem of_docker {α : Type} {env : ComposeEnv} {i : Site} {act : Work Fault Docker α}
    {I P : Docker → Prop} {Q : α → Docker → Prop} {E : Fault → Docker → Prop}
    (hb : ∀ i w, P w → P (env.toEnv.before i w)) (hI : ∀ w, P w → I w)
    (hact : ∀ w, P w → I (act w).2)
    (hok : ∀ w a, P w → (act w).1 = .ok a → Q a (act w).2)
    (herr : ∀ w e, P w → (act w).1 = .error e → E e (act w).2)
    (hraise : ∀ e done w, env.outcome i = .raise e done → P w →
      E e (if done then (act w).2 else w)) :
    Triple I P (docker env i act) Q E := by
  refine Triple.of_call P (fun w _ hw => ⟨hI _ (hb i w hw), hb i w hw⟩)
    (fun w _ hw => ⟨hact w hw, ?_⟩) fun e done w ho _ hw => hraise e done w ho hw
  cases hr : (act w).1 with
  | ok a => exact hok w a hw hr
  | error e => exact herr w e hw hr

theorem of_say {I P : Docker → Prop} {Q : Unit → Docker → Prop} {E : Fault → Docker → Prop}
    {e : Event} (h : ∀ w, I w → P w → I (w.record [e]) ∧ Q () (w.record [e])) :
    Triple I P (say e) Q E := by
  intro t hI hP
  obtain ⟨hI', hQ⟩ := h _ (hI _ t.now_mem) hP
  exact ⟨List.forall_mem_cons.mpr ⟨hI', hI⟩, hQ⟩

end Compose
