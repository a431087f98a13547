/-
Containers on the NAS: `apply_garage.py` and `apply_git_lfs.py` under Ansible.

Each of three containers mounts files that a first task renders, and reads them once, when it is
started.  A second task deploys the container, told by a flag, or not told, that the first one
has changed a file.

* `Box` — one container, its files and compose file, and when each was written or started;
* `render`, `deploy` — the two tasks, and those of each container as instances;
* `Part`, `run_play`, `run_plays` — a container's two tasks, the tasks of a play, and plays.

The texts that are printed are left out; a `Report` says which of them it is.
-/
import KrgInfra.Python
import Mathlib.Data.List.TakeWhile
import Mathlib.Data.String.Basic
import Mathlib.Logic.Function.Basic

namespace NasContainers

open Python

/-! ### Boxes -/

/-- What `docker compose` makes of a compose file: its image, and the rest of its configuration. -/
structure Service where
  image : String
  rest : String
  deriving DecidableEq

/-- A container, and when it was last started. -/
structure Container where
  service : Service
  running : Bool
  started : ℕ
  deriving DecidableEq

/-- A container of the NAS, with the files that it mounts and when they were last written, its
compose file, and whether the directory of its storage is there.  All that has happened is before
`clock`. -/
structure Box where
  files : String → Option (String × ℕ)
  compose : Option String
  container : Option Container
  storage : Bool
  clock : ℕ
  files_old : ∀ {p file}, files p = some file → file.2 < clock
  container_old : ∀ {c}, container = some c → c.started < clock

/-- A running container was started after its files were last written. -/
def Fresh (b : Box) : Prop :=
  ∀ c, b.container = some c → c.running = true → ∀ p file, b.files p = some file →
    file.2 < c.started

/-- What a task reports; the flag of the next one is set by both `WOULD-CHANGE` and `CHANGED`. -/
inductive Report
  | no_change
  | would_change
  | changed
  | fail
  deriving DecidableEq

/-- `is changed` -/
def Report.isChanged : Report → Bool
  | .would_change => true
  | .changed => true
  | _ => false

namespace Box

/-- `_atomic_write` of a file that the container mounts. -/
def write (b : Box) (p : String) (body : String) : Box where
  files := Function.update b.files p (some (body, b.clock))
  compose := b.compose
  container := b.container
  storage := b.storage
  clock := b.clock + 1
  files_old := by
    intro q file h
    by_cases hq : q = p
    · rw [hq, Function.update_self] at h
      exact Option.some_inj.mp h ▸ Nat.lt_succ_self _
    · rw [Function.update_of_ne hq] at h
      exact Nat.lt_succ_of_lt (b.files_old h)
  container_old h := Nat.lt_succ_of_lt (b.container_old h)

/-- A container that is started now. -/
def start (b : Box) (service : Service) : Box where
  files := b.files
  compose := b.compose
  container := some ⟨service, true, b.clock⟩
  storage := b.storage
  clock := b.clock + 1
  files_old h := Nat.lt_succ_of_lt (b.files_old h)
  container_old h := Option.some_inj.mp h ▸ Nat.lt_succ_self _

/-- The container is stopped. -/
def stop (b : Box) : Box where
  files := b.files
  compose := b.compose
  container := b.container.map fun c => { c with running := false }
  storage := b.storage
  clock := b.clock
  files_old := b.files_old
  container_old h := by
    obtain ⟨c, hc, rfl⟩ := Option.map_eq_some_iff.mp h
    show c.started < b.clock
    exact b.container_old hc

/-- The container is removed. -/
def remove (b : Box) : Box where
  files := b.files
  compose := b.compose
  container := none
  storage := b.storage
  clock := b.clock
  files_old := b.files_old
  container_old h := nomatch h

end Box

/-! ### Docker -/

/-- What a command that fails has done to the container. -/
inductive Effect
  | left
  | stopped
  | removed
  | started
  deriving DecidableEq

inductive Answer
  | ok
  | failed (effect : Effect)
  deriving DecidableEq

def Box.suffer (b : Box) (service : Service) : Effect → Box
  | .left => b
  | .stopped => b.stop
  | .removed => b.remove
  | .started => b.start service

/-- Whether a container runs as this service. -/
def Box.runs (b : Box) (service : Service) : Bool :=
  b.container.any fun c => c.running && c.service = service

/-- `docker compose up -d`: a container that runs as the compose file has it is left alone. -/
def up (meaning : String → Service) (answer : Answer) (b : Box) : Box × Report :=
  let service := meaning (b.compose.getD "")
  match answer with
  | .ok => (if b.runs service then b else b.start service, .changed)
  | .failed effect => (b.suffer service effect, .fail)

/-- `docker compose restart`, of a container that is there. -/
def restart (answer : Answer) (b : Box) : Box × Report :=
  match answer, b.container with
  | .ok, none => (b, .changed)
  | .ok, some c => (b.start c.service, .changed)
  | .failed _, none => (b, .fail)
  | .failed effect, some c => (b.suffer c.service effect, .fail)

/-! ### The tasks -/

/-- How far `render` gets: whether it reaches its first write, and which writes succeed. -/
structure RenderEnv where
  ready : Bool
  write : ℕ → Bool

/-- The writes of `render`. -/
def write_all : (ℕ → Bool) → List (String × String) → Box → Box × Report
  | _, [], b => (b, .changed)
  | written, file :: rest, b =>
    if written 0 then write_all (fun n => written (n + 1)) rest (b.write file.1 file.2)
    else (b, .fail)

/-- The files that `render` writes: those with another text, or all of them (`stale`). -/
def outdated (desired : List (String × String)) (stale : Bool) (b : Box) : List (String × String) :=
  desired.filter fun file =>
    stale || (b.files file.1).map (fun f => readText f.1) ≠ some file.2

/-- The rendering of some files; texts are compared, for `_sha256` of them. -/
def render (desired : List (String × String)) (stale check : Bool) (env : RenderEnv)
    (b : Box) : Box × Report :=
  let changed := outdated desired stale b
  if env.ready = false then (b, .fail)
  else if changed = [] then (b, .no_change)
  else if check then (b, .would_change)
  else write_all env.write changed b

/-- What `deploy` is called with: the text of the compose file, the image, the files that must be
there, and whether there is a directory to be made for the storage. -/
structure Deployment where
  compose : String
  image : String
  needed : List String
  storage : Bool

/-- How far `deploy` gets: whether it can read the compose file, the answers of `docker inspect`,
whether its directories are made and the compose file is written, and what docker answers. -/
structure DeployEnv where
  read : Bool
  image : Bool
  running : Bool
  makedirs : Bool
  write : Bool
  docker : Answer

/-- What `deploy` has found. -/
structure Drift where
  compose_drift : Bool
  image_drift : Bool
  not_running : Bool
  config_changed : Bool
  storage_missing : Bool
  deriving DecidableEq

/-- `_container_image` -/
def container_image (env : DeployEnv) (b : Box) : Option String :=
  if env.image then b.container.map fun c => c.service.image else none

/-- `_container_running` -/
def container_running (env : DeployEnv) (b : Box) : Bool :=
  env.running && b.container.any Container.running

def drift (d : Deployment) (config_changed : Bool) (env : DeployEnv) (b : Box) : Drift where
  compose_drift := b.compose.map readText ≠ some d.compose
  image_drift := container_image env b ≠ some d.image
  not_running := !container_running env b
  config_changed := config_changed
  storage_missing := d.storage && !b.storage

def Drift.recreate (found : Drift) : Bool :=
  found.compose_drift || found.image_drift || found.not_running

/-- The compose file, once it is written if it differs. -/
def composed (d : Deployment) (found : Drift) (b : Box) : Option String :=
  if found.compose_drift then some d.compose else b.compose

/-- Whether `deploy` has what it needs before it calls docker: a directory, which with a storage
is only made where that is missing, and the compose file. -/
def prepared (d : Deployment) (found : Drift) (env : DeployEnv) : Bool :=
  (env.makedirs || (d.storage && !found.storage_missing)) && (env.write || !found.compose_drift)

/-- The end of `deploy`, after its checks. -/
def carry_out (meaning : String → Service) (d : Deployment) (found : Drift) (env : DeployEnv)
    (b : Box) : Box × Report :=
  let b := { b with storage := b.storage || (found.storage_missing && env.makedirs) }
  if prepared d found env = false then (b, .fail)
  else
    let b := { b with compose := composed d found b }
    if found.recreate then up meaning env.docker b
    else if found.config_changed then restart env.docker b
    else (b, .changed)

def deploy (meaning : String → Service) (d : Deployment) (config_changed check : Bool)
    (env : DeployEnv) (b : Box) : Box × Report :=
  let found := drift d config_changed env b
  if env.read = false then (b, .fail)
  else if d.needed.any fun p => (b.files p).isNone then (b, if check then .would_change else .fail)
  else if !(found.recreate || found.config_changed || found.storage_missing) then (b, .no_change)
  else if check then (b, .would_change)
  else carry_out meaning d found env b

/-! ### The containers -/

inductive Managed
  | garage
  | garage_ui
  | git_lfs
  deriving DecidableEq

/-- What both tasks of a container are called with, and how far they get. -/
structure Tasks where
  compose : String
  image : String
  check : Bool
  render_env : RenderEnv
  deploy_env : DeployEnv

/-- `do_render_config(a)`, with the text of `garage.toml` -/
def do_render_config (config_path toml : String) : Bool → RenderEnv → Box → Box × Report :=
  render [(config_path, toml)] false

/-- `do_deploy(a)` of Garage, which is not told what was rendered. -/
def do_deploy (meaning : String → Service) (config_path : String) (t : Tasks) :
    Box → Box × Report :=
  deploy meaning ⟨t.compose, t.image, [config_path], false⟩ false t.check t.deploy_env

/-- `do_render_ui_config(a)`, with the text of `config.yaml`; a key that was missing, or another
owner, is a reason to write the file again. -/
def do_render_ui_config (config_path yaml : String) (key_missing owner_ok : Bool) :
    Bool → RenderEnv → Box → Box × Report :=
  render [(config_path, yaml)] (key_missing || !owner_ok)

/-- `do_deploy_ui(a)` -/
def do_deploy_ui (meaning : String → Service) (config_path : String) (t : Tasks)
    (config_changed : Bool) : Box → Box × Report :=
  deploy meaning ⟨t.compose, t.image, [config_path], false⟩ config_changed t.check t.deploy_env

/-- `desired` of git-lfs, in the order of the paths; of two texts for one path the last counts. -/
def lfs_files (config_path config middleware_path middleware : String) :
    List (String × String) :=
  if config_path = middleware_path then [(middleware_path, middleware)]
  else if config_path < middleware_path then
    [(config_path, config), (middleware_path, middleware)]
  else [(middleware_path, middleware), (config_path, config)]

/-- `do_render(a)` of git-lfs -/
def do_render_lfs (config_path config middleware_path middleware : String) :
    Bool → RenderEnv → Box → Box × Report :=
  render (lfs_files config_path config middleware_path middleware) false

/-- `do_deploy(a)` of git-lfs -/
def do_deploy_lfs (meaning : String → Service) (config_path middleware_path : String) (t : Tasks)
    (config_changed : Bool) : Box → Box × Report :=
  deploy meaning ⟨t.compose, t.image, [config_path, middleware_path], true⟩ config_changed t.check
    t.deploy_env

/-- The two tasks of a container, with what is rendered. -/
inductive Part
  | garage (config_path toml : String) (t : Tasks)
  | garage_ui (config_path yaml : String) (key_missing owner_ok : Bool) (t : Tasks)
  | git_lfs (config_path config middleware_path middleware : String) (t : Tasks)

def Part.managed : Part → Managed
  | .garage .. => .garage
  | .garage_ui .. => .garage_ui
  | .git_lfs .. => .git_lfs

/-- A task after another one, which is told whether that has changed something. -/
def Part.andThen (first : Box × Report) (next : Bool → Box → Box × Report) : Box × Report :=
  if first.2 = .fail then first else next first.2.isChanged first.1

/-- The two tasks of a container; the second is left out if the first one fails. -/
def Part.run (meaning : String → Service) : Part → Box → Box × Report
  | .garage config_path toml t, b =>
    andThen (do_render_config config_path toml t.check t.render_env b)
      fun _ => do_deploy meaning config_path t
  | .garage_ui config_path yaml key_missing owner_ok t, b =>
    andThen (do_render_ui_config config_path yaml key_missing owner_ok t.check t.render_env b)
      (do_deploy_ui meaning config_path t)
  | .git_lfs config_path config middleware_path middleware t, b =>
    andThen (do_render_lfs config_path config middleware_path middleware t.check t.render_env b)
      (do_deploy_lfs meaning config_path middleware_path t)

/-! ### Plays -/

/-- The tasks of a play: those of a container, or another one and whether it succeeds. -/
inductive Step
  | part (part : Part)
  | other (ok : Bool)

/-- The tasks of a play, up to the first that fails; whether there is none. -/
def run_play (meaning : String → Service) : List Step → (Managed → Box) → (Managed → Box) × Bool
  | [], s => (s, true)
  | .other ok :: rest, s => if ok then run_play meaning rest s else (s, false)
  | .part part :: rest, s =>
    let after := part.run meaning (s part.managed)
    let s := Function.update s part.managed after.1
    if after.2 = .fail then (s, false) else run_play meaning rest s

/-- One play after another. -/
def run_plays (meaning : String → Service) : List (List Step) → (Managed → Box) → (Managed → Box)
  | [], s => s
  | play :: plays, s => run_plays meaning plays (run_play meaning play s).1

end NasContainers
