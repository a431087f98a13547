/-
compose-reload's handoff of one service.

`handoff` starts new containers next to the old ones, waits until all of them are
healthy, drains the old ones and retires them; `_safe_handoff` turns any exception of
it into a failed handoff.  The programs are the functions of compose-reload.py,
translated call by call; a loop that polls until a deadline is a recursion on the
number of polls that the deadline leaves.

* `abort` — `_abort`: remove the new containers;
* `waitHealthy` — the poll of `handoff`;
* `drain` — `_drain`, with `drainTargets` and `waitDrained`;
* `handoff`, `safe_handoff`.
-/
import KrgInfra.ComposeStack

namespace Compose

section Program

variable (env : ComposeEnv) (svc : String)

/-- One call of the handoff of `svc`. -/
def site (h : HandoffSite) : Site := .handoff svc h

/-- The last logs of the containers, for the journal. -/
def abortLogs (at_ : AbortSite → HandoffSite) : List String → Reload Unit
  | [] => pure ()
  | c :: cs => do
    tryCatch (logs env (site svc (at_ (.logs c))) c) fun e =>
      if e = .calledProcess then pure () else throw e
    abortLogs at_ cs

/-- Remove the failed new container(s). -/
def abort (at_ : AbortSite → HandoffSite) (new : List String) : Reload Bool := do
  abortLogs env svc at_ new
  if new = [] then return false
  else do
    stop env (site svc (at_ .stopNew)) new
    rm env (site svc (at_ .rmNew)) new
    return false

/-- `[stack.health(c) for c in ids]` -/
def healths (at_ : String → HandoffSite) : List String → Reload (List (Status × Health))
  | [] => pure []
  | c :: cs => do
    let s ← health env (site svc (at_ c)) c
    let ss ← healths at_ cs
    return s :: ss

def isHealthy (s : Status × Health) : Bool := decide (s.1 = .running) && decide (s.2 = .healthy)

def isFailed (s : Status × Health) : Bool := decide (s.1 ≠ .running) || decide (s.2 = .unhealthy)

/-- Poll until all of `new` are healthy; `false` when one of them failed, or at the
deadline, which is `n` polls away. -/
def waitHealthy (new : List String) : ℕ → ℕ → Reload Bool
  | n, k => do
    let states ← healths env svc (.health k) new
    if states.all isHealthy then return true
    else if states.any isFailed then return false
    else match n with
      | 0 => return false
      | n + 1 => waitHealthy new n (k + 1)

/-- Make the drain file in one container, if its healthcheck honours it. -/
def drainOne (c : String) : Reload (List String) :=
  tryCatch
    (do
      let honours ← drains env (site svc (.drains c)) c
      if honours then do
        exec_touch env (site svc (.touch c)) c
        return [c]
      else return [])
    fun e => if e = .calledProcess then return [] else throw e

/-- The containers that are being drained. -/
def drainTargets : List String → Reload (List String)
  | [] => pure []
  | c :: cs => do
    let t ← drainOne env svc c
    let ts ← drainTargets cs
    return t ++ ts

/-- Poll until all of `targets` report unhealthy, or the deadline. -/
def waitDrained (targets : List String) : ℕ → ℕ → Reload Unit
  | n, k => do
    let states ← healths env svc (.drainHealth k) targets
    if states.all isFailed then return ()
    else match n with
      | 0 => return ()
      | n + 1 => waitDrained targets n (k + 1)

/-- Take the old container(s) out of Traefik's rotation before stopping them. -/
def drain (old : List String) : Reload Unit := do
  let targets ← drainTargets env svc old
  if targets = [] then return ()
  else waitDrained env svc targets (env.drainPolls svc) 0

/-- The handoff from the moment the new containers are healthy. -/
def retire (old : List String) : Reload Bool := do
  drain env svc old
  stop env (site svc .stopOld) old
  rm env (site svc .rmOld) old
  return true

/-- Start the new container next to the old one, then retire the old. -/
def handoff (old : List String) : Reload Bool := do
  say (.handing svc old)
  up_scale env (site svc .scaleUp) svc
  let listed ← ps env (site svc .listNew) svc true
  let new := listed.filter (· ∉ old)
  if new.length ≠ old.length then abort env svc .abort new
  else do
    let healthy ← waitHealthy env svc new (env.polls svc) 0
    if healthy then retire env svc old
    else abort env svc .abort new

/-- `any(c in stack.running(svc) for c in old)` -/
def anyRunning : List String → Reload Bool
  | [] => pure false
  | c :: cs => do
    let running ← ps env (site svc (.cleanupRunning c)) svc false
    if c ∈ running then return true
    else anyRunning cs

/-- What `_safe_handoff` does on an exception, but for its own `except`. -/
def cleanup (old : List String) : Reload Bool := do
  let there ← anyRunning env svc old
  if there then do
    let listed ← ps env (site svc .cleanupList) svc true
    abort env svc .cleanupAbort (listed.filter (· ∉ old))
  else return false

/-- handoff(), but an unexpected error counts as a FAILED handoff. -/
def safe_handoff (old : List String) : Reload Bool :=
  tryCatch (handoff env svc old) fun _ =>
    tryCatch (cleanup env svc old) fun e => if e = .calledProcess then return false else throw e

end Program

/-- What a look at the drain marker finds. -/
def drainsSeen (c : String) (w : Docker) : Except Fault (Bool × List Event) :=
  match w.container c with
  | none => .error .calledProcess
  | some k => .ok (k.drains, [])

end Compose
