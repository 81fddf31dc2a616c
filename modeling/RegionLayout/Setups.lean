-- Setups of one container. Every attempt takes an epoch of its own. A model built by a worker
-- is published by a callback on the host's thread, and only while the attempt's epoch is
-- still the current one: a later attempt or a detach makes it void. A model built on the
-- caller's thread is published at once.
import RegionLayout.Setups.Observer
import RegionLayout.Setups.Queue
import RegionLayout.Telemetry

namespace RegionLayout

open Log

namespace Setups

/-- How far a container is. -/
inductive Phase where
  | preSetup
  | inProgress
  | postSetup
deriving Repr, DecidableEq

def Phase.name : Phase → String
  | preSetup => "PreSetup"
  | inProgress => "SetupInProgress"
  | postSetup => "PostSetup"

/-- What can wait on the host's thread. -/
inductive Callback (R : Type) where
  /-- A worker has ended. -/
  | completion (epoch : Nat) (built : Except LayoutError (Model R))
  /-- An observer is to be called with a published model. -/
  | notify (observer : Observer) (publication : Nat)

end Setups

structure Setups (R : Type) where
  /-- How many attempts and detaches there have been. -/
  epoch : Nat := 0
  /-- The attempt that is under way. -/
  inFlight : Option Nat := none
  /-- Every model ever published, in turn. The last one is active. -/
  published : List (Model R) := []
  layoutRequested : Bool := false
  /-- Who waits for the next completed setup. -/
  observers : List Setups.Observer := []
  /-- Who is called at every failed worker. -/
  failureObservers : List String := []
  lastFailure : Option Setups.Failure := none
  queue : Setups.Queue (Setups.Callback R) := {}
  /-- Every call of an observer, the oldest first. -/
  notices : List (Setups.Notice R) := []
  telemetry : Telemetry := {}

namespace Setups

abbrev Step (R α : Type) := StateM (Setups R) α

variable {R : Type} [Scalar R]

/-! ## Reading -/

/-- The model a container lays out with. -/
def active? (c : Setups R) : Option (Model R) := c.published.getLast?

/-- The place of the active model among the published ones. -/
def activePublication? (c : Setups R) : Option Nat :=
  if c.published.isEmpty then none else some (c.published.length - 1)

def phase (c : Setups R) : Phase :=
  if c.active?.isSome then .postSetup
  else if c.inFlight.isSome then .inProgress
  else .preSetup

/-- The setups with their active model changed. -/
def setActive (c : Setups R) (m : Model R) : Setups R :=
  if c.published.isEmpty then c else { c with published := c.published.dropLast ++ [m] }

def onTelemetry (c : Setups R) (f : Telemetry → Telemetry) : Setups R :=
  { c with telemetry := f c.telemetry }

/-- The setups with the calls and events so far forgotten. -/
def forget (c : Setups R) : Setups R :=
  { c with notices := [], telemetry := c.telemetry.forget }

/-! ## Reports -/

def emit (level : Level) (message : String) (fields : List (String × Json)) : Step R Unit :=
  modify (·.onTelemetry (·.emit level .setup message fields))

def record (f : Metrics → Metrics) : Step R Unit :=
  modify (·.onTelemetry (·.record f))

def epochField (epoch : Nat) : String × Json := ("epoch", .ofNat epoch)

def errorField (e : LayoutError) : String × Json := ("error", .text e.message)

/-! ## Observers -/

/-- Posts a callback. Answers whether anybody is left to run it. -/
def post (k : Callback R) : Step R Bool :=
  modifyGet fun c => (c.queue.isOpen, { c with queue := c.queue.post k })

/-- Registers an observer for the next completed setup. With a model active that one counts,
and the call is posted. -/
def onComplete (o : Observer) : Step R Unit := do
  match (← get).activePublication? with
  | some p => let _ ← post (.notify o p)
  | none => modify fun c => { c with observers := c.observers ++ [o] }

/-- Registers an observer for every worker that fails. -/
def onFailed (label : String) : Step R Unit :=
  modify fun c => { c with failureObservers := c.failureObservers ++ [label] }

/-- Calls an observer with a published model, as that stands now. -/
def notify (o : Observer) (publication : Nat) : Step R Unit := do
  match (← get).published[publication]? with
  | some m =>
    modify fun c => { c with notices := c.notices ++ [.completed o.label publication m] }
    o.registers.forM onComplete
  | none => return ()

/-- The waiting observers, who then wait no longer. -/
def takeObservers : Step R (List Observer) :=
  modifyGet fun c => (c.observers, { c with observers := [] })

/-! ## Attempts -/

/-- Opens an attempt: its epoch is the current one until the next. -/
def begin : Step R Nat := do
  let epoch := (← get).epoch + 1
  modify fun c => { c with epoch, inFlight := some epoch }
  record Metrics.recordSetupStarted
  emit .debug "setup_started" [epochField epoch]
  return epoch

/-- Takes note that an attempt is no longer under way. -/
def clearInFlight (epoch : Nat) : Step R Unit :=
  modify fun c => if c.inFlight = some epoch then { c with inFlight := none } else c

/-- Makes a model the active one, and asks for a layout. Answers its place among the published
models. -/
def install (epoch : Nat) (m : Model R) : Step R Nat := do
  let publication := (← get).published.length
  modify fun c => { c with published := c.published ++ [m] }
  clearInFlight epoch
  modify fun c => { c with layoutRequested := true }
  emit .debug "model_installed"
    [epochField epoch, ("nodes", .ofNat m.regions.size), ("fingerprint", .text m.fingerprint)]
  return publication

/-- Takes note of a failed attempt. -/
def setFailure (epoch : Nat) (e : LayoutError) : Step R Failure := do
  let failure : Failure := ⟨epoch, e.message, e.isConstraintError⟩
  modify fun c => { c with lastFailure := some failure }
  return failure

/-- Ends a worker's attempt on the host's thread. -/
def complete (epoch : Nat) (built : Except LayoutError (Model R)) : Step R Unit := do
  let current := (← get).epoch
  if current != epoch then
    record Metrics.recordSetupDiscarded
    emit .debug "setup_discarded" [epochField epoch, ("current_epoch", .ofNat current)]
  else
    match built with
    | .ok m =>
      let publication ← install epoch m
      record Metrics.recordSetupCompleted
      (← takeObservers).forM (notify · publication)
    | .error e =>
      record Metrics.recordSetupFailed
      emit .warn "setup_failed" [epochField epoch, errorField e]
      clearInFlight epoch
      let failure ← setFailure epoch e
      modify fun c =>
        { c with notices := c.notices ++ c.failureObservers.map (.failed · failure) }

/-- A worker's part of an attempt: what it has built is posted to the host's thread. -/
def finishWorker (epoch : Nat) (built : Except LayoutError (Model R)) : Step R Unit := do
  emit .debug "worker_started" [epochField epoch]
  emit .debug "worker_finished" [epochField epoch, ("ok", .bool built.isOk)]
  if !(← post (.completion epoch built)) then
    emit .warn "completion_dropped" [epochField epoch]

/-- Ends an attempt on the caller's thread. Answers the place of the published model. -/
def finishSync (epoch : Nat) (built : Except LayoutError (Model R)) :
    Step R (Except LayoutError Nat) := do
  match built with
  | .ok m =>
    let publication ← install epoch m
    record Metrics.recordSetupCompleted
    (← takeObservers).forM fun o => do let _ ← post (.notify o publication)
    emit .debug "sync_setup_complete" [epochField epoch]
    return .ok publication
  | .error e =>
    clearInFlight epoch
    record Metrics.recordSetupFailed
    let _ ← setFailure epoch e
    emit .warn "sync_setup_failed" [epochField epoch, errorField e]
    return .error e

/-- A whole attempt on the caller's thread. -/
def runSync (built : Except LayoutError (Model R)) : Step R (Except LayoutError Nat) := do
  finishSync (← begin) built

/-- Makes every attempt under way void. -/
def detach : Step R Unit := do
  let epoch := (← get).epoch + 1
  modify fun c => { c with epoch, inFlight := none }
  emit .debug "detached" [epochField epoch]

/-- Whether a layout has been asked for since the last time. -/
def takeLayoutRequest : Step R Bool :=
  modifyGet fun c => (c.layoutRequested, { c with layoutRequested := false })

/-! ## The host's thread -/

def run : Callback R → Step R Unit
  | .completion epoch built => do
    emit .debug "completion_delivered" [epochField epoch]
    complete epoch built
  | .notify o publication => notify o publication

/-- The host's thread as the owner of the queue. -/
def thread : Thread (Callback R) (Setups R) where
  queue c := c.queue
  withQueue queue c := { c with queue }
  run := run

/-- Runs the oldest waiting callback; `false` if none waits. -/
def runNext : Step R Bool := return (← thread.next).isSome

/-- How many callbacks one can lead to, itself included, observers apart that wait already. -/
def Callback.reach : Callback R → Nat
  | .completion .. => 1
  | .notify o _ => o.reach

/-- How many callbacks can run before the queue is empty. -/
def backlog (c : Setups R) : Nat :=
  c.queue.waiting.foldl (fun n k => n + k.reach) 0 + Observer.reachAll c.observers

/-- Runs callbacks until none waits, and counts them. -/
def runPending : Step R Nat := return (← thread.runAtMost (← get).backlog).length

/-- Ends the host's thread. -/
def dropQueue : Step R Unit := modify fun c => { c with queue := c.queue.close }

end Setups

end RegionLayout
