import CommitReveal.Agent.Commit
import CommitReveal.Agent.Reconcile
import CommitReveal.Agent.Scan

/-! The background tasks. Each turn of a task either leads to the point where its next turn begins, or
ends it. -/
namespace CommitReveal.Agent

def workerTurn (s : Settings) (started : Bool) : Activity (Option Routine) := do
  if started then
    match ← ask .nextReveal with
    | some hash =>
      processReveal s hash
      return some (.revealWorker true)
    | none =>
      ask (.memory .dropReceiver)
      return none
  else if ← ask (.memory .takeReceiver) then
    return some (.revealWorker true)
  else
    notify .workerAlreadyRunning
    return none

/-- Waits for the next tick; gives the timer after it, or nothing once cancelled. -/
def awaitTick (period : Nat) (ticker : Option Ticker) : Activity (Option Ticker) := do
  let ticker ← match ticker with
    | some t => pure t
    | none => orAbort (Ticker.start (← ask .clock) period)
  match ← ask (.pauseUntil ticker.due) with
  | .cancelled => return none
  | .due => return some (ticker.next (← ask .clock))

def commitTurn (s : Settings) (ticker : Option Ticker) : Activity (Option Routine) := do
  match ← awaitTick s.timings.commitInterval ticker with
  | none => return none
  | some next =>
    commitTick s
    return some (.commitTimer (some next))

def reconcileTurn (s : Settings) (ticker : Option Ticker) : Activity (Option Routine) := do
  match ← awaitTick s.timings.reconcileInterval ticker with
  | none => return none
  | some next =>
    reconcileTick s
    return some (.reconcileTimer (some next))

def scanTurn (s : Settings) (e : EventSync) (started : Bool) : Activity (Option Routine) := do
  if !started then
    notify (.syncStarted e.cursor)
  if ← ask .isCancelled then
    closeScan e
    return none
  else
    let (outcome, next) ← scanStep s e
    if outcome = .cancelled then
      closeScan next
      return none
    else
      return some (.scan next true)

def delayedRevealTurn (s : Settings) (hash : Hash) : Activity (Option Routine) := do
  match ← ask (.pauseUntil ((← ask .clock) + s.timings.liveGrace)) with
  | .due => requestReveal hash
  | .cancelled => pure ()
  return none

def stopAfterTurn (ms : Nat) : Activity (Option Routine) := do
  ask (.sleep ms)
  ask .cancel
  return none

def Routine.turn (s : Settings) : Routine → Activity (Option Routine)
  | .revealWorker started => workerTurn s started
  | .commitTimer ticker => commitTurn s ticker
  | .reconcileTimer ticker => reconcileTurn s ticker
  | .scan e started => scanTurn s e started
  | .delayedReveal hash => delayedRevealTurn s hash
  | .stopAfter ms => stopAfterTurn ms

end CommitReveal.Agent
