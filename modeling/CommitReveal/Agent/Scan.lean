import CommitReveal.Agent.Dispatch

/-! Scanning the oracle's logs towards the head. The cursor moves past a window only after every log
in it has been dispatched, and is then stored, so a crash repeats a window but never skips one. -/
namespace CommitReveal.Agent

/-- What decides where a scan begins when the store does not. -/
structure Bootstrap where
  deployTx : Option TxHash
  startBlock : Option Word
deriving DecidableEq, Repr

def bootstrapCursor (b : Bootstrap) : Activity Word := do
  let start := b.startBlock.getD 0
  notify (.scanFrom start)
  return start

/-- The stored cursor, else the block of the oracle's deployment, else the given block, else 0. -/
def resolveCursor (b : Bootstrap) : Attempt Word := do
  match ← repository Repository.cursor with
  | some cursor =>
    notify (.scanResumed cursor)
    return cursor
  | none =>
    match b.deployTx with
    | none => bootstrapCursor b
    | some tx =>
      match ← chain (.blockOfTransaction tx) with
      | some block =>
        notify (.scanFromDeployment block)
        return block
      | none =>
        notify (.deploymentNotFound tx)
        bootstrapCursor b

/-- Missing numbers come first. -/
def numberLe : Option Nat → Option Nat → Bool
  | none, _ => true
  | some _, none => false
  | some a, some b => a ≤ b

/-- The order of logs on the chain: by block, then by place in the block. -/
def logLe (a b : EventLog) : Bool :=
  let (blockA, blockB) := (a.block.map (·.toNat), b.block.map (·.toNat))
  if blockA = blockB then numberLe a.index b.index else numberLe blockA blockB

def inChainOrder (logs : List EventLog) : List EventLog :=
  logs.mergeSort logLe

def dispatchAll (agent : Address) (handlers : List Handler) (mode : ScanMode) :
    Progress → List EventLog → Activity Progress
  | progress, [] => return progress
  | progress, log :: rest => do
    let outcome ← dispatch agent handlers log mode
    dispatchAll agent handlers mode (progress.recordDispatch outcome) rest

/-- Stores the cursor behind a window. A failure is reported only: the scan goes on in memory. -/
def persistCursor (cursor : Word) (window : ScanWindow) (logs : List EventLog) : Activity Unit := do
  match ← callRepository (Repository.setCursor cursor) with
  | .error cause => notify (.cursorNotPersisted cursor cause)
  | .ok () =>
    if window.mode = .backfill ∨ ¬logs.isEmpty then
      notify (.cursorAdvanced cursor)

/-- Dispatches the logs of a window and moves the scan behind it. -/
def scanWindow (s : Settings) (e : EventSync) (window : ScanWindow) (logs : List EventLog) :
    Activity EventSync := do
  let progress ← dispatchAll s.agent e.handlers window.mode e.progress (inChainOrder logs)
  let some cursor := Word.add? window.last 1 | abort .overflow
  persistCursor cursor window logs
  let (progress, notices) ← orAbort (progress.recordWindow window)
  notifyAll notices
  let (progress, notices) := progress.log false
  notifyAll notices
  return { e with cursor, progress }

def idle (s : Settings) : Activity StepOutcome := do
  match ← ask (.pauseUntil ((← ask .clock) + s.timings.headPoll)) with
  | .due => return .idle
  | .cancelled => return .cancelled

/-- One step of a scan: at most one window. -/
def scanStep (s : Settings) (e : EventSync) : Activity (StepOutcome × EventSync) := do
  match ← callChain .blockNumber with
  | .error cause =>
    notify (.headUnreadable cause)
    return (← idle s, e)
  | .ok head =>
    match ← orAbort (ScanWindow.select (Word.saturatingSub head e.confirmations) e.cursor) with
    | none => return (← idle s, e)
    | some window =>
      let initial := Duration.ofMillis s.timings.backoffInitial
      match ← ask (.logs window initial (.ofMillis s.timings.backoffLimit)) with
      | none => return (.cancelled, e)
      | some logs =>
        let scanned ← scanWindow s e window logs
        return (.scanned window logs.length, scanned)

/-- The last words of a scan. -/
def closeScan (e : EventSync) : Activity Unit := do
  let (progress, notices) := e.progress.log true
  notifyAll notices
  notify (.scanSummary progress.stats)

end CommitReveal.Agent
