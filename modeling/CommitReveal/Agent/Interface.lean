import CommitReveal.Agent.Memory
import CommitReveal.Program
import CommitReveal.Repository.Action
import CommitReveal.Scan.EventSync
import CommitReveal.Ticker

/-! All that a task of an agent may ask for. Most requests are answered at once; a task that sleeps,
waits for a hash to reveal, for a receipt, for logs or for another task lets the others run. Every
chain call is a point where others may run too, if the chain takes its time. -/
namespace CommitReveal.Agent

/-- The tasks that an agent runs in the background, each at the point where its next turn begins. -/
inductive Routine where
  | revealWorker (started : Bool)
  | commitTimer (ticker : Option Ticker)
  | reconcileTimer (ticker : Option Ticker)
  | scan (state : EventSync) (started : Bool)
  /-- Asks for a reveal after the grace delay. -/
  | delayedReveal (hash : Hash)
  /-- Stops every task after a time. -/
  | stopAfter (ms : Nat)
deriving DecidableEq, Repr

/-- What ended a wait that cancellation may cut short. -/
inductive Wake where
  | due
  | cancelled
deriving DecidableEq, Repr

inductive Request where
  | store (r : Repository.Request)
  | chain (c : Chain.Call)
  | memory (r : Memory.Request)
  | notify (n : Notice)
  /-- Ends the task without an answer. -/
  | abort (f : Fault)
  /-- Thirty-two random bytes. -/
  | entropy
  /-- Tells an outside handler about an event. -/
  | deliver (handler : String) (event : OracleEvent) (mode : ScanMode)
  /-- Milliseconds on a clock that never goes back. -/
  | clock
  | isCancelled
  | cancel
  | spawn (r : Routine)
  | sleep (ms : Nat)
  /-- Until a time on the clock, or cancellation. -/
  | pauseUntil (time : Nat)
  /-- The next hash of the reveal queue; none after cancellation. -/
  | nextReveal
  /-- The outcome of a transaction; none after the timeout or cancellation. -/
  | receipt (tx : TxHash) (poll timeout : Nat)
  /-- The logs of a window, tried for until they come; none after cancellation. -/
  | logs (window : ScanWindow) (initial limit : Duration)
  /-- Until a task has ended. -/
  | join (task : Nat)

abbrev Request.Answer : Request → Type
  | .store r => r.Answer
  | .chain c => Except ChainError c.Result
  | .memory r => r.Answer
  | .notify _ => Unit
  | .abort _ => Empty
  | .entropy => Hash
  | .deliver _ _ _ => Except AgentError Unit
  | .clock => Nat
  | .isCancelled => Bool
  | .cancel => Unit
  | .spawn _ => Nat
  | .sleep _ => Unit
  | .pauseUntil _ => Wake
  | .nextReveal => Option Hash
  | .receipt _ _ _ => Option TxOutcome
  | .logs _ _ _ => Option (List EventLog)
  | .join _ => Unit

abbrev interface : Interface := ⟨Request, Request.Answer⟩

abbrev Activity (α : Type) := Program interface α

/-- A task that may fail. -/
abbrev Attempt (α : Type) := ExceptT AgentError (Program interface) α

def ask (r : Request) : Activity r.Answer :=
  Program.request (I := interface) r

def notify (n : Notice) : Activity Unit :=
  ask (.notify n)

def notifyAll : List Notice → Activity Unit
  | [] => pure ()
  | n :: rest => do
    notify n
    notifyAll rest

def abort (f : Fault) : Activity α :=
  Program.ask (I := interface) (.abort f) fun never => nomatch never

/-- The value, unless it is out of reach. -/
def orAbort : Except Fault α → Activity α
  | .ok a => pure a
  | .error f => abort f

def callChain (c : Chain.Call) : Activity (Except ChainError c.Result) :=
  ask (.chain c)

/-- A chain call whose failure ends the attempt. -/
def chain (c : Chain.Call) : Attempt c.Result :=
  ExceptT.mk do
    let answer ← callChain c
    return answer.mapError .chain

/-- Runs an operation of the repository. -/
def callRepository (a : Repository.Action α) : Activity (Except Store.StoreError α) :=
  a.run.interpret fun r => ask (.store r)

/-- A repository operation whose failure ends the attempt. -/
def repository (a : Repository.Action α) : Attempt α :=
  ExceptT.mk do
    let answer ← callRepository a
    return answer.mapError .store

end CommitReveal.Agent
