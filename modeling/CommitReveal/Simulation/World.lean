import CommitReveal.Agent.Routine
import CommitReveal.Backoff
import CommitReveal.ReceiptWait
import CommitReveal.Simulation.ChainSource
import CommitReveal.Simulation.FallibleStore

/-! The surroundings of simulated agents: a chain, a store, a clock that moves only when nothing can
run, and the background tasks. Polling a request either answers it or says what it waits for. -/
namespace CommitReveal.Simulation

open Agent (Routine Request Activity)

/-- What a request that is not answered yet waits for. -/
inductive Wait where
  | timer (due : Nat)
  | receipt (wait : ReceiptWait)
  /-- The next attempt at fetching logs, and the wait before it. -/
  | retry (due : Nat) (interval : Duration)
  | queue
  | task (id : Nat)
deriving DecidableEq, Repr

/-- When time alone ends a wait. -/
def Wait.due? : Wait → Option Nat
  | .timer due => some due
  | .receipt wait => some wait.wakeAt
  | .retry due _ => some due
  | .queue => none
  | .task _ => none

/-- A program that waits for the answer to a request. -/
structure Suspended (α : Type) where
  request : Request
  wait : Wait
  /-- Its place in the order in which waits began. -/
  since : Nat
  next : request.Answer → Activity α

inductive TaskState where
  | runnable (program : Activity (Option Routine))
  | suspended (s : Suspended (Option Routine))
  | ended

/-- One agent's settings and memory, and whether its tasks were told to stop. -/
structure Home where
  settings : Agent.Settings
  memory : Agent.Memory
  cancelled : Bool

structure BackgroundTask where
  home : Nat
  state : TaskState

/-- One of two things that may happen next. -/
inductive Branch where
  | first
  | second
deriving DecidableEq, Repr

structure World where
  chain : ChainSource
  store : FallibleStore
  /-- Milliseconds since the beginning. -/
  now : Nat
  /-- Unix seconds at the beginning. -/
  epoch : Int64
  /-- The first random draws; later ones are numbered. -/
  entropy : List Hash
  draws : Nat
  homes : Array Home
  tasks : Array BackgroundTask
  /-- Tasks that can run, first come first served. -/
  ready : List Nat
  stamp : Nat
  /-- Something happened that the foreground may wait for. -/
  foregroundWoken : Bool
  /-- How the races to come turn out: whether the second branch goes first. -/
  flips : List Bool
  notices : List Notice
  /-- Sends and log queries. -/
  calls : List Chain.Call
  delivered : List (OracleEvent × ScanMode)

namespace World

/-- A world in which nothing has happened yet. Its first home is numbered 0. -/
def start (chain : ChainSource) (store : Store.Backend) (settings : Agent.Settings) : World where
  chain
  store := ⟨store, []⟩
  now := 0
  epoch := 0
  entropy := []
  draws := 0
  homes := #[⟨settings, .empty settings.limits.queueCapacity, false⟩]
  tasks := #[]
  ready := []
  stamp := 0
  foregroundWoken := false
  flips := []
  notices := []
  calls := []
  delivered := []

def updateHome (w : World) (home : Nat) (f : Home → Home) : World :=
  { w with homes := w.homes.modify home f }

def isCancelled (w : World) (home : Nat) : Bool :=
  (w.homes[home]?).any (·.cancelled)

def settings? (w : World) (home : Nat) : Option Agent.Settings :=
  (w.homes[home]?).map (·.settings)

def notify (w : World) (n : Notice) : World :=
  { w with notices := w.notices ++ [n] }

/-- Puts tasks at the end of the line, unless they stand in it. -/
def wake (w : World) (ids : List Nat) : World :=
  { w with ready := w.ready ++ ids.filter fun id => id ∉ w.ready }

def suspensions (w : World) : List (Nat × Nat × Suspended (Option Routine)) :=
  w.tasks.toList.zipIdx.filterMap fun (t, id) =>
    match t.state with
    | .suspended s => some (id, t.home, s)
    | _ => none

def isCancellable : Request → Bool
  | .pauseUntil _ | .nextReveal | .receipt _ _ _ | .logs _ _ _ => true
  | _ => false

/-- The tasks of a home that cancellation wakes, longest waiting first. -/
def cancellable (w : World) (home : Nat) : List Nat :=
  let waiting := w.suspensions.filter fun (_, h, s) => h = home && isCancellable s.request
  (waiting.mergeSort fun a b => a.2.2.since ≤ b.2.2.since).map (·.1)

def cancel (w : World) (home : Nat) : World :=
  let w := (w.updateHome home fun h => { h with cancelled := true }).wake (w.cancellable home)
  { w with foregroundWoken := true }

/-- The worker of a home, if it waits for a hash. -/
def idleWorkers (w : World) (home : Nat) : List Nat :=
  (w.suspensions.filter fun (_, h, s) => h = home && s.wait = .queue).map (·.1)

def spawn (w : World) (home : Nat) (r : Routine) : Nat × World :=
  let id := w.tasks.size
  match w.settings? home with
  | none => (id, w)
  | some s =>
    (id, { w with tasks := w.tasks.push ⟨home, .runnable (r.turn s)⟩ }.wake [id])

/-- The next random draw; past the given ones it is its own number. -/
def draw (w : World) : Hash × World :=
  let value := (w.entropy[w.draws]?).getD (.ofNat 32 (w.draws + 1))
  (value, { w with draws := w.draws + 1 })

def isTraced : Chain.Call → Bool
  | .filterLogs _ _ | .submit _ _ => true
  | _ => false

def callChain (w : World) (call : Chain.Call) : Except Fault (Except ChainError call.Result) × World :=
  let (answer, chain) := w.chain.perform call
  (answer, { w with chain, calls := if isTraced call then w.calls ++ [call] else w.calls })

def callStore (w : World) : (r : Repository.Request) → r.Answer × World
  | .call c =>
    let (answer, store) := FallibleStore.perform c w.store
    (answer, { w with store })
  | .clock => (w.epoch + Int64.ofNat (w.now / 1000), w)

def callMemory (w : World) (home : Nat) (r : Agent.Memory.Request) : r.Answer × World :=
  let h := (w.homes[home]?).map (·.memory)
  let (answer, memory) := Agent.Memory.perform r (h.getD (.empty 1))
  (answer, w.updateHome home fun h => { h with memory })

/-- An outside handler called `failing` fails; every other takes note of the event. -/
def deliver (w : World) (handler : String) (event : OracleEvent) (mode : ScanMode) :
    Except AgentError Unit × World :=
  if handler = "failing" then (.error (.startup "boom"), w)
  else (.ok (), { w with delivered := w.delivered ++ [(event, mode)] })

/-- The next flip; past the given ones the first branch goes first. -/
def flip (w : World) : Bool × World :=
  (w.flips.headD false, { w with flips := w.flips.tail })

/-- Which of two branches goes on: one that is ready, and where both are, either of them. -/
def race (w : World) (first second : Bool) : Option Branch × World :=
  match first, second with
  | false, false => (none, w)
  | true, false => (some .first, w)
  | false, true => (some .second, w)
  | true, true => (some (if w.flip.1 then .second else .first), w.flip.2)

/-- What polling a request comes to. -/
inductive Reply (α : Type) where
  | answer (a : α)
  /-- To be polled again later; `anew` if the wait begins at this poll. -/
  | wait (w : Wait) (anew : Bool)
  | fault (f : Fault)

def pollTimer (w : World) (due : Nat) : Reply Unit :=
  if due ≤ w.now then .answer () else .wait (.timer due) true

def pollPause (w : World) (home due : Nat) : Reply Agent.Wake × World :=
  match w.race (w.isCancelled home) (due ≤ w.now) with
  | (some .first, w) => (.answer .cancelled, w)
  | (some .second, w) => (.answer .due, w)
  | (none, w) => (.wait (.timer due) true, w)

def pollQueue (w : World) (home : Nat) : Reply (Option Hash) × World :=
  match (w.homes[home]?).bind (·.memory.queue.dequeue) with
  | none => (if w.isCancelled home then .answer none else .wait .queue true, w)
  | some (hash, queue) =>
    match w.race (w.isCancelled home) true with
    | (some .first, w) => (.answer none, w)
    | (_, w) => (.answer (some hash), w.updateHome home fun h =>
      { h with memory := { h.memory with queue } })

/-- Asks for a receipt. Without one it comes to `vain`. -/
def tryReceipt (w : World) (tx : TxHash) (vain : Reply (Option TxOutcome)) : Reply (Option TxOutcome) × World :=
  match w.callChain (.transactionReceipt tx) with
  | (.ok (.ok (some outcome)), w) => (.answer (some outcome), w)
  | (_, w) => (vain, w)

def pollReceipt (w : World) (home : Nat) (tx : TxHash) (wait : ReceiptWait) (begins : Bool) :
    Reply (Option TxOutcome) × World :=
  let ended := w.isCancelled home || wait.isOver w.now
  match w.race ended (wait.isDue w.now) with
  | (some .first, w) => (.answer none, w)
  | (some .second, w) =>
    w.tryReceipt tx (if ended then .answer none else .wait (.receipt (wait.next w.now)) true)
  | (none, w) => (.wait (.receipt wait) begins, w)

def fetchLogs (w : World) (window : ScanWindow) (interval : Duration) (begins : Bool) :
    Reply (Option (List EventLog)) × World :=
  match w.callChain (.filterLogs window.first window.last) with
  | (.ok (.ok logs), w) => (.answer (some logs), w)
  | (.error f, w) => (.fault f, w)
  | (.ok (.error cause), w) =>
    (.wait (.retry (w.now + interval.ceilMillis) interval) begins,
      w.notify (.fetchFailed window.first window.last interval cause))

/-- Fetches logs, with no further wait for them where the home is told to stop. -/
def tryLogs (w : World) (home : Nat) (window : ScanWindow) (interval : Duration) (begins : Bool) :
    Reply (Option (List EventLog)) × World :=
  match w.fetchLogs window interval begins with
  | (.wait wait anew, v) => (if w.isCancelled home then .answer none else .wait wait anew, v)
  | reply => reply

def pollLogs (w : World) (home : Nat) (window : ScanWindow) (initial limit : Duration) :
    Option Wait → Reply (Option (List EventLog)) × World
  | some (.retry due interval) =>
    match w.race (w.isCancelled home) (due ≤ w.now) with
    | (some .first, w) => (.answer none, w)
    | (some .second, w) => w.tryLogs home window (Backoff.following limit interval) false
    | (none, w) => (.wait (.retry due interval) false, w)
  | _ =>
    match w.race (w.isCancelled home) true with
    | (some .first, w) => (.answer none, w)
    | (_, w) => w.tryLogs home window initial true

def hasEnded (w : World) (id : Nat) : Bool :=
  match w.tasks[id]? with
  | some ⟨_, .ended⟩ => true
  | some _ => false
  | none => true

/-- Looks whether a request can be answered. `before` is what it waited for so far. -/
def poll (w : World) (home : Nat) : (r : Request) → (before : Option Wait) → Reply r.Answer × World
  | .store r, _ => let (a, w) := w.callStore r; (.answer a, w)
  | .chain c, _ =>
    match w.callChain c with
    | (.ok a, w) => (.answer a, w)
    | (.error f, w) => (.fault f, w)
  | .memory r, _ =>
    let (a, w) := w.callMemory home r
    match r with
    | .enqueue _ => (.answer a, w.wake (w.idleWorkers home))
    | _ => (.answer a, w)
  | .notify n, _ => (.answer (), w.notify n)
  | .abort f, _ => (.fault f, w)
  | .entropy, _ => let (a, w) := w.draw; (.answer a, w)
  | .deliver handler event mode, _ => let (a, w) := w.deliver handler event mode; (.answer a, w)
  | .clock, _ => (.answer w.now, w)
  | .isCancelled, _ => (.answer (w.isCancelled home), w)
  | .cancel, _ => (.answer (), w.cancel home)
  | .spawn r, _ => let (a, w) := w.spawn home r; (.answer a, w)
  | .sleep _, some (.timer due) => (w.pollTimer due, w)
  | .sleep ms, _ => (w.pollTimer (w.now + ms), w)
  | .pauseUntil time, _ => w.pollPause home time
  | .nextReveal, _ => w.pollQueue home
  | .receipt tx _ _, some (.receipt wait) => w.pollReceipt home tx wait false
  | .receipt tx period timeout, _ =>
    match ReceiptWait.start w.now period timeout with
    | .ok wait => w.pollReceipt home tx wait true
    | .error f => (.fault f, w)
  | .logs window initial limit, before => w.pollLogs home window initial limit before
  | .join id, _ => if w.hasEnded id then (.answer (), w) else (.wait (.task id) true, w)

end World

end CommitReveal.Simulation
