import CommitReveal.Agent.Launch
import CommitReveal.Api.Router
import CommitReveal.Backoff
import CommitReveal.Files.Tree
import CommitReveal.Machine.Exchange
import CommitReveal.ReceiptWait
import CommitReveal.Store.Backend
import CommitReveal.Store.Journal
import Std.Sync.Mutex
import Std.Time

/-! Where an agent runs: its store in a file, its memory, its node, the clocks, and a thread for each of its
tasks. One task runs at a time, up to its next wait, so what a task does between two waits is never seen
half done. Waits that cancellation may cut short look again and again. -/
namespace CommitReveal.Machine

open Agent (Activity Routine)

/-- A store, and the file that its changes are added to if it is kept in one. -/
structure OpenStore where
  content : IO.Ref Store.Backend
  journal : Option IO.FS.Handle

def bytesOf (b : Bytes) : ByteArray :=
  ⟨b.toArray⟩

/-- The content of a file, and nothing if it is not there. -/
def readIfThere (path : String) : IO Bytes := do
  try
    return (← IO.FS.readBinFile path).toList
  catch
    | .noFileOrDirectory _ _ _ => return []
    | e => throw e

/-- Opens the store that is kept in a file; the file is written anew, so that it ends with a whole change. -/
def openJournal (path : String) : IO (Except Store.StoreError OpenStore) := do
  match Store.Journal.read? (← readIfThere path) with
  | none => return .error (.database "file is not a database")
  | some table =>
    let fresh := path ++ ".new"
    IO.FS.writeBinFile fresh (bytesOf (Store.Journal.write table))
    IO.FS.rename fresh path
    return .ok ⟨← IO.mkRef (.database table), some (← IO.FS.Handle.mk path .append)⟩

/-- Makes the directories above a file and opens the store in it. A store without a path is kept nowhere. -/
def openStore (path : String) : IO (Except Store.StoreError OpenStore) := do
  if path.isEmpty then
    return .ok ⟨← IO.mkRef (.database .empty), none⟩
  let above := Files.above path
  try
    unless above.isEmpty do
      IO.FS.createDirAll above
  catch e => return .error (.io (reason e))
  try
    openJournal path
  catch _ => return .error (.database ("unable to open database file: " ++ path))

structure Home where
  client : Node.Client
  /-- The longest time that a reply may take, in seconds. -/
  patience : Nat
  settings : Agent.Settings
  store : OpenStore
  memory : IO.Ref Agent.Memory
  cancelled : IO.Ref Bool
  tasks : IO.Ref (Array (Task (Except IO.Error Unit)))
  /-- The number of the next request to the node. -/
  number : IO.Ref Nat
  /-- Held by the one task that runs. -/
  turn : Std.BaseMutex

namespace Home

/-- Does something as the one task that runs. -/
def taking (h : Home) (action : IO α) : IO α := do
  h.turn.lock
  try
    action
  finally
    h.turn.unlock

/-- Waits for something while other tasks may run. -/
def lending (h : Home) (wait : IO α) : IO α := do
  h.turn.unlock
  try
    wait
  finally
    h.turn.lock

def callStore (s : OpenStore) (c : Store.Call) : IO (Except Store.StoreError c.Result) := do
  try
    if let some journal := s.journal then
      let entry := Store.Journal.entry c
      unless entry.isEmpty do
        journal.write (bytesOf entry)
        journal.flush
    return .ok (← s.content.modifyGet (Store.Backend.perform c))
  catch e => return .error (.io (reason e))

def unixSeconds : IO Int64 := do
  return Int64.ofInt (← Std.Time.Timestamp.now).toSecondsSinceUnixEpoch.val

def answerRepository (s : OpenStore) : (r : Repository.Request) → IO r.Answer
  | .call c => callStore s c
  | .clock => unixSeconds

/-- Runs a program that needs nothing but the store. -/
def runRepository (s : OpenStore) : Program Repository.interface α → IO α
  | .done a => return a
  | .ask r next => do runRepository s (next (← answerRepository s r))

/-- Writes a line of the log: when, how grave, and what. -/
def log (n : Notice) : IO Unit := do
  let now := Std.Time.DateTime.ofTimestampWithZone (← Std.Time.Timestamp.now) .UTC
  let time := now.format "uuuu-MM-dd" ++ "T" ++ now.format "HH:mm:ss.SSSSSS" ++ "Z"
  let out ← IO.getStdout
  out.putStrLn (time ++ " " ++ n.line)
  out.flush

/-- The answer, unless a fault ends the task. -/
def orFault : Except Fault α → IO α
  | .ok a => return a
  | .error f => throw (.userError f.message)

def callChain (h : Home) (c : Chain.Call) : IO (Except ChainError c.Result) := do
  let number ← h.number.modifyGet fun n => (n, n + 1)
  orFault (← h.client.perform (fun r => h.lending (carry h.client.url h.patience number r)) c)

/-- Which of two branches goes first where both are ready. -/
def flip : IO Bool := do
  return (← IO.rand 0 1) = 1

/-- Looks for an answer until there is one, or cancellation comes. -/
def await (h : Home) (look : IO (Option α)) : IO (Option α) := do
  while true do
    if ← h.cancelled.get then
      return ← if ← flip then look else pure none
    if let some a ← look then
      return some a
    h.lending (IO.sleep glance)
  return none

def pauseUntil (h : Home) (time : Nat) : IO Agent.Wake := do
  let due ← h.await do
    return if time ≤ (← IO.monoMsNow) then some () else none
  return if due.isSome then .due else .cancelled

def dequeue (m : Agent.Memory) : Option Hash × Agent.Memory :=
  match m.queue.dequeue with
  | some (hash, queue) => (some hash, { m with queue })
  | none => (none, m)

def receipt (h : Home) (tx : TxHash) (period timeout : Nat) : IO (Option TxOutcome) := do
  let wait ← IO.mkRef (← orFault (ReceiptWait.start (← IO.monoMsNow) period timeout))
  let outcome ← h.await do
    let w ← wait.get
    let now ← IO.monoMsNow
    let ended := w.isOver now
    if ended && !(w.isDue now && (← flip)) then
      return some none
    if !w.isDue now then
      return none
    wait.set (w.next now)
    match ← h.callChain (.transactionReceipt tx) with
    | .ok (some outcome) => return some (some outcome)
    | _ => return if ended then some none else none
  return outcome.join

def logs (h : Home) (window : ScanWindow) (initial limit : Duration) : IO (Option (List EventLog)) := do
  let due ← IO.mkRef 0
  let interval ← IO.mkRef initial
  h.await do
    if (← IO.monoMsNow) < (← due.get) then
      return none
    match ← h.callChain (.filterLogs window.first window.last) with
    | .ok found => return some found
    | .error cause =>
      let wait ← interval.get
      log (.fetchFailed window.first window.last wait cause)
      due.set ((← IO.monoMsNow) + wait.ceilMillis)
      interval.set (Backoff.following limit wait)
      return none

def join (h : Home) (id : Nat) : IO Unit := do
  if let some task := (← h.tasks.get)[id]? then
    discard (h.lending (IO.wait task))

/-- Answers a request; a new task is started by `spawn`. No handlers from outside are at home here. -/
def answer (h : Home) (spawn : Routine → IO Nat) : (r : Agent.Request) → IO r.Answer
  | .store r => answerRepository h.store r
  | .chain c => h.callChain c
  | .memory r => h.memory.modifyGet (Agent.Memory.perform r)
  | .notify n => log n
  | .abort f => throw (.userError f.message)
  | .entropy => do
    let bytes ← IO.getRandomBytes 32
    return .ofNat 32 (Bytes.toNatBE bytes.toList)
  | .deliver _ _ _ => return .ok ()
  | .clock => IO.monoMsNow
  | .isCancelled => h.cancelled.get
  | .cancel => h.cancelled.set true
  | .spawn r => spawn r
  | .sleep ms => h.lending (IO.sleep (UInt32.ofNat (min ms (UInt32.size - 1))))
  | .pauseUntil time => h.pauseUntil time
  | .nextReveal => h.await (h.memory.modifyGet dequeue)
  | .receipt tx period timeout => h.receipt tx period timeout
  | .logs window initial limit => h.logs window initial limit
  | .join id => h.join id

def execute (h : Home) (spawn : Routine → IO Nat) : Activity α → IO α
  | .done a => return a
  | .ask r next => do execute h spawn (next (← h.answer spawn r))

mutual

/-- Starts a task in a thread of its own and gives its number. -/
partial def spawn (h : Home) (r : Routine) : IO Nat := do
  let task ← IO.asTask (h.taking (h.runTurns r)) .dedicated
  h.tasks.modifyGet fun tasks => (tasks.size, tasks.push task)

/-- Runs a task turn after turn. -/
partial def runTurns (h : Home) (r : Routine) : IO Unit := do
  match ← h.execute h.spawn (r.turn h.settings) with
  | some next => h.runTurns next
  | none => pure ()

end

/-- Runs a program in the thread at hand. -/
def perform (h : Home) (a : Activity α) : IO α :=
  h.taking (h.execute h.spawn a)

/-- A home where nothing has happened yet. -/
def start (client : Node.Client) (c : Config) (store : OpenStore) : IO Home := do
  let settings := Agent.Settings.ofConfig c client
  return {
    client, settings, store
    patience := c.rpcTimeoutSeconds.toNat
    memory := ← IO.mkRef (.empty settings.limits.queueCapacity)
    cancelled := ← IO.mkRef false
    tasks := ← IO.mkRef #[]
    number := ← IO.mkRef 1
    turn := ← Std.BaseMutex.new }

/-- Answers a request for a seed, and reports on it. -/
def respond (h : Home) (r : Api.Request) : IO Api.Response :=
  h.taking do
    let (response, notices) ← runRepository h.store (Api.respond r)
    for n in notices do
      log n
    return response

end Home

end CommitReveal.Machine
