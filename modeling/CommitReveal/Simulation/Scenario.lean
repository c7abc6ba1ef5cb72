import CommitReveal.Agent.Lifecycle
import CommitReveal.Simulation.Schedule

/-! Scenarios: a list of steps taken one after the other in a simulated world. A step changes the
world, or runs something in the foreground while the background tasks go on. -/
namespace CommitReveal.Simulation

open Agent (Activity Attempt Routine)

/-- The repository's operations, each by itself. -/
inductive RepositoryStep where
  | storeSeed (hash : Hash) (seed : Seed)
  | seed (hash : Hash)
  | storeTx (hash : Hash) (tx : TxHash)
  | tx (hash : Hash)
  | record (hash : Hash)
  | status (hash : Hash)
  | setStatus (hash : Hash) (status : Status)
  | setCommitBlock (hash : Hash) (block : Word)
  | markPending (hash : Hash)
  | isPending (hash : Hash)
  | clearPending (hash : Hash)
  | pendingHashes
  | markRevealed (hash : Hash) (seed : Option Seed)
  | markExpired (hash : Hash)
  | markAbandoned (hash : Hash)
  | cursor
  | setCursor (block : Word)
deriving DecidableEq, Repr

/-- Changes to the chain. -/
inductive ChainStep where
  | head (block : Word)
  | nonce (nonce : Word)
  | headFailures (count : Nat)
  | filterFailures (count : Nat)
  | refusing (on : Bool)
  | commitMining (mining : Mining)
  | revealMining (mining : Mining)
  | allowance (amount : Nat)
  | txBlock (tx : TxHash) (block : Word)
  | log (log : EventLog)
  | unverified (record : OracleRecord)
  | failure (failure : Failure)
  | receipts (tx : TxHash) (polls : List Poll)
deriving DecidableEq, Repr

inductive Step where
  | chain (change : ChainStep)
  | storeFailure (failure : StoreFailure)
  | repository (operation : RepositoryStep)
  | store (call : Store.Call)
  | has (key : Bytes)
  | issueCommit
  | reveal (hash : Hash)
  | requestReveal (hashes : List Hash)
  | queueDepth
  | reconcile (candidates : List Hash)
  | commitTick (times : Nat)
  | reconcileTick
  | approve (amount : Nat)
  | awaitReceipt (tx : TxHash) (poll timeout : Nat)
  | dispatch (log : EventLog) (mode : ScanMode)
  | scan (times : Nat)
  | resolveCursor (bootstrap : Agent.Bootstrap)
  | spawnWorker
  | spawnCommitTimer
  | spawnReconcileTimer
  | spawnScan
  | sleep (ms : Nat)
  | cancel
  | cancelAfter (ms : Nat)
  | join
  | agentNew (bootstrap : Agent.Bootstrap) (confirmations : Word) (allowance : Nat)
  | agentStart
  | agentQueueDepth
  | agentShutdown
  | state
deriving DecidableEq, Repr

/-- What can be seen of the world from outside. -/
structure Snapshot where
  entries : List Store.Entry
  queue : Nat
  accepted : List (Chain.Submission × Word)
  filtered : List (Word × Word)
deriving DecidableEq, Repr

inductive Result where
  | nothing
  | flag (b : Bool)
  | count (n : Nat)
  | block (b : Word)
  | hash (h : Hash)
  | hashes (hs : List Hash)
  | bytes (b : Bytes)
  | entries (es : List Store.Entry)
  | status (s : Status)
  | record (r : CommitRecord)
  | outcome (o : TxOutcome)
  | reveal (o : Agent.RevealOutcome)
  | dispatch (o : DispatchOutcome)
  | scanned (outcomes : List StepOutcome) (cursor : Word)
  /-- So many tasks have ended. -/
  | ended (count : Nat)
  | snapshot (s : Snapshot)
  | chainError (e : ChainError)
  | storeError (e : Store.StoreError)
  | agentError (e : AgentError)
  | fault (f : Fault)
  /-- Nothing will ever go on. -/
  | stuck
deriving DecidableEq, Repr

/-- A result that may be missing. -/
def Result.ofOption (f : α → Result) : Option α → Result
  | some a => f a
  | none => .nothing

def Result.ofAttempt (f : α → Result) : Except AgentError α → Result
  | .ok a => f a
  | .error e => .agentError e

def Result.ofStore (f : α → Result) : Except Store.StoreError α → Result
  | .ok a => f a
  | .error e => .storeError e

/-- An agent that has been made, and its tasks once it runs. -/
structure AgentSlot where
  home : Nat
  bootstrap : Agent.Bootstrap
  confirmations : Word
  tasks : List Nat

structure Setup where
  agent : Address
  head : Word
  store : Store.Backend
  timings : Agent.Timings
  limits : Agent.Limits
  handlers : List Handler
  start : Word
  confirmations : Word
  clock : Int64
  entropy : List Hash

structure Scenario where
  world : World
  settings : Agent.Settings
  handlers : List Handler
  /-- The scan that steps are taken with. -/
  sync : EventSync
  spawned : List Nat
  agent : Option AgentSlot

namespace Scenario

/-- The home that the steps themselves use. -/
def home : Nat := 0

def begin (s : Setup) : Scenario :=
  let settings : Agent.Settings := ⟨s.agent, ScriptedChain.oracle, s.limits, s.timings⟩
  let world := World.start (.scripted (.start s.agent s.head)) s.store settings
  { world := { world with epoch := s.clock, entropy := s.entropy }
    settings
    handlers := s.handlers
    sync := .start s.start s.handlers s.confirmations
    spawned := []
    agent := none }

def changeChain (c : ScriptedChain) : ChainStep → ScriptedChain
  | .head block => { c with head := block }
  | .nonce nonce => { c with nonce }
  | .headFailures count => { c with headFailures := count }
  | .filterFailures count => { c with filterFailures := count }
  | .refusing on => { c with refusing := on }
  | .commitMining mining => { c with commitMining := mining }
  | .revealMining mining => { c with revealMining := mining }
  | .allowance amount => { c with allowance := amount }
  | .txBlock tx block => { c with txBlocks := (tx, block) :: c.txBlocks }
  | .log log => { c with logs := c.logs ++ [log] }
  | .unverified record => { c with unverified := c.unverified ++ [record] }
  | .failure failure => c.planFailure failure
  | .receipts tx polls => c.script tx polls

/-- An operation of the repository, run on its own. -/
def repositoryActivity (a : Repository.Action α) (f : α → Result) : Activity Result := do
  return Result.ofStore f (← Agent.callRepository a)

def operate : RepositoryStep → Activity Result
  | .storeSeed hash seed =>
    repositoryActivity (Repository.storeSeed hash seed) fun _ => .nothing
  | .seed hash => repositoryActivity (Repository.seed hash) (.ofOption .hash)
  | .storeTx hash tx => repositoryActivity (Repository.storeTx hash tx) fun _ => .nothing
  | .tx hash => repositoryActivity (Repository.tx hash) (.ofOption .hash)
  | .record hash => repositoryActivity (Repository.record hash) (.ofOption .record)
  | .status hash => repositoryActivity (Repository.status hash) (.ofOption .status)
  | .setStatus hash status => repositoryActivity (Repository.setStatus hash status) .flag
  | .setCommitBlock hash block =>
    repositoryActivity (Repository.setCommitBlock hash block) fun _ => .nothing
  | .markPending hash => repositoryActivity (Repository.markPending hash) .flag
  | .isPending hash => repositoryActivity (Repository.isPending hash) .flag
  | .clearPending hash => repositoryActivity (Repository.clearPending hash) fun _ => .nothing
  | .pendingHashes => repositoryActivity Repository.pendingHashes .hashes
  | .markRevealed hash seed =>
    repositoryActivity (Repository.markRevealed hash seed) fun _ => .nothing
  | .markExpired hash => repositoryActivity (Repository.markExpired hash) fun _ => .nothing
  | .markAbandoned hash => repositoryActivity (Repository.markAbandoned hash) fun _ => .nothing
  | .cursor => repositoryActivity Repository.cursor (.ofOption .block)
  | .setCursor block => repositoryActivity (Repository.setCursor block) fun _ => .nothing

def storeActivity : Store.Call → Activity Result
  | .get key => repositoryActivity (Repository.get key) (.ofOption .bytes)
  | .set key value => repositoryActivity (Repository.set key value) fun _ => .nothing
  | .delete key => repositoryActivity (Repository.delete key) fun _ => .nothing
  | .scan start => repositoryActivity (Repository.scan start) .entries

def attempt (a : Attempt α) (f : α → Result) : Activity Result := do
  return Result.ofAttempt f (← a.run)

/-- Does something so many times. -/
def times (a : Activity Unit) : Nat → Activity Unit
  | 0 => pure ()
  | n + 1 => do
    a
    times a n

/-- Takes so many steps of a scan. -/
def scanSteps (s : Agent.Settings) : Nat → EventSync → Activity (List StepOutcome × EventSync)
  | 0, e => return ([], e)
  | n + 1, e => do
    let (outcome, e) ← Agent.scanStep s e
    let (outcomes, e) ← scanSteps s n e
    return (outcome :: outcomes, e)

/-- Runs something in the foreground of a home. -/
def foreground (s : Scenario) (home : Nat) (a : Activity α) (f : α → Scenario → Result × Scenario) :
    Result × Scenario :=
  match s.world.perform home a with
  | (.done a, world) => f a { s with world }
  | (.fault fault, world) => (.fault fault, { s with world })
  | (.suspended _, world) => (.stuck, { s with world })

def perform (s : Scenario) (a : Activity Result) : Result × Scenario :=
  s.foreground home a fun r s => (r, s)

def queueDepth (s : Scenario) (home : Nat) : Nat :=
  ((s.world.homes[home]?).map (·.memory.queue.depth)).getD 0

def spawn (s : Scenario) (r : Routine) : Result × Scenario :=
  let (id, world) := s.world.spawn home r
  (.nothing, { s with world, spawned := s.spawned ++ [id] })

def snapshot (s : Scenario) : Snapshot where
  entries := s.world.store.backend.entries
  queue := s.queueDepth home
  accepted := s.world.chain.accepted
  filtered := s.world.chain.filtered

/-- Makes an agent with a home of its own; it counts only once its allowance is granted. -/
def agentNew (s : Scenario) (b : Agent.Bootstrap) (confirmations : Word) (allowance : Nat) :
    Result × Scenario :=
  let limits := Agent.Limits.standard
  let settings := { s.settings with limits }
  let id := s.world.homes.size
  let world := { s.world with
    homes := s.world.homes.push ⟨settings, .empty limits.queueCapacity, false⟩ }
  { s with world }.foreground id (Agent.prepare settings allowance).run fun
    | .ok () => fun s => (.nothing, { s with agent := some ⟨id, b, confirmations, []⟩ })
    | .error e => fun s => (.agentError e, s)

def agentStart (s : Scenario) (slot : AgentSlot) : Result × Scenario :=
  let settings := { s.settings with limits := .standard }
  s.foreground slot.home (Agent.start settings slot.bootstrap slot.confirmations).run fun
    | .ok tasks => fun s => (.nothing, { s with agent := some { slot with tasks } })
    | .error e => fun s => (.agentError e, s)

def agentShutdown (s : Scenario) (slot : AgentSlot) : Result × Scenario :=
  s.foreground slot.home (Agent.shutdown slot.tasks) fun () s =>
    (.flag (s.world.isCancelled slot.home), s)

def withAgent (s : Scenario) (f : AgentSlot → Result × Scenario) : Result × Scenario :=
  match s.agent with
  | some slot => f slot
  | none => (.stuck, s)

def take (s : Scenario) : Step → Result × Scenario
  | .chain change =>
    (.nothing, { s with world := { s.world with chain := s.world.chain.change fun c => changeChain c change } })
  | .storeFailure f =>
    (.nothing, { s with world := { s.world with store := s.world.store.planFailure f } })
  | .repository operation => s.perform (operate operation)
  | .store call => s.perform (storeActivity call)
  | .has key => s.perform (repositoryActivity (Repository.has key) .flag)
  | .issueCommit => s.perform (attempt (Agent.issueCommit s.settings) (.ofOption .hash))
  | .reveal hash => s.perform (attempt (Agent.reveal s.settings hash) .reveal)
  | .requestReveal hashes =>
    s.foreground home (Agent.requestReveals hashes) fun () s => (.count (s.queueDepth home), s)
  | .queueDepth => (.count (s.queueDepth home), s)
  | .reconcile candidates => s.perform (attempt (Agent.reconcile s.settings candidates) .hashes)
  | .commitTick n => s.foreground home (times (Agent.commitTick s.settings) n) fun () s => (.nothing, s)
  | .reconcileTick =>
    s.foreground home (Agent.reconcileTick s.settings) fun () s => (.count (s.queueDepth home), s)
  | .approve amount =>
    s.perform (attempt (Agent.approveAllowance s.settings amount) fun _ => .nothing)
  | .awaitReceipt tx poll timeout =>
    s.foreground home (Agent.awaitReceipt tx poll timeout) fun o s => (.ofOption .outcome o, s)
  | .dispatch log mode =>
    s.foreground home (Agent.dispatch s.settings.agent s.handlers log mode) fun o s => (.dispatch o, s)
  | .scan n =>
    s.foreground home (scanSteps s.settings n s.sync) fun (outcomes, sync) s =>
      (.scanned outcomes sync.cursor, { s with sync })
  | .resolveCursor b => s.perform (attempt (Agent.resolveCursor b) .block)
  | .spawnWorker => s.spawn (.revealWorker false)
  | .spawnCommitTimer => s.spawn (.commitTimer none)
  | .spawnReconcileTimer => s.spawn (.reconcileTimer none)
  | .spawnScan => s.spawn (.scan s.sync false)
  | .sleep ms => s.foreground home (Agent.ask (.sleep ms)) fun () s => (.nothing, s)
  | .cancel => s.foreground home (Agent.ask .cancel) fun () s => (.nothing, s)
  | .cancelAfter ms => (.nothing, { s with world := (s.world.spawn home (.stopAfter ms)).2 })
  | .join =>
    s.foreground home (Agent.joinAll s.spawned) fun () s =>
      (.ended s.spawned.length, { s with spawned := [] })
  | .agentNew b confirmations allowance => s.agentNew b confirmations allowance
  | .agentStart => s.withAgent s.agentStart
  | .agentQueueDepth => s.withAgent fun slot => (.count (s.queueDepth slot.home), s)
  | .agentShutdown => s.withAgent s.agentShutdown
  | .state => (.snapshot s.snapshot, s)

/-- What a step left to see. -/
structure Report where
  result : Result
  /-- Milliseconds since the beginning, after the step. -/
  time : Nat
  notices : List Notice
  calls : List Chain.Call
  delivered : List (OracleEvent × ScanMode)

def isFault : Result → Bool
  | .fault _ => true
  | _ => false

/-- Takes the steps in turn; one that faults is the last. -/
def runSteps : Scenario → List Step → List Report
  | _, [] => []
  | s, step :: rest =>
    let (result, s) := s.take step
    let report := ⟨result, s.world.now, s.world.notices, s.world.calls, s.world.delivered⟩
    let s := { s with world := { s.world with notices := [], calls := [], delivered := [] } }
    report :: if isFault result then [] else runSteps s rest

end Scenario

end CommitReveal.Simulation
