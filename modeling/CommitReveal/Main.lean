import CommitReveal.Machine.Home
import CommitReveal.Session
import Std.Async.Signal

/-! The command line of the agent, on the machine at hand. -/
namespace CommitReveal.Machine

/-- What a run has set up so far. -/
structure Progress where
  store : Option OpenStore
  home : Option Home
  server : Option (Task (Except IO.Error Unit))

def notOpen : AgentError := .startup "the store is not open"

def readFile (path : String) : IO (Except Files.Fault Bytes) := do
  try
    return .ok (← IO.FS.readBinFile path).toList
  catch e => return .error (.reported (reason e))

/-- Waits until the program is interrupted from outside. -/
def awaitInterrupt : IO Unit := do
  let waiter ← Std.Async.Signal.Waiter.mk .sigint false
  discard (← waiter.wait).block

/-- Starts the server, once the tasks of the agent have had a moment to begin. -/
def startListening (p : IO.Ref Progress) (address : Net.SocketAddress) :
    IO (Except AgentError Net.SocketAddress) := do
  match (← p.get).home with
  | none => return .error notOpen
  | some home =>
    try
      let (server, taken) ← listen address
      IO.sleep glance
      let task ← IO.asTask (serve home.cancelled.get home.respond server) .dedicated
      p.modify fun now => { now with server := some task }
      return .ok taken
    catch e => return .error (.io (reason e))

/-- Stops the agent and then the server. -/
def stop (p : Progress) (tasks : List Nat) : IO Unit := do
  if let some home := p.home then
    home.perform (Agent.shutdown tasks)
  if let some server := p.server then
    discard (IO.wait server)

def respond (p : IO.Ref Progress) : (r : Session.Request) → IO r.Answer
  | .print line => IO.println line
  | .complain line => IO.eprintln line
  | .notify n => Home.log n
  | .readFile path => readFile path
  | .openStore path => do
    match ← openStore path with
    | .error cause => return .error (.store cause)
    | .ok store =>
      p.modify fun now => { now with store := some store }
      return .ok ()
  | .launch client c => do
    match (← p.get).store with
    | none => return .error notOpen
    | some store =>
      let home ← Home.start client c store
      p.modify fun now => { now with home := some home }
      home.perform (Agent.launch home.settings c).run
  | .listen address => startListening p address
  | .awaitInterrupt => awaitInterrupt
  | .shutdown tasks => do stop (← p.get) tasks

def play (p : IO.Ref Progress) : Program Session.interface α → IO α
  | .done a => return a
  | .ask r next => do play p (next (← respond p r))

/-- The variables that stand in for options. -/
def environment : IO Session.Environment := do
  let found ← CommandLine.Flag.all.filterMapM fun f => do
    match f.environmentName? with
    | none => return none
    | some name => return (← IO.getEnv name).map fun value => (name, value)
  return fun name => found.lookup name

/-- Runs a command line to its end and gives the exit code. -/
def run (arguments : List String) : IO UInt32 := do
  let progress ← IO.mkRef ⟨none, none, none⟩
  let code ← play progress (Session.run arguments (← environment))
  if let some home := (← progress.get).home then
    home.cancelled.set true
  return UInt32.ofNat code

end CommitReveal.Machine

def main (arguments : List String) : IO UInt32 :=
  CommitReveal.Machine.run arguments
