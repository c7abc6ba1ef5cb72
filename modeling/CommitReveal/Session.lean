import CommitReveal.Agent.Launch
import CommitReveal.CommandLine.Help
import CommitReveal.Config.Load

/-! A whole run, from the command line to the exit code. All that a run needs of the machine it asks for, so
every machine that answers these requests can carry it, a simulated one too. -/
namespace CommitReveal.Session

inductive Request where
  | print (line : String)
  /-- Says what is wrong with the command line. -/
  | complain (line : String)
  | notify (n : Notice)
  | readFile (path : String)
  /-- Opens the store in a file, and makes the directories above it. -/
  | openStore (path : String)
  /-- Starts an agent and names its tasks. -/
  | launch (client : Node.Client) (c : Config)
  /-- Starts to answer HTTP requests, and gives the address that is taken for it. -/
  | listen (address : Net.SocketAddress)
  | awaitInterrupt
  /-- Stops the agent. -/
  | shutdown (tasks : List Nat)

abbrev Request.Answer : Request → Type
  | .print _ => Unit
  | .complain _ => Unit
  | .notify _ => Unit
  | .readFile _ => Except Files.Fault Bytes
  | .openStore _ => Except AgentError Unit
  | .launch _ _ => Except AgentError (List Nat)
  | .listen _ => Except AgentError Net.SocketAddress
  | .awaitInterrupt => Unit
  | .shutdown _ => Unit

abbrev interface : Interface := ⟨Request, Request.Answer⟩

/-- A part of a run, whose failure ends the run. -/
abbrev Part (α : Type) := ExceptT AgentError (Program interface) α

def ask (r : Request) : Program interface r.Answer :=
  Program.request (I := interface) r

def notify (n : Notice) : Part Unit :=
  ExceptT.lift (ask (.notify n))

/-- Serves until the run is interrupted. -/
def serve (a : CommandLine.Arguments) : Part Unit := do
  let c ← Config.load a (← ExceptT.lift (ask (.readFile a.config)))
  notify (.configurationLoaded a.config)
  ExceptT.mk (ask (.openStore c.dbPath))
  notify (.storeOpened c.dbPath)
  let client ← (Node.Client.connect c).mapError AgentError.chain
  notify (.signing client.address client.oracle)
  let tasks ← ExceptT.mk (ask (.launch client c))
  let wanted ← c.listenAddress.mapError AgentError.configuration
  let address ← ExceptT.mk (ask (.listen wanted))
  notify (.httpListening address.text)
  ExceptT.lift (ask .awaitInterrupt)
  notify .interrupted
  ExceptT.lift (ask (.shutdown tasks))

def printAll : List String → Program interface Unit
  | [] => pure ()
  | line :: rest => do
    ask (.print line)
    printAll rest

/-- What the environment says about the options. -/
abbrev Environment := String → Option String

/-- Runs a command line and gives the exit code: 0 for help and for a run that was interrupted, 2 for a command
line that cannot be read, and 1 for every other failure. -/
def run (arguments : List String) (environment : Environment) : Program interface Nat := do
  match CommandLine.Arguments.read arguments environment with
  | .error (.helpAsked _) =>
    printAll (CommandLine.Help.lines environment)
    return 0
  | .error fault =>
    ask (.complain ("error: " ++ fault.message))
    return 2
  | .ok a =>
    match ← (serve a).run with
    | .ok () => return 0
    | .error cause =>
      ask (.notify (.agentFailed cause))
      return 1

end CommitReveal.Session
