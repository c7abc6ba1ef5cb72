import CommitReveal.Files.Tree
import CommitReveal.Session
import CommitReveal.Simulation.Schedule
import CommitReveal.Store.Journal

/-! A whole run on a simulated machine: among given files, and with a node whose every reply is given. The
machine has no addresses but its own, and the run is interrupted as soon as it has started. -/
namespace CommitReveal.Simulation

structure Surroundings where
  environment : Session.Environment
  files : Files.Tree
  reply : Node.Request → String

/-- The exit code, and what was written. -/
structure Ending where
  code : Nat
  lines : List String
deriving DecidableEq, Repr

namespace Session

open CommitReveal.Session (Request)

/-- What a run has come to: the lines written so far, the store once it is open, and the agent once it has
been launched. -/
structure Progress where
  lines : List String
  store : Store.Backend
  world : Option World

def Progress.start : Progress :=
  ⟨[], .database .empty, none⟩

/-- The end that a fault outside of a background task brings. -/
def faultCode : Nat := 101

/-- What listening fails with on an address that the machine does not have. -/
def addressRefused : String := "Cannot assign requested address (os error 99)"

def nulPosition? (path : String) : Option Nat :=
  (Bytes.ofText path).findIdx? (· = 0)

/-- Makes the directories above a database file and opens it. A store without a path is kept nowhere. -/
def openStore (files : Files.Tree) (path : String) : Except Store.StoreError Store.Backend := do
  if path.isEmpty then
    return .database .empty
  let table ← (files.openFile path).mapError fun e => .io e.message
  if let some position := nulPosition? path then
    throw (.database s!"nul byte found in provided data at position: {position}")
  match table with
  | none => throw (.database ("unable to open database file: " ++ path))
  | some content =>
    match Store.Journal.read? content with
    | none => throw (.database "file is not a database")
    | some table => return .database table

def Progress.write (p : Progress) (line : String) : Progress :=
  { p with lines := p.lines ++ [line] }

/-- Goes on with a world, after what its agent has reported since. -/
def Progress.follow (p : Progress) (w : World) : Progress :=
  { p with lines := p.lines ++ w.notices.map Notice.line, world := some { w with notices := [] } }

/-- The outcome of a part of the agent's work, unless a fault ended it. -/
def Progress.settled (p : Progress) : Stop α × World → Option α × Progress
  | (.done a, w) => (some a, p.follow w)
  | (_, w) => (none, p.follow w)

/-- Answers a request, unless answering it ends in a fault. -/
def respond (s : Surroundings) : (r : Request) → Progress → Option r.Answer × Progress
  | .print line, p => (some (), p.write line)
  | .complain _, p => (some (), p)
  | .notify n, p => (some (), p.write n.line)
  | .readFile path, p => (some (s.files.read path), p)
  | .openStore path, p =>
    match openStore s.files path with
    | .ok store => (some (.ok ()), { p with store })
    | .error cause => (some (.error (.store cause)), p)
  | .launch client c, p =>
    let settings := Agent.Settings.ofConfig c client
    let w := World.start (.node client s.reply) p.store settings
    p.settled (w.perform 0 (Agent.launch settings c).run)
  | .listen address, p =>
    if address.host.isLocal then
      (some (.ok address), (p.world.map fun w => p.follow (settle patience w)).getD p)
    else (some (.error (.io addressRefused)), p)
  | .awaitInterrupt, p => (some (), p)
  | .shutdown tasks, p =>
    match p.world with
    | none => (some (), p)
    | some w => p.settled (w.perform 0 (Agent.shutdown tasks))

def play (s : Surroundings) : Program CommitReveal.Session.interface Nat → Progress → Ending
  | .done code, p => ⟨code, p.lines⟩
  | .ask r next, p =>
    match respond s r p with
    | (some answer, p) => play s (next answer) p
    | (none, p) => ⟨faultCode, p.lines⟩

def run (s : Surroundings) (arguments : List String) : Ending :=
  play s (CommitReveal.Session.run arguments s.environment) .start

end Session

end CommitReveal.Simulation
