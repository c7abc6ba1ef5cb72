import CommitReveal.CommandLine.Arguments
import CommitReveal.Config.Reader
import CommitReveal.Files.Fault

/-! Loading a configuration: the file that the command line names, with what the command line itself
sets, checked. A file is given as what reading it brought: its content or a failure. -/
namespace CommitReveal.Config

/-- The text of a file. -/
def textOf (file : Except Files.Fault Bytes) : Except Files.Fault String := do
  match (← file).toText? with
  | some text => return text
  | none => .error .notText

def ofFile (path : String) (file : Except Files.Fault Bytes) : Except ConfigFault Config :=
  match textOf file with
  | .ok text => ofJson text
  | .error fault => .error (.unreadable path fault.message)

/-- Puts the values of the command line over those of the file. -/
def override (c : Config) (a : CommandLine.Arguments) : Config :=
  { c with
    rpcUrl := a.rpcUrl.getD c.rpcUrl
    privateKey := a.privateKey.getD c.privateKey
    dbPath := a.dbPath.getD c.dbPath }

/-- The configuration that a command line asks for, from the file that it names. -/
def load (a : CommandLine.Arguments) (file : Except Files.Fault Bytes) : Except AgentError Config := do
  let c := (← (ofFile a.config file).mapError .configuration).override a
  c.validate
  return c

end CommitReveal.Config
