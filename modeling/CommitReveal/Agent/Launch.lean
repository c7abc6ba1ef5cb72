import CommitReveal.Agent.Lifecycle
import CommitReveal.Node.Client

/-! Starting an agent as configured. -/
namespace CommitReveal.Agent

def Settings.ofConfig (c : Config) (client : Node.Client) : Settings :=
  ⟨client.address, client.oracle, .standard, c.timings⟩

def Bootstrap.ofConfig (c : Config) : Except ConfigFault Bootstrap := do
  return ⟨← c.deployTxHash, c.startBlock⟩

/-- Grants the allowance, starts the tasks and names them. -/
def launch (s : Settings) (c : Config) : Attempt (List Nat) := do
  match Bootstrap.ofConfig c with
  | .error fault => throw (.configuration fault)
  | .ok bootstrap =>
    prepare s c.allowance
    start s bootstrap c.confirmations

end CommitReveal.Agent
