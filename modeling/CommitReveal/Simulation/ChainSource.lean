import CommitReveal.Node.Client
import CommitReveal.Simulation.ScriptedChain

/-! The two chains that a simulated agent can have: one in memory, or a client with a node whose every reply is
given. -/
namespace CommitReveal.Simulation

inductive ChainSource where
  | scripted (chain : ScriptedChain)
  | node (client : Node.Client) (reply : Node.Request → String)

namespace ChainSource

def perform (call : Chain.Call) : ChainSource → Except Fault (Except ChainError call.Result) × ChainSource
  | .scripted c =>
    let (answer, c) := c.perform call
    (.ok answer, .scripted c)
  | .node client reply =>
    let carry (r : Node.Request) : Id (Except String String) := pure (.ok (reply r))
    (Id.run (client.perform carry call), .node client reply)

/-- Changes the chain in memory. -/
def change (f : ScriptedChain → ScriptedChain) : ChainSource → ChainSource
  | .scripted c => .scripted (f c)
  | source => source

/-- What was sent and accepted, with its nonce. -/
def accepted : ChainSource → List (Chain.Submission × Word)
  | .scripted c => c.accepted
  | .node _ _ => []

/-- The windows that logs were asked for. -/
def filtered : ChainSource → List (Word × Word)
  | .scripted c => c.filtered
  | .node _ _ => []

end ChainSource

end CommitReveal.Simulation
