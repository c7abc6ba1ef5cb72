/-! Why talking to the chain failed: which part failed, and what it said. -/
namespace CommitReveal

inductive ChainError where
  /-- The connection to the node. -/
  | provider (reason : String)
  | rpc (reason : String)
  | contract (reason : String)
  | signer (reason : String)
  /-- A log that is none of the oracle's events. -/
  | decode (reason : String)
  | configuration (reason : String)
deriving DecidableEq, Repr

def ChainError.message : ChainError → String
  | .provider reason => "Provider error: " ++ reason
  | .rpc reason => "RPC error: " ++ reason
  | .contract reason => "Contract call failed: " ++ reason
  | .signer reason => "Signer error: " ++ reason
  | .decode reason => "Log decode error: " ++ reason
  | .configuration reason => "Invalid chain configuration: " ++ reason

end CommitReveal
