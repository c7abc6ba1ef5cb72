import CommitReveal.Chain.Error
import CommitReveal.Config.Fault
import CommitReveal.FixedBytes
import CommitReveal.Store.Error

/-! Why something the agent does failed. -/
namespace CommitReveal

inductive AgentError where
  | chain (cause : ChainError)
  | store (cause : Store.StoreError)
  | configuration (fault : ConfigFault)
  | startup (reason : String)
  | approvalFailed (cause : AgentError)
  | approvalReverted (tx : TxHash)
  | approvalUnconfirmed (tx : TxHash)
  | io (reason : String)
deriving DecidableEq, Repr

def AgentError.message : AgentError → String
  | .chain cause => "Chain error: " ++ cause.message
  | .store cause => "Store error: " ++ cause.message
  | .configuration fault => "Configuration error: " ++ fault.message
  | .startup reason => "Startup error: " ++ reason
  | .approvalFailed cause => "Startup error: Token approval failed: " ++ cause.message
  | .approvalReverted tx => "Startup error: Approve transaction " ++ tx.text ++ " reverted"
  | .approvalUnconfirmed tx => "Timed out: No receipt for approve transaction " ++ tx.text
  | .io reason => "IO error: " ++ reason

end CommitReveal
