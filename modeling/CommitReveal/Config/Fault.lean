import CommitReveal.Hex
import CommitReveal.Json.Fault

/-! Why a configuration cannot be used. -/
namespace CommitReveal

inductive ConfigFault where
  | unreadable (path reason : String)
  | malformed (fault : Json.Fault)
  | rpcUrlMissing
  | chainIdMissing
  | privateKeyMissing
  | privateKeyMalformed
  | deployTxMalformed (value : String) (refusal : Hex.Refusal)
  | listenMalformed (value : String)
  | gasLimitZero
deriving DecidableEq, Repr

def ConfigFault.message : ConfigFault → String
  | .unreadable path reason => s!"Failed to read {path}: {reason}"
  | .malformed fault => "Invalid configuration: " ++ fault.message
  | .rpcUrlMissing => "rpc_url is required"
  | .chainIdMissing => "chain_id must be set"
  | .privateKeyMissing => "private_key is required"
  | .privateKeyMalformed => "private_key must be 32 hex encoded bytes"
  | .deployTxMalformed value refusal =>
    s!"Invalid transaction hash {value}: " ++ refusal.message
  | .listenMalformed value => s!"Invalid http_listen {value}: invalid socket address syntax"
  | .gasLimitZero => "gas_limit must be positive"

end CommitReveal
