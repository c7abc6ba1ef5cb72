import CommitReveal.Chain.Error
import CommitReveal.FixedBytes
import CommitReveal.Word

/-! What may be asked of the chain. Reading needs no key; each sending takes the nonce that its caller
has set aside for it. -/
namespace CommitReveal

/-- A log as the node gives it; one that is not mined has no block and no place in it. -/
structure EventLog where
  address : Address
  topics : List Hash
  data : Bytes
  block : Option Word
  index : Option Nat
deriving DecidableEq, Repr

/-- How a mined transaction ended. -/
structure TxOutcome where
  block : Option Word
  success : Bool
deriving DecidableEq, Repr

/-- A commitment as the oracle lists it. -/
structure OracleRecord where
  hash : Hash
  committer : Address
  commitBlock : Word
  /-- Zero while the seed is unknown. -/
  seed : Seed
  revealed : Bool
  verifiedBlock : Word
  consumer : Address
  subscriber : Address
  subscribeBlock : Word
  subscribeStatus : UInt8
deriving DecidableEq, Repr

namespace Chain

/-- What a transaction of the agent does. -/
inductive Submission where
  | commit (hash : Hash)
  | reveal (hash : Hash) (seed : Seed)
  /-- Lets the spender draw payment tokens up to an amount. -/
  | approve (spender : Address) (amount : Nat)
deriving DecidableEq, Repr

inductive Call where
  | blockNumber
  /-- The oracle's logs from one block to another, both included. -/
  | filterLogs (first last : Word)
  | transactionCount (owner : Address)
  | transactionReceipt (tx : TxHash)
  | blockOfTransaction (tx : TxHash)
  | computeCommitHash (seed : Seed)
  | tokenAllowance (owner spender : Address)
  | submit (what : Submission) (nonce : Word)
  | listUnverified (owner : Address)
deriving DecidableEq, Repr

/-- What a call gives when it succeeds. -/
abbrev Call.Result : Call → Type
  | .blockNumber => Word
  | .filterLogs _ _ => List EventLog
  | .transactionCount _ => Word
  | .transactionReceipt _ => Option TxOutcome
  | .blockOfTransaction _ => Option Word
  | .computeCommitHash _ => Hash
  | .tokenAllowance _ _ => Nat
  | .submit _ _ => TxHash
  | .listUnverified _ => List OracleRecord

end Chain

end CommitReveal
