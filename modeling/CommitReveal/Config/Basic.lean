import CommitReveal.Agent.Error
import CommitReveal.Agent.Settings
import CommitReveal.Amount
import CommitReveal.Chain.Address
import CommitReveal.Net.SocketAddress
import CommitReveal.Text.Blank

/-! What an agent is configured with, as it was written; and whether it can be used. -/
namespace CommitReveal

structure Config where
  rpcUrl : String
  chainId : Word
  oracleAddress : String
  tokenAddress : String
  privateKey : String
  dbPath : String
  httpListen : String
  /-- The first block to scan if neither a cursor nor a deployment is known. -/
  startBlock : Option Word
  /-- The transaction that deployed the oracle. -/
  deployTx : Option String
  /-- How many blocks the scan stays behind the head. -/
  confirmations : Word
  gasLimit : Word
  /-- In the chain's own base units. -/
  gasPrice : Word
  /-- Whole tokens granted to the oracle at the start. -/
  allowanceTokens : Word
  rpcTimeoutSeconds : Word
  liveGraceSeconds : Word
deriving DecidableEq, Repr

namespace Config

/-- Drops `0x` from the front as often as it stands there. -/
def dropMarks : List Char → List Char
  | '0' :: 'x' :: rest => dropMarks rest
  | cs => cs

/-- A key is any number of marks and then 32 bytes in hexadecimal digits. -/
def isKeyText (s : String) : Bool :=
  (Hex.decode (dropMarks s.toList)).any fun bytes => bytes.length = 32

def oracle (c : Config) : Except ChainError Address :=
  Address.read c.oracleAddress

def token (c : Config) : Except ChainError Address :=
  Address.read c.tokenAddress

def deployTxHash (c : Config) : Except ConfigFault (Option TxHash) :=
  match c.deployTx with
  | none => .ok none
  | some value =>
    match FixedBytes.ofText 32 value with
    | .ok tx => .ok (some tx)
    | .error e => .error (.deployTxMalformed value e)

def listenAddress (c : Config) : Except ConfigFault Net.SocketAddress :=
  match Net.SocketAddress.ofText? c.httpListen with
  | some a => .ok a
  | none => .error (.listenMalformed c.httpListen)

/-- The allowance in base units. -/
def allowance (c : Config) : Nat :=
  c.allowanceTokens.toNat * Nat.pow 10 Amount.tokenDecimals

def timings (c : Config) : Agent.Timings :=
  { Agent.Timings.standard with liveGrace := c.liveGraceSeconds.toNat * 1000 }

/-- Refuses with a fault unless a condition holds. -/
def require (holds : Bool) (fault : ConfigFault) : Except AgentError Unit :=
  if holds then .ok () else .error (.configuration fault)

/-- Checks every field that can be wrong; the first one that is decides. -/
def validate (c : Config) : Except AgentError Unit := do
  require (!Text.isBlankText c.rpcUrl) .rpcUrlMissing
  require (c.chainId ≠ 0) .chainIdMissing
  require (!Text.isBlankText c.privateKey) .privateKeyMissing
  require (isKeyText c.privateKey) .privateKeyMalformed
  let _ ← c.oracle.mapError .chain
  let _ ← c.token.mapError .chain
  let _ ← c.deployTxHash.mapError .configuration
  let _ ← c.listenAddress.mapError .configuration
  require (c.gasLimit ≠ 0) .gasLimitZero

/-- The text of a value that may be missing. -/
def optionText (text : α → String) : Option α → String
  | some a => "Some(" ++ text a ++ ")"
  | none => "None"

/-- A configuration as a log shows it: without the key, and no further than the confirmations. -/
def shown (c : Config) : String :=
  let number (w : Word) : String := toString w.toNat
  let fields : List (String × String) :=
    [("rpc_url", Text.quote c.rpcUrl), ("chain_id", number c.chainId),
      ("oracle_address", Text.quote c.oracleAddress), ("token_address", Text.quote c.tokenAddress),
      ("private_key", Text.quote "<redacted>"), ("db_path", Text.quotePath c.dbPath),
      ("http_listen", Text.quote c.httpListen), ("start_block", optionText number c.startBlock),
      ("deploy_tx", optionText Text.quote c.deployTx), ("confirmations", number c.confirmations)]
  "AgentConfig \x7b " ++ String.join (fields.map fun f => f.1 ++ ": " ++ f.2 ++ ", ") ++ ".. \x7d"

end Config

end CommitReveal
