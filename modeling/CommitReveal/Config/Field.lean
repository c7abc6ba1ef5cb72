import CommitReveal.Json.Reader

/-! The fields of a configuration file: their names, and what each of them may hold. -/
namespace CommitReveal.Config

inductive Field where
  | rpcUrl
  | chainId
  | oracleAddress
  | tokenAddress
  | privateKey
  | dbPath
  | httpListen
  | startBlock
  | deployTx
  | confirmations
  | gasLimit
  | gasPrice
  | allowanceTokens
  | rpcTimeout
  | liveGrace
deriving DecidableEq, Repr

/-- In the order in which a list holds them. -/
def Field.all : List Field :=
  [.rpcUrl, .chainId, .oracleAddress, .tokenAddress, .privateKey, .dbPath, .httpListen, .startBlock,
    .deployTx, .confirmations, .gasLimit, .gasPrice, .allowanceTokens, .rpcTimeout, .liveGrace]

def Field.name : Field → String
  | .rpcUrl => "rpc_url"
  | .chainId => "chain_id"
  | .oracleAddress => "oracle_address"
  | .tokenAddress => "token_address"
  | .privateKey => "private_key"
  | .dbPath => "db_path"
  | .httpListen => "http_listen"
  | .startBlock => "start_block"
  | .deployTx => "deploy_tx"
  | .confirmations => "confirmations"
  | .gasLimit => "gas_limit"
  | .gasPrice => "gas_price_wei"
  | .allowanceTokens => "allowance_tokens"
  | .rpcTimeout => "rpc_timeout_secs"
  | .liveGrace => "live_reveal_grace_secs"

def Field.ofName? (name : String) : Option Field :=
  Field.all.find? fun f => f.name == name

/-- Whether a file must give a value. -/
def Field.isRequired : Field → Bool
  | .rpcUrl | .chainId | .oracleAddress | .tokenAddress => true
  | _ => false

/-- What a field was given. -/
inductive Value where
  | text (value : String)
  | word (value : Word)
  | none
deriving DecidableEq, Repr

def readTextValue (wanted : String) (s : List Char) : Except Json.Fault (Value × List Char) := do
  let (value, s) ← Json.readString wanted s
  return (.text value, s)

def readWordValue (s : List Char) : Except Json.Fault (Value × List Char) := do
  let (value, s) ← Json.readWord64 "u64" s
  return (.word value, s)

def readOptionalValue (read : List Char → Except Json.Fault (Value × List Char)) (s : List Char) :
    Except Json.Fault (Value × List Char) := do
  let (value, s) ← Json.readOptional read s
  return (value.getD .none, s)

/-- Reads a value of the kind that a field holds. -/
def Field.read : Field → List Char → Except Json.Fault (Value × List Char)
  | .rpcUrl | .oracleAddress | .tokenAddress | .privateKey | .httpListen => readTextValue "a string"
  | .dbPath => readTextValue "path string"
  | .deployTx => readOptionalValue (readTextValue "a string")
  | .startBlock => readOptionalValue readWordValue
  | .chainId | .confirmations | .gasLimit | .gasPrice | .allowanceTokens | .rpcTimeout | .liveGrace =>
    readWordValue

end CommitReveal.Config
