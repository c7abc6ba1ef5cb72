import CommitReveal.Config.Basic
import CommitReveal.Contract.Answer
import CommitReveal.Contract.Function
import CommitReveal.Crypto.KeyText
import CommitReveal.Net.Url
import CommitReveal.Node.Record
import CommitReveal.Node.Reply
import CommitReveal.Node.Request
import CommitReveal.Node.Transaction

/-! A client of a node. Each call of the chain is one request, and the reply to it decides the call's answer:
the two are functions of the call, and what lies between them is left to whoever carries the texts. -/
namespace CommitReveal.Node

open Chain (Call Submission)
open Contract (Function)
open Secp256k1 (SigningKey)

structure Client where
  url : Net.Url
  key : SigningKey
  address : Address
  oracle : Address
  token : Address
  chain : Word
  gasLimit : Word
  gasPrice : Word
deriving DecidableEq, Repr

/-- Why a request cannot be made. -/
inductive Obstacle where
  | fault (f : Fault)
  /-- No signature was found. -/
  | unsigned
deriving DecidableEq, Repr

namespace Client

/-- Checks what a configuration says about the node, the key and the contracts, in this order. -/
def connect (c : Config) : Except ChainError Client := do
  let url ← (Net.Url.read c.rpcUrl).mapError fun e =>
    .configuration ("Invalid RPC url " ++ c.rpcUrl ++ ": " ++ e.message)
  let key ← (SigningKey.ofText c.privateKey).mapError fun e => .signer e.message
  return {
    url, key
    address := key.address
    oracle := ← c.oracle
    token := ← c.token
    chain := c.chainId
    gasLimit := c.gasLimit
    gasPrice := c.gasPrice }

/-- Numbers are written with as few digits as they need. -/
def numberText (n : Nat) : String :=
  "0x" ++ String.ofList (Nat.toDigits 16 n)

def bytesText (b : Bytes) : String :=
  "0x" ++ Hex.encode b

/-- A contract's function and its arguments, as the data of a call. -/
structure Invocation where
  contract : Address
  function : Function
  arguments : List Hash
deriving DecidableEq, Repr

def Invocation.data (i : Invocation) : Bytes :=
  i.function.encode i.arguments

/-- What a submission asks of which contract. -/
def invocation (c : Client) : Submission → Invocation
  | .commit hash => ⟨c.oracle, .commit, [hash]⟩
  | .reveal hash seed => ⟨c.oracle, .reveal, [hash, seed]⟩
  | .approve spender amount => ⟨c.token, .approve, [spender.toWord, .ofNat 32 amount]⟩

def transaction (c : Client) (what : Submission) (nonce : Word) : Transaction :=
  let i := c.invocation what
  ⟨nonce, c.gasPrice, c.gasLimit, i.contract, i.data⟩

/-- A signed transaction as it is sent. -/
def signed (c : Client) (t : Transaction) : Except Obstacle Bytes :=
  match c.key.sign (t.signingHash c.chain) with
  | none => .error .unsigned
  | some signature => (t.signed c.chain signature).mapError .fault

/-- The state after the last block. -/
def latest : Json.Value := .string "latest"

/-- Asks what a function would answer. -/
def query (c : Client) (i : Invocation) : Request where
  method := "eth_call"
  params := some
    [.object [("accessList", .list []), ("data", .string (bytesText i.data)),
      ("from", .string c.address.text), ("to", .string i.contract.text), ("type", .string "0x02")],
      latest]

/-- The request that a call makes. -/
def request (c : Client) : Call → Except Obstacle Request
  | .blockNumber => .ok ⟨"eth_blockNumber", none⟩
  | .filterLogs first last => .ok ⟨"eth_getLogs", some
      [.object [("address", .string c.oracle.text), ("fromBlock", .string (numberText first.toNat)),
        ("toBlock", .string (numberText last.toNat)), ("topics", .list [])]]⟩
  | .transactionCount owner => .ok ⟨"eth_getTransactionCount", some [.string owner.text, latest]⟩
  | .transactionReceipt tx => .ok ⟨"eth_getTransactionReceipt", some [.string tx.text]⟩
  | .blockOfTransaction tx => .ok ⟨"eth_getTransactionByHash", some [.string tx.text]⟩
  | .computeCommitHash seed => .ok (c.query ⟨c.oracle, .getHash, [seed]⟩)
  | .tokenAllowance owner spender =>
    .ok (c.query ⟨c.token, .allowance, [owner.toWord, spender.toWord]⟩)
  | .listUnverified owner => .ok (c.query ⟨c.oracle, .getUserUnverifiedList, [owner.toWord]⟩)
  | .submit what nonce => do
    let raw ← c.signed (c.transaction what nonce)
    return ⟨"eth_sendRawTransaction", some [.string (bytesText raw)]⟩

/-- What is said of a reply that cannot be read. -/
def unreadable (body : String) : String :=
  "Deserialization Error: unexpected reply. Response: " ++ body

/-- A failure in asking a contract's function. -/
def contractError (f : Function) (reason : String) : ChainError :=
  .contract (f.name ++ ": " ++ reason)

/-- Reads a reply about the chain itself. -/
def fromChain (read : Reading α) (body : String) : Except ChainError α :=
  match Reply.read body with
  | none => .error (.provider (unreadable body))
  | some (.refused r) => .error (.provider r.text)
  | some (.result v) =>
    match read v with
    | none => .error (.provider (unreadable body))
    | some a => .ok a

/-- Reads a reply about a contract's function. -/
def fromContract (f : Function) (read : Reading α) (body : String) : Except ChainError α :=
  match Reply.read body with
  | none => .error (contractError f (unreadable body))
  | some (.refused r) =>
    if r.isRevert then
      .error (contractError f ("Contract call reverted with data: " ++ bytesText r.revertData))
    else
      .error (contractError f r.text)
  | some (.result v) =>
    match read v with
    | none => .error (contractError f (unreadable body))
    | some a => .ok a

/-- Reads what a function answered. -/
def answered (f : Function) (decode : Bytes → Except Contract.AnswerFault α) (body : String) :
    Except ChainError α := do
  let data ← fromContract f Reading.bytes body
  (decode data).mapError fun e => contractError f e.message

/-- The answer to a call, from the reply to its request. -/
def answer (c : Client) : (call : Call) → (body : String) → Except ChainError call.Result
  | .blockNumber, body => fromChain Reading.word body
  | .filterLogs _ _, body => fromChain (Reading.list eventLog) body
  | .transactionCount _, body => UInt64.ofNat <$> fromChain Reading.amount body
  | .transactionReceipt _, body => fromChain (Reading.optional receipt) body
  | .blockOfTransaction _, body => Option.join <$> fromChain (Reading.optional transactionBlock) body
  | .computeCommitHash _, body => answered .getHash Contract.Answer.hash body
  | .tokenAllowance _ _, body => answered .allowance Contract.Answer.amount body
  | .listUnverified _, body => answered .getUserUnverifiedList Contract.Answer.recordList body
  | .submit what _, body => fromContract (c.invocation what).function (Reading.fixed 32) body

/-- The failure of a call whose request was not replied to. -/
def unreached (c : Client) (reason : String) : Call → ChainError
  | .computeCommitHash _ => contractError .getHash reason
  | .tokenAllowance _ _ => contractError .allowance reason
  | .listUnverified _ => contractError .getUserUnverifiedList reason
  | .submit what _ => contractError (c.invocation what).function reason
  | .blockNumber | .filterLogs _ _ | .transactionCount _ | .transactionReceipt _
  | .blockOfTransaction _ => .provider reason

/-- What a call comes to, given what its request has brought: a reply, or the reason for none. -/
def conclude (c : Client) (call : Call) : Except String String → Except ChainError call.Result
  | .ok body => c.answer call body
  | .error reason => .error (c.unreached reason call)

/-- Makes a call through a carrier of requests. -/
def perform [Monad m] (c : Client) (carry : Request → m (Except String String)) (call : Call) :
    m (Except Fault (Except ChainError call.Result)) :=
  match c.request call with
  | .ok r => return .ok (c.conclude call (← carry r))
  | .error (.fault f) => return .error f
  | .error .unsigned => return .ok (.error (.signer "signature error"))

end Client

end CommitReveal.Node
