import CommitReveal.Chain.Call
import CommitReveal.Keccak

/-! A chain in memory, for trying the agent out. It mines what it is sent as told, keeps the oracle's
list of unverified commitments, and can be made to fail or to answer receipt polls from a script. -/
namespace CommitReveal.Simulation

/-- How a sent transaction is mined. -/
inductive Mining where
  | success
  | revert
  /-- Never. -/
  | pending
deriving DecidableEq, Repr

/-- The kinds of chain call, as far as failures are planned by kind. -/
inductive Method where
  | blockNumber | filterLogs | transactionCount | transactionReceipt | blockOfTransaction
  | computeCommitHash | sendCommit | sendReveal | tokenAllowance | sendApprove | listUnverified
deriving DecidableEq, Repr

def Method.name : Method → String
  | .blockNumber => "block_number"
  | .filterLogs => "filter_logs"
  | .transactionCount => "transaction_count"
  | .transactionReceipt => "transaction_receipt"
  | .blockOfTransaction => "block_of_transaction"
  | .computeCommitHash => "compute_commit_hash"
  | .sendCommit => "send_commit"
  | .sendReveal => "send_reveal"
  | .tokenAllowance => "token_allowance"
  | .sendApprove => "send_approve"
  | .listUnverified => "list_unverified_commitments"

def Method.all : List Method :=
  [.blockNumber, .filterLogs, .transactionCount, .transactionReceipt, .blockOfTransaction,
    .computeCommitHash, .sendCommit, .sendReveal, .tokenAllowance, .sendApprove, .listUnverified]

def Method.ofName? (name : String) : Option Method :=
  Method.all.find? fun m => m.name = name

def Method.ofCall : Chain.Call → Method
  | .blockNumber => .blockNumber
  | .filterLogs _ _ => .filterLogs
  | .transactionCount _ => .transactionCount
  | .transactionReceipt _ => .transactionReceipt
  | .blockOfTransaction _ => .blockOfTransaction
  | .computeCommitHash _ => .computeCommitHash
  | .tokenAllowance _ _ => .tokenAllowance
  | .submit (.commit _) _ => .sendCommit
  | .submit (.reveal _ _) _ => .sendReveal
  | .submit (.approve _ _) _ => .sendApprove
  | .listUnverified _ => .listUnverified

/-- Which part of the chain is made to fail. -/
inductive FailureKind where
  | provider | rpc | contract | signer | decode | configuration
deriving DecidableEq, Repr

def FailureKind.error (kind : FailureKind) (reason : String) : ChainError :=
  match kind with
  | .provider => .provider ("custom error: " ++ reason)
  | .rpc => .rpc reason
  | .contract => .contract reason
  | .signer => .signer reason
  | .decode => .decode reason
  | .configuration => .configuration reason

/-- The next calls of one kind fail. -/
structure Failure where
  method : Method
  count : Nat
  kind : FailureKind
deriving DecidableEq, Repr

/-- A scripted answer to a receipt poll. -/
inductive Poll where
  | unmined
  | failed (reason : String)
  | mined (outcome : TxOutcome)
deriving DecidableEq, Repr

structure ScriptedChain where
  agent : Address
  head : Word
  headFailures : Nat
  logs : List EventLog
  filterFailures : Nat
  nonce : Word
  sent : Nat
  receipts : List (TxHash × TxOutcome)
  txBlocks : List (TxHash × Word)
  commitMining : Mining
  revealMining : Mining
  refusing : Bool
  allowance : Nat
  unverified : List OracleRecord
  /-- What was sent and accepted, with its nonce. -/
  accepted : List (Chain.Submission × Word)
  filtered : List (Word × Word)
  failures : List Failure
  scripts : List (TxHash × List Poll)

namespace ScriptedChain

def start (agent : Address) (head : Word) : ScriptedChain where
  agent
  head
  headFailures := 0
  logs := []
  filterFailures := 0
  nonce := 0
  sent := 0
  receipts := []
  txBlocks := []
  commitMining := .success
  revealMining := .success
  refusing := false
  allowance := 0
  unverified := []
  accepted := []
  filtered := []
  failures := []
  scripts := []

/-- The address of the oracle. -/
def oracle : Address :=
  .ofNat 20 0x0a

/-- A new failure plan replaces the old one of its method. -/
def planFailure (c : ScriptedChain) (f : Failure) : ScriptedChain :=
  { c with failures := f :: c.failures.filter fun g => g.method ≠ f.method }

def script (c : ScriptedChain) (tx : TxHash) (polls : List Poll) : ScriptedChain :=
  { c with scripts := (tx, polls) :: c.scripts.filter fun s => s.1 ≠ tx }

/-- The planned failure of a call, if one is left. -/
def fail (c : ScriptedChain) (method : Method) : Option ChainError × ScriptedChain :=
  match c.failures.find? fun f => f.method = method && 0 < f.count with
  | some f =>
    (some (f.kind.error (method.name ++ " down")), c.planFailure { f with count := f.count - 1 })
  | none => (none, c)

/-- The next scripted answer about a transaction, if one is left. -/
def nextPoll (c : ScriptedChain) (tx : TxHash) : Option Poll × ScriptedChain :=
  match c.scripts.find? fun s => s.1 = tx with
  | some (_, poll :: rest) => (some poll, c.script tx rest)
  | _ => (none, c)

def blockNumber (c : ScriptedChain) : Except ChainError Word × ScriptedChain :=
  if 0 < c.headFailures then
    (.error (.rpc "head unavailable"), { c with headFailures := c.headFailures - 1 })
  else (.ok c.head, c)

/-- A log without a block counts as one of block 0. -/
def logsBetween (c : ScriptedChain) (first last : Word) : List EventLog :=
  c.logs.filter fun log =>
    let block := log.block.getD 0
    first ≤ block && block ≤ last

def filterLogs (c : ScriptedChain) (first last : Word) : Except ChainError (List EventLog) × ScriptedChain :=
  let c := { c with filtered := c.filtered ++ [(first, last)] }
  if 0 < c.filterFailures then
    (.error (.rpc "filter failed"), { c with filterFailures := c.filterFailures - 1 })
  else (.ok (c.logsBetween first last), c)

def receiptOf (c : ScriptedChain) (tx : TxHash) : Option TxOutcome :=
  (c.receipts.find? fun r => r.1 = tx).map (·.2)

def transactionReceipt (c : ScriptedChain) (tx : TxHash) : Except ChainError (Option TxOutcome) × ScriptedChain :=
  match c.nextPoll tx with
  | (some .unmined, c) => (.ok none, c)
  | (some (.failed reason), c) => (.error (.rpc reason), c)
  | (some (.mined outcome), c) => (.ok (some outcome), c)
  | (none, c) => (.ok (c.receiptOf tx), c)

/-- Numbers a transaction and mines it as told. -/
def mine (c : ScriptedChain) (mining : Mining) : TxHash × ScriptedChain :=
  let tx := FixedBytes.ofNat 32 (c.sent + 1)
  let c := { c with sent := c.sent + 1 }
  if mining = .pending then (tx, c)
  else (tx, { c with
    nonce := c.nonce + 1
    receipts := (tx, ⟨some c.head, mining = .success⟩) :: c.receipts })

/-- The oracle's record of a fresh commitment. -/
def freshRecord (c : ScriptedChain) (hash : Hash) (block : Word) : OracleRecord :=
  ⟨hash, c.agent, block, .zero 32, false, 0, .zero 20, .zero 20, 0, 0⟩

def carryOut (c : ScriptedChain) : Chain.Submission → TxHash × ScriptedChain
  | .commit hash =>
    let (tx, c) := c.mine c.commitMining
    if c.commitMining = .success then
      (tx, { c with unverified := c.unverified ++ [c.freshRecord hash c.head] })
    else (tx, c)
  | .reveal hash _ =>
    let (tx, c) := c.mine c.revealMining
    if c.revealMining = .success then
      (tx, { c with unverified := c.unverified.filter fun r => r.hash ≠ hash })
    else (tx, c)
  | .approve _ amount => { c with allowance := amount }.mine .success

def submit (c : ScriptedChain) (what : Chain.Submission) (nonce : Word) : Except ChainError TxHash × ScriptedChain :=
  if c.refusing then (.error (.rpc "send rejected"), c)
  else
    let (tx, c) := { c with accepted := c.accepted ++ [(what, nonce)] }.carryOut what
    (.ok tx, c)

/-- The answer to a call when no failure is planned for it. -/
def answer : (call : Chain.Call) → ScriptedChain → Except ChainError call.Result × ScriptedChain
  | .blockNumber, c => c.blockNumber
  | .filterLogs first last, c => c.filterLogs first last
  | .transactionCount _, c => (.ok c.nonce, c)
  | .transactionReceipt tx, c => c.transactionReceipt tx
  | .blockOfTransaction tx, c => (.ok ((c.txBlocks.find? fun b => b.1 = tx).map (·.2)), c)
  | .computeCommitHash seed, c => (.ok (Keccak.hash seed.bytes), c)
  | .tokenAllowance _ _, c => (.ok c.allowance, c)
  | .submit what nonce, c => c.submit what nonce
  | .listUnverified owner, c => (.ok (c.unverified.filter fun r => r.committer = owner), c)

def perform (call : Chain.Call) (c : ScriptedChain) : Except ChainError call.Result × ScriptedChain :=
  match c.fail (.ofCall call) with
  | (some error, c) => (.error error, c)
  | (none, c) => answer call c

end ScriptedChain

end CommitReveal.Simulation
