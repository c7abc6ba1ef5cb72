import CommitReveal.Chain.Call
import CommitReveal.Node.Reading

/-! Logs, receipts and transactions as nodes tell of them. Of each record only a part is kept, but it counts
only if all of its known fields are well formed. -/
namespace CommitReveal.Node

open Reading

/-- The fields of a log, in the order in which a list holds them. -/
def logFields : List String :=
  ["address", "topics", "data", "blockHash", "blockNumber", "transactionHash", "transactionIndex",
    "logIndex", "transactionLogIndex", "logType", "removed"]

def eventLog : Reading EventLog := fun v => do
  let fs ← Fields.ofEither logFields v
  fs.mayHaveAll ["blockHash", "transactionHash"] (fixed 32)
  fs.mayHaveAll ["transactionIndex"] word
  fs.mayHaveAll ["transactionLogIndex"] amount
  fs.mayHaveAll ["logType"] text
  fs.mayHaveAll ["removed"] flag
  return {
    address := ← fs.need "address" (fixed 20)
    topics := ← fs.need "topics" (list (fixed 32))
    data := ← fs.need "data" bytes
    block := ← fs.mayHave "blockNumber" word
    index := ← fs.mayHave "logIndex" amount }

/-- The length of the filter over a receipt's logs. -/
def bloomLength : Nat := 256

def receipt : Reading TxOutcome := fun v => do
  let fs ← Fields.ofObject v
  fs.needAll ["transactionHash"] (fixed 32)
  fs.needAll ["transactionIndex"] word
  fs.mayHaveAll ["blockHash", "root"] (fixed 32)
  fs.needAll ["from"] (fixed 20)
  fs.mayHaveAll ["to", "contractAddress"] (fixed 20)
  fs.needAll ["cumulativeGasUsed"] amount
  fs.mayHaveAll ["gasUsed", "effectiveGasPrice"] amount
  fs.needAll ["logs"] (list eventLog)
  fs.needAll ["logsBloom"] (fixed bloomLength)
  fs.mayHaveAll ["type"] word
  let block ← fs.mayHave "blockNumber" word
  let status ← fs.mayHave "status" word
  return { block, success := status = some 1 }

/-- A contract and the places in its storage that a transaction announces. -/
def accessItem : Reading Unit := fun v => do
  let fs ← Fields.ofEither ["address", "storageKeys"] v
  fs.needAll ["address"] (fixed 20)
  fs.needAll ["storageKeys"] (list (fixed 32))

/-- The block of a transaction, if it is mined. -/
def transactionBlock : Reading (Option Word) := fun v => do
  let fs ← Fields.ofObject v
  fs.needAll ["hash"] (fixed 32)
  fs.mayHaveAll ["blockHash"] (fixed 32)
  fs.mayHaveAll ["transactionIndex", "type"] word
  let _ ← fs.ifAny "from" (fixed 20)
  fs.mayHaveAll ["to"] (fixed 20)
  fs.needAll ["nonce", "value", "gas", "r", "s"] amount
  fs.needAll ["v"] word
  fs.mayHaveAll ["gasPrice", "maxPriorityFeePerGas", "maxFeePerGas", "chainId"] amount
  fs.needAll ["input"] bytes
  fs.mayHaveAll ["accessList"] (list accessItem)
  fs.mayHave "blockNumber" word

end CommitReveal.Node
