import CommitReveal.Agent.Interface
import CommitReveal.Agent.Settings

/-! Sending transactions and following them. A nonce is set aside before each sending and taken back
when the node refuses it. -/
namespace CommitReveal.Agent

/-- The node's count of transactions, if it can be read. -/
def observedCount (s : Settings) : Activity (Option Word) := do
  match ← callChain (.transactionCount s.agent) with
  | .ok count => return some count
  | .error cause =>
    notify (.nonceUnreadable cause)
    return none

def takeNonce (observed : Option Word) : Activity Word := do
  orAbort (← ask (.memory (.takeNonce observed)))

def releaseNonce (nonce : Word) : Activity Unit := do
  orAbort (← ask (.memory (.releaseNonce nonce)))

def submit (s : Settings) (what : Chain.Submission) : Activity (Except ChainError TxHash) := do
  let nonce ← takeNonce (← observedCount s)
  let answer ← callChain (.submit what nonce)
  if let .error _ := answer then
    releaseNonce nonce
  return answer

/-- Waits for a receipt, polling every `poll` milliseconds for at most `timeout`. -/
def awaitReceipt (tx : TxHash) (poll timeout : Nat) : Activity (Option TxOutcome) :=
  if poll = 0 then abort .zeroPeriod else ask (.receipt tx poll timeout)

def confirm (s : Settings) (tx : TxHash) : Activity (Option TxOutcome) :=
  awaitReceipt tx s.timings.receiptPoll s.timings.receiptTimeout

/-- Lets the oracle draw `amount` tokens, unless it may already. -/
def approveAllowance (s : Settings) (amount : Nat) : Attempt Unit := do
  let current ← chain (.tokenAllowance s.agent s.oracle)
  if amount ≤ current then
    notify (.allowanceSufficient current s.oracle)
  else
    match ← submit s (.approve s.oracle amount) with
    | .error cause => throw (.chain cause)
    | .ok tx =>
      notify (.approving amount s.oracle tx)
      match ← confirm s tx with
      | some outcome =>
        if outcome.success then notify .allowanceGranted else throw (.approvalReverted tx)
      | none => throw (.approvalUnconfirmed tx)

end CommitReveal.Agent
