import CommitReveal.Agent.Reveal

/-! Comparing the owed reveals with the oracle's own list. Hashes that it has as revealed are noted as
such, hashes past their time expire, hashes it does not list are left alone, the rest is queued. -/
namespace CommitReveal.Agent

/-- Whether a commitment of `block` may no longer be revealed at `head`. -/
def isExpired (block head maxUnverified : Word) : Bool :=
  Word.saturatingAdd block maxUnverified ≤ head

/-- The record listed for a hash; of several the last counts. -/
def listed? (records : List OracleRecord) (hash : Hash) : Option OracleRecord :=
  (records.filter fun r => r.hash = hash).getLast?

/-- Notes what the oracle says of a hash, and tells whether its reveal is still owed. -/
def reconcileListed (s : Settings) (head : Word) (hash : Hash) (r : OracleRecord) : Attempt Bool := do
  if r.revealed then
    let seed := if r.seed = .zero 32 then none else some r.seed
    repository (Repository.markRevealed hash seed)
    return false
  else
    repository (Repository.setCommitBlock hash r.commitBlock)
    if isExpired r.commitBlock head s.limits.maxUnverified then
      notify (.expired hash r.commitBlock head)
      repository (Repository.markExpired hash)
      return false
    else
      return true

def reconcileOne (s : Settings) (records : List OracleRecord) (head : Word) (hash : Hash) :
    Attempt Bool :=
  match listed? records hash with
  | none => return false
  | some r => reconcileListed s head hash r

def reconcileAll (s : Settings) (records : List OracleRecord) (head : Word) :
    List Hash → Attempt (List Hash)
  | [] => return []
  | hash :: rest => do
    let owed ← reconcileOne s records head hash
    let work ← reconcileAll s records head rest
    return if owed then hash :: work else work

/-- The candidates whose reveal is still owed, each once, in their order. -/
def reconcile (s : Settings) (candidates : List Hash) : Attempt (List Hash) := do
  let records ← chain (.listUnverified s.agent)
  let head ← chain .blockNumber
  reconcileAll s records head candidates.eraseDups

def requestReveals : List Hash → Activity Unit
  | [] => pure ()
  | hash :: rest => do
    requestReveal hash
    requestReveals rest

/-- The stored pending set, or nothing when it cannot be read. -/
def storedPending : Activity (List Hash) := do
  match ← callRepository Repository.pendingHashes with
  | .ok hashes => return hashes
  | .error cause =>
    notify (.pendingUnreadable cause)
    return []

/-- Reconciles the pending set and the hashes put off, and queues what is left. If that fails, the
hashes put off are put off again. -/
def reconcileTick (s : Settings) : Activity Unit := do
  let stored ← storedPending
  let deferred ← ask (.memory .takeDeferred)
  let candidates := stored ++ deferred
  if candidates.isEmpty then
    return
  match ← (reconcile s candidates).run with
  | .ok work =>
    if !work.isEmpty then
      notify (.reconcileQueued work.length)
    requestReveals work
  | .error cause =>
    notify (.reconcileFailed cause)
    defer deferred

end CommitReveal.Agent
