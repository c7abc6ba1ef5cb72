import CommitReveal.Agent.Sending

/-! Revealing seeds. Requests go through the bounded queue to one worker; a hash that finds no room or
whose reveal does not succeed is put off to the next reconcile pass. -/
namespace CommitReveal.Agent

def defer (hashes : List Hash) : Activity Unit :=
  ask (.memory (.defer hashes))

def requestReveal (hash : Hash) : Activity Unit := do
  match ← ask (.memory (.enqueue hash)) with
  | .queued => pure ()
  | .full =>
    notify (.queueFull hash)
    defer [hash]
  | .closed =>
    notify (.queueClosed hash)
    defer [hash]

/-- How one reveal ended. -/
inductive RevealOutcome where
  | revealed
  /-- There was nothing to do. -/
  | skipped
  /-- It is to be tried again. -/
  | retry
deriving DecidableEq, Repr

def settleReveal (hash : Hash) (seed : Seed) : Option TxOutcome → Attempt RevealOutcome
  | some ⟨_, true⟩ => do
    repository (Repository.markRevealed hash (some seed))
    notify (.revealed hash)
    return .revealed
  | some ⟨_, false⟩ => do
    notify (.revealReverted hash)
    return .retry
  | none => do
    notify (.revealUnconfirmed hash)
    return .retry

def submitReveal (s : Settings) (hash : Hash) (seed : Seed) : Attempt RevealOutcome := do
  match ← submit s (.reveal hash seed) with
  | .error cause =>
    notify (.revealRefused hash cause)
    return .retry
  | .ok tx =>
    notify (.revealing hash tx)
    settleReveal hash seed (← confirm s tx)

/-- Publishes the stored seed of a hash, unless its status is final. -/
def reveal (s : Settings) (hash : Hash) : Attempt RevealOutcome := do
  let status ← repository (Repository.status hash)
  if status = some .revealed then
    repository (Repository.clearPending hash)
    return .skipped
  else if status.any Status.isTerminal then
    return .skipped
  else
    match ← repository (Repository.seed hash) with
    | none =>
      notify (.seedMissing hash)
      return .skipped
    | some seed => submitReveal s hash seed

/-- What the worker does with one hash. -/
def processReveal (s : Settings) (hash : Hash) : Activity Unit := do
  match ← (reveal s hash).run with
  | .ok .revealed | .ok .skipped => pure ()
  | .ok .retry => defer [hash]
  | .error cause =>
    notify (.revealFailed hash cause)
    defer [hash]

end CommitReveal.Agent
