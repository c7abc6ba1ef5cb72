import CommitReveal.Agent.Sending

/-! Issuing commitments: draw a seed, store it, and only then make its hash public. -/
namespace CommitReveal.Agent

/-- A seed nobody can guess: the hash of the agent's address and random bytes. -/
def seedOf (agent : Address) (entropy : Hash) : Seed :=
  Keccak.hash (agent.bytes ++ entropy.bytes)

def freshSeed (s : Settings) : Activity Seed := do
  return seedOf s.agent (← ask .entropy)

/-- Notes how a sent commit ended. The hash is given back unless the commit reverted. -/
def settleCommit (hash : Hash) : Option TxOutcome → Attempt (Option Hash)
  | some ⟨block, true⟩ => do
    match block with
    | some b => repository (Repository.setCommitBlock hash b)
    | none => pure ()
    discard <| repository (Repository.setStatus hash .pendingReveal)
    return some hash
  | some ⟨_, false⟩ => do
    notify (.commitReverted hash)
    repository (Repository.markAbandoned hash)
    return none
  | none => do
    notify (.commitUnconfirmed hash)
    discard <| repository (Repository.setStatus hash .pendingReveal)
    return some hash

/-- Commits to a fresh seed. The hash is given back unless the commit was refused or reverted. -/
def issueCommit (s : Settings) : Attempt (Option Hash) := do
  let seed ← freshSeed s
  let hash ← chain (.computeCommitHash seed)
  repository (Repository.storeSeed hash seed)
  discard <| repository (Repository.markPending hash)
  match ← submit s (.commit hash) with
  | .error cause =>
    notify (.commitRefused hash cause)
    repository (Repository.markAbandoned hash)
    return none
  | .ok tx =>
    repository (Repository.storeTx hash tx)
    discard <| repository (Repository.setStatus hash .committed)
    notify (.committed hash tx)
    settleCommit hash (← confirm s tx)

/-- Issues a commit unless the reveal queue is backed up. -/
def commitTick (s : Settings) : Activity Unit := do
  let depth ← ask (.memory .queueDepth)
  if depth < s.limits.backpressure then
    if let .error cause := ← (issueCommit s).run then
      notify (.commitFailed cause)

end CommitReveal.Agent
