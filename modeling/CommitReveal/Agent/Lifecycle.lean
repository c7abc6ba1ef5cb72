import CommitReveal.Agent.Routine

/-! From start to stop. The allowance is granted first, reveals owed from an earlier run are queued
before any new commit, and stopping waits for every task. -/
namespace CommitReveal.Agent

/-- Grants the allowance; without it the agent does not start. -/
def prepare (s : Settings) (allowance : Nat) : Attempt Unit :=
  ExceptT.mk do
    let answer ← (approveAllowance s allowance).run
    return answer.mapError .approvalFailed

def spawnAll : List Routine → Activity (List Nat)
  | [] => return []
  | r :: rest => do
    let task ← ask (.spawn r)
    return task :: (← spawnAll rest)

/-- The tasks of a running agent. -/
def routines (cursor : Word) (confirmations : Word) : List Routine :=
  [.scan (.start cursor [.revealTrigger] confirmations) false, .revealWorker false,
    .commitTimer none, .reconcileTimer none]

/-- Starts the tasks and names them. -/
def start (s : Settings) (b : Bootstrap) (confirmations : Word) : Attempt (List Nat) := do
  let cursor ← resolveCursor b
  reconcileTick s
  let tasks ← spawnAll (routines cursor confirmations)
  notify (.agentStarted s.agent cursor)
  return tasks

def joinAll : List Nat → Activity Unit
  | [] => pure ()
  | task :: rest => do
    ask (.join task)
    joinAll rest

def shutdown (tasks : List Nat) : Activity Unit := do
  notify .shuttingDown
  ask .cancel
  joinAll tasks
  notify .agentStopped

end CommitReveal.Agent
