import CommitReveal.Agent.Reveal

/-! From logs to reveals. A log is decoded once; the agent's own events, and those that name nobody,
go to every handler in turn, and a handler that fails does not stop the next. -/
namespace CommitReveal.Agent

/-- A consumer waits for a hash: its reveal is queued if it is still owed. -/
def onSubscribed (consumer : Address) (hash : Hash) : Attempt Unit := do
  let seed ← repository (Repository.seed hash)
  if seed.isSome then
    if ← repository (Repository.isPending hash) then
      notify (.subscriptionQueued consumer hash)
      requestReveal hash

/-- A commit is on chain: old ones are queued at once, fresh ones after the grace delay. -/
def onCommitRegistered (hash : Hash) (block : Word) (mode : ScanMode) : Attempt Unit := do
  let seed ← repository (Repository.seed hash)
  if seed.isSome then
    repository (Repository.setCommitBlock hash block)
    if ← repository (Repository.isPending hash) then
      let status ← repository (Repository.status hash)
      if status = some .committed then
        discard <| repository (Repository.setStatus hash .pendingReveal)
      match mode with
      | .backfill => requestReveal hash
      | .live => discard <| ask (.spawn (.delayedReveal hash))

def triggerReveal (event : OracleEvent) (mode : ScanMode) : Attempt Unit :=
  match event with
  | .subscribed _ consumer hash => onSubscribed consumer hash
  | .commitRegistered _ hash block => onCommitRegistered hash block mode
  | .seedRevealed _ hash seed => repository (Repository.markRevealed hash (some seed))
  | .unsubscribed _ _ | .randomConsumed _ _ => pure ()

def handle (handler : Handler) (event : OracleEvent) (mode : ScanMode) :
    Activity (Except AgentError Unit) :=
  match handler with
  | .revealTrigger => (triggerReveal event mode).run
  | .outside name => ask (.deliver name event mode)

def handleAll (event : OracleEvent) (mode : ScanMode) : List Handler → Activity Unit
  | [] => pure ()
  | handler :: rest => do
    if let .error cause := ← handle handler event mode then
      notify (.handlerFailed handler.name event.kind cause)
    handleAll event mode rest

/-- Whether the agent's handlers are told about an event. -/
def concerns (agent : Address) (event : OracleEvent) : Bool :=
  event.owner.all fun owner => owner = agent

def dispatch (agent : Address) (handlers : List Handler) (log : EventLog) (mode : ScanMode) :
    Activity DispatchOutcome :=
  match OracleEvent.ofLog? log.topics log.data with
  | none => return .undecodable
  | some event =>
    if concerns agent event then do
      handleAll event mode handlers
      return .dispatched
    else return .foreign

end CommitReveal.Agent
