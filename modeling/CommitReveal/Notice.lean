import CommitReveal.Agent.Error
import CommitReveal.Amount
import CommitReveal.Duration
import CommitReveal.Oracle.Event
import CommitReveal.Scan.Stats

/-! What the agent reports while it runs: each notice has a level and one line of text. -/
namespace CommitReveal

inductive Notice where
  | allowanceSufficient (allowance : Nat) (oracle : Address)
  | approving (amount : Nat) (oracle : Address) (tx : TxHash)
  | allowanceGranted
  | committed (hash : Hash) (tx : TxHash)
  | commitReverted (hash : Hash)
  | commitUnconfirmed (hash : Hash)
  | commitRefused (hash : Hash) (cause : ChainError)
  | commitFailed (cause : AgentError)
  | queueFull (hash : Hash)
  | queueClosed (hash : Hash)
  | expired (hash : Hash) (block head : Word)
  | seedMissing (hash : Hash)
  | revealing (hash : Hash) (tx : TxHash)
  | revealed (hash : Hash)
  | revealReverted (hash : Hash)
  | revealUnconfirmed (hash : Hash)
  | revealRefused (hash : Hash) (cause : ChainError)
  | revealFailed (hash : Hash) (cause : AgentError)
  | pendingUnreadable (cause : Store.StoreError)
  | reconcileQueued (count : Nat)
  | reconcileFailed (cause : AgentError)
  | workerAlreadyRunning
  | nonceUnreadable (cause : ChainError)
  | subscriptionQueued (consumer : Address) (hash : Hash)
  | handlerFailed (handler : String) (event : OracleEvent.Kind) (cause : AgentError)
  | scanResumed (block : Word)
  | scanFromDeployment (block : Word)
  | deploymentNotFound (tx : TxHash)
  | scanFrom (block : Word)
  | syncStarted (block : Word)
  | headUnreadable (cause : ChainError)
  | fetchFailed (first last : Word) (wait : Duration) (cause : ChainError)
  | cursorNotPersisted (block : Word) (cause : Store.StoreError)
  | cursorAdvanced (block : Word)
  | gap (before after : Word)
  | progress (highest : Word) (dispatched foreign : Nat)
  | scanSummary (stats : ScanStats)
  | agentStarted (agent : Address) (block : Word)
  | shuttingDown
  | agentStopped
  | seedLookupFailed (cause : Store.StoreError)
  | httpListening (address : String)
  | configurationLoaded (path : String)
  | storeOpened (path : String)
  | signing (agent oracle : Address)
  | interrupted
  | agentFailed (cause : AgentError)
deriving DecidableEq, Repr

namespace Notice

inductive Level where
  | info | warn | error
deriving DecidableEq, Repr

def Level.text : Level → String
  | .info => "INFO"
  | .warn => "WARN"
  | .error => "ERROR"

def level : Notice → Level
  | commitRefused .. | commitFailed .. | seedMissing .. | revealFailed .. | pendingUnreadable ..
  | workerAlreadyRunning | handlerFailed .. | cursorNotPersisted .. | agentFailed .. => .error
  | commitReverted .. | commitUnconfirmed .. | queueFull .. | queueClosed .. | revealReverted ..
  | revealUnconfirmed .. | revealRefused .. | reconcileFailed .. | nonceUnreadable ..
  | deploymentNotFound .. | headUnreadable .. | fetchFailed .. | gap .. | seedLookupFailed .. => .warn
  | _ => .info

def text : Notice → String
  | allowanceSufficient allowance oracle =>
    "Token allowance of " ++ Amount.tokenText allowance ++ " already granted to oracle " ++ oracle.text
  | approving amount oracle tx =>
    "Approving " ++ Amount.tokenText amount ++ " tokens to oracle " ++ oracle.text ++ " in " ++ tx.text
  | allowanceGranted => "Token allowance granted"
  | committed hash tx => "Committed " ++ hash.short ++ " in " ++ tx.text
  | commitReverted hash => "Commit " ++ hash.short ++ " reverted, abandoning"
  | commitUnconfirmed hash => "No receipt for commit " ++ hash.short ++ " yet, keeping it pending"
  | commitRefused hash cause => "Failed to submit commit " ++ hash.short ++ ": " ++ cause.message
  | commitFailed cause => "Commit failed: " ++ cause.message
  | queueFull hash => "Reveal queue full, deferring " ++ hash.short ++ " to the next reconcile"
  | queueClosed hash => "Reveal queue closed, deferring " ++ hash.short
  | expired hash block head =>
    "Commitment " ++ hash.short ++ s!" from block {block} expired at block {head}"
  | seedMissing hash => "No stored seed for " ++ hash.short ++ ", cannot reveal"
  | revealing hash tx => "Revealing " ++ hash.short ++ " in " ++ tx.text
  | revealed hash => "Revealed " ++ hash.short
  | revealReverted hash => "Reveal of " ++ hash.short ++ " reverted"
  | revealUnconfirmed hash => "No receipt for reveal of " ++ hash.short
  | revealRefused hash cause =>
    "Failed to submit reveal for " ++ hash.short ++ ": " ++ cause.message
  | revealFailed hash cause => "Reveal of " ++ hash.short ++ " failed: " ++ cause.message
  | pendingUnreadable cause => "Failed to load pending reveals: " ++ cause.message
  | reconcileQueued count => s!"Reconcile queued {count} reveals"
  | reconcileFailed cause => "Reconcile failed: " ++ cause.message
  | workerAlreadyRunning => "Reveal worker already started"
  | nonceUnreadable cause =>
    "Failed to read account nonce, using cached value: " ++ cause.message
  | subscriptionQueued consumer hash =>
    "Consumer " ++ consumer.text ++ " subscribed to " ++ hash.short ++ ", queueing reveal"
  | handlerFailed handler event cause =>
    s!"Handler {handler} failed to process " ++ event.name ++ " event: " ++ cause.message
  | scanResumed block => s!"Resuming scan at block {block}"
  | scanFromDeployment block => s!"Starting scan at oracle deployment block {block}"
  | deploymentNotFound tx => "Deployment transaction " ++ tx.text ++ " not found"
  | scanFrom block => s!"Starting scan at block {block}"
  | syncStarted block => s!"Starting oracle log sync at block {block}"
  | headUnreadable cause => "Failed to read block head: " ++ cause.message
  | fetchFailed first last wait cause =>
    s!"Fetching logs for [{first}, {last}] failed, retrying in " ++ wait.text ++ ": " ++ cause.message
  | cursorNotPersisted block cause =>
    s!"Failed to persist sync cursor {block}: " ++ cause.message
  | cursorAdvanced block => s!"Sync cursor advanced to {block}"
  | gap before after => s!"Gap detected: blocks between {before} and {after} were not scanned"
  | progress highest dispatched foreign =>
    s!"Sync progress: scanned up to block {highest}, {dispatched} events handled, {foreign} foreign"
  | scanSummary stats => stats.summary
  | agentStarted agent block => "Agent " ++ agent.text ++ s!" started, scanning from block {block}"
  | shuttingDown => "Shutting down agent"
  | agentStopped => "Agent stopped"
  | seedLookupFailed cause => "Seed lookup failed: " ++ cause.message
  | httpListening address => s!"HTTP API listening on {address}"
  | configurationLoaded path => s!"Loaded configuration from {path}"
  | storeOpened path => s!"Opened store at {path}"
  | signing agent oracle => "Signing as " ++ agent.text ++ " against oracle " ++ oracle.text
  | interrupted => "Interrupt received"
  | agentFailed cause => "Agent failed: " ++ cause.message

/-- The level and the text, as they stand in the log. -/
def line (n : Notice) : String :=
  n.level.text ++ " " ++ n.text

end Notice

end CommitReveal
