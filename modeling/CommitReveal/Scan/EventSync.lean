import CommitReveal.Scan.Progress

/-! The state of a scan: where it stands, what it has covered, and who is told about events. -/
namespace CommitReveal

inductive Handler where
  /-- Turns the agent's own events into reveals. -/
  | revealTrigger
  /-- Someone else, known by name. -/
  | outside (name : String)
deriving DecidableEq, Repr

def Handler.name : Handler → String
  | .revealTrigger => "RevealTrigger"
  | .outside name => name

structure EventSync where
  /-- The next block to scan. -/
  cursor : Word
  progress : Progress
  /-- In the order in which they are told. -/
  handlers : List Handler
  /-- Blocks kept between the head and the last scanned block. -/
  confirmations : Word
deriving DecidableEq, Repr

namespace EventSync

def start (cursor : Word) (handlers : List Handler) (confirmations : Word) : EventSync :=
  ⟨cursor, .start cursor, handlers, confirmations⟩

end EventSync

/-- How one step of a scan ended. -/
inductive StepOutcome where
  /-- Nothing to scan, or the head could not be read. -/
  | idle
  | scanned (window : ScanWindow) (logs : Nat)
  | cancelled
deriving DecidableEq, Repr

end CommitReveal
