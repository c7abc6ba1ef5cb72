import CommitReveal.Ticker

/-! Waiting for the receipt of a transaction: a poll every period until one brings an outcome or the
deadline comes. A poll that fails or finds nothing only leads to the next one. A poll that is due at the
deadline may come before it or not at all. -/
namespace CommitReveal

structure ReceiptWait where
  deadline : Nat
  ticker : Ticker
deriving DecidableEq, Repr

namespace ReceiptWait

def start (now period timeout : Nat) : Except Fault ReceiptWait := do
  return ⟨now + timeout, ← Ticker.start now period⟩

/-- When there is something to do next. -/
def wakeAt (w : ReceiptWait) : Nat :=
  min w.deadline w.ticker.due

def isOver (w : ReceiptWait) (now : Nat) : Bool :=
  w.deadline ≤ now

/-- Whether a poll is due. -/
def isDue (w : ReceiptWait) (now : Nat) : Bool :=
  w.ticker.due ≤ now

/-- The wait for the poll after the one that was due. -/
def next (w : ReceiptWait) (now : Nat) : ReceiptWait :=
  { w with ticker := w.ticker.next now }

end ReceiptWait

end CommitReveal
