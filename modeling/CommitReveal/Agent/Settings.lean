import CommitReveal.FixedBytes
import CommitReveal.Word

/-! What an agent is told once, when it starts. Times are in milliseconds. -/
namespace CommitReveal.Agent

structure Timings where
  commitInterval : Nat
  reconcileInterval : Nat
  receiptPoll : Nat
  receiptTimeout : Nat
  /-- The wait when the scan has caught up with the head. -/
  headPoll : Nat
  /-- The wait before a commitment seen live is revealed. -/
  liveGrace : Nat
  backoffInitial : Nat
  backoffLimit : Nat
deriving DecidableEq, Repr

def Timings.standard : Timings where
  commitInterval := 15000
  reconcileInterval := 20000
  receiptPoll := 2000
  receiptTimeout := 30000
  headPoll := 1000
  liveGrace := 10000
  backoffInitial := 1000
  backoffLimit := 30000

structure Limits where
  queueCapacity : Nat
  /-- No commit is issued while the reveal queue is this deep. -/
  backpressure : Nat
  /-- Blocks after its commit in which a seed may still be revealed. -/
  maxUnverified : Word
deriving DecidableEq, Repr

def Limits.standard : Limits where
  queueCapacity := 1000
  backpressure := 10
  maxUnverified := 400

structure Settings where
  agent : Address
  oracle : Address
  limits : Limits
  timings : Timings
deriving DecidableEq, Repr

end CommitReveal.Agent
