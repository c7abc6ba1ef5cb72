import CommitReveal.FixedBytes

/-! The bounded queue of hashes to reveal. One receiver may take from it; when the receiver has gone,
what waited is lost and nothing more is taken in. -/
namespace CommitReveal

/-- What became of a hash that was offered to the queue. -/
inductive Enqueued where
  | queued
  | full
  | closed
deriving DecidableEq, Repr

inductive Receiver where
  | free
  | taken
  | gone
deriving DecidableEq, Repr

structure RevealQueue where
  capacity : Nat
  waiting : List Hash
  receiver : Receiver
deriving DecidableEq, Repr

namespace RevealQueue

/-- An empty queue; it always has room for one hash. -/
def empty (capacity : Nat) : RevealQueue :=
  ⟨max capacity 1, [], .free⟩

def depth (q : RevealQueue) : Nat :=
  q.waiting.length

def enqueue (q : RevealQueue) (hash : Hash) : Enqueued × RevealQueue :=
  if q.receiver = .gone then (.closed, q)
  else if q.waiting.length < q.capacity then (.queued, { q with waiting := q.waiting ++ [hash] })
  else (.full, q)

/-- The hash that has waited longest. -/
def dequeue : RevealQueue → Option (Hash × RevealQueue)
  | ⟨capacity, hash :: rest, receiver⟩ => some (hash, ⟨capacity, rest, receiver⟩)
  | ⟨_, [], _⟩ => none

/-- Makes the caller the receiver, unless there is or was one. -/
def takeReceiver (q : RevealQueue) : Bool × RevealQueue :=
  if q.receiver = .free then (true, { q with receiver := .taken }) else (false, q)

def dropReceiver (q : RevealQueue) : RevealQueue :=
  { q with waiting := [], receiver := .gone }

end RevealQueue

end CommitReveal
