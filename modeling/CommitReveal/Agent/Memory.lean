import CommitReveal.Nonce
import CommitReveal.RevealQueue

/-! What an agent keeps in memory only, shared by its tasks and lost when it stops: the reveal queue,
the hashes put off to the next reconcile pass, and the next nonce. -/
namespace CommitReveal.Agent

structure Memory where
  queue : RevealQueue
  deferred : List Hash
  nonces : NonceCache
deriving DecidableEq, Repr

namespace Memory

def empty (capacity : Nat) : Memory :=
  ⟨.empty capacity, [], .empty⟩

inductive Request where
  | enqueue (hash : Hash)
  | queueDepth
  | takeReceiver
  | dropReceiver
  /-- Puts hashes off to the next reconcile pass. -/
  | defer (hashes : List Hash)
  /-- Hands over the hashes put off so far. -/
  | takeDeferred
  | takeNonce (observed : Option Word)
  | releaseNonce (nonce : Word)
deriving DecidableEq, Repr

abbrev Request.Answer : Request → Type
  | .enqueue _ => Enqueued
  | .queueDepth => Nat
  | .takeReceiver => Bool
  | .dropReceiver => Unit
  | .defer _ => Unit
  | .takeDeferred => List Hash
  | .takeNonce _ => Except Fault Word
  | .releaseNonce _ => Except Fault Unit

def perform : (r : Request) → Memory → r.Answer × Memory
  | .enqueue hash, m =>
    let (answer, queue) := m.queue.enqueue hash
    (answer, { m with queue })
  | .queueDepth, m => (m.queue.depth, m)
  | .takeReceiver, m =>
    let (answer, queue) := m.queue.takeReceiver
    (answer, { m with queue })
  | .dropReceiver, m => ((), { m with queue := m.queue.dropReceiver })
  | .defer hashes, m => ((), { m with deferred := m.deferred ++ hashes })
  | .takeDeferred, m => (m.deferred, { m with deferred := [] })
  | .takeNonce observed, m =>
    match m.nonces.take observed with
    | .ok (nonce, nonces) => (.ok nonce, { m with nonces })
    | .error fault => (.error fault, m)
  | .releaseNonce nonce, m =>
    match m.nonces.release nonce with
    | .ok nonces => (.ok (), { m with nonces })
    | .error fault => (.error fault, m)

end Memory

end CommitReveal.Agent
