import CommitReveal.Agent.Scan
import CommitReveal.Proofs.Calls

/-! What handling events may ask for. No handler reads the chain, ends its task, or writes to the store
but under the keys of a hash, so it cannot touch where the scan stands. The agent's own handler keeps to the
hash of the event. -/
namespace CommitReveal.Agent

open Program
open Repository (key)

variable {α β : Type} {h : Hash}

/-- Requests that have no part in a scan. -/
def Request.Handling : Request → Prop
  | .chain _ | .abort _ | .logs .. => False
  | .store (.call (.set k _)) | .store (.call (.delete k)) => ∃ field hash, k = key field hash
  | _ => True

inductive Request.Touching (h : Hash) : Request → Prop
  | keeps {r : Repository.Request} {seed : Option Seed} (keeping : r.Keeping h seed) : Touching h (.store r)
  | notifies (n : Notice) : Touching h (.notify n)
  | queues : Touching h (.memory (.enqueue h))
  | defers : Touching h (.memory (.defer [h]))
  | schedules : Touching h (.spawn (.delayedReveal h))

theorem Request.Touching.handling {r : Request} (hr : r.Touching h) : r.Handling := by
  cases hr with
  | @keeps r seed keeping =>
    cases keeping with
    | reads reading =>
      cases r with
      | call c => cases c <;> trivial
      | clock => trivial
    | stores given => exact ⟨.seed, h, rfl⟩
    | @writes field value other => exact ⟨field, h, rfl⟩
    | unmarks => exact ⟨.pending, h, rfl⟩
  | _ => trivial

def Touches (h : Hash) (x : Attempt α) : Prop :=
  x.run.Only (Request.Touching h)

theorem Touches.bind {x : Attempt α} {f : α → Attempt β} (hx : Touches h x) (hf : ∀ a, Touches h (f a)) :
    Touches h (x >>= f) :=
  Only.attempt hx hf

theorem touches_pure (a : α) : Touches h (pure a) :=
  trivial

theorem touches_ask {r : Request} (hr : r.Touching h) : (ask r).Only (Request.Touching h) :=
  ⟨hr, fun _ => trivial⟩

theorem touches_keeps {seed : Option Seed} {a : Repository.Action α} (ha : Repository.Keeps h seed a) :
    Touches h (repository a) :=
  (Only.interpret (ha.imp fun _ hr => touches_ask (.keeps hr))).bind fun _ => trivial

theorem touches_reads {a : Repository.Action α} (ha : Repository.Reads a) : Touches h (repository a) :=
  touches_keeps (ha.keeps : Repository.Keeps h none a)

theorem touches_requestReveal : (requestReveal h).Only (Request.Touching h) := by
  unfold requestReveal
  refine Only.bind (touches_ask .queues) fun answer => ?_
  cases answer with
  | queued => trivial
  | full => exact Only.bind (touches_ask (.notifies _)) fun _ => touches_ask .defers
  | closed => exact Only.bind (touches_ask (.notifies _)) fun _ => touches_ask .defers

theorem touches_onSubscribed (consumer : Address) : Touches h (onSubscribed consumer h) := by
  unfold onSubscribed
  refine (touches_reads Repository.reads_seed).bind fun seed => ?_
  split
  · refine (touches_reads Repository.reads_isPending).bind fun pending => ?_
    split
    · exact Only.attempt (Only.lift (touches_ask (.notifies _))) fun _ => Only.lift touches_requestReveal
    · exact touches_pure _
  · exact touches_pure _

theorem touches_onCommitRegistered (block : Word) (mode : ScanMode) :
    Touches h (onCommitRegistered h block mode) := by
  have backfill : Touches h (requestReveal h : Attempt Unit) := Only.lift touches_requestReveal
  have live : Touches h (discard <| ask (.spawn (.delayedReveal h)) : Attempt Unit) :=
    Only.attempt (Only.lift (touches_ask .schedules)) fun _ => touches_pure _
  unfold onCommitRegistered
  refine (touches_reads Repository.reads_seed).bind fun seed => ?_
  split
  · refine (touches_keeps (Repository.keeps_setCommitBlock block)).bind fun _ => ?_
    refine (touches_reads Repository.reads_isPending).bind fun pending => ?_
    split
    · refine (touches_reads Repository.reads_status).bind fun status => ?_
      dsimp only
      split
      · have hset := touches_keeps (h := h) (Repository.keeps_setStatus .pendingReveal)
        refine (hset.bind fun _ => touches_pure _).bind fun _ => ?_
        cases mode with
        | backfill => exact backfill
        | live => exact live
      · cases mode with
        | backfill => exact backfill
        | live => exact live
    · exact touches_pure _
  · exact touches_pure _

theorem touches_triggerReveal (event : OracleEvent) (mode : ScanMode) :
    Touches event.hash (triggerReveal event mode) := by
  cases event with
  | subscribed committer consumer hash => exact touches_onSubscribed consumer
  | commitRegistered sender hash block => exact touches_onCommitRegistered block mode
  | seedRevealed committer hash seed => exact touches_keeps Repository.keeps_markRevealed
  | unsubscribed consumer hash => exact touches_pure _
  | randomConsumed consumer hash => exact touches_pure _

theorem handling_requestReveal : (requestReveal h).Only Request.Handling :=
  touches_requestReveal.imp fun _ => Request.Touching.handling

section Events

variable {K : Request → Prop} (htouch : ∀ h r, r.Touching h → K r)
  (hdeliver : ∀ name event mode, K (.deliver name event mode))

include htouch hdeliver

theorem only_handleAll (event : OracleEvent) (mode : ScanMode) (handlers : List Handler) :
    (handleAll event mode handlers).Only K := by
  induction handlers with
  | nil => trivial
  | cons handler rest ih =>
    have hone : (handle handler event mode).Only K := by
      cases handler with
      | revealTrigger => exact (touches_triggerReveal event mode).imp (htouch _)
      | outside name => exact ⟨hdeliver name event mode, fun _ => trivial⟩
    unfold handleAll
    refine hone.bind fun outcome => ?_
    cases outcome with
    | ok _ => exact ih
    | error cause => exact ⟨htouch event.hash _ (.notifies _), fun _ => ih⟩

theorem only_dispatch (agent : Address) (handlers : List Handler) (log : EventLog) (mode : ScanMode) :
    (dispatch agent handlers log mode).Only K := by
  unfold dispatch
  split
  · trivial
  · split
    · exact (only_handleAll htouch hdeliver _ _ _).bind fun _ => trivial
    · trivial

theorem only_dispatchAll (agent : Address) (handlers : List Handler) (mode : ScanMode) (p : Progress)
    (logs : List EventLog) : (dispatchAll agent handlers mode p logs).Only K := by
  induction logs generalizing p with
  | nil => trivial
  | cons log rest ih => exact (only_dispatch htouch hdeliver agent handlers log mode).bind fun _ => ih _

end Events

theorem handling_dispatch (agent : Address) (handlers : List Handler) (log : EventLog) (mode : ScanMode) :
    (dispatch agent handlers log mode).Only Request.Handling :=
  only_dispatch (fun _ _ => Request.Touching.handling) (fun _ _ _ => trivial) agent handlers log mode

theorem handling_dispatchAll (agent : Address) (handlers : List Handler) (mode : ScanMode) (p : Progress)
    (logs : List EventLog) : (dispatchAll agent handlers mode p logs).Only Request.Handling :=
  only_dispatchAll (fun _ _ => Request.Touching.handling) (fun _ _ _ => trivial) agent handlers mode p logs

end CommitReveal.Agent
