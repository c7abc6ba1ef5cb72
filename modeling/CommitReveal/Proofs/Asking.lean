import CommitReveal.Agent.Commit
import CommitReveal.Agent.Reconcile
import CommitReveal.Agent.Scan
import CommitReveal.Proofs.Transcript

/-! What the parts of a task ask for, for any kind of request that takes in what they cannot do without. -/
namespace CommitReveal.Agent

open Program
open Repository (cursorKey)

variable {s : Settings} {h : Hash} {α : Type}

/-- The rest of a scan of a window, once its logs have been dispatched. -/
def moveBehind (e : EventSync) (window : ScanWindow) (logs : List EventLog) (progress : Progress) :
    Activity EventSync := do
  let some cursor := Word.add? window.last 1 | abort .overflow
  persistCursor cursor window logs
  let (progress, notices) ← orAbort (progress.recordWindow window)
  notifyAll notices
  let (progress, notices) := progress.log false
  notifyAll notices
  return { e with cursor, progress }

theorem only_orAbort {K : Request → Prop} (habort : ∀ f, K (.abort f)) (e : Except Fault α) :
    (orAbort e).Only K := by
  cases e with
  | ok a => trivial
  | error f => exact ⟨habort f, fun never => nomatch never⟩

section Sending

structure CoversSending (K : Request → Prop) : Prop where
  counts (owner : Address) : K (.chain (.transactionCount owner))
  takes (count : Option Word) : K (.memory (.takeNonce count))
  releases (nonce : Word) : K (.memory (.releaseNonce nonce))
  notifies (n : Notice) : K (.notify n)
  aborts (f : Fault) : K (.abort f)

variable {K : Request → Prop} (hK : CoversSending K)

include hK

theorem only_observedCount : (observedCount s).Only K := by
  refine Only.bind (p := ask (.chain (.transactionCount s.agent))) ⟨hK.counts _, fun _ => trivial⟩ fun answer => ?_
  cases answer with
  | ok count => trivial
  | error cause => exact ⟨hK.notifies _, fun _ => trivial⟩

theorem only_takeNonce (count : Option Word) : (takeNonce count).Only K :=
  ⟨hK.takes count, fun _ => only_orAbort hK.aborts _⟩

theorem only_releaseNonce (nonce : Word) : (releaseNonce nonce).Only K :=
  ⟨hK.releases nonce, fun _ => only_orAbort hK.aborts _⟩

theorem only_submit {what : Chain.Submission} (hsend : ∀ nonce, K (.chain (.submit what nonce))) :
    (submit s what).Only K := by
  refine (only_observedCount hK).bind fun count => (only_takeNonce hK count).bind fun nonce => ?_
  refine Only.bind (p := ask (.chain (.submit what nonce))) ⟨hsend nonce, fun _ => trivial⟩ fun answer => ?_
  cases answer with
  | ok tx => trivial
  | error cause => exact (only_releaseNonce hK nonce).bind fun _ => trivial

theorem only_confirm {tx : TxHash} (hreceipt : K (.receipt tx s.timings.receiptPoll s.timings.receiptTimeout)) :
    (confirm s tx).Only K := by
  unfold confirm awaitReceipt
  split
  · exact only_orAbort hK.aborts (.error .zeroPeriod)
  · exact ⟨hreceipt, fun _ => trivial⟩

end Sending

section Store

variable {K : Request → Prop} (hstore : ∀ q, K (.store q)) (hnotify : ∀ n, K (.notify n))

section Operations

include hstore

theorem only_callRepository (a : Repository.Action α) : (callRepository a).Only K := by
  unfold callRepository
  induction a.run with
  | done x => trivial
  | ask r next ih => exact ⟨hstore r, ih⟩

theorem only_repository (a : Repository.Action α) : (repository a).run.Only K :=
  (only_callRepository hstore a).bind fun _ => trivial

end Operations

section Notices

include hnotify

theorem only_tell (n : Notice) : (liftM (notify n) : Attempt Unit).run.Only K :=
  Only.lift ⟨hnotify n, fun _ => trivial⟩

theorem only_notifyAll (ns : List Notice) : (notifyAll ns).Only K := by
  induction ns with
  | nil => trivial
  | cons n rest ih => exact ⟨hnotify n, fun _ => ih⟩

theorem only_persistCursor (hset : ∀ value, K (.store (.call (.set cursorKey value)))) (cursor : Word)
    (window : ScanWindow) (logs : List EventLog) : (persistCursor cursor window logs).Only K := by
  have hcall : (callRepository (Repository.setCursor cursor)).Only K :=
    Only.interpret ⟨⟨hset _, fun _ => trivial⟩, fun _ => trivial⟩
  unfold persistCursor
  refine hcall.bind fun answer => ?_
  cases answer with
  | error cause => exact ⟨hnotify _, fun _ => trivial⟩
  | ok _ =>
    dsimp only
    split
    · exact ⟨hnotify _, fun _ => trivial⟩
    · trivial

theorem only_moveBehind (hset : ∀ value, K (.store (.call (.set cursorKey value)))) (habort : ∀ f, K (.abort f))
    (e : EventSync) (window : ScanWindow) (logs : List EventLog) (progress : Progress) :
    (moveBehind e window logs progress).Only K := by
  unfold moveBehind
  split
  · refine (only_persistCursor hnotify hset _ window logs).bind fun _ => ?_
    refine (only_orAbort habort _).bind fun recorded => (only_notifyAll hnotify _).bind fun _ => ?_
    exact (only_notifyAll hnotify _).bind fun _ => trivial
  · exact only_orAbort habort (.error .overflow)

end Notices

include hstore hnotify

theorem only_settleReveal (seed : Seed) (receipt : Option TxOutcome) :
    (settleReveal h seed receipt).run.Only K := by
  rcases receipt with _ | ⟨block, _ | _⟩
  · exact Only.attempt (only_tell hnotify _) fun _ => trivial
  · exact Only.attempt (only_tell hnotify _) fun _ => trivial
  · refine Only.attempt (only_repository hstore _) fun _ => ?_
    exact Only.attempt (only_tell hnotify _) fun _ => trivial

theorem only_settleCommit (receipt : Option TxOutcome) : (settleCommit h receipt).run.Only K := by
  have hset : (discard (repository (Repository.setStatus h .pendingReveal))).run.Only K :=
    Only.attempt (only_repository hstore _) fun _ => trivial
  rcases receipt with _ | ⟨block, _ | _⟩
  · exact Only.attempt (only_tell hnotify _) fun _ => Only.attempt hset fun _ => trivial
  · refine Only.attempt (only_tell hnotify _) fun _ => ?_
    exact Only.attempt (only_repository hstore _) fun _ => trivial
  · cases block with
    | none => exact Only.attempt hset fun _ => trivial
    | some b =>
      refine Only.attempt (only_repository hstore _) fun _ => ?_
      exact Only.attempt hset fun _ => trivial

theorem only_reconcileOne (records : List OracleRecord) (head : Word) (h : Hash) :
    (reconcileOne s records head h).run.Only K := by
  unfold reconcileOne reconcileListed
  split
  · trivial
  split
  · exact Only.attempt (only_repository hstore _) fun _ => trivial
  refine Only.attempt (only_repository hstore _) fun _ => ?_
  split
  · refine Only.attempt (only_tell hnotify _) fun _ => ?_
    exact Only.attempt (only_repository hstore _) fun _ => trivial
  · trivial

theorem only_reconcileAll (records : List OracleRecord) (head : Word) (hashes : List Hash) :
    (reconcileAll s records head hashes).run.Only K := by
  induction hashes with
  | nil => trivial
  | cons h rest ih =>
    exact Only.attempt (only_reconcileOne hstore hnotify records head h) fun _ =>
      Only.attempt ih fun _ => trivial

end Store

end CommitReveal.Agent
