import CommitReveal.Proofs.Announcement
import CommitReveal.Proofs.Calls
import CommitReveal.Proofs.Clause
import CommitReveal.Proofs.HandlerCalls

/-! What all tasks have in common. Whatever is true of plain requests and passes from parts to the whole is
true of every turn, once it is known of the few parts that touch seeds, records and marks: handling an
event, issuing a commit, a reconcile pass, a reveal. -/
namespace CommitReveal.Agent

open Program
open Repository (key cursorKey)

variable {s : Settings} {h : Hash} {α β : Type}

/-- Requests that leave the seeds, records and marks alone, send no reveal, ask for no receipt and have no
part in who receives from the queue. -/
def Request.Plain : Request → Prop
  | .store (.call (.set k _)) => (∃ h, k = key .tx h) ∨ k = cursorKey
  | .store (.call (.delete _)) | .store (.call (.scan _)) => False
  | .chain (.submit (.reveal _ _) _) => False
  | .receipt _ _ _ => False
  | .memory .takeReceiver | .memory .dropReceiver => False
  | .spawn (.revealWorker started) => started = false
  | _ => True

/-- A property of activities that passes from parts to the whole, and what it comes to for whole turns. -/
structure Habit (F : (α : Type) → Activity α → Prop) (T : Activity (Option Routine) → Prop) : Prop where
  done {α : Type} (a : α) : F α (.done a)
  bind {α β : Type} {p : Activity α} {f : α → Activity β} : F α p → (∀ a, F β (f a)) → F β (p.bind f)
  plain (r : Request) : r.Plain → F r.Answer (ask r)
  /-- A turn may end for good, or lead to any turn but that of a worker who receives. -/
  ends : T (.done none)
  goes {r : Routine} : r ≠ .revealWorker true → T (.done (some r))
  last {α : Type} {p : Activity α} {f : α → Activity (Option Routine)} :
    F α p → (∀ a, T (f a)) → T (p.bind f)

def offer (s : Settings) (seed : Seed) (h : Hash) : Attempt (Option Hash) := do
  repository (Repository.storeSeed h seed)
  discard <| repository (Repository.markPending h)
  match ← submit s (.commit h) with
  | .error cause =>
    notify (.commitRefused h cause)
    repository (Repository.markAbandoned h)
    return none
  | .ok tx =>
    repository (Repository.storeTx h tx)
    discard <| repository (Repository.setStatus h .committed)
    notify (.committed h tx)
    settleCommit h (← confirm s tx)

def scanFetched (s : Settings) (e : EventSync) (window : ScanWindow) :
    Option (List EventLog) → Activity (StepOutcome × EventSync)
  | none => return (.cancelled, e)
  | some logs => do
    let scanned ← scanWindow s e window logs
    return (.scanned window logs.length, scanned)

theorem plain_of_reading {r : Repository.Request} (hr : r.Reading) : (Request.store r).Plain := by
  cases r with
  | call c => cases c <;> trivial
  | clock => trivial

namespace Habit

variable {F : (α : Type) → Activity α → Prop} {T : Activity (Option Routine) → Prop}

section Parts

variable (hF : Habit F T)

include hF

theorem attempt {ε : Type} {x : ExceptT ε (Program interface) α} {f : α → ExceptT ε (Program interface) β}
    (hx : F _ x.run) (hf : ∀ a, F _ (f a).run) : F _ (x >>= f).run := by
  refine hF.bind hx fun o => ?_
  cases o with
  | ok a => exact hf a
  | error e => exact hF.done _

theorem lift {ε : Type} {p : Activity α} (hp : F _ p) :
    F _ (liftM p : ExceptT ε (Program interface) α).run :=
  hF.bind hp fun _ => hF.done _

theorem notify (n : Notice) : F _ (Agent.notify n) :=
  hF.plain (.notify n) trivial

theorem notifyAll (ns : List Notice) : F _ (Agent.notifyAll ns) := by
  induction ns with
  | nil => exact hF.done _
  | cons n rest ih => exact hF.bind (hF.notify n) fun _ => ih

theorem abort (f : Fault) : F α (Agent.abort f) :=
  hF.bind (hF.plain (.abort f) trivial) fun never => nomatch never

theorem orAbort (e : Except Fault α) : F α (Agent.orAbort e) := by
  cases e with
  | ok a => exact hF.done a
  | error f => exact hF.abort f

theorem chain {c : Chain.Call} (hc : (Request.chain c).Plain) : F _ (Agent.chain c).run :=
  hF.bind (hF.plain (.chain c) hc) fun _ => hF.done _

theorem repository {a : Repository.Action α} (ha : F _ (callRepository a)) :
    F _ (Agent.repository a).run :=
  hF.bind ha fun _ => hF.done _

theorem interpret {a : Repository.Action α} (ha : a.run.Only fun r => F _ (ask (.store r))) :
    F _ (Agent.callRepository a) := by
  unfold Agent.callRepository
  generalize a.run = p at ha
  induction p with
  | done x => exact hF.done x
  | ask r next ih => exact hF.bind ha.1 fun answer => ih answer (ha.2 answer)

theorem reads {a : Repository.Action α} (ha : Repository.Reads a) : F _ (Agent.callRepository a) :=
  hF.interpret (ha.imp fun r hr => hF.plain (.store r) (plain_of_reading hr))

end Parts

section Turns

variable (hF : Habit F T)

include hF

theorem status : F _ (Agent.repository (Repository.status h)).run :=
  hF.repository (hF.reads Repository.reads_status)

theorem seed : F _ (Agent.repository (Repository.seed h)).run :=
  hF.repository (hF.reads Repository.reads_seed)

theorem isPending : F _ (Agent.repository (Repository.isPending h)).run :=
  hF.repository (hF.reads Repository.reads_isPending)

theorem storeTx (tx : TxHash) : F _ (Agent.repository (Repository.storeTx h tx)).run :=
  hF.repository (hF.interpret ⟨hF.plain (.store _) (.inl ⟨h, rfl⟩), fun _ => trivial⟩)

theorem observedCount : F _ (Agent.observedCount s) := by
  refine hF.bind (hF.plain (.chain (.transactionCount s.agent)) trivial) fun answer => ?_
  cases answer with
  | ok count => exact hF.done _
  | error cause => exact hF.bind (hF.notify _) fun _ => hF.done _

theorem takeNonce (count : Option Word) : F _ (Agent.takeNonce count) :=
  hF.bind (hF.plain (.memory (.takeNonce count)) trivial) fun _ => hF.orAbort _

theorem releaseNonce (nonce : Word) : F _ (Agent.releaseNonce nonce) :=
  hF.bind (hF.plain (.memory (.releaseNonce nonce)) trivial) fun _ => hF.orAbort _

theorem submit {what : Chain.Submission}
    (hwhat : ∀ nonce, F _ (ask (.chain (.submit what nonce)))) : F _ (Agent.submit s what) := by
  refine hF.bind hF.observedCount fun count => hF.bind (hF.takeNonce count) fun nonce => ?_
  refine hF.bind (hwhat nonce) fun answer => ?_
  cases answer with
  | ok tx => exact hF.done _
  | error cause => exact hF.bind (hF.releaseNonce nonce) fun _ => hF.done _

theorem confirm (hreceipt : ∀ tx poll timeout, F _ (ask (.receipt tx poll timeout))) (tx : TxHash) :
    F _ (Agent.confirm s tx) := by
  unfold Agent.confirm awaitReceipt
  split
  · exact hF.abort _
  · exact hreceipt tx _ _

theorem approveAllowance (hreceipt : ∀ tx poll timeout, F _ (ask (.receipt tx poll timeout)))
    (amount : Nat) : F _ (Agent.approveAllowance s amount).run := by
  unfold Agent.approveAllowance
  refine hF.attempt (hF.chain (c := .tokenAllowance s.agent s.oracle) trivial) fun current => ?_
  split
  · exact hF.lift (hF.notify _)
  refine hF.attempt (hF.lift (hF.submit fun _ => hF.plain (.chain _) trivial)) fun answer => ?_
  cases answer with
  | error cause => exact hF.done _
  | ok tx =>
    refine hF.attempt (hF.lift (hF.notify _)) fun _ => ?_
    refine hF.attempt (hF.lift (hF.confirm hreceipt tx)) fun outcome => ?_
    cases outcome with
    | none => exact hF.done _
    | some outcome =>
      dsimp only
      split
      · exact hF.lift (hF.notify _)
      · exact hF.done _

theorem requestReveal (h : Hash) : F _ (Agent.requestReveal h) := by
  have putOff (n : Notice) : F _ (do Agent.notify n; defer [h] : Activity Unit) :=
    hF.bind (hF.notify n) fun _ => hF.plain (.memory (.defer [h])) trivial
  refine hF.bind (hF.plain (.memory (.enqueue h)) trivial) fun answer => ?_
  cases answer with
  | queued => exact hF.done _
  | full => exact putOff _
  | closed => exact putOff _

theorem requestReveals (hashes : List Hash) : F _ (Agent.requestReveals hashes) := by
  induction hashes with
  | nil => exact hF.done _
  | cons h rest ih => exact hF.bind (hF.requestReveal h) fun _ => ih

theorem dispatchAll {agent : Address} {mode : ScanMode} {logs : List EventLog}
    (htrigger : ∀ event ∈ logs.filterMap (heard? agent), F _ (triggerReveal event mode).run)
    (handlers : List Handler) (progress : Progress) :
    F _ (Agent.dispatchAll agent handlers mode progress logs) := by
  have hall {event : OracleEvent} (hevent : F _ (triggerReveal event mode).run) :
      F _ (handleAll event mode handlers) := by
    induction handlers with
    | nil => exact hF.done _
    | cons handler rest ih =>
      have hone : F _ (handle handler event mode) := by
        cases handler with
        | revealTrigger => exact hevent
        | outside name => exact hF.plain (.deliver name event mode) trivial
      refine hF.bind hone fun outcome => ?_
      cases outcome with
      | ok _ => exact ih
      | error cause => exact hF.bind (hF.notify _) fun _ => ih
  induction logs generalizing progress with
  | nil => exact hF.done _
  | cons log rest ih =>
    have hdispatch : F _ (dispatch agent handlers log mode) := by
      unfold dispatch
      split
      · exact hF.done _
      · rename_i event hread
        split
        · rename_i hconcerns
          have hheard : heard? agent log = some event := by
            rw [heard?, hread, Option.filter_some, if_pos hconcerns]
          have hevent := htrigger event (List.mem_filterMap.2 ⟨log, List.mem_cons_self, hheard⟩)
          exact hF.bind (hall hevent) fun _ => hF.done _
        · exact hF.done _
    have hrest : ∀ event ∈ rest.filterMap (heard? agent), F _ (triggerReveal event mode).run := by
      intro event hmem
      obtain ⟨log', hlog', hheard⟩ := List.mem_filterMap.1 hmem
      exact htrigger event (List.mem_filterMap.2 ⟨log', List.mem_cons_of_mem log hlog', hheard⟩)
    exact hF.bind hdispatch fun outcome => ih hrest _

theorem idle : F _ (Agent.idle s) := by
  refine hF.bind (hF.plain .clock trivial) fun now => ?_
  refine hF.bind (hF.plain (.pauseUntil (now + s.timings.headPoll)) trivial) fun wake => ?_
  cases wake <;> exact hF.done _

theorem scanWindow (e : EventSync) (window : ScanWindow) {logs : List EventLog}
    (htrigger : ∀ event ∈ logs.filterMap (heard? s.agent), F _ (triggerReveal event window.mode).run) :
    F _ (Agent.scanWindow s e window logs) := by
  have hordered : ∀ event ∈ (inChainOrder logs).filterMap (heard? s.agent),
      F _ (triggerReveal event window.mode).run := fun event hmem =>
    htrigger event (((List.mergeSort_perm logs logLe).filterMap _).subset hmem)
  unfold Agent.scanWindow
  refine hF.bind (hF.dispatchAll hordered _ _) fun progress => ?_
  split
  · have hpersist (cursor : Word) : F _ (persistCursor cursor window logs) := by
      unfold persistCursor
      have hset : F _ (callRepository (Repository.setCursor cursor)) :=
        hF.interpret ⟨hF.plain (.store _) (.inr rfl), fun _ => trivial⟩
      refine hF.bind hset fun answer => ?_
      cases answer with
      | error cause => exact hF.notify _
      | ok _ =>
        dsimp only
        split
        · exact hF.notify _
        · exact hF.done _
    refine hF.bind (hpersist _) fun _ => ?_
    refine hF.bind (hF.orAbort _) fun recorded => ?_
    refine hF.bind (hF.notifyAll _) fun _ => ?_
    exact hF.bind (hF.notifyAll _) fun _ => hF.done _
  · exact hF.abort _

theorem scanFetched (e : EventSync) (window : ScanWindow) {answer : Option (List EventLog)}
    (htrigger : ∀ logs, answer = some logs → ∀ event ∈ logs.filterMap (heard? s.agent),
      F _ (triggerReveal event window.mode).run) : F _ (Agent.scanFetched s e window answer) := by
  cases answer with
  | none => exact hF.done _
  | some logs => exact hF.bind (hF.scanWindow e window (htrigger logs rfl)) fun _ => hF.done _

theorem scanStep (e : EventSync) (hfetch : ∀ window initial limit,
      F _ ((ask (.logs window initial limit)).bind (Agent.scanFetched s e window))) :
    F _ (Agent.scanStep s e) := by
  unfold Agent.scanStep callChain
  have rest : F _ (do return (← Agent.idle s, e) : Activity (StepOutcome × EventSync)) :=
    hF.bind hF.idle fun _ => hF.done _
  refine hF.bind (hF.plain (.chain .blockNumber) trivial) fun answer => ?_
  cases answer with
  | error cause => exact hF.bind (hF.notify _) fun _ => rest
  | ok head =>
    refine hF.bind (hF.orAbort _) fun window => ?_
    cases window with
    | none => exact rest
    | some window =>
      refine (congrArg (F _) (congrArg (Program.bind _) (funext fun answer => ?_))).mpr (hfetch window _ _)
      cases answer <;> rfl

theorem scanStep_of_trigger (htrigger : ∀ event mode, F _ (triggerReveal event mode).run) (e : EventSync) :
    F _ (Agent.scanStep s e) := by
  refine hF.scanStep e fun window _ _ => hF.bind (hF.plain (.logs window _ _) trivial) fun _ => ?_
  exact hF.scanFetched e window fun _ _ event _ => htrigger event _

theorem scanTurn (hstep : ∀ e, F _ (Agent.scanStep s e)) (e : EventSync) (started : Bool) :
    T (Agent.scanTurn s e started) := by
  have stop (e : EventSync) : T (do closeScan e; return none : Activity (Option Routine)) := by
    refine hF.last ?_ fun _ => hF.ends
    exact hF.bind (hF.notifyAll _) fun _ => hF.notify _
  have go : T (Agent.scanTurn s e true) := by
    refine hF.last (hF.plain .isCancelled trivial) fun cancelled => ?_
    split
    · exact stop e
    · refine hF.last (hstep e) fun stepped => ?_
      dsimp only
      split
      · exact stop _
      · exact hF.goes (by simp)
  cases started with
  | true => exact go
  | false => exact hF.last (hF.notify _) fun _ => go

theorem awaitTick (period : Nat) (ticker : Option Ticker) : F _ (Agent.awaitTick period ticker) := by
  have wait (t : Ticker) : F _ (Agent.awaitTick period (some t)) := by
    show F _ ((ask (.pauseUntil t.due)).bind _)
    refine hF.bind (hF.plain (.pauseUntil t.due) trivial) fun wake => ?_
    cases wake with
    | cancelled => exact hF.done _
    | due => exact hF.bind (hF.plain .clock trivial) fun _ => hF.done _
  cases ticker with
  | some t => exact wait t
  | none =>
    refine hF.bind (hF.plain .clock trivial) fun now => ?_
    exact hF.bind (hF.orAbort _) fun t => wait t

theorem spawnAll {rs : List Routine} (hrs : ∀ r ∈ rs, (Request.spawn r).Plain) :
    F _ (Agent.spawnAll rs) := by
  induction rs with
  | nil => exact hF.done _
  | cons r rest ih =>
    refine hF.bind (hF.plain (.spawn r) (hrs r List.mem_cons_self)) fun task => ?_
    exact hF.bind (ih fun r' hr' => hrs r' (List.mem_cons_of_mem r hr')) fun _ => hF.done _

theorem resolveCursor (b : Bootstrap) : F _ (Agent.resolveCursor b).run := by
  have hbootstrap : F _ (bootstrapCursor b) := hF.bind (hF.notify _) fun _ => hF.done _
  unfold Agent.resolveCursor
  refine hF.attempt (hF.repository (hF.reads Repository.reads_cursor)) fun cursor => ?_
  cases cursor with
  | some cursor => exact hF.attempt (hF.lift (hF.notify _)) fun _ => hF.done _
  | none =>
    dsimp only
    cases b.deployTx with
    | none => exact hF.lift hbootstrap
    | some tx =>
      refine hF.attempt (hF.chain (c := .blockOfTransaction tx) trivial) fun block => ?_
      cases block with
      | some block => exact hF.attempt (hF.lift (hF.notify _)) fun _ => hF.done _
      | none => exact hF.attempt (hF.lift (hF.notify _)) fun _ => hF.lift hbootstrap

theorem settleCommit (hset : F _ (Agent.callRepository (Repository.setStatus h .pendingReveal)))
    (hblock : ∀ b, F _ (Agent.callRepository (Repository.setCommitBlock h b)))
    (habandon : F _ (Agent.callRepository (Repository.markAbandoned h))) (outcome : Option TxOutcome) :
    F _ (Agent.settleCommit h outcome).run := by
  have hpending : F _ (do
      discard <| Agent.repository (Repository.setStatus h .pendingReveal)
      return some h : Attempt (Option Hash)).run :=
    hF.attempt (hF.attempt (hF.repository hset) fun _ => hF.done _) fun _ => hF.done _
  rcases outcome with _ | ⟨block, _ | _⟩
  · exact hF.attempt (hF.lift (hF.notify _)) fun _ => hpending
  · refine hF.attempt (hF.lift (hF.notify _)) fun _ => ?_
    exact hF.attempt (hF.repository habandon) fun _ => hF.done _
  · cases block with
    | none => exact hpending
    | some b => exact hF.attempt (hF.repository (hblock b)) fun _ => hpending

theorem answerCommit (hreceipt : ∀ tx poll timeout, F _ (ask (.receipt tx poll timeout)))
    (hset : ∀ st, st = .committed ∨ st = .pendingReveal →
      F _ (Agent.callRepository (Repository.setStatus h st)))
    (hblock : ∀ b, F _ (Agent.callRepository (Repository.setCommitBlock h b)))
    (habandon : F _ (Agent.callRepository (Repository.markAbandoned h)))
    (answer : Except ChainError TxHash) : F _ (Agent.answerCommit s h answer).run := by
  cases answer with
  | error cause =>
    refine hF.attempt (hF.lift (hF.notify _)) fun _ => ?_
    exact hF.attempt (hF.repository habandon) fun _ => hF.done _
  | ok tx =>
    refine hF.attempt (hF.storeTx tx) fun _ => ?_
    refine hF.attempt (hF.attempt (hF.repository (hset _ (.inl rfl))) fun _ => hF.done _) fun _ => ?_
    refine hF.attempt (hF.lift (hF.notify _)) fun _ => ?_
    refine hF.attempt (hF.lift (hF.confirm hreceipt tx)) fun outcome => ?_
    exact hF.settleCommit (hset _ (.inr rfl)) hblock habandon outcome

theorem offer (hreceipt : ∀ tx poll timeout, F _ (ask (.receipt tx poll timeout))) {seed : Seed}
    (hstore : F _ (Agent.callRepository (Repository.storeSeed h seed)))
    (hmark : F _ (Agent.callRepository (Repository.markPending h)))
    (hset : ∀ st, st = .committed ∨ st = .pendingReveal →
      F _ (Agent.callRepository (Repository.setStatus h st)))
    (hblock : ∀ b, F _ (Agent.callRepository (Repository.setCommitBlock h b)))
    (habandon : F _ (Agent.callRepository (Repository.markAbandoned h))) :
    F _ (Agent.offer s seed h).run := by
  refine hF.attempt (hF.repository hstore) fun _ => ?_
  refine hF.attempt (hF.attempt (hF.repository hmark) fun _ => hF.done _) fun _ => ?_
  refine hF.attempt (hF.lift (hF.submit fun _ => hF.plain (.chain _) trivial)) fun answer => ?_
  have hanswer : F _ (Agent.answerCommit s h answer).run :=
    hF.answerCommit hreceipt hset hblock habandon answer
  cases answer <;> exact hanswer

theorem commitTick (hissue : F _ (issueCommit s).run) : F _ (Agent.commitTick s) := by
  refine hF.bind (hF.plain (.memory .queueDepth) trivial) fun depth => ?_
  split
  · refine hF.bind hissue fun outcome => ?_
    cases outcome with
    | ok _ => exact hF.done _
    | error cause => exact hF.notify _
  · exact hF.done _

theorem settleReveal {seed : Seed} (hmark : F _ (Agent.callRepository (Repository.markRevealed h (some seed))))
    (outcome : Option TxOutcome) : F _ (Agent.settleReveal h seed outcome).run := by
  rcases outcome with _ | ⟨block, _ | _⟩
  · exact hF.attempt (hF.lift (hF.notify _)) fun _ => hF.done _
  · exact hF.attempt (hF.lift (hF.notify _)) fun _ => hF.done _
  · refine hF.attempt (hF.repository hmark) fun _ => ?_
    exact hF.attempt (hF.lift (hF.notify _)) fun _ => hF.done _

theorem submitReveal {seed : Seed} (hsend : ∀ nonce, F _ (ask (.chain (.submit (.reveal h seed) nonce))))
    (hreceipt : ∀ tx poll timeout, F _ (ask (.receipt tx poll timeout)))
    (hmark : F _ (Agent.callRepository (Repository.markRevealed h (some seed)))) :
    F _ (Agent.submitReveal s h seed).run := by
  unfold Agent.submitReveal
  refine hF.attempt (hF.lift (hF.submit hsend)) fun answer => ?_
  cases answer with
  | error cause => exact hF.attempt (hF.lift (hF.notify _)) fun _ => hF.done _
  | ok tx =>
    refine hF.attempt (hF.lift (hF.notify _)) fun _ => ?_
    exact hF.attempt (hF.lift (hF.confirm hreceipt tx)) fun outcome => hF.settleReveal hmark outcome

theorem openReveal (hsubmit : ∀ seed, F _ (Agent.submitReveal s h seed).run) : F _ (do
    match ← Agent.repository (Repository.seed h) with
    | none =>
      Agent.notify (.seedMissing h)
      return .skipped
    | some seed => Agent.submitReveal s h seed : Attempt RevealOutcome).run := by
  refine hF.attempt hF.seed fun seed => ?_
  cases seed with
  | none => exact hF.attempt (hF.lift (hF.notify _)) fun _ => hF.done _
  | some seed => exact hsubmit seed

theorem processReveal (hreveal : F _ (reveal s h).run) : F _ (Agent.processReveal s h) := by
  refine hF.bind hreveal fun outcome => ?_
  rcases outcome with cause | _ | _ | _
  · exact hF.bind (hF.notify _) fun _ => hF.plain (.memory (.defer [h])) trivial
  · exact hF.done _
  · exact hF.done _
  · exact hF.plain (.memory (.defer [h])) trivial

/-- The parts that a habit must be shown of by hand. -/
structure Settled (s : Settings) (F : (α : Type) → Activity α → Prop) : Prop where
  receipt : ∀ tx poll timeout, F _ (ask (.receipt tx poll timeout))
  scan : ∀ e, F _ (Agent.scanStep s e)
  commit : F _ (Agent.commitTick s)
  reconcile : F _ (reconcileTick s)

theorem turn (hparts : Settled s F) {r : Routine} (hr : ∀ started, r ≠ .revealWorker started) :
    T (r.turn s) := by
  cases r with
  | revealWorker started => exact absurd rfl (hr started)
  | commitTimer ticker =>
    refine hF.last (hF.awaitTick _ ticker) fun next => ?_
    cases next with
    | none => exact hF.ends
    | some next => exact hF.last hparts.commit fun _ => hF.goes (by simp)
  | reconcileTimer ticker =>
    refine hF.last (hF.awaitTick _ ticker) fun next => ?_
    cases next with
    | none => exact hF.ends
    | some next => exact hF.last hparts.reconcile fun _ => hF.goes (by simp)
  | scan e started => exact hF.scanTurn hparts.scan e started
  | delayedReveal h =>
    refine hF.last (hF.plain .clock trivial) fun now => ?_
    refine hF.last (hF.plain (.pauseUntil (now + s.timings.liveGrace)) trivial) fun wake => ?_
    cases wake with
    | cancelled => exact hF.ends
    | due => exact hF.last (hF.requestReveal h) fun _ => hF.ends
  | stopAfter ms =>
    refine hF.last (hF.plain (.sleep ms) trivial) fun _ => ?_
    exact hF.last (hF.plain .cancel trivial) fun _ => hF.ends

theorem startUp (hparts : Settled s F) (allowance : Nat) (b : Bootstrap) (confirmations : Word) :
    F _ (Agent.startUp s allowance b confirmations).run := by
  have hprepare : F _ (prepare s allowance).run :=
    hF.bind (hF.approveAllowance hparts.receipt allowance) fun _ => hF.done _
  have hplain (cursor : Word) : ∀ r ∈ routines cursor confirmations, (Request.spawn r).Plain := by
    intro r hr
    simp only [routines, List.mem_cons, List.not_mem_nil, or_false] at hr
    rcases hr with rfl | rfl | rfl | rfl <;> trivial
  unfold Agent.startUp start
  refine hF.attempt hprepare fun _ => ?_
  refine hF.attempt (hF.resolveCursor b) fun cursor => ?_
  refine hF.attempt (hF.lift hparts.reconcile) fun _ => ?_
  refine hF.attempt (hF.lift (hF.spawnAll (hplain cursor))) fun tasks => ?_
  exact hF.attempt (hF.lift (hF.notify _)) fun _ => hF.done _

theorem job (hparts : Settled s F) (hworker : T ((Routine.revealWorker false).turn s)) (j : Job) :
    T (j.program s) := by
  cases j with
  | startUp allowance b confirmations =>
    exact hF.last (hF.startUp hparts allowance b confirmations) fun _ => hF.ends
  | worker => exact hworker
  | commits => exact hF.turn hparts (r := .commitTimer none) (by simp)
  | reconciles => exact hF.turn hparts (r := .reconcileTimer none) (by simp)
  | scan cursor handlers confirmations =>
    exact hF.turn hparts (r := .scan (.start cursor handlers confirmations) false) (by simp)

theorem workerStart (htake : F _ (ask (.memory .takeReceiver))) (hgo : T (.done (some (.revealWorker true)))) :
    T (Agent.workerTurn s false) := by
  refine hF.last htake fun taken => ?_
  cases taken with
  | true => exact hgo
  | false => exact hF.last (hF.notify _) fun _ => hF.ends

theorem workerTurn (hprocess : ∀ h, F _ (Agent.processReveal s h)) (htake : F _ (ask (.memory .takeReceiver)))
    (hdrop : F _ (ask (.memory .dropReceiver))) (hgo : T (.done (some (.revealWorker true))))
    (started : Bool) : T (Agent.workerTurn s started) := by
  cases started with
  | false => exact hF.workerStart htake hgo
  | true =>
    refine hF.last (hF.plain .nextReveal trivial) fun next => ?_
    cases next with
    | some h => exact hF.last (hprocess h) fun _ => hgo
    | none => exact hF.last hdrop fun _ => hF.ends

def advance (h : Hash) (rest : Attempt Unit) : Attempt Unit := do
  let status ← Agent.repository (Repository.status h)
  if status = some .committed then
    discard <| Agent.repository (Repository.setStatus h .pendingReveal)
  rest

/-- Operations that are parts by themselves, wherever they are done. The seeds that are marked as revealed
are to be known to meet `W`. -/
structure Operations (F : (α : Type) → Activity α → Prop) (W : Hash → Option Seed → Prop) : Prop where
  setCommitBlock (h : Hash) (block : Word) : F _ (Agent.callRepository (Repository.setCommitBlock h block))
  markRevealed {h : Hash} {seed : Option Seed} :
    W h seed → F _ (Agent.callRepository (Repository.markRevealed h seed))
  markExpired (h : Hash) : F _ (Agent.callRepository (Repository.markExpired h))
  pendingHashes : F _ (Agent.callRepository Repository.pendingHashes)
  advance (h : Hash) {rest : Attempt Unit} : F _ rest.run → F _ (advance h rest).run

variable {W : Hash → Option Seed → Prop}

theorem triggerReveal (hop : Operations F W) {event : OracleEvent}
    (hevent : ∀ committer h seed, event = .seedRevealed committer h seed → W h (some seed)) (mode : ScanMode) :
    F _ (Agent.triggerReveal event mode).run := by
  cases event with
  | subscribed committer consumer h =>
    refine hF.attempt hF.seed fun seed => ?_
    split
    · refine hF.attempt hF.isPending fun pending => ?_
      split
      · exact hF.attempt (hF.lift (hF.notify _)) fun _ => hF.lift (hF.requestReveal h)
      · exact hF.done _
    · exact hF.done _
  | commitRegistered sender h block =>
    refine hF.attempt hF.seed fun seed => ?_
    split
    · refine hF.attempt (hF.repository (hop.setCommitBlock h block)) fun _ => ?_
      refine hF.attempt hF.isPending fun pending => ?_
      split
      · refine hop.advance h ?_
        cases mode with
        | backfill => exact hF.lift (hF.requestReveal h)
        | live =>
          exact hF.attempt (hF.lift (hF.plain (.spawn (.delayedReveal h)) trivial)) fun _ => hF.done _
      · exact hF.done _
    · exact hF.done _
  | seedRevealed committer h seed => exact hF.repository (hop.markRevealed (hevent _ h seed rfl))
  | unsubscribed consumer h => exact hF.done _
  | randomConsumed consumer h => exact hF.done _

theorem reconcileSome {candidates : List Hash} (deferred : List Hash)
    (hreconcile : F _ (reconcile s candidates).run) : F _ (do
      if candidates.isEmpty then
        return
      match ← (reconcile s candidates).run with
      | .ok work =>
        if !work.isEmpty then
          Agent.notify (.reconcileQueued work.length)
        Agent.requestReveals work
      | .error cause =>
        Agent.notify (.reconcileFailed cause)
        defer deferred : Activity Unit) := by
  split
  · exact hF.done _
  refine hF.bind hreconcile fun outcome => ?_
  cases outcome with
  | ok work =>
    dsimp only
    split
    · exact hF.bind (hF.notify _) fun _ => hF.requestReveals work
    · exact hF.requestReveals work
  | error cause => exact hF.bind (hF.notify _) fun _ => hF.plain (.memory (.defer deferred)) trivial

theorem reconcileAll (hop : Operations F W) {records : List OracleRecord}
    (hlisted : ∀ h r, listed? records h = some r → r.revealed →
      W h (if r.seed = .zero 32 then none else some r.seed)) (head : Word) (hashes : List Hash) :
    F _ (Agent.reconcileAll s records head hashes).run := by
  have hone (h : Hash) : F _ (reconcileOne s records head h).run := by
    unfold reconcileOne reconcileListed
    split
    · exact hF.done _
    rename_i r hr
    split
    · rename_i hrevealed
      exact hF.attempt (hF.repository (hop.markRevealed (hlisted h r hr hrevealed))) fun _ => hF.done _
    refine hF.attempt (hF.repository (hop.setCommitBlock h _)) fun _ => ?_
    split
    · refine hF.attempt (hF.lift (hF.notify _)) fun _ => ?_
      exact hF.attempt (hF.repository (hop.markExpired h)) fun _ => hF.done _
    · exact hF.done _
  induction hashes with
  | nil => exact hF.done _
  | cons h rest ih => exact hF.attempt (hone h) fun owed => hF.attempt ih fun work => hF.done _

theorem reconcile (hop : Operations F W) (hall : ∀ h seed, W h seed) (candidates : List Hash) :
    F _ (Agent.reconcile s candidates).run := by
  refine hF.attempt (hF.chain (c := .listUnverified s.agent) trivial) fun records => ?_
  refine hF.attempt (hF.chain (c := .blockNumber) trivial) fun head => ?_
  exact hF.reconcileAll hop (fun h _ _ _ => hall h _) head _

theorem reconcileTick (hop : Operations F W)
    (hreconcile : ∀ candidates, F _ (Agent.reconcile s candidates).run) : F _ (Agent.reconcileTick s) := by
  have hstored : F _ storedPending := by
    refine hF.bind hop.pendingHashes fun answer => ?_
    cases answer with
    | ok hashes => exact hF.done _
    | error cause => exact hF.bind (hF.notify _) fun _ => hF.done _
  refine hF.bind hstored fun stored => ?_
  refine hF.bind (hF.plain (.memory .takeDeferred) trivial) fun deferred => ?_
  exact hF.reconcileSome deferred (hreconcile _)

end Turns

end Habit

end CommitReveal.Agent
