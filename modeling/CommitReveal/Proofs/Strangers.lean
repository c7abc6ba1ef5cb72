import CommitReveal.Proofs.Passage

/-! Other agents have no say in what this one does. They log to the same oracle, but what is not about the
agent goes through the dispatcher without a trace, and what is about a hash of the agent leaves every other
hash alone. -/
namespace CommitReveal.Agent

open Program
open Repository (key cursorKey key_inj key_ne_cursorKey)

variable {agent : Address} {h : Hash} {log : EventLog} {mode : ScanMode}
  {logs logs' : List (EventLog × ScanMode)}

theorem get?_of_touching {α : Type} {p : Activity α} (hp : p.Only (Request.Touching h)) {σ τ : Passage}
    {t : Transcript interface} {b : α} (hends : p.EndsAfter among σ t b τ) {k : Bytes}
    (hk : ∀ field, k ≠ key field h) : τ.shared.store.get? k = σ.shared.store.get? k := by
  refine hends.carried (R := fun σ τ : Passage => τ.shared.store.get? k = σ.shared.store.get? k) (fun _ => rfl)
    (fun hfirst hlater => hlater.trans hfirst) (fun {r x σ υ ω} hr hmeanwhile hserved => ?_) hp
  obtain rfl := (meanwhile_busy hr.busy).1 hmeanwhile
  exact hr.get?_eq hserved.1 hk

/-- Logs that are not about the agent's own commitments: they are no event at all, belong to somebody else, or
tell of a consumer who has left or has made use of a hash. -/
inductive Stranger (agent : Address) (log : EventLog) : Prop
  | undecodable (spells : OracleEvent.ofLog? log.topics log.data = none)
  | foreign {event : OracleEvent} {owner : Address}
    (spells : OracleEvent.ofLog? log.topics log.data = some event) (owned : event.owner = some owner)
    (other : owner ≠ agent)
  | unsubscribed {consumer : Address} {hash : Hash}
    (spells : OracleEvent.ofLog? log.topics log.data = some (.unsubscribed consumer hash))
  | randomConsumed {consumer : Address} {hash : Hash}
    (spells : OracleEvent.ofLog? log.topics log.data = some (.randomConsumed consumer hash))

/-- The second list is the first one with strange logs put in anywhere. -/
inductive Interspersed (agent : Address) :
    List (EventLog × ScanMode) → List (EventLog × ScanMode) → Prop
  | nil : Interspersed agent [] []
  | keep {logs logs' : List (EventLog × ScanMode)} (first : EventLog × ScanMode)
    (rest : Interspersed agent logs logs') : Interspersed agent (first :: logs) (first :: logs')
  | insert {logs logs' : List (EventLog × ScanMode)} {log : EventLog} (mode : ScanMode)
    (strange : Stranger agent log) (rest : Interspersed agent logs logs') :
    Interspersed agent logs ((log, mode) :: logs')

theorem dispatch_stranger (h : Stranger agent log) (mode : ScanMode) :
    ∃ outcome, dispatch agent [.revealTrigger] log mode = .done outcome := by
  unfold dispatch
  cases h with
  | undecodable spells =>
    rw [spells]
    exact ⟨_, rfl⟩
  | @foreign event owner spells owned other =>
    have hconcerns : ¬concerns agent event = true := by simp [concerns, owned, other]
    rw [spells]
    dsimp only
    rw [if_neg hconcerns]
    exact ⟨_, rfl⟩
  | unsubscribed spells =>
    rw [spells]
    exact ⟨_, rfl⟩
  | randomConsumed spells =>
    rw [spells]
    exact ⟨_, rfl⟩

/-- With strange logs or without them, the same program is run. -/
theorem dispatchEach_interspersed (h : Interspersed agent logs logs') :
    dispatchEach agent logs' = dispatchEach agent logs := by
  induction h with
  | nil => rfl
  | keep first rest ih =>
    simp only [dispatchEach, ih]
  | @insert logs logs' log mode strange rest ih =>
    obtain ⟨outcome, hdone⟩ := dispatch_stranger strange mode
    rw [dispatchEach, hdone]
    exact ih

theorem answerable_dispatchEach (agent : Address) (logs : List (EventLog × ScanMode)) :
    (dispatchEach agent logs).Only Request.Answerable := by
  have hall : (dispatchEach agent logs).Only Request.Handling := by
    induction logs with
    | nil => trivial
    | cons first rest ih => exact (handling_dispatch agent _ first.1 first.2).bind fun _ => ih
  refine hall.imp fun r hr f heq => ?_
  subst heq
  exact hr

theorem touching_dispatch {event : OracleEvent}
    (hspells : OracleEvent.ofLog? log.topics log.data = some event) :
    (dispatch agent [.revealTrigger] log mode).Only (Request.Touching event.hash) := by
  unfold dispatch
  rw [hspells]
  dsimp only
  split
  · refine Only.bind (Only.bind (touches_triggerReveal event mode) fun outcome => ?_) fun _ => trivial
    cases outcome with
    | ok value => trivial
    | error cause => exact Only.bind (touches_ask (.notifies _)) fun _ => trivial
  · trivial

/-- What is not about the agent makes no difference to the dispatcher of its own handler, wherever it
comes between the other logs. -/
theorem strangers_change_nothing (h : Interspersed agent logs logs') (σ : Passage) :
    (∃ t τ, (dispatchEach agent logs).EndsAfter among σ t () τ) ∧
    (∀ t τ, (dispatchEach agent logs').EndsAfter among σ t () τ ↔
      (dispatchEach agent logs).EndsAfter among σ t () τ) ∧
    ∀ log mode event, OracleEvent.ofLog? log.topics log.data = some event → ∀ t outcome τ,
      (dispatch agent [.revealTrigger] log mode).EndsAfter among σ t outcome τ →
        (∀ field hash, hash ≠ event.hash →
          τ.shared.store.get? (key field hash) = σ.shared.store.get? (key field hash)) ∧
        τ.shared.store.get? cursorKey = σ.shared.store.get? cursorKey := by
  refine ⟨?_, fun t τ => by rw [dispatchEach_interspersed h], ?_⟩
  · obtain ⟨t, ⟨⟩, τ, hends⟩ := exists_endsAfter (answerable_dispatchEach agent logs) σ
    exact ⟨t, τ, hends⟩
  · intro log mode event hspells t outcome τ hends
    have hframe {k : Bytes} (hk : ∀ field, k ≠ key field event.hash) :=
      get?_of_touching (touching_dispatch hspells) hends hk
    refine ⟨fun field hash hother => hframe fun field' heq => ?_, hframe fun field heq => ?_⟩
    · exact hother (key_inj.1 heq).2
    · exact key_ne_cursorKey field event.hash heq.symm

def foreignLog : EventLog :=
  logged (.seedRevealed (.fill 20 9) (.fill 32 3) (.fill 32 8))

def consumedLog : EventLog :=
  logged (.randomConsumed (.fill 20 9) (.fill 32 3))

theorem interspersed_secondLog : Interspersed usual.agent [(secondLog, .live)]
    [(foreignLog, .live), (secondLog, .live), (consumedLog, .backfill)] := by
  have hforeign : OracleEvent.ofLog? foreignLog.topics foreignLog.data =
      some (.seedRevealed (.fill 20 9) (.fill 32 3) (.fill 32 8)) := by decide
  have hconsumed : OracleEvent.ofLog? consumedLog.topics consumedLog.data =
      some (.randomConsumed (.fill 20 9) (.fill 32 3)) := by decide
  refine .insert .live (.foreign hforeign rfl (by decide)) (.keep _ ?_)
  exact .insert .backfill (.randomConsumed hconsumed) .nil

theorem strangers_change_nothing_secondLog : ∃ (σ τ : Passage) (t : Transcript interface),
    (dispatchEach usual.agent [(secondLog, .live)]).EndsAfter among σ t () τ ∧
    (dispatchEach usual.agent [(foreignLog, .live), (secondLog, .live), (consumedLog, .backfill)]).EndsAfter
      among σ t () τ ∧
    σ.shared.store.get? (key .seed (.fill 32 3)) = none ∧
    τ.shared.store.get? (key .seed (.fill 32 3)) = some (FixedBytes.fill 32 7).bytes := by
  let σ : Shared := ⟨.memory .empty, .empty 1, []⟩
  have call {c : Store.Call} {σ : Shared} : Served (.store (.call c)) (.ok (σ.store.perform c).1) σ
      { σ with store := (σ.store.perform c).2 } := .inr ⟨.inl rfl, rfl⟩
  have time {σ : Shared} : Served (.store .clock) (0 : Int64) σ σ := rfl
  obtain ⟨t, τ, hrun, hseed⟩ : ∃ t τ, EndsAlone (dispatchEach usual.agent [(secondLog, .live)]) σ t () τ ∧
      τ.store.get? (key .seed (.fill 32 3)) = some (FixedBytes.fill 32 7).bytes := by
    refine ⟨_, _, .ask call (.ask call (.ask call (.ask call
      (.ask time (.ask time (.ask call (.done _ _))))))), ?_⟩
    decide +kernel
  obtain ⟨left, hrun⟩ := hrun σ
  obtain ⟨-, hboth, -⟩ := strangers_change_nothing interspersed_secondLog ⟨σ, σ⟩
  exact ⟨⟨σ, σ⟩, ⟨τ, left⟩, t, hrun, (hboth t ⟨τ, left⟩).2 hrun, rfl, hseed⟩

end CommitReveal.Agent
