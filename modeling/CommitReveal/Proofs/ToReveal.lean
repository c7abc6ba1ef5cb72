import CommitReveal.Proofs.Interleaving
import Mathlib.Data.Multiset.AddSub

/-! What a task leaves to be revealed. Where the store works and nobody is stopped, a task leaves the same hashes and
the same store behind, whatever it is told of the queue: a hash is queued, put off, or given to a task of its own. A
log that is dispatched leaves the same in either mode. -/
namespace CommitReveal.Agent

open Program
open Repository (Action)

structure Clocked where
  store : Store.Backend
  readings : Nat

def Clocked.answer (times : Nat → Int64) : (r : Repository.Request) → Clocked → r.Answer × Clocked
  | .call c, d => (.ok (d.store.perform c).1, { d with store := (d.store.perform c).2 })
  | .clock, d => (times d.readings, { d with readings := d.readings + 1 })

/-- The program leaves these hashes to be revealed, and this store, whatever it is told of the queue, of the time and of
tasks; and what it ends with is of a kind. -/
inductive Leaves (times : Nat → Int64) {α : Type} (Q : α → Prop) :
    Activity α → Clocked → Multiset Hash → Clocked → Prop
  | done {a : α} {d : Clocked} (kind : Q a) : Leaves times Q (.done a) d 0 d
  | store {q : Repository.Request} {next : q.Answer → Activity α} {d d' : Clocked} {K : Multiset Hash}
    (rest : Leaves times Q (next (d.answer times q).1) (d.answer times q).2 K d') :
    Leaves times Q (.ask (.store q) next) d K d'
  | enqueue {h : Hash} {next : Enqueued → Activity α} {d d' : Clocked} {K : Multiset Hash}
    (queued : Leaves times Q (next .queued) d K d') (full : Leaves times Q (next .full) d (h ::ₘ K) d')
    (closed : Leaves times Q (next .closed) d (h ::ₘ K) d') :
    Leaves times Q (.ask (.memory (.enqueue h)) next) d (h ::ₘ K) d'
  | defer {hashes : List Hash} {next : Unit → Activity α} {d d' : Clocked} {K : Multiset Hash}
    (rest : Leaves times Q (next ()) d K d') :
    Leaves times Q (.ask (.memory (.defer hashes)) next) d (hashes + K) d'
  | spawn {h : Hash} {next : Nat → Activity α} {d d' : Clocked} {K : Multiset Hash}
    (rest : ∀ id, Leaves times Q (next id) d K d') :
    Leaves times Q (.ask (.spawn (.delayedReveal h)) next) d (h ::ₘ K) d'
  | notify {n : Notice} {next : Unit → Activity α} {d d' : Clocked} {K : Multiset Hash}
    (rest : Leaves times Q (next ()) d K d') : Leaves times Q (.ask (.notify n) next) d K d'
  | sleep {ms : Nat} {next : Unit → Activity α} {d d' : Clocked} {K : Multiset Hash}
    (rest : Leaves times Q (next ()) d K d') : Leaves times Q (.ask (.sleep ms) next) d K d'
  | clock {next : Nat → Activity α} {d d' : Clocked} {K : Multiset Hash}
    (rest : ∀ time, Leaves times Q (next time) d K d') : Leaves times Q (.ask .clock next) d K d'
  | pause {time : Nat} {next : Wake → Activity α} {d d' : Clocked} {K : Multiset Hash}
    (rest : Leaves times Q (next .due) d K d') : Leaves times Q (.ask (.pauseUntil time) next) d K d'

variable {s : Settings} {times : Nat → Int64} {α β : Type} {p : Activity α} {Q : α → Prop} {Q' : β → Prop}
  {d d' d'' : Clocked} {K K' : Multiset Hash} {h : Hash}

theorem Leaves.bind {f : α → Activity β} (hp : Leaves times Q p d K d')
    (hf : ∀ a, Q a → Leaves times Q' (f a) d' K' d'') : Leaves times Q' (p.bind f) d (K + K') d'' := by
  induction hp with
  | done kind =>
    rw [Multiset.zero_add]
    exact hf _ kind
  | store _ ih => exact .store (ih hf)
  | enqueue _ _ _ queued full closed =>
    rw [Multiset.cons_add]
    refine .enqueue (queued hf) ?_ ?_
    · rw [← Multiset.cons_add]
      exact full hf
    · rw [← Multiset.cons_add]
      exact closed hf
  | defer _ ih =>
    rw [Multiset.add_assoc]
    exact .defer (ih hf)
  | spawn _ ih =>
    rw [Multiset.cons_add]
    exact .spawn fun id => ih id hf
  | notify _ ih => exact .notify (ih hf)
  | sleep _ ih => exact .sleep (ih hf)
  | clock _ ih => exact .clock fun time => ih time hf
  | pause _ ih => exact .pause (ih hf)

theorem leaves_interpret {p : Program Repository.interface α} {f : α → Activity β}
    (hf : Leaves times Q' (f (p.run (Clocked.answer times) d).1) (p.run (Clocked.answer times) d).2 K d') :
    Leaves times Q' ((p.interpret fun r => ask (.store r)).bind f) d K d' := by
  induction p generalizing d with
  | done a => exact hf
  | ask r next ih => exact .store (ih _ hf)

theorem leaves_requestReveal (h : Hash) (d : Clocked) :
    Leaves times (fun _ => True) (requestReveal h) d {h} d := by
  have hdeferred (n : Notice) : Leaves times (fun _ => True)
      (.ask (.notify n) fun _ => .ask (.memory (.defer [h])) fun _ => .done ()) d (h ::ₘ 0) d :=
    .notify (.defer (.done trivial))
  exact .enqueue (.done trivial) (hdeferred _) (hdeferred _)

theorem leaves_delayedReveal (h : Hash) (d : Clocked) :
    Leaves times (· = none) ((Routine.delayedReveal h).turn s) d {h} d := by
  have hrest : Leaves times (· = none) ((requestReveal h).bind fun _ => .done (none : Option Routine)) d
      ({h} + 0) d :=
    (leaves_requestReveal h d).bind fun _ _ => .done rfl
  exact .clock fun time => .pause hrest

section Modes

/-- In either mode the same is left. -/
def Agree (times : Nat → Int64) (p : ScanMode → Activity α) (d : Clocked) : Prop :=
  ∃ K d', ∀ mode, Leaves times (fun _ => True) (p mode) d K d'

variable {a : Action α} {f : ScanMode → α → Attempt β}

theorem agree_of_modes {p : ScanMode → Activity α} (hbackfill : Leaves times (fun _ => True) (p .backfill) d K d')
    (hlive : Leaves times (fun _ => True) (p .live) d K d') : Agree times p d := by
  refine ⟨K, d', fun mode => ?_⟩
  cases mode with
  | backfill => exact hbackfill
  | live => exact hlive

theorem agree_done {a : ScanMode → α} : Agree times (fun mode => .done (a mode)) d :=
  ⟨0, d, fun _ => .done trivial⟩

theorem repository_bind (a : Action α) (f : α → Attempt β) : (repository a >>= f).run =
    (a.run.interpret fun r => ask (.store r)).bind fun answer => match answer with
      | .ok x => (f x).run
      | .error cause => .done (.error (.store cause)) := by
  show ((a.run.interpret fun r => ask (.store r)).bind _).bind _ = _
  rw [bind_assoc]
  congr 1
  funext answer
  cases answer <;> rfl

theorem agree_repository (hf : ∀ x d', Agree times (fun mode => (f mode x).run) d') :
    Agree times (fun mode => (repository a >>= f mode).run) d := by
  let ends := a.run.run (Clocked.answer times) d
  have hrest : Agree times (fun mode => match ends.1 with
      | .ok x => (f mode x).run
      | .error cause => .done (.error (.store cause))) ends.2 := by
    cases ends.1 with
    | ok x => exact hf x ends.2
    | error cause => exact agree_done
  obtain ⟨K, d', hrest⟩ := hrest
  refine ⟨K, d', fun mode => ?_⟩
  show Leaves times _ (repository a >>= f mode).run d K d'
  rw [repository_bind]
  exact leaves_interpret (hrest mode)

theorem leaves_asked (h : Hash) (d : Clocked) :
    Leaves times (fun _ => True) (liftM (requestReveal h) : Attempt Unit).run d {h} d := by
  have hrest : Leaves times (fun _ => True) (liftM (requestReveal h) : Attempt Unit).run d ({h} + 0) d :=
    (leaves_requestReveal h d).bind fun _ _ => .done trivial
  rwa [Multiset.add_zero] at hrest

theorem agree_onSubscribed (consumer : Address) :
    Agree times (fun _ => (onSubscribed consumer h).run) d := by
  unfold onSubscribed
  refine agree_repository fun seed d => ?_
  split
  · refine agree_repository fun pending d => ?_
    split
    · exact ⟨{h}, d, fun _ => .notify (leaves_asked h d)⟩
    · exact agree_done
  · exact agree_done

theorem agree_onCommitRegistered (block : Word) :
    Agree times (fun mode => (onCommitRegistered h block mode).run) d := by
  unfold onCommitRegistered
  refine agree_repository fun seed d => ?_
  split
  · refine agree_repository fun _ d => ?_
    refine agree_repository fun pending d => ?_
    split
    · refine agree_repository fun status d => ?_
      split
      · simp only [Functor.discard, LawfulFunctor.map_const, Function.comp, bind_map_left]
        refine agree_repository fun _ d => ?_
        exact agree_of_modes (leaves_asked h d) (.spawn fun _ => .done trivial)
      · exact agree_of_modes (leaves_asked h d) (.spawn fun _ => .done trivial)
    · exact agree_done
  · exact agree_done

theorem agree_triggerReveal (event : OracleEvent) :
    Agree times (fun mode => (triggerReveal event mode).run) d := by
  cases event with
  | subscribed owner consumer hash => exact agree_onSubscribed consumer
  | commitRegistered owner hash block => exact agree_onCommitRegistered block
  | seedRevealed owner hash seed =>
    show Agree times (fun _ => (repository (Repository.markRevealed hash (some seed))).run) d
    rw [← bind_pure (repository _)]
    exact agree_repository fun _ _ => agree_done
  | unsubscribed => exact agree_done
  | randomConsumed => exact agree_done

theorem agree_handleAll (event : OracleEvent) :
    Agree times (fun mode => handleAll event mode [.revealTrigger]) d := by
  obtain ⟨K, d', htrigger⟩ := agree_triggerReveal event
  refine ⟨K + 0, d', fun mode => (htrigger mode).bind fun outcome _ => ?_⟩
  cases outcome with
  | ok => exact .done trivial
  | error cause => exact .notify (.done trivial)

theorem agree_dispatch (agent : Address) (log : EventLog) :
    Agree times (fun mode => dispatch agent [.revealTrigger] log mode) d := by
  unfold dispatch
  split
  · exact agree_done
  · next event _ =>
    split
    · obtain ⟨K, d', hhandled⟩ := agree_handleAll event
      exact ⟨K + 0, d', fun mode => (hhandled mode).bind fun _ _ => .done trivial⟩
    · exact agree_done

end Modes

/-- A log, the mode it is dispatched in, and for how long the others may go on before that. -/
structure Delivery where
  pause : Nat
  log : EventLog
  mode : ScanMode

def deliverAll (agent : Address) : List Delivery → Activity (Option Routine)
  | [] => return none
  | x :: rest => do
    ask (.sleep x.pause)
    let _ ← dispatch agent [.revealTrigger] x.log x.mode
    deliverAll agent rest

/-- What logs leave depends neither on their modes nor on when they come. -/
theorem leaves_deliverAll (times : Nat → Int64) (agent : Address) (logs : List EventLog) (d : Clocked) :
    ∃ K d', ∀ xs : List Delivery, xs.map (·.log) = logs → Leaves times (· = none) (deliverAll agent xs) d K d' := by
  induction logs generalizing d with
  | nil =>
    refine ⟨0, d, fun xs hxs => ?_⟩
    rw [List.map_eq_nil_iff.1 hxs]
    exact .done rfl
  | cons log logs ih =>
    obtain ⟨K, d₁, hfirst⟩ := agree_dispatch agent log
    obtain ⟨K', d₂, hrest⟩ := ih d₁
    refine ⟨K + K', d₂, fun xs hxs => ?_⟩
    obtain ⟨x, rest, rfl, rfl, hlogs⟩ := List.map_eq_cons_iff.1 hxs
    exact .sleep ((hfirst x.mode).bind fun _ _ => hrest rest hlogs)

end CommitReveal.Agent
