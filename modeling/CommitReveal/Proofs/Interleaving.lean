import CommitReveal.Agent.Lifecycle
import CommitReveal.Proofs.Lookup
import Mathlib.Logic.Relation

/-! Every way in which the tasks of an agent can share one store. A task that has begun its turn runs
alone until it waits; then any other may go on. Answers are whatever the surroundings give, a store
call may fail at any time, done or not, and a crash may come between any two requests: it ends all
tasks and loses the memory, and the store stays. -/
namespace CommitReveal.Agent

/-- What may be started by itself. -/
inductive Job where
  /-- Granting the allowance, then starting all the tasks. -/
  | startUp (allowance : Nat) (bootstrap : Bootstrap) (confirmations : Word)
  | worker
  | commits
  | reconciles
  | scan (cursor : Word) (handlers : List Handler) (confirmations : Word)

def startUp (s : Settings) (allowance : Nat) (b : Bootstrap) (confirmations : Word) :
    Attempt (List Nat) := do
  prepare s allowance
  start s b confirmations

def Job.program (s : Settings) : Job → Activity (Option Routine)
  | .startUp allowance b confirmations => do
    let _ ← (CommitReveal.Agent.startUp s allowance b confirmations).run
    return none
  | .worker => (Routine.revealWorker false).turn s
  | .commits => (Routine.commitTimer none).turn s
  | .reconciles => (Routine.reconcileTimer none).turn s
  | .scan cursor handlers confirmations =>
    (Routine.scan (.start cursor handlers confirmations) false).turn s

inductive Event where
  | began (task : Nat) (job : Job)
  | answered (task : Nat) (request : Request) (answer : request.Answer)
  | crashed

def Event.task? : Event → Option Nat
  | .began task _ => some task
  | .answered task _ _ => some task
  | .crashed => none

/-- What has happened, the latest first. -/
abbrev Trace := List Event

/-- What the tasks share, and all that they have been answered. -/
structure Shared where
  store : Store.Backend
  memory : Memory
  trace : Trace

namespace Shared

def note (σ : Shared) (e : Event) : Shared :=
  { σ with trace := e :: σ.trace }

@[simp] theorem store_note (σ : Shared) (e : Event) : (σ.note e).store = σ.store := rfl

@[simp] theorem memory_note (σ : Shared) (e : Event) : (σ.note e).memory = σ.memory := rfl

@[simp] theorem trace_note (σ : Shared) (e : Event) : (σ.note e).trace = e :: σ.trace := rfl

def crash (σ : Shared) (s : Settings) : Shared :=
  ⟨σ.store, .empty s.limits.queueCapacity, .crashed :: σ.trace⟩

end Shared

/-- What an answer does to the store and the memory. Of the rest nothing is known but its type. -/
def Served : (r : Request) → r.Answer → Shared → Shared → Prop
  | .store (.call c), answer, σ, τ =>
    (∃ cause, answer = .error cause ∧ τ = σ) ∨
      ((answer = .ok (σ.store.perform c).1 ∨ ∃ cause, answer = .error cause) ∧
        τ = { σ with store := (σ.store.perform c).2 })
  | .memory r, answer, σ, τ =>
    answer = (Memory.perform r σ.memory).1 ∧ τ = { σ with memory := (Memory.perform r σ.memory).2 }
  | .nextReveal, answer, σ, τ =>
    (answer = none ∧ τ = σ) ∨ ∃ hash queue, σ.memory.queue.dequeue = some (hash, queue) ∧
      answer = some hash ∧ τ = { σ with memory := { σ.memory with queue } }
  | _, _, σ, τ => τ = σ

theorem Served.trace {r : Request} {a : r.Answer} {σ τ : Shared} (h : Served r a σ τ) :
    τ.trace = σ.trace := by
  cases r with
  | store r =>
    cases r with
    | call c => rcases h with ⟨_, _, rfl⟩ | ⟨_, rfl⟩ <;> rfl
    | clock => exact congrArg Shared.trace h
  | memory r => rw [h.2]
  | nextReveal => rcases h with ⟨_, rfl⟩ | ⟨_, _, _, _, rfl⟩ <;> rfl
  | _ => exact congrArg Shared.trace h

theorem Served.store {r : Request} {a : r.Answer} {σ τ : Shared} (h : Served r a σ τ) :
    τ.store = σ.store ∨ ∃ c, r = .store (.call c) ∧ τ.store = (σ.store.perform c).2 := by
  cases r with
  | store q =>
    cases q with
    | call c =>
      rcases h with ⟨_, _, rfl⟩ | ⟨_, rfl⟩
      · exact .inl rfl
      · exact .inr ⟨c, rfl, rfl⟩
    | clock => exact .inl (congrArg Shared.store h)
  | memory q =>
    rw [h.2]
    exact .inl rfl
  | nextReveal => rcases h with ⟨_, rfl⟩ | ⟨_, _, _, _, rfl⟩ <;> exact .inl rfl
  | _ => exact .inl (congrArg Shared.store h)

/-- Where a task waits, so that others may run. -/
def Request.isWait : Request → Bool
  | .chain _ | .deliver .. | .sleep _ | .pauseUntil _ | .nextReveal | .receipt .. | .logs ..
  | .join _ | .abort _ => true
  | .memory (.takeNonce _) | .memory (.releaseNonce _) => true
  | _ => false

inductive Task where
  /-- Has not begun its next turn. -/
  | ready (turn : Activity (Option Routine))
  | running (rest : Activity (Option Routine))
  | ended

def Task.after (s : Settings) : Option Routine → Task
  | some r => .ready (r.turn s)
  | none => .ended

structure System where
  shared : Shared
  tasks : List Task
  /-- The task whose turn has begun and has not come to a wait. -/
  holder : Option Nat

namespace System

def start (s : Settings) (store : Store.Backend) : System :=
  ⟨⟨store, .empty s.limits.queueCapacity, []⟩, [], none⟩

def MayRun (σ : System) (i : Nat) : Prop :=
  σ.holder = none ∨ σ.holder = some i

/-- The task that a request starts. -/
def spawned (s : Settings) : Request → List Task
  | .spawn r => [.ready (r.turn s)]
  | _ => []

theorem mem_spawned {s : Settings} {r : Request} {t : Task} (h : t ∈ spawned s r) :
    ∃ routine, r = .spawn routine ∧ t = .ready (routine.turn s) := by
  cases r with
  | spawn routine => exact ⟨routine, rfl, List.mem_singleton.1 h⟩
  | _ => cases h

def isWaiting : Activity α → Bool
  | .ask r _ => r.isWait
  | .done _ => false

/-- Who holds the turn after task `i` has come to `rest`. -/
def holderAfter (i : Nat) (rest : Activity α) : Option Nat :=
  if isWaiting rest then none else some i

theorem holderAfter_cases (i : Nat) (rest : Activity α) :
    (holderAfter i rest = none ∧ isWaiting rest) ∨ holderAfter i rest = some i := by
  unfold holderAfter
  split
  · exact .inl ⟨rfl, by assumption⟩
  · exact .inr rfl

inductive Step (s : Settings) : System → System → Prop
  | began {σ : System} (job : Job) (free : σ.holder = none) :
    Step s σ ⟨σ.shared.note (.began σ.tasks.length job), σ.tasks ++ [.ready (job.program s)], none⟩
  | turn {σ : System} {i : Nat} {p : Activity (Option Routine)} (may : σ.MayRun i)
    (task : σ.tasks[i]? = some (.ready p)) :
    Step s σ ⟨σ.shared, σ.tasks.set i (.running p), holderAfter i p⟩
  | answered {σ : System} {i : Nat} {r : Request} {next : r.Answer → Activity (Option Routine)}
    {a : r.Answer} {τ : Shared} (may : σ.MayRun i)
    (task : σ.tasks[i]? = some (.running (.ask r next))) (served : Served r a σ.shared τ) :
    Step s σ ⟨τ.note (.answered i r a), σ.tasks.set i (.running (next a)) ++ spawned s r,
      holderAfter i (next a)⟩
  | finished {σ : System} {i : Nat} {next : Option Routine} (may : σ.MayRun i)
    (task : σ.tasks[i]? = some (.running (.done next))) :
    Step s σ ⟨σ.shared, σ.tasks.set i (.after s next), none⟩
  | crashed {σ : System} : Step s σ ⟨σ.shared.crash s, σ.tasks.map fun _ => .ended, none⟩

abbrev Leads (s : Settings) : System → System → Prop :=
  Relation.ReflTransGen (Step s)

/-- What can come of a store that holds nothing. -/
def Reachable (s : Settings) (σ : System) : Prop :=
  ∃ store : Store.Backend, (∀ key, store.get? key = none) ∧
    Leads s (.start s store) σ

theorem Reachable.leads {s : Settings} {σ τ : System} (hr : Reachable s σ) (hleads : Leads s σ τ) :
    Reachable s τ := by
  obtain ⟨store, hempty, hstart⟩ := hr
  exact ⟨store, hempty, hstart.trans hleads⟩

end System

end CommitReveal.Agent
