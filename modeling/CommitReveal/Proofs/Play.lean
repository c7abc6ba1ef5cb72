import CommitReveal.Proofs.Solo

/-! Runs of several tasks that can be computed. At each stage of a play the world answers by a fixed
rule, and one task takes steps until it has taken as many as it may or can take none. Every play is one of
the runs that the system has. -/
namespace CommitReveal.Agent

variable {s : Settings}

/-- How the world is at one stage of a play. -/
structure World where
  /-- The store calls that fail, with nothing done. -/
  fails : Store.Call → Bool
  head : Word
  logs : List EventLog
  /-- The hash that every seed is given. -/
  drawn : Hash
  sent : Except ChainError TxHash
  outcome : Option TxOutcome
  listed : List OracleRecord
  entropy : Hash

def World.quiet (drawn : Hash) (sent : Except ChainError TxHash) (outcome : Option TxOutcome) : World :=
  ⟨fun _ => false, 0, [], drawn, sent, outcome, [], .zero 32⟩

namespace World

def chain (w : World) : (c : Chain.Call) → Except ChainError c.Result
  | .blockNumber => .ok w.head
  | .filterLogs _ _ => .ok w.logs
  | .transactionCount _ => .ok 0
  | .transactionReceipt _ => .ok w.outcome
  | .blockOfTransaction _ => .ok none
  | .computeCommitHash _ => .ok w.drawn
  | .tokenAllowance _ _ => .ok 0
  | .submit _ _ => w.sent
  | .listUnverified _ => .ok w.listed

def answering (w : World) : Answering
  | .store (.call c), σ =>
    if w.fails c then some (.error .poisoned, σ)
    else some (.ok (σ.store.perform c).1, { σ with store := (σ.store.perform c).2 })
  | .store .clock, σ => some (0, σ)
  | .chain c, σ => some (w.chain c, σ)
  | .memory r, σ =>
    some ((Memory.perform r σ.memory).1, { σ with memory := (Memory.perform r σ.memory).2 })
  | .notify _, σ => some ((), σ)
  | .abort _, _ => none
  | .entropy, σ => some (w.entropy, σ)
  | .deliver _ _ _, σ => some (.ok (), σ)
  | .clock, σ => some (0, σ)
  | .isCancelled, σ => some (false, σ)
  | .cancel, σ => some ((), σ)
  | .spawn _, σ => some (0, σ)
  | .sleep _, σ => some ((), σ)
  | .pauseUntil _, σ => some (.due, σ)
  | .nextReveal, σ =>
    σ.memory.queue.dequeue.map fun (hash, queue) =>
      (some hash, { σ with memory := { σ.memory with queue } })
  | .receipt _ _ _, σ => some (w.outcome, σ)
  | .logs _ _ _, σ => some (some w.logs, σ)
  | .join _, σ => some ((), σ)

theorem answering_served {w : World} {r : Request} {a : r.Answer} {σ τ : Shared}
    (h : w.answering r σ = some (a, τ)) : Served r a σ τ := by
  cases r with
  | store r =>
    cases r with
    | call c =>
      simp only [answering] at h
      split at h
      · cases h
        exact .inl ⟨_, rfl, rfl⟩
      · cases h
        exact .inr ⟨.inl rfl, rfl⟩
    | clock =>
      cases h
      rfl
  | memory r =>
    cases h
    exact ⟨rfl, rfl⟩
  | nextReveal =>
    obtain ⟨⟨hash, queue⟩, hq, heq⟩ := Option.map_eq_some_iff.1 h
    cases heq
    exact .inr ⟨hash, queue, hq, rfl, rfl⟩
  | abort f => cases h
  | _ =>
    cases h
    rfl

end World

namespace System

/-- The next step of task `i`, if it may take one and the world lets it. -/
def move (s : Settings) (w : World) (i : Nat) (σ : System) : Option System :=
  if σ.holder = none ∨ σ.holder = some i then
    match σ.tasks[i]? with
    | some (.ready p) => some ⟨σ.shared, σ.tasks.set i (.running p), holderAfter i p⟩
    | some (.running (.ask r next)) =>
      (w.answering r σ.shared).map fun (a, τ) =>
        ⟨τ.note (.answered i r a), σ.tasks.set i (.running (next a)) ++ spawned s r, holderAfter i (next a)⟩
    | some (.running (.done next)) => some ⟨σ.shared, σ.tasks.set i (.after s next), none⟩
    | _ => none
  else none

theorem step_of_move {w : World} {i : Nat} {σ τ : System} (h : move s w i σ = some τ) : Step s σ τ := by
  unfold move at h
  split at h
  · rename_i may
    split at h
    · rename_i p task
      cases h
      exact .turn may task
    · rename_i r next task
      obtain ⟨⟨a, υ⟩, ha, rfl⟩ := Option.map_eq_some_iff.1 h
      exact .answered may task (World.answering_served ha)
    · rename_i next task
      cases h
      exact .finished may task
    · cases h
  · cases h

inductive Cue where
  | begin (job : Job)
  | go (world : World) (task steps : Nat)

def go (s : Settings) (w : World) (i : Nat) : Nat → System → System
  | 0, σ => σ
  | n + 1, σ =>
    match move s w i σ with
    | some τ => go s w i n τ
    | none => σ

theorem leads_go (w : World) (i n : Nat) (σ : System) : Leads s σ (go s w i n σ) := by
  induction n generalizing σ with
  | zero => exact .refl
  | succ n ih =>
    unfold go
    split
    · rename_i τ hτ
      exact .head (step_of_move hτ) (ih τ)
    · exact .refl

def stage (s : Settings) : Cue → System → System
  | .begin job, σ =>
    if σ.holder = none then
      ⟨σ.shared.note (.began σ.tasks.length job), σ.tasks ++ [.ready (job.program s)], none⟩
    else σ
  | .go w i n, σ => go s w i n σ

theorem leads_stage (cue : Cue) (σ : System) : Leads s σ (stage s cue σ) := by
  cases cue with
  | go w i n => exact leads_go w i n σ
  | begin job =>
    simp only [stage]
    split
    · rename_i free
      exact .single (.began job free)
    · exact .refl

def play (s : Settings) (cues : List Cue) (σ : System) : System :=
  cues.foldl (fun σ cue => stage s cue σ) σ

theorem leads_play (cues : List Cue) (σ : System) : Leads s σ (play s cues σ) := by
  induction cues generalizing σ with
  | nil => exact .refl
  | cons cue rest ih => exact (leads_stage cue σ).trans (ih _)

def opening (s : Settings) (cues : List Cue) : System :=
  play s cues (start s (.memory .empty))

theorem reachable_opening (cues : List Cue) : Reachable s (opening s cues) :=
  ⟨.memory .empty, fun _ => rfl, leads_play cues _⟩

end System

end CommitReveal.Agent
