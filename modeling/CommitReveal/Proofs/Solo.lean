import CommitReveal.Proofs.Interleaving

/-! One task that runs alone, each of its requests answered by a fixed rule. It is one of the runs that
the system has, and it can be computed. -/
namespace CommitReveal.Agent

variable {s : Settings} {α : Type}

def usual : Settings :=
  ⟨.fill 20 1, .fill 20 2, .standard, .standard⟩

abbrev Answering := (r : Request) → Shared → Option (r.Answer × Shared)

/-- The rule gives only what the surroundings may give, and starts no task. -/
structure Answering.Fair (f : Answering) : Prop where
  served {r : Request} {a : r.Answer} {σ τ : Shared} : f r σ = some (a, τ) → Served r a σ τ
  alone {r : Request} {a : r.Answer} {σ τ : Shared} : f r σ = some (a, τ) → System.spawned s r = []

def solo (f : Answering) (i : Nat) : Nat → Shared → Activity α → Shared × Activity α
  | 0, σ, p => (σ, p)
  | _ + 1, σ, .done a => (σ, .done a)
  | n + 1, σ, .ask r next =>
    match f r σ with
    | none => (σ, .ask r next)
    | some (a, τ) => solo f i n (τ.note (.answered i r a)) (next a)

/-- The rule of a store that never fails and of a node that gives every seed the hash `drawn` and
every transaction the same answer. Nobody else is heard of. -/
def calm (drawn : Hash) (sent : Except ChainError TxHash) : Answering
  | .store (.call c), σ =>
    some (.ok (σ.store.perform c).1, { σ with store := (σ.store.perform c).2 })
  | .store .clock, σ => some (0, σ)
  | .memory r, σ =>
    some ((Memory.perform r σ.memory).1, { σ with memory := (Memory.perform r σ.memory).2 })
  | .notify _, σ => some ((), σ)
  | .entropy, σ => some (.zero 32, σ)
  | .clock, σ => some (0, σ)
  | .pauseUntil _, σ => some (.due, σ)
  | .chain (.transactionCount _), σ => some (.ok 0, σ)
  | .chain (.computeCommitHash _), σ => some (.ok drawn, σ)
  | .chain (.submit _ _), σ => some (sent, σ)
  | _, _ => none

theorem calm_fair (drawn : Hash) (sent : Except ChainError TxHash) :
    (calm drawn sent).Fair (s := s) where
  served {r a σ τ} hanswer := by
    rcases r with (c | _) | (_ | _ | _ | _ | _ | _ | _ | _ | _) | _ | _ | _ | _ | _ | _ | _ | _ | _ | _ |
      _ | _ | _ | _ | _ <;> cases hanswer
    · exact .inr ⟨.inl rfl, rfl⟩
    all_goals first | rfl | exact ⟨rfl, rfl⟩
  alone {r a σ τ} hanswer := by
    cases r with
    | spawn routine => cases hanswer
    | _ => rfl

namespace System

def alone (σ : Shared) (p : Activity (Option Routine)) (holder : Option Nat) : System :=
  ⟨σ, [.running p], holder⟩

theorem leads_solo {f : Answering} (hf : f.Fair (s := s)) (n : Nat) (σ : Shared)
    (p : Activity (Option Routine)) {holder : Option Nat} (hholder : holder = none ∨ holder = some 0) :
    ∃ holder', (holder' = none ∨ holder' = some 0) ∧
      Leads s (alone σ p holder) (alone (solo f 0 n σ p).1 (solo f 0 n σ p).2 holder') := by
  induction n generalizing σ p holder with
  | zero => exact ⟨holder, hholder, by rw [solo]⟩
  | succ n ih =>
    cases p with
    | done a => exact ⟨holder, hholder, by rw [solo]⟩
    | ask r next =>
      rw [solo]
      cases hanswer : f r σ with
      | none => exact ⟨holder, hholder, .refl⟩
      | some answer =>
        obtain ⟨a, τ⟩ := answer
        have hstep := Step.answered (s := s) (σ := alone σ (.ask r next) holder) (i := 0) hholder rfl
          (hf.served hanswer)
        rw [hf.alone hanswer] at hstep
        obtain ⟨holder', hholder', hrest⟩ := ih (τ.note (.answered 0 r a)) (next a)
          ((holderAfter_cases 0 (next a)).imp_left And.left)
        exact ⟨holder', hholder', .head hstep hrest⟩

theorem reachable_solo {f : Answering} (hf : f.Fair (s := s)) {store : Store.Backend}
    (hempty : ∀ key, store.get? key = none) (job : Job) (n : Nat) :
    let σ := (start s store).shared.note (.began 0 job)
    ∃ holder, (holder = none ∨ holder = some 0) ∧
      Reachable s (alone (solo f 0 n σ (job.program s)).1 (solo f 0 n σ (job.program s)).2 holder) := by
  intro σ
  have hbegan : Step s (start s store) ⟨σ, [.ready (job.program s)], none⟩ :=
    Step.began (σ := start s store) job rfl
  have hturn : Step s ⟨σ, [.ready (job.program s)], none⟩
      (alone σ (job.program s) (holderAfter 0 (job.program s))) :=
    Step.turn (σ := ⟨σ, [.ready (job.program s)], none⟩) (i := 0) (.inl rfl) rfl
  obtain ⟨holder, hor, hleads⟩ := leads_solo hf n σ (job.program s)
    ((holderAfter_cases 0 (job.program s)).imp_left And.left)
  exact ⟨holder, hor, store, hempty, .head hbegan (.head hturn hleads)⟩

end System

end CommitReveal.Agent
