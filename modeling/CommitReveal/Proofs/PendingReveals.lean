import CommitReveal.Proofs.Solo
import CommitReveal.Proofs.Turns

/-! No owed reveal is forgotten, and nothing is owed and finished at the same time: what the agent's
own reading operations find in the store of any state that its tasks can come to. -/
namespace CommitReveal.Agent

open Repository (peek Seeded Marked)

variable {s : Settings}

theorem exists_peek_seed {σ : Shared} {h : Hash} (hord : Orderly s σ) (hseeded : Seeded σ.store h) :
    ∃ seed, peek (Repository.seed h) σ.store = .ok (some seed) ∧ Sourced s h seed σ.trace := by
  obtain ⟨bytes, hget⟩ := Option.isSome_iff_exists.1 hseeded
  obtain ⟨seed, rfl, hsourced⟩ := hord.ledger.seed h bytes hget
  exact ⟨seed, Repository.peek_seed hget, hsourced⟩

/-- The agent's first turn of issuing commits, after so many answers, when the node answers every
transaction with `sent`. -/
def firstCommit (sent : Except ChainError TxHash) (n : Nat) : Shared × Activity (Option Routine) :=
  solo (calm (.fill 32 3) sent) 0 n
    ((System.start usual (.memory .empty)).shared.note (.began 0 .commits)) (Job.commits.program usual)

theorem reachable_firstCommit (sent : Except ChainError TxHash) (n : Nat) :
    ∃ holder, (holder = none ∨ holder = some 0) ∧ System.Reachable usual
      (.alone (firstCommit sent n).1 (firstCommit sent n).2 holder) :=
  have hempty : ∀ key, (Store.Backend.memory .empty).get? key = none := fun _ => rfl
  System.reachable_solo (calm_fair _ sent) hempty .commits n

/-- A hash that was pending is pending still, unless its release was observed; and so is one whose commit
was accepted, with the one seed drawn for it in the store. -/
theorem pending_until_released {σ τ : System} (hr : System.Reachable s σ)
    (hleads : System.Leads s σ τ) (h : Hash) :
    (peek (Repository.isPending h) σ.shared.store = .ok true →
      peek (Repository.isPending h) τ.shared.store ≠ .ok true → Released s h τ.shared.trace) ∧
    (DistinctDraws τ.shared.trace → ∀ tx, Accepted (.commit h) tx τ.shared.trace →
      ¬Released s h τ.shared.trace →
      peek (Repository.isPending h) τ.shared.store = .ok true ∧
      ∃ seed, peek (Repository.seed h) τ.shared.store = .ok (some seed) ∧
        Drawn s h seed τ.shared.trace ∧ ∀ seed', Drawn s h seed' τ.shared.trace → seed' = seed) := by
  have honward : Onward s σ.shared τ.shared := onward_of_leads hr hleads
  have hord : Orderly s τ.shared := orderly_of_reachable (hr.leads hleads)
  simp only [ne_eq, Repository.peek_isPending_iff]
  constructor
  · intro hm hgone
    exact (honward.owed h (.inl hm)).resolve_left hgone
  · intro hdistinct tx haccepted hunreleased
    obtain ⟨howed, hseeded, -⟩ := hord.accepted h tx haccepted
    obtain ⟨seed, hpeek, hsourced⟩ := exists_peek_seed hord hseeded
    have hdrawn : Drawn s h seed τ.shared.trace :=
      hsourced.resolve_right fun hpublished => hunreleased hpublished.released
    exact ⟨howed.resolve_right hunreleased, seed, hpeek, hdrawn,
      fun seed' hd => Drawn.unique hdistinct hd hdrawn⟩

theorem pending_until_released_firstCommit :
    (∃ σ τ : System, System.Reachable usual σ ∧ System.Leads usual σ τ ∧
      peek (Repository.isPending (.fill 32 3)) σ.shared.store = .ok true ∧
      peek (Repository.isPending (.fill 32 3)) τ.shared.store ≠ .ok true ∧
      Released usual (.fill 32 3) τ.shared.trace) ∧
    ∃ τ : System, System.Reachable usual τ ∧
      Accepted (.commit (.fill 32 3)) (.fill 32 4) τ.shared.trace ∧
      peek (Repository.isPending (.fill 32 3)) τ.shared.store = .ok true ∧
      ∃ seed, peek (Repository.seed (.fill 32 3)) τ.shared.store = .ok (some seed) ∧
        Drawn usual (.fill 32 3) seed τ.shared.trace := by
  constructor
  · obtain ⟨holder, hor, hr⟩ := reachable_firstCommit (.error (.rpc "")) 12
    obtain ⟨holder', -, hleads⟩ := System.leads_solo (calm_fair (.fill 32 3) (.error (.rpc ""))) 6
      (firstCommit (.error (.rpc "")) 12).1 (firstCommit (.error (.rpc "")) 12).2 hor
    have hpending : peek (Repository.isPending (.fill 32 3))
        (firstCommit (.error (.rpc "")) 12).1.store = .ok true := rfl
    have hafter : peek (Repository.isPending (.fill 32 3))
        (solo (calm (.fill 32 3) (.error (.rpc ""))) 0 6 (firstCommit (.error (.rpc "")) 12).1
          (firstCommit (.error (.rpc "")) 12).2).1.store = .ok false := rfl
    have hgone : peek (Repository.isPending (.fill 32 3))
        (solo (calm (.fill 32 3) (.error (.rpc ""))) 0 6 (firstCommit (.error (.rpc "")) 12).1
          (firstCommit (.error (.rpc "")) 12).2).1.store ≠ .ok true := by
      rw [hafter]
      exact fun heq => nomatch heq
    exact ⟨_, _, hr, hleads, hpending, hgone, (pending_until_released hr hleads _).1 hpending hgone⟩
  · obtain ⟨holder, -, hr⟩ := reachable_firstCommit (.ok (.fill 32 4)) 15
    have haccepted : Accepted (.commit (.fill 32 3)) (.fill 32 4)
        (firstCommit (.ok (.fill 32 4)) 15).1.trace := ⟨0, 0, .head _⟩
    have hdraws : draws (firstCommit (.ok (.fill 32 4)) 15).1.trace = [.fill 32 3] := rfl
    have hdistinct : DistinctDraws (firstCommit (.ok (.fill 32 4)) 15).1.trace := by
      unfold DistinctDraws
      rw [hdraws]
      simp
    have hunreleased : ¬Released usual (.fill 32 3) (firstCommit (.ok (.fill 32 4)) 15).1.trace :=
      not_released rfl
    obtain ⟨hpending, seed, hseed, hdrawn, -⟩ :=
      (pending_until_released hr .refl _).2 hdistinct _ haccepted hunreleased
    exact ⟨_, hr, haccepted, hpending, seed, hseed, hdrawn⟩

/-- A pending hash has a seed and a record that is not final, and a hash on its way to a reveal has a
seed. -/
theorem pending_is_unfinished {σ : System} (hr : System.Reachable s σ) :
    (∀ h, peek (Repository.isPending h) σ.shared.store = .ok true →
      (∃ seed, peek (Repository.seed h) σ.shared.store = .ok (some seed)) ∧
      ∃ r, peek (Repository.record h) σ.shared.store = .ok (some r) ∧
        r.status ≠ .revealed ∧ r.status ≠ .expired ∧ r.status ≠ .abandoned) ∧
    (∀ h, Named σ.shared h →
      ∃ seed, peek (Repository.seed h) σ.shared.store = .ok (some seed)) ∧
    ∀ (i : Nat) (h : Hash) (next : Unit → Activity (Option Routine)),
      σ.tasks[i]? ≠ some (Task.running (.ask (.notify (.seedMissing h)) next)) := by
  have hholds : (conduct s).Holds σ := holds_of_reachable hr
  have hord : Orderly s σ.shared := hholds.inv
  refine ⟨fun h hpending => ?_, fun h hnamed => ?_, fun i h next htask => ?_⟩
  · obtain ⟨hseeded, r, hrecord, hopen⟩ := hord.ledger.marked h (Repository.peek_isPending_iff.1 hpending)
    obtain ⟨seed, hpeek, -⟩ := exists_peek_seed hord hseeded
    refine ⟨⟨seed, hpeek⟩, r, Repository.peek_record hrecord, ?_⟩
    refine ⟨fun hst => ?_, fun hst => ?_, fun hst => ?_⟩ <;>
      · rw [hst] at hopen
        cases hopen
  · obtain ⟨seed, hpeek, -⟩ := exists_peek_seed hord (hord.named h hnamed)
    exact ⟨seed, hpeek⟩
  · have hfine : (conduct s).Fine σ i (.running (.ask (.notify (.seedMissing h)) next)) :=
      hholds.fine i _ htask
    have hrest := hfine.1
    exact (hrest σ.shared (Contract.meanwhile_refl hord)).1

theorem pending_is_unfinished_firstCommit :
    ∃ σ : System, System.Reachable usual σ ∧
      peek (Repository.isPending (.fill 32 3)) σ.shared.store = .ok true ∧
      (∃ seed, peek (Repository.seed (.fill 32 3)) σ.shared.store = .ok (some seed)) ∧
      ∃ r, peek (Repository.record (.fill 32 3)) σ.shared.store = .ok (some r) ∧
        r.status ≠ .revealed ∧ r.status ≠ .expired ∧ r.status ≠ .abandoned := by
  obtain ⟨holder, -, hr⟩ := reachable_firstCommit (.ok (.fill 32 4)) 15
  have hpending : peek (Repository.isPending (.fill 32 3))
      (firstCommit (.ok (.fill 32 4)) 15).1.store = .ok true := rfl
  exact ⟨_, hr, hpending, (pending_is_unfinished hr).1 _ hpending⟩

end CommitReveal.Agent
