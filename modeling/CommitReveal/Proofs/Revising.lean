import CommitReveal.Proofs.Minding
import CommitReveal.Proofs.StatusOrder

/-! Clauses that let every record be revised. Under such a clause a task that is at home is so after any
operation of the repository, and therefore after all of its work but what it must do for itself. -/
namespace CommitReveal.Agent.Clause

open Program
open Repository (Recorded Card Shelf Stands Revises recorded_inj)

variable {s : Settings} {K : Clause (conduct s)} {i : Nat} {A : Hash → CommitRecord → Shared → Prop}
  {F G : Prop} {S : Shared → Prop} {σ τ : Shared} {k : Hash} {shelf : Shelf} {α β : Type}

/-- A record may be written if it revises the one there is. If `F` holds, no call fails. -/
structure Revisory (K : Clause (conduct s)) (i : Nat) (A : Hash → CommitRecord → Shared → Prop) (F G : Prop)
    (S : Shared → Prop) : Prop where
  homely : K.Homely i S
  serves : K.Serves i A F
  writes {k : Hash} {new : CommitRecord} {σ : Shared} :
    (∀ old, Recorded σ.store k old → Revises G False old new) → A k new σ
  stays {σ τ : Shared} : K.Home S σ → K.Since σ τ → Beside i σ τ → K.Calm τ ∧ S τ
  scan (start : Bytes) : K.Minds i S _ (ask (.store (.call (.scan start))))

namespace Revisory

variable (hR : K.Revisory i A F G S)

include hR

theorem lets {op : Int64 → Card → Card} (hop : ∀ time new,
      (op time (shelf k)).record = some new → Revises G False (shelf k).record new) :
    Lets i A σ shelf k op := by
  intro time new τ _ hrecorded hnew
  refine hR.writes fun old hold => ?_
  obtain rfl := recorded_inj hold hrecorded
  exact hop time new hnew

theorem operation {x : Repository.Action α} {P : Shelf → α → Shared → Prop}
    (hx : ∀ σ shelf, Stands σ.store shelf → K.Home S σ →
      Attempts (desk i A F) x (P shelf) (barring F) σ) :
    K.Minds i S _ (callRepository x) := by
  refine hR.serves.minds fun σ hσ => ?_
  obtain ⟨shelf, hs, -⟩ := exists_shelf hσ.since.base.1
  exact upholds_run.2 ((hx σ shelf hs hσ).imp (fun _ _ _ hb hsince => hR.stays hσ hsince hb)
    fun _ _ _ hb hsince => hR.stays hσ hsince hb)

theorem finish (st : Status) (hst : st.isTerminal) : K.Minds i S _
    (callRepository (do Repository.clearPending k; discard <| Repository.setStatus k st)) :=
  hR.operation fun _ _ hs _ => desk_finish hs st (hR.lets fun _ _ => Card.revises_finish hst)

theorem setCommitBlock (block : Word) : K.Minds i S _ (callRepository (Repository.setCommitBlock k block)) :=
  hR.operation fun _ _ hs _ =>
    desk_setCommitBlock hs block (hR.lets fun _ _ => Card.revises_setCommitBlock)

theorem markRevealed (seed : Option Seed) : K.Minds i S _ (callRepository (Repository.markRevealed k seed)) :=
  hR.operation fun _ _ hs _ => desk_markRevealed hs seed (hR.lets fun _ _ => Card.revises_markRevealed)

theorem clearPending : K.Minds i S _ (callRepository (Repository.clearPending k)) :=
  hR.operation fun _ _ hs _ => desk_clearPending hs

theorem storeSeed (seed : Seed) : K.Minds i S _ (callRepository (Repository.storeSeed k seed)) :=
  hR.operation fun _ _ hs _ => desk_storeSeed hs seed (hR.lets fun _ _ => Card.revises_storeSeed)

theorem markPending : K.Minds i S _ (callRepository (Repository.markPending k)) :=
  hR.operation fun _ _ hs _ => desk_markPending hs

theorem advance {rest : Attempt Unit} (hrest : K.Minds i S _ rest.run) :
    K.Minds i S _ (Habit.advance k rest).run := by
  intro σ hσ
  obtain ⟨shelf, hs, -⟩ := exists_shelf hσ.since.base.1
  have home {ρ τ : Shared} (hρ : K.Home S ρ) (hb : Beside i ρ τ) (hsince : K.Since ρ τ) : K.Home S τ :=
    ⟨hsince.refl, (hR.stays hρ hsince hb).1, (hR.stays hρ hsince hb).2⟩
  unfold Habit.advance
  refine upholds_run.2 (hR.serves.andThen hσ.since (desk_status (h := k) hs)
    (fun _ _ _ hb hsince => hR.stays hσ hsince hb) ?_)
  rintro st τ ⟨rfl, hτ⟩ hb hsince
  have hhome : K.Home S τ := home hσ hb hsince
  split
  · rename_i hcommitted
    have hlets : Lets i A τ shelf k (Card.setStatus .pendingReveal) := by
      refine hR.lets fun _ _ => Card.revises_setStatus
        (fun _ _ hopen => Status.follows_pendingReveal hopen) fun _ _ => .inl fun r hr => ?_
      have hst : r.status = .committed := by
        rw [Card.status, hr] at hcommitted
        exact Option.some.inj hcommitted
      rw [hst]
      rfl
    refine hR.serves.andThenDiscard hhome.since (desk_setStatus (hτ ▸ hs) _ hlets)
      (fun _ _ _ hb' hsince' => hR.stays hhome hsince' hb') fun _ _ υ _ hb' hsince' => ?_
    exact upholds_run.1 (hrest υ (home hhome hb' hsince'))
  · exact upholds_run.1 (hrest τ hhome)

theorem operations : Habit.Operations (K.Minds i S) fun _ _ => True where
  setCommitBlock _ := hR.setCommitBlock
  markRevealed _ := hR.markRevealed _
  markExpired _ := hR.finish .expired rfl
  pendingHashes := by
    refine hR.homely.parts.bind (hR.scan _) fun answer => ?_
    cases answer <;> exact hR.homely.parts.done _
  advance _ := hR.advance

theorem setStatus (hG : ¬G) {st : Status} (hst : st.underway) :
    K.Minds i S _ (callRepository (Repository.setStatus k st)) := by
  refine hR.operation fun _ _ hs _ => desk_setStatus hs st (hR.lets fun _ _ => Card.revises_setStatus
    (fun r _ hopen => ?_) fun hg => absurd hg hG)
  cases st with
  | committed => exact Status.follows_committed hopen fun hg => absurd hg hG
  | pendingReveal => exact Status.follows_pendingReveal hopen
  | _ => cases hst

theorem issueCommit (hG : ¬G) (hreceipt : ∀ tx poll timeout, K.Minds i S _ (ask (.receipt tx poll timeout))) :
    K.Minds i S _ (issueCommit s).run := by
  have hF := hR.homely.parts
  refine hF.attempt (hF.lift (hF.bind (hF.plain .entropy trivial) fun _ => hF.done _)) fun seed => ?_
  refine hF.attempt (hF.chain (c := .computeCommitHash seed) trivial) fun hash => ?_
  refine hF.offer hreceipt (hR.storeSeed seed) hR.markPending ?_ hR.setCommitBlock (hR.finish .abandoned rfl)
  rintro st (rfl | rfl)
  · exact hR.setStatus hG rfl
  · exact hR.setStatus hG rfl

end Revisory

end CommitReveal.Agent.Clause
