import CommitReveal.Proofs.Desk
import CommitReveal.Proofs.Habits

/-! Minding a clause is a habit: a task that begins a part of its work in a calm state, with whatever it
needs for itself, ends the part in such a state. The repository's operations are done at the desk, since
no store call waits. -/
namespace CommitReveal.Agent

open Program
open Repository (key)

variable {s : Settings} {C : Contract s} {i : Nat} {σ τ υ : Shared} {α β : Type}

theorem Request.Plain.sparesCards {r : Request} (hr : r.Plain) : r.SparesCards := by
  cases r with
  | store r =>
    cases r with
    | call c =>
      cases c with
      | scan start => trivial
      | _ => exact hr
    | clock => trivial
  | _ => trivial

theorem Request.Plain.noScan {r : Request} (hr : r.Plain) (start : Bytes) :
    r ≠ .store (.call (.scan start)) := by
  rintro rfl
  exact hr

/-- Neither a crash nor a store call that failed. -/
def Event.smooth : Event → Bool
  | .began _ _ => true
  | .answered _ r a => !storeFailed ⟨r, a⟩
  | .crashed => false

theorem exists_shelf {σ : Shared} (hord : Orderly s σ) : ∃ shelf, Repository.Stands σ.store shelf ∧
    ∀ h, (shelf h).pending = true → (shelf h).unfinished = true := by
  have hcard (h : Hash) : ∃ c : Repository.Card, c.Shows σ.store h := by
    have hseed : ∃ seed : Option Seed, σ.store.get? (key .seed h) = seed.map (·.bytes) := by
      cases hget : σ.store.get? (key .seed h) with
      | none => exact ⟨none, rfl⟩
      | some bytes =>
        obtain ⟨seed, rfl, -⟩ := hord.ledger.seed h bytes hget
        exact ⟨some seed, rfl⟩
    have hrecord : ∃ r : Option CommitRecord, Repository.Recorded σ.store h r := by
      unfold Repository.Recorded
      cases hget : σ.store.get? (key .record h) with
      | none => exact ⟨none, rfl⟩
      | some bytes =>
        obtain ⟨r, rfl, -⟩ := hord.ledger.record h bytes hget
        exact ⟨some r, rfl⟩
    obtain ⟨seed, hseed⟩ := hseed
    obtain ⟨r, hrecord⟩ := hrecord
    exact ⟨⟨seed, r, _⟩, hseed, hrecord, rfl⟩
  have ⟨shelf, hs⟩ := Classical.axiomOfChoice hcard
  refine ⟨shelf, hs, fun h hpending => ?_⟩
  have hm : Repository.Marked σ.store h := (hs h).pending.trans hpending
  obtain ⟨-, r, hr, hopen⟩ := hord.ledger.marked h hm
  have heq : (shelf h).record = some r := Repository.recorded_inj (hs h).record hr
  simp [Repository.Card.unfinished, Repository.Card.status, heq, hopen]

namespace Clause

/-- A calm state in which a task has what it needs for itself. -/
structure Home (K : Clause C) (S : Shared → Prop) (σ : Shared) : Prop where
  since : K.Since σ σ
  calm : K.Calm σ
  own : S σ

/-- Begun at home, a part of a task's work keeps to the clause and ends at home. -/
def Minds (K : Clause C) (i : Nat) (S : Shared → Prop) (α : Type) (p : Activity α) : Prop :=
  ∀ σ, K.Home S σ → p.Upholds (K.around i) (fun _ τ => K.Calm τ ∧ S τ) σ

def MindsTurn (K : Clause C) (i : Nat) (S : Shared → Prop) (p : Activity (Option Routine)) : Prop :=
  ∀ σ, K.Home S σ → p.Upholds (K.around i) (K.Next i) σ

/-- What plain requests must be shown to do, and what others must leave to the task. -/
structure Homely (K : Clause C) (i : Nat) (S : Shared → Prop) : Prop where
  apart {σ τ : Shared} : S σ → K.Since σ τ → Apart i σ τ → S τ
  allows {r : Request} {σ : Shared} : r.Plain → K.Home S σ → K.Allows i r σ
  keeps {r : Request} {a : r.Answer} {σ τ : Shared} : r.Plain → K.Home S σ → Served r a σ τ →
    K.Good σ (.answered i r a) → K.Since σ (τ.note (.answered i r a)) →
      K.Calm (τ.note (.answered i r a)) ∧ S (τ.note (.answered i r a))

variable {K : Clause C} {S : Shared → Prop}

theorem Home.andThen {p : Activity α} {f : α → Activity β} {P : α → Shared → Prop}
    {Q : β → Shared → Prop} (hσ : K.Home S σ) (hp : p.Upholds (K.around i) P σ)
    (hf : ∀ a τ, P a τ → K.Since σ τ → (f a).Upholds (K.around i) Q τ) :
    (p.bind f).Upholds (K.around i) Q σ :=
  Upholds.andThen (K.carries i) hσ.since hp hf

theorem Homely.upholds_ask (hS : K.Homely i S) {r : Request} {Q : r.Answer → Shared → Prop}
    (hσ : K.Home S σ) (hallows : ∀ τ, K.Home S τ → K.Since σ τ → Apart i σ τ → K.Allows i r τ)
    (hQ : ∀ τ a υ, K.Home S τ → K.Since σ τ → Apart i σ τ → Served r a τ υ →
      K.Good τ (.answered i r a) → K.Since τ (υ.note (.answered i r a)) →
      Q a (υ.note (.answered i r a))) : (ask r).Upholds (K.around i) Q σ := by
  intro τ hτ
  have hhome : K.Home S τ ∧ K.Since σ τ ∧ Apart i σ τ := by
    rcases hτ with rfl | ⟨-, hsince, hcalm, hapart⟩
    · exact ⟨hσ, hσ.since, Apart.refl i τ⟩
    · exact ⟨⟨hsince.refl, hcalm, hS.apart hσ.own hsince hapart⟩, hsince, hapart⟩
  obtain ⟨hhome, hsince, hapart⟩ := hhome
  refine ⟨⟨hallows τ hhome hsince hapart, fun _ => hhome.calm⟩, fun a υ hυ => ?_⟩
  obtain ⟨ω, hserved, rfl, hgood, hon⟩ := hυ
  exact hQ τ a ω hhome hsince hapart hserved hgood hon

theorem Homely.parts (hS : K.Homely i S) : Habit (K.Minds i S) fun _ => True where
  done _ _ hσ := ⟨hσ.calm, hσ.own⟩
  bind hp hf σ hσ := hσ.andThen (hp σ hσ) fun a τ hτ hsince => hf a τ ⟨hsince.refl, hτ.1, hτ.2⟩
  plain _ hr _ hσ := hS.upholds_ask hσ (fun _ hτ _ _ => hS.allows hr hτ)
    fun _ _ _ hτ _ _ hserved hgood hon => hS.keeps hr hτ hserved hgood hon
  ends := trivial
  goes _ := trivial
  last _ _ := trivial

theorem Homely.turns (hS : K.Homely i S)
    (hgoes : ∀ {r σ}, r ≠ .revealWorker true → K.Home S σ → K.Ready i r σ) :
    Habit (K.Minds i S) (K.MindsTurn i S) where
  done := hS.parts.done
  bind := hS.parts.bind
  plain := hS.parts.plain
  ends _ hσ := ⟨hσ.calm, fun _ heq => nomatch heq⟩
  goes hr _ hσ := ⟨hσ.calm, fun _ heq => Option.some.inj heq ▸ hgoes hr hσ⟩
  last hp hf σ hσ := hσ.andThen (hp σ hσ) fun a τ hτ hsince => hf a τ ⟨hsince.refl, hτ.1, hτ.2⟩

/-- Where all tasks are at home, they keep to the clause if they mind the parts that touch cards. -/
theorem kept_of_minds (hS : ∀ i, K.Homely i S) (hall : ∀ σ, S σ)
    (hgoes : ∀ {i r σ}, r ≠ .revealWorker true → K.Home S σ → K.Ready i r σ)
    (hparts : ∀ i, Habit.Settled s (K.Minds i S))
    (hworker : ∀ i started, K.MindsTurn i S (workerTurn s started)) : K.Kept := by
  constructor
  · intro i r σ hsince hcalm _
    by_cases hr : ∃ started, r = .revealWorker started
    · obtain ⟨started, rfl⟩ := hr
      exact hworker i started σ ⟨hsince, hcalm, hall σ⟩
    · have hplain : ∀ started, r ≠ .revealWorker started := fun started heq => hr ⟨started, heq⟩
      exact ((hS i).turns hgoes).turn (hparts i) hplain σ ⟨hsince, hcalm, hall σ⟩
  · intro i j σ hsince hcalm _
    exact ((hS i).turns hgoes).job (hparts i) (hworker i false) j σ ⟨hsince, hcalm, hall σ⟩

theorem upholds_both {p : Activity α} {P Q : α → Shared → Prop} (hinv : C.Inv σ)
    (hp : p.Upholds (C.around i) P σ) (hq : p.Upholds (K.around i) Q σ) :
    p.Upholds (K.around i) (fun a τ => P a τ ∧ Q a τ) σ := by
  induction p generalizing σ with
  | done a => exact ⟨hp, hq⟩
  | ask r next ih =>
    intro τ hτ
    obtain ⟨hallows, hnext⟩ := hq τ hτ
    have hmeanwhile : C.Inv τ ∧ (C.around i).Meanwhile r σ τ := by
      rcases hτ with rfl | ⟨hwait, hsince, -, hapart⟩
      · exact ⟨hinv, Contract.meanwhile_refl hinv⟩
      · refine ⟨hsince.base.1, ?_⟩
        simp only [hwait, if_true]
        exact ⟨hsince.base.1, hsince.base.2, hapart⟩
    refine ⟨hallows, fun a υ hυ => ?_⟩
    obtain ⟨ω, hserved, rfl, -, hsince⟩ := id hυ
    have hbase := (hp τ hmeanwhile.2).2 a _ ⟨ω, hserved, rfl, hsince.base.1, hsince.base.2⟩
    exact ih a hsince.base.1 hbase (hnext a _ hυ)

/-- The desk stands open to a task: the clause allows what is done there, and if `G` holds the runs
spoken of have no failures. -/
structure Serves (K : Clause C) (i : Nat) (A : Hash → CommitRecord → Shared → Prop) (G : Prop) : Prop where
  allows {r : Repository.Request} {σ : Shared} : AtDesk A r σ → K.Allows i (.store r) σ
  good {r : Repository.Request} {a : r.Answer} {σ : Shared} : K.Good σ (.answered i (.store r) a) → G →
    storeFailed ⟨.store r, a⟩ = false

variable {A : Hash → CommitRecord → Shared → Prop} {G : Prop}

theorem Serves.upholds (hK : K.Serves i A G) {p : Program Repository.interface α}
    {Q : α → Shared → Prop} (hp : p.Upholds (desk i A G) Q σ) :
    p.Upholds (behind (K.around i)) Q σ := by
  induction p generalizing σ with
  | done a => exact hp
  | ask r next ih =>
    intro τ hτ
    obtain rfl : τ = σ := hτ.resolve_right fun hwait => nomatch hwait.1
    obtain ⟨hdesk, hnext⟩ := hp τ rfl
    refine ⟨⟨hK.allows hdesk, fun hwait => nomatch hwait⟩, fun a υ hυ => ?_⟩
    obtain ⟨ω, hserved, rfl, hgood, -⟩ := hυ
    exact ih a (hnext a _ ⟨ω, hserved, rfl, hK.good hgood⟩)

theorem Serves.minds (hK : K.Serves i A G) {x : Repository.Action α}
    (hx : ∀ σ, K.Home S σ → x.run.Upholds (desk i A G)
      (fun _ τ => Beside i σ τ → K.Since σ τ → K.Calm τ ∧ S τ) σ) :
    K.Minds i S _ (callRepository x) := by
  intro σ hσ
  have hcarried := (hx σ hσ).carried desk_carries (Beside.refl i σ)
  have hup := (hK.upholds hcarried).carried (behind_carries (K.carries i)) hσ.since
  refine (upholds_interpret _ _).2 (hup.imp fun o τ hτ => ?_)
  exact hτ.1.1 hτ.1.2 hτ.2

theorem Serves.andThen (hK : K.Serves i A G) {x : Repository.Action α} {f : α → Attempt β}
    {P : α → Shared → Prop} {Q : β → Shared → Prop} {R : AgentError → Shared → Prop}
    (hσ : K.Since σ σ) (hx : Attempts (desk i A G) x P (barring G) σ)
    (hR : ∀ e τ, ¬G → Beside i σ τ → K.Since σ τ → R e τ)
    (hf : ∀ a τ, P a τ → Beside i σ τ → K.Since σ τ → Attempts (K.around i) (f a) Q R τ) :
    Attempts (K.around i) (Agent.repository x >>= f) Q R σ := by
  have hcarried := Upholds.carried desk_carries (Beside.refl i σ) hx
  have hup := (hK.upholds hcarried).carried (behind_carries (K.carries i)) hσ
  refine attempts_bind.2 ((attempts_repository x _ R).2 (hup.imp fun o τ hτ => ?_))
  cases o with
  | ok a => exact hf a τ hτ.1.1 hτ.1.2 hτ.2
  | error e => exact hR _ τ hτ.1.1 hτ.1.2 hτ.2

theorem Serves.andThenDiscard (hK : K.Serves i A G) {x : Repository.Action α} {f : PUnit → Attempt β}
    {P : α → Shared → Prop} {Q : β → Shared → Prop} {R : AgentError → Shared → Prop}
    (hσ : K.Since σ σ) (hx : Attempts (desk i A G) x P (barring G) σ)
    (hR : ∀ e τ, ¬G → Beside i σ τ → K.Since σ τ → R e τ)
    (hf : ∀ u a τ, P a τ → Beside i σ τ → K.Since σ τ → Attempts (K.around i) (f u) Q R τ) :
    Attempts (K.around i) (discard (Agent.repository x) >>= f) Q R σ := by
  have hthen := hK.andThen (f := fun _ => f PUnit.unit) hσ hx hR fun a τ => hf PUnit.unit a τ
  refine attempts_bind.2 (attempts_discard.2 ?_)
  exact attempts_bind.1 hthen

end Clause

end CommitReveal.Agent
