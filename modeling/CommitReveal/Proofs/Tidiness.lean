import CommitReveal.Proofs.Minding
import CommitReveal.Proofs.PendingReveals

/-! Unfinished and pending are the same set. As long as no store call fails and no crash comes, every
part of a task's work that begins with tidy cards leaves tidy cards before the task waits. -/
namespace CommitReveal.Repository

variable {c : Card}

/-- The hash stands in the pending set just while its record is unfinished, and with a seed there is a
record. -/
structure Card.Tidy (c : Card) : Prop where
  pending : c.pending = c.unfinished
  record : c.seed.isSome → c.record.isSome

namespace Card

theorem unfinished_eq_false (hc : c.finished) : c.unfinished = false := by
  unfold finished unfinished at *
  cases hst : c.status with
  | none => rfl
  | some st => simpa [hst] using hc

theorem tidy_of_finished (hc : c.finished) (hpending : c.pending = false) : c.Tidy where
  pending := by rw [hpending, unfinished_eq_false hc]
  record _ := by
    unfold finished status at hc
    cases hr : c.record with
    | none => simp [hr] at hc
    | some r => rfl

theorem finished_setStatus {st : Status} (hst : st.isTerminal) (time : Int64) :
    (c.setStatus st time).finished := by
  unfold setStatus
  cases hr : c.record with
  | none => simpa [finished, status] using hst
  | some r =>
    dsimp only
    split
    · rename_i hkept
      simp only [Bool.and_eq_true] at hkept
      simpa [finished, status, hr] using hkept.1
    · simpa [finished, status] using hst

@[simp] theorem pending_setStatus (st : Status) (time : Int64) :
    (c.setStatus st time).pending = c.pending := by
  unfold setStatus
  split
  · rfl
  · split <;> rfl

@[simp] theorem seed_setStatus (st : Status) (time : Int64) : (c.setStatus st time).seed = c.seed := by
  unfold setStatus
  split
  · rfl
  · split <;> rfl

theorem Tidy.setStatus (hc : c.Tidy) {st : Status} (hst : st.isTerminal = false) (hr : c.record.isSome)
    (time : Int64) : (c.setStatus st time).Tidy := by
  obtain ⟨r, hr⟩ := Option.isSome_iff_exists.1 hr
  have hpending := hc.pending
  unfold Card.setStatus
  rw [hr]
  dsimp only
  split
  · exact hc
  · rename_i hopen
    refine ⟨?_, fun _ => rfl⟩
    have hunfinished : r.status.isTerminal = false := by
      by_contra hfinal
      rw [Bool.not_eq_false] at hfinal
      refine hopen ?_
      rw [hfinal, Bool.true_and, decide_eq_true_eq]
      exact fun heq => by rw [heq, hst] at hfinal; cases hfinal
    rw [show c.pending = true by rw [hpending]; simp [unfinished, status, hr, hunfinished]]
    simp [unfinished, status, hst]

theorem Tidy.setCommitBlock (hc : c.Tidy) (hr : c.record.isSome) (block : Word) (time : Int64) :
    (c.setCommitBlock block time).Tidy := by
  obtain ⟨r, hr⟩ := Option.isSome_iff_exists.1 hr
  unfold Card.setCommitBlock
  rw [hr]
  refine ⟨?_, fun _ => rfl⟩
  have hpending := hc.pending
  simpa [unfinished, status, hr] using hpending

theorem tidy_finish {st : Status} (hst : st.isTerminal) (time : Int64) : (c.finish st time).Tidy :=
  tidy_of_finished (finished_setStatus hst time) (by simp [finish, clearPending])

theorem finished_markRevealed (seed : Option Seed) (time : Int64) :
    (c.markRevealed seed time).finished := by
  unfold markRevealed
  dsimp only
  split
  · rename_i hdone
    rw [finished, hdone]
    rfl
  · exact finished_setStatus rfl time

theorem tidy_markRevealed (seed : Option Seed) (time : Int64) : (c.markRevealed seed time).Tidy := by
  refine tidy_of_finished (finished_markRevealed seed time) ?_
  unfold markRevealed
  dsimp only
  split
  · rfl
  · simp [clearPending]

theorem tidy_clearPending (hfinal : c.finished) : c.clearPending.Tidy :=
  tidy_of_finished hfinal rfl

theorem Tidy.storeSeed (hc : c.Tidy) (seed : Seed) (time : Int64) :
    ((c.storeSeed seed time).markPending).Tidy := by
  have hpending := hc.pending
  unfold markPending
  cases hr : c.record with
  | none =>
    have hcard : c.storeSeed seed time =
        { c with seed := some seed, record := some ⟨.created, none, time⟩ } := by
      simp [Card.storeSeed, hr]
    rw [hcard]
    exact ⟨rfl, fun _ => rfl⟩
  | some r =>
    have hfinished : (c.storeSeed seed time).finished = r.status.isTerminal := by
      simp [finished, status, Card.storeSeed, hr]
    have hunfinished : (c.storeSeed seed time).unfinished = !r.status.isTerminal := by
      simp [unfinished, status, Card.storeSeed, hr]
    rw [hfinished]
    split
    · rename_i hfinal
      refine ⟨?_, fun _ => rfl⟩
      rw [hunfinished, hfinal]
      simpa [unfinished, status, hr, hfinal, Card.storeSeed] using hpending
    · rename_i hopen
      refine ⟨?_, fun _ => rfl⟩
      show true = (c.storeSeed seed time).unfinished
      rw [hunfinished, Bool.not_eq_true] at *
      rw [hopen]
      rfl

end Card

end CommitReveal.Repository

namespace CommitReveal.Agent

open Program
open Repository (Field key cursorKey Seeded Marked Recorded Card Shelf Stands peek)
open Store (Backend)

variable {s : Settings} {i : Nat} {σ τ : Shared} {h : Hash} {α β : Type} {shelf : Shelf}
  {hashes : List Hash}

def Clean (t : Trace) : Prop :=
  ∀ e ∈ t, e.smooth

def Tidy (σ : Shared) : Prop :=
  ∃ shelf, Stands σ.store shelf ∧ ∀ h, (shelf h).Tidy

def Filed (b : Backend) : Prop :=
  ∀ k, (b.get? k).isSome → (∃ field h, k = key field h) ∨ k = cursorKey

theorem filed_served {r : Request} {a : r.Answer} (hallows : Allows s r σ) (hserved : Served r a σ τ)
    (hfiled : Filed σ.store) (e : Event) : Filed (τ.note e).store := by
  rw [Shared.store_note]
  rcases hserved.store with hsame | ⟨c, rfl, hstore⟩
  · rwa [hsame]
  · rw [hstore]
    cases c with
    | get k => rwa [Backend.perform_get]
    | scan start => rwa [Backend.perform_scan]
    | set k value =>
      intro k' hk'
      rw [Backend.get?_set] at hk'
      split at hk'
      · rename_i heq
        subst heq
        cases hallows with
        | cursor => exact .inr rfl
        | _ => exact .inl ⟨_, _, rfl⟩
      · exact hfiled k' hk'
    | delete k =>
      intro k' hk'
      rw [Backend.get?_delete] at hk'
      split at hk'
      · cases hk'
      · exact hfiled k' hk'

/-- The pending set is read with tidy cards, and every task leaves tidy cards where it waits. -/
def tidiness (s : Settings) : Clause (conduct s) where
  Good _ e := e.smooth
  Inv σ := Filed σ.store
  Calm := Tidy
  Onward _ _ := True
  refl _ := trivial
  trans _ _ := trivial
  Allows _ r σ := r = .store (.call (.scan Field.pending.mark)) → Tidy σ
  Ready _ _ _ := True
  ready_apart _ _ _ _ := trivial
  ready_spawned _ _ := trivial
  served _ hfiled hallows _ hserved _ _ := ⟨filed_served hallows hserved hfiled _, trivial⟩
  began _ hfiled _ := ⟨hfiled, trivial, id⟩
  crashed _ _ hgood := by cases hgood

theorem tidiness_allows {r : Request} (h : r = .store (.call (.scan Field.pending.mark)) → Tidy σ) :
    (tidiness s).Allows i r σ :=
  h

theorem tidiness_serves : (tidiness s).Serves i (fun _ _ _ => True) True where
  allows hdesk := tidiness_allows fun heq => by
    cases heq
    exact hdesk.elim
  good hgood _ := by simpa [tidiness, Event.smooth] using hgood

def AllSeeded (hashes : List Hash) (σ : Shared) : Prop :=
  ∀ h ∈ hashes, Seeded σ.store h

theorem AllSeeded.onward (hS : AllSeeded hashes σ) (hon : Onward s σ τ) : AllSeeded hashes τ :=
  fun h hmem => hon.seeded h (hS h hmem)

theorem allSeeded_nil : AllSeeded [] σ :=
  fun _ hmem => nomatch hmem

theorem Tidy.served {r : Request} {a : r.Answer} (ht : Tidy σ) (hr : r.SparesCards)
    (hserved : Served r a σ τ) (e : Event) : Tidy (τ.note e) := by
  obtain ⟨shelf, hs, htidy⟩ := ht
  have hsτ : Stands τ.store shelf := stands_served hs hr hserved
  exact ⟨shelf, hsτ, htidy⟩

theorem tidiness_homely (hashes : List Hash) : (tidiness s).Homely i (AllSeeded hashes) where
  apart hS hsince _ := hS.onward hsince.base.2
  allows hr _ := tidiness_allows fun heq => absurd heq (hr.noScan _)
  keeps hr hσ hserved _ hsince :=
    ⟨hσ.calm.served hr.sparesCards hserved _, hσ.own.onward hsince.base.2⟩

/-- What a task of the clause does that is at home with seeds of these hashes. -/
abbrev Tidies (s : Settings) (i : Nat) (hashes : List Hash) (α : Type) (p : Activity α) : Prop :=
  (tidiness s).Minds i (AllSeeded hashes) α p

theorem tidies (hashes : List Hash) :
    Habit (Tidies s i hashes) ((tidiness s).MindsTurn i (AllSeeded hashes)) :=
  (tidiness_homely hashes).turns fun _ _ => trivial

theorem tidies_ask {r : Request} (hr : r.SparesCards) (hscan : ∀ start, r ≠ .store (.call (.scan start))) :
    Tidies s i hashes _ (ask r) := by
  intro σ hσ
  refine (tidiness_homely hashes).upholds_ask hσ
    (fun _ _ _ _ => tidiness_allows fun heq => absurd heq (hscan _)) ?_
  intro τ a υ hτ _ _ hserved _ hsince
  exact ⟨hτ.calm.served hr hserved _, hτ.own.onward hsince.base.2⟩

theorem tidies_receipt (tx : TxHash) (poll timeout : Nat) :
    Tidies s i hashes _ (ask (.receipt tx poll timeout)) :=
  tidies_ask trivial fun _ heq => nomatch heq

theorem record_of_seeded (hs : Stands σ.store shelf) (htidy : ∀ h, (shelf h).Tidy)
    (hseeded : Seeded σ.store h) : (shelf h).record.isSome := by
  refine (htidy h).record ?_
  unfold Seeded at hseeded
  rwa [(hs h).seed, Option.isSome_map] at hseeded

theorem tidy_update {c : Card} (hs : Stands τ.store (Function.update shelf h c))
    (htidy : ∀ k, (shelf k).Tidy) (hc : c.Tidy) : Tidy τ := by
  refine ⟨_, hs, fun k => ?_⟩
  by_cases hk : k = h
  · subst hk
    rw [Function.update_self]
    exact hc
  · rw [Function.update_of_ne hk]
    exact htidy k

theorem Turned.tidy {op : Int64 → Card → Card} (ht : Turned shelf h op τ) (htidy : ∀ h, (shelf h).Tidy)
    (hop : ∀ time, (op time (shelf h)).Tidy) : Tidy τ := by
  obtain ⟨time, hs⟩ := ht
  exact tidy_update hs htidy (hop time)

abbrev tidyDesk (i : Nat) : Surroundings Repository.interface :=
  desk i (fun _ _ _ => True) True

theorem tidies_operation {x : Repository.Action α}
    (hx : ∀ σ shelf, Stands σ.store shelf → (∀ h, (shelf h).Tidy) → AllSeeded hashes σ →
      Attempts (tidyDesk i) x (fun _ τ => Tidy τ) (barring True) σ) :
    Tidies s i hashes _ (callRepository x) := by
  refine tidiness_serves.minds fun σ hσ => ?_
  obtain ⟨shelf, hs, htidy⟩ := hσ.calm
  exact upholds_run.2 ((hx σ shelf hs htidy hσ.own).imp
    (fun _ _ hτ _ hsince => ⟨hτ, hσ.own.onward hsince.base.2⟩) fun _ _ hno => absurd trivial hno)

theorem tidies_setStatus {st : Status} (hst : st.isTerminal = false) (hh : h ∈ hashes) :
    Tidies s i hashes _ (callRepository (Repository.setStatus h st)) :=
  tidies_operation fun _ _ hs htidy hS =>
    (desk_setStatus hs st fun _ _ _ _ _ _ => trivial).imp (fun _ _ ht => ht.tidy htidy
      fun time => (htidy h).setStatus hst (record_of_seeded hs htidy (hS h hh)) time) fun _ _ => id

theorem tidies_setCommitBlock (block : Word) (hh : h ∈ hashes) :
    Tidies s i hashes _ (callRepository (Repository.setCommitBlock h block)) :=
  tidies_operation fun _ _ hs htidy hS =>
    (desk_setCommitBlock hs block fun _ _ _ _ _ _ => trivial).imp (fun _ _ ht => ht.tidy htidy
      fun time => (htidy h).setCommitBlock (record_of_seeded hs htidy (hS h hh)) block time) fun _ _ => id

theorem tidies_finish (st : Status) (hst : st.isTerminal) : Tidies s i hashes _
    (callRepository (do Repository.clearPending h; discard <| Repository.setStatus h st)) :=
  tidies_operation fun _ _ hs htidy _ =>
    (desk_finish hs st fun _ _ _ _ _ _ => trivial).imp (fun _ _ ht => ht.tidy htidy
      fun time => Card.tidy_finish hst time) fun _ _ => id

theorem tidies_markRevealed (seed : Option Seed) :
    Tidies s i hashes _ (callRepository (Repository.markRevealed h seed)) :=
  tidies_operation fun _ _ hs htidy _ =>
    (desk_markRevealed hs seed fun _ _ _ _ _ _ => trivial).imp (fun _ _ ht => ht.tidy htidy
      fun time => Card.tidy_markRevealed seed time) fun _ _ => id

section Parts

variable (s i)

theorem tidies_seeded {f : Option Seed → Attempt β} (hnone : Tidies s i hashes _ (f none).run)
    (hsome : ∀ seed, Tidies s i (h :: hashes) _ (f (some seed)).run) :
    Tidies s i hashes _ (repository (Repository.seed h) >>= f).run := by
  intro σ hσ
  obtain ⟨shelf, hs, htidy⟩ := hσ.calm
  refine upholds_run.2 (tidiness_serves.andThen hσ.since (desk_seed hs)
    (fun _ _ hno => absurd trivial hno) ?_)
  rintro seed τ ⟨rfl, hτ⟩ - hsince
  have hcalm : Tidy τ := ⟨shelf, hτ ▸ hs, htidy⟩
  have hown : AllSeeded hashes τ := hσ.own.onward hsince.base.2
  cases hseed : (shelf h).seed with
  | none => exact upholds_run.1 (hnone τ ⟨hsince.refl, hcalm, hown⟩)
  | some seed =>
    have hseeded : Seeded τ.store h := by
      unfold Seeded
      rw [hτ, (hs h).seed, hseed]
      rfl
    have hall : AllSeeded (h :: hashes) τ := fun k hk =>
      (List.mem_cons.1 hk).elim (fun heq => heq ▸ hseeded) (hown k)
    refine upholds_run.1 ((hsome seed τ ⟨hsince.refl, hcalm, hall⟩).imp fun _ υ hυ => ?_)
    exact ⟨hυ.1, fun k hk => hυ.2 k (List.mem_cons_of_mem h hk)⟩

theorem tidies_advance (hh : h ∈ hashes) {rest : Attempt Unit} (hrest : Tidies s i hashes _ rest.run) :
    Tidies s i hashes _ (Habit.advance h rest).run := by
  have hF := tidies (s := s) (i := i) hashes
  refine hF.attempt hF.status fun status => ?_
  split
  · have hset : Tidies s i hashes _ (callRepository (Repository.setStatus h .pendingReveal)) :=
      tidies_setStatus rfl hh
    exact hF.attempt (hF.attempt (hF.repository hset) fun _ => hF.done _) fun _ => hrest
  · exact hrest

theorem tidies_trigger (event : OracleEvent) (mode : ScanMode) :
    Tidies s i [] _ (triggerReveal event mode).run := by
  cases event with
  | subscribed committer consumer h =>
    have hF := tidies (s := s) (i := i) [h]
    refine tidies_seeded s i ((tidies []).done _) fun seed => ?_
    refine hF.attempt hF.isPending fun pending => ?_
    split
    · exact hF.attempt (hF.lift (hF.notify _)) fun _ => hF.lift (hF.requestReveal h)
    · exact hF.done _
  | commitRegistered sender h block =>
    have hF := tidies (s := s) (i := i) [h]
    refine tidies_seeded s i ((tidies []).done _) fun seed => ?_
    refine hF.attempt (hF.repository (tidies_setCommitBlock block (List.mem_singleton_self h))) fun _ => ?_
    refine hF.attempt hF.isPending fun pending => ?_
    split
    · refine tidies_advance s i (List.mem_singleton_self h) ?_
      cases mode with
      | backfill => exact hF.lift (hF.requestReveal h)
      | live =>
        exact hF.attempt (hF.lift (hF.plain (.spawn (.delayedReveal h)) trivial)) fun _ => hF.done _
    · exact hF.done _
  | seedRevealed committer h seed => exact (tidies []).repository (tidies_markRevealed _)
  | unsubscribed consumer h => exact (tidies []).done _
  | randomConsumed consumer h => exact (tidies []).done _

end Parts

end CommitReveal.Agent
