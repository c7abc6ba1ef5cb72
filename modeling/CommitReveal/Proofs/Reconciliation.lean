import CommitReveal.Proofs.Prompt
import CommitReveal.Proofs.ReconcilePass

/-! What a reconcile pass makes of each hash when no call fails. It drops the hashes that need no reveal, and notes
of those that the oracle lists what the oracle says of them. -/
namespace CommitReveal.Agent

open Program
open Repository (key key_inj peek Card Shelf Legible)

variable {s : Settings} {head : Word} {h : Hash} {r : OracleRecord} {records : List OracleRecord} {c : Card}
  {σ τ : Passage} {t : Transcript interface}

/-- What the oracle's record of a hash makes of the card of that hash. -/
structure Reconciled (s : Settings) (head : Word) (r : OracleRecord) (c c' : Card) : Prop where
  revealed : r.revealed = true → c'.pending = false ∧
    c'.seed = (if r.seed = .zero 32 then c.seed else some r.seed) ∧
    c'.status = (if c.finished then c.status else some .revealed) ∧ c'.block = c.block
  expired : r.revealed = false → isExpired r.commitBlock head s.limits.maxUnverified = true →
    c'.pending = false ∧ c'.seed = c.seed ∧
    c'.status = (if c.finished then c.status else some .expired) ∧ c'.block = some r.commitBlock
  owed : r.revealed = false → isExpired r.commitBlock head s.limits.maxUnverified = false →
    c'.pending = c.pending ∧ c'.seed = c.seed ∧ c'.status = some (c.status.getD .committed) ∧
    c'.block = some r.commitBlock

theorem reconciled_markRevealed (hrevealed : r.revealed = true) (time : Int64) :
    Reconciled s head r c (c.markRevealed (if r.seed = .zero 32 then none else some r.seed) time) where
  revealed _ := by
    refine ⟨Card.pending_markRevealed, ?_, Card.status_markRevealed, Card.block_markRevealed⟩
    rw [Card.seed_markRevealed]
    split <;> rfl
  expired hopen := by rw [hrevealed] at hopen; cases hopen
  owed hopen := by rw [hrevealed] at hopen; cases hopen

theorem finished_setCommitBlock {block : Word} {time : Int64} :
    (c.setCommitBlock block time).finished = c.finished := by
  unfold Card.finished
  rw [Card.status_setCommitBlock]
  cases c.status <;> rfl

theorem reconciled_markExpired (hopen : r.revealed = false)
    (hexpired : isExpired r.commitBlock head s.limits.maxUnverified = true) (time time' : Int64) :
    Reconciled s head r c ((c.setCommitBlock r.commitBlock time).finish .expired time') where
  revealed hrevealed := by rw [hrevealed] at hopen; cases hopen
  expired _ _ := by
    unfold Card.finish
    refine ⟨Card.pending_setStatus .., ?_, ?_, Card.block_setStatus.trans Card.block_setCommitBlock⟩
    · rw [Card.seed_setStatus]
      exact Card.seed_setCommitBlock
    · refine Card.status_setStatus.trans ?_
      have hfinished : (c.setCommitBlock r.commitBlock time).clearPending.finished = c.finished :=
        finished_setCommitBlock
      have hstatus : (c.setCommitBlock r.commitBlock time).clearPending.status =
          some (c.status.getD .committed) :=
        Card.status_setCommitBlock
      rw [hfinished, hstatus]
      split
      · rename_i hfinal
        -- a status that is final was there before
        cases hst : c.status with
        | none => simp [Card.finished, hst] at hfinal
        | some st => rfl
      · rfl
  owed _ hfresh := by rw [hexpired] at hfresh; cases hfresh

theorem reconciled_setCommitBlock (hopen : r.revealed = false)
    (hfresh : isExpired r.commitBlock head s.limits.maxUnverified = false) (time : Int64) :
    Reconciled s head r c (c.setCommitBlock r.commitBlock time) where
  revealed hrevealed := by rw [hrevealed] at hopen; cases hopen
  expired _ hexpired := by rw [hexpired] at hfresh; cases hfresh
  owed _ _ := ⟨Card.pending_setCommitBlock, Card.seed_setCommitBlock, Card.status_setCommitBlock,
    Card.block_setCommitBlock⟩

theorem endsAfter_reconcileListed {result : Except AgentError Bool} (hc : Legible σ.shared.store h c)
    (hfair : Unfailed t) (hends : (reconcileListed s head h r).run.EndsAfter among σ t result τ) :
    ∃ owed c', result = .ok owed ∧ Legible τ.shared.store h c' ∧ Reconciled s head r c c' := by
  unfold reconcileListed at hends
  split at hends
  · rename_i hrevealed
    obtain ⟨t₁, t₂, ⟨⟩, υ, rfl, -, ⟨time, hcard⟩, -, hrest⟩ :=
      past_repository prompt_among (Repository.tries_markRevealed hc _) hfair hends
    obtain ⟨-, rfl, rfl⟩ := endsAfter_done.1 hrest
    exact ⟨false, _, rfl, hcard, reconciled_markRevealed hrevealed time⟩
  rename_i hrevealed
  have hopen : r.revealed = false := eq_false_of_ne_true hrevealed
  obtain ⟨t₁, t₂, ⟨⟩, υ, rfl, -, ⟨time, hblock⟩, hfair', hrest⟩ :=
    past_repository prompt_among (Repository.tries_setCommitBlock hc _) hfair hends
  split at hrest
  · rename_i hexpired
    obtain ⟨t₄, rfl, hexpire⟩ := past_notify prompt_among hrest
    have hfair'' : Unfailed t₄ := fun y hy => hfair' y (List.mem_cons_of_mem _ hy)
    obtain ⟨t₅, t₆, ⟨⟩, ρ, rfl, -, ⟨time', hcard⟩, -, hend⟩ :=
      past_repository prompt_among (Repository.tries_finish hblock .expired) hfair'' hexpire
    obtain ⟨-, rfl, rfl⟩ := endsAfter_done.1 hend
    exact ⟨false, _, rfl, hcard, reconciled_markExpired hopen hexpired time time'⟩
  · rename_i hexpired
    obtain ⟨-, rfl, rfl⟩ := endsAfter_done.1 hrest
    exact ⟨true, _, rfl, hblock, reconciled_setCommitBlock hopen (eq_false_of_ne_true hexpired) time⟩

theorem endsAfter_reconcileOne {result : Except AgentError Bool} {cards : Shelf}
    (hc : (listed? records h).isSome → Legible σ.shared.store h (cards h)) (hfair : Unfailed t)
    (hends : (reconcileOne s records head h).run.EndsAfter among σ t result τ) :
    result = .ok (isOwed s records head h) ∧
    (∀ r, listed? records h = some r → ∃ c', Legible τ.shared.store h c' ∧ Reconciled s head r (cards h) c') ∧
    ∀ k, ((listed? records h).isSome → ∀ field, k ≠ key field h) →
      τ.shared.store.get? k = σ.shared.store.get? k := by
  unfold reconcileOne at hends
  unfold isOwed
  cases hlisted : listed? records h with
  | none =>
    rw [hlisted] at hends
    obtain ⟨rfl, rfl, rfl⟩ := endsAfter_done.1 hends
    exact ⟨rfl, nofun, fun _ _ => rfl⟩
  | some r =>
    rw [hlisted] at hends hc
    obtain ⟨owed, c', rfl, hc', hreconciled⟩ := endsAfter_reconcileListed (hc rfl) hfair hends
    obtain ⟨rfl, hnoted⟩ := (spares_reconcileListed head h r σ).ends hends.ends
    refine ⟨rfl, ?_, fun k hk => hnoted.entries k (hk rfl)⟩
    rintro _ ⟨⟩
    exact ⟨c', hc', hreconciled⟩

theorem endsAfter_reconcileAll {hashes : List Hash} {result : Except AgentError (List Hash)} {cards : Shelf}
    (hnodup : hashes.Nodup)
    (hc : ∀ h ∈ hashes, (listed? records h).isSome → Legible σ.shared.store h (cards h)) (hfair : Unfailed t)
    (hends : (reconcileAll s records head hashes).run.EndsAfter among σ t result τ) :
    result = .ok (hashes.filter (isOwed s records head)) ∧
    (∀ h ∈ hashes, ∀ r, listed? records h = some r →
      ∃ c', Legible τ.shared.store h c' ∧ Reconciled s head r (cards h) c') ∧
    ∀ k, (∀ h ∈ hashes, (listed? records h).isSome → ∀ field, k ≠ key field h) →
      τ.shared.store.get? k = σ.shared.store.get? k := by
  induction hashes generalizing σ t result with
  | nil =>
    obtain ⟨rfl, rfl, rfl⟩ := endsAfter_done.1 hends
    exact ⟨rfl, nofun, fun _ _ => rfl⟩
  | cons h rest ih =>
    obtain ⟨hfresh, hnodup'⟩ := List.nodup_cons.1 hnodup
    have hfirst := hc h List.mem_cons_self
    rcases hends.of_attempt with ⟨cause, rfl, hone⟩ | ⟨t₁, t₂, owed, υ, rfl, hone, hrest⟩
    · exact nomatch (endsAfter_reconcileOne hfirst hfair hone).1
    have hfair₁ : Unfailed t₁ := fun y hy => hfair y (List.mem_append_left t₂ hy)
    have hfair₂ : Unfailed t₂ := fun y hy => hfair y (List.mem_append_right t₁ hy)
    obtain ⟨howed, hnow, hentries⟩ := endsAfter_reconcileOne hfirst hfair₁ hone
    cases howed
    -- the cards of the others have not been touched
    have hother : ∀ g ∈ rest, (listed? records g).isSome → Legible υ.shared.store g (cards g) := by
      intro g hg hsome
      refine (hc g (List.mem_cons_of_mem h hg) hsome).of_same fun field _ => hentries _ fun _ field' heq => ?_
      exact hfresh ((key_inj.1 heq).2 ▸ hg)
    rcases hrest.of_attempt with ⟨cause, rfl, hothers⟩ | ⟨t₃, t₄, work, ω, rfl, hothers, hend⟩
    · exact nomatch (ih hnodup' hother hfair₂ hothers).1
    obtain ⟨rfl, rfl, rfl⟩ := endsAfter_done.1 hend
    rw [List.append_nil] at hfair₂
    obtain ⟨hwork, hthen, hentries'⟩ := ih hnodup' hother hfair₂ hothers
    cases hwork
    refine ⟨by rw [List.filter_cons], fun g hg r hr => ?_, fun k hk => ?_⟩
    · rcases List.mem_cons.1 hg with rfl | hg
      · obtain ⟨c', hc', hreconciled⟩ := hnow r hr
        refine ⟨c', hc'.of_same fun field _ => hentries' _ fun g' hg' _ field' heq => ?_, hreconciled⟩
        exact hfresh ((key_inj.1 heq).2 ▸ hg')
      · exact hthen g hg r hr
    · rw [hentries' k fun g hg => hk g (List.mem_cons_of_mem h hg), hentries k (hk h List.mem_cons_self)]

/-- Of records of distinct hashes the one that counts for a hash is the same in any order. -/
theorem listed?_of_perm {records' : List OracleRecord} (hperm : records.Perm records')
    (hdistinct : (records.map (·.hash)).Nodup) (h : Hash) : listed? records' h = listed? records h := by
  have hfiltered : (records.filter fun r => r.hash = h).Perm (records'.filter fun r => r.hash = h) :=
    hperm.filter _
  have hsub : ((records.filter fun r => r.hash = h).map (·.hash)).Nodup :=
    hdistinct.sublist (List.filter_sublist.map _)
  unfold listed?
  match hmatch : records.filter fun r => r.hash = h with
  | [] =>
    rw [hmatch] at hfiltered
    rw [List.nil_perm.1 hfiltered, hmatch]
  | [r] =>
    rw [hmatch] at hfiltered
    rw [← List.singleton_perm.1 hfiltered, hmatch]
  | r :: r' :: rest =>
    have hall : ∀ x ∈ r :: r' :: rest, x.hash = h := by
      intro x hx
      rw [← hmatch] at hx
      simpa using (List.mem_filter.1 hx).2
    rw [hmatch, List.map_cons, hall r (by simp), List.map_cons, hall r' (by simp)] at hsub
    exact absurd List.mem_cons_self (List.nodup_cons.1 hsub).1

theorem reconcileAll_congr {records' : List OracleRecord}
    (hsame : ∀ h, listed? records' h = listed? records h) (hashes : List Hash) :
    reconcileAll s records' head hashes = reconcileAll s records head hashes := by
  induction hashes with
  | nil => rfl
  | cons h rest ih => rw [reconcileAll, reconcileAll, ih, reconcileOne, reconcileOne, hsame]

theorem isOwed_iff : isOwed s records head h = true ↔ ∃ r, listed? records h = some r ∧
    r.revealed = false ∧ head < Word.saturatingAdd r.commitBlock s.limits.maxUnverified := by
  unfold isOwed
  cases listed? records h with
  | none => simp
  | some r => simp [isExpired]

/-- What a pass is told first: the oracle's list and the head. -/
def briefing (s : Settings) (records : List OracleRecord) (head : Word) (t : Transcript interface) :
    Transcript interface :=
  ⟨.chain (.listUnverified s.agent), .ok records⟩ :: ⟨.chain .blockNumber, .ok head⟩ :: t

/-- The others may do as they like until the head is read; from then on the pass is alone. -/
theorem endsAfter_briefing {candidates : List Hash} {result : Except AgentError (List Hash)} :
    (reconcile s candidates).run.EndsAfter among σ (briefing s records head t) result τ ↔
      ∃ υ : Passage, υ.left = υ.shared ∧
        (reconcileAll s records head candidates.eraseDups).run.EndsAfter among υ t result τ := by
  constructor
  · intro hends
    obtain ⟨listing, u, _, _, hlist, -, -, hrest⟩ := endsAfter_ask.1 hends
    cases hlist
    obtain ⟨reading, u, ω, υ, hread, hmeanwhile, ⟨hshared, hleft⟩, hpass⟩ := endsAfter_ask.1 hrest
    cases hread
    refine ⟨υ, ?_, hpass⟩
    have hsame : υ.shared = ω.shared := hshared
    rw [hleft, (meanwhile_wait rfl).1 hmeanwhile, hsame]
  · rintro ⟨υ, hleft, hpass⟩
    have hserved (c : Chain.Call) (answer : Except ChainError c.Result) :
        among.Served (.chain c) answer υ υ := ⟨rfl, rfl⟩
    exact .ask ((meanwhile_wait rfl).2 hleft) (hserved (.listUnverified s.agent) (.ok records))
      (.ask ((meanwhile_wait rfl).2 hleft) (hserved .blockNumber (.ok head)) hpass)

def Request.Local : Request → Prop
  | .store _ | .notify _ => True
  | _ => False

theorem Request.Local.served {r : Request} (hr : r.Local) (σ : Passage) :
    ∃ a τ υ, among.Meanwhile r σ τ ∧ among.Served r a τ υ ∧ storeFailed ⟨r, a⟩ = false := by
  cases r with
  | store q =>
    cases q with
    | call c => exact ⟨.ok (σ.shared.store.perform c).1, σ, ⟨_, σ.left⟩, rfl, ⟨.inr ⟨.inl rfl, rfl⟩, rfl⟩, rfl⟩
    | clock => exact ⟨0, σ, σ, rfl, ⟨rfl, rfl⟩, rfl⟩
  | notify n => exact ⟨(), σ, σ, rfl, ⟨rfl, rfl⟩, rfl⟩
  | _ => exact hr.elim

/-- When no call fails, a pass gives back the distinct candidates that are still owed, in order, and notes
of each listed candidate what the oracle says. -/
theorem reconcile_drops_settled (s : Settings) (candidates : List Hash) (σ : Passage)
    (records : List OracleRecord) (head : Word) :
    (∀ ρ : Shared, ∃ t result τ,
      (reconcile s candidates).run.EndsAfter among σ (briefing s records head t) result τ ∧ Unfailed t ∧ τ.left = ρ) ∧
    ∀ t result τ, (reconcile s candidates).run.EndsAfter among σ (briefing s records head t) result τ →
      Unfailed t →
      ∀ cards : Shelf,
        (∀ h ∈ candidates, (listed? records h).isSome → Legible τ.left.store h (cards h)) →
        (∃ work, result = .ok work ∧ work = candidates.eraseDups.filter (isOwed s records head) ∧
          ∀ h, h ∈ work ↔ h ∈ candidates ∧ ∃ r, listed? records h = some r ∧ r.revealed = false ∧
            head < Word.saturatingAdd r.commitBlock s.limits.maxUnverified) ∧
        (∀ h ∈ candidates, ∀ r, listed? records h = some r →
          ∃ c', Legible τ.shared.store h c' ∧ Reconciled s head r (cards h) c') ∧
        (∀ k, (∀ h ∈ candidates, (listed? records h).isSome → ∀ field, k ≠ key field h) →
          τ.shared.store.get? k = τ.left.store.get? k) ∧
        τ.shared.memory = τ.left.memory ∧
        ∀ records', records.Perm records' → (records.map (·.hash)).Nodup →
          (reconcile s candidates).run.EndsAfter among σ (briefing s records' head t) result τ := by
  constructor
  · intro ρ
    have hlocal : (reconcileAll s records head candidates.eraseDups).run.Only Request.Local :=
      only_reconcileAll (fun _ => trivial) (fun _ => trivial) records head _
    obtain ⟨t, result, τ, hends, hfair⟩ :=
      exists_endsAfter_such (E := among) (P := fun x => storeFailed x = false)
        (fun r σ hr => Request.Local.served hr σ) hlocal ⟨ρ, ρ⟩
    exact ⟨t, result, τ, endsAfter_briefing.2 ⟨⟨ρ, ρ⟩, rfl, hends⟩, hfair, (spared_of_endsAfter hends).left⟩
  · intro t result τ hends hfair cards hcards
    obtain ⟨υ, hleft, hpass⟩ := endsAfter_briefing.1 hends
    have hspared : Spared records υ τ := spared_of_endsAfter hpass
    have hstart : τ.left = υ.shared := hspared.left.trans hleft
    rw [hstart] at hcards ⊢
    obtain ⟨hwork, hnoted, hentries⟩ := endsAfter_reconcileAll (nodup_eraseDups candidates)
      (fun h hh => hcards h (List.mem_eraseDups.1 hh)) hfair hpass
    refine ⟨⟨_, hwork, rfl, fun h => ?_⟩, fun h hh => hnoted h (List.mem_eraseDups.2 hh),
      fun k hk => hentries k fun h hh => hk h (List.mem_eraseDups.1 hh), hspared.memory, ?_⟩
    · rw [List.mem_filter, List.mem_eraseDups, isOwed_iff]
    · intro records' hperm hdistinct
      refine endsAfter_briefing.2 ⟨υ, hleft, ?_⟩
      rwa [reconcileAll_congr (listed?_of_perm hperm hdistinct)]

/-- An oracle's record of a hash without a consumer. -/
def unconsumed (hash : Hash) (block : Word) (seed : Seed) (revealed : Bool) : OracleRecord :=
  ⟨hash, .fill 20 1, block, seed, revealed, 0, .zero 20, .zero 20, 0, 0⟩

theorem reconcile_drops_settled_firstCommit : ∃ t τ c',
    (reconcile usual [.fill 32 3, .fill 32 5, .fill 32 3]).run.EndsAfter among
      ⟨(firstCommit (.ok (.fill 32 4)) 15).1, (firstCommit (.ok (.fill 32 4)) 15).1⟩
      (briefing usual
        [unconsumed (.fill 32 3) 7 (.zero 32) true, unconsumed (.fill 32 5) 10 (.zero 32) false] 409 t)
      (.ok [.fill 32 5]) τ ∧
    peek (Repository.isPending (.fill 32 3)) (firstCommit (.ok (.fill 32 4)) 15).1.store = .ok true ∧
    Legible τ.shared.store (.fill 32 3) c' ∧ c'.pending = false ∧ c'.status = some .revealed := by
  let ρ : Shared := (firstCommit (.ok (.fill 32 4)) 15).1
  let records := [unconsumed (.fill 32 3) 7 (.zero 32) true, unconsumed (.fill 32 5) 10 (.zero 32) false]
  obtain ⟨hexists, hall⟩ := reconcile_drops_settled usual [.fill 32 3, .fill 32 5, .fill 32 3] ⟨ρ, ρ⟩ records 409
  obtain ⟨t, result, τ, hends, hfair, hleft⟩ := hexists ρ
  let cards : Shelf := fun h =>
    if h = .fill 32 3 then ⟨some (seedOf usual.agent (.zero 32)), some ⟨.created, none, 0⟩, true⟩
    else ⟨none, none, false⟩
  have hcards : ∀ h ∈ [.fill 32 3, .fill 32 5, .fill 32 3], (listed? records h).isSome →
      Legible τ.left.store h (cards h) := by
    intro h hh _
    rw [hleft]
    rcases List.mem_cons.1 hh with rfl | hh
    · exact Card.Shows.legible ⟨rfl, rfl, rfl⟩
    rcases List.mem_cons.1 hh with rfl | hh
    · exact Legible.of_unknown fun field => by cases field <;> rfl
    · obtain rfl := List.mem_singleton.1 hh
      exact Card.Shows.legible ⟨rfl, rfl, rfl⟩
  obtain ⟨⟨work, rfl, hwork, -⟩, hnoted, -⟩ := hall t result τ hends hfair cards hcards
  obtain ⟨c', hc', hreconciled⟩ := hnoted (.fill 32 3) (by simp) _ rfl
  obtain ⟨hpending, -, hstatus, -⟩ := hreconciled.revealed rfl
  have howed : work = [.fill 32 5] := hwork.trans (by decide +kernel)
  subst howed
  exact ⟨t, τ, c', hends, rfl, hc', hpending, hstatus⟩

end CommitReveal.Agent
