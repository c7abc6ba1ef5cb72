import CommitReveal.Proofs.Play
import CommitReveal.Proofs.Tidiness

/-! The pending set is the set of unfinished commitments: issuing a commit, a reconcile pass and a reveal
all keep the cards tidy, so that whatever a pass reads there is just what is unfinished. -/
namespace CommitReveal.Agent

open Program
open Repository (Field key Seeded Marked Card Shelf Stands peek)

variable {s : Settings} {i : Nat} {σ τ : Shared} {h : Hash} {α β : Type} {shelf : Shelf}
  {hashes : List Hash}

theorem tidies_prepared {seed : Seed} {x : Attempt β} (hx : Tidies s i [h] _ x.run) :
    Tidies s i [] _ (do
      repository (Repository.storeSeed h seed)
      discard <| repository (Repository.markPending h)
      x : Attempt β).run := by
  intro σ hσ
  obtain ⟨shelf, hs, htidy⟩ := hσ.calm
  have hstore := desk_storeSeed (i := i) (h := h) (A := fun _ _ _ => True) (G := True) hs seed
    fun _ _ _ _ _ _ => trivial
  refine upholds_run.2 (tidiness_serves.andThen hσ.since hstore (fun _ _ hno => absurd trivial hno) ?_)
  rintro _ τ ⟨time, hτ⟩ - hsince
  refine tidiness_serves.andThenDiscard hsince.refl (desk_markPending (h := h) hτ)
    (fun _ _ hno => absurd trivial hno) ?_
  intro _ _ υ hυ _ hsince'
  rw [Function.update_self, Function.update_idem] at hυ
  have hcalm : Tidy υ := tidy_update hυ htidy ((htidy h).storeSeed seed time)
  have hseeded : AllSeeded [h] υ := by
    intro k hk
    obtain rfl := List.mem_singleton.1 hk
    unfold Seeded
    rw [(hυ k).seed, Function.update_self]
    unfold Card.markPending
    split <;> rfl
  refine upholds_run.1 ((hx υ ⟨hsince'.refl, hcalm, hseeded⟩).imp fun _ _ hω => ⟨hω.1, allSeeded_nil⟩)

theorem tidies_markAbandoned : Tidies s i hashes _ (callRepository (Repository.markAbandoned h)) :=
  tidies_finish .abandoned rfl

theorem tidies_markExpired : Tidies s i hashes _ (callRepository (Repository.markExpired h)) :=
  tidies_finish .expired rfl

theorem tidies_commitTick : Tidies s i [] _ (commitTick s) := by
  have hF := tidies (s := s) (i := i) []
  refine hF.commitTick ?_
  unfold issueCommit
  refine hF.attempt (hF.lift (hF.bind (hF.plain .entropy trivial) fun _ => hF.done _)) fun seed => ?_
  refine hF.attempt (hF.chain (c := .computeCommitHash seed) trivial) fun hash => ?_
  refine tidies_prepared ?_
  have hF := tidies (s := s) (i := i) [hash]
  have hmem : hash ∈ [hash] := List.mem_singleton_self hash
  refine hF.attempt (hF.lift (hF.submit fun _ => hF.plain (.chain _) trivial)) fun answer => ?_
  cases answer with
  | error cause =>
    refine hF.attempt (hF.lift (hF.notify _)) fun _ => ?_
    exact hF.attempt (hF.repository tidies_markAbandoned) fun _ => hF.done _
  | ok tx =>
    refine hF.attempt (hF.storeTx tx) fun _ => ?_
    have hset : Tidies s i [hash] _ (callRepository (Repository.setStatus hash .committed)) :=
      tidies_setStatus rfl hmem
    refine hF.attempt (hF.attempt (hF.repository hset) fun _ => hF.done _) fun _ => ?_
    refine hF.attempt (hF.lift (hF.notify _)) fun _ => ?_
    refine hF.attempt (hF.lift (hF.confirm tidies_receipt tx)) fun outcome => ?_
    exact hF.settleCommit (tidies_setStatus rfl hmem) (fun b => tidies_setCommitBlock b hmem)
      tidies_markAbandoned outcome

theorem tidies_reconcileAll (records : List OracleRecord) (head : Word) {some : List Hash}
    (hsome : ∀ h ∈ some, h ∈ hashes) :
    Tidies s i hashes _ (reconcileAll s records head some).run := by
  have hF := tidies (s := s) (i := i) hashes
  induction some with
  | nil => exact hF.done _
  | cons h rest ih =>
    have hone : Tidies s i hashes _ (reconcileOne s records head h).run := by
      unfold reconcileOne reconcileListed
      split
      · exact hF.done _
      split
      · exact hF.attempt (hF.repository (tidies_markRevealed _)) fun _ => hF.done _
      have hblock (b : Word) := tidies_setCommitBlock (s := s) (i := i) b (hsome h List.mem_cons_self)
      refine hF.attempt (hF.repository (hblock _)) fun _ => ?_
      split
      · refine hF.attempt (hF.lift (hF.notify _)) fun _ => ?_
        exact hF.attempt (hF.repository tidies_markExpired) fun _ => hF.done _
      · exact hF.done _
    refine hF.attempt hone fun owed => ?_
    exact hF.attempt (ih fun k hk => hsome k (List.mem_cons_of_mem h hk)) fun work => hF.done _

theorem upholds_storedPending_tidy (hσ : (tidiness s).Home (AllSeeded []) σ) :
    storedPending.Upholds ((tidiness s).around i)
      (fun hashes τ => AllSeeded hashes τ ∧ Tidy τ) σ := by
  have hF := tidies (s := s) (i := i) []
  have hscan : Tidies s i [] _ (ask (.store (.call (.scan Field.pending.mark)))) := by
    intro σ hσ
    refine (tidiness_homely []).upholds_ask hσ (fun _ hτ _ _ => tidiness_allows fun _ => hτ.calm) ?_
    intro τ answer υ hτ _ _ hserved _ _
    exact ⟨hτ.calm.served (r := .store (.call (.scan _))) trivial hserved _, allSeeded_nil⟩
  have hread : Tidies s i [] _ storedPending := by
    refine hF.bind (hF.bind hscan fun answer => ?_) fun answer => ?_
    · cases answer <;> exact hF.done _
    · cases answer with
      | ok hashes => exact hF.done _
      | error cause => exact hF.bind (hF.notify _) fun _ => hF.done _
  refine (Clause.upholds_both hσ.since.base.1 (upholds_storedPending hσ.since.base.1) (hread σ hσ)).imp ?_
  exact fun hashes τ hτ => ⟨hτ.1, hτ.2.1⟩

theorem tidies_reconcileTick : Tidies s i [] _ (reconcileTick s) := by
  intro σ hσ
  unfold reconcileTick
  refine hσ.andThen (upholds_storedPending_tidy hσ) fun stored τ hτ hsince => ?_
  have hhome : (tidiness s).Home (AllSeeded stored) τ := ⟨hsince.refl, hτ.2, hτ.1⟩
  -- what was put off has seeds too, by the conduct
  have htake : (ask (.memory .takeDeferred)).Upholds ((tidiness s).around i)
      (fun deferred υ => Tidy υ ∧ AllSeeded (stored ++ deferred) υ) τ := by
    refine (tidiness_homely stored).upholds_ask hhome
      (fun _ _ _ _ => tidiness_allows fun heq => nomatch heq) fun υ deferred ω hυ _ _ hserved _ hon => ?_
    refine ⟨hυ.calm.served (r := .memory .takeDeferred) trivial hserved _, fun h hmem => ?_⟩
    rcases List.mem_append.1 hmem with hmem | hmem
    · exact hυ.own.onward hon.base.2 h hmem
    · obtain ⟨rfl, rfl⟩ := hserved
      exact hυ.since.base.1.named h (.deferred hmem)
  refine hhome.andThen htake fun deferred υ hυ hon => ?_
  have hF := tidies (s := s) (i := i) (stored ++ deferred)
  have hreconcile : Tidies s i (stored ++ deferred) _ (reconcile s (stored ++ deferred)).run := by
    refine hF.attempt (hF.chain (c := .listUnverified s.agent) trivial) fun records => ?_
    refine hF.attempt (hF.chain (c := .blockNumber) trivial) fun head => ?_
    exact tidies_reconcileAll records head fun h hmem => List.mem_eraseDups.1 hmem
  have hrest := hF.reconcileSome deferred hreconcile υ ⟨hon.refl, hυ.1, hυ.2⟩
  exact hrest.imp fun _ _ hω => ⟨hω.1, allSeeded_nil⟩

theorem tidies_reveal : Tidies s i [] _ (reveal s h).run := by
  have hF := tidies (s := s) (i := i) []
  have hopen := hF.openReveal (s := s) (h := h) fun seed => hF.submitReveal
    (fun _ => tidies_ask trivial fun _ heq => nomatch heq) tidies_receipt (tidies_markRevealed (some seed))
  intro σ hσ
  obtain ⟨shelf, hs, htidy⟩ := hσ.calm
  unfold reveal
  refine upholds_run.2 (tidiness_serves.andThen hσ.since (desk_status (h := h) hs)
    (fun _ _ hno => absurd trivial hno) ?_)
  rintro st τ ⟨rfl, hτ⟩ - hsince
  have hsτ : Stands τ.store shelf := hτ ▸ hs
  split
  · rename_i hrevealed
    -- the hash is finished, so that its mark is gone already
    have hcleared : (shelf h).clearPending.Tidy :=
      Card.tidy_clearPending (by rw [Card.finished, hrevealed]; rfl)
    exact tidiness_serves.andThen hsince.refl (desk_clearPending (h := h) hsτ)
      (fun _ _ hno => absurd trivial hno) fun _ _ hυ _ _ => ⟨tidy_update hυ htidy hcleared, allSeeded_nil⟩
  split
  · exact ⟨⟨shelf, hsτ, htidy⟩, allSeeded_nil⟩
  · exact upholds_run.1 (hopen τ ⟨hsince.refl, ⟨shelf, hsτ, htidy⟩, allSeeded_nil⟩)

theorem tidies_workerTurn (started : Bool) :
    (tidiness s).MindsTurn i (AllSeeded []) (workerTurn s started) := by
  have hF := tidies (s := s) (i := i) []
  refine hF.workerTurn (fun _ => hF.processReveal tidies_reveal) (tidies_ask trivial fun _ heq => nomatch heq)
    (tidies_ask trivial fun _ heq => nomatch heq) ?_ started
  exact fun _ hσ => ⟨hσ.calm, fun _ _ => trivial⟩

theorem tidiness_kept (s : Settings) : (tidiness s).Kept :=
  Clause.kept_of_minds (fun _ => tidiness_homely []) (fun _ => allSeeded_nil) (fun _ _ => trivial)
    (fun i => ⟨tidies_receipt, (tidies []).scanStep_of_trigger (tidies_trigger s i), tidies_commitTick,
      tidies_reconcileTick⟩)
    fun _ => tidies_workerTurn

theorem leads_tidiness {σ τ : System} (hleads : System.Leads s σ τ) (hclean : Clean τ.shared.trace) :
    Relation.ReflTransGen (tidiness s).Step σ τ := by
  induction hleads with
  | refl => exact .refl
  | @tail ρ τ _ hstep ih =>
    have hbefore : Clean ρ.shared.trace := by
      rcases hstep.trace with hsame | ⟨e, hcons⟩
      · rwa [hsame] at hclean
      · rw [hcons] at hclean
        exact fun e' he' => hclean e' (List.mem_cons_of_mem e he')
    refine (ih hbefore).tail ⟨hstep, fun e hcons => ?_⟩
    rw [hcons] at hclean
    exact hclean e List.mem_cons_self

theorem tidiness_of_reachable {σ : System} (hr : System.Reachable s σ) (hclean : Clean σ.shared.trace) :
    (tidiness s).Holds σ := by
  obtain ⟨store, hempty, hleads⟩ := hr
  have hstart : (tidiness s).Holds (.start s store) := by
    have hbase := Contract.holds_start (C := conduct s) (orderly_start hempty)
    have hfiled : Filed store := fun k hk => by
      rw [hempty] at hk
      cases hk
    have hblank : Tidy (System.start s store).shared := by
      refine ⟨fun _ => ⟨none, none, false⟩, fun h => ⟨hempty _, hempty _, ?_⟩, fun _ => ⟨rfl, fun hs => hs⟩⟩
      rw [show (System.start s store).shared.store = store from rfl, hempty]
      rfl
    exact Clause.holds_ended hbase hfiled hblank (fun t ht => nomatch ht) fun e he => nomatch he
  exact (hstart.leads (conduct_kept s) (tidiness_kept s) (leads_tidiness hleads hclean)).1

theorem Tidy.pending_iff (ht : Tidy σ) {r : CommitRecord}
    (hr : peek (Repository.record h) σ.store = .ok (some r)) :
    peek (Repository.isPending h) σ.store = .ok true ↔
      r.status = .created ∨ r.status = .committed ∨ r.status = .pendingReveal := by
  obtain ⟨shelf, hs, htidy⟩ := ht
  have hrecord : (shelf h).record = some r := Except.ok.inj ((hs h).peek_record.symm.trans hr)
  rw [(hs h).peek_isPending, (htidy h).pending, Except.ok.injEq, Card.unfinished, Card.status, hrecord,
    Option.map_some, Option.any_some]
  generalize r.status = st
  cases st <;> decide

theorem Tidy.pendingHashes (ht : Tidy σ) (hfiled : Filed σ.store) :
    ∃ hashes, peek Repository.pendingHashes σ.store = .ok hashes ∧ ∀ h, h ∈ hashes ↔
      ∃ r, peek (Repository.record h) σ.store = .ok (some r) ∧
        (r.status = .created ∨ r.status = .committed ∨ r.status = .pendingReveal) := by
  obtain ⟨hashes, hpeek, hmem⟩ := Repository.peek_pendingHashes hfiled
  refine ⟨hashes, hpeek, fun h => ?_⟩
  rw [hmem, ← Repository.peek_isPending_iff]
  constructor
  · intro hpending
    obtain ⟨shelf, hs, htidy⟩ := id ht
    have hunfinished : (shelf h).unfinished = true := by
      rw [← (htidy h).pending]
      exact Except.ok.inj ((hs h).peek_isPending.symm.trans hpending)
    cases hrecord : (shelf h).record with
    | none => simp [Card.unfinished, Card.status, hrecord] at hunfinished
    | some r =>
      have hr : peek (Repository.record h) σ.store = .ok (some r) := hrecord ▸ (hs h).peek_record
      exact ⟨r, hr, (ht.pending_iff hr).1 hpending⟩
  · rintro ⟨r, hr, hopen⟩
    exact (ht.pending_iff hr).2 hopen

/-- As long as no store call has failed and no crash has come, a hash with a record is pending just while
its status is not final. -/
theorem pending_iff_unfinished {σ : System} (hr : System.Reachable s σ) (hclean : Clean σ.shared.trace) :
    (σ.holder = none → ∀ h r, peek (Repository.record h) σ.shared.store = .ok (some r) →
      (peek (Repository.isPending h) σ.shared.store = .ok true ↔
        r.status = .created ∨ r.status = .committed ∨ r.status = .pendingReveal)) ∧
    ∀ i next, σ.MayRun i →
      σ.tasks[i]? = some (.running (.ask (.store (.call (.scan Field.pending.mark))) next)) →
      ∃ hashes, peek Repository.pendingHashes σ.shared.store = .ok hashes ∧ ∀ h, h ∈ hashes ↔
        ∃ r, peek (Repository.record h) σ.shared.store = .ok (some r) ∧
          (r.status = .created ∨ r.status = .committed ∨ r.status = .pendingReveal) := by
  have hholds := tidiness_of_reachable hr hclean
  constructor
  · intro hnone h r hrecord
    exact Tidy.pending_iff (hholds.calm hnone) hrecord
  · intro i next may task
    have ht : Tidy σ.shared := (hholds.asking may task).1.1 rfl
    exact ht.pendingHashes hholds.inv

def unconfirming : World :=
  .quiet (.fill 32 3) (.ok (.fill 32 4)) none

def firstSent : System :=
  .opening usual [.begin .commits, .go unconfirming 0 21]

def firstPass : System :=
  .opening usual [.begin .commits, .go unconfirming 0 21, .begin .reconciles, .go unconfirming 1 4]

theorem pending_iff_unfinished_firstPass :
    (System.Reachable usual firstSent ∧ Clean firstSent.shared.trace ∧ firstSent.holder = none ∧
      peek (Repository.record (.fill 32 3)) firstSent.shared.store = .ok (some ⟨.committed, none, 0⟩) ∧
      peek (Repository.isPending (.fill 32 3)) firstSent.shared.store = .ok true) ∧
    System.Reachable usual firstPass ∧ Clean firstPass.shared.trace ∧ firstPass.MayRun 1 ∧
      (∃ next, firstPass.tasks[1]? =
        some (.running (.ask (.store (.call (.scan Field.pending.mark))) next))) ∧
      ∃ hashes, peek Repository.pendingHashes firstPass.shared.store = .ok hashes ∧ .fill 32 3 ∈ hashes := by
  have hsent : System.Reachable usual firstSent := System.reachable_opening _
  have hpass : System.Reachable usual firstPass := System.reachable_opening _
  have hclean : Clean firstSent.shared.trace := List.all_eq_true.1 (by decide +kernel)
  have hclean' : Clean firstPass.shared.trace := List.all_eq_true.1 (by decide +kernel)
  have hnone : firstSent.holder = none := by decide +kernel
  have may : firstPass.MayRun 1 := .inr (by decide +kernel)
  have hrecord : peek (Repository.record (.fill 32 3)) firstSent.shared.store =
      .ok (some ⟨.committed, none, 0⟩) := by decide +kernel
  have hrecord' : peek (Repository.record (.fill 32 3)) firstPass.shared.store =
      .ok (some ⟨.committed, none, 0⟩) := by decide +kernel
  have hpending := ((pending_iff_unfinished hsent hclean).1 hnone _ _ hrecord).2 (.inr (.inl rfl))
  have htask : ∃ next, firstPass.tasks[1]? =
      some (.running (.ask (.store (.call (.scan Field.pending.mark))) next)) := ⟨_, rfl⟩
  obtain ⟨next, htask⟩ := htask
  obtain ⟨hashes, hpeek, hmem⟩ := (pending_iff_unfinished hpass hclean').2 1 next may htask
  exact ⟨⟨hsent, hclean, hnone, hrecord, hpending⟩, hpass, hclean', may, ⟨next, htask⟩, hashes, hpeek,
    (hmem _).2 ⟨_, hrecord', .inr (.inl rfl)⟩⟩

end CommitReveal.Agent
