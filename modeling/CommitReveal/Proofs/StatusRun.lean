import CommitReveal.Proofs.Play
import CommitReveal.Proofs.Revising
import CommitReveal.Proofs.SeedDurability

/-! A commitment goes forward in every run. Whoever writes a record has just read it, so that the write
follows what is there; only the note that a commit was sent comes after a wait, and what it finds depends
on what was stored about the hash when it was drawn. -/
namespace CommitReveal.Agent

open Program
open Repository (key key_ne Recorded Card Shelf Stands Revises recorded_inj peek)
open Status (Follows)

variable {s : Settings} {i j : Nat} {h : Hash} {σ τ υ : Shared} {t : Trace} {G : Prop} {α β : Type}
  {S : Shared → Prop} {shelf : Shelf}

/-- Task `i` has been given the hash for a seed it has drawn. -/
def Drew (i : Nat) (h : Hash) (t : Trace) : Prop :=
  ∃ seed, Event.answered i (.chain (.computeCommitHash seed)) (.ok h) ∈ t

theorem Drew.mono {t' : Trace} (hd : Drew i h t) (ht : t <:+ t') : Drew i h t' := by
  obtain ⟨seed, hmem⟩ := hd
  exact ⟨seed, ht.subset hmem⟩

theorem Drew.mem_draws (hd : Drew i h t) : h ∈ draws t := by
  obtain ⟨seed, hmem⟩ := hd
  exact List.mem_filterMap.2 ⟨_, hmem, rfl⟩

theorem Drew.of_cons {e : Event} (hd : Drew i h (e :: t)) :
    (∃ seed, e = .answered i (.chain (.computeCommitHash seed)) (.ok h)) ∨ Drew i h t := by
  obtain ⟨seed, hmem⟩ := hd
  rcases List.mem_cons.1 hmem with rfl | hmem
  · exact .inl ⟨seed, rfl⟩
  · exact .inr ⟨seed, hmem⟩

/-- The record of a hash is kept, and its status follows the earlier one. If `G` holds, it has got
underway only by a step of a task that has drawn the hash. -/
structure Advances (G : Prop) (h : Hash) (σ τ : Shared) : Prop where
  kept : ∀ old, Recorded σ.store h (some old) →
    ∃ new, Recorded τ.store h (some new) ∧ Follows G old.status new.status
  opened : ∃ between, τ.trace = between ++ σ.trace ∧ (G → ∀ old new, Recorded σ.store h (some old) →
    Recorded τ.store h (some new) → new.status.underway → old.status.underway ∨
      ∃ e ∈ between, ∃ j, e.task? = some j ∧ Drew j h τ.trace)

theorem recorded_some_inj {b : Store.Backend} {r r' : CommitRecord} (hr : Recorded b h (some r))
    (hr' : Recorded b h (some r')) : r = r' :=
  Option.some.inj (recorded_inj hr hr')

theorem advances_of_same (between : Trace)
    (hstore : τ.store.get? (key .record h) = σ.store.get? (key .record h)) (htrace : τ.trace = between ++ σ.trace) : Advances G h σ τ where
  kept old hold := ⟨old, hstore.trans hold, .refl _⟩
  opened := by
    refine ⟨between, htrace, fun _ old new hold hnew hunder => .inl ?_⟩
    rwa [recorded_some_inj hold (hstore.symm.trans hnew)]

theorem Advances.trans (hστ : Advances G h σ τ) (hτυ : Advances G h τ υ) : Advances G h σ υ where
  kept old hold := by
    obtain ⟨mid, hmid, hfollows⟩ := hστ.kept old hold
    obtain ⟨new, hnew, hfollows'⟩ := hτυ.kept mid hmid
    exact ⟨new, hnew, hfollows.trans hfollows'⟩
  opened := by
    obtain ⟨between, hbetween, hopened⟩ := hστ.opened
    obtain ⟨between', hbetween', hopened'⟩ := hτυ.opened
    have htrace : υ.trace = (between' ++ between) ++ σ.trace := by
      rw [hbetween', hbetween, List.append_assoc]
    refine ⟨between' ++ between, htrace, fun hG old new hold hnew hunder => ?_⟩
    obtain ⟨mid, hmid, -⟩ := hστ.kept old hold
    rcases hopened' hG mid new hmid hnew hunder with hunder | ⟨e, he, k, hk, hd⟩
    · refine (hopened hG old mid hold hmid hunder).imp_right ?_
      rintro ⟨e, he, k, hk, hd⟩
      exact ⟨e, List.mem_append_right _ he, k, hk, hd.mono ⟨between', hbetween'.symm⟩⟩
    · exact .inr ⟨e, List.mem_append_left _ he, k, hk, hd⟩

/-- Whoever writes the record of a hash revises it. Where `G` holds, the runs spoken of are those that
draw the hash once, when it has no unfinished record. -/
def lifecycle (s : Settings) (h : Hash) (G : Prop) : Clause (conduct s) where
  Good σ e := G → drawnHash? e = some h →
    h ∉ draws σ.trace ∧ ∀ r, Recorded σ.store h (some r) → r.status.isTerminal
  Inv σ := G → ∀ i j, Drew i h σ.trace → Drew j h σ.trace → i = j
  Calm _ := True
  Onward := Advances G h
  refl _ := advances_of_same [] rfl rfl
  trans := Advances.trans
  Allows i r σ := ∀ new : CommitRecord, r = .store (.call (.set (key .record h) new.encode)) →
    ∀ old, Recorded σ.store h old → Revises G (Drew i h σ.trace) old new
  Ready _ _ _ := True
  ready_apart _ _ _ _ := trivial
  ready_spawned _ _ := trivial
  served {i r a σ τ} hord hinv hbase hallows hserved hgood hsince := by
    have htrace : (τ.note (.answered i r a)).trace = [.answered i r a] ++ σ.trace := congrArg _ hserved.trace
    constructor
    · intro hG k k' hk hk'
      rw [htrace] at hk hk'
      -- the hash was not drawn before it is drawn now
      rcases hk.of_cons with ⟨seed, heq⟩ | hold <;> rcases hk'.of_cons with ⟨seed', heq'⟩ | hold'
      · cases heq
        cases heq'
        rfl
      · exact absurd hold'.mem_draws (hgood hG (heq ▸ rfl)).1
      · exact absurd hold.mem_draws (hgood hG (heq' ▸ rfl)).1
      · exact hinv hG k k' hold hold'
    · rcases get?_served (k := key .record h) hbase hserved (key_ne (by decide) h) with hsame | ⟨v, rfl, hget⟩
      · exact advances_of_same _ hsame htrace
      · obtain ⟨new, rfl, -⟩ := hsince.1.ledger.record h v hget
        have hrevises := hallows new rfl
        have hwritten (new' : CommitRecord) (hnew' : Recorded τ.store h (some new')) : new' = new :=
          recorded_some_inj hnew' hget
        refine ⟨fun old hold => ⟨new, hget, (hrevises _ hold).follows old rfl⟩, _, htrace, ?_⟩
        intro hG old new' hold hnew' hunder
        rw [hwritten new' hnew'] at hunder
        rcases (hrevises _ hold).opened hG hunder with hold' | hd
        · exact .inl (hold' old rfl)
        · refine .inr ⟨_, List.mem_singleton_self _, i, rfl, hd.mono ?_⟩
          rw [htrace]
          exact List.suffix_cons _ _
  began {i job σ} _ hinv _ := by
    refine ⟨fun hG k k' hk hk' => hinv hG k k' ?_ ?_, advances_of_same [_] rfl rfl, id⟩
    · exact hk.of_cons.resolve_left fun ⟨_, heq⟩ => nomatch heq
    · exact hk'.of_cons.resolve_left fun ⟨_, heq⟩ => nomatch heq
  crashed {σ} _ hinv _ := by
    refine ⟨fun hG k k' hk hk' => hinv hG k k' ?_ ?_, advances_of_same [_] rfl rfl, trivial⟩
    · exact hk.of_cons.resolve_left fun ⟨_, heq⟩ => nomatch heq
    · exact hk'.of_cons.resolve_left fun ⟨_, heq⟩ => nomatch heq

abbrev revising (i : Nat) (h : Hash) (G : Prop) (k : Hash) (new : CommitRecord) (σ : Shared) : Prop :=
  k = h → ∀ old, Recorded σ.store h old → Revises G (Drew i h σ.trace) old new

theorem lifecycle_serves : (lifecycle s h G).Serves i (revising i h G) False where
  allows hdesk := by
    intro new heq old hold
    cases heq
    exact hdesk h new rfl rfl rfl old hold
  good _ hno := hno.elim

theorem lets_revising {k : Hash} {op : Int64 → Card → Card} (hop : k = h → ∀ time new,
      (op time (shelf k)).record = some new → Revises G (Drew i h σ.trace) (shelf k).record new) :
    Lets i (revising i h G) σ shelf k op := by
  intro time new τ hbeside hrecorded hnew heq old hold
  subst heq
  obtain rfl := recorded_inj hold hrecorded
  exact (hop rfl time new hnew).mono fun hd => hd.mono hbeside.suffix

/-- What a task knows that neither others nor its own requests about other things take away. -/
structure Steady (s : Settings) (i : Nat) (h : Hash) (G : Prop) (S : Shared → Prop) : Prop where
  apart {σ τ : Shared} : S σ → (lifecycle s h G).Since σ τ → Apart i σ τ → S τ
  served {r : Request} {a : r.Answer} {σ τ : Shared} : r.SparesCards → Served r a σ τ → Orderly s σ →
    S σ → S (τ.note (.answered i r a))

theorem lifecycle_allows {r : Request} (hr : r.SparesCards) : (lifecycle s h G).Allows i r σ := by
  intro new heq
  subst heq
  rcases hr with ⟨k, hkey⟩ | hkey
  · exact absurd hkey (key_ne (by decide) h k)
  · exact absurd hkey (Repository.key_ne_cursorKey _ _)

theorem Steady.homely (hS : Steady s i h G S) : (lifecycle s h G).Homely i S where
  apart := hS.apart
  allows hr _ := lifecycle_allows hr.sparesCards
  keeps hr hσ hserved _ _ := ⟨trivial, hS.served hr.sparesCards hserved hσ.since.base.1 hσ.own⟩

theorem Steady.ask (hS : Steady s i h G S) {r : Request} (hr : r.SparesCards) :
    (lifecycle s h G).Minds i S _ (Agent.ask r) :=
  fun _ hσ => hS.homely.upholds_ask hσ (fun _ _ _ _ => lifecycle_allows hr)
    fun _ _ _ hτ _ _ hserved _ _ => ⟨trivial, hS.served hr hserved hτ.since.base.1 hτ.own⟩

theorem steady_always : Steady s i h G fun _ => True :=
  ⟨fun _ _ _ => trivial, fun _ _ _ _ => trivial⟩

def Own (i : Nat) (h hash : Hash) (σ : Shared) : Prop :=
  hash = h → Drew i h σ.trace

theorem suffix_note {r : Request} {a : r.Answer} (hserved : Served r a σ τ) (e : Event) :
    σ.trace <:+ (τ.note e).trace := by
  rw [Shared.trace_note, hserved.trace]
  exact List.suffix_cons _ _

theorem steady_own (hash : Hash) : Steady s i h G (Own i h hash) where
  apart hS _ ha heq := (hS heq).mono ha.suffix
  served _ hserved _ hS heq := (hS heq).mono (suffix_note hserved _)

/-- Besides, if `G` holds, the hash has a record that has not got underway yet. -/
def Unsent (i : Nat) (h hash : Hash) (G : Prop) (σ : Shared) : Prop :=
  hash = h → Drew i h σ.trace ∧ (G → ∃ r, Recorded σ.store h (some r) ∧ r.status.underway = false)

theorem steady_unsent (hash : Hash) : Steady s i h G (Unsent i h hash G) where
  apart {σ τ} hS hsince ha heq := by
    obtain ⟨hd, hrecord⟩ := hS heq
    refine ⟨hd.mono ha.suffix, fun hG => ?_⟩
    obtain ⟨old, hold, hidle⟩ := hrecord hG
    obtain ⟨new, hnew, -⟩ := hsince.onward.kept old hold
    refine ⟨new, hnew, ?_⟩
    -- only a task that has drawn the hash could have sent it, and that is this one
    obtain ⟨between, hbetween, hopened⟩ := hsince.onward.opened
    obtain ⟨others, hothers, hapart⟩ := ha
    obtain rfl : between = others := List.append_cancel_right (hbetween.symm.trans hothers)
    by_contra hunder
    rw [Bool.not_eq_false] at hunder
    rcases hopened hG old new hold hnew hunder with hbefore | ⟨e, he, k, hk, hdk⟩
    · rw [hidle] at hbefore
      cases hbefore
    · have hki : k = i := hsince.inv hG k i hdk (hd.mono ⟨between, hbetween.symm⟩)
      exact hapart e he (hki ▸ hk)
  served {r a σ τ} hr hserved hord hS heq := by
    obtain ⟨hd, hrecord⟩ := hS heq
    refine ⟨hd.mono (suffix_note hserved _), fun hG => ?_⟩
    obtain ⟨old, hold, hidle⟩ := hrecord hG
    obtain ⟨shelf, hs, -⟩ := exists_shelf hord
    have hsτ : Stands τ.store shelf := stands_served hs hr hserved
    have hsame : (shelf h).record = some old := recorded_inj (hs h).record hold
    exact ⟨old, hsame ▸ (hsτ h).record, hidle⟩

theorem Steady.revisory (hS : Steady s i h G S) (hbeside : ∀ σ τ, S σ → Beside i σ τ → S τ) :
    (lifecycle s h G).Revisory i (revising i h G) False G S where
  homely := hS.homely
  serves := lifecycle_serves
  writes hrevises heq old hold := (hrevises old (heq ▸ hold)).mono False.elim
  stays hσ _ hb := ⟨trivial, hbeside _ _ hσ.own hb⟩
  scan _ := hS.ask trivial

theorem own_revisory (hash : Hash) :
    (lifecycle s h G).Revisory i (revising i h G) False G (Own i h hash) :=
  (steady_own hash).revisory fun _ _ hown hb heq => (hown heq).mono hb.suffix

section Parts

variable (s i h G)

abbrev Progresses (α : Type) (p : Activity α) : Prop :=
  (lifecycle s h G).Minds i (fun _ => True) α p

theorem progresses : Habit (Progresses s i h G) ((lifecycle s h G).MindsTurn i fun _ => True) :=
  steady_always.homely.turns fun _ _ => trivial

theorem always_revisory : (lifecycle s h G).Revisory i (revising i h G) False G fun _ => True :=
  steady_always.revisory fun _ _ _ _ => trivial

theorem progresses_reveal (k : Hash) : Progresses s i h G _ (reveal s k).run := by
  have hF := progresses s i h G
  have hR := always_revisory s i h G
  have hsubmit (seed : Seed) : Progresses s i h G _ (submitReveal s k seed).run :=
    hF.submitReveal (fun _ => steady_always.ask trivial) (fun _ _ _ => steady_always.ask trivial)
      (hR.markRevealed (some seed))
  unfold reveal
  refine hF.attempt hF.status fun status => ?_
  split
  · exact hF.attempt (hF.repository hR.clearPending) fun _ => hF.done _
  split
  · exact hF.done _
  · exact hF.openReveal hsubmit

theorem attempts_computeCommitHash (seed : Seed) (hσ : (lifecycle s h G).Home (fun _ => True) σ) :
    Attempts ((lifecycle s h G).around i) (chain (.computeCommitHash seed)) (fun hash τ => Own i h hash τ ∧
        (hash = h → G → ∀ r, Recorded τ.store h (some r) → r.status.isTerminal)) (fun _ _ => True) σ := by
  have hask : (ask (.chain (.computeCommitHash seed))).Upholds ((lifecycle s h G).around i)
      (fun answer τ => ∀ hash, answer = .ok hash → Own i h hash τ ∧
        (hash = h → G → ∀ r, Recorded τ.store h (some r) → r.status.isTerminal)) σ := by
    refine steady_always.homely.upholds_ask hσ (fun _ _ _ _ => lifecycle_allows trivial)
      fun τ answer υ _ _ _ hserved hgood _ => ?_
    rintro hash rfl
    obtain rfl : υ = τ := hserved
    exact ⟨fun heq => heq ▸ ⟨seed, List.mem_cons_self⟩, fun heq hG => (hgood hG (heq ▸ rfl)).2⟩
  refine Upholds.bind hask fun answer τ hτ => ?_
  cases answer with
  | ok hash => exact hτ hash rfl
  | error cause => trivial

theorem lets_committed {hash : Hash} (hs : Stands σ.store shelf) (hunsent : Unsent i h hash G σ) :
    Lets i (revising i h G) σ shelf hash (Card.setStatus .committed) := by
  refine lets_revising fun heq _ _ => Card.revises_setStatus (fun r hr hopen => ?_)
    fun _ _ => .inr (hunsent heq).1
  refine Status.follows_committed hopen fun hG => ?_
  obtain ⟨r', hr', hidle⟩ := (hunsent heq).2 hG
  have hsame : (shelf hash).record = some r' := recorded_inj (heq ▸ (hs hash).record) hr'
  rwa [Option.some.inj (hr.symm.trans hsame)]

theorem own_settleCommit {hash : Hash} (outcome : Option TxOutcome) :
    (lifecycle s h G).Minds i (Own i h hash) _ (settleCommit hash outcome).run := by
  have hR := own_revisory (s := s) (i := i) (h := h) (G := G) hash
  refine hR.homely.parts.settleCommit ?_ hR.setCommitBlock (hR.finish .abandoned rfl) outcome
  exact hR.operation fun _ _ hs hσ => desk_setStatus hs _
    (lets_revising fun heq _ _ => Card.revises_setStatus
      (fun _ _ hopen => Status.follows_pendingReveal hopen) fun _ _ => .inr (hσ.own heq))

theorem unsent_sending {hash : Hash} (hσ : (lifecycle s h G).Home (Unsent i h hash G) σ) :
    Attempts ((lifecycle s h G).around i) (do
      match ← submit s (.commit hash) with
      | .error cause =>
        notify (.commitRefused hash cause)
        repository (Repository.markAbandoned hash)
        return none
      | .ok tx =>
        repository (Repository.storeTx hash tx)
        discard <| repository (Repository.setStatus hash .committed)
        notify (.committed hash tx)
        settleCommit hash (← confirm s tx) : Attempt (Option Hash))
      (fun _ _ => True) (fun _ _ => True) σ := by
  have hF := (steady_unsent (s := s) (i := i) (h := h) (G := G) hash).homely.parts
  have hsubmit : (lifecycle s h G).Minds i (Unsent i h hash G) _ (submit s (.commit hash)) :=
    hF.submit fun nonce => hF.plain (.chain _) trivial
  refine Attempts.andThen ((lifecycle s h G).carries i) hσ.since ((attempts_lift _).2 (hsubmit σ hσ)) ?_
  rintro answer τ ⟨-, hτ⟩ hsince
  cases answer with
  | error cause =>
    have hF := progresses s i h G
    have hrest := hF.attempt (hF.lift (hF.notify (.commitRefused hash cause))) fun _ =>
      hF.attempt (hF.repository ((always_revisory s i h G).finish (k := hash) .abandoned rfl)) fun _ =>
        hF.done (.ok (none : Option Hash))
    exact upholds_run.1 ((hrest τ ⟨hsince.refl, trivial, trivial⟩).imp fun _ _ _ => trivial)
  | ok tx =>
    have hstore := upholds_run.1 (hF.storeTx (h := hash) tx τ ⟨hsince.refl, trivial, hτ⟩)
    refine Attempts.andThen ((lifecycle s h G).carries i) hsince.refl
      (hstore.imp (fun _ _ hυ => hυ.2) fun _ _ _ => trivial) fun _ υ hυ hsince => ?_
    obtain ⟨shelf, hs, -⟩ := exists_shelf hsince.base.1
    refine lifecycle_serves.andThenDiscard hsince.refl (desk_setStatus hs _ (lets_committed i h G hs hυ))
      (fun _ _ _ _ _ => trivial) fun _ _ ω _ hb hsince => ?_
    have hown : Own i h hash ω := fun heq => (hυ heq).1.mono hb.suffix
    have hF := (steady_own (s := s) (i := i) (h := h) (G := G) hash).homely.parts
    have hconfirm := hF.confirm (s := s) (fun _ _ _ => (steady_own hash).ask trivial) tx
    have hrest := hF.attempt (hF.lift (hF.notify (.committed hash tx))) fun _ =>
      hF.attempt (hF.lift hconfirm) fun outcome => own_settleCommit s i h G outcome
    exact upholds_run.1 ((hrest ω ⟨hsince.refl, trivial, hown⟩).imp fun _ _ _ => trivial)

theorem progresses_issueCommit : Progresses s i h G _ (issueCommit s).run := by
  intro σ hσ
  have hF := progresses s i h G
  have hseed : Progresses s i h G _ (freshSeed s) :=
    hF.bind (hF.plain .entropy trivial) fun _ => hF.done _
  suffices hissue : Attempts ((lifecycle s h G).around i) (issueCommit s) anyhow anyhow σ from
    (upholds_run.2 hissue).imp fun _ _ _ => ⟨trivial, trivial⟩
  refine Attempts.andThen ((lifecycle s h G).carries i) hσ.since ((attempts_lift _).2 (hseed σ hσ)) ?_
  intro seed τ _ hsince
  have hhash := attempts_computeCommitHash s i h G seed ⟨hsince.refl, trivial, trivial⟩
  refine Attempts.andThen ((lifecycle s h G).carries i) hsince.refl hhash ?_
  rintro hash υ ⟨hown, hfinal⟩ hsince
  obtain ⟨shelf, hs, -⟩ := exists_shelf hsince.base.1
  have hlets : Lets i (revising i h G) υ shelf hash (Card.storeSeed seed) :=
    lets_revising fun _ _ _ => Card.revises_storeSeed
  refine lifecycle_serves.andThen hsince.refl (desk_storeSeed hs seed hlets) (fun _ _ _ _ _ => trivial) ?_
  rintro _ ω ⟨time, hω⟩ hb hsince
  refine lifecycle_serves.andThenDiscard hsince.refl (desk_markPending (h := hash) hω)
    (fun _ _ _ _ _ => trivial) fun _ _ ρ hρ hb' hsince => ?_
  refine unsent_sending s i h G ⟨hsince.refl, trivial, fun heq => ?_⟩
  subst heq
  refine ⟨(hown rfl).mono (hb.trans hb').suffix, fun hG => ?_⟩
  obtain ⟨r, hr, hidle⟩ := Card.not_underway_storeSeed (c := shelf hash) seed time
    fun r hr => hfinal rfl hG r (hr ▸ (hs hash).record)
  refine ⟨r, ?_, hidle⟩
  have hrecord := (hρ hash).record
  rw [Function.update_self, Card.record_markPending, Function.update_self, hr] at hrecord
  exact hrecord

theorem lifecycle_kept : (lifecycle s h G).Kept := by
  refine Clause.kept_of_minds (fun _ => steady_always.homely) (fun _ => trivial)
    (fun _ _ => trivial) (fun i => ?_) fun i started => ?_
  · have hF := progresses s i h G
    have hop := (always_revisory s i h G).operations
    exact {
      receipt := fun _ _ _ => steady_always.ask trivial
      scan := hF.scanStep_of_trigger fun _ => hF.triggerReveal hop fun _ _ _ _ => trivial
      commit := hF.commitTick (progresses_issueCommit s i h G)
      reconcile := hF.reconcileTick hop (hF.reconcile hop fun _ _ => trivial) }
  · have hF := progresses s i h G
    exact hF.workerTurn (fun k => hF.processReveal (progresses_reveal s i h G k)) (steady_always.ask trivial)
      (steady_always.ask trivial) (fun _ hσ => ⟨hσ.calm, fun _ _ => trivial⟩) started

end Parts

/-- A step that draws the hash, if it does, when no unfinished record of it is stored. -/
def DrawsAnew (s : Settings) (h : Hash) (σ τ : System) : Prop :=
  System.Step s σ τ ∧ ∀ e, τ.shared.trace = e :: σ.shared.trace → drawnHash? e = some h →
    ∀ st, peek (Repository.status h) σ.shared.store = .ok (some st) → st.isTerminal

section Runs

variable {store : Store.Backend} {ρ σ τ : System} {st : Status}

theorem lifecycle_start (hempty : ∀ k, store.get? k = none) :
    (lifecycle s h G).Holds (.start s store) :=
  Clause.holds_ended (Contract.holds_start (C := conduct s) (orderly_start hempty))
    (fun _ _ _ ⟨_, hmem⟩ => nomatch hmem) trivial (fun _ ht => nomatch ht) fun _ he => nomatch he

theorem exists_recorded (hord : Orderly s σ.shared)
    (hst : peek (Repository.status h) σ.shared.store = .ok (some st)) :
    ∃ r, Recorded σ.shared.store h (some r) ∧ r.status = st := by
  obtain ⟨shelf, hs, -⟩ := exists_shelf hord
  have hstatus : (shelf h).status = some st := Except.ok.inj ((hs h).peek_status.symm.trans hst)
  obtain ⟨r, hr, hrst⟩ := Option.map_eq_some_iff.1 hstatus
  exact ⟨r, hr ▸ (hs h).record, hrst⟩

theorem peek_status_of_recorded (hord : Orderly s σ.shared) {r : CommitRecord}
    (hr : Recorded σ.shared.store h (some r)) :
    peek (Repository.status h) σ.shared.store = .ok (some r.status) := by
  obtain ⟨shelf, hs, -⟩ := exists_shelf hord
  have hrecord : (shelf h).record = some r := recorded_inj (hs h).record hr
  rw [(hs h).peek_status, Card.status, hrecord]
  rfl

theorem follows_of_leads (hσ : (lifecycle s h G).Holds σ)
    (hleads : Relation.ReflTransGen (lifecycle s h G).Step σ τ)
    (hst : peek (Repository.status h) σ.shared.store = .ok (some st)) :
    ∃ st', peek (Repository.status h) τ.shared.store = .ok (some st') ∧ Follows G st st' := by
  obtain ⟨hτ, hsince⟩ := hσ.leads (conduct_kept s) (lifecycle_kept s h G) hleads
  obtain ⟨r, hr, rfl⟩ := exists_recorded hσ.base.inv hst
  obtain ⟨r', hr', hfollows⟩ := hsince.onward.kept r hr
  exact ⟨r'.status, peek_status_of_recorded hτ.base.inv hr', hfollows⟩

theorem leads_lifecycle (hleads : System.Leads s σ τ) :
    Relation.ReflTransGen (lifecycle s h False).Step σ τ :=
  Relation.ReflTransGen.mono (fun _ _ hstep => ⟨hstep, fun _ _ hno => hno.elim⟩) _ _ hleads

theorem follows_of_reachable (hr : System.Reachable s σ) (hleads : System.Leads s σ τ)
    (hst : peek (Repository.status h) σ.shared.store = .ok (some st)) :
    ∃ st', peek (Repository.status h) τ.shared.store = .ok (some st') ∧ Follows False st st' := by
  obtain ⟨store, hempty, hstart⟩ := hr
  have hbegin := (lifecycle_start (s := s) (h := h) (G := False) hempty).leads (conduct_kept s)
    (lifecycle_kept s h False) (leads_lifecycle hstart)
  exact follows_of_leads hbegin.1 (leads_lifecycle hleads) hst

theorem drawsAnew_of_same (hleads : System.Leads s σ τ)
    (hsame : draws τ.shared.trace = draws σ.shared.trace) :
    Relation.ReflTransGen (DrawsAnew s h) σ τ := by
  induction hleads with
  | refl => exact .refl
  | @tail ρ τ hrun hstep ih =>
    have hρ : draws ρ.shared.trace <:+ draws τ.shared.trace := draws_suffix (hstep.suffix)
    have hbefore : draws ρ.shared.trace = draws σ.shared.trace := by
      have hσ : draws σ.shared.trace <:+ draws ρ.shared.trace := draws_suffix (System.suffix_of_leads hrun)
      exact (hσ.eq_of_length_le (hsame ▸ hρ.length_le)).symm
    refine (ih hbefore).tail ⟨hstep, fun e hcons hdrawn => ?_⟩
    rw [hcons, draws, List.filterMap_cons_some hdrawn, ← hbefore] at hsame
    exact absurd hsame (List.cons_ne_self _ _)

theorem drawsAnew_go (w : World) (i : Nat)
    (hanew : ∀ st, peek (Repository.status h) σ.shared.store = .ok (some st) → st.isTerminal) :
    Relation.ReflTransGen (DrawsAnew s h) σ (System.go s w i 1 σ) := by
  unfold System.go
  split
  · rename_i τ hτ
    exact .single ⟨System.step_of_move hτ, fun _ _ _ => hanew⟩
  · exact .refl

/-- In a run with distinct draws, a step that draws the hash anew is one that the clause speaks of. -/
theorem leads_lifecycle_anew (hr : System.Reachable s σ)
    (hleads : Relation.ReflTransGen (DrawsAnew s h) σ τ) (hdistinct : DistinctDraws τ.shared.trace) :
    Relation.ReflTransGen (lifecycle s h True).Step σ τ := by
  induction hleads with
  | refl => exact .refl
  | @tail ρ τ hrun hstep ih =>
    refine (ih (hdistinct.earlier (hstep.1.suffix))).tail ⟨hstep.1, fun e hcons _ hdrawn => ⟨?_, ?_⟩⟩
    · rw [hcons, DistinctDraws, draws, List.filterMap_cons_some hdrawn] at hdistinct
      exact (List.nodup_cons.1 hdistinct).1
    · intro r hrecorded
      have hρ : System.Reachable s ρ := hr.leads (Relation.ReflTransGen.mono (fun _ _ hs => hs.1) _ _ hrun)
      exact hstep.2 e hcons hdrawn r.status (peek_status_of_recorded (orderly_of_reachable hρ) hrecorded)

/-- Once stored, the status of a hash stays stored, and a final one stays as it is. Before that, the only
way back is from awaiting the reveal to committed. -/
theorem status_goes_forward (hempty : ∀ k, store.get? k = none) (hσ : System.Leads s (.start s store) σ)
    (hτ : System.Leads s σ τ) (hst : peek (Repository.status h) σ.shared.store = .ok (some st)) :
    ∃ st', peek (Repository.status h) τ.shared.store = .ok (some st') ∧
      (st.isTerminal → st' = st) ∧
      (st' = st ∨ st.rank < st'.rank ∨ st = .pendingReveal ∧ st' = .committed) ∧
      (DistinctDraws τ.shared.trace → Relation.ReflTransGen (DrawsAnew s h) (.start s store) σ →
        Relation.ReflTransGen (DrawsAnew s h) σ τ → st' = st ∨ st.rank < st'.rank) := by
  have hreach : System.Reachable s σ := ⟨store, hempty, hσ⟩
  obtain ⟨st', hst', hfollows⟩ := follows_of_reachable hreach hτ hst
  refine ⟨st', hst', hfollows.eq_of_terminal, hfollows.imp_right (Or.imp_right And.right), ?_⟩
  intro hdistinct hanew hanew'
  have hbegin := (lifecycle_start (s := s) (h := h) (G := True) hempty).leads (conduct_kept s)
    (lifecycle_kept s h True)
    (leads_lifecycle_anew ⟨store, hempty, .refl⟩ hanew (hdistinct.earlier (System.suffix_of_leads hτ)))
  obtain ⟨st'', hst'', hforward⟩ :=
    follows_of_leads hbegin.1 (leads_lifecycle_anew hreach hanew' hdistinct) hst
  obtain rfl : st'' = st' := Option.some.inj (Except.ok.inj (hst''.symm.trans hst'))
  exact hforward.imp_right fun h => h.resolve_right fun hback => hback.1 trivial

end Runs

def taking : World :=
  .quiet (.fill 32 3) (.ok (.fill 32 4)) none

def firstDraw : System :=
  .opening usual [.begin .commits, .go taking 0 6]

def firstCreated : System :=
  .opening usual [.begin .commits, .go taking 0 6, .go taking 0 1, .go taking 0 7]

def firstCommitted : System :=
  .opening usual [.begin .commits, .go taking 0 6, .go taking 0 1, .go taking 0 7, .go taking 0 6]

theorem status_goes_forward_firstCommit :
    System.Leads usual firstCreated firstCommitted ∧ DistinctDraws firstCommitted.shared.trace ∧
      Relation.ReflTransGen (DrawsAnew usual (.fill 32 3)) (.start usual (.memory .empty)) firstCreated ∧
      Relation.ReflTransGen (DrawsAnew usual (.fill 32 3)) firstCreated firstCommitted ∧
      peek (Repository.status (.fill 32 3)) firstCreated.shared.store = .ok (some .created) ∧
      ∃ st, peek (Repository.status (.fill 32 3)) firstCommitted.shared.store = .ok (some st) ∧
        (st = .created ∨ Status.created.rank < st.rank) := by
  have hstart : System.Leads usual (.start usual (.memory .empty)) firstDraw := System.leads_play _ _
  have hcreated : System.Leads usual (.start usual (.memory .empty)) firstCreated := System.leads_play _ _
  have hdrawn : System.Leads usual (.go usual taking 0 1 firstDraw) firstCreated :=
    System.leads_stage (.go taking 0 7) _
  have hcommitted : System.Leads usual firstCreated firstCommitted :=
    System.leads_stage (.go taking 0 6) firstCreated
  have hnone : peek (Repository.status (.fill 32 3)) firstDraw.shared.store = .ok none := by decide +kernel
  have hfirst : Relation.ReflTransGen (DrawsAnew usual (.fill 32 3)) (.start usual (.memory .empty))
      firstDraw := drawsAnew_of_same hstart (by decide +kernel)
  have hdraw : Relation.ReflTransGen (DrawsAnew usual (.fill 32 3)) firstDraw
      (.go usual taking 0 1 firstDraw) := drawsAnew_go taking 0 fun st hst => nomatch Except.ok.inj (hnone.symm.trans hst)
  have hrest : Relation.ReflTransGen (DrawsAnew usual (.fill 32 3)) (.go usual taking 0 1 firstDraw)
      firstCreated := drawsAnew_of_same hdrawn (by decide +kernel)
  have hlast : Relation.ReflTransGen (DrawsAnew usual (.fill 32 3)) firstCreated firstCommitted :=
    drawsAnew_of_same hcommitted (by decide +kernel)
  have hanew := (hfirst.trans hdraw).trans hrest
  have hdistinct : DistinctDraws firstCommitted.shared.trace := by
    unfold DistinctDraws
    decide +kernel
  have hst : peek (Repository.status (.fill 32 3)) firstCreated.shared.store = .ok (some .created) := by
    decide +kernel
  obtain ⟨st, hst', -, -, hforward⟩ := status_goes_forward (fun _ => rfl) hcreated hcommitted hst
  exact ⟨hcommitted, hdistinct, hanew, hlast, hst, st, hst', hforward hdistinct hanew hlast⟩

def deletes : Store.Call → Bool
  | .delete _ => true
  | _ => false

def logged (e : OracleEvent) : EventLog :=
  e.toLog usual.oracle none none

def undeletable : World :=
  { taking with
    fails := deletes
    head := 1
    logs := [logged (.seedRevealed usual.agent (.fill 32 3) (.fill 32 7))] }

def seen (head : Word) : World :=
  { taking with head, logs := [logged (.commitRegistered usual.agent (.fill 32 3) 5)] }

/-- The scan has left a record of the hash when a commit draws it, and the scan sees the commit logged
once more before the node has answered. -/
def overtaken : List System.Cue :=
  [.begin (.scan 0 [.revealTrigger] 0), .go undeletable 0 13, .go (seen 5) 0 12, .begin .commits,
    .go taking 1 13, .go (seen 9) 0 13]

/-- What was stored about a hash before it was drawn can take its status back, though no hash is drawn
twice. -/
theorem status_can_go_back : ¬∀ (s : Settings) (σ τ : System) (h : Hash) (st st' : Status),
    System.Reachable s σ → System.Leads s σ τ → DistinctDraws τ.shared.trace →
    peek (Repository.status h) σ.shared.store = .ok (some st) →
    peek (Repository.status h) τ.shared.store = .ok (some st') → st' = st ∨ st.rank < st'.rank := by
  intro hforward
  have hst : peek (Repository.status (.fill 32 3)) (System.opening usual overtaken).shared.store =
      .ok (some .pendingReveal) := by decide +kernel
  have hst' : peek (Repository.status (.fill 32 3))
      (System.stage usual (.go taking 1 6) (.opening usual overtaken)).shared.store =
      .ok (some .committed) := by decide +kernel
  have hdistinct :
      DistinctDraws (System.stage usual (.go taking 1 6) (.opening usual overtaken)).shared.trace := by
    unfold DistinctDraws
    decide +kernel
  have hfollows := hforward usual _ _ _ _ _ (System.reachable_opening overtaken)
    (System.leads_stage (.go taking 1 6) _) hdistinct hst hst'
  revert hfollows
  decide

end CommitReveal.Agent
