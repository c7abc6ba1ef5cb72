import CommitReveal.Proofs.Conduct

/-! What each operation of the repository does within the conduct of a task: when it may be begun, and
what is known when it succeeds. A failure may leave it half done; nothing need be known then, since
every single call has kept to the conduct. -/
namespace CommitReveal.Agent

open Program
open Repository (Field key Seeded Marked Recorded)

variable {s : Settings} {i : Nat} {σ : Shared} {h : Hash} {α β : Type}

def anyhow {S : Type} : α → S → Prop :=
  fun _ _ => True

/-- What the repository lives in, behind a task. -/
abbrev behind (E : Surroundings interface) : Surroundings Repository.interface where
  State := E.State
  Allows r := E.Allows (.store r)
  Meanwhile r := E.Meanwhile (.store r)
  Served r a := E.Served (.store r) a

theorem behind_carries {E : Surroundings interface} {R : E.State → E.State → Prop}
    (hR : E.Carries R) : (behind E).Carries R where
  right := hR.right
  trans := hR.trans
  meanwhile := hR.meanwhile
  served := hR.served

theorem upholds_interpret {E : Surroundings interface} {σ : E.State}
    (p : Program Repository.interface α) (Q : α → E.State → Prop) :
    (p.interpret fun r => ask (.store r)).Upholds E Q σ ↔ p.Upholds (behind E) Q σ := by
  induction p generalizing σ with
  | done a => rfl
  | ask r next ih =>
    show (∀ τ, _ → _ ∧ ∀ a υ, _ → _) ↔ ∀ τ, _ → _ ∧ ∀ a υ, _ → _
    simp only [done_bind, ih]

theorem upholds_callRepository {E : Surroundings interface} {σ : E.State} (a : Repository.Action α)
    (Q : α → E.State → Prop) (R : Store.StoreError → E.State → Prop) :
    (callRepository a).Upholds E (Outcome Q R) σ ↔ Attempts (behind E) a Q R σ :=
  upholds_interpret a.run (Outcome Q R)

theorem attempts_repository {E : Surroundings interface} {σ : E.State} (a : Repository.Action α)
    (Q : α → E.State → Prop) (R : AgentError → E.State → Prop) :
    Attempts E (repository a) Q R σ ↔ Attempts (behind E) a Q (fun e => R (.store e)) σ := by
  unfold repository
  rw [attempts_mk, bind_eq, upholds_bind, ← upholds_callRepository]
  constructor
  · intro hp
    refine hp.imp fun o τ ho => ?_
    cases o <;> exact ho
  · intro hp
    refine hp.imp fun o τ ho => ?_
    cases o <;> exact ho

abbrev storeOf (s : Settings) (i : Nat) : Surroundings Repository.interface :=
  behind ((conduct s).around i)

theorem Orderly.since (hord : Orderly s σ) : (conduct s).Since σ σ :=
  ⟨hord, Onward.refl σ⟩

/-- One operation after another: in between the store is in order, and nothing is taken back. -/
theorem Orderly.andThen {x : Repository.Action α} {f : α → Repository.Action β}
    {P : α → Shared → Prop} {Q : β → Shared → Prop} {R : Store.StoreError → Shared → Prop}
    (hord : Orderly s σ) (hx : Attempts (storeOf s i) x P R σ)
    (hf : ∀ a τ, P a τ → Orderly s τ → Onward s σ τ → Attempts (storeOf s i) (f a) Q R τ) :
    Attempts (storeOf s i) (x >>= f) Q R σ :=
  Attempts.andThen (behind_carries ((conduct s).carries i)) hord.since hx
    fun a τ hP hτ => hf a τ hP hτ.1 hτ.2

theorem upholds_store {r : Repository.Request} {Q : r.Answer → Shared → Prop}
    (hallows : Allows s (.store r) σ)
    (hQ : ∀ a τ, Served (.store r) a σ τ → Q a (τ.note (.answered i (.store r) a))) :
    (Program.request (I := Repository.interface) r).Upholds (storeOf s i) Q σ := by
  intro τ hτ
  obtain rfl : τ = σ := hτ
  refine ⟨hallows, fun a υ hυ => ?_⟩
  obtain ⟨ω, hserved, rfl, -⟩ := hυ
  exact hQ a ω hserved

theorem attempts_call {c : Store.Call} {Q : c.Result → Shared → Prop}
    (hallows : Allows s (.store (.call c)) σ)
    (hQ : ∀ e, Q (σ.store.perform c).1
      (({ σ with store := (σ.store.perform c).2 } : Shared).note e)) :
    Attempts (storeOf s i)
      (ExceptT.mk (Program.request (I := Repository.interface) (.call c)) : Repository.Action c.Result)
      Q anyhow σ := by
  refine upholds_store hallows fun a τ hserved => ?_
  rcases hserved with ⟨_, rfl, rfl⟩ | ⟨rfl | ⟨_, rfl⟩, rfl⟩
  · trivial
  · exact hQ _
  · trivial

theorem attempts_get (k : Bytes) : Attempts (storeOf s i) (Repository.get k)
    (fun value τ => value = σ.store.get? k ∧ τ.store = σ.store) anyhow σ :=
  attempts_call trivial fun _ => ⟨rfl, congrArg Prod.snd (σ.store.perform_get k)⟩

theorem attempts_scan (start : Bytes) : Attempts (storeOf s i) (Repository.scan start)
    (fun entries τ => entries = (σ.store.perform (.scan start)).1 ∧ τ.store = σ.store) anyhow σ :=
  attempts_call trivial fun _ => ⟨rfl, σ.store.perform_scan start⟩

theorem attempts_set {k value : Bytes} (hw : MayWrite s σ.store σ.trace k value) :
    Attempts (storeOf s i) (Repository.set k value)
      (fun _ τ => τ.store = (σ.store.perform (.set k value)).2) anyhow σ :=
  attempts_call hw fun _ => rfl

theorem attempts_now :
    Attempts (storeOf s i) Repository.now (fun _ τ => τ.store = σ.store) anyhow σ :=
  (attempts_lift (Program.request (I := Repository.interface) .clock)).2 <|
    upholds_store trivial fun _ τ hserved => by
      obtain rfl : τ = σ := hserved
      rfl

theorem attempts_record (hord : Orderly s σ) : Attempts (storeOf s i) (Repository.record h)
    (fun r τ => Recorded σ.store h r ∧ τ.store = σ.store) anyhow σ := by
  unfold Repository.record
  refine hord.andThen (attempts_get _) ?_
  rintro value τ ⟨hvalue, hτ⟩ - -
  cases value with
  | none => exact ⟨hvalue.symm, hτ⟩
  | some bytes =>
    obtain ⟨r, rfl, -⟩ := hord.ledger.record h bytes hvalue.symm
    simp only [Repository.recordOfBytes_encode]
    exact ⟨hvalue.symm, hτ⟩

theorem attempts_status (hord : Orderly s σ) : Attempts (storeOf s i) (Repository.status h)
    (fun st τ => (∃ r, Recorded σ.store h r ∧ st = r.map (·.status)) ∧ τ.store = σ.store)
    anyhow σ := by
  unfold Repository.status
  refine hord.andThen (attempts_record hord) ?_
  rintro r τ ⟨hr, hτ⟩ - -
  exact ⟨⟨r, hr, rfl⟩, hτ⟩

theorem attempts_recordOr (hord : Orderly s σ) (st : Status) :
    Attempts (storeOf s i) (Repository.recordOr h st)
      (fun r τ => (Recorded σ.store h (some r) ∨ Recorded σ.store h none ∧ r.status = st) ∧
        τ.store = σ.store) anyhow σ := by
  unfold Repository.recordOr
  refine hord.andThen (attempts_record hord) ?_
  rintro r τ ⟨hr, hτ⟩ hordτ -
  cases r with
  | some r => exact ⟨.inl hr, hτ⟩
  | none =>
    refine hordτ.andThen attempts_now ?_
    intro time υ hυ _ _
    exact ⟨.inr ⟨hr, rfl⟩, hυ.trans hτ⟩

theorem attempts_seed (hord : Orderly s σ) : Attempts (storeOf s i) (Repository.seed h)
    (fun seed τ => σ.store.get? (key .seed h) = seed.map (·.bytes) ∧ τ.store = σ.store)
    anyhow σ := by
  unfold Repository.seed Repository.getHash
  refine hord.andThen (attempts_get _) ?_
  rintro value τ ⟨hvalue, hτ⟩ - -
  cases value with
  | none => exact ⟨hvalue.symm, hτ⟩
  | some bytes =>
    obtain ⟨seed, rfl, -⟩ := hord.ledger.seed h bytes hvalue.symm
    simp only [Repository.hashOfBytes_bytes]
    exact ⟨hvalue.symm, hτ⟩

theorem seeded_of_seed {τ : Shared} {seed : Option Seed}
    (hget : σ.store.get? (key .seed h) = seed.map (·.bytes)) (hstore : τ.store = σ.store)
    (hsome : seed.isSome) : Seeded τ.store h := by
  unfold Seeded
  rwa [hstore, hget, Option.isSome_map]

theorem attempts_isPending (hord : Orderly s σ) : Attempts (storeOf s i) (Repository.isPending h)
    (fun pending τ => (pending = true ↔ Marked σ.store h) ∧ τ.store = σ.store) anyhow σ := by
  unfold Repository.isPending Repository.has
  refine hord.andThen (attempts_get _) ?_
  rintro value τ ⟨rfl, hτ⟩ - -
  exact ⟨Iff.rfl, hτ⟩

theorem attempts_pendingHashes (hord : Orderly s σ) :
    Attempts (storeOf s i) Repository.pendingHashes
      (fun hashes τ => (∀ h ∈ hashes, Marked σ.store h) ∧ τ.store = σ.store) anyhow σ := by
  unfold Repository.pendingHashes
  refine hord.andThen (attempts_scan _) ?_
  rintro entries τ ⟨rfl, hτ⟩ - -
  show Outcome _ _ _ τ
  generalize hhashes : List.mapM (m := Except Store.StoreError) _ _ = hashes
  cases hashes with
  | error e => trivial
  | ok hashes =>
    refine ⟨fun h hmem => ?_, hτ⟩
    obtain ⟨e, he, hhash⟩ := Repository.exists_of_mem_mapM hhashes hmem
    exact Repository.marked_of_entry he hhash

theorem attempts_putRecord {r : CommitRecord}
    (final : r.status.isTerminal → Released s h σ.trace ∧ ¬Marked σ.store h) :
    Attempts (storeOf s i) (Repository.putRecord h r)
      (fun _ τ => τ.store = (σ.store.perform (.set (key .record h) r.encode)).2) anyhow σ :=
  attempts_set (.record final)

theorem Orderly.final (hord : Orderly s σ) {r : CommitRecord} (hr : Recorded σ.store h (some r))
    (hfinal : r.status.isTerminal) : Released s h σ.trace ∧ ¬Marked σ.store h := by
  obtain ⟨r', hr', hreleased⟩ := hord.ledger.record h _ hr
  obtain rfl := Repository.encode_inj hr'
  refine ⟨hreleased hfinal, fun hm => ?_⟩
  obtain ⟨-, r', hrecord, hopen⟩ := hord.ledger.marked h hm
  obtain rfl := Repository.encode_inj (Option.some.inj (hr.symm.trans hrecord))
  rw [hfinal] at hopen
  cases hopen

theorem attempts_storeSeed (hord : Orderly s σ) {seed : Seed} (hseed : Sourced s h seed σ.trace) :
    Attempts (storeOf s i) (Repository.storeSeed h seed)
      (fun _ τ => Seeded τ.store h ∧ ∃ r, Recorded τ.store h (some r)) anyhow σ := by
  unfold Repository.storeSeed
  refine hord.andThen (attempts_set (.seed hseed)) ?_
  intro _ τ hτstore hτ _
  have hseeded : Seeded τ.store h := by
    unfold Seeded
    rw [hτstore, Repository.get?_set_key]
    simp
  refine hτ.andThen (attempts_record hτ) ?_
  rintro r υ ⟨hr, hυstore⟩ hυ hτυ
  cases r with
  | some r => exact ⟨hτυ.seeded h hseeded, r, hυstore ▸ hr⟩
  | none =>
    refine hυ.andThen attempts_now ?_
    intro time ω _ hω hυω
    refine Attempts.imp (attempts_putRecord ?_) ?_ fun _ _ => id
    · intro hfinal
      cases hfinal
    · intro _ ρ hρstore
      refine ⟨hρstore ▸ seeded_set (hυω.seeded h (hτυ.seeded h hseeded)), ⟨.created, none, time⟩, ?_⟩
      unfold Recorded
      rw [hρstore, Repository.get?_set_key]
      simp

theorem attempts_markPending (hord : Orderly s σ) (hseeded : Seeded σ.store h)
    (hrecord : ∃ r, Recorded σ.store h (some r)) :
    Attempts (storeOf s i) (Repository.markPending h) (fun _ τ => Owed s τ h) anyhow σ := by
  obtain ⟨r, hr⟩ := hrecord
  have mark {τ : Shared} (hτstore : τ.store = σ.store) (hτ : Orderly s τ)
      (hopen : r.status.isTerminal = false) : Attempts (storeOf s i)
      (do Repository.set (key .pending h) [1]; return true) (fun _ τ => Owed s τ h) anyhow τ := by
    refine hτ.andThen (attempts_set (.pending (r := r) ?_ ?_ hopen)) ?_
    · exact hτstore ▸ hseeded
    · exact hτstore ▸ hr
    · intro _ υ hυ _ _
      refine .inl ?_
      unfold Marked
      rw [hυ, Repository.get?_set_key]
      simp
  unfold Repository.markPending
  refine hord.andThen (attempts_status hord) ?_
  rintro st τ ⟨⟨r', hr', rfl⟩, hτstore⟩ hτ honward
  have heq : r'.map CommitRecord.encode = some r.encode := hr'.symm.trans hr
  cases r' with
  | none => cases heq
  | some r' =>
    obtain rfl := Repository.encode_inj (Option.some.inj heq)
    simp only [Option.map_some]
    split
    · rename_i hfinal
      exact .inr ((hord.final hr hfinal).1.mono honward.trace)
    · rename_i hopen
      exact mark hτstore hτ (by simpa using hopen)

theorem attempts_setStatus (hord : Orderly s σ) (st : Status)
    (final : st.isTerminal → Released s h σ.trace ∧ ¬Marked σ.store h) :
    Attempts (storeOf s i) (Repository.setStatus h st) anyhow anyhow σ := by
  unfold Repository.setStatus
  refine hord.andThen (attempts_recordOr hord st) ?_
  rintro r τ ⟨-, hτstore⟩ hτ hστ
  split
  · trivial
  · refine hτ.andThen attempts_now ?_
    intro time υ hυstore hυ hτυ
    refine hυ.andThen (attempts_putRecord fun hfinal => ?_) fun _ _ _ _ _ => trivial
    obtain ⟨hreleased, hm⟩ := final hfinal
    refine ⟨hreleased.mono (hστ.trans hτυ).trace, ?_⟩
    rwa [hυstore, hτstore]

theorem attempts_setCommitBlock (hord : Orderly s σ) (block : Word) :
    Attempts (storeOf s i) (Repository.setCommitBlock h block) anyhow anyhow σ := by
  unfold Repository.setCommitBlock
  refine hord.andThen (attempts_recordOr hord .committed) ?_
  rintro r τ ⟨hr, hτstore⟩ hτ _
  split
  · trivial
  · refine (attempts_putRecord fun hfinal => ?_).imp (fun _ _ _ => trivial) fun _ _ => id
    rcases hr with hr | ⟨-, hfresh⟩
    · rw [← hτstore] at hr
      exact hτ.final hr hfinal
    · simp [hfresh, Status.isTerminal] at hfinal

theorem attempts_clearPending (hreleased : Released s h σ.trace) :
    Attempts (storeOf s i) (Repository.clearPending h) (fun _ τ => ¬Marked τ.store h) anyhow σ := by
  refine attempts_call ⟨h, rfl, hreleased⟩ fun e hm => ?_
  exact (marked_delete.1 hm).1 rfl

theorem attempts_finish (hord : Orderly s σ) (st : Status) (hreleased : Released s h σ.trace) :
    Attempts (storeOf s i)
      (do Repository.clearPending h; discard <| Repository.setStatus h st) anyhow anyhow σ := by
  refine hord.andThen (attempts_clearPending hreleased) ?_
  intro _ τ hm hτ honward
  rw [attempts_discard]
  exact attempts_setStatus hτ st fun _ => ⟨hreleased.mono honward.trace, hm⟩

theorem attempts_markExpired (hord : Orderly s σ) (hreleased : Released s h σ.trace) :
    Attempts (storeOf s i) (Repository.markExpired h) anyhow anyhow σ :=
  attempts_finish hord .expired hreleased

theorem attempts_markAbandoned (hord : Orderly s σ) (hreleased : Released s h σ.trace) :
    Attempts (storeOf s i) (Repository.markAbandoned h) anyhow anyhow σ :=
  attempts_finish hord .abandoned hreleased

theorem attempts_markRevealed (hord : Orderly s σ) (seed : Option Seed)
    (hreleased : Released s h σ.trace) (hseed : ∀ sd, seed = some sd → Sourced s h sd σ.trace) :
    Attempts (storeOf s i) (Repository.markRevealed h seed) anyhow anyhow σ := by
  have close {τ : Shared} (hτ : Orderly s τ) (hreleased : Released s h τ.trace) :
      Attempts (storeOf s i) (do
        Repository.clearPending h
        if (← Repository.status h) ≠ some .revealed then
          discard <| Repository.setStatus h .revealed) anyhow anyhow τ := by
    refine hτ.andThen (attempts_clearPending hreleased) ?_
    intro _ υ hm hυ hτυ
    refine hυ.andThen (attempts_status hυ) ?_
    rintro st ω ⟨-, hωstore⟩ hω hυω
    split
    · rw [attempts_discard]
      refine attempts_setStatus hω .revealed fun _ => ⟨?_, hωstore ▸ hm⟩
      exact hreleased.mono (hτυ.trans hυω).trace
    · trivial
  unfold Repository.markRevealed
  cases seed with
  | none => exact close hord hreleased
  | some sd =>
    refine hord.andThen (attempts_set (.seed (hseed sd rfl))) ?_
    intro _ τ _ hτ honward
    exact close hτ (hreleased.mono honward.trace)

theorem attempts_storeTx (tx : TxHash) :
    Attempts (storeOf s i) (Repository.storeTx h tx) anyhow anyhow σ :=
  (attempts_set .tx).imp (fun _ _ _ => trivial) fun _ _ => id

theorem attempts_setCursor (block : Word) :
    Attempts (storeOf s i) (Repository.setCursor block) anyhow anyhow σ :=
  (attempts_set .cursor).imp (fun _ _ _ => trivial) fun _ _ => id

theorem attempts_cursor (hord : Orderly s σ) :
    Attempts (storeOf s i) Repository.cursor anyhow anyhow σ := by
  unfold Repository.cursor
  refine hord.andThen (attempts_get _) ?_
  intro value τ _ hτ _
  cases value with
  | none => trivial
  | some bytes =>
    refine hτ.andThen (P := anyhow) ?_ fun _ _ _ _ _ => trivial
    rw [attempts_ofExcept]
    cases Repository.cursorOfBytes bytes <;> trivial

end CommitReveal.Agent
