import CommitReveal.Agent.Reconcile
import CommitReveal.Proofs.TaskRules

/-! Reveals, reconcile passes and events within the conduct of a task. Only hashes with a seed are
asked for, and one is taken out of the pending set only when the trace has released it. -/
namespace CommitReveal.Agent

open Program
open Repository (Field key Seeded Marked Recorded)

variable {s : Settings} {i : Nat} {σ τ : Shared} {h : Hash}

theorem upholds_defer (hord : Orderly s σ) {hashes : List Hash}
    (hseeded : ∀ h ∈ hashes, Seeded σ.store h) : (defer hashes).Upholds (room s i) anyhow σ :=
  upholds_ignored hord fun _ _ honward h hmem => honward.seeded h (hseeded h hmem)

theorem upholds_requestReveal (hord : Orderly s σ) (hseeded : Seeded σ.store h) :
    (requestReveal h).Upholds (room s i) anyhow σ := by
  have putOff {n : Notice} {τ : Shared} (hn : ∀ τ, Allows s (.notify n) τ) (hτ : Orderly s τ)
      (hseeded : Seeded τ.store h) :
      Upholds (room s i) (do notify n; defer [h] : Activity Unit) anyhow τ := by
    refine hτ.andThenTask (upholds_notify hτ hn) fun _ υ _ hυ honward => ?_
    refine upholds_defer hυ fun k hk => ?_
    rw [List.mem_singleton.1 hk]
    exact honward.seeded h hseeded
  unfold requestReveal
  have hask := upholds_ignored (i := i) (r := .memory (.enqueue h)) hord
    fun _ _ honward => honward.seeded h hseeded
  refine hord.andThenTask hask fun answer τ _ hτ honward => ?_
  cases answer with
  | queued => trivial
  | full => exact putOff (fun _ => trivial) hτ (honward.seeded h hseeded)
  | closed => exact putOff (fun _ => trivial) hτ (honward.seeded h hseeded)

theorem upholds_requestReveals (hord : Orderly s σ) {hashes : List Hash}
    (hseeded : ∀ h ∈ hashes, Seeded σ.store h) :
    (requestReveals hashes).Upholds (room s i) anyhow σ := by
  induction hashes generalizing σ with
  | nil => trivial
  | cons h rest ih =>
    have hhead : Seeded σ.store h := hseeded h List.mem_cons_self
    refine hord.andThenTask (upholds_requestReveal hord hhead) fun _ τ _ hτ honward => ?_
    exact ih hτ fun k hk => honward.seeded k (hseeded k (List.mem_cons_of_mem h hk))

/-- A mined reveal releases its hash, and the seed is the one that is stored. -/
theorem attempts_settleReveal (hord : Orderly s σ) {seed : Seed} {outcome : Option TxOutcome}
    (hmined : ∀ block, outcome = some ⟨block, true⟩ → Released s h σ.trace)
    (hseed : Sourced s h seed σ.trace) :
    Attempts (room s i) (settleReveal h seed outcome) anyhow anyhow σ := by
  rcases outcome with _ | ⟨block, _ | _⟩
  · exact hord.andThenNotify (fun _ => trivial) fun _ _ _ _ => trivial
  · exact hord.andThenNotify (fun _ => trivial) fun _ _ _ _ => trivial
  · have hmark := attempts_markRevealed (i := i) hord (some seed) (hmined block rfl)
      fun _ heq => Option.some.inj heq ▸ hseed
    refine hord.andThenStore hmark fun _ τ _ hτ _ => ?_
    exact hτ.andThenNotify (fun _ => trivial) fun _ _ _ _ => trivial

theorem attempts_submitReveal (hord : Orderly s σ) {seed : Seed} (hseed : Sourced s h seed σ.trace) :
    Attempts (room s i) (submitReveal s h seed) anyhow anyhow σ := by
  unfold submitReveal
  have hsubmit := upholds_submit (i := i) hord (.reveal h seed) fun _ _ _ _ => trivial
  refine hord.andThenLift hsubmit fun answer τ hsubmitted hτ hστ => ?_
  cases answer with
  | error cause => exact hτ.andThenNotify (fun _ => trivial) fun _ _ _ _ => trivial
  | ok tx =>
    refine hτ.andThenNotify (fun _ => trivial) fun _ υ hυ hτυ => ?_
    refine hυ.andThenLift (upholds_confirm hυ tx) fun outcome ω houtcome hω hυω => ?_
    refine attempts_settleReveal hω (fun block heq => ?_) ?_
    · subst heq
      obtain ⟨_, _, hanswer⟩ := houtcome
      have haccepted : Accepted (.reveal h seed) tx υ.trace := Accepted.mono hsubmitted hτυ.trace
      exact hanswer.released fun t ht => .revealMined (haccepted.mono ht)
    · exact hseed.mono ((hστ.trans hτυ).trans hυω).trace

theorem attempts_reveal (hord : Orderly s σ) (hseeded : Seeded σ.store h) :
    Attempts (room s i) (reveal s h) anyhow anyhow σ := by
  unfold reveal
  refine hord.andThenStore (attempts_status hord) ?_
  rintro status τ ⟨⟨r, hr, rfl⟩, hτstore⟩ hτ honward
  split
  · rename_i hrevealed
    obtain ⟨r, rfl, hstatus⟩ := Option.map_eq_some_iff.1 hrevealed
    have hreleased : Released s h σ.trace := (hord.final hr (by rw [hstatus]; rfl)).1
    refine hτ.andThenStore (attempts_clearPending (hreleased.mono honward.trace)) ?_
    exact fun _ _ _ _ _ => trivial
  split
  · trivial
  refine hτ.andThenStore (attempts_seed hτ) ?_
  rintro seed υ ⟨hget, -⟩ hυ hτυ
  have hseededτ : Seeded τ.store h := honward.seeded h hseeded
  unfold Seeded at hseededτ
  cases seed with
  | none =>
    rw [hget] at hseededτ
    cases hseededτ
  | some seed =>
    obtain ⟨seed', heq, hsourced⟩ := hτ.ledger.seed h _ hget
    obtain rfl := FixedBytes.ext heq
    exact attempts_submitReveal hυ (hsourced.mono hτυ.trace)

theorem upholds_processReveal (hord : Orderly s σ) (hseeded : Seeded σ.store h) :
    (processReveal s h).Upholds (room s i) anyhow σ := by
  have putOff {τ : Shared} (hτ : Orderly s τ) (hseeded : Seeded τ.store h) :
      (defer [h]).Upholds (room s i) anyhow τ :=
    upholds_defer hτ fun k hk => List.mem_singleton.1 hk ▸ hseeded
  unfold processReveal
  refine hord.andThenTask (attempts_reveal hord hseeded) fun outcome τ _ hτ honward => ?_
  have hseededτ : Seeded τ.store h := honward.seeded h hseeded
  rcases outcome with cause | _ | _ | _
  · refine hτ.andThenTask (upholds_notify hτ fun _ => trivial) fun _ υ _ hυ hτυ => ?_
    exact putOff hυ (hτυ.seeded h hseededτ)
  · trivial
  · trivial
  · exact putOff hτ hseededτ

/-- What the oracle's list and the head read after it say of the hashes listed. -/
structure Surveyed (s : Settings) (records : List OracleRecord) (head : Word) (t : Trace) : Prop where
  revealed : ∀ h r, listed? records h = some r → r.revealed → Published s h r.seed t
  expired : ∀ h r, listed? records h = some r → r.revealed = false →
    Word.saturatingAdd r.commitBlock s.limits.maxUnverified ≤ head → Released s h t

theorem Surveyed.mono {records : List OracleRecord} {head : Word} {t t' : Trace}
    (hs : Surveyed s records head t) (ht : t <:+ t') : Surveyed s records head t' where
  revealed h r hlisted hr := (hs.revealed h r hlisted hr).mono ht
  expired h r hlisted hr hle := (hs.expired h r hlisted hr hle).mono ht

theorem surveyed_of_answered {υ : Shared} {records : List OracleRecord} {head : Word}
    (hlist : Answered i (.chain (.listUnverified s.agent)) σ (.ok records) τ)
    (hhead : Answered i (.chain .blockNumber) τ (.ok head) υ) :
    Surveyed s records head υ.trace := by
  obtain ⟨before, -, hτ⟩ := hlist
  obtain ⟨between, hothers, hυ⟩ := hhead
  rw [hτ] at hυ
  constructor
  · intro h r hlisted hrevealed
    refine ⟨_, ?_, .listed (i := i) hlisted hrevealed rfl⟩
    rw [hυ]
    simp
  · intro h r hlisted hrevealed hle
    rw [hυ]
    exact .now (.listedExpired hlisted hrevealed hothers hle)

theorem attempts_reconcileListed (hord : Orderly s σ) {records : List OracleRecord} {head : Word}
    {r : OracleRecord} (hs : Surveyed s records head σ.trace) (hlisted : listed? records h = some r) :
    Attempts (room s i) (reconcileListed s head h r) anyhow anyhow σ := by
  unfold reconcileListed
  split
  · rename_i hrevealed
    have hpublished : Published s h r.seed σ.trace := hs.revealed h r hlisted hrevealed
    refine hord.andThenStore (attempts_markRevealed hord _ hpublished.released fun seed hseed => ?_)
      fun _ _ _ _ _ => trivial
    split at hseed
    · cases hseed
    · cases hseed
      exact .inr hpublished
  · rename_i hrevealed
    refine hord.andThenStore (attempts_setCommitBlock hord _) fun _ τ _ hτ hστ => ?_
    split
    · rename_i hexpired
      refine hτ.andThenNotify (fun _ => trivial) fun _ υ hυ hτυ => ?_
      have hle := of_decide_eq_true hexpired
      have hreleased : Released s h σ.trace :=
        hs.expired h r hlisted (Bool.eq_false_iff.2 hrevealed) hle
      have hmark := attempts_markExpired (i := i) hυ (hreleased.mono (hστ.trans hτυ).trace)
      exact hυ.andThenStore hmark fun _ _ _ _ _ => trivial
    · trivial

theorem attempts_reconcileAll (hord : Orderly s σ) {records : List OracleRecord} {head : Word}
    (hs : Surveyed s records head σ.trace) (hashes : List Hash) :
    Attempts (room s i) (reconcileAll s records head hashes) (fun work _ => ∀ h ∈ work, h ∈ hashes)
      anyhow σ := by
  induction hashes generalizing σ with
  | nil => exact fun h hmem => hmem
  | cons hash rest ih =>
    unfold reconcileAll
    have hone : Attempts (room s i) (reconcileOne s records head hash) anyhow anyhow σ := by
      unfold reconcileOne
      split
      · trivial
      · exact attempts_reconcileListed hord hs (by assumption)
    refine hord.andThenAttempt hone fun owed τ _ hτ hστ => ?_
    refine hτ.andThenAttempt (ih hτ (hs.mono hστ.trace)) fun work υ hwork hυ _ => ?_
    intro h hmem
    split at hmem
    · exact (List.mem_cons.1 hmem).elim (· ▸ List.mem_cons_self)
        fun hrest => List.mem_cons_of_mem hash (hwork h hrest)
    · exact List.mem_cons_of_mem hash (hwork h hmem)

theorem attempts_reconcile (hord : Orderly s σ) (candidates : List Hash) :
    Attempts (room s i) (reconcile s candidates) (fun work _ => ∀ h ∈ work, h ∈ candidates)
      anyhow σ := by
  unfold reconcile
  have hlist := attempts_chain (i := i) (c := .listUnverified s.agent) hord fun _ _ _ => trivial
  refine hord.andThenAttempt hlist fun records τ hrecords hτ _ => ?_
  have hhead := attempts_chain (i := i) (c := .blockNumber) hτ fun _ _ _ => trivial
  refine hτ.andThenAttempt hhead fun head υ hanswer hυ _ => ?_
  have hsurveyed := surveyed_of_answered hrecords hanswer
  refine (attempts_reconcileAll hυ hsurveyed candidates.eraseDups).imp ?_ fun _ _ => id
  intro work _ hwork h hmem
  exact List.mem_eraseDups.1 (hwork h hmem)

theorem upholds_storedPending (hord : Orderly s σ) :
    storedPending.Upholds (room s i) (fun hashes τ => ∀ h ∈ hashes, Seeded τ.store h) σ := by
  unfold storedPending
  have hpending := (upholds_callRepository (E := room s i) _ _ _).2 (attempts_pendingHashes hord)
  refine hord.andThenTask hpending fun answer τ hanswer hτ honward => ?_
  cases answer with
  | ok hashes =>
    intro h hmem
    exact honward.seeded h (hord.ledger.marked h (hanswer.1 h hmem)).1
  | error cause =>
    exact hτ.andThenTask (upholds_notify hτ fun _ => trivial) fun _ _ _ _ _ h hmem => nomatch hmem

theorem upholds_reconcileTick (hord : Orderly s σ) :
    (reconcileTick s).Upholds (room s i) anyhow σ := by
  unfold reconcileTick
  refine hord.andThenTask (upholds_storedPending hord) fun stored τ hstored hτ _ => ?_
  have htake : (ask (.memory .takeDeferred)).Upholds (room s i)
      (fun hashes υ => ∀ h ∈ hashes, Seeded υ.store h) τ := by
    refine upholds_request hτ (fun _ _ _ => trivial) fun υ hashes ω hυ _ _ hserved h hmem => ?_
    obtain ⟨rfl, rfl⟩ := hserved
    exact hυ.named h (.deferred hmem)
  refine hτ.andThenTask htake fun deferred υ hdeferred hυ hτυ => ?_
  have hseeded : ∀ h ∈ stored ++ deferred, Seeded υ.store h := by
    intro h hmem
    rcases List.mem_append.1 hmem with hmem | hmem
    · exact hτυ.seeded h (hstored h hmem)
    · exact hdeferred h hmem
  dsimp only
  split
  · trivial
  refine hυ.andThenTask (attempts_reconcile hυ (stored ++ deferred)) fun outcome ω hwork hω hυω => ?_
  cases outcome with
  | error cause =>
    refine hω.andThenTask (upholds_notify hω fun _ => trivial) fun _ ρ _ hρ hωρ => ?_
    exact upholds_defer hρ fun h hmem => (hυω.trans hωρ).seeded h (hdeferred h hmem)
  | ok work =>
    have queue {ρ : Shared} (hρ : Orderly s ρ) (hon : Onward s υ ρ) :
        (requestReveals work).Upholds (room s i) anyhow ρ :=
      upholds_requestReveals hρ fun h hmem => hon.seeded h (hseeded h (hwork h hmem))
    dsimp only
    split
    · refine hω.andThenTask (upholds_notify hω fun _ => trivial) fun _ ρ _ hρ hωρ => ?_
      exact queue hρ (hυω.trans hωρ)
    · exact queue hω hυω

end CommitReveal.Agent
