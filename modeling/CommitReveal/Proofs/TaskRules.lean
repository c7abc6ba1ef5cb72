import CommitReveal.Agent.Commit
import CommitReveal.Proofs.RepositoryRules

/-! Requests, transactions and commits within the conduct of a task. What a task knows of the trace is
that its own latest answer stands there, and that only others have added to what it knew before. -/
namespace CommitReveal.Agent

open Program
open Repository (Field key Seeded Marked Recorded)

variable {s : Settings} {i : Nat} {σ τ : Shared} {h : Hash} {α β : Type}

abbrev room (s : Settings) (i : Nat) : Surroundings interface :=
  (conduct s).around i

theorem Orderly.andThenTask {p : Activity α} {f : α → Activity β} {P : α → Shared → Prop}
    {Q : β → Shared → Prop} (hord : Orderly s σ) (hp : p.Upholds (room s i) P σ)
    (hf : ∀ a τ, P a τ → Orderly s τ → Onward s σ τ → (f a).Upholds (room s i) Q τ) :
    (p.bind f).Upholds (room s i) Q σ :=
  Upholds.andThen ((conduct s).carries i) hord.since hp fun a τ hP hτ => hf a τ hP hτ.1 hτ.2

theorem Orderly.andThenAttempt {x : Attempt α} {f : α → Attempt β} {P : α → Shared → Prop}
    {Q : β → Shared → Prop} {R : AgentError → Shared → Prop} (hord : Orderly s σ)
    (hx : Attempts (room s i) x P R σ)
    (hf : ∀ a τ, P a τ → Orderly s τ → Onward s σ τ → Attempts (room s i) (f a) Q R τ) :
    Attempts (room s i) (x >>= f) Q R σ :=
  Attempts.andThen ((conduct s).carries i) hord.since hx fun a τ hP hτ => hf a τ hP hτ.1 hτ.2

/-- A request is served in a state that the others have left in order. -/
theorem upholds_request (hord : Orderly s σ) {r : Request} {Q : r.Answer → Shared → Prop}
    (hallows : ∀ τ, Orderly s τ → Onward s σ τ → Allows s r τ)
    (hQ : ∀ τ a υ, Orderly s τ → Onward s σ τ → Apart i σ τ → Served r a τ υ →
      Q a (υ.note (.answered i r a))) : (ask r).Upholds (room s i) Q σ := by
  intro τ hτ
  have hstate : Orderly s τ ∧ Onward s σ τ ∧ Apart i σ τ := by
    dsimp only at hτ
    split at hτ
    · exact hτ
    · obtain rfl : τ = σ := hτ
      exact ⟨hord, Onward.refl τ, Apart.refl i τ⟩
  obtain ⟨hordτ, honward, hapart⟩ := hstate
  refine ⟨hallows τ hordτ honward, fun a υ hυ => ?_⟩
  obtain ⟨ω, hserved, rfl, -⟩ := hυ
  exact hQ τ a ω hordτ honward hapart hserved

/-- The latest event is the answer to task `i`; since the state `σ` it has not been answered before. -/
def Answered (i : Nat) (r : Request) (σ : Shared) (a : r.Answer) (τ : Shared) : Prop :=
  ∃ between : Trace, (∀ e ∈ between, e.task? ≠ some i) ∧
    τ.trace = .answered i r a :: (between ++ σ.trace)

theorem Answered.mem {r : Request} {a : r.Answer} (ha : Answered i r σ a τ) :
    Event.answered i r a ∈ τ.trace := by
  obtain ⟨between, -, htrace⟩ := ha
  rw [htrace]
  exact List.mem_cons_self

theorem Answered.released {r : Request} {a : r.Answer} (ha : Answered i r σ a τ)
    (hreleases : ∀ t, σ.trace <:+ t → Releases s h t (.answered i r a)) : Released s h τ.trace := by
  obtain ⟨between, -, htrace⟩ := ha
  rw [htrace]
  exact .now (hreleases _ (List.suffix_append between σ.trace))

theorem upholds_answered (hord : Orderly s σ) {r : Request}
    (hallows : ∀ τ, Orderly s τ → Onward s σ τ → Allows s r τ) :
    (ask r).Upholds (room s i) (Answered i r σ) σ := by
  refine upholds_request hord hallows fun τ a υ _ _ hapart hserved => ?_
  obtain ⟨between, hbetween, hothers⟩ := hapart
  exact ⟨between, hothers, by rw [Shared.trace_note, hserved.trace, hbetween]⟩

theorem upholds_ignored (hord : Orderly s σ) {r : Request}
    (hallows : ∀ τ, Orderly s τ → Onward s σ τ → Allows s r τ) :
    (ask r).Upholds (room s i) anyhow σ :=
  upholds_request hord hallows fun _ _ _ _ _ _ _ => trivial

theorem upholds_notify (hord : Orderly s σ) {n : Notice} (hn : ∀ τ, Allows s (.notify n) τ) :
    (notify n).Upholds (room s i) anyhow σ :=
  upholds_ignored hord fun τ _ _ => hn τ

theorem upholds_notifyAll (hord : Orderly s σ) {ns : List Notice}
    (hns : ∀ n ∈ ns, ∀ τ, Allows s (.notify n) τ) : (notifyAll ns).Upholds (room s i) anyhow σ := by
  induction ns generalizing σ with
  | nil => trivial
  | cons n rest ih =>
    refine hord.andThenTask (upholds_notify hord (hns n List.mem_cons_self)) ?_
    intro _ τ _ hτ _
    exact ih hτ fun m hm => hns m (List.mem_cons_of_mem n hm)

theorem upholds_abort (f : Fault) {Q : α → Shared → Prop} : (abort f).Upholds (room s i) Q σ :=
  fun _ _ => ⟨trivial, fun never => nomatch never⟩

theorem upholds_orAbort (e : Except Fault α) :
    (orAbort e).Upholds (room s i) (fun a τ => e = .ok a ∧ τ = σ) σ := by
  cases e with
  | ok a => exact ⟨rfl, rfl⟩
  | error f => exact upholds_abort f

theorem Orderly.orAbort {p : Activity (Except Fault α)} (hord : Orderly s σ)
    (hp : p.Upholds (room s i) anyhow σ) : (p.bind Agent.orAbort).Upholds (room s i) anyhow σ :=
  hord.andThenTask hp fun e _ _ _ _ => (upholds_orAbort e).imp fun _ _ _ => trivial

theorem attempts_chain (hord : Orderly s σ) {c : Chain.Call}
    (hallows : ∀ τ, Orderly s τ → Onward s σ τ → Allows s (.chain c) τ) :
    Attempts (room s i) (chain c) (fun a τ => Answered i (.chain c) σ (.ok a) τ) anyhow σ := by
  unfold chain callChain
  rw [attempts_mk]
  refine (upholds_answered hord hallows).bind fun a τ ha => ?_
  cases a with
  | ok a => exact ha
  | error cause => trivial

theorem Orderly.andThenStore {x : Repository.Action α} {f : α → Attempt β} {P : α → Shared → Prop}
    {Q : β → Shared → Prop} (hord : Orderly s σ) (hx : Attempts (storeOf s i) x P anyhow σ)
    (hf : ∀ a τ, P a τ → Orderly s τ → Onward s σ τ → Attempts (room s i) (f a) Q anyhow τ) :
    Attempts (room s i) (repository x >>= f) Q anyhow σ :=
  hord.andThenAttempt ((attempts_repository x P anyhow).2 hx) hf

theorem Orderly.andThenDiscard {x : Repository.Action α} {f : PUnit → Attempt β}
    {P : α → Shared → Prop} {Q : β → Shared → Prop} (hord : Orderly s σ)
    (hx : Attempts (storeOf s i) x P anyhow σ)
    (hf : ∀ u τ, (∃ a, P a τ) → Orderly s τ → Onward s σ τ → Attempts (room s i) (f u) Q anyhow τ) :
    Attempts (room s i) (discard (repository x) >>= f) Q anyhow σ := by
  refine hord.andThenAttempt ?_ hf
  rw [attempts_discard, attempts_repository]
  exact hx.imp (fun a _ ha => ⟨a, ha⟩) fun _ _ => id

theorem Orderly.andThenLift {p : Activity α} {f : α → Attempt β} {P : α → Shared → Prop}
    {Q : β → Shared → Prop} (hord : Orderly s σ) (hp : p.Upholds (room s i) P σ)
    (hf : ∀ a τ, P a τ → Orderly s τ → Onward s σ τ → Attempts (room s i) (f a) Q anyhow τ) :
    Attempts (room s i) (liftM p >>= f) Q anyhow σ :=
  hord.andThenAttempt ((attempts_lift p).2 hp) hf

theorem Orderly.andThenNotify {n : Notice} {f : Unit → Attempt β} {Q : β → Shared → Prop}
    (hord : Orderly s σ) (hn : ∀ τ, Allows s (.notify n) τ)
    (hf : ∀ a τ, Orderly s τ → Onward s σ τ → Attempts (room s i) (f a) Q anyhow τ) :
    Attempts (room s i) (liftM (notify n) >>= f) Q anyhow σ :=
  hord.andThenLift (upholds_notify hord hn) fun a τ _ hτ honward => hf a τ hτ honward

def Submitted (what : Chain.Submission) (answer : Except ChainError TxHash) (t : Trace) : Prop :=
  ∃ i nonce, Event.answered i (.chain (.submit what nonce)) answer ∈ t

theorem Submitted.refused {cause : ChainError} {t : Trace}
    (hs : Submitted (.commit h) (.error cause) t) : Released s h t := by
  obtain ⟨i, nonce, hmem⟩ := hs
  obtain ⟨later, earlier, rfl⟩ := List.append_of_mem hmem
  exact ⟨later, _, earlier, rfl, .commitRefused⟩

theorem upholds_submit (hord : Orderly s σ) (what : Chain.Submission)
    (hallows : ∀ nonce τ, Orderly s τ → Onward s σ τ → Allows s (.chain (.submit what nonce)) τ) :
    (submit s what).Upholds (room s i) (fun answer τ => Submitted what answer τ.trace) σ := by
  have hcount : (observedCount s).Upholds (room s i) anyhow σ := by
    unfold observedCount callChain
    refine hord.andThenTask (upholds_ignored hord fun _ _ _ => trivial) ?_
    intro answer τ _ hτ _
    cases answer with
    | ok count => trivial
    | error cause => exact hτ.andThenTask (upholds_notify hτ fun _ => trivial) fun _ _ _ _ _ => trivial
  unfold submit takeNonce releaseNonce callChain
  refine hord.andThenTask hcount fun count τ _ hτ hστ => ?_
  have htake := hτ.orAbort (i := i) (upholds_ignored (r := .memory (.takeNonce count)) hτ
    fun _ _ _ => trivial)
  refine hτ.andThenTask htake fun nonce υ _ hυ hτυ => ?_
  have hallowsυ : ∀ ω, Orderly s ω → Onward s υ ω → Allows s (.chain (.submit what nonce)) ω :=
    fun ω hω hυω => hallows nonce ω hω ((hστ.trans hτυ).trans hυω)
  refine hυ.andThenTask (upholds_answered hυ hallowsυ) fun answer ω ha hω _ => ?_
  have hsubmitted : Submitted what answer ω.trace := ⟨i, nonce, ha.mem⟩
  cases answer with
  | ok tx => exact hsubmitted
  | error cause =>
    have hrelease := hω.orAbort (i := i) (upholds_ignored (r := .memory (.releaseNonce nonce)) hω
      fun _ _ _ => trivial)
    refine hω.andThenTask hrelease fun _ ρ _ _ hωρ => ?_
    exact ⟨i, nonce, hωρ.trace.subset ha.mem⟩

theorem upholds_confirm (hord : Orderly s σ) (tx : TxHash) :
    (confirm s tx).Upholds (room s i) (fun outcome τ => ∃ poll timeout,
      Answered i (.receipt tx poll timeout) σ outcome τ) σ := by
  unfold confirm awaitReceipt
  split
  · exact upholds_abort _
  · exact Upholds.imp (upholds_answered hord fun _ _ _ => trivial) fun _ _ ha => ⟨_, _, ha⟩

theorem attempts_approveAllowance (hord : Orderly s σ) (amount : Nat) :
    Attempts (room s i) (approveAllowance s amount) anyhow anyhow σ := by
  unfold approveAllowance
  have hcurrent := attempts_chain (i := i) (c := .tokenAllowance s.agent s.oracle) hord
    fun _ _ _ => trivial
  refine hord.andThenAttempt hcurrent fun current τ _ hτ _ => ?_
  split
  · exact (attempts_lift _).2 (upholds_notify hτ fun _ => trivial)
  refine hτ.andThenLift (upholds_submit hτ _ fun _ _ _ _ => trivial) fun answer υ _ hυ _ => ?_
  cases answer with
  | error cause => trivial
  | ok tx =>
    refine hυ.andThenNotify (fun _ => trivial) fun _ ω hω _ => ?_
    refine hω.andThenLift (upholds_confirm hω tx) fun outcome ρ _ hρ _ => ?_
    cases outcome with
    | none => trivial
    | some outcome =>
      dsimp only
      split
      · exact (attempts_lift _).2 (upholds_notify hρ fun _ => trivial)
      · trivial

theorem upholds_freshSeed (hord : Orderly s σ) :
    (freshSeed s).Upholds (room s i) (fun seed τ => ∃ entropy, seed = seedOf s.agent entropy ∧
      Event.answered i .entropy entropy ∈ τ.trace) σ :=
  Upholds.bind (upholds_answered hord fun _ _ _ => trivial) fun entropy _ ha => ⟨entropy, rfl, ha.mem⟩

theorem attempts_settleCommit (hord : Orderly s σ) {outcome : Option TxOutcome}
    (hreverted : ∀ block, outcome = some ⟨block, false⟩ → Released s h σ.trace) :
    Attempts (room s i) (settleCommit h outcome) anyhow anyhow σ := by
  have hopen {τ : Shared} (hτ : Orderly s τ) : Attempts (storeOf s i)
      (Repository.setStatus h .pendingReveal) anyhow anyhow τ :=
    attempts_setStatus hτ .pendingReveal fun hfinal => nomatch hfinal
  rcases outcome with _ | ⟨block, _ | _⟩
  · refine hord.andThenNotify (fun _ => trivial) fun _ τ hτ _ => ?_
    exact hτ.andThenDiscard (hopen hτ) fun _ _ _ _ _ => trivial
  · refine hord.andThenNotify (fun _ => trivial) fun _ τ hτ honward => ?_
    have hreleased : Released s h τ.trace := (hreverted block rfl).mono honward.trace
    exact hτ.andThenStore (attempts_markAbandoned hτ hreleased) fun _ _ _ _ _ => trivial
  · cases block with
    | none => exact hord.andThenDiscard (hopen hord) fun _ _ _ _ _ => trivial
    | some b =>
      refine hord.andThenStore (attempts_setCommitBlock hord b) fun _ τ _ hτ _ => ?_
      exact hτ.andThenDiscard (hopen hτ) fun _ _ _ _ _ => trivial

theorem attempts_issueCommit (hord : Orderly s σ) :
    Attempts (room s i) (issueCommit s) anyhow anyhow σ := by
  unfold issueCommit
  refine hord.andThenLift (upholds_freshSeed hord) fun seed τ hseed hτ _ => ?_
  obtain ⟨entropy, hseed, hentropy⟩ := hseed
  have hcompute := attempts_chain (i := i) (c := .computeCommitHash seed) hτ fun _ _ _ => trivial
  refine hτ.andThenAttempt hcompute fun hash υ hanswer hυ hτυ => ?_
  have hdrawn : Drawn s hash seed υ.trace :=
    ⟨i, entropy, hseed, hτυ.trace.subset hentropy, hanswer.mem⟩
  refine hυ.andThenStore (attempts_storeSeed hυ (.inl hdrawn)) fun _ ω hstored hω hυω => ?_
  obtain ⟨hseeded, hrecord⟩ := hstored
  refine hω.andThenDiscard (attempts_markPending hω hseeded hrecord) fun _ ρ howed hρ hωρ => ?_
  obtain ⟨_, howed⟩ := howed
  have hbacked : Backed s ρ hash :=
    ⟨howed, hωρ.seeded hash hseeded, seed, hdrawn.mono (hυω.trans hωρ).trace⟩
  have hsubmit := upholds_submit (i := i) hρ (.commit hash) fun _ _ _ hon => hbacked.onward hon
  refine hρ.andThenLift hsubmit fun answer ω hsubmitted hω _ => ?_
  cases answer with
  | error cause =>
    refine hω.andThenNotify (fun _ => trivial) fun _ υ hυ honward => ?_
    have hreleased : Released s hash υ.trace := hsubmitted.refused.mono honward.trace
    exact hυ.andThenStore (attempts_markAbandoned hυ hreleased) fun _ _ _ _ _ => trivial
  | ok tx =>
    refine hω.andThenStore (attempts_storeTx tx) fun _ υ _ hυ hωυ => ?_
    have hset := attempts_setStatus (i := i) (h := hash) hυ .committed fun hfinal => nomatch hfinal
    refine hυ.andThenDiscard hset fun _ σ₁ _ hσ₁ hυσ₁ => ?_
    refine hσ₁.andThenNotify (fun _ => trivial) fun _ σ₂ hσ₂ hσ₁₂ => ?_
    have haccepted : Accepted (.commit hash) tx σ₂.trace :=
      Accepted.mono hsubmitted ((hωυ.trans hυσ₁).trans hσ₁₂).trace
    refine hσ₂.andThenLift (upholds_confirm hσ₂ tx) fun outcome σ₃ houtcome hσ₃ _ => ?_
    refine attempts_settleCommit hσ₃ fun block heq => ?_
    subst heq
    obtain ⟨_, _, hanswer⟩ := houtcome
    exact hanswer.released fun t ht => .commitReverted (haccepted.mono ht)

theorem upholds_commitTick (hord : Orderly s σ) : (commitTick s).Upholds (room s i) anyhow σ := by
  unfold commitTick
  refine hord.andThenTask (upholds_ignored hord fun _ _ _ => trivial) fun depth τ _ hτ _ => ?_
  split
  · refine hτ.andThenTask (attempts_issueCommit hτ) fun outcome υ _ hυ _ => ?_
    cases outcome with
    | ok _ => trivial
    | error cause => exact upholds_notify hυ fun _ => trivial
  · trivial

end CommitReveal.Agent
