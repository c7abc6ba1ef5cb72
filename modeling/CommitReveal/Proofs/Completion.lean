import CommitReveal.Proofs.Tending

/-! A task that sends a transaction comes to an end, whatever it is answered, as long as there are nonces left. -/
namespace CommitReveal.Agent

open Program

variable {s : Settings} {h : Hash} {α β : Type} {n m : Nat} {σ : Shared}

def NonceWithin (n : Nat) (σ : Shared) : Prop :=
  σ.memory.nonces.next.toNat ≤ n

theorem NonceWithin.mono (hσ : NonceWithin n σ) (hle : n ≤ m) : NonceWithin m σ :=
  Nat.le_trans hσ hle

def CountWithin (n : Nat) : Exchange interface → Prop
  | ⟨.chain (.transactionCount _), .ok count⟩ => count.toNat ≤ n
  | _ => True

/-- A task by itself, to which no count above this is told; it must not give up. -/
abbrev counting (n : Nat) : Surroundings interface where
  State := Shared
  Allows r _ := r.Answerable
  Meanwhile _ σ τ := τ = σ
  Served r a σ τ := Agent.Served r a σ τ ∧ CountWithin n ⟨r, a⟩

theorem endsAfter_amid {O : Shared → Shared → Prop} (hquiet : ∀ σ, O σ σ) {p : Activity α} {a : α} {τ : Shared}
    {t : Transcript interface} (h : p.EndsAfter (counting n) σ t a τ) : p.EndsAfter (amid O) σ t a τ := by
  refine EndsAfter.loosen (E := counting n) (F := amid O) id (fun {r σ τ} halone => ?_) And.left h
  obtain rfl : τ = σ := halone
  show if r.isWait then O τ τ else τ = τ
  split
  · exact hquiet τ
  · rfl

def Request.Steady : Request → Prop
  | .abort _ | .memory (.takeNonce _) | .memory (.releaseNonce _) => False
  | _ => True

theorem Request.Steady.answerable {r : Request} (hr : r.Steady) : r.Answerable := by
  rintro f rfl
  exact hr

theorem Request.Steady.nonces {r : Request} {a : r.Answer} {σ τ : Shared} (hr : r.Steady)
    (hserved : Served r a σ τ) : τ.memory.nonces = σ.memory.nonces := by
  cases r with
  | store q =>
    cases q with
    | call c => rcases hserved with ⟨_, _, rfl⟩ | ⟨_, rfl⟩ <;> rfl
    | clock => exact congrArg (·.memory.nonces) hserved
  | memory q =>
    obtain ⟨-, rfl⟩ := hserved
    cases q with
    | takeNonce count => exact hr.elim
    | releaseNonce nonce => exact hr.elim
    | _ => rfl
  | nextReveal => rcases hserved with ⟨_, rfl⟩ | ⟨_, _, _, _, rfl⟩ <;> rfl
  | _ => exact congrArg (·.memory.nonces) hserved

theorem upholds_steady {p : Activity α} (hp : p.Only Request.Steady) (hσ : NonceWithin m σ) :
    p.Upholds (counting n) (fun _ τ => NonceWithin m τ) σ := by
  induction p generalizing σ with
  | done a => exact hσ
  | ask r next ih =>
    rintro τ rfl
    refine ⟨hp.1.answerable, fun a υ hserved => ih a (hp.2 a) ?_⟩
    unfold NonceWithin
    rwa [hp.1.nonces hserved.1]

theorem upholds_lift {p : Activity α} (hp : p.Upholds (counting n) (fun _ τ => NonceWithin m τ) σ) :
    (liftM p : Attempt α).run.Upholds (counting n) (fun _ τ => NonceWithin m τ) σ :=
  hp.bind fun _ _ hτ => hτ

theorem upholds_attempt {x : Attempt α} {f : α → Attempt β} {k : Nat} (hle : m ≤ k)
    (hx : x.run.Upholds (counting n) (fun _ τ => NonceWithin m τ) σ)
    (hf : ∀ a τ, NonceWithin m τ → (f a).run.Upholds (counting n) (fun _ τ => NonceWithin k τ) τ) :
    (x >>= f).run.Upholds (counting n) (fun _ τ => NonceWithin k τ) σ := by
  refine hx.bind fun answer τ hτ => ?_
  cases answer with
  | ok a => exact hf a τ hτ
  | error cause => exact hτ.mono hle

section Sending

variable (hroom : n + 1 < UInt64.size)

include hroom

theorem upholds_takeNonce_counting {observed : Option Word} (hσ : NonceWithin n σ)
    (hobserved : ∀ count, observed = some count → count.toNat ≤ n) :
    (takeNonce observed).Upholds (counting n) (fun nonce τ => nonce.toNat ≤ n ∧ NonceWithin (n + 1) τ) σ := by
  obtain ⟨nonce, c, htake, hnonce, hnext⟩ := NonceCache.take_of_room hroom hσ hobserved
  rintro τ rfl
  refine ⟨fun f hno => (nomatch hno), fun a υ hserved => ?_⟩
  obtain ⟨⟨rfl, rfl⟩, -⟩ := hserved
  rw [Memory.perform, htake]
  exact ⟨hnonce, hnext⟩

theorem upholds_releaseNonce_counting {nonce : Word} (hσ : NonceWithin m σ) (hnonce : nonce.toNat ≤ n) :
    (releaseNonce nonce).Upholds (counting n) (fun _ τ => NonceWithin m τ) σ := by
  obtain ⟨c, hrelease, hnext⟩ := NonceCache.release_of_room (c := σ.memory.nonces) hroom hnonce
  rintro τ rfl
  refine ⟨fun f hno => (nomatch hno), fun a υ hserved => ?_⟩
  obtain ⟨⟨rfl, rfl⟩, -⟩ := hserved
  rw [Memory.perform, hrelease]
  exact Nat.le_trans hnext hσ

theorem upholds_submit_counting (what : Chain.Submission) (hσ : NonceWithin n σ) :
    (submit s what).Upholds (counting n) (fun _ τ => NonceWithin (n + 1) τ) σ := by
  have hcount : (observedCount s).Upholds (counting n)
      (fun observed τ => NonceWithin n τ ∧ ∀ count, observed = some count → count.toNat ≤ n) σ := by
    rintro τ rfl
    refine ⟨fun f hno => (nomatch hno), fun answer υ ⟨hserved, hwithin⟩ => ?_⟩
    obtain rfl : υ = τ := hserved
    cases answer with
    | ok count =>
      refine ⟨hσ, fun _ heq => ?_⟩
      obtain rfl := Option.some.inj heq
      exact hwithin
    | error cause =>
      have hnotify : (notify (.nonceUnreadable cause)).Only Request.Steady := ⟨trivial, fun _ => trivial⟩
      exact (upholds_steady hnotify hσ).bind fun _ τ hτ => ⟨hτ, nofun⟩
  refine hcount.bind fun observed τ ⟨hτ, hobserved⟩ => ?_
  refine (upholds_takeNonce_counting hroom hτ hobserved).bind fun nonce υ ⟨hnonce, hυ⟩ => ?_
  rintro υ' rfl
  refine ⟨fun f hno => (nomatch hno), fun answer ω ⟨hserved, _⟩ => ?_⟩
  obtain rfl : ω = υ' := hserved
  cases answer with
  | ok tx => exact hυ
  | error cause => exact (upholds_releaseNonce_counting hroom hυ hnonce).bind fun _ τ hτ => hτ

variable (hpoll : s.timings.receiptPoll ≠ 0)

omit hroom in
include hpoll in
theorem steady_confirm (tx : TxHash) : (confirm s tx).Only Request.Steady := by
  unfold confirm awaitReceipt
  rw [if_neg hpoll]
  exact ⟨trivial, fun _ => trivial⟩

include hpoll

theorem upholds_submitReveal_counting (seed : Seed) (hσ : NonceWithin n σ) :
    (submitReveal s h seed).run.Upholds (counting n) (fun _ τ => NonceWithin (n + 1) τ) σ := by
  refine upholds_attempt (Nat.le_refl _) (upholds_lift (upholds_submit_counting hroom _ hσ)) ?_
  intro answer τ hτ
  refine upholds_steady ?_ hτ
  cases answer with
  | error cause => exact Only.attempt (Only.lift ⟨trivial, fun _ => trivial⟩) fun _ => trivial
  | ok tx =>
    refine Only.attempt (Only.lift ⟨trivial, fun _ => trivial⟩) fun _ => ?_
    refine Only.attempt (Only.lift (steady_confirm hpoll tx)) fun receipt => ?_
    exact only_settleReveal (fun _ => trivial) (fun _ => trivial) seed receipt

theorem upholds_reveal_counting (h : Hash) (hσ : NonceWithin n σ) :
    (reveal s h).run.Upholds (counting n) (fun _ τ => NonceWithin (n + 1) τ) σ := by
  have hle : n ≤ n + 1 := Nat.le_succ n
  have hrepository {β : Type} (a : Repository.Action β) : (repository a).run.Only Request.Steady :=
    only_repository (fun _ => trivial) a
  refine upholds_attempt hle (upholds_steady (hrepository _) hσ) fun status τ hτ => ?_
  split
  · exact upholds_attempt hle (upholds_steady (hrepository _) hτ) fun _ υ hυ => hυ.mono hle
  split
  · exact hτ.mono hle
  refine upholds_attempt hle (upholds_steady (hrepository _) hτ) fun seed υ hυ => ?_
  cases seed with
  | none =>
    refine (upholds_steady ?_ hυ).imp fun _ _ hω => hω.mono hle
    exact Only.attempt (Only.lift ⟨trivial, fun _ => trivial⟩) fun _ => trivial
  | some seed => exact upholds_submitReveal_counting hroom hpoll seed hυ

theorem upholds_processReveal_counting (h : Hash) (hσ : NonceWithin n σ) :
    (processReveal s h).Upholds (counting n) (fun _ τ => NonceWithin (n + 1) τ) σ := by
  refine (upholds_reveal_counting hroom hpoll h hσ).bind fun outcome τ hτ => upholds_steady ?_ hτ
  rcases outcome with cause | _ | _ | _
  · exact Only.bind (p := notify _) ⟨trivial, fun _ => trivial⟩ fun _ => ⟨trivial, fun _ => trivial⟩
  · trivial
  · trivial
  · exact ⟨trivial, fun _ => trivial⟩

theorem upholds_offer_counting (seed : Seed) (hσ : NonceWithin n σ) :
    (offer s seed h).run.Upholds (counting n) (fun _ τ => NonceWithin (n + 1) τ) σ := by
  have hle : n ≤ n + 1 := Nat.le_succ n
  have hstore : (repository (Repository.storeSeed h seed)).run.Only Request.Steady :=
    only_repository (fun _ => trivial) _
  refine upholds_attempt hle (upholds_steady hstore hσ) fun _ τ₁ hτ₁ => ?_
  have hmark : (discard (repository (Repository.markPending h))).run.Only Request.Steady :=
    Only.attempt (only_repository (fun _ => trivial) _) fun _ => trivial
  refine upholds_attempt hle (upholds_steady hmark hτ₁) fun _ τ₂ hτ₂ => ?_
  refine upholds_attempt (Nat.le_refl _) (upholds_lift (upholds_submit_counting hroom _ hτ₂)) ?_
  intro answer τ₃ hτ₃
  have hrest := only_answerCommit (s := s) (h := h) (K := Request.Steady) (fun _ => trivial) (fun _ => trivial)
    (steady_confirm hpoll) answer
  cases answer <;> exact upholds_steady hrest hτ₃

theorem upholds_issueCommit_counting (hσ : NonceWithin n σ) :
    (issueCommit s).run.Upholds (counting n) (fun _ τ => NonceWithin (n + 1) τ) σ := by
  have hle : n ≤ n + 1 := Nat.le_succ n
  have hdraw : (liftM (freshSeed s) : Attempt Seed).run.Only Request.Steady :=
    Only.lift (Only.bind (p := ask .entropy) ⟨trivial, fun _ => trivial⟩ fun _ => trivial)
  refine upholds_attempt hle (upholds_steady hdraw hσ) fun seed τ₁ hτ₁ => ?_
  have hhash : (chain (.computeCommitHash seed)).run.Only Request.Steady :=
    Only.bind (p := callChain _) ⟨trivial, fun _ => trivial⟩ fun _ => trivial
  exact upholds_attempt hle (upholds_steady hhash hτ₁) fun h τ₂ hτ₂ => upholds_offer_counting hroom hpoll seed hτ₂

end Sending

section Replies

/-- How the chain answers a task that sends one transaction. -/
structure Replies where
  count : Except ChainError Word
  sending : Except ChainError TxHash
  receipt : Option TxOutcome

def Replies.Gives (e : Replies) : Exchange interface → Prop
  | ⟨.chain (.transactionCount _), answer⟩ => answer = e.count
  | ⟨.chain (.submit _ _), answer⟩ => answer = e.sending
  | ⟨.receipt _ _ _, answer⟩ => answer = e.receipt
  | _ => True

def Replies.CountWithin (n : Nat) (e : Replies) : Prop :=
  ∀ count, e.count = .ok count → count.toNat ≤ n

theorem Replies.exists_served {e : Replies} (he : e.CountWithin n) {r : Request} (hr : r.Answerable) (σ : Shared) :
    ∃ a τ, (Served r a σ τ ∧ Agent.CountWithin n ⟨r, a⟩) ∧ storeFailed ⟨r, a⟩ = false ∧ e.Gives ⟨r, a⟩ := by
  cases r with
  | store q =>
    cases q with
    | call c => exact ⟨.ok (σ.store.perform c).1, _, ⟨.inr ⟨.inl rfl, rfl⟩, trivial⟩, rfl, trivial⟩
    | clock => exact ⟨0, σ, ⟨rfl, trivial⟩, rfl, trivial⟩
  | chain c =>
    cases c with
    | transactionCount owner =>
      refine ⟨e.count, σ, ⟨rfl, ?_⟩, rfl, rfl⟩
      cases hcount : e.count with
      | ok count => exact he count hcount
      | error cause => trivial
    | submit what nonce => exact ⟨e.sending, σ, ⟨rfl, trivial⟩, rfl, rfl⟩
    | _ => exact ⟨.error (.rpc "down"), σ, ⟨rfl, trivial⟩, rfl, trivial⟩
  | receipt tx poll timeout => exact ⟨e.receipt, σ, ⟨rfl, trivial⟩, rfl, rfl⟩
  | _ =>
    obtain ⟨a, τ, hserved⟩ := Agent.exists_served hr σ
    exact ⟨a, τ, ⟨hserved, trivial⟩, rfl, trivial⟩

end Replies

end CommitReveal.Agent
