import CommitReveal.Proofs.Hearing
import CommitReveal.Proofs.StatusRun

/-! What has been dispatched may be dispatched again. A window that is scanned once more after a crash, from
its first log on, leaves of every hash what it would have left without the crash. -/
namespace CommitReveal

namespace Program

variable {I : Interface} {E : Surroundings I} {α : Type}

inductive Ends (E : Surroundings I) : Program I α → E.State → α → E.State → Prop
  | done (a : α) (σ : E.State) : Ends E (done a) σ a σ
  | ask {r : I.Request} {next : I.Answer r → Program I α} {a : I.Answer r} {b : α} {σ τ υ ω : E.State}
    (meanwhile : E.Meanwhile r σ τ) (served : E.Served r a τ υ) (rest : Ends E (next a) υ b ω) :
    Ends E (ask r next) σ b ω

variable {p : Program I α} {Q : α → E.State → Prop} {a : α} {σ τ : E.State}

theorem Upholds.ends (h : p.Upholds E Q σ) (hends : p.Ends E σ a τ) : Q a τ := by
  induction hends with
  | done a σ => exact h
  | ask meanwhile served rest ih => exact ih ((h _ meanwhile).2 _ _ served)

theorem Upholds.exists_ends (hmeanwhile : ∀ r σ, ∃ τ, E.Meanwhile r σ τ)
    (hserved : ∀ r σ, E.Allows r σ → ∃ a τ, E.Served r a σ τ) (h : p.Upholds E Q σ) :
    ∃ a τ, p.Ends E σ a τ := by
  induction p generalizing σ with
  | done a => exact ⟨a, σ, .done a σ⟩
  | ask r next ih =>
    obtain ⟨τ, hτ⟩ := hmeanwhile r σ
    obtain ⟨hallows, hnext⟩ := h τ hτ
    obtain ⟨a, υ, hυ⟩ := hserved r τ hallows
    obtain ⟨b, ω, hω⟩ := ih a (hnext a υ hυ)
    exact ⟨b, ω, .ask hτ hυ hω⟩

end Program

namespace Agent

open Program
open Repository (Card Shelf Stands peek)
open Repository.Card (Hears)

variable {s : Settings} {i : Nat} {h : Hash} {σ τ : Shared} {shelf : Shelf} {α β : Type}

/-- Each log is dispatched in its own mode. -/
def dispatchEach (agent : Address) : List (EventLog × ScanMode) → Activity Unit
  | [] => pure ()
  | (log, mode) :: rest => do
    let _ ← dispatch agent [.revealTrigger] log mode
    dispatchEach agent rest

/-- It is what a scan does with the logs of a window, but for the account it keeps. -/
theorem dispatchEach_window (agent : Address) (mode : ScanMode) (progress : Progress) (logs : List EventLog) :
    dispatchEach agent (logs.map fun log => (log, mode)) =
      (dispatchAll agent [.revealTrigger] mode progress logs).bind fun _ => pure () := by
  induction logs generalizing progress with
  | nil => rfl
  | cons log rest ih =>
    rw [List.map_cons, dispatchEach, dispatchAll, bind_eq, bind_eq, bind_assoc]
    exact congrArg _ (funext fun outcome => ih _)

abbrev unfailing (i : Nat) : Surroundings interface where
  State := Shared
  Allows r σ := ∃ a τ, Agent.Served r a σ τ ∧ storeFailed ⟨r, a⟩ = false
  Meanwhile _ σ τ := τ = σ
  Served r a σ υ := ∃ τ, Agent.Served r a σ τ ∧ υ = τ.note (.answered i r a) ∧ storeFailed ⟨r, a⟩ = false

def DispatchedEach (s : Settings) (i : Nat) (logs : List (EventLog × ScanMode)) (σ τ : Shared) : Prop :=
  (dispatchEach s.agent logs).Ends (unfailing i) σ () τ

theorem exists_dispatchedEach {logs : List (EventLog × ScanMode)} {Q : Unit → Shared → Prop}
    (h : (dispatchEach s.agent logs).Upholds (unfailing i) Q σ) : ∃ τ, DispatchedEach s i logs σ τ := by
  obtain ⟨⟨⟩, τ, hτ⟩ := h.exists_ends (fun _ σ => ⟨σ, rfl⟩) fun r σ hallows => by
    obtain ⟨a, τ, hserved, hgood⟩ := hallows
    exact ⟨a, _, τ, hserved, rfl, hgood⟩
  exact ⟨τ, hτ⟩

def Request.OffStore : Request → Prop
  | .memory _ | .notify _ | .spawn _ => True
  | _ => False

theorem upholds_offStore {p : Activity α} (hp : p.Only Request.OffStore) {b : Store.Backend}
    (hσ : σ.store = b) : p.Upholds (unfailing i) (fun _ τ => τ.store = b) σ := by
  induction p generalizing σ with
  | done a => exact hσ
  | ask r next ih =>
    rintro τ rfl
    refine ⟨?_, fun a υ hυ => ?_⟩
    · cases r with
      | memory q => exact ⟨_, _, ⟨rfl, rfl⟩, rfl⟩
      | notify n => exact ⟨(), τ, rfl, rfl⟩
      | spawn r => exact ⟨0, τ, rfl, rfl⟩
      | _ => exact hp.1.elim
    · obtain ⟨ω, hserved, rfl, -⟩ := hυ
      refine ih a (hp.2 a) ?_
      rcases hserved.store with hsame | ⟨c, rfl, -⟩
      · exact hsame.trans hσ
      · exact hp.1.elim

theorem offStore_requestReveal : (requestReveal h).Only Request.OffStore := by
  have one (r : Request) (hr : r.OffStore) : (ask r).Only Request.OffStore := ⟨hr, fun _ => trivial⟩
  unfold requestReveal
  refine Only.bind (one _ trivial) fun answer => ?_
  cases answer with
  | queued => trivial
  | full => exact Only.bind (one _ trivial) fun _ => one _ trivial
  | closed => exact Only.bind (one _ trivial) fun _ => one _ trivial

theorem upholds_undisturbed {A : Hash → CommitRecord → Shared → Prop} {p : Program Repository.interface α}
    {Q : α → Shared → Prop} (hp : p.Upholds (desk i A True) Q σ) : p.Upholds (behind (unfailing i)) Q σ := by
  induction p generalizing σ with
  | done a => exact hp
  | ask r next ih =>
    rintro τ rfl
    refine ⟨?_, fun a υ hυ => ?_⟩
    · cases r with
      | call c => exact ⟨.ok (τ.store.perform c).1, _, .inr ⟨.inl rfl, rfl⟩, rfl⟩
      | clock => exact ⟨0, τ, rfl, rfl⟩
    · obtain ⟨ω, hserved, rfl, hgood⟩ := hυ
      exact ih a ((hp τ rfl).2 a _ ⟨ω, hserved, rfl, fun _ => hgood⟩)

abbrev succeeds (i : Nat) (x : Attempt α) (Q : α → Shared → Prop) (σ : Shared) : Prop :=
  Attempts (unfailing i) x Q (fun _ _ => False) σ

abbrev freeDesk (i : Nat) : Surroundings Repository.interface :=
  desk i (fun _ _ _ => True) True

theorem lets_free {op : Int64 → Card → Card} : Lets i (fun _ _ _ => True) σ shelf h op :=
  fun _ _ _ _ _ _ => trivial

theorem succeeds_repository {x : Repository.Action α} {P : α → Shared → Prop}
    (hx : Attempts (freeDesk i) x P (barring True) σ) : succeeds i (repository x) P σ := by
  refine (attempts_repository _ _ _).2 ?_
  exact Attempts.imp (upholds_undisturbed hx) (fun _ _ => id) fun _ _ hno => absurd trivial hno

theorem succeeds_andThen {x : Attempt α} {f : α → Attempt β} {P : α → Shared → Prop}
    {Q : β → Shared → Prop} (hx : succeeds i x P σ) (hf : ∀ a τ, P a τ → succeeds i (f a) Q τ) :
    succeeds i (x >>= f) Q σ :=
  attempts_bind.2 (hx.imp hf fun _ _ => id)

theorem succeeds_offStore {p : Activity α} (hp : p.Only Request.OffStore) (hs : Stands σ.store shelf) :
    succeeds i (liftM p) (fun _ τ => Stands τ.store shelf) σ := by
  refine (attempts_lift p).2 ((upholds_offStore hp rfl).imp fun _ τ hτ => ?_)
  rwa [hτ]

theorem succeeds_advance (hs : Stands σ.store shelf) {rest : Attempt Unit}
    (hrest : ∀ shelf τ, Stands τ.store shelf → succeeds i rest (fun _ υ => Stands υ.store shelf) τ)
    (hpending : (shelf h).pending) : succeeds i (Habit.advance h rest)
      (fun _ τ => ∃ time, Stands τ.store (Function.update shelf h ((shelf h).proceed time))) σ := by
  refine succeeds_andThen (succeeds_repository (desk_status (h := h) hs)) ?_
  rintro st τ ⟨rfl, hτ⟩
  have hsτ : Stands τ.store shelf := hτ ▸ hs
  split
  · rename_i hst
    have hset : succeeds i (repository (Repository.setStatus h .pendingReveal))
        (fun _ υ => Turned shelf h (Card.setStatus .pendingReveal) υ) τ :=
      succeeds_repository (desk_setStatus hsτ .pendingReveal lets_free)
    have hdiscard : succeeds i (discard (repository (Repository.setStatus h .pendingReveal)))
        (fun _ υ => Turned shelf h (Card.setStatus .pendingReveal) υ) τ := attempts_discard.2 hset
    refine succeeds_andThen hdiscard ?_
    rintro _ υ ⟨time, hυ⟩
    refine (hrest _ υ hυ).imp (fun _ ω hω => ⟨time, ?_⟩) fun _ _ => id
    rwa [Card.proceed, if_pos ⟨hpending, hst⟩]
  · rename_i hst
    refine (hrest _ τ hsτ).imp (fun _ ω hω => ⟨0, ?_⟩) fun _ _ => id
    rwa [Card.proceed, if_neg fun howed => hst howed.2, Function.update_eq_self]

theorem succeeds_subscribed (hs : Stands σ.store shelf) (consumer : Address) (h : Hash) :
    succeeds i (onSubscribed consumer h) (fun _ τ => Stands τ.store shelf) σ := by
  refine succeeds_andThen (succeeds_repository (desk_seed (h := h) hs)) ?_
  rintro seed τ ⟨rfl, hτ⟩
  have hsτ : Stands τ.store shelf := hτ ▸ hs
  split
  · refine succeeds_andThen (succeeds_repository (desk_isPending (h := h) hsτ)) ?_
    rintro pending υ ⟨rfl, hυ⟩
    have hsυ : Stands υ.store shelf := hυ ▸ hsτ
    split
    · refine succeeds_andThen (succeeds_offStore ⟨trivial, fun _ => trivial⟩ hsυ) fun _ ω hω => ?_
      exact succeeds_offStore offStore_requestReveal hω
    · exact hsυ
  · exact hsτ

theorem succeeds_registered (hs : Stands σ.store shelf) (hsound : (shelf h).Sound) (sender : Address)
    (block : Word) (mode : ScanMode) : succeeds i (onCommitRegistered h block mode) (fun _ τ => ∃ time,
      Stands τ.store (Function.update shelf h
        ((shelf h).hear (.commitRegistered sender h block) time))) σ := by
  refine succeeds_andThen (succeeds_repository (desk_seed (h := h) hs)) ?_
  rintro seed τ ⟨rfl, hτ⟩
  have hsτ : Stands τ.store shelf := hτ ▸ hs
  split
  · rename_i hseed
    refine succeeds_andThen (succeeds_repository (desk_setCommitBlock (h := h) hsτ block lets_free)) ?_
    rintro _ υ ⟨time, hυ⟩
    refine succeeds_andThen (succeeds_repository (desk_isPending (h := h) hυ)) ?_
    rintro pending ω ⟨rfl, hω⟩
    have hsω : Stands ω.store (Function.update shelf h ((shelf h).setCommitBlock block time)) := hω ▸ hυ
    rw [Function.update_self, Card.pending_setCommitBlock]
    split
    · rename_i hpending
      have hrecord : (shelf h).record.isSome := Card.isSome_record_of_unfinished (hsound hpending)
      refine (succeeds_advance (h := h) hsω (fun shelf τ hτ => ?_) ?_).imp (fun _ ρ hρ => ?_) fun _ _ => id
      · cases mode with
        | backfill => exact succeeds_offStore offStore_requestReveal hτ
        | live => exact succeeds_andThen (succeeds_offStore ⟨trivial, fun _ => trivial⟩ hτ) fun _ _ hυ => hυ
      · rw [Function.update_self, Card.pending_setCommitBlock]
        exact hpending
      · -- the record is there, so that the time of the first write is in no card
        obtain ⟨time', hρ⟩ := hρ
        rw [Function.update_self, Function.update_idem, Card.setCommitBlock_time hrecord time time'] at hρ
        exact ⟨time', by rwa [Card.hear_commit hseed]⟩
    · rename_i hpending
      refine ⟨time, ?_⟩
      rwa [Card.hear_commit hseed, Card.proceed, if_neg]
      rw [Card.pending_setCommitBlock]
      exact fun howed => hpending howed.1
  · rename_i hseed
    refine ⟨0, ?_⟩
    rwa [Card.hear_commit_unseeded hseed, Function.update_eq_self]

theorem succeeds_trigger (hs : Stands σ.store shelf) (hsound : ∀ h, (shelf h).Sound) (event : OracleEvent)
    (mode : ScanMode) : succeeds i (triggerReveal event mode) (fun _ τ => ∃ time,
      Stands τ.store (Function.update shelf event.hash ((shelf event.hash).hear event time))) σ := by
  have same {τ : Shared} (hτ : Stands τ.store shelf) (h : Hash) :
      Stands τ.store (Function.update shelf h (shelf h)) := by
    rwa [Function.update_eq_self]
  cases event with
  | subscribed committer consumer h =>
    exact (succeeds_subscribed hs consumer h).imp (fun _ _ hτ => ⟨0, same hτ h⟩) fun _ _ => id
  | commitRegistered sender h block => exact succeeds_registered hs (hsound h) sender block mode
  | seedRevealed committer h seed =>
    exact succeeds_repository (desk_markRevealed hs (some seed) lets_free)
  | unsubscribed consumer h => exact ⟨0, same hs h⟩
  | randomConsumed consumer h => exact ⟨0, same hs h⟩

def about (agent : Address) (h : Hash) (logs : List EventLog) : List OracleEvent :=
  (logs.filterMap (heard? agent)).filter fun e => e.hash = h

theorem about_append (agent : Address) (h : Hash) (logs logs' : List EventLog) :
    about agent h (logs ++ logs') = about agent h logs ++ about agent h logs' := by
  rw [about, List.filterMap_append, List.filter_append, about, about]

/-- From one shelf to another, the card of each hash has heard of the hash. -/
def Tells (agent : Address) (logs : List EventLog) (shelf shelf' : Shelf) : Prop :=
  ∀ h, Hears (about agent h logs) (shelf h) (shelf' h)

theorem upholds_dispatchOne (hs : Stands σ.store shelf) (hsound : ∀ h, (shelf h).Sound) (agent : Address)
    (log : EventLog) (mode : ScanMode) : (dispatch agent [.revealTrigger] log mode).Upholds (unfailing i)
      (fun _ τ => ∃ shelf', Stands τ.store shelf' ∧ Tells agent [log] shelf shelf') σ := by
  have silent (hnone : heard? agent log = none) : Tells agent [log] shelf shelf := by
    intro h
    rw [about, List.filterMap_cons_none hnone]
    exact .nil _
  unfold dispatch
  cases hevent : OracleEvent.ofLog? log.topics log.data with
  | none => exact ⟨shelf, hs, silent (by rw [heard?, hevent]; rfl)⟩
  | some event =>
    dsimp only
    split
    · rename_i hconcerns
      have hheard : heard? agent log = some event := by
        rw [heard?, hevent, Option.filter_some, if_pos hconcerns]
      refine Upholds.bind (Upholds.bind (succeeds_trigger hs hsound event mode) fun outcome τ hτ => ?_)
        fun _ τ hτ => hτ
      cases outcome with
      | error cause => exact hτ.elim
      | ok _ =>
        obtain ⟨time, hτ⟩ := hτ
        refine ⟨_, hτ, fun h => ?_⟩
        rw [about, List.filterMap_cons_some hheard]
        by_cases hh : event.hash = h
        · subst hh
          rw [Function.update_self]
          simp only [List.filterMap_nil, decide_true, List.filter_cons_of_pos, List.filter_nil]
          exact .cons time (.nil _)
        · rw [Function.update_of_ne (Ne.symm hh)]
          simp only [List.filterMap_nil, hh, decide_false, Bool.false_eq_true, not_false_eq_true,
            List.filter_cons_of_neg, List.filter_nil]
          exact .nil _
    · rename_i hconcerns
      exact ⟨shelf, hs, silent (by rw [heard?, hevent, Option.filter_some, if_neg hconcerns])⟩

theorem upholds_dispatchEach (hs : Stands σ.store shelf) (hsound : ∀ h, (shelf h).Sound) (agent : Address)
    (logs : List (EventLog × ScanMode)) : (dispatchEach agent logs).Upholds (unfailing i)
      (fun _ τ => ∃ shelf', Stands τ.store shelf' ∧ Tells agent (logs.map Prod.fst) shelf shelf') σ := by
  induction logs generalizing σ shelf with
  | nil => exact ⟨shelf, hs, fun h => .nil _⟩
  | cons log rest ih =>
    refine Upholds.bind (upholds_dispatchOne hs hsound agent log.1 log.2) fun _ τ hτ => ?_
    obtain ⟨shelf', hs', htells⟩ := hτ
    refine (ih hs' fun h => (hsound h).hears (htells h)).imp fun _ υ hυ => ?_
    obtain ⟨shelf'', hs'', htells'⟩ := hυ
    refine ⟨shelf'', hs'', fun h => ?_⟩
    rw [List.map_cons, ← List.singleton_append, about_append]
    exact (htells h).append (htells' h)

/-- The block that is noted in the record of a hash. -/
def blockOf (h : Hash) (b : Store.Backend) : Except Store.StoreError (Option Word) :=
  (peek (Repository.record h) b).map (·.bind (·.commitBlock))

/-- When the record of a hash was written, if there is one. -/
def writtenOf (h : Hash) (b : Store.Backend) : Except Store.StoreError (Option Int64) :=
  (peek (Repository.record h) b).map (·.map (·.updatedAt))

theorem blockOf_of_shows {c : Card} {b : Store.Backend} (hc : c.Shows b h) : blockOf h b = .ok c.block := by
  rw [blockOf, hc.peek_record]
  rfl

theorem writtenOf_of_shows {c : Card} {b : Store.Backend} (hc : c.Shows b h) :
    writtenOf h b = .ok c.written := by
  rw [writtenOf, hc.peek_record]
  rfl

/-- Dispatching some logs again from the first on leaves of every hash the same seed, status and mark as
dispatching them once, whatever the modes. -/
theorem replay_changes_nothing {σ : System} (hr : System.Reachable s σ) (i : Nat)
    (before again once : List (EventLog × ScanMode)) (hbegins : before.map Prod.fst <+: again.map Prod.fst)
    (hlogs : once.map Prod.fst = again.map Prod.fst) :
    (∃ τ, DispatchedEach s i before σ.shared τ) ∧ (∃ ω, DispatchedEach s i once σ.shared ω) ∧
      ∀ τ τ', DispatchedEach s i before σ.shared τ → τ'.store = τ.store →
        (∃ υ, DispatchedEach s i again τ' υ) ∧
        ∀ υ ω, DispatchedEach s i again τ' υ → DispatchedEach s i once σ.shared ω → ∀ h,
          peek (Repository.seed h) υ.store = peek (Repository.seed h) ω.store ∧
          peek (Repository.status h) υ.store = peek (Repository.status h) ω.store ∧
          peek (Repository.isPending h) υ.store = peek (Repository.isPending h) ω.store ∧
          (∀ seed, peek (Repository.seed h) σ.shared.store = .ok (some seed) →
            blockOf h υ.store = blockOf h ω.store) ∧
          (before.map Prod.fst = again.map Prod.fst → writtenOf h υ.store = writtenOf h τ.store) := by
  obtain ⟨shelf, hs, hsound⟩ := exists_shelf (orderly_of_reachable hr)
  have hbefore := upholds_dispatchEach (i := i) hs hsound s.agent before
  have honce := upholds_dispatchEach (i := i) hs hsound s.agent once
  refine ⟨exists_dispatchedEach hbefore, exists_dispatchedEach honce, fun τ τ' hτ hstore => ?_⟩
  obtain ⟨shelf₁, hs₁, htold₁⟩ := hbefore.ends hτ
  have hagain := upholds_dispatchEach (i := i) (σ := τ') (hstore ▸ hs₁)
    (fun h => Card.Sound.hears (hsound h) (htold₁ h)) s.agent again
  refine ⟨exists_dispatchedEach hagain, fun υ ω hυ hω h => ?_⟩
  obtain ⟨shelf₂, hs₂, htold₂⟩ := hagain.ends hυ
  obtain ⟨shelf₃, hs₃, htold₃⟩ := honce.ends hω
  have hsame : Card.Alike (shelf h).seed.isSome (shelf₂ h) (shelf₃ h) := by
    refine Card.hears_beginning (hsound h) ?_ (htold₁ h) (htold₂ h) (hlogs ▸ htold₃ h)
    obtain ⟨rest, hrest⟩ := hbegins
    exact ⟨about s.agent h rest, by rw [← about_append, hrest]⟩
  refine ⟨?_, ?_, ?_, fun seed hseed => ?_, fun hall => ?_⟩
  · rw [(hs₂ h).peek_seed, (hs₃ h).peek_seed, hsame.seed]
  · rw [(hs₂ h).peek_status, (hs₃ h).peek_status, hsame.status]
  · rw [(hs₂ h).peek_isPending, (hs₃ h).peek_isPending, hsame.pending]
  · rw [blockOf_of_shows (hs₂ h), blockOf_of_shows (hs₃ h), hsame.block]
    rw [Except.ok.inj ((hs h).peek_seed.symm.trans hseed)]
    rfl
  · rw [writtenOf_of_shows (hs₂ h), writtenOf_of_shows (hs₁ h)]
    exact congrArg _ (Card.hears_twice (hsound h) (htold₁ h) (hall ▸ htold₂ h)).2

def firstLog : EventLog :=
  logged (.commitRegistered usual.agent (.fill 32 3) 5)

/-- Then its seed, which is not the one that was drawn. -/
def secondLog : EventLog :=
  logged (.seedRevealed usual.agent (.fill 32 3) (.fill 32 7))

theorem replay_changes_nothing_firstCommit :
    System.Reachable usual firstCommitted ∧
      (∃ seed, peek (Repository.seed (.fill 32 3)) firstCommitted.shared.store = .ok (some seed)) ∧
      ∃ τ υ ω, DispatchedEach usual 0 [(firstLog, .live)] firstCommitted.shared τ ∧
        DispatchedEach usual 0 [(firstLog, .backfill), (secondLog, .backfill)] (τ.crash usual) υ ∧
        DispatchedEach usual 0 [(firstLog, .live), (secondLog, .live)] firstCommitted.shared ω ∧
        peek (Repository.seed (.fill 32 3)) υ.store = peek (Repository.seed (.fill 32 3)) ω.store ∧
        peek (Repository.status (.fill 32 3)) υ.store = peek (Repository.status (.fill 32 3)) ω.store ∧
        blockOf (.fill 32 3) υ.store = blockOf (.fill 32 3) ω.store := by
  have hreach : System.Reachable usual firstCommitted := System.reachable_opening _
  have hseeded : Repository.Seeded firstCommitted.shared.store (.fill 32 3) := by
    unfold Repository.Seeded
    decide +kernel
  obtain ⟨seed, hseed, -⟩ := exists_peek_seed (orderly_of_reachable hreach) hseeded
  obtain ⟨⟨τ, hτ⟩, ⟨ω, hω⟩, hagain⟩ := replay_changes_nothing hreach 0 [(firstLog, .live)]
    [(firstLog, .backfill), (secondLog, .backfill)] [(firstLog, .live), (secondLog, .live)] ⟨[secondLog], rfl⟩ rfl
  obtain ⟨⟨υ, hυ⟩, hsame⟩ := hagain τ (τ.crash usual) hτ rfl
  obtain ⟨hseeds, hstatus, -, hblock, -⟩ := hsame υ ω hυ hω (.fill 32 3)
  exact ⟨hreach, ⟨seed, hseed⟩, τ, υ, ω, hτ, hυ, hω, hseeds, hstatus, hblock seed hseed⟩

end Agent

end CommitReveal
