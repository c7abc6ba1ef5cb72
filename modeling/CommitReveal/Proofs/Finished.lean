import CommitReveal.Proofs.StatusRun

/-! What is not done about a finished hash. Its mark is gone and its status is never left, so whatever the
store answers about it turns a reveal away before the chain is asked, and an event before anything is
queued. -/
namespace CommitReveal.Agent

open Program
open Repository (key key_ne Recorded peek)

variable {s : Settings} {i : Nat} {h : Hash} {α β : Type}

/-- Puts a hash in the queue or puts it off, or starts a task that will. -/
def Request.adds : Request → Bool
  | .memory (.enqueue _) | .memory (.defer _) | .spawn _ => true
  | _ => false

def Request.callsChain : Request → Bool
  | .chain _ | .receipt _ _ _ | .logs _ _ _ => true
  | _ => false

/-- Surroundings of which no more is known than what kind of answers they give. -/
abbrev telling (K : (r : Request) → r.Answer → Prop) (P : Request → Prop) : Surroundings interface where
  State := Unit
  Allows r _ := P r
  Meanwhile _ _ _ := True
  Served r a _ _ := K r a

section Telling

variable {K : (r : Request) → r.Answer → Prop} {P : Request → Prop}

theorem only_telling {p : Activity α} (hp : p.Only P) : p.Upholds (telling K P) anyhow () := by
  induction p with
  | done a => trivial
  | ask r next ih => exact fun _ _ => ⟨hp.1, fun a _ _ => ih a (hp.2 a)⟩

theorem allowed_of_reaches {p : Activity α} {Q : α → Unit → Prop} (hp : p.Upholds (telling K P) Q ())
    {u : Transcript interface} {r : Request} {next : r.Answer → Activity α}
    (hreach : p.Reaches u (.ask r next)) (hu : ∀ x ∈ u, K x.request x.answer) : P r := by
  generalize hq : Program.ask (I := interface) r next = q at hreach
  induction hreach with
  | here p =>
    subst hq
    exact (hp () trivial).1
  | @asked r' next' a u q rest ih =>
    have hnext := (hp () trivial).2 a () (hu ⟨r', a⟩ List.mem_cons_self)
    exact ih hnext (fun x hx => hu x (List.mem_cons_of_mem _ hx)) hq

theorem telling_repository (hP : ∀ q, P (.store q)) (a : Repository.Action α) :
    Attempts (telling K P) (repository a) anyhow anyhow () := by
  have hrun : (repository a).run.Only P := only_repository hP a
  exact (only_telling hrun).imp fun o _ _ => by cases o <;> trivial

theorem telling_andThen {x : Attempt α} {f : α → Attempt β} {Q : α → Unit → Prop}
    (hx : Attempts (telling K P) x Q anyhow ())
    (hf : ∀ a, Q a () → Attempts (telling K P) (f a) anyhow anyhow ()) :
    Attempts (telling K P) (x >>= f) anyhow anyhow () :=
  attempts_bind.2 (hx.imp (fun a _ ha => hf a ha) fun _ _ => id)

end Telling

def Final (σ : Shared) (h : Hash) : Prop :=
  ∃ r, Recorded σ.store h (some r) ∧ r.status.isTerminal

def TellsFinal (h : Hash) : (r : Request) → r.Answer → Prop
  | .store (.call (.get k)), a => ∀ value, a = .ok value →
      (k = key .pending h → value = none) ∧
        (k = key .record h → ∃ r : CommitRecord, value = some r.encode ∧ r.status.isTerminal)
  | _, _ => True

theorem tellsFinal_get {k : Bytes} {a : Except Store.StoreError (Option Bytes)} {σ τ : Shared}
    (hord : Orderly s σ) (hfinal : Final σ h) (hserved : Served (.store (.call (.get k))) a σ τ) :
    TellsFinal h (.store (.call (.get k))) a := by
  rintro value rfl
  obtain ⟨r, hr, hterminal⟩ := hfinal
  have hvalue : value = σ.store.get? k := by
    rcases hserved with ⟨_, heq, _⟩ | ⟨heq | ⟨_, heq⟩, -⟩
    · cases heq
    · rw [σ.store.perform_get] at heq
      exact Except.ok.inj heq
    · cases heq
  refine ⟨fun hk => ?_, fun hk => ⟨r, hvalue.trans (hk ▸ hr), hterminal⟩⟩
  -- a hash that is marked has an open record
  rw [hvalue, hk]
  by_contra hmarked
  obtain ⟨-, r', hr', hopen⟩ := hord.ledger.marked h (Option.isSome_iff_ne_none.2 hmarked)
  have heq : r = r' := recorded_some_inj hr hr'
  rw [heq, hopen] at hterminal
  cases hterminal

theorem tellsFinal_of_served {r : Request} {a : r.Answer} {σ τ : Shared} (hord : Orderly s σ)
    (hfinal : Final σ h) (hserved : Served r a σ τ) : TellsFinal h r a := by
  cases r with
  | store q =>
    cases q with
    | call c =>
      cases c with
      | get k => exact tellsFinal_get hord hfinal hserved
      | _ => trivial
    | clock => trivial
  | _ => trivial

section Program

variable {P : Request → Prop}

theorem telling_isPending (hP : ∀ q, P (.store q)) : Attempts (telling (TellsFinal h) P)
    (repository (Repository.isPending h)) (fun pending _ => pending = false) anyhow () := by
  refine (attempts_repository _ _ _).2 (attempts_bind.2 fun _ _ => ⟨hP _, fun a _ ha => ?_⟩)
  cases a with
  | error cause => trivial
  | ok value =>
    obtain rfl := (ha value rfl).1 rfl
    rfl

theorem telling_status (hP : ∀ q, P (.store q)) : Attempts (telling (TellsFinal h) P)
    (repository (Repository.status h))
    (fun st _ => ∃ final, st = some final ∧ final.isTerminal) anyhow () := by
  unfold Repository.status Repository.record
  refine (attempts_repository _ _ _).2 (attempts_bind.2 (attempts_bind.2 fun _ _ => ⟨hP _, fun a _ ha => ?_⟩))
  cases a with
  | error cause => trivial
  | ok value =>
    obtain ⟨r, rfl, hterminal⟩ := (ha value rfl).2 rfl
    have hread : (liftM (Repository.recordOfBytes r.encode) : Repository.Action CommitRecord) = pure r := by
      rw [Repository.recordOfBytes_encode]
      rfl
    rw [upholds_done]
    dsimp only [Outcome]
    rw [hread]
    exact ⟨r.status, rfl, hterminal⟩

/-- A reveal of a finished hash ends before it asks the node for anything. -/
theorem telling_reveal :
    Attempts (telling (TellsFinal h) fun r => r.callsChain = false) (reveal s h) anyhow anyhow () := by
  unfold reveal
  refine telling_andThen (telling_status fun _ => rfl) fun st hst => ?_
  obtain ⟨final, rfl, hterminal⟩ := hst
  split
  · exact telling_andThen (telling_repository (fun _ => rfl) _) fun _ _ => trivial
  · rw [Option.any_some, if_pos hterminal]
    trivial

theorem telling_trigger {event : OracleEvent} (hevent : event.hash = h) (mode : ScanMode) :
    Attempts (telling (TellsFinal h) fun r => r.adds = false) (triggerReveal event mode)
      anyhow anyhow () := by
  subst hevent
  cases event with
  | subscribed committer consumer h =>
    refine telling_andThen (telling_repository (fun _ => rfl) _) fun seed _ => ?_
    split
    · refine telling_andThen (telling_isPending fun _ => rfl) fun pending hpending => ?_
      rw [hpending]
      trivial
    · trivial
  | commitRegistered sender h block =>
    refine telling_andThen (telling_repository (fun _ => rfl) _) fun seed _ => ?_
    split
    · refine telling_andThen (telling_repository (fun _ => rfl) _) fun _ _ => ?_
      refine telling_andThen (telling_isPending fun _ => rfl) fun pending hpending => ?_
      rw [hpending]
      trivial
    · trivial
  | seedRevealed committer h seed => exact telling_repository (fun _ => rfl) _
  | unsubscribed consumer h => trivial
  | randomConsumed consumer h => trivial

theorem telling_dispatch {log : EventLog} {event : OracleEvent}
    (hlog : OracleEvent.ofLog? log.topics log.data = some event) (hevent : event.hash = h)
    (agent : Address) (handlers : List Handler) (mode : ScanMode) :
    (dispatch agent handlers log mode).Upholds
      (telling (TellsFinal h) fun r => r.adds = false) anyhow () := by
  have hnotify (n : Notice) : (notify n).Upholds (telling (TellsFinal h) fun r => r.adds = false) anyhow () :=
    only_telling ⟨rfl, fun _ => trivial⟩
  have hall : (handleAll event mode handlers).Upholds
      (telling (TellsFinal h) fun r => r.adds = false) anyhow () := by
    induction handlers with
    | nil => trivial
    | cons handler rest ih =>
      have hone : (handle handler event mode).Upholds
          (telling (TellsFinal h) fun r => r.adds = false) anyhow () := by
        cases handler with
        | revealTrigger => exact Upholds.imp (telling_trigger hevent mode) fun _ _ _ => trivial
        | outside name => exact only_telling ⟨rfl, fun _ => trivial⟩
      refine hone.bind fun outcome _ _ => ?_
      cases outcome with
      | ok _ => exact ih
      | error cause => exact (hnotify _).bind fun _ _ _ => ih
  unfold dispatch
  rw [hlog]
  dsimp only
  split
  · exact hall.bind fun _ _ _ => trivial
  · trivial

end Program

theorem tellsFinal_since {σ τ : System} (hr : System.Reachable s σ) {st : Status}
    (hst : peek (Repository.status h) σ.shared.store = .ok (some st)) (hfinal : st.isTerminal)
    (hleads : System.Leads s σ τ) {u : Transcript interface}
    (hanswers : answersOf i τ.shared.trace = answersOf i σ.shared.trace ++ u) :
    ∀ x ∈ u, TellsFinal h x.request x.answer := by
  intro x hx
  obtain ⟨ρ, υ, hρ, hserved⟩ := exists_served_since hleads hanswers hx
  obtain ⟨st', hst', hfollows⟩ := follows_of_reachable hr hρ hst
  have hord : Orderly s ρ.shared := orderly_of_reachable (hr.leads hρ)
  obtain ⟨r, hr, rfl⟩ := exists_recorded hord hst'
  refine tellsFinal_of_served hord ⟨r, hr, ?_⟩ hserved
  rw [hfollows.eq_of_terminal hfinal]
  exact hfinal

end CommitReveal.Agent
