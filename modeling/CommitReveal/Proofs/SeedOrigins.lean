import CommitReveal.Proofs.Habits
import CommitReveal.Proofs.RepositoryRules

/-! Where a task has the seeds from that it stores and sends. It stores a seed only under the hash that the
oracle gave for it or named with it, or under which the task has found it; and it sends a seed only if
that was stored when the task began with the hash. -/
namespace CommitReveal.Agent

open Program
open Repository (key key_ne key_inj)

variable {s : Settings} {i : Nat} {h : Hash} {seed : Seed} {t : Trace} {σ τ : Shared} {M : Trace → Prop}
  {α β : Type}

abbrev seedFound (i : Nat) (h : Hash) (seed : Seed) : Event :=
  .answered i (.store (.call (.get (key .seed h)))) (.ok (some seed.bytes))

/-- What tells a task that a seed belongs to a hash. -/
inductive Origin (s : Settings) (i : Nat) (h : Hash) (seed : Seed) (t : Trace) : Prop
  | hashed (mem : Event.answered i (.chain (.computeCommitHash seed)) (.ok h) ∈ t)
  | logged {window : ScanWindow} {initial limit : Duration} {logs : List EventLog}
    (mem : Event.answered i (.logs window initial limit) (some logs) ∈ t)
    (heard : OracleEvent.seedRevealed s.agent h seed ∈ logs.filterMap (heard? s.agent))
  | listed {records : List OracleRecord}
    (mem : Event.answered i (.chain (.listUnverified s.agent)) (.ok records) ∈ t) {r : OracleRecord}
    (listed : listed? records h = some r) (revealed : r.revealed) (nonzero : r.seed ≠ .zero 32)
    (seed_eq : seed = r.seed)
  | found (mem : seedFound i h seed ∈ t)

def Looked (i : Nat) (e : Event) : Prop :=
  ∃ k answer, e = .answered i (.store (.call (.get k))) answer

/-- Since the task has taken the hash from the queue, nothing has happened but that it looked. -/
def Taken (i : Nat) (h : Hash) (t : Trace) : Prop :=
  ∃ looks earlier, t = looks ++ .answered i .nextReveal (some h) :: earlier ∧ ∀ e ∈ looks, Looked i e

/-- Right after it had taken the hash, the task found this seed, and it has taken no other since. -/
def Begun (i : Nat) (h : Hash) (seed : Seed) (t : Trace) : Prop :=
  ∃ later before, t = later ++ seedFound i h seed :: before ∧ Taken i h before ∧
    ∀ next, Event.answered i .nextReveal next ∉ later

def Accountable (s : Settings) (i : Nat) : Request → Trace → Prop
  | .store (.call (.set k value)), t =>
    ∀ h, k = key .seed h → ∃ seed : Seed, value = seed.bytes ∧ Origin s i h seed t
  | .chain (.submit (.reveal h seed) _), t => Begun i h seed t
  | _, _ => True

theorem Request.Plain.accountable {r : Request} (hr : r.Plain) : Accountable s i r t := by
  cases r with
  | store q =>
    cases q with
    | call c =>
      cases c with
      | set k value =>
        rintro h rfl
        rcases hr with ⟨k', hk⟩ | hk
        · exact absurd hk (key_ne (by decide) h k')
        · exact absurd hk (Repository.key_ne_cursorKey _ _)
      | _ => trivial
    | clock => trivial
  | chain c =>
    cases c with
    | submit what nonce => cases what <;> first | exact hr.elim | trivial
    | _ => trivial
  | _ => trivial

def Lasting (M : Trace → Prop) : Prop :=
  ∀ e t, M t → M (e :: t)

theorem lasting_always : Lasting fun _ => True :=
  fun _ _ _ => trivial

theorem lasting_mem {e : Event} : Lasting (e ∈ ·) :=
  fun _ _ => List.mem_cons_of_mem _

abbrev accounting (s : Settings) (i : Nat) : Surroundings interface :=
  (recalling s (Accountable s)).around i

/-- Begun when something was known of what has happened, a part of a task accounts for its seeds, and the
same is known when it ends. -/
def Accounts (s : Settings) (i : Nat) (M : Trace → Prop) (α : Type) (p : Activity α) : Prop :=
  ∀ σ : Shared, M σ.trace → p.Upholds (accounting s i) (fun _ τ => M τ.trace) σ

def AccountsTurn (s : Settings) (i : Nat) (M : Trace → Prop) (p : Activity (Option Routine)) : Prop :=
  ∀ σ : Shared, M σ.trace → p.Upholds (accounting s i) (recalling s (Accountable s)).Next σ

theorem Apart.known (ha : Apart i σ τ) (hM : ∀ e t, e.task? ≠ some i → M t → M (e :: t)) (hσ : M σ.trace) :
    M τ.trace := by
  obtain ⟨between, htrace, hothers⟩ := ha
  rw [htrace]
  clear htrace
  induction between with
  | nil => exact hσ
  | cons e between ih =>
    exact hM e _ (hothers e List.mem_cons_self) (ih fun e' he' => hothers e' (List.mem_cons_of_mem e he'))

theorem upholds_recalling {r : Request} {Q : r.Answer → Shared → Prop}
    (hM : ∀ e t, e.task? ≠ some i → M t → M (e :: t)) (hσ : M σ.trace)
    (hr : ∀ t, M t → Accountable s i r t)
    (hQ : ∀ a τ t, M t → τ.trace = .answered i r a :: t → Q a τ) :
    (ask r).Upholds (accounting s i) Q σ := by
  intro τ hτ
  have hknown : M τ.trace := by
    dsimp only at hτ
    split at hτ
    · exact hτ.2.2.known hM hσ
    · exact hτ ▸ hσ
  refine ⟨hr _ hknown, fun a υ hυ => ?_⟩
  obtain ⟨ω, hserved, rfl, -⟩ := hυ
  exact hQ a _ τ.trace hknown (congrArg _ hserved.trace)

theorem Accounts.attempts {x : Attempt α} (hx : Accounts s i M _ x.run) (hσ : M σ.trace) :
    Attempts (accounting s i) x anyhow anyhow σ :=
  upholds_run.1 ((hx σ hσ).imp fun _ _ _ => trivial)

theorem accounts_ask (hM : Lasting M) {r : Request} (hr : ∀ t, M t → Accountable s i r t) :
    Accounts s i M _ (ask r) :=
  fun _ hσ => upholds_recalling (fun e t _ => hM e t) hσ hr fun _ _ t ht htrace => htrace ▸ hM _ t ht

theorem accounts (hM : Lasting M) : Habit (Accounts s i M) (AccountsTurn s i M) where
  done _ _ hσ := hσ
  bind hp hf σ hσ := (hp σ hσ).bind fun a τ hτ => hf a τ hτ
  plain _ hr := accounts_ask hM fun _ _ => hr.accountable
  ends _ _ := fun _ _ => trivial
  goes _ _ _ := fun _ _ => trivial
  last hp hf σ hσ := (hp σ hσ).bind fun a τ hτ => hf a τ hτ

theorem accounts_answer {r : Request} (hr : r.Plain) {f : r.Answer → Activity α}
    (hf : ∀ a, Accounts s i (fun t => Event.answered i r a ∈ t) _ (f a)) :
    Accounts s i (fun _ => True) _ ((ask r).bind f) := by
  intro σ _
  have hask : (ask r).Upholds (accounting s i) (fun a τ => Event.answered i r a ∈ τ.trace) σ := by
    refine upholds_recalling (M := fun _ => True) (fun _ _ _ => id) trivial (fun _ _ => hr.accountable) ?_
    intro a τ t _ htrace
    rw [htrace]
    exact List.mem_cons_self
  exact hask.bind fun a τ hτ => (hf a τ hτ).imp fun _ _ _ => trivial

theorem accounts_chain {c : Chain.Call} (hc : (Request.chain c).Plain) {f : c.Result → Attempt α}
    (hf : ∀ a, Accounts s i (fun t => Event.answered i (.chain c) (.ok a) ∈ t) _ (f a).run) :
    Accounts s i (fun _ => True) _ (chain c >>= f).run := by
  refine accounts_answer hc fun answer => ?_
  cases answer with
  | ok a => exact hf a
  | error cause => exact fun _ hσ => hσ

section Operations

theorem accounts_keeps (hM : Lasting M) {seed : Option Seed} {a : Repository.Action α}
    (ha : Repository.Keeps h seed a) (horigin : ∀ t, M t → ∀ x ∈ seed, Origin s i h x t) :
    Accounts s i M _ (callRepository a) := by
  refine (accounts hM).interpret (ha.imp fun r hr => accounts_ask hM fun t ht => ?_)
  cases hr with
  | reads reading => exact (plain_of_reading reading).accountable
  | @stores x given =>
    intro k hk
    obtain rfl := (key_inj.1 hk).2
    exact ⟨x, rfl, horigin t ht x given⟩
  | writes other => exact fun k hk => absurd hk (key_ne other h k)
  | unmarks => trivial

theorem accounts_seedless (hM : Lasting M) {a : Repository.Action α} (ha : Repository.Keeps h none a) :
    Accounts s i M _ (callRepository a) :=
  accounts_keeps hM ha fun _ _ _ hx => nomatch hx

theorem operations_accounts (hM : Lasting M) :
    Habit.Operations (Accounts s i M) fun h seed => ∀ t, M t → ∀ x ∈ seed, Origin s i h x t where
  setCommitBlock _ block := accounts_seedless hM (Repository.keeps_setCommitBlock block)
  markRevealed horigin := accounts_keeps hM Repository.keeps_markRevealed horigin
  markExpired _ := accounts_seedless hM (Repository.keeps_finish .expired)
  pendingHashes := by
    refine (accounts hM).interpret (Only.attempt ⟨?_, fun _ => trivial⟩ fun _ => trivial)
    exact accounts_ask hM fun _ _ => trivial
  advance h rest hrest := by
    have hF := accounts (s := s) (i := i) hM
    refine hF.attempt hF.status fun status => ?_
    split
    · have hset : Accounts s i M _ (callRepository (Repository.setStatus h .pendingReveal)) :=
        accounts_seedless hM (Repository.keeps_setStatus _)
      exact hF.attempt (hF.attempt (hF.repository hset) fun _ => hF.done _) fun _ => hrest
    · exact hrest

end Operations

section Parts

theorem accounts_always : Habit (Accounts s i fun _ => True) (AccountsTurn s i fun _ => True) :=
  accounts lasting_always

theorem accounts_receipt (hM : Lasting M) (tx : TxHash) (poll timeout : Nat) :
    Accounts s i M _ (ask (.receipt tx poll timeout)) :=
  accounts_ask hM fun _ _ => trivial

theorem accounts_issueCommit : Accounts s i (fun _ => True) _ (issueCommit s).run := by
  have hF := accounts_always (s := s) (i := i)
  refine hF.attempt (hF.lift (hF.bind (hF.plain .entropy trivial) fun _ => hF.done _)) fun seed => ?_
  refine accounts_chain (c := .computeCommitHash seed) trivial fun h => ?_
  have hstored (t : Trace) (ht : Event.answered i (.chain (.computeCommitHash seed)) (.ok h) ∈ t) :
      ∀ x ∈ some seed, Origin s i h x t := by
    rintro x ⟨⟩
    exact .hashed ht
  exact (accounts lasting_mem).offer (accounts_receipt lasting_mem)
    (accounts_keeps lasting_mem (Repository.keeps_storeSeed seed) hstored)
    (accounts_seedless lasting_mem Repository.keeps_markPending)
    (fun st _ => accounts_seedless lasting_mem (Repository.keeps_setStatus st))
    (fun block => accounts_seedless lasting_mem (Repository.keeps_setCommitBlock block))
    (accounts_seedless lasting_mem (Repository.keeps_finish .abandoned))

theorem accounts_reconcile (candidates : List Hash) :
    Accounts s i (fun _ => True) _ (reconcile s candidates).run := by
  refine accounts_chain (c := .listUnverified s.agent) trivial fun records => ?_
  have hF := accounts (s := s) (i := i)
    (lasting_mem (e := .answered i (.chain (.listUnverified s.agent)) (.ok records)))
  refine hF.attempt (hF.chain (c := .blockNumber) trivial) fun head => ?_
  refine hF.reconcileAll (operations_accounts lasting_mem) (fun h r hlisted hrevealed t ht x hx => ?_) head _
  split at hx
  · cases hx
  · rename_i hnonzero
    exact .listed ht hlisted hrevealed hnonzero (Option.some.inj hx).symm

theorem accounts_scanStep (e : EventSync) : Accounts s i (fun _ => True) _ (scanStep s e) := by
  refine accounts_always.scanStep e fun window initial limit => ?_
  refine accounts_answer (r := .logs window initial limit) trivial fun answer => ?_
  refine (accounts lasting_mem).scanFetched e window ?_
  rintro logs rfl event hheard
  refine (accounts lasting_mem).triggerReveal (operations_accounts lasting_mem) ?_ _
  rintro committer h seed rfl t ht x hx
  cases hx
  obtain ⟨log, -, hlog⟩ := List.mem_filterMap.1 hheard
  have howner : committer = s.agent := by
    rcases (heard?_eq_some_iff.1 hlog).2 with hnone | hsome
    · cases hnone
    · exact Option.some.inj hsome
  exact .logged ht (howner ▸ hheard)

end Parts

section Worker

theorem Taken.cons {e : Event} (ht : Taken i h t) (he : Looked i e) : Taken i h (e :: t) := by
  obtain ⟨looks, earlier, rfl, hlooks⟩ := ht
  exact ⟨e :: looks, earlier, rfl, List.forall_mem_cons.2 ⟨he, hlooks⟩⟩

theorem Begun.cons {e : Event} (hb : Begun i h seed t) (he : ∀ next, e ≠ .answered i .nextReveal next) :
    Begun i h seed (e :: t) := by
  obtain ⟨later, before, rfl, hbefore, hlater⟩ := hb
  refine ⟨e :: later, before, rfl, hbefore, fun next hmem => ?_⟩
  rcases List.mem_cons.1 hmem with heq | hmem
  · exact he next heq.symm
  · exact hlater next hmem

theorem Begun.others {e : Event} (he : e.task? ≠ some i) (hb : Begun i h seed t) : Begun i h seed (e :: t) := by
  refine hb.cons ?_
  rintro next rfl
  exact he rfl

theorem Begun.found (hb : Begun i h seed t) : seedFound i h seed ∈ t := by
  obtain ⟨later, before, rfl, -⟩ := hb
  exact List.mem_append_right _ List.mem_cons_self

theorem upholds_look {k : Bytes} {Q : Except Store.StoreError (Option Bytes) → Shared → Prop}
    (hQ : ∀ a τ, τ.trace = .answered i (.store (.call (.get k))) a :: σ.trace → Q a τ) :
    (Program.request (I := Repository.interface) (.call (.get k))).Upholds (behind (accounting s i)) Q σ := by
  intro τ hτ
  obtain rfl : τ = σ := hτ
  refine ⟨trivial, fun a υ hυ => ?_⟩
  obtain ⟨ω, hserved, rfl, -⟩ := hυ
  exact hQ a _ (congrArg _ hserved.trace)

theorem attempts_record_taken (hσ : Taken i h σ.trace) :
    Attempts (behind (accounting s i)) (Repository.record h) (fun _ τ => Taken i h τ.trace)
      (fun _ τ => Taken i h τ.trace) σ := by
  unfold Repository.record Repository.get
  refine attempts_bind.2 ((attempts_mk _).2 (upholds_look fun a τ htrace => ?_))
  have hτ : Taken i h τ.trace := by
    rw [htrace]
    exact hσ.cons ⟨_, _, rfl⟩
  rcases a with cause | _ | bytes
  · exact hτ
  · exact hτ
  · refine attempts_bind.2 ((attempts_ofExcept _).2 ?_)
    cases Repository.recordOfBytes bytes <;> exact hτ

theorem attempts_seed_begun (hσ : Taken i h σ.trace) :
    Attempts (behind (accounting s i)) (Repository.seed h)
      (fun found τ => ∀ seed ∈ found, Begun i h seed τ.trace) anyhow σ := by
  unfold Repository.seed Repository.getHash Repository.get
  refine attempts_bind.2 ((attempts_mk _).2 (upholds_look fun a τ htrace => ?_))
  rcases a with cause | _ | bytes
  · trivial
  · exact fun seed hseed => nomatch hseed
  · refine attempts_bind.2 ((attempts_ofExcept _).2 ?_)
    cases hread : Repository.hashOfBytes bytes with
    | error cause => trivial
    | ok seed =>
      rintro x ⟨⟩
      rw [Repository.bytes_of_hashOfBytes hread] at htrace
      exact ⟨[], σ.trace, htrace, hσ, fun _ hmem => nomatch hmem⟩

def Request.Staying (r : Request) : Prop :=
  r.Plain ∧ r ≠ .nextReveal

theorem coversSending_staying : CoversSending Request.Staying where
  counts _ := ⟨trivial, nofun⟩
  takes _ := ⟨trivial, nofun⟩
  releases _ := ⟨trivial, nofun⟩
  notifies _ := ⟨trivial, nofun⟩
  aborts _ := ⟨trivial, nofun⟩

theorem upholds_begun {p : Activity α} (hp : p.Only Request.Staying) (hσ : Begun i h seed σ.trace) :
    p.Upholds (accounting s i) (fun _ τ => Begun i h seed τ.trace) σ := by
  induction p generalizing σ with
  | done a => exact hσ
  | ask r next ih =>
    obtain ⟨⟨hplain, hstays⟩, hnext⟩ := hp
    have hask : (ask r).Upholds (accounting s i) (fun _ τ => Begun i h seed τ.trace) σ := by
      refine upholds_recalling (fun _ _ => Begun.others) hσ (fun _ _ => hplain.accountable) ?_
      intro a τ t ht htrace
      rw [htrace]
      refine ht.cons ?_
      rintro next ⟨⟩
      exact hstays rfl
    exact hask.bind fun a τ hτ => ih a (hnext a) hτ

theorem upholds_submit_begun (hσ : Begun i h seed σ.trace) :
    (submit s (.reveal h seed)).Upholds (accounting s i) (fun _ τ => seedFound i h seed ∈ τ.trace) σ := by
  unfold submit
  refine (upholds_begun (only_observedCount coversSending_staying) hσ).bind fun count τ hτ => ?_
  refine (upholds_begun (only_takeNonce coversSending_staying count) hτ).bind fun nonce υ hυ => ?_
  have hsend : (callChain (.submit (.reveal h seed) nonce)).Upholds (accounting s i)
      (fun _ τ => seedFound i h seed ∈ τ.trace) υ :=
    upholds_recalling (fun _ _ => Begun.others) hυ (fun _ => id) fun _ _ _ ht htrace =>
      htrace ▸ List.mem_cons_of_mem _ ht.found
  refine hsend.bind fun answer ω hω => ?_
  have hF := accounts (s := s) (i := i) (lasting_mem (e := seedFound i h seed))
  cases answer with
  | ok tx => exact hω
  | error cause => exact hF.bind (hF.releaseNonce nonce) (fun _ => hF.done _) ω hω

theorem attempts_submitReveal_begun (hσ : Begun i h seed σ.trace) :
    Attempts (accounting s i) (submitReveal s h seed) anyhow anyhow σ := by
  have hF := accounts (s := s) (i := i) (lasting_mem (e := seedFound i h seed))
  refine attempts_bind.2 ((attempts_lift _).2 ((upholds_submit_begun hσ).imp fun answer τ hτ => ?_))
  cases answer with
  | error cause => exact Accounts.attempts (hF.attempt (hF.lift (hF.notify _)) fun _ => hF.done _) hτ
  | ok tx =>
    have hmark : Accounts s i (seedFound i h seed ∈ ·) _
        (callRepository (Repository.markRevealed h (some seed))) := by
      refine accounts_keeps lasting_mem Repository.keeps_markRevealed ?_
      rintro t ht x ⟨⟩
      exact .found ht
    refine Accounts.attempts (hF.attempt (hF.lift (hF.notify _)) fun _ => ?_) hτ
    refine hF.attempt (hF.lift (hF.confirm (accounts_receipt lasting_mem) tx)) fun outcome => ?_
    exact hF.settleReveal hmark outcome

/-- The worker looks at the status and at the seed before anyone else can do anything. -/
theorem attempts_reveal_taken (hσ : Taken i h σ.trace) :
    Attempts (accounting s i) (reveal s h) anyhow anyhow σ := by
  have hF := accounts_always (s := s) (i := i)
  unfold reveal
  refine attempts_bind.2 ((attempts_repository _ _ _).2 ?_)
  refine attempts_bind.2 ((attempts_record_taken hσ).imp (fun r τ hτ => ?_) fun _ _ _ => trivial)
  simp only [attempts_pure]
  split
  · have hclear : Accounts s i (fun _ => True) _ (callRepository (Repository.clearPending h)) :=
      accounts_seedless lasting_always Repository.keeps_clearPending
    exact Accounts.attempts (hF.attempt (hF.repository hclear) fun _ => hF.done _) trivial
  split
  · trivial
  refine attempts_bind.2 ((attempts_repository _ _ _).2 ?_)
  refine (attempts_seed_begun hτ).imp (fun found υ hυ => ?_) fun _ _ _ => trivial
  cases found with
  | none => exact Accounts.attempts (hF.attempt (hF.lift (hF.notify _)) fun _ => hF.done _) trivial
  | some seed => exact attempts_submitReveal_begun (hυ seed rfl)

theorem upholds_processReveal_taken (hσ : Taken i h σ.trace) :
    (processReveal s h).Upholds (accounting s i) anyhow σ := by
  have hF := accounts_always (s := s) (i := i)
  refine Upholds.bind (attempts_reveal_taken hσ) fun outcome τ _ => ?_
  rcases outcome with cause | _ | _ | _
  · exact hF.bind (hF.notify _) (fun _ => hF.plain (.memory (.defer [h])) trivial) τ trivial
  · trivial
  · trivial
  · exact hF.plain (.memory (.defer [h])) trivial τ trivial

theorem accounts_workerTurn (started : Bool) : AccountsTurn s i (fun _ => True) (workerTurn s started) := by
  have hF := accounts_always (s := s) (i := i)
  have hreceiver (q : Memory.Request) := accounts_ask (s := s) (i := i) (M := fun _ => True) (r := .memory q)
    lasting_always fun _ _ => trivial
  cases started with
  | false => exact hF.workerStart (hreceiver .takeReceiver) fun _ _ _ _ => trivial
  | true =>
    intro σ _
    have hnext : (ask .nextReveal).Upholds (accounting s i)
        (fun next τ => ∀ h, next = some h → Taken i h τ.trace) σ := by
      refine upholds_recalling (M := fun _ => True) (fun _ _ _ => id) trivial (fun _ _ => trivial) ?_
      rintro _ τ t - htrace h rfl
      exact ⟨[], t, htrace, fun _ he => nomatch he⟩
    refine hnext.bind fun next τ hτ => ?_
    cases next with
    | none => exact hF.last (hreceiver .dropReceiver) (fun _ => hF.ends) τ trivial
    | some h => exact (upholds_processReveal_taken (hτ h rfl)).bind fun _ _ _ _ _ => trivial

end Worker

theorem accountable_kept (s : Settings) : (recalling s (Accountable s)).Kept := by
  have hsettled (i : Nat) : Habit.Settled s (Accounts s i fun _ => True) := {
    receipt := accounts_receipt lasting_always
    scan := accounts_scanStep
    commit := accounts_always.commitTick accounts_issueCommit
    reconcile := accounts_always.reconcileTick (operations_accounts lasting_always) accounts_reconcile }
  constructor
  · intro i r σ _ _
    cases r with
    | revealWorker started => exact accounts_workerTurn started σ trivial
    | _ => exact accounts_always.turn (hsettled i) (by simp) σ trivial
  · intro i j σ _
    exact accounts_always.job (hsettled i) (accounts_workerTurn false) j σ trivial

theorem accountable_of_reachable {σ : System} (hr : System.Reachable s σ) {r : Request}
    {next : r.Answer → Activity (Option Routine)} (task : σ.tasks[i]? = some (.running (.ask r next))) :
    Accountable s i r σ.shared.trace :=
  recalled_of_reachable (accountable_kept s) hr task

end CommitReveal.Agent
