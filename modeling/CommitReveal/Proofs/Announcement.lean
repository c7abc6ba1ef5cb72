import CommitReveal.Agent.Lifecycle
import CommitReveal.Proofs.Asking
import CommitReveal.Proofs.Handling
import CommitReveal.Proofs.History
import CommitReveal.Proofs.RepositoryRules

/-! Who makes a hash public. Of all that the tasks do, only issuing a commit sends one, and it does so only
when the seed, the record and the mark of its hash have been dealt with. -/
namespace CommitReveal.Agent

open Program
open Repository (key)

variable {s : Settings} {h : Hash} {α β : Type}

section Silence

/-- Whether a request keeps quiet about new hashes. -/
def Request.Silent : Request → Prop
  | .chain (.submit (.commit _) _) => False
  | _ => True

def Silent (x : Attempt α) : Prop :=
  x.run.Only Request.Silent

theorem Silent.bind {x : Attempt α} {f : α → Attempt β} (hx : Silent x) (hf : ∀ a, Silent (f a)) :
    Silent (x >>= f) :=
  Only.attempt hx hf

theorem silent_lift {p : Activity α} (hp : p.Only Request.Silent) : Silent (liftM p) :=
  Only.lift hp

theorem silent_ask {r : Request} (hr : r.Silent) : (ask r).Only Request.Silent :=
  ⟨hr, fun _ => trivial⟩

theorem silent_notify (n : Notice) : (notify n).Only Request.Silent :=
  silent_ask trivial

theorem silent_notifyAll (ns : List Notice) : (notifyAll ns).Only Request.Silent :=
  only_notifyAll (fun _ => trivial) ns

theorem silent_orAbort (e : Except Fault α) : (orAbort e).Only Request.Silent :=
  only_orAbort (fun _ => trivial) e

theorem silent_callRepository (a : Repository.Action α) : (callRepository a).Only Request.Silent :=
  only_callRepository (fun _ => trivial) a

theorem silent_repository (a : Repository.Action α) : Silent (repository a) :=
  only_repository (fun _ => trivial) a

theorem silent_chain {c : Chain.Call} (hc : (Request.chain c).Silent) : Silent (chain c) :=
  (silent_ask hc).bind fun _ => trivial

theorem silent_of_handling {p : Activity α} (hp : p.Only Request.Handling) : p.Only Request.Silent := by
  induction p with
  | done a => trivial
  | ask r next ih =>
    refine ⟨?_, fun a => ih a (hp.2 a)⟩
    cases r with
    | chain c => exact hp.1.elim
    | _ => trivial

theorem coversSending_silent : CoversSending Request.Silent where
  counts _ := trivial
  takes _ := trivial
  releases _ := trivial
  notifies _ := trivial
  aborts _ := trivial

theorem silent_submit (what : Chain.Submission)
    (hwhat : ∀ nonce, (Request.chain (.submit what nonce)).Silent) :
    (submit s what).Only Request.Silent :=
  only_submit coversSending_silent hwhat

theorem silent_confirm (tx : TxHash) : (confirm s tx).Only Request.Silent :=
  only_confirm coversSending_silent trivial

theorem silent_approveAllowance (s : Settings) (amount : Nat) : Silent (approveAllowance s amount) := by
  unfold approveAllowance
  refine (silent_chain (c := .tokenAllowance s.agent s.oracle) trivial).bind fun current => ?_
  split
  · exact silent_lift (silent_notify _)
  have hsubmit := silent_submit (s := s) (.approve s.oracle amount) fun _ => trivial
  refine (silent_lift hsubmit).bind fun answer => ?_
  cases answer with
  | error cause => trivial
  | ok tx =>
    refine (silent_lift (silent_notify _)).bind fun _ => ?_
    refine (silent_lift (silent_confirm tx)).bind fun outcome => ?_
    cases outcome with
    | none => trivial
    | some outcome =>
      dsimp only
      split
      · exact silent_lift (silent_notify _)
      · trivial

theorem silent_settleReveal (seed : Seed) (outcome : Option TxOutcome) :
    Silent (settleReveal h seed outcome) :=
  only_settleReveal (fun _ => trivial) (fun _ => trivial) seed outcome

theorem silent_reveal (s : Settings) (h : Hash) : Silent (reveal s h) := by
  unfold reveal
  refine (silent_repository _).bind fun status => ?_
  split
  · exact (silent_repository _).bind fun _ => trivial
  split
  · trivial
  refine (silent_repository _).bind fun seed => ?_
  cases seed with
  | none => exact (silent_lift (silent_notify _)).bind fun _ => trivial
  | some seed =>
    have hsubmit := silent_submit (s := s) (.reveal h seed) fun _ => trivial
    refine (silent_lift hsubmit).bind fun answer => ?_
    cases answer with
    | error cause => exact (silent_lift (silent_notify _)).bind fun _ => trivial
    | ok tx =>
      refine (silent_lift (silent_notify _)).bind fun _ => ?_
      exact (silent_lift (silent_confirm tx)).bind fun outcome => silent_settleReveal seed outcome

theorem silent_processReveal (s : Settings) (h : Hash) :
    (processReveal s h).Only Request.Silent := by
  unfold processReveal
  refine Only.bind (silent_reveal s h) fun outcome => ?_
  rcases outcome with cause | _ | _ | _
  · exact (silent_notify _).bind fun _ => silent_ask trivial
  · trivial
  · trivial
  · exact silent_ask trivial

theorem silent_reconcileAll (s : Settings) (records : List OracleRecord) (head : Word)
    (hashes : List Hash) : Silent (reconcileAll s records head hashes) :=
  only_reconcileAll (fun _ => trivial) (fun _ => trivial) records head hashes

theorem silent_requestReveals (hashes : List Hash) :
    (requestReveals hashes).Only Request.Silent := by
  induction hashes with
  | nil => trivial
  | cons h rest ih => exact (silent_of_handling handling_requestReveal).bind fun _ => ih

theorem silent_reconcileTick (s : Settings) : (reconcileTick s).Only Request.Silent := by
  have hstored : storedPending.Only Request.Silent := by
    unfold storedPending
    refine (silent_callRepository _).bind fun answer => ?_
    cases answer with
    | ok hashes => trivial
    | error cause => exact (silent_notify _).bind fun _ => trivial
  have hreconcile (candidates : List Hash) : Silent (reconcile s candidates) := by
    unfold reconcile
    refine (silent_chain (c := .listUnverified s.agent) trivial).bind fun records => ?_
    refine (silent_chain (c := .blockNumber) trivial).bind fun head => ?_
    exact silent_reconcileAll s records head _
  unfold reconcileTick
  refine hstored.bind fun stored => ?_
  refine (silent_ask (r := .memory .takeDeferred) trivial).bind fun deferred => ?_
  dsimp only
  split
  · trivial
  refine Only.bind (hreconcile _) fun outcome => ?_
  cases outcome with
  | error cause => exact (silent_notify _).bind fun _ => silent_ask trivial
  | ok work =>
    dsimp only
    split
    · exact (silent_notify _).bind fun _ => silent_requestReveals work
    · exact silent_requestReveals work

theorem silent_scanWindow (s : Settings) (e : EventSync) (window : ScanWindow) (logs : List EventLog) :
    (scanWindow s e window logs).Only Request.Silent :=
  Only.bind (silent_of_handling (handling_dispatchAll _ _ _ _ _)) fun progress =>
    only_moveBehind (fun _ => trivial) (fun _ => trivial) (fun _ => trivial) e window logs progress

theorem silent_idle (s : Settings) : (idle s).Only Request.Silent := by
  refine ⟨trivial, fun now => ⟨trivial, fun wake => ?_⟩⟩
  cases wake <;> trivial

theorem silent_scanStep (s : Settings) (e : EventSync) : (scanStep s e).Only Request.Silent := by
  have hidle : (do return (← idle s, e) : Activity (StepOutcome × EventSync)).Only Request.Silent :=
    (silent_idle s).bind fun _ => trivial
  unfold scanStep
  refine ⟨trivial, fun answer => ?_⟩
  cases answer with
  | error cause => exact (silent_notify _).bind fun _ => hidle
  | ok head =>
    refine (silent_orAbort _).bind fun window => ?_
    cases window with
    | none => exact hidle
    | some window =>
      refine ⟨trivial, fun logs => ?_⟩
      cases logs with
      | none => trivial
      | some logs => exact (silent_scanWindow s e window logs).bind fun _ => trivial

theorem silent_closeScan (e : EventSync) : (closeScan e).Only Request.Silent :=
  (silent_notifyAll _).bind fun _ => silent_notify _

theorem silent_scanTurn (s : Settings) (e : EventSync) (started : Bool) :
    (scanTurn s e started).Only Request.Silent := by
  have go : (scanTurn s e true).Only Request.Silent := by
    unfold scanTurn
    refine (silent_ask (r := .isCancelled) trivial).bind fun cancelled => ?_
    split
    · exact (silent_closeScan e).bind fun _ => trivial
    refine (silent_scanStep s e).bind fun stepped => ?_
    dsimp only
    split
    · exact (silent_closeScan _).bind fun _ => trivial
    · trivial
  cases started with
  | true => exact go
  | false => exact (silent_notify _).bind fun _ => go

theorem silent_awaitTick (period : Nat) (ticker : Option Ticker) :
    (awaitTick period ticker).Only Request.Silent := by
  have wait (t : Ticker) : (awaitTick period (some t)).Only Request.Silent := by
    refine ⟨trivial, fun wake => ?_⟩
    cases wake with
    | cancelled => trivial
    | due => exact ⟨trivial, fun _ => trivial⟩
  cases ticker with
  | some t => exact wait t
  | none => exact ⟨trivial, fun now => (silent_orAbort _).bind wait⟩

theorem silent_workerTurn (s : Settings) (started : Bool) :
    (workerTurn s started).Only Request.Silent := by
  cases started with
  | true =>
    refine ⟨trivial, fun next => ?_⟩
    cases next with
    | none => exact ⟨trivial, fun _ => trivial⟩
    | some h => exact (silent_processReveal s h).bind fun _ => trivial
  | false =>
    refine ⟨trivial, fun taken => ?_⟩
    cases taken with
    | true => trivial
    | false => exact (silent_notify _).bind fun _ => trivial

theorem silent_delayedRevealTurn (s : Settings) (h : Hash) :
    (delayedRevealTurn s h).Only Request.Silent := by
  refine ⟨trivial, fun now => ⟨trivial, fun wake => ?_⟩⟩
  cases wake with
  | cancelled => trivial
  | due => exact (silent_of_handling handling_requestReveal).bind fun _ => trivial

theorem silent_resolveCursor (b : Bootstrap) : Silent (resolveCursor b) := by
  have hstart : (bootstrapCursor b).Only Request.Silent := (silent_notify _).bind fun _ => trivial
  unfold resolveCursor
  refine (silent_repository _).bind fun cursor => ?_
  cases cursor with
  | some cursor => exact (silent_lift (silent_notify _)).bind fun _ => trivial
  | none =>
    dsimp only
    cases b.deployTx with
    | none => exact silent_lift hstart
    | some tx =>
      refine (silent_chain (c := .blockOfTransaction tx) trivial).bind fun block => ?_
      cases block with
      | some block => exact (silent_lift (silent_notify _)).bind fun _ => trivial
      | none => exact (silent_lift (silent_notify _)).bind fun _ => silent_lift hstart

theorem silent_spawnAll (rs : List Routine) : (spawnAll rs).Only Request.Silent := by
  induction rs with
  | nil => trivial
  | cons r rest ih => exact ⟨trivial, fun _ => ih.bind fun _ => trivial⟩

theorem silent_startUp (s : Settings) (allowance : Nat) (b : Bootstrap) (confirmations : Word) :
    Silent (startUp s allowance b confirmations) := by
  have hprepare : Silent (prepare s allowance) :=
    Only.bind (silent_approveAllowance s allowance) fun _ => trivial
  unfold startUp start
  refine hprepare.bind fun _ => (silent_resolveCursor b).bind fun cursor => ?_
  refine (silent_lift (silent_reconcileTick s)).bind fun _ => ?_
  refine (silent_lift (silent_spawnAll _)).bind fun tasks => ?_
  exact (silent_lift (silent_notify _)).bind fun _ => trivial

def answerCommit (s : Settings) (h : Hash) : Except ChainError TxHash → Attempt (Option Hash)
  | .error cause => do
    notify (.commitRefused h cause)
    repository (Repository.markAbandoned h)
    return none
  | .ok tx => do
    repository (Repository.storeTx h tx)
    discard <| repository (Repository.setStatus h .committed)
    notify (.committed h tx)
    settleCommit h (← confirm s tx)

theorem only_answerCommit {K : Request → Prop} (hstore : ∀ q, K (.store q)) (hnotify : ∀ n, K (.notify n))
    (hconfirm : ∀ tx, (confirm s tx).Only K) (answer : Except ChainError TxHash) :
    (answerCommit s h answer).run.Only K := by
  cases answer with
  | error cause =>
    refine Only.attempt (only_tell hnotify _) fun _ => ?_
    exact Only.attempt (only_repository hstore _) fun _ => trivial
  | ok tx =>
    refine Only.attempt (only_repository hstore _) fun _ => ?_
    refine Only.attempt (Only.attempt (only_repository hstore _) fun _ => trivial) fun _ => ?_
    refine Only.attempt (only_tell hnotify _) fun _ => ?_
    exact Only.attempt (Only.lift (hconfirm tx)) fun receipt => only_settleCommit hstore hnotify receipt

theorem silent_answerCommit (answer : Except ChainError TxHash) : Silent (answerCommit s h answer) :=
  only_answerCommit (fun _ => trivial) (fun _ => trivial) silent_confirm answer

end Silence

section Senders

variable {P : Request → Transcript interface → Prop} {t : Transcript interface}

theorem upholds_quiet (hP : ∀ r u, Request.Silent r → P r u) {p : Activity α} (hp : p.Only Request.Silent) :
    p.Upholds (watched P) anyhow t :=
  (hp.upholds fun r u => hP r u).imp fun _ _ _ => trivial

theorem turn_of_commitTick (hP : ∀ r u, Request.Silent r → P r u)
    (htick : ∀ u, (commitTick s).Upholds (watched P) anyhow u) (r : Routine) (t : Transcript interface) :
    (r.turn s).Upholds (watched P) anyhow t := by
  cases r with
  | commitTimer ticker =>
    refine (upholds_quiet hP (silent_awaitTick _ ticker)).bind fun next u _ => ?_
    cases next with
    | none => trivial
    | some next => exact (htick u).bind fun _ _ _ => trivial
  | revealWorker started => exact upholds_quiet hP (silent_workerTurn s started)
  | reconcileTimer ticker =>
    apply upholds_quiet hP
    refine (silent_awaitTick _ ticker).bind fun next => ?_
    cases next with
    | none => trivial
    | some next => exact (silent_reconcileTick s).bind fun _ => trivial
  | scan e started => exact upholds_quiet hP (silent_scanTurn s e started)
  | delayedReveal h => exact upholds_quiet hP (silent_delayedRevealTurn s h)
  | stopAfter ms => exact upholds_quiet hP ⟨trivial, fun _ => ⟨trivial, fun _ => trivial⟩⟩

theorem job_of_commitTick (hP : ∀ r u, Request.Silent r → P r u)
    (htick : ∀ u, (commitTick s).Upholds (watched P) anyhow u) (j : Job) (t : Transcript interface) :
    (j.program s).Upholds (watched P) anyhow t := by
  cases j with
  | startUp allowance b confirmations =>
    apply upholds_quiet hP
    exact Only.bind (silent_startUp s allowance b confirmations) fun _ => trivial
  | worker => exact turn_of_commitTick hP htick (.revealWorker false) t
  | commits => exact turn_of_commitTick hP htick (.commitTimer none) t
  | reconciles => exact turn_of_commitTick hP htick (.reconcileTimer none) t
  | scan cursor handlers confirmations =>
    exact turn_of_commitTick hP htick (.scan (.start cursor handlers confirmations) false) t

theorem asked_of_commitTick (hP : ∀ r u, Request.Silent r → P r u)
    (htick : ∀ u, (commitTick s).Upholds (watched P) anyhow u) {σ : System} (hr : System.Reachable s σ)
    {i : Nat} {r : Request} {next : r.Answer → Activity (Option Routine)}
    (task : σ.tasks[i]? = some (.running (.ask r next))) : P r (answersOf i σ.shared.trace) :=
  asked_of_reachable (turn_of_commitTick hP htick) (job_of_commitTick hP htick) hr task

end Senders

section Preparation

variable {t u v : Transcript interface} {seed : Seed}

def storeFailed : Exchange interface → Bool
  | ⟨.store (.call _), .error _⟩ => true
  | _ => false

def Unfailed (u : Transcript interface) : Prop :=
  ∀ x ∈ u, storeFailed x = false

theorem Unfailed.append (hu : Unfailed u) (hv : Unfailed v) : Unfailed (u ++ v) :=
  fun x hx => (List.mem_append.1 hx).elim (hu x) (hv x)

/-- No store call has failed, and no other seed was drawn. -/
def Untroubled (u : Transcript interface) : Prop :=
  ∀ x ∈ u, storeFailed x = false ∧ x.request ≠ .entropy

theorem Untroubled.append (hu : Untroubled u) (hv : Untroubled v) : Untroubled (u ++ v) :=
  fun x hx => (List.mem_append.1 hx).elim (hu x) (hv x)

structure Stored (h : Hash) (seed : Seed) (u : Transcript interface) : Prop where
  untroubled : Untroubled u
  seed : ⟨.store (.call (.set (key .seed h) seed.bytes)), .ok ()⟩ ∈ u
  record : (∃ bytes, ⟨.store (.call (.get (key .record h))), .ok (some bytes)⟩ ∈ u) ∨
    ∃ value, ⟨.store (.call (.set (key .record h) value)), .ok ()⟩ ∈ u

/-- The hash was marked as pending, or its status was found to be final. -/
def MarkTried (h : Hash) (u : Transcript interface) : Prop :=
  ⟨.store (.call (.set (key .pending h) [1])), .ok ()⟩ ∈ u ∨
    ∃ bytes r, ⟨.store (.call (.get (key .record h))), .ok (some bytes)⟩ ∈ u ∧
      Repository.recordOfBytes bytes = .ok r ∧ r.status.isTerminal

/-- What comes before a commit: the oracle's hash of a fresh seed, then that seed in the store, a record
and the mark, no store call that failed and no other seed. -/
inductive Prepared (s : Settings) (h : Hash) : Transcript interface → Prop
  | intro {before told : Transcript interface} {entropy : Hash}
    (stored : Stored h (seedOf s.agent entropy) told) (marked : MarkTried h told) :
    Prepared s h (before ++ ⟨.entropy, entropy⟩ ::
      ⟨.chain (.computeCommitHash (seedOf s.agent entropy)), .ok h⟩ :: told)

def Announces (s : Settings) : Request → Transcript interface → Prop
  | .chain (.submit (.commit h) _), u => Prepared s h u
  | _, _ => True

abbrev heedful (s : Settings) : Surroundings interface :=
  watched (Announces s)

theorem announces_silent (r : Request) (u : Transcript interface) (hr : r.Silent) : Announces s r u := by
  unfold Announces
  split
  · exact hr.elim
  · trivial

theorem upholds_silent {p : Activity α} (hp : p.Only Request.Silent) :
    p.Upholds (heedful s) anyhow t :=
  upholds_quiet announces_silent hp

theorem attempts_told {c : Store.Call} {Q : c.Result → Transcript interface → Prop}
    (hQ : ∀ value, Q value (t ++ [⟨.store (.call c), .ok value⟩])) :
    Attempts (behind (heedful s))
      (ExceptT.mk (Program.request (I := Repository.interface) (.call c)) : Repository.Action c.Result)
      Q anyhow t := by
  rintro _ rfl
  refine ⟨trivial, fun answer u hu => ?_⟩
  subst hu
  cases answer with
  | ok value => exact hQ value
  | error cause => trivial

theorem attempts_recordTold {Q : Option CommitRecord → Transcript interface → Prop}
    (hnone : Q none (t ++ [⟨.store (.call (.get (key .record h))), .ok none⟩]))
    (hsome : ∀ bytes r, Repository.recordOfBytes bytes = .ok r →
      Q (some r) (t ++ [⟨.store (.call (.get (key .record h))), .ok (some bytes)⟩])) :
    Attempts (behind (heedful s)) (Repository.record h) Q anyhow t := by
  unfold Repository.record Repository.get
  refine attempts_bind.2 (attempts_told fun value => ?_)
  cases value with
  | none => exact hnone
  | some bytes =>
    cases hread : Repository.recordOfBytes bytes with
    | error e =>
      simp only [hread]
      trivial
    | ok r =>
      simp only [hread]
      exact hsome bytes r hread

theorem attempts_nowTold {Q : Int64 → Transcript interface → Prop}
    (hQ : ∀ time, Q time (t ++ [⟨.store .clock, time⟩])) :
    Attempts (behind (heedful s)) Repository.now Q anyhow t := by
  refine (attempts_lift _).2 ?_
  rintro _ rfl
  refine ⟨trivial, fun time u hu => ?_⟩
  subst hu
  exact hQ time

theorem attempts_storeSeedTold : Attempts (behind (heedful s)) (Repository.storeSeed h seed)
    (fun _ u => ∃ v, u = t ++ v ∧ Stored h seed v) anyhow t := by
  unfold Repository.storeSeed Repository.putRecord Repository.set
  refine attempts_bind.2 (attempts_told fun _ => ?_)
  refine attempts_bind.2 (attempts_recordTold ?_ fun bytes r _ => ?_)
  · refine attempts_bind.2 (attempts_nowTold fun time => attempts_told fun _ => ?_)
    simp only [List.append_assoc]
    refine ⟨_, rfl, ?_, by simp, .inr ⟨(CommitRecord.mk .created none time).encode, by simp⟩⟩
    simp [Untroubled, storeFailed]
  · rw [List.append_assoc]
    refine ⟨_, rfl, ?_, by simp, .inl ⟨bytes, by simp⟩⟩
    simp [Untroubled, storeFailed]

theorem attempts_markPendingTold : Attempts (behind (heedful s)) (Repository.markPending h)
    (fun _ u => ∃ v, u = t ++ v ∧ Untroubled v ∧ MarkTried h v) anyhow t := by
  unfold Repository.markPending Repository.status Repository.set
  refine attempts_bind.2 (attempts_bind.2 (attempts_recordTold ?_ fun bytes r hread => ?_))
  · refine attempts_bind.2 (attempts_told fun _ => ?_)
    rw [List.append_assoc]
    refine ⟨_, rfl, ?_, .inl (by simp)⟩
    simp [Untroubled, storeFailed]
  · simp only [Option.map_some, attempts_pure]
    split
    · rename_i hfinal
      refine ⟨_, rfl, ?_, .inr ⟨bytes, r, by simp, hread, hfinal⟩⟩
      simp [Untroubled, storeFailed]
    · refine attempts_bind.2 (attempts_told fun _ => ?_)
      rw [List.append_assoc]
      refine ⟨_, rfl, ?_, .inl (by simp)⟩
      simp [Untroubled, storeFailed]

theorem Stored.append (hu : Stored h seed u) (hv : Untroubled v) : Stored h seed (u ++ v) where
  untroubled := hu.untroubled.append hv
  seed := List.mem_append_left v hu.seed
  record := by
    rcases hu.record with ⟨bytes, hmem⟩ | ⟨value, hmem⟩
    · exact .inl ⟨bytes, List.mem_append_left v hmem⟩
    · exact .inr ⟨value, List.mem_append_left v hmem⟩

theorem MarkTried.mono (hu : MarkTried h u) (hsubset : u ⊆ v) : MarkTried h v := by
  rcases hu with hmem | ⟨bytes, r, hmem, hr⟩
  · exact .inl (hsubset hmem)
  · exact .inr ⟨bytes, r, hsubset hmem, hr⟩

theorem Prepared.append (hu : Prepared s h u) (hv : Untroubled v) : Prepared s h (u ++ v) := by
  obtain ⟨stored, marked⟩ := hu
  rw [List.append_assoc, List.cons_append, List.cons_append]
  exact .intro (stored.append hv) (marked.mono (List.subset_append_left _ v))

/-- From the count of transactions to the nonce nothing is stored, so what was prepared stays so. -/
theorem upholds_submitTold (hprepared : Prepared s h t) :
    (submit s (.commit h)).Upholds (heedful s) anyhow t := by
  have hcount : (observedCount s).Upholds (heedful s) (fun _ u => Prepared s h u) t := by
    unfold observedCount
    refine upholds_watched.2 ⟨trivial, fun answer => ?_⟩
    have hread := hprepared.append (v := [⟨.chain (.transactionCount s.agent), answer⟩])
      (by simp [Untroubled, storeFailed])
    cases answer with
    | ok count => exact hread
    | error cause =>
      refine upholds_watched.2 ⟨trivial, fun _ => ?_⟩
      exact hread.append (by simp [Untroubled, storeFailed])
  have htake (observed : Option Word) {u : Transcript interface} (hu : Prepared s h u) :
      (takeNonce observed).Upholds (heedful s) (fun _ u => Prepared s h u) u := by
    unfold takeNonce
    refine upholds_watched.2 ⟨trivial, fun answer => ?_⟩
    cases answer with
    | ok nonce => exact hu.append (by simp [Untroubled, storeFailed])
    | error f => exact upholds_watched.2 ⟨trivial, fun never => nomatch never⟩
  unfold submit
  refine hcount.bind fun observed u hu => (htake observed hu).bind fun nonce u hu => ?_
  refine upholds_watched.2 ⟨hu, fun answer => ?_⟩
  apply upholds_silent
  cases answer with
  | ok tx => trivial
  | error cause => exact (only_releaseNonce coversSending_silent nonce).bind fun _ => trivial

theorem attempts_silent {x : Attempt α} (hx : Silent x) :
    Attempts (heedful s) x anyhow anyhow t :=
  (upholds_silent hx).imp fun outcome _ _ => by cases outcome <;> trivial

theorem attempts_issueCommitTold (s : Settings) (t : Transcript interface) :
    Attempts (heedful s) (issueCommit s) anyhow anyhow t := by
  unfold issueCommit freshSeed
  refine attempts_bind.2 ((attempts_lift _).2 (upholds_watched.2 ⟨trivial, fun entropy => ?_⟩))
  refine attempts_bind.2 (upholds_watched.2 ⟨trivial, fun answer => ?_⟩)
  cases answer with
  | error cause => trivial
  | ok h =>
    refine attempts_bind.2 ((attempts_repository _ _ _).2 ?_)
    refine attempts_storeSeedTold.imp ?_ fun _ _ _ => trivial
    rintro _ _ ⟨told, rfl, hstored⟩
    refine attempts_bind.2 (attempts_discard.2 ((attempts_repository _ _ _).2 ?_))
    refine attempts_markPendingTold.imp ?_ fun _ _ _ => trivial
    rintro _ _ ⟨marking, rfl, hcalm, hmarked⟩
    have hprepared : Prepared s h (t ++ ⟨.entropy, entropy⟩ ::
        ⟨.chain (.computeCommitHash (seedOf s.agent entropy)), .ok h⟩ :: (told ++ marking)) :=
      .intro (hstored.append hcalm) (hmarked.mono (List.subset_append_right told marking))
    simp only [List.append_assoc, List.cons_append, List.nil_append]
    refine attempts_bind.2 ((attempts_lift _).2 ?_)
    -- after the node's answer nothing more is sent
    refine (upholds_submitTold hprepared).imp fun answer u _ => ?_
    have hsilent : Silent (answerCommit s h answer) := silent_answerCommit answer
    cases answer <;> exact attempts_silent hsilent

theorem upholds_commitTickTold (s : Settings) (t : Transcript interface) :
    (commitTick s).Upholds (heedful s) anyhow t := by
  unfold commitTick
  refine (upholds_silent (silent_ask (r := .memory .queueDepth) trivial)).bind fun depth u _ => ?_
  split
  · refine Upholds.bind (attempts_issueCommitTold s u) fun outcome v _ => upholds_silent ?_
    cases outcome with
    | ok _ => trivial
    | error cause => exact silent_notify _
  · trivial

/-- Wherever a task is about to send a commit, the commit has been prepared. -/
theorem prepared_of_reachable {σ : System} (hr : System.Reachable s σ) {i : Nat} {nonce : Word}
    {next : Except ChainError TxHash → Activity (Option Routine)}
    (task : σ.tasks[i]? = some (.running (.ask (.chain (.submit (.commit h) nonce)) next))) :
    Prepared s h (answersOf i σ.shared.trace) :=
  asked_of_commitTick (P := Announces s) announces_silent (upholds_commitTickTold s) hr task

end Preparation

end CommitReveal.Agent
