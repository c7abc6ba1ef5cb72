import CommitReveal.Agent.Lifecycle
import CommitReveal.Proofs.RevealRules

/-! Every turn of every task keeps to the conduct, and so does whatever may be started. What an agent
has done in any interleaving is therefore in order. -/
namespace CommitReveal.Agent

open Program
open Repository (Field key Seeded Marked Recorded)

variable {s : Settings} {i : Nat} {σ τ : Shared} {h : Hash}

theorem attempts_onSubscribed (hord : Orderly s σ) (consumer : Address) :
    Attempts (room s i) (onSubscribed consumer h) anyhow anyhow σ := by
  unfold onSubscribed
  refine hord.andThenStore (attempts_seed hord) ?_
  rintro seed τ ⟨hget, hτstore⟩ hτ _
  split
  · rename_i hsome
    have hseeded : Seeded τ.store h := seeded_of_seed hget hτstore hsome
    refine hτ.andThenStore (attempts_isPending hτ) fun pending υ _ hυ hτυ => ?_
    split
    · refine hυ.andThenNotify (fun _ => trivial) fun _ ω hω hυω => ?_
      exact (attempts_lift _).2 (upholds_requestReveal hω ((hτυ.trans hυω).seeded h hseeded))
    · trivial
  · trivial

theorem attempts_onCommitRegistered (hord : Orderly s σ) (block : Word) (mode : ScanMode) :
    Attempts (room s i) (onCommitRegistered h block mode) anyhow anyhow σ := by
  have backfill {τ : Shared} (hτ : Orderly s τ) (hseeded : Seeded τ.store h) :
      Attempts (room s i) (requestReveal h : Attempt Unit) anyhow anyhow τ :=
    (attempts_lift _).2 (upholds_requestReveal hτ hseeded)
  have live {τ : Shared} (hτ : Orderly s τ) (hseeded : Seeded τ.store h) :
      Attempts (room s i) (discard <| ask (.spawn (.delayedReveal h)) : Attempt Unit)
        anyhow anyhow τ := by
    refine attempts_discard.2 ((attempts_lift _).2 ?_)
    exact upholds_ignored hτ fun _ _ hon => hon.seeded h hseeded
  unfold onCommitRegistered
  refine hord.andThenStore (attempts_seed hord) ?_
  rintro seed τ ⟨hget, hτstore⟩ hτ _
  split
  · rename_i hsome
    have hseeded : Seeded τ.store h := seeded_of_seed hget hτstore hsome
    refine hτ.andThenStore (attempts_setCommitBlock hτ block) fun _ υ _ hυ hτυ => ?_
    refine hυ.andThenStore (attempts_isPending hυ) fun pending ω _ hω hυω => ?_
    split
    · refine hω.andThenStore (attempts_status hω) fun status ρ _ hρ hωρ => ?_
      have hseededρ : Seeded ρ.store h := (((hτυ.trans hυω).trans hωρ)).seeded h hseeded
      dsimp only
      split
      · have hset := attempts_setStatus (i := i) (h := h) hρ .pendingReveal
          fun hfinal => nomatch hfinal
        refine hρ.andThenDiscard hset fun _ ρ' _ hρ' hon => ?_
        cases mode with
        | backfill => exact backfill hρ' (hon.seeded h hseededρ)
        | live => exact live hρ' (hon.seeded h hseededρ)
      · cases mode with
        | backfill => exact backfill hρ hseededρ
        | live => exact live hρ hseededρ
    · trivial
  · trivial

def Witnessed (s : Settings) (event : OracleEvent) (t : Trace) : Prop :=
  ∀ h seed, event = .seedRevealed s.agent h seed → Published s h seed t

theorem attempts_triggerReveal (hord : Orderly s σ) {event : OracleEvent} (mode : ScanMode)
    (hevent : Witnessed s event σ.trace) (hconcerns : concerns s.agent event) :
    Attempts (room s i) (triggerReveal event mode) anyhow anyhow σ := by
  unfold triggerReveal
  cases event with
  | subscribed committer consumer hash => exact attempts_onSubscribed hord consumer
  | commitRegistered sender hash block => exact attempts_onCommitRegistered hord block mode
  | seedRevealed committer hash seed =>
    have howner : committer = s.agent := of_decide_eq_true hconcerns
    have hpublished : Published s hash seed σ.trace := hevent hash seed (by rw [howner])
    rw [attempts_repository]
    refine attempts_markRevealed hord _ hpublished.released fun sd hsd => ?_
    cases hsd
    exact .inr hpublished
  | unsubscribed consumer hash => trivial
  | randomConsumed consumer hash => trivial

theorem upholds_handleAll (hord : Orderly s σ) {event : OracleEvent} (mode : ScanMode)
    (hevent : Witnessed s event σ.trace) (hconcerns : concerns s.agent event)
    (handlers : List Handler) : (handleAll event mode handlers).Upholds (room s i) anyhow σ := by
  induction handlers generalizing σ with
  | nil => trivial
  | cons handler rest ih =>
    have hone : (handle handler event mode).Upholds (room s i) anyhow σ := by
      cases handler with
      | revealTrigger =>
        refine Upholds.imp (attempts_triggerReveal hord mode hevent hconcerns) fun _ _ _ => trivial
      | outside name => exact upholds_ignored hord fun _ _ _ => trivial
    have go {τ : Shared} (hτ : Orderly s τ) (hon : Onward s σ τ) :
        (handleAll event mode rest).Upholds (room s i) anyhow τ :=
      ih hτ fun h seed heq => (hevent h seed heq).mono hon.trace
    unfold handleAll
    refine hord.andThenTask hone fun outcome τ _ hτ hστ => ?_
    cases outcome with
    | ok _ => exact go hτ hστ
    | error cause =>
      refine hτ.andThenTask (upholds_notify hτ fun _ => trivial) fun _ υ _ hυ hτυ => ?_
      exact go hυ (hστ.trans hτυ)

def Read (s : Settings) (logs : List EventLog) (t : Trace) : Prop :=
  ∀ log ∈ logs, ∀ event, OracleEvent.ofLog? log.topics log.data = some event → Witnessed s event t

theorem Read.mono {logs : List EventLog} {t t' : Trace} (hr : Read s logs t) (ht : t <:+ t') :
    Read s logs t' :=
  fun log hlog event hevent h seed heq => (hr log hlog event hevent h seed heq).mono ht

theorem upholds_dispatch (hord : Orderly s σ) (handlers : List Handler) {log : EventLog}
    (mode : ScanMode) (hread : Read s [log] σ.trace) :
    (dispatch s.agent handlers log mode).Upholds (room s i) anyhow σ := by
  unfold dispatch
  split
  · trivial
  · rename_i event hevent
    have hwitnessed := hread log List.mem_cons_self event hevent
    split
    · rename_i hconcerns
      have hall := upholds_handleAll (i := i) hord mode hwitnessed hconcerns handlers
      exact hord.andThenTask hall fun _ _ _ _ _ => trivial
    · trivial

theorem upholds_dispatchAll (hord : Orderly s σ) (handlers : List Handler) (mode : ScanMode)
    (progress : Progress) {logs : List EventLog} (hread : Read s logs σ.trace) :
    (dispatchAll s.agent handlers mode progress logs).Upholds (room s i) anyhow σ := by
  induction logs generalizing σ progress with
  | nil => trivial
  | cons log rest ih =>
    have hfirst : Read s [log] σ.trace := by
      intro l hl
      exact hread l (List.mem_singleton.1 hl ▸ List.mem_cons_self)
    refine hord.andThenTask (upholds_dispatch hord handlers mode hfirst) fun outcome τ _ hτ hon => ?_
    exact ih hτ _ (Read.mono (fun l hl => hread l (List.mem_cons_of_mem log hl)) hon.trace)

theorem read_of_answered {window : ScanWindow} {initial limit : Duration} {logs : List EventLog}
    (ha : Answered i (.logs window initial limit) σ (some logs) τ) : Read s logs τ.trace := by
  intro log hlog event hevent h seed heq
  exact ⟨_, ha.mem, .logged hlog (heq ▸ hevent)⟩

theorem allows_recordWindow {p p' : Progress} {w : ScanWindow} {ns : List Notice}
    (hrecord : p.recordWindow w = .ok (p', ns)) : ∀ n ∈ ns, ∀ τ, Allows s (.notify n) τ := by
  unfold Progress.recordWindow at hrecord
  cases hgap : p.gapBefore w with
  | error f =>
    rw [hgap] at hrecord
    cases hrecord
  | ok gap =>
    rw [hgap] at hrecord
    cases hrecord
    rcases gap with _ | ⟨before, after⟩
    · exact fun n hn => nomatch hn
    · intro n hn τ
      obtain rfl := List.mem_singleton.1 hn
      trivial

theorem allows_log (p : Progress) (force : Bool) :
    ∀ n ∈ (p.log force).2, ∀ τ, Allows s (.notify n) τ := by
  unfold Progress.log
  split
  · intro n hn τ
    obtain rfl := List.mem_singleton.1 hn
    trivial
  · exact fun n hn => nomatch hn

theorem upholds_persistCursor (hord : Orderly s σ) (cursor : Word) (window : ScanWindow)
    (logs : List EventLog) : (persistCursor cursor window logs).Upholds (room s i) anyhow σ := by
  unfold persistCursor
  have hset := (upholds_callRepository (E := room s i) _ _ _).2
    (attempts_setCursor (σ := σ) (i := i) cursor)
  refine hord.andThenTask hset fun answer τ _ hτ _ => ?_
  cases answer with
  | error cause => exact upholds_notify hτ fun _ => trivial
  | ok _ =>
    dsimp only
    split
    · exact upholds_notify hτ fun _ => trivial
    · trivial

theorem upholds_scanWindow (hord : Orderly s σ) (e : EventSync) (window : ScanWindow)
    {logs : List EventLog} (hread : Read s logs σ.trace) :
    (scanWindow s e window logs).Upholds (room s i) anyhow σ := by
  unfold scanWindow
  have hordered : Read s (inChainOrder logs) σ.trace :=
    fun log hlog => hread log (List.mem_mergeSort.1 hlog)
  refine hord.andThenTask (upholds_dispatchAll hord e.handlers window.mode e.progress hordered)
    fun progress τ _ hτ _ => ?_
  split
  · rename_i cursor _
    refine hτ.andThenTask (upholds_persistCursor hτ cursor window logs) fun _ υ _ hυ _ => ?_
    refine hυ.andThenTask (upholds_orAbort _) fun recorded ω hrecorded hω _ => ?_
    obtain ⟨hrecorded, -⟩ := hrecorded
    refine hω.andThenTask (upholds_notifyAll hω (allows_recordWindow hrecorded)) fun _ ρ _ hρ _ => ?_
    exact hρ.andThenTask (upholds_notifyAll hρ (allows_log _ _)) fun _ _ _ _ _ => trivial
  · exact upholds_abort _

theorem upholds_idle (hord : Orderly s σ) : (idle s).Upholds (room s i) anyhow σ := by
  unfold idle
  refine hord.andThenTask (upholds_ignored hord fun _ _ _ => trivial) fun now τ _ hτ _ => ?_
  refine hτ.andThenTask (upholds_ignored hτ fun _ _ _ => trivial) fun wake _ _ _ _ => ?_
  cases wake <;> trivial

theorem upholds_scanStep (hord : Orderly s σ) (e : EventSync) :
    (scanStep s e).Upholds (room s i) anyhow σ := by
  unfold scanStep callChain
  have rest {τ : Shared} (hτ : Orderly s τ) :
      Upholds (room s i) (do return (← idle s, e) : Activity (StepOutcome × EventSync)) anyhow τ :=
    hτ.andThenTask (upholds_idle hτ) fun _ _ _ _ _ => trivial
  refine hord.andThenTask (upholds_ignored hord fun _ _ _ => trivial) fun answer τ _ hτ _ => ?_
  cases answer with
  | error cause =>
    exact hτ.andThenTask (upholds_notify hτ fun _ => trivial) fun _ υ _ hυ _ => rest hυ
  | ok head =>
    refine hτ.andThenTask (upholds_orAbort _) fun window υ _ hυ _ => ?_
    cases window with
    | none => exact rest hυ
    | some window =>
      refine hυ.andThenTask (upholds_answered hυ fun _ _ _ => trivial) fun logs ω ha hω _ => ?_
      cases logs with
      | none => trivial
      | some logs =>
        refine hω.andThenTask (upholds_scanWindow hω e window (read_of_answered ha)) ?_
        exact fun _ _ _ _ _ => trivial

theorem next_of_ready {r : Routine} (hready : ∀ τ, Ready r τ) : (conduct s).Next (some r) σ :=
  fun _ heq => Option.some.inj heq ▸ hready σ

theorem next_none : (conduct s).Next none σ :=
  fun _ heq => nomatch heq

theorem upholds_closeScan (hord : Orderly s σ) (e : EventSync) :
    (closeScan e).Upholds (room s i) anyhow σ := by
  unfold closeScan
  refine hord.andThenTask (upholds_notifyAll hord (allows_log _ _)) fun _ τ _ hτ _ => ?_
  exact upholds_notify hτ fun _ => trivial

theorem upholds_scanTurn (hord : Orderly s σ) (e : EventSync) (started : Bool) :
    (scanTurn s e started).Upholds (room s i) (conduct s).Next σ := by
  have stop {e : EventSync} {τ : Shared} (hτ : Orderly s τ) :
      Upholds (room s i) (do closeScan e; return none : Activity (Option Routine))
        (conduct s).Next τ :=
    hτ.andThenTask (upholds_closeScan hτ e) fun _ _ _ _ _ => next_none
  have go {τ : Shared} (hτ : Orderly s τ) :
      (scanTurn s e true).Upholds (room s i) (conduct s).Next τ := by
    refine hτ.andThenTask (upholds_ignored hτ fun _ _ _ => trivial) fun cancelled υ _ hυ _ => ?_
    split
    · exact stop hυ
    · refine hυ.andThenTask (upholds_scanStep hυ e) fun stepped ω _ hω _ => ?_
      dsimp only
      split
      · exact stop hω
      · exact next_of_ready fun _ => trivial
  unfold scanTurn
  cases started with
  | true => exact go hord
  | false => exact hord.andThenTask (upholds_notify hord fun _ => trivial) fun _ τ _ hτ _ => go hτ

theorem upholds_awaitTick (hord : Orderly s σ) (period : Nat) (ticker : Option Ticker) :
    (awaitTick period ticker).Upholds (room s i) anyhow σ := by
  have wait {t : Ticker} {τ : Shared} (hτ : Orderly s τ) :
      (awaitTick period (some t)).Upholds (room s i) anyhow τ := by
    show Upholds (room s i) ((ask (.pauseUntil t.due)).bind _) anyhow τ
    refine hτ.andThenTask (upholds_ignored hτ fun _ _ _ => trivial) fun wake υ _ hυ _ => ?_
    cases wake with
    | cancelled => trivial
    | due =>
      exact hυ.andThenTask (upholds_ignored hυ fun _ _ _ => trivial) fun _ _ _ _ _ => trivial
  unfold awaitTick
  cases ticker with
  | some t => exact wait hord
  | none =>
    refine hord.andThenTask (upholds_ignored hord fun _ _ _ => trivial) fun now τ _ hτ _ => ?_
    exact hτ.andThenTask (upholds_orAbort _) fun t υ _ hυ _ => wait hυ

theorem upholds_workerTurn (hord : Orderly s σ) (started : Bool) :
    (workerTurn s started).Upholds (room s i) (conduct s).Next σ := by
  unfold workerTurn
  cases started with
  | false =>
    refine hord.andThenTask (upholds_ignored hord fun _ _ _ => trivial) fun taken τ _ hτ _ => ?_
    cases taken with
    | true => exact next_of_ready fun _ => trivial
    | false => exact hτ.andThenTask (upholds_notify hτ fun _ => trivial) fun _ _ _ _ _ => next_none
  | true =>
    refine hord.andThenTask (upholds_answered hord fun _ _ _ => trivial) fun next τ ha hτ _ => ?_
    cases next with
    | none =>
      exact hτ.andThenTask (upholds_ignored hτ fun _ _ _ => trivial) fun _ _ _ _ _ => next_none
    | some hash =>
      have hseeded : Seeded τ.store hash := hτ.named hash (.taken ha.mem)
      refine hτ.andThenTask (upholds_processReveal hτ hseeded) fun _ _ _ _ _ => ?_
      exact next_of_ready fun _ => trivial

theorem upholds_delayedRevealTurn (hord : Orderly s σ) (hseeded : Seeded σ.store h) :
    (delayedRevealTurn s h).Upholds (room s i) (conduct s).Next σ := by
  unfold delayedRevealTurn
  refine hord.andThenTask (upholds_ignored hord fun _ _ _ => trivial) fun now τ _ hτ hστ => ?_
  refine hτ.andThenTask (upholds_ignored hτ fun _ _ _ => trivial) fun wake υ _ hυ hτυ => ?_
  cases wake with
  | cancelled => exact next_none
  | due =>
    have hseededυ : Seeded υ.store h := (hστ.trans hτυ).seeded h hseeded
    exact hυ.andThenTask (upholds_requestReveal hυ hseededυ) fun _ _ _ _ _ => next_none

theorem upholds_turn (hord : Orderly s σ) (r : Routine) (hready : Ready r σ) :
    (r.turn s).Upholds (room s i) (conduct s).Next σ := by
  cases r with
  | revealWorker started => exact upholds_workerTurn hord started
  | commitTimer ticker =>
    refine hord.andThenTask (upholds_awaitTick hord _ ticker) fun next τ _ hτ _ => ?_
    cases next with
    | none => exact next_none
    | some next =>
      refine hτ.andThenTask (upholds_commitTick hτ) fun _ _ _ _ _ => ?_
      exact next_of_ready fun _ => trivial
  | reconcileTimer ticker =>
    refine hord.andThenTask (upholds_awaitTick hord _ ticker) fun next τ _ hτ _ => ?_
    cases next with
    | none => exact next_none
    | some next =>
      refine hτ.andThenTask (upholds_reconcileTick hτ) fun _ _ _ _ _ => ?_
      exact next_of_ready fun _ => trivial
  | scan e started => exact upholds_scanTurn hord e started
  | delayedReveal h => exact upholds_delayedRevealTurn hord hready
  | stopAfter ms =>
    refine hord.andThenTask (upholds_ignored hord fun _ _ _ => trivial) fun _ τ _ hτ _ => ?_
    exact hτ.andThenTask (upholds_ignored hτ fun _ _ _ => trivial) fun _ _ _ _ _ => next_none

theorem attempts_prepare (hord : Orderly s σ) (allowance : Nat) :
    Attempts (room s i) (prepare s allowance) anyhow anyhow σ := by
  unfold prepare
  refine hord.andThenTask (attempts_approveAllowance hord allowance) fun answer _ _ _ _ => ?_
  cases answer <;> trivial

theorem upholds_bootstrapCursor (hord : Orderly s σ) (b : Bootstrap) :
    (bootstrapCursor b).Upholds (room s i) anyhow σ :=
  hord.andThenTask (upholds_notify hord fun _ => trivial) fun _ _ _ _ _ => trivial

theorem attempts_resolveCursor (hord : Orderly s σ) (b : Bootstrap) :
    Attempts (room s i) (resolveCursor b) anyhow anyhow σ := by
  unfold resolveCursor
  refine hord.andThenStore (attempts_cursor hord) fun cursor τ _ hτ _ => ?_
  cases cursor with
  | some cursor => exact hτ.andThenNotify (fun _ => trivial) fun _ _ _ _ => trivial
  | none =>
    dsimp only
    cases b.deployTx with
    | none => exact (attempts_lift _).2 (upholds_bootstrapCursor hτ b)
    | some tx =>
      have hblock := attempts_chain (i := i) (c := .blockOfTransaction tx) hτ fun _ _ _ => trivial
      refine hτ.andThenAttempt hblock fun block υ _ hυ _ => ?_
      cases block with
      | some block => exact hυ.andThenNotify (fun _ => trivial) fun _ _ _ _ => trivial
      | none =>
        refine hυ.andThenNotify (fun _ => trivial) fun _ ω hω _ => ?_
        exact (attempts_lift _).2 (upholds_bootstrapCursor hω b)

theorem upholds_spawnAll (hord : Orderly s σ) {rs : List Routine}
    (hready : ∀ r ∈ rs, ∀ τ, Ready r τ) : (spawnAll rs).Upholds (room s i) anyhow σ := by
  induction rs generalizing σ with
  | nil => trivial
  | cons r rest ih =>
    have hask := upholds_ignored (i := i) (r := .spawn r) hord
      fun τ _ _ => hready r List.mem_cons_self τ
    refine hord.andThenTask hask fun task τ _ hτ _ => ?_
    have hrest := ih hτ fun r' hr' => hready r' (List.mem_cons_of_mem r hr')
    exact hτ.andThenTask hrest fun _ _ _ _ _ => trivial

theorem ready_routines (cursor confirmations : Word) :
    ∀ r ∈ routines cursor confirmations, ∀ τ, Ready r τ := by
  intro r hr τ
  simp only [routines, List.mem_cons, List.not_mem_nil, or_false] at hr
  rcases hr with rfl | rfl | rfl | rfl <;> trivial

theorem attempts_startUp (hord : Orderly s σ) (allowance : Nat) (b : Bootstrap)
    (confirmations : Word) :
    Attempts (room s i) (startUp s allowance b confirmations) anyhow anyhow σ := by
  unfold startUp start
  refine hord.andThenAttempt (attempts_prepare hord allowance) fun _ τ _ hτ _ => ?_
  refine hτ.andThenAttempt (attempts_resolveCursor hτ b) fun cursor υ _ hυ _ => ?_
  refine hυ.andThenLift (upholds_reconcileTick hυ) fun _ ω _ hω _ => ?_
  have hspawn := upholds_spawnAll (i := i) hω (ready_routines cursor confirmations)
  refine hω.andThenLift hspawn fun tasks ρ _ hρ _ => ?_
  exact hρ.andThenNotify (fun _ => trivial) fun _ _ _ _ => trivial

theorem upholds_job (hord : Orderly s σ) (job : Job) :
    (job.program s).Upholds (room s i) (conduct s).Next σ := by
  cases job with
  | startUp allowance b confirmations =>
    have hstart := attempts_startUp (i := i) hord allowance b confirmations
    exact hord.andThenTask hstart fun _ _ _ _ _ => next_none
  | worker => exact upholds_turn hord (.revealWorker false) trivial
  | commits => exact upholds_turn hord (.commitTimer none) trivial
  | reconciles => exact upholds_turn hord (.reconcileTimer none) trivial
  | scan cursor handlers confirmations =>
    exact upholds_turn hord (.scan (.start cursor handlers confirmations) false) trivial

theorem conduct_kept (s : Settings) : (conduct s).Kept where
  turn _ r _ hord hready := upholds_turn hord r hready
  job _ j _ hord := upholds_job hord j

theorem orderly_start {store : Store.Backend} (hempty : ∀ k, store.get? k = none) :
    Orderly s (System.start s store).shared where
  ledger := by
    refine ⟨fun h bytes hget => ?_, fun h bytes hget => ?_, fun h hm => ?_⟩
    · cases (hempty _).symm.trans hget
    · cases (hempty _).symm.trans hget
    · unfold Marked at hm
      rw [show (System.start s store).shared.store = store from rfl, hempty] at hm
      cases hm
  accepted := fun _ _ ⟨_, _, hmem⟩ => nomatch hmem
  named _ hnamed := by
    cases hnamed with
    | waiting mem => cases mem
    | deferred mem => cases mem
    | taken mem => cases mem
    | delayed mem => cases mem

theorem holds_of_reachable {σ : System} (hr : System.Reachable s σ) : (conduct s).Holds σ := by
  obtain ⟨store, hempty, hleads⟩ := hr
  have hstart := Contract.holds_start (C := conduct s) (orderly_start hempty)
  exact (hstart.leads (conduct_kept s) hleads).1

/-- However the tasks of an agent interleave, fail and crash, what they leave is in order. -/
theorem orderly_of_reachable {σ : System} (hr : System.Reachable s σ) : Orderly s σ.shared :=
  (holds_of_reachable hr).inv

theorem allows_of_reachable {σ : System} (hr : System.Reachable s σ) {r : Request}
    {next : r.Answer → Activity (Option Routine)} (task : σ.tasks[i]? = some (.running (.ask r next))) :
    Allows s r σ.shared := by
  have hup := ((holds_of_reachable hr).fine i _ task).1
  exact (hup σ.shared (Contract.meanwhile_refl (orderly_of_reachable hr))).1

theorem onward_of_leads {σ τ : System} (hr : System.Reachable s σ) (hleads : System.Leads s σ τ) :
    Onward s σ.shared τ.shared :=
  ((holds_of_reachable hr).leads (conduct_kept s) hleads).2

end CommitReveal.Agent
