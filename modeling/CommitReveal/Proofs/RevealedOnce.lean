import CommitReveal.Proofs.MinedReveals
import CommitReveal.Proofs.Tidiness
import Mathlib.Data.List.Nodup

/-! No hash is revealed twice. Before the receiver sends a reveal it has found the status of the hash open,
so that none of the hash was mined before; and when one is mined, the status is closed before the receiver
waits again. -/
namespace CommitReveal.Agent

open Program
open Repository (key_ne Recorded Card Shelf Stands Revises recorded_inj peek)

variable {s : Settings} {i j : Nat} {h : Hash} {t : Trace} {e : Event} {σ τ : Shared} {α : Type}
  {P : Trace → Prop}

def Request.Quiet : Request → Prop
  | .chain (.submit (.reveal _ _) _) | .receipt _ _ _ | .memory .takeReceiver => False
  | _ => True

theorem Request.Plain.quiet {r : Request} (hr : r.Plain) : r.Quiet := by
  cases r with
  | chain c =>
    cases c with
    | submit what nonce => cases what <;> exact hr
    | _ => trivial
  | memory q => cases q <;> first | exact hr | trivial
  | receipt tx poll timeout => exact hr
  | _ => trivial

theorem minedReveal?_of_quiet {r : Request} {a : r.Answer} (hr : r.Quiet) :
    minedReveal? (.answered i r a) t = none := by
  refine minedReveal?_of_not_receipt fun j tx poll timeout outcome heq => ?_
  cases heq
  exact hr

theorem sent_of_minedReveal? (hm : minedReveal? e t = some h) : ∃ i seed nonce tx, e.task? = some i ∧
    Event.answered i (.chain (.submit (.reveal h seed) nonce)) (.ok tx) ∈ t := by
  obtain ⟨i, tx, poll, timeout, block, seed, rfl, hlast⟩ := minedReveal?_eq_some hm
  obtain ⟨nonce, hmem⟩ := mem_of_lastSubmission? hlast
  exact ⟨i, seed, nonce, tx, rfl, hmem⟩

theorem minedReveals_apart {between : Trace} (hb : ∀ e ∈ between, e.task? ≠ some i)
    (hsend : ∀ k h seed nonce a,
      Event.answered k (.chain (.submit (.reveal h seed) nonce)) a ∈ between ++ t → k = i) :
    minedReveals (between ++ t) = minedReveals t := by
  induction between with
  | nil => rfl
  | cons e between ih =>
    have hnone : minedReveal? e (between ++ t) = none := by
      rw [Option.eq_none_iff_forall_ne_some]
      intro h hm
      obtain ⟨k, seed, nonce, tx, hk, hmem⟩ := sent_of_minedReveal? hm
      refine hb e List.mem_cons_self ?_
      rw [hk, hsend k h seed nonce _ (List.mem_cons_of_mem e hmem)]
    rw [List.cons_append, minedReveals_cons hnone]
    exact ih (fun e' he' => hb e' (List.mem_cons_of_mem e he'))
      fun k h seed nonce a hmem => hsend k h seed nonce a (List.mem_cons_of_mem e hmem)

theorem lastSubmission?_apart {between : Trace} (hb : ∀ e ∈ between, e.task? ≠ some i) :
    lastSubmission? i (between ++ t) = lastSubmission? i t := by
  induction between with
  | nil => rfl
  | cons e between ih =>
    have hnone : e.submission? i = none := by
      unfold Event.submission?
      split
      · exact if_neg fun heq => hb _ List.mem_cons_self (congrArg some heq)
      · rfl
    rw [List.cons_append, lastSubmission?, List.findSome?_cons, hnone]
    exact ih fun e' he' => hb e' (List.mem_cons_of_mem e he')

/-- What a task has gathered from its session, and neither others nor quiet requests take away. -/
structure Gathers (i : Nat) (P : Trace → Prop) : Prop where
  apart {between t : Trace} {m : Memory} : P t → Single (between ++ t) m →
    (∀ e ∈ between, e.task? ≠ some i) → P (between ++ t)
  quiet {r : Request} {a : r.Answer} {t : Trace} : P t → r.Quiet → P (.answered i r a :: t)

theorem receives_answered {r : Request} {a : r.Answer} (hr : r.Quiet)
    (hi : Receives i (.answered j r a :: t)) : Receives i t := by
  refine (List.mem_cons.1 hi).resolve_left fun heq => ?_
  cases heq
  exact hr

theorem gathers_idle : Gathers i fun t => ¬Receives i t where
  apart ht _ hb hi := ht ((List.mem_append.1 hi).resolve_left fun hmem => hb _ hmem rfl)
  quiet ht hr hi := ht (receives_answered hr hi)

theorem gathers_receiver : Gathers i (Receives i) where
  apart ht _ _ := List.mem_append_right _ ht
  quiet ht _ := List.mem_cons_of_mem _ ht

def Unmined (i : Nat) (h : Hash) (t : Trace) : Prop :=
  Receives i t ∧ h ∉ minedReveals t

def Sending (i : Nat) (h : Hash) (t : Trace) : Prop :=
  Unmined i h t ∧ ∀ k seed tx, lastSubmission? i t = some (.reveal k seed, .ok tx) → k = h

theorem gathers_unmined : Gathers i (Unmined i h) where
  apart ht hs hb := by
    have hi := gathers_receiver.apart ht.1 hs hb
    refine ⟨hi, ?_⟩
    have hsame := minedReveals_apart hb fun k k' seed nonce a hmem =>
      hs.unique k i (hs.sender k k' seed nonce a hmem) hi
    rw [hsame]
    exact ht.2
  quiet ht hr := by
    refine ⟨gathers_receiver.quiet ht.1 hr, ?_⟩
    rw [minedReveals_cons (minedReveal?_of_quiet hr)]
    exact ht.2

theorem gathers_sending : Gathers i (Sending i h) where
  apart ht hs hb := by
    refine ⟨gathers_unmined.apart ht.1 hs hb, ?_⟩
    rw [lastSubmission?_apart hb]
    exact ht.2
  quiet ht hr := by
    refine ⟨gathers_unmined.quiet ht.1 hr, fun k seed tx hlast => ?_⟩
    rcases lastSubmission?_cons_some hlast with ⟨nonce, heq⟩ | hold
    · cases heq
      exact hr.elim
    · exact ht.2 k seed tx hold

abbrev gathered (P : Trace → Prop) (σ : Shared) : Prop :=
  P (session σ.trace)

theorem onceOnly_allows {r : Request} (hr : r.Plain) : (onceOnly s).Allows i r σ := by
  show OnceAllows i r σ
  cases r with
  | store q =>
    cases q with
    | call c =>
      cases c with
      | set k value =>
        intro h new hkey _
        subst hkey
        rcases hr with ⟨k', hkey⟩ | hkey
        · exact absurd hkey (key_ne (by decide) h k')
        · exact absurd hkey (Repository.key_ne_cursorKey _ _)
      | _ => trivial
    | clock => trivial
  | chain c =>
    cases c with
    | submit what nonce => cases what <;> first | exact hr.elim | trivial
    | _ => trivial
  | receipt tx poll timeout => exact hr.elim
  | spawn r =>
    rintro rfl
    cases hr
  | _ => trivial

theorem calm_note (hcalm : (onceOnly s).Calm σ) (hlasts : Lasts σ τ)
    (hmined : minedReveals (session τ.trace) = minedReveals (session σ.trace)) : (onceOnly s).Calm τ := by
  intro h hm
  rw [hmined] at hm
  exact hlasts.final h (hcalm h hm)

theorem session_note {r : Request} {a : r.Answer} (hserved : Served r a σ τ) :
    session (τ.note (.answered i r a)).trace = .answered i r a :: session σ.trace := by
  rw [Shared.trace_note, session_cons rfl, hserved.trace]

theorem calm_answered {r : Request} {a : r.Answer} (hcalm : (onceOnly s).Calm σ) (hserved : Served r a σ τ)
    (hsince : (onceOnly s).Since σ (τ.note (.answered i r a)))
    (hnone : minedReveal? (.answered i r a) (session σ.trace) = none) :
    (onceOnly s).Calm (τ.note (.answered i r a)) := by
  refine calm_note hcalm hsince.onward ?_
  rw [session_note hserved, minedReveals_cons hnone]

theorem Beside.session (hb : Beside i σ τ) : ∃ calls : Trace,
    session τ.trace = calls ++ session σ.trace ∧
      ∀ e ∈ calls, ∃ (r : Repository.Request) (a : r.Answer), e = .answered i (.store r) a := by
  obtain ⟨calls, htrace, hcalls⟩ := hb.trace
  refine ⟨calls, ?_, hcalls⟩
  rw [htrace]
  refine session_append fun e he => ?_
  obtain ⟨r, a, rfl⟩ := hcalls e he
  rfl

theorem Beside.minedReveals (hb : Beside i σ τ) :
    minedReveals (Agent.session τ.trace) = Agent.minedReveals (Agent.session σ.trace) := by
  obtain ⟨calls, hsession, hcalls⟩ := hb.session
  rw [hsession]
  clear hsession
  induction calls with
  | nil => rfl
  | cons e calls ih =>
    obtain ⟨r, a, rfl⟩ := hcalls e List.mem_cons_self
    rw [List.cons_append, minedReveals_cons (minedReveal?_of_quiet (r := .store r) trivial)]
    exact ih fun e' he' => hcalls e' (List.mem_cons_of_mem _ he')

theorem final_of_finished {shelf : Shelf} (hs : Stands σ.store shelf) (hfinished : (shelf h).finished) :
    Final σ h := by
  have hrecord := (hs h).record
  unfold Card.finished Card.status at hfinished
  cases hr : (shelf h).record with
  | none => simp [hr] at hfinished
  | some r =>
    rw [hr] at hrecord hfinished
    exact ⟨r, hrecord, hfinished⟩

theorem terminal_of_final {shelf : Shelf} (hs : Stands σ.store shelf) (hfinal : Final σ h) :
    (shelf h).status.any Status.isTerminal := by
  obtain ⟨r, hr, hterminal⟩ := hfinal
  have hrecord : (shelf h).record = some r := recorded_inj (hs h).record hr
  rw [Card.status, hrecord]
  exact hterminal

abbrev revisesOnly (k : Hash) (new : CommitRecord) (σ : Shared) : Prop :=
  ∀ old, Recorded σ.store k old → Revises False False old new

theorem onceOnly_serves : (onceOnly s).Serves i revisesOnly True where
  allows {r σ} hdesk := by
    show OnceAllows i (.store r) σ
    cases r with
    | call c =>
      cases c with
      | set k value => exact hdesk
      | _ => trivial
    | clock => trivial
  good hgood _ := by simpa [onceOnly, Event.smooth] using hgood

namespace Gathers

variable (hP : Gathers i P)

include hP

theorem stays {r : Request} {a : r.Answer} (hr : r.Quiet) (hσ : (onceOnly s).Home (gathered P) σ)
    (hserved : Served r a σ τ) (hsince : (onceOnly s).Since σ (τ.note (.answered i r a))) :
    (onceOnly s).Calm (τ.note (.answered i r a)) ∧ gathered P (τ.note (.answered i r a)) := by
  refine ⟨calm_answered hσ.calm hserved hsince (minedReveal?_of_quiet hr), ?_⟩
  rw [gathered, session_note hserved]
  exact hP.quiet hσ.own hr

theorem homely : (onceOnly s).Homely i (gathered P) where
  apart {σ τ} hσ hsince ha := by
    obtain ⟨between, hsession, hothers⟩ := Lasts.session_apart hsince.onward ha
    have hsingle : Single (session τ.trace) τ.memory := hsince.inv
    rw [hsession] at hsingle
    rw [gathered, hsession]
    exact hP.apart hσ hsingle hothers
  allows hr _ := onceOnly_allows hr
  keeps hr hσ hserved _ hsince := hP.stays hr.quiet hσ hserved hsince

theorem ask {r : Request} (hr : r.Quiet) (hallows : ∀ σ, OnceAllows i r σ) :
    (onceOnly s).Minds i (gathered P) _ (Agent.ask r) :=
  fun _ hσ => hP.homely.upholds_ask hσ (fun τ _ _ _ => hallows τ)
    fun _ _ _ hτ _ _ hserved _ hsince => hP.stays hr hτ hserved hsince

theorem of_beside (hσ : gathered P σ) (hb : Beside i σ τ) : gathered P τ := by
  obtain ⟨calls, hsession, hcalls⟩ := hb.session
  rw [gathered, hsession]
  clear hsession
  induction calls with
  | nil => exact hσ
  | cons e calls ih =>
    obtain ⟨r, a, rfl⟩ := hcalls e List.mem_cons_self
    exact hP.quiet (ih fun e' he' => hcalls e' (List.mem_cons_of_mem _ he')) trivial

theorem revisory : (onceOnly s).Revisory i revisesOnly True False (gathered P) where
  homely := hP.homely
  serves := onceOnly_serves
  writes := id
  stays hσ hsince hb := ⟨calm_note hσ.calm hsince.onward hb.minedReveals, hP.of_beside hσ.own hb⟩
  scan _ := hP.ask trivial fun _ => trivial

end Gathers

theorem Habit.report {F : (α : Type) → Activity α → Prop} {T : Activity (Option Routine) → Prop}
    (hF : Habit F T) (n : Notice) (a : α) : F _ (do Agent.notify n; return a : Attempt α).run :=
  hF.attempt (hF.lift (hF.notify n)) fun _ => hF.done _

section Parts

variable (s i)

theorem idle_receipt (tx : TxHash) (poll timeout : Nat) :
    (onceOnly s).Minds i (gathered fun t => ¬Receives i t) _ (ask (.receipt tx poll timeout)) := by
  intro σ hσ
  have hnone {τ : Shared} (hτ : (onceOnly s).Home (gathered fun t => ¬Receives i t) τ) (h : Hash)
      (seed : Seed) (a : Except ChainError TxHash) :
      lastSubmission? i (session τ.trace) ≠ some (.reveal h seed, a) := by
    intro hlast
    obtain ⟨nonce, hmem⟩ := mem_of_lastSubmission? hlast
    exact hτ.own (hτ.since.inv.sender i h seed nonce a hmem)
  refine gathers_idle.homely.upholds_ask hσ (fun τ hτ _ _ h seed hlast => absurd hlast (hnone hτ h seed _))
    fun τ a υ hτ _ _ hserved _ hsince => ?_
  have hunmined : minedReveal? (.answered i (.receipt tx poll timeout) a) (session τ.trace) = none := by
    rw [Option.eq_none_iff_forall_ne_some]
    intro h hm
    obtain ⟨k, tx', poll', timeout', block, seed, heq, hlast⟩ := minedReveal?_eq_some hm
    cases heq
    exact hnone hτ h seed _ hlast
  refine ⟨calm_answered hτ.calm hserved hsince hunmined, ?_⟩
  rw [gathered, session_note hserved]
  exact fun hi => hτ.own ((List.mem_cons.1 hi).resolve_left fun heq => nomatch heq)

theorem idle_turns : Habit ((onceOnly s).Minds i (gathered fun t => ¬Receives i t))
    ((onceOnly s).MindsTurn i (gathered fun t => ¬Receives i t)) :=
  gathers_idle.homely.turns fun hr hσ => iff_of_false hr hσ.own

theorem idle_settled : Habit.Settled s ((onceOnly s).Minds i (gathered fun t => ¬Receives i t)) where
  receipt := idle_receipt s i
  scan := (idle_turns s i).scanStep_of_trigger fun _ =>
    (idle_turns s i).triggerReveal gathers_idle.revisory.operations fun _ _ _ _ => trivial
  commit := (idle_turns s i).commitTick (gathers_idle.revisory.issueCommit not_false (idle_receipt s i))
  reconcile := (idle_turns s i).reconcileTick gathers_idle.revisory.operations
    ((idle_turns s i).reconcile gathers_idle.revisory.operations fun _ _ => trivial)

theorem idle_worker :
    (onceOnly s).MindsTurn i (gathered fun t => ¬Receives i t) (workerTurn s false) := by
  intro σ hσ
  have hF := idle_turns s i
  have htake : (ask (.memory .takeReceiver)).Upholds ((onceOnly s).around i) (fun taken τ =>
      (onceOnly s).Calm τ ∧ (Receives i (session τ.trace) ↔ taken = true)) σ := by
    refine gathers_idle.homely.upholds_ask hσ (fun _ _ _ _ => trivial)
      fun τ taken υ hτ _ _ hserved _ hsince => ?_
    refine ⟨calm_answered hτ.calm hserved hsince rfl, ?_⟩
    rw [session_note hserved]
    constructor
    · intro hi
      cases (List.mem_cons.1 hi).resolve_right hτ.own
      rfl
    · rintro rfl
      exact List.mem_cons_self
  refine hσ.andThen htake fun taken τ hτ hsince => ?_
  cases taken with
  | true => exact ⟨hτ.1, fun r heq => Option.some.inj heq ▸ iff_of_true rfl (hτ.2.2 rfl)⟩
  | false =>
    have hidle : ¬Receives i (session τ.trace) := fun hi => nomatch hτ.2.1 hi
    exact hF.last (hF.notify .workerAlreadyRunning) (fun _ => hF.ends) τ ⟨hsince.refl, hτ.1, hidle⟩

theorem receiver_submit (seed : Seed) (hσ : (onceOnly s).Home (gathered (Unmined i h)) σ) :
    (submit s (.reveal h seed)).Upholds ((onceOnly s).around i)
      (fun _ τ => (onceOnly s).Calm τ ∧ gathered (Sending i h) τ) σ := by
  have hU : Habit ((onceOnly s).Minds i (gathered (Unmined i h))) _ := gathers_unmined.homely.parts
  have hS : Habit ((onceOnly s).Minds i (gathered (Sending i h))) _ := gathers_sending.homely.parts
  refine hσ.andThen (hU.observedCount σ hσ) fun count τ hτ hsince => ?_
  have hhome : (onceOnly s).Home (gathered (Unmined i h)) τ := ⟨hsince.refl, hτ.1, hτ.2⟩
  refine hhome.andThen (hU.takeNonce count τ hhome) fun nonce υ hυ hsince => ?_
  have hhome : (onceOnly s).Home (gathered (Unmined i h)) υ := ⟨hsince.refl, hυ.1, hυ.2⟩
  have hsend : (ask (.chain (.submit (.reveal h seed) nonce))).Upholds ((onceOnly s).around i)
      (fun _ τ => (onceOnly s).Calm τ ∧ gathered (Sending i h) τ) υ := by
    refine gathers_unmined.homely.upholds_ask hhome (fun _ hτ _ _ => hτ.own.1)
      fun τ a ω hτ _ _ hserved _ hsince => ?_
    refine ⟨calm_answered hτ.calm hserved hsince rfl, ?_⟩
    rw [gathered, session_note hserved]
    refine ⟨⟨List.mem_cons_of_mem _ hτ.own.1, ?_⟩, fun k seed' tx hlast => ?_⟩
    · rw [minedReveals_cons rfl]
      exact hτ.own.2
    · rw [lastSubmission?, List.findSome?_cons, Event.submission?, if_pos rfl] at hlast
      cases hlast
      rfl
  refine hhome.andThen hsend fun answer ω hω hsince => ?_
  cases answer with
  | ok tx => exact hω
  | error cause =>
    have hrest := hS.bind (hS.releaseNonce nonce) fun _ => hS.done (.error cause : Except ChainError TxHash)
    exact hrest ω ⟨hsince.refl, hω.1, hω.2⟩

theorem receiver_confirm (tx : TxHash) (hσ : (onceOnly s).Home (gathered (Sending i h)) σ) :
    (confirm s tx).Upholds ((onceOnly s).around i) (fun outcome τ => gathered (Receives i) τ ∧
      ∀ k ∈ minedReveals (session τ.trace), Final τ k ∨ k = h ∧ ∃ block, outcome = some ⟨block, true⟩) σ := by
  unfold confirm awaitReceipt
  split
  · have hS : Habit ((onceOnly s).Minds i (gathered (Sending i h))) _ := gathers_sending.homely.parts
    refine hσ.andThen (hS.plain (.abort .zeroPeriod) trivial σ hσ) fun never => nomatch never
  · refine gathers_sending.homely.upholds_ask hσ (fun τ hτ _ _ k seed hlast => ?_)
      fun τ outcome υ hτ _ _ hserved _ hsince => ?_
    · rw [hτ.own.2 k seed _ hlast]
      exact hτ.own.1.2
    · rw [gathered, session_note hserved]
      refine ⟨List.mem_cons_of_mem _ hτ.own.1.1, fun k hk => ?_⟩
      rw [minedReveals] at hk
      rcases List.mem_append.1 hk with hnew | hold
      · obtain ⟨j, tx', poll, timeout, block, seed, heq, hlast⟩ :=
          minedReveal?_eq_some (Option.mem_toList.1 hnew)
        cases heq
        exact .inr ⟨hτ.own.2 k seed _ hlast, block, rfl⟩
      · exact .inl (hsince.onward.final k (hτ.calm k hold))

/-- What the receipt of a reveal leads to: if one was mined, it is closed at once. -/
theorem receiver_settle (seed : Seed) (outcome : Option TxOutcome) (hσ : (onceOnly s).Since σ σ)
    (hown : gathered (Receives i) σ) (hmined : ∀ k ∈ minedReveals (session σ.trace),
      Final σ k ∨ k = h ∧ ∃ block, outcome = some ⟨block, true⟩) :
    Attempts ((onceOnly s).around i) (settleReveal h seed outcome)
      (fun _ τ => (onceOnly s).Calm τ ∧ gathered (Receives i) τ)
      (fun _ τ => (onceOnly s).Calm τ ∧ gathered (Receives i) τ) σ := by
  have hW : Habit ((onceOnly s).Minds i (gathered (Receives i))) _ := gathers_receiver.homely.parts
  have again (n : Notice) (hno : ∀ block, outcome ≠ some ⟨block, true⟩) :
      (do notify n; return .retry : Attempt RevealOutcome).run.Upholds ((onceOnly s).around i)
        (fun _ τ => (onceOnly s).Calm τ ∧ gathered (Receives i) τ) σ := by
    have hcalm : (onceOnly s).Calm σ := fun k hk =>
      (hmined k hk).resolve_right fun ⟨_, block, heq⟩ => hno block heq
    exact hW.report n _ σ ⟨hσ, hcalm, hown⟩
  rcases outcome with _ | ⟨block, _ | _⟩
  · exact upholds_run.1 (again _ fun _ heq => nomatch heq)
  · exact upholds_run.1 (again _ fun _ heq => nomatch heq)
  · obtain ⟨shelf, hs, -⟩ := exists_shelf hσ.base.1
    have hlets : Lets i revisesOnly σ shelf h (Card.markRevealed (some seed)) :=
      (gathers_receiver.revisory (s := s)).lets fun _ _ => Card.revises_markRevealed
    refine onceOnly_serves.andThen hσ (desk_markRevealed hs (some seed) hlets)
      (fun _ _ hno => absurd trivial hno) ?_
    rintro _ τ ⟨time, hturned⟩ hb hsince
    -- the store answers without a wait, so that nobody has seen the hash mined and open
    have hclosed : Final τ h := by
      refine final_of_finished hturned ?_
      rw [Function.update_self]
      exact Card.finished_markRevealed _ time
    have hcalm : (onceOnly s).Calm τ := by
      intro k hk
      rw [hb.minedReveals] at hk
      rcases hmined k hk with hfinal | ⟨rfl, -⟩
      · exact hsince.onward.final k hfinal
      · exact hclosed
    exact upholds_run.1 (hW.report _ _ τ ⟨hsince.refl, hcalm, gathers_receiver.of_beside hown hb⟩)

theorem receiver_submitReveal (seed : Seed) (hσ : (onceOnly s).Home (gathered (Unmined i h)) σ) :
    Attempts ((onceOnly s).around i) (submitReveal s h seed)
      (fun _ τ => (onceOnly s).Calm τ ∧ gathered (Receives i) τ)
      (fun _ τ => (onceOnly s).Calm τ ∧ gathered (Receives i) τ) σ := by
  refine Attempts.andThen ((onceOnly s).carries i) hσ.since
    ((attempts_lift _).2 (receiver_submit s i seed hσ)) fun answer τ hτ hsince => ?_
  have hS : Habit ((onceOnly s).Minds i (gathered (Sending i h))) _ := gathers_sending.homely.parts
  cases answer with
  | error cause =>
    have hrest := hS.report (.revealRefused h cause) RevealOutcome.retry τ ⟨hsince.refl, hτ.1, hτ.2⟩
    exact upholds_run.1 (hrest.imp fun _ _ hυ => ⟨hυ.1, hυ.2.1.1⟩)
  | ok tx =>
    refine Attempts.andThen ((onceOnly s).carries i) hsince.refl
      ((attempts_lift _).2 (hS.notify (.revealing h tx) τ ⟨hsince.refl, hτ.1, hτ.2⟩)) fun _ υ hυ hsince => ?_
    refine Attempts.andThen ((onceOnly s).carries i) hsince.refl
      ((attempts_lift _).2 (receiver_confirm s i tx ⟨hsince.refl, hυ.1, hυ.2⟩)) fun outcome ω hω hsince => ?_
    exact receiver_settle s i seed outcome hsince.refl hω.1 hω.2

theorem receiver_reveal (h : Hash) :
    (onceOnly s).Minds i (gathered (Receives i)) _ (reveal s h).run := by
  intro σ hσ
  have hW : Habit ((onceOnly s).Minds i (gathered (Receives i))) _ := gathers_receiver.homely.parts
  have hR := gathers_receiver.revisory (s := s) (i := i)
  obtain ⟨shelf, hs, -⟩ := exists_shelf hσ.since.base.1
  unfold reveal
  refine upholds_run.2 (onceOnly_serves.andThen hσ.since (desk_status (h := h) hs)
    (fun _ _ hno => absurd trivial hno) ?_)
  rintro st τ ⟨rfl, hτ⟩ hb hsince
  obtain ⟨hcalm, hown⟩ := hR.stays hσ hsince hb
  have hhome : (onceOnly s).Home (gathered (Receives i)) τ := ⟨hsince.refl, hcalm, hown⟩
  split
  · exact upholds_run.1 (hW.attempt (hW.repository hR.clearPending) (fun _ => hW.done _) τ hhome)
  split
  · exact upholds_run.1 (hW.done _ τ hhome)
  · rename_i hopen
    have hunmined : h ∉ minedReveals (session τ.trace) := fun hm =>
      hopen (terminal_of_final (hτ ▸ hs) (hcalm h hm))
    have hU : Habit ((onceOnly s).Minds i (gathered (Unmined i h))) _ := gathers_unmined.homely.parts
    have hseed := upholds_run.1 (hU.seed (h := h) τ ⟨hsince.refl, hcalm, hown, hunmined⟩)
    refine Attempts.andThen ((onceOnly s).carries i) hsince.refl
      (hseed.imp (fun _ _ => id) fun _ _ hυ => ⟨hυ.1, hυ.2.1⟩) fun seed υ hυ hsince => ?_
    have hhome : (onceOnly s).Home (gathered (Unmined i h)) υ := ⟨hsince.refl, hυ.1, hυ.2⟩
    cases seed with
    | none => exact upholds_run.1 ((hU.report _ _ υ hhome).imp fun _ _ hω => ⟨hω.1, hω.2.1⟩)
    | some seed => exact receiver_submitReveal s i seed hhome

theorem receiver_worker :
    (onceOnly s).MindsTurn i (gathered (Receives i)) (workerTurn s true) := by
  intro σ hσ
  have hW : Habit ((onceOnly s).Minds i (gathered (Receives i))) _ := gathers_receiver.homely.parts
  refine hσ.andThen (hW.plain .nextReveal trivial σ hσ) fun next τ hτ hsince => ?_
  have hhome : (onceOnly s).Home (gathered (Receives i)) τ := ⟨hsince.refl, hτ.1, hτ.2⟩
  cases next with
  | some hash =>
    refine hhome.andThen (hW.processReveal (receiver_reveal s i hash) τ hhome) fun _ υ hυ _ => ?_
    exact ⟨hυ.1, fun r heq => Option.some.inj heq ▸ iff_of_true rfl hυ.2⟩
  | none =>
    have hdrop := gathers_receiver.ask (s := s) (i := i) (r := .memory .dropReceiver) trivial fun _ => trivial
    refine hhome.andThen (hdrop τ hhome) fun _ υ hυ _ => ?_
    exact ⟨hυ.1, fun r heq => nomatch heq⟩

theorem onceOnly_kept : (onceOnly s).Kept where
  turn i r σ hsince hcalm hready := by
    by_cases hr : r = .revealWorker true
    · subst hr
      exact receiver_worker s i σ ⟨hsince, hcalm, hready.1 rfl⟩
    · have hhome : (onceOnly s).Home (gathered fun t => ¬Receives i t) σ :=
        ⟨hsince, hcalm, fun hi => hr (hready.2 hi)⟩
      by_cases hworker : ∃ started, r = .revealWorker started
      · obtain ⟨started, rfl⟩ := hworker
        cases started with
        | true => exact absurd rfl hr
        | false => exact idle_worker s i σ hhome
      · exact (idle_turns s i).turn (idle_settled s i) (fun started heq => hworker ⟨started, heq⟩) σ hhome
  job i j σ hsince hcalm hnone := by
    exact (idle_turns s i).job (idle_settled s i) (idle_worker s i) j σ
      ⟨hsince, hcalm, not_receives hnone⟩

end Parts

theorem System.Step.crashed_or {σ τ : System} (hstep : System.Step s σ τ) :
    τ = ⟨σ.shared.crash s, σ.tasks.map fun _ => .ended, none⟩ ∨
      ∀ e, τ.shared.trace = e :: σ.shared.trace → e.isCrash = false := by
  cases hstep with
  | began job free =>
    refine .inr fun e hcons => ?_
    cases (List.cons.inj hcons).1
    rfl
  | turn may task => exact .inr fun e hcons => absurd hcons.symm (List.cons_ne_self _ _)
  | answered may task served =>
    refine .inr fun e hcons => ?_
    cases (List.cons.inj hcons).1
    rfl
  | finished may task => exact .inr fun e hcons => absurd hcons.symm (List.cons_ne_self _ _)
  | crashed => exact .inl rfl

/-- As long as no store call has failed since the agent was started. -/
theorem onceOnly_of_reachable {σ : System} (hr : System.Reachable s σ)
    (hsmooth : ∀ e ∈ session σ.shared.trace, e.smooth) : (onceOnly s).Holds σ := by
  obtain ⟨store, hempty, hleads⟩ := hr
  induction hleads with
  | refl =>
    exact Clause.holds_ended (holds_of_reachable ⟨store, hempty, .refl⟩) (single_nil _)
      (fun _ hm => nomatch hm) (fun _ ht => nomatch ht) fun _ he => nomatch he
  | @tail ρ τ hrun hstep ih =>
    rcases hstep.crashed_or with rfl | hgoes
    · -- a crash ends the session, and nothing has been mined in the next one
      have hreach : System.Reachable s _ := ⟨store, hempty, hrun.tail hstep⟩
      refine Clause.holds_ended (holds_of_reachable hreach) (single_nil _) (fun _ hm => nomatch hm)
        (fun t ht => ?_) (born_of_reachable hreach)
      obtain ⟨_, _, rfl⟩ := List.mem_map.1 ht
      rfl
    · have hbefore : ∀ e ∈ session ρ.shared.trace, e.smooth := by
        rcases hstep.trace with hsame | ⟨e, hcons⟩
        · rwa [hsame] at hsmooth
        · rw [hcons, session_cons (hgoes e hcons)] at hsmooth
          exact fun e' he' => hsmooth e' (List.mem_cons_of_mem e he')
      refine ((ih hbefore).step (conduct_kept s) (onceOnly_kept s) hstep fun e hcons => ?_).1
      rw [hcons, session_cons (hgoes e hcons)] at hsmooth
      exact hsmooth e List.mem_cons_self

/-- From when a hash is finished, nothing more is queued for it and no reveal of it is sent; and as long
as no store call has failed, at most one reveal of it was mined. -/
theorem finished_not_revealed_again {σ : System} (hr : System.Reachable s σ) (h : Hash) :
    (∀ st, peek (Repository.status h) σ.shared.store = .ok (some st) → st.isTerminal →
      ∀ τ, System.Leads s σ τ → ∀ i u, answersOf i τ.shared.trace = answersOf i σ.shared.trace ++ u →
        (∀ log event, OracleEvent.ofLog? log.topics log.data = some event → event.hash = h →
          ∀ handlers mode r next, (dispatch s.agent handlers log mode).Reaches u (.ask r next) →
            r.adds = false) ∧
        ∀ r next, (reveal s h).run.Reaches u (.ask r next) → r.callsChain = false) ∧
    ((∀ e ∈ session σ.shared.trace, e.smooth) → (minedReveals (session σ.shared.trace)).count h ≤ 1) := by
  constructor
  · intro st hst hfinal τ hleads i u hanswers
    have htells := tellsFinal_since hr hst hfinal hleads hanswers
    constructor
    · intro log event hlog hevent handlers mode r next hreach
      exact allowed_of_reaches (telling_dispatch hlog hevent s.agent handlers mode) hreach htells
    · intro r next hreach
      exact allowed_of_reaches telling_reveal hreach htells
  · intro hsmooth
    have hsingle : Single (session σ.shared.trace) σ.shared.memory := (onceOnly_of_reachable hr hsmooth).inv
    exact List.nodup_iff_count_le_one.1 hsingle.nodup h

def confirming : World :=
  .quiet (.fill 32 3) (.ok (.fill 32 4)) (some ⟨some 5, true⟩)

def subscription : OracleEvent :=
  .subscribed usual.agent (.fill 20 9) (.fill 32 3)

def subscribing (head : Word) : World :=
  { confirming with head, logs := [logged subscription] }

/-- The hash is queued once more while its reveal waits for the receipt; the receipt comes, and the worker
is told to reveal the hash again. -/
def queuedTwice : System :=
  .opening usual [.begin .worker, .begin .commits, .go confirming 1 29,
    .begin (.scan 0 [.revealTrigger] 0), .go (subscribing 1) 2 16, .go confirming 0 11,
    .go (subscribing 5) 2 16, .go confirming 0 11]

theorem finished_not_revealed_again_queuedTwice :
    System.Reachable usual queuedTwice ∧
      peek (Repository.status (.fill 32 3)) queuedTwice.shared.store = .ok (some .revealed) ∧
      (∀ e ∈ session queuedTwice.shared.trace, e.smooth) ∧
      minedReveals (session queuedTwice.shared.trace) = [.fill 32 3] ∧
      (minedReveals (session queuedTwice.shared.trace)).count (.fill 32 3) ≤ 1 ∧
      (∃ r next, (reveal usual (.fill 32 3)).run = .ask r next ∧ r.callsChain = false) ∧
      ∃ r next, dispatch usual.agent [.revealTrigger] (logged subscription) .live = .ask r next ∧
        r.adds = false := by
  have hreach : System.Reachable usual queuedTwice := System.reachable_opening _
  have hst : peek (Repository.status (.fill 32 3)) queuedTwice.shared.store = .ok (some .revealed) := by
    decide +kernel
  have hsmooth : ∀ e ∈ session queuedTwice.shared.trace, e.smooth := List.all_eq_true.1 (by decide +kernel)
  have hmined : minedReveals (session queuedTwice.shared.trace) = [.fill 32 3] := by decide +kernel
  obtain ⟨hfinal, honce⟩ := finished_not_revealed_again hreach (.fill 32 3)
  obtain ⟨hdispatch, hreveal⟩ := hfinal .revealed hst rfl queuedTwice .refl 0 [] (List.append_nil _).symm
  have hlog : OracleEvent.ofLog? (logged subscription).topics (logged subscription).data = some subscription := by
    decide +kernel
  exact ⟨hreach, hst, hsmooth, hmined, honce hsmooth, ⟨_, _, rfl, hreveal _ _ (.here _)⟩, _, _, rfl,
    hdispatch _ _ hlog rfl [.revealTrigger] .live _ _ (.here _)⟩

end CommitReveal.Agent
