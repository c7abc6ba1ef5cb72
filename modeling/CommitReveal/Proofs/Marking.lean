import CommitReveal.Proofs.Announcement
import CommitReveal.Proofs.Habits

/-! Which hashes are marked as pending. A task marks none but the hash that it has just drawn, so a hash whose
commit was taken in is never marked again. -/
namespace CommitReveal.Repository

open Program

variable {h : Hash}

def Request.Unmarking : Request → Prop
  | .call (.set k _) => ∀ h, k ≠ key .pending h
  | _ => True

theorem unmarking_reading (r : Request) (hr : r.Reading) : r.Unmarking := by
  cases r with
  | call c => cases c <;> trivial
  | clock => trivial

theorem unmarking_set {field : Field} (hfield : field ≠ .pending) (value : Bytes) :
    (Request.call (.set (key field h) value)).Unmarking :=
  fun _ heq => hfield (key_inj.1 heq).1

end CommitReveal.Repository

namespace CommitReveal.Agent

open Program
open Repository (key key_inj unmarking_reading unmarking_set)

variable {s : Settings} {i : Nat} {h : Hash} {t u : Transcript interface} {α : Type}

section Heeding

variable {P : Request → Transcript interface → Prop}

/-- Whatever a task has been told before, it keeps to a rule on what it asks. -/
def Heeds (P : Request → Transcript interface → Prop) (α : Type) (p : Activity α) : Prop :=
  ∀ t, p.Upholds (watched P) anyhow t

theorem heeds_ask {r : Request} (hr : ∀ t, P r t) : Heeds P _ (ask r) :=
  fun t => upholds_watched.2 ⟨hr t, fun _ => trivial⟩

theorem heeds (hplain : ∀ r t, Request.Plain r → P r t) : Habit (Heeds P) (Heeds P (Option Routine)) where
  done _ _ := trivial
  bind hp hf t := (hp t).bind fun a u _ => hf a u
  plain r hr := heeds_ask fun t => hplain r t hr
  ends _ := trivial
  goes _ _ := trivial
  last hp hf t := (hp t).bind fun a u _ => hf a u

end Heeding

def JustDrawn (h : Hash) (t : Transcript interface) : Prop :=
  ∃ before seed told, t = before ++ ⟨.chain (.computeCommitHash seed), .ok h⟩ :: told ∧
    ∀ x ∈ told, ∃ r, x.request = .store r

def Marks : Request → Transcript interface → Prop
  | .store (.call (.set k _)), t => ∀ h, k = key .pending h → JustDrawn h t
  | _, _ => True

theorem marks_unmarking {r : Repository.Request} (hr : r.Unmarking) (t : Transcript interface) :
    Marks (.store r) t := by
  cases r with
  | call c =>
    cases c with
    | set k value => exact fun h hk => absurd hk (hr h)
    | _ => trivial
  | clock => trivial

theorem marks_plain (r : Request) (t : Transcript interface) (hr : r.Plain) : Marks r t := by
  cases r with
  | store q =>
    refine marks_unmarking ?_ t
    cases q with
    | call c =>
      cases c with
      | set k value =>
        rintro h rfl
        rcases hr with ⟨k', hk⟩ | hk
        · cases (key_inj.1 hk).1
        · exact Repository.key_ne_cursorKey _ _ hk
      | _ => trivial
    | clock => trivial
  | _ => trivial

theorem JustDrawn.marks (ht : JustDrawn h t) {r : Repository.Request} {seed : Option Seed}
    (hr : r.Keeping h seed) : Marks (.store r) t := by
  cases hr with
  | reads reading => exact marks_unmarking (unmarking_reading r reading) t
  | stores given => exact marks_unmarking (unmarking_set (by decide) _) t
  | writes other =>
    intro h' hk
    rwa [← (key_inj.1 hk).2]
  | unmarks => trivial

theorem JustDrawn.store (ht : JustDrawn h t) (r : Repository.Request) (a : r.Answer) :
    JustDrawn h (t ++ [⟨.store r, a⟩]) := by
  obtain ⟨before, seed, told, rfl, htold⟩ := ht
  refine ⟨before, seed, told ++ [⟨.store r, a⟩], by simp, fun x hx => ?_⟩
  rcases List.mem_append.1 hx with hx | hx
  · exact htold x hx
  · exact ⟨r, by rw [List.mem_singleton.1 hx]⟩

theorem attempts_justDrawn {a : Repository.Action α} {seed : Option Seed} (ha : Repository.Keeps h seed a)
    (ht : JustDrawn h t) : Attempts (watched Marks) (repository a) (fun _ u => JustDrawn h u) anyhow t := by
  have hcall : (callRepository a).Upholds (watched Marks) (fun _ u => JustDrawn h u) t := by
    unfold Repository.Keeps at ha
    unfold callRepository
    generalize a.run = p at ha
    induction p generalizing t with
    | done x => exact ht
    | ask r next ih =>
      exact upholds_watched.2 ⟨ht.marks ha.1, fun answer => ih answer (ht.store r answer) (ha.2 answer)⟩
  refine Upholds.bind hcall fun answer u hu => ?_
  cases answer with
  | ok value => exact hu
  | error cause => trivial

theorem heeds_marks : Habit (Heeds Marks) (Heeds Marks (Option Routine)) :=
  heeds marks_plain

theorem marks_repository {a : Repository.Action α} (ha : a.run.Only Repository.Request.Unmarking) :
    Heeds Marks _ (callRepository a) :=
  heeds_marks.interpret (ha.imp fun _ hr => heeds_ask (marks_unmarking hr))

theorem operations_marks : Habit.Operations (Heeds Marks) fun _ _ => True where
  setCommitBlock h block := marks_repository (Repository.only_setCommitBlock unmarking_reading
    (unmarking_set (by decide)) block)
  markRevealed _ := marks_repository (Repository.only_markRevealed unmarking_reading
    (unmarking_set (by decide)) trivial fun x _ => unmarking_set (by decide) _)
  markExpired h := marks_repository (Repository.only_finish unmarking_reading
    (unmarking_set (by decide)) trivial .expired)
  pendingHashes := marks_repository (Only.attempt ⟨trivial, fun _ => trivial⟩ fun _ => trivial)
  advance h rest hrest := by
    refine heeds_marks.attempt heeds_marks.status fun status => ?_
    split
    · have hset := marks_repository (Repository.only_setStatus (h := h) unmarking_reading
        (unmarking_set (by decide)) .pendingReveal)
      refine heeds_marks.attempt (heeds_marks.attempt (heeds_marks.repository hset) fun _ => ?_) fun _ => hrest
      exact heeds_marks.done _
    · exact hrest

theorem marks_receipt (tx : TxHash) (poll timeout : Nat) : Heeds Marks _ (ask (.receipt tx poll timeout)) :=
  heeds_ask fun _ => trivial

theorem marks_answerCommit (h : Hash) (answer : Except ChainError TxHash) :
    Heeds Marks _ (answerCommit s h answer).run := by
  refine heeds_marks.answerCommit marks_receipt (fun st _ => ?_) (fun block => ?_) ?_ answer
  · exact marks_repository (Repository.only_setStatus unmarking_reading (unmarking_set (by decide)) st)
  · exact operations_marks.setCommitBlock h block
  · exact marks_repository (Repository.only_finish unmarking_reading (unmarking_set (by decide)) trivial _)

theorem marks_issueCommit : Heeds Marks _ (issueCommit s).run := by
  have hfresh : Heeds Marks _ (freshSeed s) :=
    heeds_marks.bind (heeds_marks.plain .entropy trivial) fun _ => heeds_marks.done _
  refine heeds_marks.attempt (heeds_marks.lift hfresh) fun seed => ?_
  refine fun t => upholds_run.2 (attempts_bind.2 (upholds_watched.2 ⟨trivial, fun answer => ?_⟩))
  cases answer with
  | error cause => trivial
  | ok h =>
    have hdrawn : JustDrawn h (t ++ [⟨.chain (.computeCommitHash seed), .ok h⟩]) :=
      ⟨t, seed, [], rfl, fun x hx => nomatch hx⟩
    refine attempts_bind.2 ((attempts_justDrawn (Repository.keeps_storeSeed seed) hdrawn).imp ?_ fun _ _ => id)
    intro _ u hu
    refine attempts_bind.2 (attempts_discard.2 ?_)
    refine (attempts_justDrawn Repository.keeps_markPending hu).imp ?_ fun _ _ => id
    intro _ v _
    have hsubmit : Heeds Marks _ (submit s (.commit h)) :=
      heeds_marks.submit fun _ => heeds_ask fun _ => trivial
    refine attempts_bind.2 ((attempts_lift _).2 ((hsubmit v).imp fun answer w _ => ?_))
    have hanswer : Attempts (watched Marks) (answerCommit s h answer) anyhow anyhow w :=
      upholds_run.1 (marks_answerCommit h answer w)
    cases answer <;> exact hanswer

theorem marks_reveal (h : Hash) : Heeds Marks _ (reveal s h).run := by
  have hmark (seed : Seed) :
      Heeds Marks _ (Agent.callRepository (Repository.markRevealed h (some seed))) :=
    operations_marks.markRevealed trivial
  have hclear : Heeds Marks _ (callRepository (Repository.clearPending h)) :=
    marks_repository ⟨trivial, fun _ => trivial⟩
  have hsend (seed : Seed) (nonce : Word) : Heeds Marks _ (ask (.chain (.submit (.reveal h seed) nonce))) :=
    heeds_ask fun _ => trivial
  unfold reveal
  refine heeds_marks.attempt heeds_marks.status fun status => ?_
  split
  · exact heeds_marks.attempt (heeds_marks.repository hclear) fun _ => heeds_marks.done _
  split
  · exact heeds_marks.done _
  · exact heeds_marks.openReveal fun seed => heeds_marks.submitReveal (hsend seed) marks_receipt (hmark seed)

theorem marks_workerTurn (started : Bool) : Heeds Marks _ (workerTurn s started) :=
  heeds_marks.workerTurn (fun h => heeds_marks.processReveal (marks_reveal h)) (heeds_ask fun _ => trivial)
    (heeds_ask fun _ => trivial) (fun _ => trivial) started

theorem settled_marks : Habit.Settled s (Heeds Marks) where
  receipt := marks_receipt
  scan e := heeds_marks.scanStep_of_trigger (fun _ mode =>
    heeds_marks.triggerReveal operations_marks (fun _ _ _ _ => trivial) mode) e
  commit := heeds_marks.commitTick marks_issueCommit
  reconcile := heeds_marks.reconcileTick operations_marks fun candidates =>
    heeds_marks.reconcile operations_marks (fun _ _ => trivial) candidates

theorem marks_turn (r : Routine) : Heeds Marks _ (r.turn s) := by
  cases r with
  | revealWorker started => exact marks_workerTurn started
  | _ => exact heeds_marks.turn settled_marks (by simp)

theorem justDrawn_of_reachable {σ : System} (hr : System.Reachable s σ) {value : Bytes}
    {next : Except Store.StoreError Unit → Activity (Option Routine)}
    (task : σ.tasks[i]? = some (.running (.ask (.store (.call (.set (key .pending h) value))) next))) :
    JustDrawn h (answersOf i σ.shared.trace) := by
  have hjob (j : Job) : Heeds Marks _ (j.program s) := heeds_marks.job settled_marks (marks_workerTurn false) j
  exact asked_of_reachable (P := Marks) marks_turn hjob hr task h rfl

theorem drawn_before_sending {σ : System} (hr : System.Reachable s σ) {j : Nat} {nonce : Word}
    {answer : Except ChainError TxHash} {later earlier : Trace}
    (htrace : σ.shared.trace = later ++ .answered j (.chain (.submit (.commit h) nonce)) answer :: earlier) :
    ∃ seed, Event.answered j (.chain (.computeCommitHash seed)) (.ok h) ∈ earlier := by
  obtain ⟨ρ, ρ', hρ, hstep, hbefore, hafter, -⟩ := exists_step_of_trace hr htrace
  obtain ⟨next, task⟩ := hstep.asked (hafter.trans (by rw [hbefore]))
  have hprepared : Prepared s h (answersOf j ρ.shared.trace) := prepared_of_reachable hρ task
  rw [hbefore] at hprepared
  generalize hanswers : answersOf j earlier = answers at hprepared
  obtain @⟨before, told, entropy, -, -⟩ := hprepared
  refine ⟨seedOf s.agent entropy, mem_answersOf.1 ?_⟩
  rw [hanswers]
  exact List.mem_append_right _ (List.mem_cons_of_mem _ List.mem_cons_self)

/-- A hash whose commit was taken in is not marked again, if no two draws have given the same hash. -/
theorem not_accepted_of_marking {σ : System} (hr : System.Reachable s σ)
    (hdistinct : DistinctDraws σ.shared.trace) {value : Bytes}
    {next : Except Store.StoreError Unit → Activity (Option Routine)}
    (task : σ.tasks[i]? = some (.running (.ask (.store (.call (.set (key .pending h) value))) next)))
    (tx : TxHash) : ¬Accepted (.commit h) tx σ.shared.trace := by
  rintro ⟨j, nonce, hmem⟩
  obtain ⟨before, seed, told, hanswers, htold⟩ := justDrawn_of_reachable hr task
  obtain ⟨later, earlier, htrace, rfl, -⟩ := parted_of_answersOf hanswers
  rw [htrace] at hmem
  rcases List.mem_append.1 hmem with hlater | hrest
  · -- the task that has sent it is the one that has drawn it, and that has asked the store alone since
    obtain ⟨l, e, hsplit⟩ := List.append_of_mem hmem
    obtain ⟨seed', hdrawn⟩ := drawn_before_sending hr (htrace.trans hsplit)
    have hdrawn' : Event.answered j (.chain (.computeCommitHash seed')) (.ok h) ∈ σ.shared.trace := by
      rw [htrace, hsplit]
      exact List.mem_append_right l (List.mem_cons_of_mem _ hdrawn)
    have hself : Event.answered i (.chain (.computeCommitHash seed)) (.ok h) ∈ σ.shared.trace := by
      rw [htrace]
      exact List.mem_append_right later List.mem_cons_self
    have hsame := eq_of_drawnHash?_eq hdistinct hdrawn' hself rfl rfl
    injection hsame with hji
    obtain ⟨r, hstore⟩ := htold _ (mem_answersOf.2 (hji ▸ hlater))
    cases hstore
  · rcases List.mem_cons.1 hrest with heq | hearlier
    · cases heq
    -- it would have been drawn twice
    obtain ⟨l, e, hsplit⟩ := List.append_of_mem hearlier
    have hsend : σ.shared.trace = (later ++ .answered i (.chain (.computeCommitHash seed)) (.ok h) :: l) ++
        .answered j (.chain (.submit (.commit h) nonce)) (.ok tx) :: e := by
      rw [htrace, hsplit, List.append_assoc, List.cons_append]
    obtain ⟨seed', hdrawn⟩ := drawn_before_sending hr hsend
    have hbefore : h ∈ draws earlier := by
      rw [hsplit]
      exact List.mem_filterMap.2 ⟨_, List.mem_append_right l (List.mem_cons_of_mem _ hdrawn), rfl⟩
    have hsuffix := hdistinct.earlier ⟨later, htrace.symm⟩
    exact (List.nodup_cons.1 hsuffix).1 hbefore

end CommitReveal.Agent
