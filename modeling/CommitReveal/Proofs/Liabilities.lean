import CommitReveal.Proofs.Finished
import CommitReveal.Proofs.Marking
import Mathlib.Data.Finset.Card

/-! What the agent owes at one time: the hashes whose commit was taken in and that are pending still. A step
adds to them only by a commit that is taken in, and no task sends one without having found the reveal queue
short since it sent the last one. -/
namespace CommitReveal.Agent

open Program
open Repository (key key_inj peek)

variable {s : Settings} {i j : Nat} {h : Hash} {t : Transcript interface} {σ τ : System} {α : Type}

section Sending

/-- What an exchange says of the commits of its task: whether one is under way from then on. -/
def commitUnderWay? (s : Settings) : Exchange interface → Option Bool
  | ⟨.memory .queueDepth, depth⟩ => some (decide ((depth : Nat) < s.limits.backpressure))
  | ⟨.chain (.submit (.commit _) _), _⟩ => some false
  | _ => none

def Issuing (s : Settings) (t : Transcript interface) : Prop :=
  (t.filterMap (commitUnderWay? s)).getLast? = some true

instance (s : Settings) (t : Transcript interface) : Decidable (Issuing s t) :=
  inferInstanceAs (Decidable (_ = _))

theorem issuing_other {x : Exchange interface} (hx : commitUnderWay? s x = none) :
    Issuing s (t ++ [x]) ↔ Issuing s t := by
  simp [Issuing, hx]

theorem issuing_some {x : Exchange interface} {b : Bool} (hx : commitUnderWay? s x = some b) :
    Issuing s (t ++ [x]) ↔ b = true := by
  simp [Issuing, hx]

def Sends (s : Settings) : Request → Transcript interface → Prop
  | .chain (.submit (.commit _) _), t => Issuing s t
  | _, _ => True

theorem sends_silent (r : Request) (t : Transcript interface) (hr : r.Silent) : Sends s r t := by
  unfold Sends
  split
  · exact hr.elim
  · trivial

def Request.Bystanding : Request → Prop
  | .memory .queueDepth => False
  | .chain (.submit (.commit _) _) => False
  | _ => True

theorem Request.Bystanding.other {r : Request} (hr : r.Bystanding) (a : r.Answer) :
    commitUnderWay? s ⟨r, a⟩ = none := by
  unfold commitUnderWay?
  split
  · rename_i heq
    cases heq
    exact hr.elim
  · rename_i heq
    cases heq
    exact hr.elim
  · rfl

theorem upholds_issuing {p : Activity α} (hp : p.Only Request.Bystanding) (ht : Issuing s t) :
    p.Upholds (watched (Sends s)) (fun _ u => Issuing s u) t := by
  induction p generalizing t with
  | done a => exact ht
  | ask r next ih =>
    have hsends : Sends s r t := by
      unfold Sends
      split
      · exact ht
      · trivial
    exact upholds_watched.2 ⟨hsends, fun a => ih a (hp.2 a) ((issuing_other (hp.1.other a)).2 ht)⟩

theorem attempts_issuing {x : Attempt α} (hx : x.run.Only Request.Bystanding) (ht : Issuing s t) :
    Attempts (watched (Sends s)) x (fun _ u => Issuing s u) anyhow t := by
  refine (upholds_issuing hx ht).imp fun outcome u hu => ?_
  cases outcome with
  | ok a => exact hu
  | error cause => trivial

theorem bystanding_repository (a : Repository.Action α) : (repository a).run.Only Request.Bystanding :=
  only_repository (fun _ => trivial) a

theorem coversSending_bystanding : CoversSending Request.Bystanding where
  counts _ := trivial
  takes _ := trivial
  releases _ := trivial
  notifies _ := trivial
  aborts _ := trivial

theorem upholds_submit_issuing (ht : Issuing s t) :
    (submit s (.commit h)).Upholds (watched (Sends s)) anyhow t := by
  unfold submit
  refine (upholds_issuing (only_observedCount coversSending_bystanding) ht).bind fun count u hu => ?_
  refine (upholds_issuing (only_takeNonce coversSending_bystanding count) hu).bind fun nonce v hv => ?_
  refine upholds_watched.2 ⟨hv, fun answer => upholds_quiet sends_silent ?_⟩
  cases answer with
  | ok tx => trivial
  | error cause => exact (only_releaseNonce coversSending_silent nonce).bind fun _ => trivial

theorem attempts_issueCommit_issuing (ht : Issuing s t) :
    Attempts (watched (Sends s)) (issueCommit s) anyhow anyhow t := by
  have hfresh : (liftM (freshSeed s) : Attempt Seed).run.Only Request.Bystanding :=
    Only.lift (Only.bind (p := ask .entropy) ⟨trivial, fun _ => trivial⟩ fun _ => trivial)
  have hdraw (seed : Seed) : (chain (.computeCommitHash seed)).run.Only Request.Bystanding :=
    ⟨trivial, fun _ => trivial⟩
  unfold issueCommit
  refine attempts_bind.2 ((attempts_issuing hfresh ht).imp (fun seed u hu => ?_) fun _ _ => id)
  refine attempts_bind.2 ((attempts_issuing (hdraw seed) hu).imp (fun h v hv => ?_) fun _ _ => id)
  refine attempts_bind.2 ((attempts_issuing (bystanding_repository _) hv).imp (fun _ w hw => ?_) fun _ _ => id)
  refine attempts_bind.2 (attempts_discard.2 ?_)
  refine (attempts_issuing (bystanding_repository _) hw).imp (fun _ x hx => ?_) fun _ _ => id
  refine attempts_bind.2 ((attempts_lift _).2 ((upholds_submit_issuing hx).imp fun answer y _ => ?_))
  -- the commit is sent, and nothing else will be
  have hrest : Attempts (watched (Sends s)) (answerCommit s h answer) anyhow anyhow y :=
    upholds_run.1 (upholds_quiet sends_silent (silent_answerCommit answer))
  cases answer <;> exact hrest

theorem upholds_commitTick_issuing (t : Transcript interface) :
    (commitTick s).Upholds (watched (Sends s)) anyhow t := by
  refine upholds_watched.2 ⟨trivial, fun depth => ?_⟩
  dsimp only [done_bind]
  split
  · rename_i hshort
    have hissuing : Issuing s (t ++ [⟨.memory .queueDepth, depth⟩]) :=
      (issuing_some rfl).2 (decide_eq_true hshort)
    refine Upholds.bind (attempts_issueCommit_issuing hissuing) fun outcome u _ => ?_
    apply upholds_quiet sends_silent
    cases outcome with
    | ok _ => trivial
    | error cause => exact silent_notify _
  · trivial

theorem issuing_of_reachable (hr : System.Reachable s σ) {nonce : Word}
    {next : Except ChainError TxHash → Activity (Option Routine)}
    (task : σ.tasks[i]? = some (.running (.ask (.chain (.submit (.commit h) nonce)) next))) :
    Issuing s (answersOf i σ.shared.trace) :=
  asked_of_commitTick (P := Sends s) sends_silent upholds_commitTick_issuing hr task

end Sending

section Counting

def committed? : Event → Option Hash
  | .answered _ (.chain (.submit (.commit h) _)) (.ok _) => some h
  | _ => none

def commits (t : Trace) : List Hash :=
  t.filterMap committed?

theorem committed?_eq_some {e : Event} : committed? e = some h ↔
    ∃ i nonce tx, e = .answered i (.chain (.submit (.commit h) nonce)) (.ok tx) := by
  constructor
  · intro he
    unfold committed? at he
    split at he
    · cases he
      exact ⟨_, _, _, rfl⟩
    · cases he
  · rintro ⟨i, nonce, tx, rfl⟩
    rfl

theorem mem_commits {t : Trace} : h ∈ commits t ↔ ∃ tx, Accepted (.commit h) tx t := by
  simp only [commits, List.mem_filterMap, committed?_eq_some, Accepted]
  constructor
  · rintro ⟨e, he, i, nonce, tx, rfl⟩
    exact ⟨tx, i, nonce, he⟩
  · rintro ⟨tx, i, nonce, he⟩
    exact ⟨_, he, i, nonce, tx, rfl⟩

/-- The hashes whose commit was taken in and that are pending still. -/
def liabilities (σ : Shared) : Finset Hash :=
  (commits σ.trace).toFinset.filter fun h => (σ.store.get? (key .pending h)).isSome

theorem mem_liabilities {σ : Shared} : h ∈ liabilities σ ↔
    (∃ tx, Accepted (.commit h) tx σ.trace) ∧ peek (Repository.isPending h) σ.store = .ok true := by
  rw [liabilities, Finset.mem_filter, List.mem_toFinset, mem_commits, Repository.peek_isPending_iff]
  rfl

/-- Those that do not wait in the reveal queue. -/
def unqueued (σ : Shared) : Finset Hash :=
  (liabilities σ).filter (· ∉ σ.memory.queue.waiting)

theorem liabilities_card_le (σ : Shared) :
    (liabilities σ).card ≤ σ.memory.queue.depth + (unqueued σ).card := by
  have hqueued : (liabilities σ).filter (· ∈ σ.memory.queue.waiting) ⊆ σ.memory.queue.waiting.toFinset :=
    fun h hh => List.mem_toFinset.2 (Finset.mem_filter.1 hh).2
  have hcard := (Finset.card_le_card hqueued).trans (List.toFinset_card_le _)
  have hsplit := Finset.card_filter_add_card_filter_not (s := liabilities σ) (· ∈ σ.memory.queue.waiting)
  unfold RevealQueue.depth unqueued
  omega

def Task.isLive : Task → Bool
  | .ended => false
  | _ => true

/-- The tasks that have not ended, have found the reveal queue short and have sent no commit since. -/
def underWay (s : Settings) (σ : System) : Finset Nat :=
  (Finset.range σ.tasks.length).filter fun i =>
    σ.tasks[i]?.any Task.isLive ∧ Issuing s (answersOf i σ.shared.trace)

theorem mem_underWay : i ∈ underWay s σ ↔
    σ.tasks[i]?.any Task.isLive ∧ Issuing s (answersOf i σ.shared.trace) := by
  rw [underWay, Finset.mem_filter, Finset.mem_range, and_iff_right_iff_imp]
  rintro ⟨hlive, -⟩
  by_contra hout
  rw [List.getElem?_eq_none (Nat.le_of_not_lt hout)] at hlive
  cases hlive

end Counting

section Steps

theorem isLive_of_set {tasks : List Task} {k : Nat} {task new : Task} (hk : tasks[k]? = some task)
    (htask : task.isLive) (hlive : (tasks.set k new)[i]?.any Task.isLive) : tasks[i]?.any Task.isLive := by
  by_cases hik : i = k
  · rw [hik, hk]
    exact htask
  · rwa [List.getElem?_set_ne (Ne.symm hik)] at hlive

theorem commitUnderWay?_eq_true {r : Request} {a : r.Answer} (h : commitUnderWay? s ⟨r, a⟩ = some true) :
    ∃ depth < s.limits.backpressure, Event.answered i r a = .answered i (.memory .queueDepth) depth := by
  unfold commitUnderWay? at h
  split at h
  · rename_i depth heq
    cases heq
    exact ⟨depth, of_decide_eq_true (Option.some.inj h), rfl⟩
  · cases h
  · cases h

theorem underWay_of_step (hborn : σ.Born) (hstep : System.Step s σ τ) (hi : i ∈ underWay s τ) :
    i ∈ underWay s σ ∨ ∃ depth < s.limits.backpressure,
      τ.shared.trace = .answered i (.memory .queueDepth) depth :: σ.shared.trace := by
  obtain ⟨hlive, hissuing⟩ := mem_underWay.1 hi
  -- a task that was not there has read nothing
  have hthere (hsame : Issuing s (answersOf i σ.shared.trace)) : i < σ.tasks.length := by
    by_contra hout
    rw [hborn.answersOf (Nat.le_of_not_lt hout)] at hsame
    cases hsame
  cases hstep with
  | began job free =>
    have hsame : Issuing s (answersOf i σ.shared.trace) := hissuing
    rw [List.getElem?_append_left (hthere hsame)] at hlive
    exact .inl (mem_underWay.2 ⟨hlive, hsame⟩)
  | turn may task => exact .inl (mem_underWay.2 ⟨isLive_of_set task rfl hlive, hissuing⟩)
  | @answered k r next a υ may task served =>
    rw [Shared.trace_note, served.trace] at hissuing ⊢
    by_cases hk : k = i
    · subst hk
      rw [answersOf_answered] at hissuing
      cases hturn : commitUnderWay? s ⟨r, a⟩ with
      | none =>
        refine .inl (mem_underWay.2 ⟨?_, (issuing_other hturn).1 hissuing⟩)
        rw [task]
        rfl
      | some b =>
        obtain rfl := (issuing_some hturn).1 hissuing
        obtain ⟨depth, hshort, hread⟩ := commitUnderWay?_eq_true (i := k) hturn
        exact .inr ⟨depth, hshort, by rw [hread]⟩
    · rw [answersOf_elsewhere hk] at hissuing
      have hlen : i < (σ.tasks.set k (.running (next a))).length := by
        rw [List.length_set]
        exact hthere hissuing
      rw [List.getElem?_append_left hlen] at hlive
      exact .inl (mem_underWay.2 ⟨isLive_of_set task rfl hlive, hissuing⟩)
  | finished may task => exact .inl (mem_underWay.2 ⟨isLive_of_set task rfl hlive, hissuing⟩)
  | crashed =>
    rw [List.getElem?_map] at hlive
    cases htask : σ.tasks[i]? with
    | none =>
      rw [htask] at hlive
      cases hlive
    | some task =>
      rw [htask] at hlive
      cases hlive

theorem not_underWay_of_sent {nonce : Word} {answer : Except ChainError TxHash} {t : Trace}
    (htrace : τ.shared.trace = .answered i (.chain (.submit (.commit h) nonce)) answer :: t) :
    i ∉ underWay s τ := by
  rw [mem_underWay, htrace, answersOf_answered, issuing_some rfl]
  exact fun hi => nomatch hi.2

theorem underWay_of_sent (hr : System.Reachable s σ) (hstep : System.Step s σ τ) {nonce : Word}
    {answer : Except ChainError TxHash}
    (htrace : τ.shared.trace = .answered i (.chain (.submit (.commit h) nonce)) answer :: σ.shared.trace) :
    i ∈ underWay s σ := by
  obtain ⟨next, task⟩ := hstep.asked htrace
  refine mem_underWay.2 ⟨?_, issuing_of_reachable hr task⟩
  rw [task]
  rfl

theorem marked_served {r : Request} {a : r.Answer} {σ τ : Shared} (hserved : Served r a σ τ)
    (hmarked : Repository.Marked τ.store h) :
    Repository.Marked σ.store h ∨ ∃ value, r = .store (.call (.set (key .pending h) value)) := by
  rcases hserved.store with hsame | ⟨c, rfl, hstore⟩
  · exact .inl (hsame ▸ hmarked)
  unfold Repository.Marked at *
  rw [hstore] at hmarked
  cases c with
  | get k => exact .inl (by rwa [Store.Backend.perform_get] at hmarked)
  | scan start => exact .inl (by rwa [Store.Backend.perform_scan] at hmarked)
  | set k value =>
    by_cases hk : key .pending h = k
    · exact .inr ⟨value, by rw [hk]⟩
    · exact .inl (by rwa [Store.Backend.get?_set, if_neg hk] at hmarked)
  | delete k =>
    rw [Store.Backend.get?_delete] at hmarked
    split at hmarked
    · cases hmarked
    · exact .inl hmarked

theorem liabilities_of_step (hr : System.Reachable s σ) (hstep : System.Step s σ τ)
    (hdistinct : DistinctDraws τ.shared.trace) (hh : h ∈ liabilities τ.shared) :
    h ∈ liabilities σ.shared ∨ ∃ i nonce tx,
      τ.shared.trace = .answered i (.chain (.submit (.commit h) nonce)) (.ok tx) :: σ.shared.trace := by
  obtain ⟨⟨tx, haccepted⟩, hpending⟩ := mem_liabilities.1 hh
  have hmarked : Repository.Marked τ.shared.store h := Repository.peek_isPending_iff.1 hpending
  have still (hbefore : Accepted (.commit h) tx σ.shared.trace) (hmarked : Repository.Marked σ.shared.store h) :
      h ∈ liabilities σ.shared := mem_liabilities.2 ⟨⟨tx, hbefore⟩, Repository.peek_isPending_iff.2 hmarked⟩
  obtain ⟨i, nonce, hmem⟩ := haccepted
  cases hstep with
  | began job free => exact .inl (still ⟨i, nonce, (List.mem_cons.1 hmem).resolve_left nofun⟩ hmarked)
  | turn may task => exact .inl (still ⟨i, nonce, hmem⟩ hmarked)
  | @answered k r next a υ may task served =>
    rw [Shared.trace_note, served.trace] at hmem hdistinct ⊢
    rcases List.mem_cons.1 hmem with hnow | hbefore
    · exact .inr ⟨i, nonce, tx, by rw [← hnow]⟩
    · refine .inl (still ⟨i, nonce, hbefore⟩ ?_)
      refine (marked_served served hmarked).resolve_right ?_
      rintro ⟨value, rfl⟩
      have hearlier := hdistinct.earlier (List.suffix_cons _ σ.shared.trace)
      exact not_accepted_of_marking hr hearlier task tx ⟨i, nonce, hbefore⟩
  | finished may task => exact .inl (still ⟨i, nonce, hmem⟩ hmarked)
  | crashed => exact .inl (still ⟨i, nonce, (List.mem_cons.1 hmem).resolve_left nofun⟩ hmarked)

/-- A step in which whoever finds the reveal queue short overlooks at most `d`: hashes that are owed but do not
wait in the queue, and commits that others have under way. -/
def Overlooks (s : Settings) (d : Nat) (σ τ : System) : Prop :=
  System.Step s σ τ ∧ ∀ i, ∀ depth < s.limits.backpressure,
    τ.shared.trace = .answered i (.memory .queueDepth) depth :: σ.shared.trace →
      (unqueued σ.shared).card + ((underWay s σ).erase i).card ≤ d

abbrev Run (s : Settings) (d : Nat) : System → System → Prop :=
  Relation.ReflTransGen (Overlooks s d)

/-- What is owed and what is under way, taken together. -/
def burden (s : Settings) (σ : System) : Nat :=
  (liabilities σ.shared).card + (underWay s σ).card

variable {d : Nat}

/-- Who goes on behind the check has just counted what it could see. -/
theorem burden_of_read (hr : System.Reachable s σ) (hstep : Overlooks s d σ τ)
    (hdistinct : DistinctDraws τ.shared.trace) {depth : Nat} (hshort : depth < s.limits.backpressure)
    (hread : τ.shared.trace = .answered i (.memory .queueDepth) depth :: σ.shared.trace) :
    burden s τ ≤ s.limits.backpressure + d := by
  have howed : liabilities τ.shared ⊆ liabilities σ.shared := by
    intro h hh
    refine (liabilities_of_step hr hstep.1 hdistinct hh).resolve_right ?_
    rintro ⟨j, nonce, tx, hsent⟩
    cases (List.cons.inj (hread.symm.trans hsent)).1
  have hothers : (underWay s τ).erase i ⊆ (underWay s σ).erase i := by
    intro j hj
    obtain ⟨hne, hj⟩ := Finset.mem_erase.1 hj
    refine Finset.mem_erase.2 ⟨hne, (underWay_of_step (born_of_reachable hr) hstep.1 hj).resolve_right ?_⟩
    rintro ⟨depth', -, hread'⟩
    cases (List.cons.inj (hread.symm.trans hread')).1
    exact hne rfl
  obtain ⟨υ, ⟨hdepth, -⟩, -⟩ := hstep.1.served hread
  have hqueue : depth = σ.shared.memory.queue.depth := hdepth
  have hseen := liabilities_card_le σ.shared
  have hoverlooked := hstep.2 i depth hshort hread
  have hmost := Finset.pred_card_le_card_erase (s := underWay s τ) (a := i)
  have howed := Finset.card_le_card howed
  have hothers := Finset.card_le_card hothers
  unfold burden
  omega

theorem burden_of_sent (hr : System.Reachable s σ) (hstep : System.Step s σ τ)
    (hdistinct : DistinctDraws τ.shared.trace) {nonce : Word} {answer : Except ChainError TxHash}
    (hsent : τ.shared.trace = .answered i (.chain (.submit (.commit h) nonce)) answer :: σ.shared.trace) :
    burden s τ ≤ burden s σ := by
  have howed : liabilities τ.shared ⊆ insert h (liabilities σ.shared) := by
    intro k hk
    rcases liabilities_of_step hr hstep hdistinct hk with hbefore | ⟨j, nonce', tx, hsent'⟩
    · exact Finset.mem_insert_of_mem hbefore
    · cases (List.cons.inj (hsent.symm.trans hsent')).1
      exact Finset.mem_insert_self h _
  have hunder : underWay s τ ⊆ (underWay s σ).erase i := by
    intro j hj
    refine Finset.mem_erase.2 ⟨?_, (underWay_of_step (born_of_reachable hr) hstep hj).resolve_right ?_⟩
    · rintro rfl
      exact not_underWay_of_sent hsent hj
    · rintro ⟨depth, -, hread⟩
      cases (List.cons.inj (hsent.symm.trans hread)).1
  have hmost := Finset.card_insert_le h (liabilities σ.shared)
  have hless := Finset.card_erase_lt_of_mem (underWay_of_sent hr hstep hsent)
  have howed := Finset.card_le_card howed
  have hunder := Finset.card_le_card hunder
  unfold burden
  omega

/-- What is owed and what is under way come to no more than the threshold and what is overlooked. -/
theorem burden_of_step (hr : System.Reachable s σ) (hstep : Overlooks s d σ τ)
    (hdistinct : DistinctDraws τ.shared.trace) (hσ : burden s σ ≤ s.limits.backpressure + d) :
    burden s τ ≤ s.limits.backpressure + d := by
  by_cases hread : ∃ i, ∃ depth < s.limits.backpressure,
      τ.shared.trace = .answered i (.memory .queueDepth) depth :: σ.shared.trace
  · obtain ⟨i, depth, hshort, hread⟩ := hread
    exact burden_of_read hr hstep hdistinct hshort hread
  by_cases hsent : ∃ i h nonce answer,
      τ.shared.trace = .answered i (.chain (.submit (.commit h) nonce)) answer :: σ.shared.trace
  · obtain ⟨i, h, nonce, answer, hsent⟩ := hsent
    exact (burden_of_sent hr hstep.1 hdistinct hsent).trans hσ
  have howed : liabilities τ.shared ⊆ liabilities σ.shared := by
    intro h hh
    refine (liabilities_of_step hr hstep.1 hdistinct hh).resolve_right ?_
    rintro ⟨i, nonce, tx, hnow⟩
    exact hsent ⟨i, h, nonce, .ok tx, hnow⟩
  have hunder : underWay s τ ⊆ underWay s σ := fun i hi =>
    (underWay_of_step (born_of_reachable hr) hstep.1 hi).resolve_right fun hnow => hread ⟨i, hnow⟩
  exact (Nat.add_le_add (Finset.card_le_card howed) (Finset.card_le_card hunder)).trans hσ

theorem leads_of_run (hrun : Run s d σ τ) : System.Leads s σ τ :=
  hrun.lift id fun _ _ hstep => hstep.1

theorem burden_of_run {store : Store.Backend} (hempty : ∀ key, store.get? key = none)
    (hrun : Run s d (.start s store) σ) (hdistinct : DistinctDraws σ.shared.trace) :
    burden s σ ≤ s.limits.backpressure + d := by
  induction hrun with
  | refl => exact Nat.zero_le _
  | @tail ρ σ hrun hstep ih =>
    have hr : System.Reachable s ρ := ⟨store, hempty, leads_of_run hrun⟩
    exact burden_of_step hr hstep hdistinct (ih (hdistinct.earlier hstep.1.suffix))

end Steps

end CommitReveal.Agent
