import CommitReveal.Proofs.Conditions
import CommitReveal.Proofs.PendingReveals

/-! The three ways to finish a pending hash take its mark away before they close its status. Where one of
them fails, which call it was decides whether the hash is left in order. -/
namespace CommitReveal.Repository

open Program
open Conditions (attempts_call attempts_now outcome_perform)
open Store (Backend Call StoreError)

inductive Finish where
  | revealed (seed : Option Seed)
  | expired
  | abandoned

namespace Finish

def action (h : Hash) : Finish → Action Unit
  | revealed seed => markRevealed h seed
  | expired => markExpired h
  | abandoned => markAbandoned h

/-- The hash still waits for its reveal, or its status is final. -/
def InOrder (b : Backend) (h : Hash) : Prop :=
  peek (isPending h) b = .ok true ∨ ∃ st, peek (status h) b = .ok (some st) ∧ st.isTerminal

/-- Calls whose failure, done or not, leaves the hash in order: those that come before the mark is gone
and those that close the status. -/
def Harmless (h : Hash) : Call → (applied : Bool) → Prop
  | .set k _, applied => k = key .seed h ∨ applied
  | .delete _, applied => applied = false
  | .get _, _ | .scan _, _ => False

variable {w : Conditions} {α : Type} {m : Moment} {b : Backend} {h : Hash} {r : Option CommitRecord}

def Unfinished (r : Option CommitRecord) : Prop :=
  ∀ rec ∈ r, rec.status.isTerminal = false

theorem inOrder_of_marked (hm : Marked b h) : InOrder b h :=
  .inl (peek_isPending_iff.2 hm)

theorem inOrder_of_closed {rec : CommitRecord} (hr : Recorded b h (some rec))
    (hfinal : rec.status.isTerminal) : InOrder b h :=
  .inr ⟨rec.status, peek_status_recorded hr, hfinal⟩

theorem not_inOrder (hgone : ¬Marked b h) (hr : Recorded b h r) (hopen : Unfinished r) : ¬InOrder b h := by
  rintro (hpending | ⟨st, hst, hfinal⟩)
  · exact hgone (peek_isPending_iff.1 hpending)
  · rw [peek_status_recorded hr] at hst
    obtain ⟨rec, hrec, rfl⟩ := Option.map_eq_some_iff.1 (Except.ok.inj hst)
    rw [hopen rec hrec] at hfinal
    cases hfinal

def Struck (w : Conditions) (h : Hash) (cause : StoreError) (m : Moment) : Prop :=
  ∃ c calls applied, m.calls = c :: calls ∧ w.fate calls.length = .failed cause applied ∧
    (InOrder m.store h ↔ Harmless h c applied)

abbrev Risks (w : Conditions) (h : Hash) (x : Action α) (Q : α → Moment → Prop) (m : Moment) : Prop :=
  Attempts w.alone x Q (Struck w h) m

theorem risks_call {c : Call} {Q : c.Result → Moment → Prop}
    (hheeded : Q (m.store.perform c).1 ⟨(m.store.perform c).2, c :: m.calls, m.readings⟩)
    (hfailed : ∀ applied,
      InOrder (if applied then (m.store.perform c).2 else m.store) h ↔ Harmless h c applied) :
    Risks w h (ExceptT.mk (Program.request (I := interface) (.call c)) : Action c.Result) Q m := by
  refine attempts_call.2 ?_
  cases hfate : w.fate m.calls.length with
  | heeded => exact hheeded
  | failed cause applied => exact ⟨c, m.calls, applied, rfl, hfate, hfailed applied⟩

structure Exposed (b : Backend) (h : Hash) (r : Option CommitRecord) : Prop where
  gone : ¬Marked b h
  record : Recorded b h r
  unfinished : Unfinished r

theorem risks_record (hb : Exposed m.store h r) :
    Risks w h (record h) (fun rec m' => rec = r ∧ m'.store = m.store) m := by
  refine finds_record (risks_call ⟨?_, ?_⟩ fun applied => ?_)
  · exact (congrArg Prod.fst (m.store.perform_get (key .record h))).trans hb.record
  · exact congrArg Prod.snd (m.store.perform_get (key .record h))
  · have hsame : (if applied then (m.store.perform (.get (key .record h))).2 else m.store) = m.store := by
      rw [m.store.perform_get, ite_self]
    rw [hsame]
    exact iff_of_false (not_inOrder hb.gone hb.record hb.unfinished) id

/-- From here on every failure loses the hash, but that of a write which was done all the same. -/
theorem risks_setStatus (hb : Exposed m.store h r) {st : Status} (hfinal : st.isTerminal) :
    Risks w h (setStatus h st) (fun _ _ => True) m := by
  have hrecordOr : Risks w h (recordOr h st)
      (fun rec m' => (rec.status.isTerminal && rec.status ≠ st) = false ∧ m'.store = m.store) m := by
    unfold recordOr
    refine attempts_bind.2 ((risks_record hb).imp (fun rec m' hrec => ?_) fun _ _ => id)
    obtain ⟨rfl, hstore⟩ := hrec
    cases rec with
    | none => exact attempts_bind.2 (attempts_now.2 ⟨by simp, hstore⟩)
    | some rec => exact ⟨by rw [hb.unfinished rec rfl, Bool.false_and], hstore⟩
  unfold setStatus
  refine attempts_bind.2 (hrecordOr.imp (fun rec m' hrec => ?_) fun _ _ => id)
  rw [if_neg (Bool.eq_false_iff.1 hrec.1)]
  refine attempts_bind.2 (attempts_now.2 (attempts_bind.2 (risks_call trivial fun applied => ?_)))
  rw [hrec.2]
  cases applied with
  | false =>
    refine iff_of_false (not_inOrder hb.gone hb.record hb.unfinished) fun hharmless => ?_
    exact hharmless.elim (key_ne (by decide) h h) Bool.false_ne_true
  | true =>
    have hwritten : Recorded (m.store.perform (.set (key .record h)
        { rec with status := st, updatedAt := w.clock m'.readings }.encode)).2 h
        (some { rec with status := st, updatedAt := w.clock m'.readings }) :=
      get?_set_self ..
    exact iff_of_true (inOrder_of_closed hwritten hfinal) (.inr rfl)

theorem risks_clearPending (hm : Marked m.store h) (hr : Recorded m.store h r) (hopen : Unfinished r) :
    Risks w h (clearPending h) (fun _ m' => Exposed m'.store h r) m := by
  have hexposed : Exposed (m.store.perform (.delete (key .pending h))).2 h r := by
    refine ⟨fun hmarked => ?_, ?_, hopen⟩
    · unfold Marked at hmarked
      rw [get?_delete_self] at hmarked
      cases hmarked
    · exact (get?_delete_field (by decide) ..).trans hr
  refine risks_call hexposed fun applied => ?_
  cases applied with
  | false => exact iff_of_true (inOrder_of_marked hm) rfl
  | true =>
    refine iff_of_false (not_inOrder hexposed.gone hexposed.record hopen) fun hharmless => ?_
    cases hharmless

theorem risks_finish (hm : Marked m.store h) (hr : Recorded m.store h r) (hopen : Unfinished r)
    {st : Status} (hfinal : st.isTerminal) :
    Risks w h (do clearPending h; discard <| setStatus h st) (fun _ _ => True) m := by
  refine attempts_bind.2 ((risks_clearPending hm hr hopen).imp (fun _ m' hexposed => ?_) fun _ _ => id)
  exact attempts_discard.2 (risks_setStatus hexposed hfinal)

theorem risks_close (hm : Marked m.store h) (hr : Recorded m.store h r) (hopen : Unfinished r) :
    Risks w h (do
      clearPending h
      if (← status h) ≠ some .revealed then
        discard <| setStatus h .revealed) (fun _ _ => True) m := by
  refine attempts_bind.2 ((risks_clearPending hm hr hopen).imp (fun _ m₁ hexposed => ?_) fun _ _ => id)
  refine attempts_bind.2 ((finds_status (risks_record hexposed)).imp (fun st m₂ hst => ?_) fun _ _ => id)
  split
  · rw [← hst.2] at hexposed
    exact attempts_discard.2 (risks_setStatus hexposed rfl)
  · trivial

theorem risks_markRevealed (hm : Marked m.store h) (hr : Recorded m.store h r) (hopen : Unfinished r)
    (seed : Option Seed) : Risks w h (markRevealed h seed) (fun _ _ => True) m := by
  unfold markRevealed
  cases seed with
  | none => exact risks_close hm hr hopen
  | some seed =>
    have hm' : Marked (m.store.perform (.set (key .seed h) seed.bytes)).2 h := by
      unfold Marked
      rw [get?_set_field (by decide)]
      exact hm
    have hr' : Recorded (m.store.perform (.set (key .seed h) seed.bytes)).2 h r :=
      (get?_set_field (by decide) ..).trans hr
    refine attempts_bind.2 (risks_call (risks_close hm' hr' hopen) fun applied => ?_)
    refine iff_of_true (inOrder_of_marked ?_) (.inl rfl)
    cases applied with
    | false => exact hm
    | true => exact hm'

/-- A pending hash that is not finished is left in order just if the call that failed was the write of the
seed, the deletion of the mark without effect, or the write of the record with effect. -/
theorem failed_finish_inOrder_iff (hm : peek (isPending h) b = .ok true) (hr : Recorded b h r)
    (hopen : Unfinished r) (w : Conditions) (f : Finish) {cause : StoreError}
    (hfails : (w.perform (f.action h) b).1 = .error cause) :
    ∃ c calls applied, (w.perform (f.action h) b).2.calls = c :: calls ∧
      w.fate calls.length = .failed cause applied ∧
      (InOrder (w.perform (f.action h) b).2.store h ↔ Harmless h c applied) := by
  have hmarked : Marked b h := peek_isPending_iff.1 hm
  have hrisks : Risks w h (f.action h) (fun _ _ => True) (.first b) := by
    cases f with
    | revealed seed => exact risks_markRevealed hmarked hr hopen seed
    | expired => exact risks_finish hmarked hr hopen rfl
    | abandoned => exact risks_finish hmarked hr hopen rfl
  have hends := outcome_perform.2 hrisks
  rw [hfails] at hends
  exact hends

end Finish

end CommitReveal.Repository

namespace CommitReveal.Agent

open Repository (peek Conditions Finish)
open Store (StoreError)

def failsAt (n : Nat) : Conditions :=
  ⟨fun k => if k = n then .failed (.corrupt (.reported "get broke")) false else .heeded, fun _ => 0⟩

theorem failed_finish_inOrder_iff_firstCommit : ∃ σ : System, System.Reachable usual σ ∧
    peek (Repository.isPending (.fill 32 3)) σ.shared.store = .ok true ∧
    (∃ cause, ((failsAt 0).perform (Finish.expired.action (.fill 32 3)) σ.shared.store).1 = .error cause) ∧
    Finish.InOrder ((failsAt 0).perform (Finish.expired.action (.fill 32 3)) σ.shared.store).2.store
      (.fill 32 3) := by
  obtain ⟨holder, -, hr⟩ := reachable_firstCommit (.ok (.fill 32 4)) 15
  have hpending : peek (Repository.isPending (.fill 32 3))
      (firstCommit (.ok (.fill 32 4)) 15).1.store = .ok true := rfl
  have hrecord : Repository.Recorded (firstCommit (.ok (.fill 32 4)) 15).1.store (.fill 32 3)
      (some ⟨.created, none, 0⟩) := rfl
  have hopen : Finish.Unfinished (some ⟨.created, none, 0⟩) := by
    rintro rec ⟨⟩
    rfl
  obtain ⟨c, calls, applied, hcalls, hfate, hiff⟩ :=
    Finish.failed_finish_inOrder_iff hpending hrecord hopen (failsAt 0) .expired rfl
  cases hcalls
  cases hfate
  exact ⟨_, hr, hpending, ⟨_, rfl⟩, hiff.2 rfl⟩

/-- When the record cannot be read, the hash of the first commit has lost its mark and kept its status. -/
theorem failed_finish_loses_hash : ∃ σ : System, System.Reachable usual σ ∧
    peek (Repository.isPending (.fill 32 3)) σ.shared.store = .ok true ∧
    (∃ cause, ((failsAt 1).perform (Repository.markExpired (.fill 32 3)) σ.shared.store).1 = .error cause) ∧
    peek (Repository.isPending (.fill 32 3))
      ((failsAt 1).perform (Repository.markExpired (.fill 32 3)) σ.shared.store).2.store = .ok false ∧
    peek (Repository.status (.fill 32 3))
      ((failsAt 1).perform (Repository.markExpired (.fill 32 3)) σ.shared.store).2.store =
        .ok (some .created) := by
  obtain ⟨holder, -, hr⟩ := reachable_firstCommit (.ok (.fill 32 4)) 15
  exact ⟨_, hr, rfl, ⟨_, rfl⟩, rfl, rfl⟩

end CommitReveal.Agent
