import CommitReveal.Proofs.Holdings
import Mathlib.Data.List.Perm.Basic

/-! Both kinds of store list what they find in strictly ascending key order, so what they hold under each
key decides every answer. Asked the same things from the start, they cannot be told apart. -/
namespace CommitReveal.Store

theorem eq_of_ascending {es fs : List Entry} (hes : es.Pairwise fun a b => a.1 < b.1)
    (hfs : fs.Pairwise fun a b => a.1 < b.1) (hmem : ∀ e, e ∈ es ↔ e ∈ fs) : es = fs := by
  have hnodup {l : List Entry} (hl : l.Pairwise fun a b => a.1 < b.1) : l.Nodup := by
    refine hl.imp fun {a b} hab => ?_
    rintro rfl
    exact Bytes.lt_irrefl a.1 hab
  have hperm : es.Perm fs := (List.perm_ext_iff_of_nodup (hnodup hes) (hnodup hfs)).2 hmem
  refine hperm.eq_of_pairwise (fun a b _ _ hab hba => ?_) hes hfs
  exact absurd (Bytes.lt_trans hab hba) (Bytes.lt_irrefl a.1)

theorem OrderedMap.scan_ascending (m : OrderedMap) (start : Bytes) :
    (m.scan start).Pairwise fun a b => a.1 < b.1 :=
  m.ascending.sublist ((List.takeWhile_sublist _).trans (List.dropWhile_sublist _))

theorem Table.range_ascending (t : Table) (low : Bytes) (bound : Option Bytes) :
    (t.range low bound).Pairwise fun a b => a.1 < b.1 := by
  unfold range
  extract_lets inside
  have hsorted : ((t.rows.filter inside).mergeSort fun a b => !decide (b.1 < a.1)).Pairwise
      fun a b => !decide (b.1 < a.1) := by
    apply List.pairwise_mergeSort
    · intro a b c hab hbc
      simp only [Bool.not_eq_true', decide_eq_false_iff_not] at hab hbc ⊢
      exact List.le_trans hab hbc
    · intro a b
      rcases Bytes.lt_trichotomy a.1 b.1 with h | h | h
      · simp [List.lt_asymm h]
      · simp [h, Bytes.lt_irrefl]
      · simp [List.lt_asymm h]
  have hdistinct : ((t.rows.filter inside).mergeSort fun a b => !decide (b.1 < a.1)).Pairwise
      fun a b => a.1 ≠ b.1 := by
    have hperm := List.mergeSort_perm (t.rows.filter inside) fun a b => !decide (b.1 < a.1)
    refine (hperm.pairwise_iff fun hab => Ne.symm hab).2 ?_
    exact (List.pairwise_map.1 t.distinct).sublist List.filter_sublist
  -- the sort alone leaves room for equal keys
  refine hsorted.imp₂ (fun a b hle hne => ?_) hdistinct
  simp only [Bool.not_eq_true', decide_eq_false_iff_not] at hle
  rcases Bytes.lt_trichotomy a.1 b.1 with h | h | h
  · exact h
  · exact absurd h hne
  · exact absurd h hle

namespace Backend

variable {b b' : Backend}

theorem scan_ascending (b : Backend) (start : Bytes) :
    ((b.perform (.scan start)).1).Pairwise fun a b => a.1 < b.1 := by
  cases b with
  | memory m => exact m.scan_ascending start
  | database t => exact t.range_ascending start start.bound?

theorem mem_scan_iff {start : Bytes} {e : Entry} :
    e ∈ (b.perform (.scan start)).1 ↔ e.1.startsWith start ∧ b.get? e.1 = some e.2 :=
  ⟨mem_scan, fun h => mem_scan_of h.1 h.2⟩

def Alike (b b' : Backend) : Prop :=
  ∀ key, b.get? key = b'.get? key

theorem Alike.perform (h : b.Alike b') (c : Call) : (b.perform c).1 = (b'.perform c).1 ∧
    (b.perform c).2.Alike (b'.perform c).2 := by
  cases c with
  | get key =>
    rw [perform_get, perform_get]
    exact ⟨h key, h⟩
  | set key value =>
    refine ⟨rfl, fun k => ?_⟩
    rw [get?_set, get?_set, h k]
  | delete key =>
    refine ⟨rfl, fun k => ?_⟩
    rw [get?_delete, get?_delete, h k]
  | scan start =>
    rw [perform_scan, perform_scan]
    refine ⟨eq_of_ascending (b.scan_ascending start) (b'.scan_ascending start) fun e => ?_, h⟩
    rw [mem_scan_iff, mem_scan_iff, h e.1]

theorem runOn_call {α : Type} (time : Int64) (c : Call)
    (next : Repository.Request.Answer (.call c) → Program Repository.interface α) (b : Backend) :
    Repository.runOn time (.ask (.call c) next) b =
      Repository.runOn time (next (.ok (b.perform c).1)) (b.perform c).2 := rfl

/-- Whatever a program asks of two such stores, it gets the same answers. -/
theorem Alike.runOn {α : Type} (h : b.Alike b') (time : Int64) (p : Program Repository.interface α) :
    (Repository.runOn time p b).1 = (Repository.runOn time p b').1 ∧
      (Repository.runOn time p b).2.Alike (Repository.runOn time p b').2 := by
  induction p generalizing b b' with
  | done a => exact ⟨rfl, h⟩
  | ask r next ih =>
    cases r with
    | clock => exact ih time h
    | call c =>
      obtain ⟨hanswer, hafter⟩ := h.perform c
      rw [runOn_call, runOn_call, ← hanswer]
      exact ih _ hafter

end Backend

inductive Query where
  | set (key value : Bytes)
  | get (key : Bytes)
  | delete (key : Bytes)
  | has (key : Bytes)
  | scan (start : Bytes)

namespace Query

abbrev Answer : Query → Type
  | set _ _ => Unit
  | get _ => Option Bytes
  | delete _ => Unit
  | has _ => Bool
  | scan _ => List Entry

def ask : (q : Query) → Repository.Action q.Answer
  | set key value => Repository.set key value
  | get key => Repository.get key
  | delete key => Repository.delete key
  | has key => Repository.has key
  | scan start => Repository.scan start

abbrev Answered := (q : Query) × Except StoreError q.Answer

def answers (time : Int64) : List Query → Backend → List Answered
  | [], _ => []
  | q :: rest, b =>
    let (a, b) := Repository.runOn time q.ask.run b
    ⟨q, a⟩ :: answers time rest b

abbrev Contents := Bytes → Option Bytes

def after (stored : Contents) : Query → Contents
  | set key value => Function.update stored key (some value)
  | delete key => Function.update stored key none
  | get _ | has _ | scan _ => stored

def Right (stored : Contents) : (q : Query) → q.Answer → Prop
  | set _ _, _ => True
  | get key, value => value = stored key
  | delete _, _ => True
  | has key, found => found = (stored key).isSome
  | scan start, entries => (entries.Pairwise fun a b => a.1 < b.1) ∧
      ∀ key value, (key, value) ∈ entries ↔ key.startsWith start ∧ stored key = some value

/-- Every answer is right for what the queries before it have stored. -/
def AllRight : Contents → List Answered → Prop
  | _, [] => True
  | stored, ⟨q, a⟩ :: rest => (∃ value, a = .ok value ∧ Right stored q value) ∧ AllRight (q.after stored) rest

theorem run_ask (time : Int64) (q : Query) (b : Backend) :
    ∃ value, (Repository.runOn time q.ask.run b).1 = .ok value ∧ Right b.get? q value ∧
      (Repository.runOn time q.ask.run b).2.get? = q.after b.get? := by
  cases q with
  | set key value =>
    refine ⟨(), rfl, trivial, funext fun k => ?_⟩
    exact (b.get?_set key value k).trans (Function.update_apply ..).symm
  | get key => exact ⟨b.get? key, rfl, rfl, congrArg (fun r => r.2.get?) (b.perform_get key)⟩
  | delete key =>
    refine ⟨(), rfl, trivial, funext fun k => ?_⟩
    exact (b.get?_delete key k).trans (Function.update_apply ..).symm
  | has key => exact ⟨(b.get? key).isSome, rfl, rfl, congrArg (fun r => r.2.get?) (b.perform_get key)⟩
  | scan start =>
    refine ⟨(b.perform (.scan start)).1, rfl, ⟨b.scan_ascending start, fun key value => ?_⟩, ?_⟩
    · exact Backend.mem_scan_iff
    · exact congrArg Backend.get? (b.perform_scan start)

theorem answers_right (time : Int64) (qs : List Query) (b : Backend) :
    AllRight b.get? (answers time qs b) := by
  induction qs generalizing b with
  | nil => trivial
  | cons q rest ih =>
    obtain ⟨value, hvalue, hright, hafter⟩ := q.run_ask time b
    refine ⟨⟨value, hvalue, hright⟩, ?_⟩
    rw [← hafter]
    exact ih _

theorem answers_alike (time : Int64) (qs : List Query) {b b' : Backend} (h : b.Alike b') :
    answers time qs b = answers time qs b' := by
  induction qs generalizing b b' with
  | nil => rfl
  | cons q rest ih =>
    obtain ⟨hanswer, hafter⟩ := h.runOn time q.ask.run
    simp only [answers]
    rw [hanswer, ih hafter]

/-- From empty, the volatile and the durable store answer every sequence of queries alike and rightly. -/
theorem stores_indistinguishable (time : Int64) (qs : List Query) :
    answers time qs (.memory .empty) = answers time qs (.database .empty) ∧
      AllRight (fun _ => none) (answers time qs (.memory .empty)) :=
  ⟨answers_alike time qs fun _ => rfl, answers_right time qs (.memory .empty)⟩

end Query

end CommitReveal.Store
