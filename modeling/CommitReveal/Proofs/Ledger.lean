import CommitReveal.Proofs.Contract
import CommitReveal.Proofs.Holdings
import CommitReveal.Proofs.Observation

/-! The rules by which all tasks of an agent write to its store. A hash is marked as pending only with
a seed and an open record, and the mark goes, or a final status comes, only once the hash is released.
Kept by every task, these rules keep the store in agreement with what was observed. -/
namespace CommitReveal.Agent

open Repository (Field key cursorKey Seeded Marked)
open Store (Backend)

variable {s : Settings} {b : Backend} {t t' : Trace} {h k : Hash} {σ τ : Shared}

/-- The store agrees with what was observed. -/
structure Ledger (s : Settings) (b : Backend) (t : Trace) : Prop where
  seed : ∀ h bytes, b.get? (key .seed h) = some bytes →
    ∃ seed : Seed, bytes = seed.bytes ∧ Sourced s h seed t
  record : ∀ h bytes, b.get? (key .record h) = some bytes →
    ∃ r : CommitRecord, bytes = r.encode ∧ (r.status.isTerminal → Released s h t)
  marked : ∀ h, Marked b h → Seeded b h ∧
    ∃ r : CommitRecord, b.get? (key .record h) = some r.encode ∧ r.status.isTerminal = false

/-- What may be put under a key. -/
inductive MayWrite (s : Settings) (b : Backend) (t : Trace) : Bytes → Bytes → Prop
  | seed {h : Hash} {seed : Seed} (sourced : Sourced s h seed t) :
    MayWrite s b t (key .seed h) seed.bytes
  | tx {h : Hash} {value : Bytes} : MayWrite s b t (key .tx h) value
  | record {h : Hash} {r : CommitRecord}
    (final : r.status.isTerminal → Released s h t ∧ ¬Marked b h) :
    MayWrite s b t (key .record h) r.encode
  | pending {h : Hash} {value : Bytes} {r : CommitRecord} (seeded : Seeded b h)
    (record : b.get? (key .record h) = some r.encode) (unfinished : r.status.isTerminal = false) :
    MayWrite s b t (key .pending h) value
  | cursor {value : Bytes} : MayWrite s b t cursorKey value

theorem Ledger.mono (hl : Ledger s b t) (ht : t <:+ t') : Ledger s b t' where
  seed h bytes hget := by
    obtain ⟨seed, hbytes, hsourced⟩ := hl.seed h bytes hget
    exact ⟨seed, hbytes, hsourced.mono ht⟩
  record h bytes hget := by
    obtain ⟨r, hbytes, hfinal⟩ := hl.record h bytes hget
    exact ⟨r, hbytes, fun hr => (hfinal hr).mono ht⟩
  marked := hl.marked

theorem seeded_set {key' value : Bytes} (hs : Seeded b h) :
    Seeded (b.perform (.set key' value)).2 h := by
  unfold Seeded at hs ⊢
  rw [Backend.get?_set]
  split
  · rfl
  · exact hs

theorem marked_set {key' value : Bytes} (hm : Marked b h) :
    Marked (b.perform (.set key' value)).2 h := by
  unfold Marked at hm ⊢
  rw [Backend.get?_set]
  split
  · rfl
  · exact hm

theorem seeded_delete : Seeded (b.perform (.delete (key .pending k))).2 h ↔ Seeded b h := by
  unfold Seeded
  rw [Repository.get?_delete_key, if_neg (by simp)]

theorem marked_delete :
    Marked (b.perform (.delete (key .pending k))).2 h ↔ h ≠ k ∧ Marked b h := by
  unfold Marked
  rw [Repository.get?_delete_key]
  by_cases hk : h = k <;> simp [hk]

theorem Ledger.delete (hl : Ledger s b t) : Ledger s (b.perform (.delete (key .pending k))).2 t where
  seed h bytes hget := by
    rw [Repository.get?_delete_key, if_neg (by simp)] at hget
    exact hl.seed h bytes hget
  record h bytes hget := by
    rw [Repository.get?_delete_key, if_neg (by simp)] at hget
    exact hl.record h bytes hget
  marked h hm := by
    obtain ⟨hseeded, r, hrecord, hopen⟩ := hl.marked h (marked_delete.1 hm).2
    refine ⟨seeded_delete.2 hseeded, r, ?_, hopen⟩
    rw [Repository.get?_delete_key, if_neg (by simp)]
    exact hrecord

theorem Ledger.set_seed (hl : Ledger s b t) {key' value : Bytes} (hw : MayWrite s b t key' value)
    {bytes : Bytes} (hget : (b.perform (.set key' value)).2.get? (key .seed h) = some bytes) :
    ∃ seed : Seed, bytes = seed.bytes ∧ Sourced s h seed t := by
  cases hw with
  | @seed k seed sourced =>
    rw [Repository.get?_set_key] at hget
    split at hget
    · rename_i heq
      obtain rfl := heq.2
      exact ⟨seed, (Option.some.inj hget).symm, sourced⟩
    · exact hl.seed h bytes hget
  | cursor => exact hl.seed h bytes (Repository.get?_set_cursor b _ _ _ ▸ hget)
  | _ =>
    rw [Repository.get?_set_key, if_neg (by simp)] at hget
    exact hl.seed h bytes hget

theorem Ledger.set_record (hl : Ledger s b t) {key' value : Bytes} (hw : MayWrite s b t key' value)
    {bytes : Bytes} (hget : (b.perform (.set key' value)).2.get? (key .record h) = some bytes) :
    ∃ r : CommitRecord, bytes = r.encode ∧ (r.status.isTerminal → Released s h t) := by
  cases hw with
  | @record k r final =>
    rw [Repository.get?_set_key] at hget
    split at hget
    · rename_i heq
      obtain rfl := heq.2
      exact ⟨r, (Option.some.inj hget).symm, fun hr => (final hr).1⟩
    · exact hl.record h bytes hget
  | cursor => exact hl.record h bytes (Repository.get?_set_cursor b _ _ _ ▸ hget)
  | _ =>
    rw [Repository.get?_set_key, if_neg (by simp)] at hget
    exact hl.record h bytes hget

theorem Ledger.set_marked (hl : Ledger s b t) {key' value : Bytes} (hw : MayWrite s b t key' value)
    (hm : Marked (b.perform (.set key' value)).2 h) :
    ∃ r : CommitRecord, (b.perform (.set key' value)).2.get? (key .record h) = some r.encode ∧
      r.status.isTerminal = false := by
  unfold Marked at hm
  cases hw with
  | @record k r final =>
    rw [Repository.get?_set_key, if_neg (by simp)] at hm
    rw [Repository.get?_set_key]
    obtain ⟨-, r', hr', hopen⟩ := hl.marked h hm
    split
    · rename_i heq
      obtain rfl := heq.2
      refine ⟨r, rfl, ?_⟩
      by_contra hr
      exact (final (by simpa using hr)).2 hm
    · exact ⟨r', hr', hopen⟩
  | @pending k value r seeded record unfinished =>
    rw [Repository.get?_set_key] at hm
    rw [Repository.get?_set_key, if_neg (by simp)]
    split at hm
    · rename_i heq
      obtain rfl := heq.2
      exact ⟨r, record, unfinished⟩
    · exact (hl.marked h hm).2
  | cursor =>
    rw [Repository.get?_set_cursor] at hm ⊢
    exact (hl.marked h hm).2
  | _ =>
    rw [Repository.get?_set_key, if_neg (by simp)] at hm ⊢
    exact (hl.marked h hm).2

theorem Ledger.set_seeded (hl : Ledger s b t) {key' value : Bytes} (hw : MayWrite s b t key' value)
    (hm : Marked (b.perform (.set key' value)).2 h) :
    Seeded (b.perform (.set key' value)).2 h := by
  apply seeded_set
  by_cases hbefore : Marked b h
  · exact (hl.marked h hbefore).1
  · unfold Marked at hm hbefore
    rw [Backend.get?_set] at hm
    split at hm
    · rename_i heq
      cases hw with
      | @pending k value r seeded record unfinished =>
        obtain rfl := (Repository.key_inj.1 heq).2
        exact seeded
      | cursor => exact absurd heq (Repository.key_ne_cursorKey _ _)
      | _ => exact absurd (Repository.key_inj.1 heq).1 (by simp)
    · exact absurd hm hbefore

theorem Ledger.set (hl : Ledger s b t) {key' value : Bytes} (hw : MayWrite s b t key' value) :
    Ledger s (b.perform (.set key' value)).2 t where
  seed _ _ hget := hl.set_seed hw hget
  record _ _ hget := hl.set_record hw hget
  marked _ hm := ⟨hl.set_seeded hw hm, hl.set_marked hw hm⟩

end CommitReveal.Agent
