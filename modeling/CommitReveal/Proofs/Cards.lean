import CommitReveal.Proofs.Holdings
import Mathlib.Logic.Function.Basic

/-! What a store holds about each hash, as a card, and what every operation of the repository makes of
the card. The times are those at which a record was written. -/
namespace CommitReveal.Repository

open Store (Backend)

/-- All that is kept about a hash, but for its transaction. -/
structure Card where
  seed : Option Seed
  record : Option CommitRecord
  /-- Whether the hash stands in the pending set. -/
  pending : Bool
deriving DecidableEq

namespace Card

def status (c : Card) : Option Status :=
  c.record.map (·.status)

def block (c : Card) : Option Word :=
  c.record.bind (·.commitBlock)

/-- The status is final. -/
def finished (c : Card) : Bool :=
  c.status.any Status.isTerminal

/-- There is a record, and its status is not final. -/
def unfinished (c : Card) : Bool :=
  c.status.any fun st => !st.isTerminal

def storeSeed (seed : Seed) (time : Int64) (c : Card) : Card :=
  { c with seed := some seed, record := some (c.record.getD ⟨.created, none, time⟩) }

def setStatus (st : Status) (time : Int64) (c : Card) : Card :=
  match c.record with
  | none => { c with record := some ⟨st, none, time⟩ }
  | some r =>
    if r.status.isTerminal && r.status ≠ st then c
    else { c with record := some { r with status := st, updatedAt := time } }

def setCommitBlock (block : Word) (time : Int64) (c : Card) : Card :=
  match c.record with
  | none => { c with record := some ⟨.committed, some block, time⟩ }
  | some r => { c with record := some { r with commitBlock := some block } }

variable {c : Card} {st : Status} {first time : Int64} {block : Word}

theorem setStatus_of_closed (hclosed : (c.record.getD ⟨st, none, first⟩).status.isTerminal &&
    (c.record.getD ⟨st, none, first⟩).status ≠ st) : c.setStatus st time = c := by
  cases hcard : c.record with
  | none => simp [hcard] at hclosed
  | some r =>
    rw [hcard, Option.getD_some] at hclosed
    simp only [setStatus, hcard, if_pos hclosed]

theorem setStatus_of_open (hopen : ¬((c.record.getD ⟨st, none, first⟩).status.isTerminal &&
    (c.record.getD ⟨st, none, first⟩).status ≠ st)) : c.setStatus st time = { c with
      record := some { c.record.getD ⟨st, none, first⟩ with status := st, updatedAt := time } } := by
  cases hcard : c.record with
  | none => simp only [setStatus, hcard, Option.getD_none]
  | some r =>
    rw [hcard, Option.getD_some] at hopen
    simp only [setStatus, hcard, if_neg hopen, Option.getD_some]

theorem setCommitBlock_eq : c.setCommitBlock block time = { c with
    record := some { c.record.getD ⟨.committed, none, time⟩ with commitBlock := some block } } := by
  cases hcard : c.record <;> simp only [setCommitBlock, hcard, Option.getD_none, Option.getD_some]

theorem setCommitBlock_of_known (hknown : (c.record.getD ⟨.committed, none, time⟩).commitBlock = some block) :
    c.setCommitBlock block time = c := by
  cases hcard : c.record with
  | none => simp [hcard] at hknown
  | some r =>
    rw [hcard, Option.getD_some] at hknown
    rw [setCommitBlock_eq, hcard, Option.getD_some, ← hknown, ← hcard]

def markPending (c : Card) : Card :=
  if c.finished then c else { c with pending := true }

@[simp] theorem record_markPending (c : Card) : c.markPending.record = c.record := by
  unfold markPending
  split <;> rfl

def clearPending (c : Card) : Card :=
  { c with pending := false }

def finish (st : Status) (time : Int64) (c : Card) : Card :=
  c.clearPending.setStatus st time

def markRevealed (seed : Option Seed) (time : Int64) (c : Card) : Card :=
  let known : Card := { c.clearPending with seed := seed.or c.seed }
  if known.status = some .revealed then known else known.setStatus .revealed time

end Card

/-- What the store holds about a hash is what the card says. -/
structure Card.Shows (c : Card) (b : Backend) (h : Hash) : Prop where
  seed : b.get? (key .seed h) = c.seed.map (·.bytes)
  record : Recorded b h c.record
  pending : (b.get? (key .pending h)).isSome = c.pending

/-- The cards of all hashes. -/
abbrev Shelf := Hash → Card

def Stands (b : Backend) (shelf : Shelf) : Prop :=
  ∀ h, (shelf h).Shows b h

variable {b b' : Backend} {shelf : Shelf} {c : Card} {h : Hash}

theorem recorded_inj {r r' : Option CommitRecord} (hr : Recorded b h r) (hr' : Recorded b h r') :
    r = r' := by
  have heq : r.map CommitRecord.encode = r'.map CommitRecord.encode := hr.symm.trans hr'
  exact Option.map_injective (fun _ _ => encode_inj) heq

theorem Card.Shows.of_same (hc : c.Shows b h)
    (same : ∀ field, field ≠ .tx → b'.get? (key field h) = b.get? (key field h)) : c.Shows b' h where
  seed := (same .seed (by decide)).trans hc.seed
  record := (same .record (by decide)).trans hc.record
  pending := (congrArg _ (same .pending (by decide))).trans hc.pending

theorem Stands.update (hs : Stands b shelf) (hc : c.Shows b' h)
    (others : ∀ field k, k ≠ h → b'.get? (key field k) = b.get? (key field k)) :
    Stands b' (Function.update shelf h c) := by
  intro k
  by_cases hk : k = h
  · subst hk
    rw [Function.update_self]
    exact hc
  · rw [Function.update_of_ne hk]
    exact (hs k).of_same fun field _ => others field k hk

theorem Stands.set (hs : Stands b shelf) {field : Field} {value : Bytes}
    (hc : c.Shows (b.perform (.set (key field h) value)).2 h) :
    Stands (b.perform (.set (key field h) value)).2 (Function.update shelf h c) := by
  refine hs.update hc fun f k hk => ?_
  rw [get?_set_key, if_neg fun heq => hk heq.2]

theorem Stands.set_seed (hs : Stands b shelf) (seed : Seed) :
    Stands (b.perform (.set (key .seed h) seed.bytes)).2
      (Function.update shelf h { shelf h with seed := some seed }) := by
  refine hs.set ⟨?_, ?_, ?_⟩
  · exact get?_set_self ..
  · exact (get?_set_field (by decide) ..).trans (hs h).record
  · rw [get?_set_field (by decide)]
    exact (hs h).pending

theorem Stands.set_record (hs : Stands b shelf) (r : CommitRecord) :
    Stands (b.perform (.set (key .record h) r.encode)).2
      (Function.update shelf h { shelf h with record := some r }) := by
  refine hs.set ⟨?_, ?_, ?_⟩
  · exact (get?_set_field (by decide) ..).trans (hs h).seed
  · exact get?_set_self ..
  · rw [get?_set_field (by decide)]
    exact (hs h).pending

theorem Stands.set_pending (hs : Stands b shelf) (value : Bytes) :
    Stands (b.perform (.set (key .pending h) value)).2
      (Function.update shelf h { shelf h with pending := true }) := by
  refine hs.set ⟨?_, ?_, ?_⟩
  · exact (get?_set_field (by decide) ..).trans (hs h).seed
  · exact (get?_set_field (by decide) ..).trans (hs h).record
  · rw [get?_set_self]
    rfl

theorem Stands.delete_pending (hs : Stands b shelf) :
    Stands (b.perform (.delete (key .pending h))).2
      (Function.update shelf h (shelf h).clearPending) := by
  refine hs.update ⟨?_, ?_, ?_⟩ fun field k hk => ?_
  · exact (get?_delete_field (by decide) ..).trans (hs h).seed
  · exact (get?_delete_field (by decide) ..).trans (hs h).record
  · rw [get?_delete_self]
    rfl
  · rw [get?_delete_key, if_neg fun heq => hk heq.2]

theorem Card.Shows.peek_seed (hc : c.Shows b h) : peek (Repository.seed h) b = .ok c.seed := by
  have hseed := hc.seed
  cases hcard : c.seed with
  | none =>
    rw [hcard] at hseed
    exact peek_seed_none hseed
  | some seed =>
    rw [hcard] at hseed
    exact Repository.peek_seed hseed

theorem Card.Shows.peek_record (hc : c.Shows b h) :
    peek (Repository.record h) b = .ok c.record := by
  have hrecord := hc.record
  unfold Recorded at hrecord
  cases hcard : c.record with
  | none =>
    unfold Repository.record
    rw [peek_get_bind, hrecord, hcard]
    rfl
  | some r =>
    rw [hcard] at hrecord
    exact Repository.peek_record hrecord

theorem Card.Shows.peek_status (hc : c.Shows b h) :
    peek (Repository.status h) b = .ok c.status :=
  peek_status_recorded hc.record

theorem Card.Shows.peek_isPending (hc : c.Shows b h) :
    peek (Repository.isPending h) b = .ok c.pending := by
  rw [Repository.peek_isPending, hc.pending]

end CommitReveal.Repository
