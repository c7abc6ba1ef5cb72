import CommitReveal.Proofs.Transcript
import CommitReveal.Repository.Action

/-! What the repository's operations call for. Some of them only read; the others keep to the entries of one
hash, and store no seed but the one they are given. -/
namespace CommitReveal.Repository

open Program

variable {h : Hash} {seed : Option Seed} {α β : Type}

/-- Calls that change nothing and find one value at most. -/
def Request.Reading : Request → Prop
  | .call (.get _) | .clock => True
  | _ => False

inductive Request.Keeping (h : Hash) (seed : Option Seed) : Request → Prop
  | reads {r : Request} (reading : r.Reading) : Keeping h seed r
  | stores {x : Seed} (given : x ∈ seed) : Keeping h seed (.call (.set (key .seed h) x.bytes))
  | writes {field : Field} {value : Bytes} (other : field ≠ .seed) :
    Keeping h seed (.call (.set (key field h) value))
  | unmarks : Keeping h seed (.call (.delete (key .pending h)))

abbrev Reads (a : Action α) : Prop :=
  a.run.Only Request.Reading

/-- An operation on a hash that stores no seed but this. -/
abbrev Keeps (h : Hash) (seed : Option Seed) (a : Action α) : Prop :=
  a.run.Only (Request.Keeping h seed)

theorem reads_get (k : Bytes) : Reads (get k) :=
  ⟨trivial, fun _ => trivial⟩

theorem reads_now : Reads now :=
  ⟨trivial, fun _ => trivial⟩

theorem reads_ofExcept (e : Except Store.StoreError α) : Reads (liftM e : Action α) := by
  cases e <;> trivial

theorem reads_decoded {k : Bytes} {f : Bytes → Except Store.StoreError α} : Reads (do
    match ← get k with
    | some bytes => return some (← f bytes)
    | none => return none) := by
  refine Only.attempt (reads_get k) fun value => ?_
  cases value with
  | none => trivial
  | some bytes => exact Only.attempt (reads_ofExcept _) fun _ => trivial

theorem reads_record : Reads (record h) :=
  reads_decoded

theorem reads_seed : Reads (Repository.seed h) :=
  reads_decoded

theorem reads_cursor : Reads cursor :=
  reads_decoded

theorem reads_status : Reads (status h) :=
  Only.attempt reads_record fun _ => trivial

theorem reads_isPending : Reads (isPending h) :=
  Only.attempt (reads_get _) fun _ => trivial

theorem reads_recordOr (st : Status) : Reads (recordOr h st) := by
  unfold recordOr
  refine Only.attempt reads_record fun r => ?_
  cases r with
  | some r => trivial
  | none => exact Only.attempt reads_now fun _ => trivial

section Operations

variable {K : Request → Prop} (hread : ∀ r, r.Reading → K r)
  (hrecord : ∀ value, K (.call (.set (key .record h) value)))

include hread hrecord

theorem only_setStatus (st : Status) : (setStatus h st).run.Only K := by
  unfold setStatus
  refine Only.attempt ((reads_recordOr st).imp hread) fun r => ?_
  split
  · trivial
  · refine Only.attempt (reads_now.imp hread) fun time => ?_
    exact Only.attempt ⟨hrecord _, fun _ => trivial⟩ fun _ => trivial

theorem only_setCommitBlock (block : Word) : (setCommitBlock h block).run.Only K := by
  unfold setCommitBlock
  refine Only.attempt ((reads_recordOr _).imp hread) fun r => ?_
  split
  · trivial
  · exact ⟨hrecord _, fun _ => trivial⟩

theorem only_storeSeed {x : Seed} (hseed : K (.call (.set (key .seed h) x.bytes))) :
    (storeSeed h x).run.Only K := by
  unfold storeSeed
  refine Only.attempt ⟨hseed, fun _ => trivial⟩ fun _ => Only.attempt (reads_record.imp hread) fun r => ?_
  split
  · exact Only.attempt (reads_now.imp hread) fun time => ⟨hrecord _, fun _ => trivial⟩
  · trivial

theorem only_finish (hunmark : K (.call (.delete (key .pending h)))) (st : Status) :
    (do clearPending h; discard <| setStatus h st : Action Unit).run.Only K :=
  Only.attempt ⟨hunmark, fun _ => trivial⟩ fun _ =>
    Only.attempt (only_setStatus hread hrecord st) fun _ => trivial

theorem only_markRevealed (hunmark : K (.call (.delete (key .pending h))))
    (hseed : ∀ x ∈ seed, K (.call (.set (key .seed h) x.bytes))) : (markRevealed h seed).run.Only K := by
  have close : (do
      clearPending h
      if (← status h) ≠ some .revealed then
        discard <| setStatus h .revealed : Action Unit).run.Only K := by
    refine Only.attempt ⟨hunmark, fun _ => trivial⟩ fun _ => ?_
    refine Only.attempt (reads_status.imp hread) fun st => ?_
    split
    · exact Only.attempt (only_setStatus hread hrecord _) fun _ => trivial
    · trivial
  unfold markRevealed
  cases seed with
  | none => exact close
  | some x => exact Only.attempt ⟨hseed x rfl, fun _ => trivial⟩ fun _ => close

end Operations

theorem keeps_reading (r : Request) (hr : r.Reading) : r.Keeping h seed :=
  .reads hr

theorem keeps_recording (value : Bytes) : (Request.call (.set (key .record h) value)).Keeping h seed :=
  .writes (by decide)

theorem Reads.keeps {a : Action α} (ha : Reads a) : Keeps h seed a :=
  ha.imp keeps_reading

theorem keeps_setStatus (st : Status) : Keeps h none (setStatus h st) :=
  only_setStatus keeps_reading keeps_recording st

theorem keeps_setCommitBlock (block : Word) : Keeps h none (setCommitBlock h block) :=
  only_setCommitBlock keeps_reading keeps_recording block

theorem keeps_clearPending : Keeps h seed (clearPending h) :=
  ⟨.unmarks, fun _ => trivial⟩

theorem keeps_finish (st : Status) : Keeps h none (do clearPending h; discard <| setStatus h st) :=
  only_finish keeps_reading keeps_recording .unmarks st

theorem keeps_markPending : Keeps h none (markPending h) := by
  have mark : Keeps h none (do set (key .pending h) [1]; return true) :=
    Only.attempt ⟨.writes (by decide), fun _ => trivial⟩ fun _ => trivial
  unfold markPending
  refine Only.attempt (reads_status.imp keeps_reading) fun st => ?_
  cases st with
  | none => exact mark
  | some st =>
    dsimp only
    split
    · trivial
    · exact mark

theorem keeps_storeSeed (x : Seed) : Keeps h (some x) (storeSeed h x) :=
  only_storeSeed keeps_reading keeps_recording (.stores rfl)

theorem keeps_markRevealed : Keeps h seed (markRevealed h seed) :=
  only_markRevealed keeps_reading keeps_recording .unmarks fun _ => .stores

end CommitReveal.Repository
