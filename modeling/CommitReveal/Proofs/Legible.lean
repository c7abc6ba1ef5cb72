import CommitReveal.Proofs.Cards
import CommitReveal.Proofs.Obligation

/-! What can be read of one hash in any store, whatever else it holds, and what every operation of the repository
makes of that. On a hash that can be read, an operation fails only if one of its calls does. -/
namespace CommitReveal.Repository

open Program
open Store (Backend StoreError)

variable {b b' : Backend} {h : Hash} {c : Card} {α β : Type}

/-- What is read of a hash is what the card says, however the bytes of its record may go on. -/
structure Legible (b : Backend) (h : Hash) (c : Card) : Prop where
  seed : peek (Repository.seed h) b = .ok c.seed
  record : peek (Repository.record h) b = .ok c.record
  pending : peek (isPending h) b = .ok c.pending

def decoded (f : Bytes → Except StoreError α) : Option Bytes → Except StoreError (Option α)
  | none => .ok none
  | some bytes => (f bytes).map some

theorem run_decoded (k : Bytes) (f : Bytes → Except StoreError α) :
    (do
      match ← get k with
      | some bytes => return some (← f bytes)
      | none => return none : Action (Option α)).run =
    .ask (.call (.get k)) fun answer => .done (answer.bind (decoded f)) := by
  refine congrArg (Program.ask _) (funext fun answer => ?_)
  cases answer with
  | error cause => rfl
  | ok value =>
    cases value with
    | none => rfl
    | some bytes =>
      show (do return some (← liftM (f bytes)) : Action (Option α)).run = .done ((f bytes).map some)
      cases f bytes <;> rfl

theorem peek_seed_eq (b : Backend) (h : Hash) :
    peek (Repository.seed h) b = decoded hashOfBytes (b.get? (key .seed h)) := by
  refine (congrArg (fun p => (runOn 0 p b).1) (run_decoded (key .seed h) hashOfBytes)).trans ?_
  cases b <;> rfl

theorem peek_record_eq (b : Backend) (h : Hash) :
    peek (Repository.record h) b = decoded recordOfBytes (b.get? (key .record h)) := by
  refine (congrArg (fun p => (runOn 0 p b).1) (run_decoded (key .record h) recordOfBytes)).trans ?_
  cases b <;> rfl

theorem Card.Shows.legible (hc : c.Shows b h) : Legible b h c :=
  ⟨hc.peek_seed, hc.peek_record, hc.peek_isPending⟩

namespace Legible

theorem of_unknown (hnew : ∀ field, b.get? (key field h) = none) : Legible b h ⟨none, none, false⟩ where
  seed := peek_seed_none (hnew .seed)
  record := by rw [peek_record_eq, hnew]; rfl
  pending := by rw [peek_isPending, hnew]; rfl

theorem of_same (hc : Legible b h c)
    (same : ∀ field, field ≠ .tx → b'.get? (key field h) = b.get? (key field h)) : Legible b' h c where
  seed := by rw [peek_seed_eq, same .seed (by decide), ← peek_seed_eq, hc.seed]
  record := by rw [peek_record_eq, same .record (by decide), ← peek_record_eq, hc.record]
  pending := by rw [peek_isPending, same .pending (by decide), ← peek_isPending, hc.pending]

theorem inj {c' : Card} (hc : Legible b h c) (hc' : Legible b h c') : c = c' := by
  have hseed := Except.ok.inj (hc.seed.symm.trans hc'.seed)
  have hrecord := Except.ok.inj (hc.record.symm.trans hc'.record)
  have hpending := Except.ok.inj (hc.pending.symm.trans hc'.pending)
  cases c
  cases c'
  simp_all

theorem set_seed (hc : Legible b h c) (seed : Seed) :
    Legible (b.perform (.set (key .seed h) seed.bytes)).2 h { c with seed := some seed } where
  seed := peek_seed (get?_set_self ..)
  record := by rw [peek_record_eq, get?_set_field (by decide), ← peek_record_eq, hc.record]
  pending := by rw [peek_isPending, get?_set_field (by decide), ← peek_isPending, hc.pending]

theorem set_record (hc : Legible b h c) (r : CommitRecord) :
    Legible (b.perform (.set (key .record h) r.encode)).2 h { c with record := some r } where
  seed := by rw [peek_seed_eq, get?_set_field (by decide), ← peek_seed_eq, hc.seed]
  record := peek_record (get?_set_self ..)
  pending := by rw [peek_isPending, get?_set_field (by decide), ← peek_isPending, hc.pending]

theorem set_pending (hc : Legible b h c) (value : Bytes) :
    Legible (b.perform (.set (key .pending h) value)).2 h { c with pending := true } where
  seed := by rw [peek_seed_eq, get?_set_field (by decide), ← peek_seed_eq, hc.seed]
  record := by rw [peek_record_eq, get?_set_field (by decide), ← peek_record_eq, hc.record]
  pending := by rw [peek_isPending, get?_set_self]; rfl

theorem delete_pending (hc : Legible b h c) :
    Legible (b.perform (.delete (key .pending h))).2 h c.clearPending where
  seed := by rw [peek_seed_eq, get?_delete_field (by decide), ← peek_seed_eq]; exact hc.seed
  record := by rw [peek_record_eq, get?_delete_field (by decide), ← peek_record_eq]; exact hc.record
  pending := by rw [peek_isPending, get?_delete_self]; rfl

end Legible

/-- A store, and whether a call to it has failed. -/
structure Tally where
  store : Backend
  failed : Bool

/-- How a call may be answered. After a failure nothing is known of the store. -/
def Tally.Served : (r : Request) → r.Answer → Tally → Tally → Prop
  | .call c, .ok a, m, m' => a = (m.store.perform c).1 ∧ m' = ⟨(m.store.perform c).2, m.failed⟩
  | .call _, .error _, _, m' => m'.failed = true
  | .clock, _, m, m' => m' = m

abbrev tally : Surroundings interface where
  State := Tally
  Allows _ _ := True
  Meanwhile _ m m' := m' = m
  Served := Tally.Served

/-- The operation ends as told without a failure, or a call has failed. -/
abbrev Tries (x : Action α) (Q : α → Backend → Prop) (m : Tally) : Prop :=
  Attempts tally x (fun a m' => Q a m'.store ∧ m'.failed = m.failed) (fun _ m' => m'.failed = true) m

variable {m : Tally}

theorem Tries.andThen {x : Action α} {f : α → Action β} {P : α → Backend → Prop} {Q : β → Backend → Prop}
    (hx : Tries x P m) (hf : ∀ a m', P a m'.store → Tries (f a) Q m') : Tries (x >>= f) Q m := by
  refine attempts_bind.2 (hx.imp (fun a m' ⟨hP, hsame⟩ => ?_) fun _ _ => id)
  exact (hf a m' hP).imp (fun _ _ ⟨hQ, hsame'⟩ => ⟨hQ, hsame'.trans hsame⟩) fun _ _ => id

theorem Tries.mono {x : Action α} {P Q : α → Backend → Prop} (hx : Tries x P m)
    (hPQ : ∀ a b, P a b → Q a b) : Tries x Q m :=
  hx.imp (fun a m' hP => ⟨hPQ a m'.store hP.1, hP.2⟩) fun _ _ => id

theorem tries_pure {a : α} {Q : α → Backend → Prop} (hQ : Q a m.store) : Tries (pure a) Q m :=
  ⟨hQ, rfl⟩

theorem tries_call {c : Store.Call} {Q : c.Result → Backend → Prop}
    (hQ : Q (m.store.perform c).1 (m.store.perform c).2) :
    Tries (ExceptT.mk (Program.request (I := interface) (.call c)) : Action c.Result) Q m := by
  rintro m' rfl
  refine ⟨trivial, fun a m'' hserved => ?_⟩
  cases a with
  | ok a =>
    obtain ⟨rfl, rfl⟩ := hserved
    exact ⟨hQ, rfl⟩
  | error cause => exact hserved

theorem tries_now : Tries now (fun _ b => b = m.store) m := by
  refine (attempts_lift (Program.request (I := interface) .clock)).2 ?_
  rintro m' rfl
  refine ⟨trivial, fun a m'' hserved => ?_⟩
  obtain rfl : m'' = m' := hserved
  exact ⟨rfl, rfl⟩

theorem tries_decoded {k : Bytes} {f : Bytes → Except StoreError α} {x : Option α}
    (hx : decoded f (m.store.get? k) = .ok x) : Tries (do
      match ← get k with
      | some bytes => return some (← f bytes)
      | none => return none) (fun y b => y = x ∧ b = m.store) m := by
  unfold Tries Attempts
  rw [run_decoded]
  rintro m' rfl
  refine ⟨trivial, fun a m'' hserved => ?_⟩
  cases a with
  | ok value =>
    obtain ⟨rfl, rfl⟩ := hserved
    rw [m'.store.perform_get]
    show Outcome _ _ (decoded f _) _
    rw [hx]
    exact ⟨⟨rfl, rfl⟩, rfl⟩
  | error cause => exact hserved

theorem tries_seed (hc : Legible m.store h c) :
    Tries (Repository.seed h) (fun seed b => seed = c.seed ∧ b = m.store) m :=
  tries_decoded ((peek_seed_eq ..).symm.trans hc.seed)

theorem tries_record (hc : Legible m.store h c) :
    Tries (Repository.record h) (fun r b => r = c.record ∧ b = m.store) m :=
  tries_decoded ((peek_record_eq ..).symm.trans hc.record)

theorem tries_status (hc : Legible m.store h c) :
    Tries (Repository.status h) (fun st b => st = c.status ∧ b = m.store) m := by
  unfold Repository.status
  refine (tries_record hc).andThen fun r m' ⟨hr, hstore⟩ => ?_
  exact tries_pure ⟨congrArg _ hr, hstore⟩

theorem tries_recordOr (hc : Legible m.store h c) (st : Status) : Tries (recordOr h st)
    (fun r b => (∃ time, r = c.record.getD ⟨st, none, time⟩) ∧ b = m.store) m := by
  unfold recordOr
  refine (tries_record hc).andThen fun r m' ⟨hr, hstore⟩ => ?_
  subst hr
  cases hrecord : c.record with
  | none => exact tries_now.andThen fun time m'' hstore' => tries_pure ⟨⟨time, rfl⟩, hstore'.trans hstore⟩
  | some r => exact tries_pure ⟨⟨0, rfl⟩, hstore⟩

theorem tries_putRecord (hc : Legible m.store h c) (r : CommitRecord) :
    Tries (putRecord h r) (fun _ b => Legible b h { c with record := some r }) m :=
  tries_call (hc.set_record r)

def Turns (h : Hash) (c : Card) (op : Int64 → Card → Card) (b : Backend) : Prop :=
  ∃ time, Legible b h (op time c)

theorem tries_setStatus (hc : Legible m.store h c) (st : Status) :
    Tries (setStatus h st) (fun _ b => Turns h c (Card.setStatus st) b) m := by
  unfold setStatus
  refine (tries_recordOr hc st).andThen ?_
  rintro r m₁ ⟨⟨first, rfl⟩, hstore₁⟩
  have hc₁ : Legible m₁.store h c := hstore₁ ▸ hc
  split
  · rename_i hclosed
    exact tries_pure ⟨first, by rwa [Card.setStatus_of_closed hclosed]⟩
  · rename_i hopen
    refine tries_now.andThen fun time m₂ hstore₂ => ?_
    have hc₂ : Legible m₂.store h c := hstore₂ ▸ hc₁
    refine (tries_putRecord hc₂ _).andThen fun _ m₃ hc₃ => tries_pure ⟨time, ?_⟩
    rwa [Card.setStatus_of_open hopen]

theorem tries_setCommitBlock (hc : Legible m.store h c) (block : Word) :
    Tries (setCommitBlock h block) (fun _ b => Turns h c (Card.setCommitBlock block) b) m := by
  unfold setCommitBlock
  refine (tries_recordOr hc .committed).andThen ?_
  rintro r m₁ ⟨⟨time, rfl⟩, hstore₁⟩
  have hc₁ : Legible m₁.store h c := hstore₁ ▸ hc
  split
  · rename_i hknown
    exact tries_pure ⟨time, by rwa [Card.setCommitBlock_of_known hknown]⟩
  · refine (tries_putRecord hc₁ _).mono fun _ b hb => ⟨time, ?_⟩
    rwa [Card.setCommitBlock_eq]

theorem tries_setSeed (hc : Legible m.store h c) (seed : Seed) :
    Tries (set (key .seed h) seed.bytes) (fun _ b => Legible b h { c with seed := some seed }) m :=
  tries_call (hc.set_seed seed)

theorem tries_storeSeed (hc : Legible m.store h c) (seed : Seed) :
    Tries (storeSeed h seed) (fun _ b => Turns h c (Card.storeSeed seed) b) m := by
  unfold storeSeed
  refine (tries_setSeed hc seed).andThen fun _ m₁ hc₁ => ?_
  refine (tries_record hc₁).andThen fun r m₂ ⟨hr, hstore₂⟩ => ?_
  subst hr
  have hc₂ : Legible m₂.store h { c with seed := some seed } := hstore₂ ▸ hc₁
  dsimp only
  cases hrecord : c.record with
  | some r =>
    refine tries_pure ⟨0, ?_⟩
    rwa [Card.storeSeed, hrecord, Option.getD_some, ← hrecord]
  | none =>
    refine tries_now.andThen fun time m₃ hstore₃ => ?_
    have hc₃ : Legible m₃.store h { c with seed := some seed } := hstore₃ ▸ hc₂
    refine (tries_putRecord hc₃ _).mono fun _ b hb => ⟨time, ?_⟩
    rwa [Card.storeSeed, hrecord, Option.getD_none]

theorem tries_markPending (hc : Legible m.store h c) :
    Tries (markPending h) (fun _ b => Legible b h c.markPending) m := by
  have mark {m' : Tally} (hc' : Legible m'.store h c) (hopen : c.finished = false) :
      Tries (do set (key .pending h) [1]; return true) (fun _ b => Legible b h c.markPending) m' := by
    refine Tries.andThen (P := fun _ b => Legible b h c.markPending) (tries_call ?_) fun _ _ hmarked =>
      tries_pure hmarked
    rw [Card.markPending, hopen]
    exact hc'.set_pending [1]
  unfold markPending
  refine (tries_status hc).andThen fun st m' ⟨hst, hstore⟩ => ?_
  subst hst
  have hc' : Legible m'.store h c := hstore ▸ hc
  cases hst : c.status with
  | none => exact mark hc' (by simp [Card.finished, hst])
  | some st =>
    dsimp only
    split
    · rename_i hfinal
      have hfinished : c.finished = true := by simpa [Card.finished, hst] using hfinal
      exact tries_pure (by rwa [Card.markPending, if_pos hfinished])
    · rename_i hopen
      exact mark hc' (by simpa [Card.finished, hst] using hopen)

theorem tries_clearPending (hc : Legible m.store h c) :
    Tries (clearPending h) (fun _ b => Legible b h c.clearPending) m :=
  tries_call hc.delete_pending

theorem tries_discard {x : Action α} {P : Backend → Prop} (hx : Tries x (fun _ b => P b) m) :
    Tries (discard x) (fun _ b => P b) m :=
  attempts_discard.2 hx

theorem tries_finish (hc : Legible m.store h c) (st : Status) :
    Tries (do clearPending h; discard <| setStatus h st) (fun _ b => Turns h c (Card.finish st) b) m :=
  (tries_clearPending hc).andThen fun _ _ hc' => tries_discard (tries_setStatus hc' st)

theorem tries_markRevealed (hc : Legible m.store h c) (seed : Option Seed) :
    Tries (markRevealed h seed) (fun _ b => Turns h c (Card.markRevealed seed) b) m := by
  -- the seed has been seen to: what is left is to clear the mark and to close the status
  have close {m' : Tally} (hc' : Legible m'.store h { c with seed := seed.or c.seed }) :
      Tries (do
        clearPending h
        if (← Repository.status h) ≠ some .revealed then
          discard <| setStatus h .revealed) (fun _ b => Turns h c (Card.markRevealed seed) b) m' := by
    refine (tries_clearPending hc').andThen fun _ m₁ hc₁ => ?_
    refine (tries_status hc₁).andThen fun st m₂ ⟨hst, hstore₂⟩ => ?_
    subst hst
    have hc₂ := hc₁
    rw [← hstore₂] at hc₂
    split
    · rename_i hopen
      have hcard (time : Int64) : c.markRevealed seed time = _ := if_neg hopen
      refine tries_discard ((tries_setStatus hc₂ .revealed).mono fun _ b ⟨time, hb⟩ => ⟨time, ?_⟩)
      rwa [hcard]
    · rename_i hdone
      have hcard : c.markRevealed seed 0 = _ := if_pos (not_not.1 hdone)
      exact tries_pure ⟨0, by rwa [hcard]⟩
  unfold markRevealed
  cases seed with
  | none => exact close hc
  | some seed => exact (tries_setSeed hc seed).andThen fun _ m' hc' => close hc'

end CommitReveal.Repository
