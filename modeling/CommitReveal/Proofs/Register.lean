import CommitReveal.Proofs.Conditions
import CommitReveal.Proofs.ScanOrder

/-! The repository as a register: a card and a transaction for each hash, and one cursor. On a store that
never fails each operation makes of the register what it should, whatever the clock says, and every
reading operation finds what stands in it. -/
namespace CommitReveal.Repository

open Program
open Conditions (fair attempts_call attempts_now outcome_perform)
open Store (Backend Call)

/-- The reading of the clock that stays in a record: one that is not there yet is dated twice. -/
def Card.dated (c : Card) (clock : Nat → Int64) : Int64 :=
  clock (if c.record.isNone then 1 else 0)

def Card.refuses (c : Card) (st : Status) : Bool :=
  c.record.any fun r => r.status.isTerminal && r.status ≠ st

inductive Operation where
  | storeSeed (h : Hash) (seed : Seed)
  | storeTx (h : Hash) (tx : TxHash)
  | setStatus (h : Hash) (st : Status)
  | setCommitBlock (h : Hash) (block : Word)
  | markPending (h : Hash)
  | clearPending (h : Hash)
  | markRevealed (h : Hash) (seed : Option Seed)
  | markExpired (h : Hash)
  | markAbandoned (h : Hash)
  | setCursor (block : Word)

namespace Operation

abbrev Answer : Operation → Type
  | setStatus .. | markPending _ => Bool
  | _ => Unit

def action : (o : Operation) → Action o.Answer
  | storeSeed h seed => Repository.storeSeed h seed
  | storeTx h tx => Repository.storeTx h tx
  | setStatus h st => Repository.setStatus h st
  | setCommitBlock h block => Repository.setCommitBlock h block
  | markPending h => Repository.markPending h
  | clearPending h => Repository.clearPending h
  | markRevealed h seed => Repository.markRevealed h seed
  | markExpired h => Repository.markExpired h
  | markAbandoned h => Repository.markAbandoned h
  | setCursor block => Repository.setCursor block

/-- The hash that an operation is about, unless it is about the cursor. -/
def about : Operation → Option Hash
  | storeSeed h _ | storeTx h _ | setStatus h _ | setCommitBlock h _ | markPending h | clearPending h
  | markRevealed h _ | markExpired h | markAbandoned h => some h
  | setCursor _ => none

end Operation

structure Register where
  cards : Shelf
  txs : Hash → Option TxHash
  cursor : Option Word

namespace Register

def empty : Register :=
  ⟨fun _ => ⟨none, none, false⟩, fun _ => none, none⟩

def put (r : Register) (h : Hash) (c : Card) : Register :=
  { r with cards := Function.update r.cards h c }

/-- What an operation makes of a register, when its readings of the clock are these. -/
def revise (clock : Nat → Int64) (r : Register) : Operation → Register
  | .storeSeed h seed => r.put h ((r.cards h).storeSeed seed (clock 0))
  | .storeTx h tx => { r with txs := Function.update r.txs h (some tx) }
  | .setStatus h st => r.put h ((r.cards h).setStatus st ((r.cards h).dated clock))
  | .setCommitBlock h block => r.put h ((r.cards h).setCommitBlock block (clock 0))
  | .markPending h => r.put h (r.cards h).markPending
  | .clearPending h => r.put h (r.cards h).clearPending
  | .markRevealed h seed => r.put h ((r.cards h).markRevealed seed ((r.cards h).dated clock))
  | .markExpired h => r.put h ((r.cards h).finish .expired ((r.cards h).dated clock))
  | .markAbandoned h => r.put h ((r.cards h).finish .abandoned ((r.cards h).dated clock))
  | .setCursor block => { r with cursor := some block }

def reply (r : Register) : (o : Operation) → o.Answer
  | .setStatus h st => !(r.cards h).refuses st
  | .markPending h => !(r.cards h).finished
  | .storeSeed .. | .storeTx .. | .setCommitBlock .. | .clearPending _ | .markRevealed .. | .markExpired _
  | .markAbandoned _ | .setCursor _ => ()

theorem revise_cards_of_ne (clock : Nat → Int64) (r : Register) {o : Operation} {k : Hash}
    (hk : o.about ≠ some k) : (r.revise clock o).cards k = r.cards k := by
  cases o with
  | storeTx h tx | setCursor block => rfl
  | _ => exact Function.update_of_ne (fun heq => hk (congrArg some heq.symm)) ..

theorem revise_txs_of_ne (clock : Nat → Int64) (r : Register) {o : Operation} {k : Hash}
    (hk : o.about ≠ some k) : (r.revise clock o).txs k = r.txs k := by
  cases o with
  | storeTx h tx => exact Function.update_of_ne (fun heq => hk (congrArg some heq.symm)) ..
  | _ => rfl

theorem revise_cursor_of_about (clock : Nat → Int64) (r : Register) {o : Operation}
    (ho : o.about ≠ none) : (r.revise clock o).cursor = r.cursor := by
  cases o with
  | setCursor block => exact absurd rfl ho
  | _ => rfl

/-- What the store holds is what the register says, and nothing else. -/
structure Kept (r : Register) (b : Backend) : Prop where
  cards : Stands b r.cards
  txs : ∀ h, b.get? (key .tx h) = (r.txs h).map (·.bytes)
  cursor : b.get? cursorKey = r.cursor.map fun c => Bytes.ofNatBE 8 c.toNat
  keys : ∀ k, (b.get? k).isSome → (∃ field h, k = key field h) ∨ k = cursorKey

variable {r : Register} {b b' : Backend} {h : Hash} {c : Card}

theorem kept_empty (hempty : ∀ k, b.get? k = none) : empty.Kept b where
  cards h := ⟨hempty _, hempty _, congrArg Option.isSome (hempty _)⟩
  txs h := hempty _
  cursor := hempty _
  keys k hk := by
    rw [hempty k] at hk
    cases hk

theorem Kept.put (hk : r.Kept b) (field : Field) (hfield : field ≠ .tx)
    (hcards : Stands b' (r.put h c).cards)
    (hsame : ∀ k, k ≠ key field h → b'.get? k = b.get? k) : (r.put h c).Kept b' where
  cards := hcards
  txs k := (hsame _ (key_ne (Ne.symm hfield) k h)).trans (hk.txs k)
  cursor := (hsame _ (key_ne_cursorKey field h).symm).trans hk.cursor
  keys k hsome := by
    by_cases hkey : k = key field h
    · exact .inl ⟨field, h, hkey⟩
    · rw [hsame k hkey] at hsome
      exact hk.keys k hsome

theorem Kept.set (hk : r.Kept b) {field : Field} {value : Bytes} (hfield : field ≠ .tx)
    (hcards : Stands (b.perform (.set (key field h) value)).2 (r.put h c).cards) :
    (r.put h c).Kept (b.perform (.set (key field h) value)).2 := by
  refine hk.put field hfield hcards fun k hkey => ?_
  rw [Backend.get?_set, if_neg hkey]

theorem Kept.delete_pending (hk : r.Kept b) :
    (r.put h (r.cards h).clearPending).Kept (b.perform (.delete (key .pending h))).2 := by
  refine hk.put .pending (by decide) hk.cards.delete_pending fun k hkey => ?_
  rw [Backend.get?_delete, if_neg hkey]

theorem Kept.set_tx (hk : r.Kept b) (tx : TxHash) :
    ({ r with txs := Function.update r.txs h (some tx) } : Register).Kept
      (b.perform (.set (key .tx h) tx.bytes)).2 where
  cards k := (hk.cards k).of_same fun field hfield => get?_set_field hfield ..
  txs k := by
    rw [get?_set_key, hk.txs]
    by_cases hkh : k = h
    · simp [hkh]
    · simp [hkh, Function.update_of_ne]
  cursor := by
    rw [Backend.get?_set, if_neg (key_ne_cursorKey .tx h).symm]
    exact hk.cursor
  keys k hsome := by
    rw [Backend.get?_set] at hsome
    split at hsome
    · exact .inl ⟨.tx, h, by assumption⟩
    · exact hk.keys k hsome

theorem Kept.set_cursor (hk : r.Kept b) (block : Word) :
    ({ r with cursor := some block } : Register).Kept
      (b.perform (.set cursorKey (Bytes.ofNatBE 8 block.toNat))).2 where
  cards k := (hk.cards k).of_same fun field _ => get?_set_cursor ..
  txs k := (get?_set_cursor ..).trans (hk.txs k)
  cursor := by
    rw [Backend.get?_set, if_pos rfl]
    rfl
  keys k hsome := by
    rw [Backend.get?_set] at hsome
    split at hsome
    · exact .inr (by assumption)
    · exact hk.keys k hsome

abbrev Does (clock : Nat → Int64) (x : Action α) (Q : α → Moment → Prop) (m : Moment) : Prop :=
  Attempts (fair clock).alone x Q (fun _ _ => False) m

variable {clock : Nat → Int64} {m : Moment} {α β : Type}

theorem Does.andThen {x : Action α} {f : α → Action β} {P : α → Moment → Prop} {Q : β → Moment → Prop}
    (hx : Does clock x P m) (hf : ∀ a m', P a m' → Does clock (f a) Q m') : Does clock (x >>= f) Q m :=
  attempts_bind.2 (hx.imp hf fun _ _ => id)

def Rests (m m' : Moment) : Prop :=
  m'.store = m.store ∧ m'.readings = m.readings

theorem does_get (k : Bytes) :
    Does clock (get k) (fun value m' => value = m.store.get? k ∧ Rests m m') m := by
  refine attempts_call.2 ⟨rfl, ?_, rfl⟩
  exact congrArg Prod.snd (m.store.perform_get k)

theorem does_now : Does clock now (fun time m' => time = clock m.readings ∧
    m'.store = m.store ∧ m'.readings = m.readings + 1) m :=
  attempts_now.2 ⟨rfl, rfl, rfl⟩

theorem does_record (hk : r.Kept m.store) :
    Does clock (record h) (fun rec m' => rec = (r.cards h).record ∧ Rests m m') m := by
  refine finds_record ((does_get _).imp (fun value m' hget => ?_) fun _ _ => id)
  exact ⟨hget.1.trans (hk.cards h).record, hget.2⟩

theorem does_status (hk : r.Kept m.store) :
    Does clock (status h) (fun st m' => st = (r.cards h).status ∧ Rests m m') m :=
  finds_status (does_record hk)

theorem does_recordOr (hk : r.Kept m.store) (hm : m.readings = 0) (st : Status) :
    Does clock (recordOr h st) (fun rec m' => rec = (r.cards h).record.getD ⟨st, none, clock 0⟩ ∧
      m'.store = m.store ∧ m'.readings = if (r.cards h).record.isNone then 1 else 0) m := by
  unfold recordOr
  refine (does_record hk).andThen fun rec m' ⟨hrec, hstore, hreadings⟩ => ?_
  subst hrec
  rw [hm] at hreadings
  cases hcard : (r.cards h).record with
  | none =>
    refine does_now.andThen fun time m'' ⟨htime, hstore', hreadings'⟩ => ?_
    rw [hreadings] at htime hreadings'
    subst htime
    exact ⟨rfl, hstore'.trans hstore, hreadings'⟩
  | some rec => exact ⟨rfl, hstore, hreadings⟩

theorem does_putRecord (hk : r.Kept m.store) (rec : CommitRecord) :
    Does clock (putRecord h rec)
      (fun _ m' => (r.put h { r.cards h with record := some rec }).Kept m'.store) m :=
  attempts_call.2 (hk.set (by decide) (hk.cards.set_record rec))

theorem put_self (r : Register) (h : Hash) : r.put h (r.cards h) = r := by
  unfold put
  rw [Function.update_eq_self]

theorem put_put (r : Register) (h : Hash) (c c' : Card) : (r.put h c).put h c' = r.put h c' := by
  unfold put
  rw [Function.update_idem]

@[simp] theorem cards_put (r : Register) (h : Hash) (c : Card) : (r.put h c).cards h = c :=
  Function.update_self ..

theorem does_setStatus (hk : r.Kept m.store) (hm : m.readings = 0) (st : Status) :
    Does clock (setStatus h st) (fun applied m' => applied = (!(r.cards h).refuses st) ∧
      (r.put h ((r.cards h).setStatus st ((r.cards h).dated clock))).Kept m'.store) m := by
  unfold setStatus
  refine (does_recordOr hk hm st).andThen fun rec m' ⟨hrec, hstore, hreadings⟩ => ?_
  have hk' : r.Kept m'.store := hstore ▸ hk
  have hrefuses : (r.cards h).refuses st = (rec.status.isTerminal && rec.status ≠ st) := by
    rw [hrec, Card.refuses]
    cases (r.cards h).record <;> simp
  rw [hrefuses]
  subst hrec
  split
  · rename_i hclosed
    rw [Card.setStatus_of_closed hclosed, put_self]
    exact ⟨by rw [hclosed]; rfl, hk'⟩
  · rename_i hopen
    refine does_now.andThen fun time m'' ⟨htime, hstore', _⟩ => ?_
    have hk'' : r.Kept m''.store := hstore' ▸ hk'
    rw [Card.setStatus_of_open hopen, Card.dated, ← hreadings, ← htime]
    refine (does_putRecord hk'' _).andThen fun _ m₃ hk₃ => ?_
    rw [eq_false_of_ne_true hopen]
    exact ⟨rfl, hk₃⟩

theorem does_setCommitBlock (hk : r.Kept m.store) (hm : m.readings = 0) (block : Word) :
    Does clock (setCommitBlock h block)
      (fun _ m' => (r.put h ((r.cards h).setCommitBlock block (clock 0))).Kept m'.store) m := by
  unfold setCommitBlock
  refine (does_recordOr hk hm .committed).andThen fun rec m' ⟨hrec, hstore, _⟩ => ?_
  have hk' : r.Kept m'.store := hstore ▸ hk
  subst hrec
  split
  · rename_i hknown
    rw [Card.setCommitBlock_of_known hknown, put_self]
    exact hk'
  · rw [Card.setCommitBlock_eq]
    exact does_putRecord hk' _

theorem does_setSeed (hk : r.Kept m.store) (seed : Seed) :
    Does clock (set (key .seed h) seed.bytes) (fun _ m' => m'.readings = m.readings ∧
      (r.put h { r.cards h with seed := some seed }).Kept m'.store) m :=
  attempts_call.2 ⟨rfl, hk.set (by decide) (hk.cards.set_seed seed)⟩

theorem does_storeSeed (hk : r.Kept m.store) (hm : m.readings = 0) (seed : Seed) :
    Does clock (storeSeed h seed)
      (fun _ m' => (r.put h ((r.cards h).storeSeed seed (clock 0))).Kept m'.store) m := by
  unfold storeSeed
  refine (does_setSeed hk seed).andThen fun _ m₁ ⟨hreadings₁, hk₁⟩ => ?_
  refine (does_record (h := h) hk₁).andThen fun rec m₂ ⟨hrec, hstore₂, hreadings₂⟩ => ?_
  rw [cards_put] at hrec
  have hk₂ := hk₁
  rw [← hstore₂] at hk₂
  subst hrec
  dsimp only
  cases hcard : (r.cards h).record with
  | some old =>
    have hsame : (r.cards h).storeSeed seed (clock 0) = { r.cards h with seed := some seed } := by
      simp only [Card.storeSeed, hcard, Option.getD_some]
    rw [hsame]
    exact hk₂
  | none =>
    refine does_now.andThen fun time m₃ ⟨htime, hstore₃, _⟩ => ?_
    rw [hreadings₂, hreadings₁, hm] at htime
    have hk₃ := hk₂
    rw [← hstore₃] at hk₃
    refine (does_putRecord (h := h) hk₃ _).imp (fun _ m₄ hk₄ => ?_) fun _ _ => id
    have hnew : (r.cards h).storeSeed seed (clock 0) =
        { r.cards h with seed := some seed, record := some ⟨.created, none, time⟩ } := by
      simp only [Card.storeSeed, hcard, Option.getD_none, htime]
    rw [put_put, cards_put] at hk₄
    rw [hnew]
    exact hk₄

theorem does_markPending (hk : r.Kept m.store) :
    Does clock (markPending h) (fun added m' => added = (!(r.cards h).finished) ∧
      (r.put h (r.cards h).markPending).Kept m'.store) m := by
  unfold markPending
  refine (does_status hk).andThen fun st m' ⟨hst, hstore, _⟩ => ?_
  have hk' : r.Kept m'.store := hstore ▸ hk
  have mark (hopen : (r.cards h).finished = false) :
      Does clock (do Repository.set (key .pending h) [1]; return true)
        (fun added m' => added = (!(r.cards h).finished) ∧
          (r.put h (r.cards h).markPending).Kept m'.store) m' := by
    have hset : (r.put h (r.cards h).markPending).Kept
        (m'.store.perform (.set (key .pending h) [1])).2 := by
      rw [Card.markPending, hopen]
      exact hk'.set (by decide) (hk'.cards.set_pending [1])
    refine attempts_bind.2 (attempts_call.2 ⟨?_, hset⟩)
    rw [hopen]
    rfl
  subst hst
  cases hst : (r.cards h).status with
  | none => exact mark (by simp [Card.finished, hst])
  | some st =>
    dsimp only
    split
    · rename_i hfinal
      have hfinished : (r.cards h).finished = true := by simpa [Card.finished, hst] using hfinal
      rw [Card.markPending, hfinished, if_pos rfl, put_self]
      exact ⟨rfl, hk'⟩
    · rename_i hopen
      exact mark (by simpa [Card.finished, hst] using hopen)

theorem does_clearPending (hk : r.Kept m.store) :
    Does clock (clearPending h) (fun _ m' => m'.readings = m.readings ∧
      (r.put h (r.cards h).clearPending).Kept m'.store) m :=
  attempts_call.2 ⟨rfl, hk.delete_pending⟩

theorem does_finish (hk : r.Kept m.store) (hm : m.readings = 0) (st : Status) :
    Does clock (do clearPending h; discard <| setStatus h st)
      (fun _ m' => (r.put h ((r.cards h).finish st ((r.cards h).dated clock))).Kept m'.store) m := by
  refine (does_clearPending hk).andThen fun _ m' ⟨hreadings, hk'⟩ => ?_
  rw [Does, attempts_discard]
  refine (does_setStatus (h := h) hk' (hreadings.trans hm) st).imp (fun _ m'' hm'' => ?_) fun _ _ => id
  have hk'' := hm''.2
  rw [put_put, cards_put] at hk''
  exact hk''

theorem does_close (hk : r.Kept m.store) (hm : m.readings = 0) :
    Does clock (do
      clearPending h
      if (← status h) ≠ some .revealed then
        discard <| setStatus h .revealed)
      (fun _ m' => (r.put h ((r.cards h).markRevealed none ((r.cards h).dated clock))).Kept m'.store) m := by
  refine (does_clearPending hk).andThen fun _ m₁ ⟨hreadings₁, hk₁⟩ => ?_
  refine (does_status (h := h) hk₁).andThen fun st m₂ ⟨hst, hstore₂, hreadings₂⟩ => ?_
  rw [cards_put] at hst
  have hk₂ := hk₁
  rw [← hstore₂] at hk₂
  have hm₂ : m₂.readings = 0 := by rw [hreadings₂, hreadings₁, hm]
  split
  · rename_i hopen
    have hturned : (r.cards h).markRevealed none ((r.cards h).dated clock) =
        (r.cards h).clearPending.setStatus .revealed ((r.cards h).dated clock) := if_neg (hst ▸ hopen)
    rw [Does, attempts_discard]
    refine (does_setStatus (h := h) hk₂ hm₂ .revealed).imp (fun _ m₃ hm₃ => ?_) fun _ _ => id
    have hk₃ := hm₃.2
    rw [put_put, cards_put] at hk₃
    rw [hturned]
    exact hk₃
  · rename_i hdone
    have hturned : (r.cards h).markRevealed none ((r.cards h).dated clock) = (r.cards h).clearPending :=
      if_pos (hst ▸ not_not.1 hdone)
    rw [hturned]
    exact hk₂

theorem does_markRevealed (hk : r.Kept m.store) (hm : m.readings = 0) (seed : Option Seed) :
    Does clock (markRevealed h seed) (fun _ m' =>
      (r.put h ((r.cards h).markRevealed seed ((r.cards h).dated clock))).Kept m'.store) m := by
  unfold markRevealed
  cases seed with
  | none => exact does_close hk hm
  | some seed =>
    refine (does_setSeed hk seed).andThen fun _ m₁ ⟨hreadings₁, hk₁⟩ => ?_
    -- to close the card with the new seed is to mark the old one as revealed
    refine (does_close (h := h) hk₁ (hreadings₁.trans hm)).imp (fun _ m₂ hk₂ => ?_) fun _ _ => id
    rw [put_put, cards_put] at hk₂
    exact hk₂

/-- Each operation succeeds, replies as it should and makes of the register what it should. -/
theorem Kept.operate (hk : r.Kept b) (clock : Nat → Int64) (o : Operation) :
    ((fair clock).perform o.action b).1 = .ok (r.reply o) ∧
      (r.revise clock o).Kept ((fair clock).perform o.action b).2.store := by
  have hdoes : Does clock o.action
      (fun a m' => a = r.reply o ∧ (r.revise clock o).Kept m'.store) (.first b) := by
    cases o with
    | storeSeed h seed => exact (does_storeSeed hk rfl seed).imp (fun _ _ h => ⟨rfl, h⟩) fun _ _ => id
    | storeTx h tx => exact attempts_call.2 ⟨rfl, hk.set_tx tx⟩
    | setStatus h st => exact does_setStatus hk rfl st
    | setCommitBlock h block =>
      exact (does_setCommitBlock hk rfl block).imp (fun _ _ h => ⟨rfl, h⟩) fun _ _ => id
    | markPending h => exact does_markPending hk
    | clearPending h => exact (does_clearPending hk).imp (fun _ _ h => ⟨rfl, h.2⟩) fun _ _ => id
    | markRevealed h seed =>
      exact (does_markRevealed hk rfl seed).imp (fun _ _ h => ⟨rfl, h⟩) fun _ _ => id
    | markExpired h => exact (does_finish hk rfl .expired).imp (fun _ _ h => ⟨rfl, h⟩) fun _ _ => id
    | markAbandoned h => exact (does_finish hk rfl .abandoned).imp (fun _ _ h => ⟨rfl, h⟩) fun _ _ => id
    | setCursor block => exact attempts_call.2 ⟨rfl, hk.set_cursor block⟩
  have hends := outcome_perform.2 hdoes
  cases hresult : ((fair clock).perform o.action b).1 with
  | ok a =>
    rw [hresult] at hends
    exact ⟨congrArg Except.ok hends.1, hends.2⟩
  | error e =>
    rw [hresult] at hends
    exact hends.elim

/-- What the reading operations find is what the register says. -/
structure ReadFrom (r : Register) (b : Backend) : Prop where
  seed : ∀ h, peek (Repository.seed h) b = .ok (r.cards h).seed
  tx : ∀ h, peek (Repository.tx h) b = .ok (r.txs h)
  record : ∀ h, peek (Repository.record h) b = .ok (r.cards h).record
  status : ∀ h, peek (Repository.status h) b = .ok (r.cards h).status
  isPending : ∀ h, peek (Repository.isPending h) b = .ok (r.cards h).pending
  pendingHashes : ∃ hashes, peek Repository.pendingHashes b = .ok hashes ∧
    (hashes.Pairwise fun h k => h.bytes < k.bytes) ∧ ∀ h, h ∈ hashes ↔ (r.cards h).pending
  cursor : peek Repository.cursor b = .ok r.cursor

theorem peek_tx (hk : r.Kept b) : peek (Repository.tx h) b = .ok (r.txs h) := by
  unfold Repository.tx getHash
  rw [peek_get_bind, hk.txs]
  cases r.txs h with
  | none => rfl
  | some tx =>
    simp only [Option.map_some, hashOfBytes_bytes]
    rfl

theorem peek_cursor_kept (hk : r.Kept b) : peek Repository.cursor b = .ok r.cursor := by
  rw [peek_cursor, hk.cursor]
  cases r.cursor with
  | none => rfl
  | some block => exact placeOf_ofNatBE block

theorem bytes_lt_of_key_lt {k k' : Hash} (hlt : key .pending k < key .pending k') : k.bytes < k'.bytes := by
  simpa [key, Field.mark, List.cons_lt_cons_iff] using hlt

theorem peek_pendingHashes_kept (hk : r.Kept b) : ∃ hashes, peek Repository.pendingHashes b = .ok hashes ∧
    (hashes.Pairwise fun h k => h.bytes < k.bytes) ∧ ∀ h, h ∈ hashes ↔ (r.cards h).pending := by
  obtain ⟨hashes, hpeek, hmem⟩ := peek_pendingHashes hk.keys
  refine ⟨hashes, hpeek, ?_, fun h => ?_⟩
  · rw [peek_pendingHashes_eq] at hpeek
    have hasc := (b.scan_ascending Field.pending.mark).imp_of_mem fun he he' hlt =>
      (⟨(Backend.mem_scan he).1, (Backend.mem_scan he').1, hlt⟩ : _ ∧ _ ∧ _)
    refine pairwise_of_mapM (fun e e' k k' h hread hread' => ?_) hpeek hasc
    obtain ⟨hstart, hstart', hlt⟩ := h
    rw [key_of_entry hstart hread, key_of_entry hstart' hread'] at hlt
    exact bytes_lt_of_key_lt hlt
  · rw [hmem, ← (hk.cards h).pending]
    exact Iff.rfl

theorem Kept.readFrom (hk : r.Kept b) : r.ReadFrom b where
  seed h := (hk.cards h).peek_seed
  tx _ := peek_tx hk
  record h := (hk.cards h).peek_record
  status h := (hk.cards h).peek_status
  isPending h := (hk.cards h).peek_isPending
  pendingHashes := peek_pendingHashes_kept hk
  cursor := peek_cursor_kept hk

end Register

structure SameAbout (h : Hash) (b b' : Backend) : Prop where
  seed : peek (Repository.seed h) b' = peek (Repository.seed h) b
  tx : peek (Repository.tx h) b' = peek (Repository.tx h) b
  record : peek (Repository.record h) b' = peek (Repository.record h) b
  status : peek (Repository.status h) b' = peek (Repository.status h) b
  isPending : peek (Repository.isPending h) b' = peek (Repository.isPending h) b

/-- An operation, and what the clock says each time it is read meanwhile. -/
structure Dated where
  operation : Operation
  clock : Nat → Int64

namespace Dated

variable {b : Backend}

def result (o : Dated) (b : Backend) : Except Store.StoreError o.operation.Answer :=
  ((fair o.clock).perform o.operation.action b).1

def after (b : Backend) (o : Dated) : Backend :=
  ((fair o.clock).perform o.operation.action b).2.store

def revise (r : Register) (o : Dated) : Register :=
  r.revise o.clock o.operation

theorem kept_foldl {r : Register} (hk : r.Kept b) (os : List Dated) :
    (os.foldl revise r).Kept (os.foldl after b) := by
  induction os generalizing r b with
  | nil => exact hk
  | cons o rest ih => exact ih (hk.operate o.clock o.operation).2

/-- After any operations on an empty store that never fails, what can be read is what the register says,
and the next operation replies as the register does. -/
theorem repository_is_register (hempty : ∀ k, b.get? k = none) (os : List Dated) :
    (os.foldl revise .empty).ReadFrom (os.foldl after b) ∧
      ∀ o : Dated, o.result (os.foldl after b) = .ok ((os.foldl revise .empty).reply o.operation) ∧
        (∀ k, o.operation.about ≠ some k → SameAbout k (os.foldl after b) ((os ++ [o]).foldl after b)) ∧
        (o.operation.about ≠ none →
          peek cursor ((os ++ [o]).foldl after b) = peek cursor (os.foldl after b)) := by
  have hk := kept_foldl (Register.kept_empty hempty) os
  refine ⟨hk.readFrom, fun o => ?_⟩
  obtain ⟨hreply, hk'⟩ := hk.operate o.clock o.operation
  have hread := hk.readFrom
  have hread' := hk'.readFrom
  rw [List.foldl_append]
  refine ⟨hreply, fun k hne => ?_, fun hne => ?_⟩
  · have hcard := Register.revise_cards_of_ne o.clock (os.foldl revise .empty) hne
    have htx := Register.revise_txs_of_ne o.clock (os.foldl revise .empty) hne
    refine ⟨?_, ?_, ?_, ?_, ?_⟩
    · exact (hread'.seed k).trans (hcard ▸ (hread.seed k).symm)
    · exact (hread'.tx k).trans (htx ▸ (hread.tx k).symm)
    · exact (hread'.record k).trans (hcard ▸ (hread.record k).symm)
    · exact (hread'.status k).trans (hcard ▸ (hread.status k).symm)
    · exact (hread'.isPending k).trans (hcard ▸ (hread.isPending k).symm)
  · have hcursor := Register.revise_cursor_of_about o.clock (os.foldl revise .empty) hne
    exact hread'.cursor.trans (hcursor ▸ hread.cursor.symm)

def elapsed (h : Hash) (seed : Seed) : List Dated :=
  [⟨.storeSeed h seed, fun _ => 7⟩, ⟨.markPending h, fun _ => 8⟩, ⟨.markExpired h, fun _ => 9⟩]

theorem repository_is_register_elapsed : (∀ k, (Backend.database .empty).get? k = none) ∧
    peek (Repository.isPending (.fill 32 3))
      ((elapsed (.fill 32 3) (.fill 32 1)).foldl after (.database .empty)) = .ok false ∧
    peek (Repository.record (.fill 32 3))
      ((elapsed (.fill 32 3) (.fill 32 1)).foldl after (.database .empty)) = .ok (some ⟨.expired, none, 9⟩) ∧
    result ⟨.setStatus (.fill 32 3) .revealed, fun _ => 10⟩
      ((elapsed (.fill 32 3) (.fill 32 1)).foldl after (.database .empty)) = .ok false := by
  have hempty : ∀ k, (Backend.database .empty).get? k = none := fun _ => rfl
  obtain ⟨hread, hfurther⟩ := repository_is_register hempty (elapsed (.fill 32 3) (.fill 32 1))
  exact ⟨hempty, hread.isPending _, hread.record _, (hfurther ⟨.setStatus _ _, _⟩).1⟩

end Dated

end CommitReveal.Repository
