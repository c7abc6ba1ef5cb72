import CommitReveal.Commitment.Record
import CommitReveal.Repository.Key
import CommitReveal.Store.Call

/-! The repository's operations as programs over a store and a wall clock. Every store call may fail;
an operation then ends with that failure, and what it wrote before stays written. -/
namespace CommitReveal.Repository

open Store (StoreError)

inductive Request where
  | call (c : Store.Call)
  /-- The time in Unix seconds. -/
  | clock

abbrev Request.Answer : Request → Type
  | .call c => Except StoreError c.Result
  | .clock => Int64

abbrev interface : Interface := ⟨Request, Request.Answer⟩

abbrev Action (α : Type) := ExceptT StoreError (Program interface) α

def get (key : Bytes) : Action (Option Bytes) :=
  ExceptT.mk (Program.request (I := interface) (.call (.get key)))

def set (key value : Bytes) : Action Unit :=
  ExceptT.mk (Program.request (I := interface) (.call (.set key value)))

def delete (key : Bytes) : Action Unit :=
  ExceptT.mk (Program.request (I := interface) (.call (.delete key)))

def scan (start : Bytes) : Action (List Store.Entry) :=
  ExceptT.mk (Program.request (I := interface) (.call (.scan start)))

def has (key : Bytes) : Action Bool := do
  return (← get key).isSome

def now : Action Int64 :=
  ExceptT.lift (Program.request (I := interface) .clock)

/-- A stored value that must be 32 bytes. -/
def hashOfBytes (bytes : Bytes) : Except StoreError Hash :=
  match FixedBytes.ofBytes? 32 bytes with
  | some hash => .ok hash
  | none => .error (.corrupt (.hashLength bytes.length))

def getHash (field : Field) (hash : Hash) : Action (Option Hash) := do
  match ← get (key field hash) with
  | some bytes => return some (← hashOfBytes bytes)
  | none => return none

def seed (hash : Hash) : Action (Option Seed) :=
  getHash .seed hash

def tx (hash : Hash) : Action (Option TxHash) :=
  getHash .tx hash

def storeTx (hash : Hash) (tx : TxHash) : Action Unit :=
  set (key .tx hash) tx.bytes

def recordOfBytes (bytes : Bytes) : Except StoreError CommitRecord :=
  (CommitRecord.decode bytes).mapError .record

def record (hash : Hash) : Action (Option CommitRecord) := do
  match ← get (key .record hash) with
  | some bytes => return some (← recordOfBytes bytes)
  | none => return none

def putRecord (hash : Hash) (r : CommitRecord) : Action Unit :=
  set (key .record hash) r.encode

def status (hash : Hash) : Action (Option Status) := do
  return (← record hash).map (·.status)

/-- The stored record, else a fresh one that says `status`. -/
def recordOr (hash : Hash) (status : Status) : Action CommitRecord := do
  match ← record hash with
  | some r => return r
  | none => return ⟨status, none, ← now⟩

/-- Stores the seed behind a hash; a hash without a record starts as created. -/
def storeSeed (hash : Hash) (seed : Seed) : Action Unit := do
  set (key .seed hash) seed.bytes
  if (← record hash).isNone then
    putRecord hash ⟨.created, none, ← now⟩

/-- Moves a hash to a status and says whether that was done: a final status is never left. -/
def setStatus (hash : Hash) (status : Status) : Action Bool := do
  let r ← recordOr hash status
  if r.status.isTerminal && r.status ≠ status then
    return false
  putRecord hash { r with status, updatedAt := ← now }
  return true

/-- Notes the block of the commit; nothing is written when it is known already. -/
def setCommitBlock (hash : Hash) (block : Word) : Action Unit := do
  let r ← recordOr hash .committed
  if r.commitBlock = some block then
    return
  putRecord hash { r with commitBlock := some block }

/-- Adds a hash to the pending set, unless its status is final; says whether it did. -/
def markPending (hash : Hash) : Action Bool := do
  match ← status hash with
  | some s =>
    if s.isTerminal then
      return false
  | none => pure ()
  set (key .pending hash) [1]
  return true

def isPending (hash : Hash) : Action Bool :=
  has (key .pending hash)

def clearPending (hash : Hash) : Action Unit :=
  delete (key .pending hash)

/-- The pending set, in key order. -/
def pendingHashes : Action (List Hash) := do
  let entries ← scan Field.pending.mark
  let hashes : Except StoreError (List Hash) :=
    entries.mapM fun e => hashOfBytes (e.1.drop Field.pending.mark.length)
  ExceptT.mk (pure hashes)

/-- Notes that a seed is public. Doing so again changes nothing. -/
def markRevealed (hash : Hash) (seed : Option Seed) : Action Unit := do
  match seed with
  | some s => set (key .seed hash) s.bytes
  | none => pure ()
  clearPending hash
  if (← status hash) ≠ some .revealed then
    discard <| setStatus hash .revealed

def markExpired (hash : Hash) : Action Unit := do
  clearPending hash
  discard <| setStatus hash .expired

def markAbandoned (hash : Hash) : Action Unit := do
  clearPending hash
  discard <| setStatus hash .abandoned

def cursorOfBytes (bytes : Bytes) : Except StoreError Word :=
  if bytes.length = 8 then .ok (UInt64.ofNat (Bytes.toNatBE bytes))
  else .error (.corrupt (.cursorLength bytes.length))

/-- The next block to scan, if a scan has left a mark. -/
def cursor : Action (Option Word) := do
  match ← get cursorKey with
  | some bytes => return some (← cursorOfBytes bytes)
  | none => return none

def setCursor (block : Word) : Action Unit :=
  set cursorKey (Bytes.ofNatBE 8 block.toNat)

end CommitReveal.Repository
