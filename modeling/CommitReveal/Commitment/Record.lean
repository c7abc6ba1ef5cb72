import CommitReveal.Commitment.Status
import CommitReveal.Store.Error
import CommitReveal.Word

/-! What is stored about a commitment beside its seed, and its bytes: the status in four bytes, a
byte that says whether a commit block follows, the block in eight, the time in eight, all least
significant first. Reading stops at the first fault and ignores what follows a record. -/
namespace CommitReveal

structure CommitRecord where
  status : Status
  commitBlock : Option Word
  /-- Unix seconds of the last change of status. -/
  updatedAt : Int64
deriving DecidableEq, Repr

namespace CommitRecord

def encodeBlock : Option Word → Bytes
  | none => [0]
  | some block => 1 :: Bytes.ofNatLE 8 block.toNat

def encode (r : CommitRecord) : Bytes :=
  Bytes.ofNatLE 4 r.status.tag ++ encodeBlock r.commitBlock ++
    Bytes.ofNatLE 8 r.updatedAt.toUInt64.toNat

/-- A number in the next `width` bytes, and what follows them. -/
def readNat (width : Nat) (bytes : Bytes) : Except Store.RecordFault (Nat × Bytes) :=
  if width ≤ bytes.length then .ok (Bytes.toNatLE (bytes.take width), bytes.drop width)
  else .error .truncated

def readStatus (bytes : Bytes) : Except Store.RecordFault (Status × Bytes) := do
  let (tag, rest) ← readNat 4 bytes
  match Status.ofTag? tag with
  | some status => pure (status, rest)
  | none => throw (.statusTag tag)

def readBlock (bytes : Bytes) : Except Store.RecordFault (Option Word × Bytes) := do
  let (tag, rest) ← readNat 1 bytes
  match tag with
  | 0 => pure (none, rest)
  | 1 =>
    let (block, rest) ← readNat 8 rest
    pure (some (UInt64.ofNat block), rest)
  | other => throw (.optionTag other)

def decode (bytes : Bytes) : Except Store.RecordFault CommitRecord := do
  let (status, rest) ← readStatus bytes
  let (commitBlock, rest) ← readBlock rest
  let (time, _) ← readNat 8 rest
  pure ⟨status, commitBlock, (UInt64.ofNat time).toInt64⟩

theorem readNat_ofNatLE (width n : Nat) (rest : Bytes) :
    readNat width (Bytes.ofNatLE width n ++ rest) = .ok (n % Nat.pow 256 width, rest) := by
  simp [readNat, Bytes.toNatLE_ofNatLE]

theorem readStatus_encode (s : Status) (rest : Bytes) :
    readStatus (Bytes.ofNatLE 4 s.tag ++ rest) = .ok (s, rest) := by
  have hm : s.tag % Nat.pow 256 4 = s.tag := Nat.mod_eq_of_lt (Nat.lt_trans s.tag_lt (by decide))
  simp only [readStatus, readNat_ofNatLE, hm, bind, Except.bind, Status.ofTag?_tag, pure, Except.pure]

theorem readBlock_encode (block : Option Word) (rest : Bytes) :
    readBlock (encodeBlock block ++ rest) = .ok (block, rest) := by
  cases block with
  | none => rfl
  | some b =>
    have h1 : readNat 1 ((1 : UInt8) :: (Bytes.ofNatLE 8 b.toNat ++ rest)) =
        .ok (1, Bytes.ofNatLE 8 b.toNat ++ rest) := by
      have := readNat_ofNatLE 1 1 (Bytes.ofNatLE 8 b.toNat ++ rest)
      exact this
    have hm : b.toNat % Nat.pow 256 8 = b.toNat := Nat.mod_eq_of_lt b.toNat_lt
    simp only [encodeBlock, List.cons_append, readBlock, h1, bind, Except.bind, readNat_ofNatLE, hm,
      UInt64.ofNat_toNat, pure, Except.pure]

/-- Reading undoes writing, whatever follows. -/
theorem decode_encode_append (r : CommitRecord) (rest : Bytes) :
    decode (r.encode ++ rest) = .ok r := by
  have ht : r.updatedAt.toUInt64.toNat % Nat.pow 256 8 = r.updatedAt.toUInt64.toNat :=
    Nat.mod_eq_of_lt r.updatedAt.toUInt64.toNat_lt
  simp only [encode, List.append_assoc, decode, readStatus_encode, readBlock_encode, bind,
    Except.bind, readNat_ofNatLE, ht, UInt64.ofNat_toNat, pure, Except.pure]
  cases r
  simp

end CommitRecord

end CommitReveal
