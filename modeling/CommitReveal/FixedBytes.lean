import CommitReveal.Hex

/-! Byte strings of one length: 32 bytes for hashes and seeds, 20 for addresses. Numbers and bytes
both determine such a value, and its text is `0x` with all its digits. -/
namespace CommitReveal

structure FixedBytes (n : Nat) where
  bytes : Bytes
  length_bytes : bytes.length = n
deriving DecidableEq, Repr

abbrev Hash := FixedBytes 32

abbrev Address := FixedBytes 20

/-- A secret whose hash has been committed to. -/
abbrev Seed := Hash

abbrev TxHash := Hash

namespace FixedBytes

@[ext] theorem ext {a b : FixedBytes n} (h : a.bytes = b.bytes) : a = b := by
  cases a; cases b; cases h; rfl

/-- The value made of exactly these bytes, if their number is right. -/
def ofBytes? (n : Nat) (bytes : Bytes) : Option (FixedBytes n) :=
  if h : bytes.length = n then some ⟨bytes, h⟩ else none

/-- The low-order bytes of a number. -/
def ofNat (n k : Nat) : FixedBytes n :=
  ⟨Bytes.ofNatBE n k, Bytes.length_ofNatBE n k⟩

def toNat (a : FixedBytes n) : Nat :=
  Bytes.toNatBE a.bytes

def zero (n : Nat) : FixedBytes n :=
  ofNat n 0

/-- Every byte is `b`. -/
def fill (n : Nat) (b : UInt8) : FixedBytes n :=
  ⟨List.replicate n b, List.length_replicate⟩

instance : Inhabited (FixedBytes n) := ⟨zero n⟩

@[simp] theorem ofBytes?_bytes (a : FixedBytes n) : ofBytes? n a.bytes = some a := by
  simp [ofBytes?, a.length_bytes]

theorem ofBytes?_eq_some_iff {bytes : Bytes} {a : FixedBytes n} :
    ofBytes? n bytes = some a ↔ bytes = a.bytes := by
  constructor
  · intro h
    unfold ofBytes? at h
    split at h
    · cases h; rfl
    · cases h
  · rintro rfl
    exact ofBytes?_bytes a

@[simp] theorem ofNat_toNat (a : FixedBytes n) : ofNat n a.toNat = a := by
  apply ext
  have h := Bytes.ofNatBE_toNatBE a.bytes
  rw [a.length_bytes] at h
  exact h

theorem toNat_ofNat (n k : Nat) : (ofNat n k).toNat = k % Nat.pow 256 n :=
  Bytes.toNatBE_ofNatBE n k

/-- `0x` and two lower-case digits a byte. -/
def text (a : FixedBytes n) : String :=
  "0x" ++ Hex.encode a.bytes

/-- The first and the last four digits, for log lines. -/
def short (a : FixedBytes n) : String :=
  let ds := Hex.digits a.bytes
  "0x" ++ String.ofList (ds.take 4) ++ "…" ++ String.ofList (ds.drop (ds.length - 4))

/-- Reads the text of a value, blanks skipped and the mark `0x` optional. -/
def ofText (n : Nat) (s : String) : Except Hex.Refusal (FixedBytes n) :=
  match h : Hex.decodeFixed n s with
  | .ok bytes => .ok ⟨bytes, Hex.length_of_takeBytes h⟩
  | .error e => .error e

end FixedBytes

namespace Address

/-- An address as a 32-byte word: twelve zero bytes lead. -/
def toWord (a : Address) : Hash :=
  ⟨List.replicate 12 0 ++ a.bytes, by simp [a.length_bytes]⟩

/-- The low-order 20 bytes of a word; what leads them is ignored. -/
def ofWord (w : Hash) : Address :=
  ⟨w.bytes.drop 12, by simp [w.length_bytes]⟩

@[simp] theorem ofWord_toWord (a : Address) : ofWord (toWord a) = a :=
  FixedBytes.ext (by simp [ofWord, toWord])

end Address

end CommitReveal
