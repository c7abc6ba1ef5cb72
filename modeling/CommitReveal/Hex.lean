import CommitReveal.Bytes

/-! Hexadecimal text. Writing is lower case; the strict reading takes digits of either case and
nothing else, the spaced reading also skips blanks and names the first character it refuses. -/
namespace CommitReveal.Hex

def digit (n : Nat) : Char :=
  if n < 10 then Char.ofNat (48 + n) else Char.ofNat (87 + n)

/-- The value of a hexadecimal digit of either case. -/
def value? (c : Char) : Option Nat :=
  let n := c.toNat
  if 48 ≤ n ∧ n ≤ 57 then some (n - 48)
  else if 65 ≤ n ∧ n ≤ 70 then some (n - 55)
  else if 97 ≤ n ∧ n ≤ 102 then some (n - 87)
  else none

def digits : Bytes → List Char
  | [] => []
  | b :: rest => digit (b.toNat / 16) :: digit (b.toNat % 16) :: digits rest

/-- Two lower-case digits a byte. -/
def encode (bytes : Bytes) : String :=
  String.ofList (digits bytes)

/-- Reads pairs of digits; an odd digit or any other character is refused. -/
def decode : List Char → Option Bytes
  | [] => some []
  | [_] => none
  | hi :: lo :: rest => do
    let h ← value? hi
    let l ← value? lo
    let bytes ← decode rest
    pure (UInt8.ofNat (16 * h + l) :: bytes)

@[simp] theorem value?_digit (n : Nat) (h : n < 16) : value? (digit n) = some n := by
  have all : ∀ i : Fin 16, value? (digit i.val) = some i.val := by decide
  exact all ⟨n, h⟩

@[simp] theorem decode_digits (bytes : Bytes) : decode (digits bytes) = some bytes := by
  induction bytes with
  | nil => rfl
  | cons b rest ih =>
    have hb : b.toNat < 256 := b.toNat_lt
    have hv : UInt8.ofNat (16 * (b.toNat / 16) + b.toNat % 16) = b := by
      rw [Nat.div_add_mod, UInt8.ofNat_toNat]
    rw [digits, decode, value?_digit _ (by omega), value?_digit _ (by omega), ih]
    exact congrArg (fun c => some (c :: rest)) hv

/-- Why a spaced reading stops. -/
inductive Refusal where
  | length
  /-- The character and its byte offset. -/
  | character (c : Char) (offset : Nat)
deriving DecidableEq, Repr

def Refusal.message : Refusal → String
  | .length => "Invalid input length"
  | .character c offset => s!"Invalid character '{c}' at position {offset}"

/-- Blanks that a spaced reading skips. -/
def isBlank (c : Char) : Bool :=
  c == ' ' || c == '\t' || c == '\n' || c == '\r'

/-- The digit values up to the first character that is neither digit nor blank; that character, if
there is one, ends the list as a refusal. -/
def spacedDigits : (offset : Nat) → List Char → List (Except Refusal Nat)
  | _, [] => []
  | offset, c :: rest =>
    if isBlank c then spacedDigits (offset + 1) rest
    else match value? c with
      | some v => .ok v :: spacedDigits (offset + 1) rest
      | none => [.error (.character c offset)]

/-- Reads exactly `n` bytes: too few or too many digits are a wrong length, but a refused character
among the first `2 * n` digits is reported as such. -/
def takeBytes : (n : Nat) → List (Except Refusal Nat) → Except Refusal Bytes
  | 0, [] => .ok []
  | 0, _ :: _ => .error .length
  | _ + 1, [] => .error .length
  | _ + 1, .error e :: _ => .error e
  | _ + 1, [.ok _] => .error .length
  | _ + 1, .ok _ :: .error e :: _ => .error e
  | n + 1, .ok h :: .ok l :: rest => do
    let bytes ← takeBytes n rest
    pure (UInt8.ofNat (16 * h + l) :: bytes)

/-- Drops one leading `0x`. -/
def dropMark : List Char → List Char
  | '0' :: 'x' :: rest => rest
  | cs => cs

/-- Drops one leading mark, `0x` or `0X`. -/
def dropEitherMark : List Char → List Char
  | '0' :: 'x' :: rest => rest
  | '0' :: 'X' :: rest => rest
  | cs => cs

/-- Reads bytes behind an optional mark of either case. -/
def decodeMarked (cs : List Char) : Option Bytes :=
  decode (dropEitherMark cs)

/-- Reads `n` bytes from a text with an optional leading `0x`. -/
def decodeFixed (n : Nat) (text : String) : Except Refusal Bytes :=
  takeBytes n (spacedDigits 0 (dropMark text.toList))

theorem length_of_takeBytes {n : Nat} {ds : List (Except Refusal Nat)} {bytes : Bytes}
    (h : takeBytes n ds = .ok bytes) : bytes.length = n := by
  fun_induction takeBytes n ds generalizing bytes with
  | case1 => cases h; rfl
  | case7 n hi lo rest ih =>
    cases hr : takeBytes n rest with
    | error e => rw [hr] at h; cases h
    | ok tail =>
      rw [hr] at h
      cases h
      simp [ih hr]
  | _ => cases h

end CommitReveal.Hex
