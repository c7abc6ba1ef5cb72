import CommitReveal.FixedBytes

/-! The 256-bit hash with the permutation Keccak-f[1600], rate 136 bytes and the padding byte 1. -/
namespace CommitReveal.Keccak

/-- Lane `x + 5 * y` holds column `x` of row `y`. -/
abbrev Lanes := Vector UInt64 25

def roundConstants : List UInt64 :=
  [0x0000000000000001, 0x0000000000008082, 0x800000000000808A, 0x8000000080008000,
   0x000000000000808B, 0x0000000080000001, 0x8000000080008081, 0x8000000000008009,
   0x000000000000008A, 0x0000000000000088, 0x0000000080008009, 0x000000008000000A,
   0x000000008000808B, 0x800000000000008B, 0x8000000000008089, 0x8000000000008003,
   0x8000000000008002, 0x8000000000000080, 0x000000000000800A, 0x800000008000000A,
   0x8000000080008081, 0x8000000000008080, 0x0000000080000001, 0x8000000080008008]

/-- How far the step rho turns each lane. -/
def rotations : Vector UInt64 25 :=
  #v[0, 1, 62, 28, 27, 36, 44, 6, 55, 20, 3, 10, 43, 25, 39, 41, 45, 15, 21, 8, 18, 2, 61, 56, 14]

def rotateLeft (w : UInt64) (count : UInt64) : UInt64 :=
  if count = 0 then w else (w <<< count) ||| (w >>> (64 - count))

/-- The lane in column `x` of row `y`, both taken modulo five. -/
def lane (s : Lanes) (x y : Nat) : UInt64 :=
  s[x % 5 + 5 * (y % 5)]

def theta (s : Lanes) : Lanes :=
  let parity := Vector.ofFn fun x : Fin 5 =>
    lane s x 0 ^^^ lane s x 1 ^^^ lane s x 2 ^^^ lane s x 3 ^^^ lane s x 4
  Vector.ofFn fun i : Fin 25 =>
    s[i] ^^^ parity[(i.val + 4) % 5] ^^^ rotateLeft parity[(i.val + 1) % 5] 1

/-- The steps rho and pi: each lane is turned and moved. -/
def rhoPi (s : Lanes) : Lanes :=
  Vector.ofFn fun i : Fin 25 =>
    let x := i.val % 5
    let y := i.val / 5
    let source := (x + 3 * y) % 5 + 5 * (x % 5)
    if h : source < 25 then rotateLeft s[source] rotations[source] else 0

def chi (s : Lanes) : Lanes :=
  Vector.ofFn fun i : Fin 25 =>
    let x := i.val % 5
    let y := i.val / 5
    s[i] ^^^ ((lane s (x + 1) y ^^^ 0xFFFFFFFFFFFFFFFF) &&& lane s (x + 2) y)

def round (s : Lanes) (constant : UInt64) : Lanes :=
  let s := chi (rhoPi (theta s))
  s.set 0 (s[0] ^^^ constant)

def permute (s : Lanes) : Lanes :=
  roundConstants.foldl round s

def rate : Nat := 136

/-- The message with the padding: a one bit, zeros, and a one bit that ends a block. -/
def pad (message : Bytes) : Bytes :=
  let room := rate - message.length % rate
  if room = 1 then message ++ [0x81]
  else message ++ 0x01 :: List.replicate (room - 2) 0 ++ [0x80]

/-- The blocks of `rate` bytes, whole ones only. -/
def blocks (bytes : Bytes) : List Bytes :=
  (List.range (bytes.length / rate)).map fun i => (bytes.drop (i * rate)).take rate

def absorb (s : Lanes) (block : Bytes) : Lanes :=
  permute (Vector.ofFn fun i : Fin 25 =>
    s[i] ^^^ UInt64.ofNat (Bytes.toNatLE ((block.drop (8 * i.val)).take 8)))

def laneBytes (w : UInt64) : Bytes :=
  Bytes.ofNatLE 8 w.toNat

/-- The hash of a message. -/
def hash (message : Bytes) : Hash :=
  let s := (blocks (pad message)).foldl absorb (Vector.replicate 25 0)
  ⟨laneBytes s[0] ++ laneBytes s[1] ++ laneBytes s[2] ++ laneBytes s[3], by simp [laneBytes]⟩

end CommitReveal.Keccak
