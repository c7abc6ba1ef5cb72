import CommitReveal.FixedBytes

/-! The hash SHA-256, and messages authenticated with it under a key. -/
namespace CommitReveal.Sha256

abbrev State := Vector UInt32 8

def initial : State :=
  #v[0x6a09e667, 0xbb67ae85, 0x3c6ef372, 0xa54ff53a, 0x510e527f, 0x9b05688c, 0x1f83d9ab, 0x5be0cd19]

/-- One constant for each of the 64 rounds. -/
def roundConstants : List UInt32 :=
  [0x428a2f98, 0x71374491, 0xb5c0fbcf, 0xe9b5dba5, 0x3956c25b, 0x59f111f1, 0x923f82a4, 0xab1c5ed5,
   0xd807aa98, 0x12835b01, 0x243185be, 0x550c7dc3, 0x72be5d74, 0x80deb1fe, 0x9bdc06a7, 0xc19bf174,
   0xe49b69c1, 0xefbe4786, 0x0fc19dc6, 0x240ca1cc, 0x2de92c6f, 0x4a7484aa, 0x5cb0a9dc, 0x76f988da,
   0x983e5152, 0xa831c66d, 0xb00327c8, 0xbf597fc7, 0xc6e00bf3, 0xd5a79147, 0x06ca6351, 0x14292967,
   0x27b70a85, 0x2e1b2138, 0x4d2c6dfc, 0x53380d13, 0x650a7354, 0x766a0abb, 0x81c2c92e, 0x92722c85,
   0xa2bfe8a1, 0xa81a664b, 0xc24b8b70, 0xc76c51a3, 0xd192e819, 0xd6990624, 0xf40e3585, 0x106aa070,
   0x19a4c116, 0x1e376c08, 0x2748774c, 0x34b0bcb5, 0x391c0cb3, 0x4ed8aa4a, 0x5b9cca4f, 0x682e6ff3,
   0x748f82ee, 0x78a5636f, 0x84c87814, 0x8cc70208, 0x90befffa, 0xa4506ceb, 0xbef9a3f7, 0xc67178f2]

def rotateRight (w count : UInt32) : UInt32 :=
  (w >>> count) ||| (w <<< (32 - count))

def smallSigma (a b shift w : UInt32) : UInt32 :=
  rotateRight w a ^^^ rotateRight w b ^^^ (w >>> shift)

def largeSigma (a b c w : UInt32) : UInt32 :=
  rotateRight w a ^^^ rotateRight w b ^^^ rotateRight w c

/-- The next word of the schedule, from the last sixteen; the oldest comes first. -/
def nextWord (window : Vector UInt32 16) : UInt32 :=
  smallSigma 17 19 10 window[14] + window[9] + smallSigma 7 18 3 window[1] + window[0]

def slide (window : Vector UInt32 16) : Vector UInt32 16 :=
  let last := nextWord window
  Vector.ofFn fun i : Fin 16 => if h : i.val < 15 then window[i.val + 1] else last

def round (s : State) (constant word : UInt32) : State :=
  let choice := (s[4] &&& s[5]) ^^^ (~~~s[4] &&& s[6])
  let majority := (s[0] &&& s[1]) ^^^ (s[0] &&& s[2]) ^^^ (s[1] &&& s[2])
  let one := s[7] + largeSigma 6 11 25 s[4] + choice + constant + word
  let two := largeSigma 2 13 22 s[0] + majority
  #v[one + two, s[0], s[1], s[2], s[3] + one, s[4], s[5], s[6]]

/-- The rounds, with a window of the schedule that moves on by one word each. -/
def rounds : List UInt32 → Vector UInt32 16 → State → State
  | [], _, s => s
  | constant :: rest, window, s => rounds rest (slide window) (round s constant window[0])

def compress (s : State) (block : Bytes) : State :=
  let window := Vector.ofFn fun i : Fin 16 =>
    UInt32.ofNat (Bytes.toNatBE ((block.drop (4 * i.val)).take 4))
  let t := rounds roundConstants window s
  Vector.ofFn fun i : Fin 8 => s[i] + t[i]

def blockLength : Nat := 64

/-- The message, a one bit, zeros, and its length in bits as the last eight bytes of a block. -/
def pad (message : Bytes) : Bytes :=
  let zeros := (2 * blockLength - 9 - message.length % blockLength) % blockLength
  message ++ 0x80 :: List.replicate zeros 0 ++ Bytes.ofNatBE 8 (8 * message.length)

def blocks (bytes : Bytes) : List Bytes :=
  (List.range (bytes.length / blockLength)).map fun i =>
    (bytes.drop (i * blockLength)).take blockLength

def hash (message : Bytes) : Bytes :=
  let s := (blocks (pad message)).foldl compress initial
  s.toList.flatMap fun w => Bytes.ofNatBE 4 w.toNat

/-- A key as one block; one that is longer is hashed first. -/
def keyBlock (key : Bytes) : Bytes :=
  let key := if blockLength < key.length then hash key else key
  key ++ List.replicate (blockLength - key.length) 0

/-- The authentication code of a message under a key. -/
def hmac (key message : Bytes) : Bytes :=
  let mask (m : UInt8) : Bytes := (keyBlock key).map (· ^^^ m)
  hash (mask 0x5c ++ hash (mask 0x36 ++ message))

end CommitReveal.Sha256
