import CommitReveal.Crypto.Sha256
import CommitReveal.Keccak

/-! Signatures over the curve y² = x³ + 7 of the field of `p` elements, in its group of order `n`. The number
that a signature must never use twice is derived from the key and the message, so signing is a function
of both. -/
namespace CommitReveal.Secp256k1

def p : Nat := 0xfffffffffffffffffffffffffffffffffffffffffffffffffffffffefffffc2f

def n : Nat := 0xfffffffffffffffffffffffffffffffebaaedce6af48a03bbfd25e8cd0364141

/-- The power of a number modulo `m`, by squaring; `bits` bounds the exponent's length. -/
def powMod (m : Nat) : (bits : Nat) → (base exponent : Nat) → Nat
  | 0, _, _ => 1 % m
  | bits + 1, base, exponent =>
    let rest := powMod m bits (base * base % m) (exponent / 2)
    if exponent % 2 = 1 then base * rest % m else rest

/-- The inverse modulo a prime. -/
def inverse (prime a : Nat) : Nat :=
  powMod prime 256 a (prime - 2)

/-- The difference modulo `p` of two numbers below it. -/
def sub (a b : Nat) : Nat :=
  (a + (p - b)) % p

/-- A point of the curve in coordinates with a common denominator: `x / z²` and `y / z³`; the point at
infinity has `z = 0`. -/
structure Point where
  x : Nat
  y : Nat
  z : Nat
deriving DecidableEq, Repr

namespace Point

def infinity : Point := ⟨1, 1, 0⟩

def generator : Point where
  x := 0x79be667ef9dcbbac55a06295ce870b07029bfcdb2dce28d959f2815b16f81798
  y := 0x483ada7726a3c4655da4fbfc0e1108a8fd17b448a68554199c47d08ffb10d4b8
  z := 1

def double (a : Point) : Point :=
  let yy := a.y * a.y % p
  let s := 4 * a.x * yy % p
  let m := 3 * a.x * a.x % p
  let x := sub (m * m % p) (2 * s % p)
  ⟨x, sub (m * sub s x % p) (8 * yy * yy % p), 2 * a.y * a.z % p⟩

def add (a b : Point) : Point :=
  if a.z = 0 then b
  else if b.z = 0 then a
  else
    let az := a.z * a.z % p
    let bz := b.z * b.z % p
    let u := a.x * bz % p
    let s := a.y * bz * b.z % p
    let h := sub (b.x * az % p) u
    let r := sub (b.y * az * a.z % p) s
    if h = 0 then
      if r = 0 then a.double else infinity
    else
      let hh := h * h % p
      let hhh := h * hh % p
      let v := u * hh % p
      let x := sub (sub (r * r % p) hhh) (2 * v % p)
      ⟨x, sub (r * sub v x % p) (s * hhh % p), h * a.z * b.z % p⟩

/-- A multiple of a point, by doubling; `bits` bounds the factor's length. -/
def mul : (bits : Nat) → (k : Nat) → Point → Point
  | 0, _, _ => infinity
  | bits + 1, k, a =>
    let rest := mul bits (k / 2) a.double
    if k % 2 = 1 then a.add rest else rest

/-- The two coordinates. -/
def affine (a : Point) : Nat × Nat :=
  let i := inverse p a.z
  let ii := i * i % p
  (a.x * ii % p, a.y * ii * i % p)

end Point

/-- A secret number of the group. -/
structure SigningKey where
  secret : Nat
  pos : 0 < secret
  lt : secret < n
deriving DecidableEq, Repr

structure Signature where
  r : Nat
  s : Nat
  /-- Whether the point behind `r` has an odd second coordinate. -/
  odd : Bool
deriving DecidableEq, Repr

namespace SigningKey

/-- The key with a given number, if the group has it. -/
def ofNat? (secret : Nat) : Option SigningKey :=
  if h : 0 < secret ∧ secret < n then some ⟨secret, h.1, h.2⟩ else none

def publicKey (k : SigningKey) : Nat × Nat :=
  (Point.generator.mul 256 k.secret).affine

/-- The last twenty bytes of the public key's hash. -/
def address (k : SigningKey) : Address :=
  let (x, y) := k.publicKey
  Address.ofWord (Keccak.hash (Bytes.ofNatBE 32 x ++ Bytes.ofNatBE 32 y))

/-- The state of the generator of nonces: a key and a value. -/
structure NonceState where
  key : Bytes
  value : Bytes

/-- Stirs the state with some input. -/
def NonceState.stir (s : NonceState) (input : Bytes) : NonceState :=
  let key := Sha256.hmac s.key (s.value ++ input)
  ⟨key, Sha256.hmac key s.value⟩

def NonceState.start (k : SigningKey) (message : Hash) : NonceState :=
  let input := Bytes.ofNatBE 32 k.secret ++ Bytes.ofNatBE 32 (message.toNat % n)
  let s : NonceState := ⟨List.replicate 32 0, List.replicate 32 1⟩
  (s.stir (0 :: input)).stir (1 :: input)

/-- The signature with a nonce: its `s` is the smaller one of the two that are valid. -/
def signWith (k : SigningKey) (message : Hash) (nonce : Nat) : Option Signature :=
  let (x, y) := (Point.generator.mul 256 nonce).affine
  let r := x % n
  let s := inverse n nonce * (message.toNat + r * k.secret) % n
  if r = 0 ∨ s = 0 then none
  else if n / 2 < s then some ⟨r, n - s, y % 2 = 0⟩
  else some ⟨r, s, y % 2 = 1⟩

/-- Draws nonces until one is fit for use, at most `fuel` of them. -/
def signFrom (k : SigningKey) (message : Hash) : (fuel : Nat) → NonceState → Option Signature
  | 0, _ => none
  | fuel + 1, s =>
    let value := Sha256.hmac s.key s.value
    let nonce := Bytes.toNatBE value
    let signature := if 0 < nonce ∧ nonce < n then k.signWith message nonce else none
    match signature with
    | some signature => some signature
    | none => signFrom k message fuel (NonceState.stir ⟨s.key, value⟩ [0])

/-- Signs a hash. A draw fails about once in `2 ^ 127`, so a few are enough. -/
def sign (k : SigningKey) (message : Hash) : Option Signature :=
  k.signFrom message 8 (.start k message)

end SigningKey

end CommitReveal.Secp256k1
