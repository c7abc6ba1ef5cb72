import CommitReveal.Crypto.Rlp
import CommitReveal.Crypto.Secp256k1
import CommitReveal.Fault
import CommitReveal.Word

/-! Transactions that carry a call and no payment, signed for one chain. -/
namespace CommitReveal.Node

open Secp256k1 (SigningKey Signature)

structure Transaction where
  nonce : Word
  gasPrice : Word
  gasLimit : Word
  recipient : Address
  data : Bytes
deriving DecidableEq, Repr

namespace Transaction

/-- The encoded items that signing covers and that are sent; the fifth is the payment. -/
def items (t : Transaction) : List Bytes :=
  [Rlp.number t.nonce.toNat, Rlp.number t.gasPrice.toNat, Rlp.number t.gasLimit.toNat,
    Rlp.string t.recipient.bytes, Rlp.number 0, Rlp.string t.data]

/-- The hash to sign: the chain takes the place of the signature. -/
def signingHash (t : Transaction) (chain : Word) : Hash :=
  Keccak.hash (Rlp.list (t.items ++ [Rlp.number chain.toNat, Rlp.number 0, Rlp.number 0]))

/-- The number that names the chain and the parity of the signature's point: a 64-bit word. -/
def recovery (chain : Word) (odd : Bool) : Except Fault Word := do
  let parity : Word := if odd then 1 else 0
  let some twice := Word.add? chain chain | throw .productOverflow
  match Word.add? (parity + 35) twice with
  | some v => return v
  | none => throw .overflow

def signed (t : Transaction) (chain : Word) (s : Signature) : Except Fault Bytes := do
  let v ← recovery chain s.odd
  return Rlp.list (t.items ++ [Rlp.number v.toNat, Rlp.number s.r, Rlp.number s.s])

end Transaction

end CommitReveal.Node
