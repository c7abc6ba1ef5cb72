import CommitReveal.Chain.Call

/-! What contracts answer, as words of 32 bytes. Lists and their lengths are found through offsets; what
stands behind the words that are asked for is not looked at. -/
namespace CommitReveal.Contract

inductive AnswerFault where
  /-- No bytes at all: there is no such contract. -/
  | empty
  | malformed
deriving DecidableEq, Repr

def AnswerFault.message : AnswerFault → String
  | .empty =>
    "Invalid name: please ensure the contract and method you're calling exist! failed to decode empty " ++
      "bytes. if you're using jsonrpc this is likely due to jsonrpc returning `0x` in case contract or " ++
      "method don't exist"
  | .malformed => "Invalid data"

namespace Answer

/-- The word at an offset in bytes. -/
def wordAt (data : Bytes) (offset : Nat) : Except AnswerFault Hash :=
  match FixedBytes.ofBytes? 32 ((data.drop offset).take 32) with
  | some w => .ok w
  | none => .error .malformed

/-- An offset or a length; those of 2^32 and more are refused. -/
def sizeOf (w : Hash) : Except AnswerFault Nat :=
  if w.toNat < UInt32.size then .ok w.toNat else .error .malformed

/-- True is one, and all but the last byte must be zero. -/
def flagOf (w : Hash) : Except AnswerFault Bool :=
  if w.toNat < 256 then .ok (w.toNat = 1) else .error .malformed

/-- The low-order 64 bits. -/
def blockOf (w : Hash) : Word :=
  UInt64.ofNat w.toNat

/-- The bytes of a record, ten words. -/
def recordLength : Nat := 10 * 32

def record (data : Bytes) : Except AnswerFault OracleRecord := do
  let word (i : Nat) : Except AnswerFault Hash := wordAt data (32 * i)
  return {
    committer := .ofWord (← word 0)
    hash := ← word 1
    commitBlock := blockOf (← word 2)
    seed := ← word 3
    revealed := ← flagOf (← word 4)
    verifiedBlock := blockOf (← word 5)
    consumer := .ofWord (← word 6)
    subscriber := .ofWord (← word 7)
    subscribeBlock := blockOf (← word 8)
    subscribeStatus := UInt8.ofNat (← word 9).toNat }

def records : (count : Nat) → Bytes → Except AnswerFault (List OracleRecord)
  | 0, _ => .ok []
  | count + 1, data => do
    let r ← record data
    return r :: (← records count (data.drop recordLength))

/-- Refuses an answer without bytes. -/
def notEmpty (data : Bytes) : Except AnswerFault Unit :=
  if data.isEmpty then .error .empty else .ok ()

def hash (data : Bytes) : Except AnswerFault Hash := do
  notEmpty data
  wordAt data 0

def amount (data : Bytes) : Except AnswerFault Nat := do
  notEmpty data
  return (← wordAt data 0).toNat

/-- The first word leads to the length of the list, and its records follow that. -/
def recordList (data : Bytes) : Except AnswerFault (List OracleRecord) := do
  notEmpty data
  let start ← sizeOf (← wordAt data 0)
  let count ← sizeOf (← wordAt data start)
  records count (data.drop (start + 32))

end Answer

end CommitReveal.Contract
