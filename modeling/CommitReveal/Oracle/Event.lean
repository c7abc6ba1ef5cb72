import CommitReveal.Chain.Call
import CommitReveal.Keccak

/-! The events of the oracle and their logs. The first topic of a log is the hash of the event's
declaration, the others are its indexed addresses, and the data holds the rest in 32-byte words. -/
namespace CommitReveal

inductive OracleEvent where
  /-- A consumer asks for the random number behind a hash. -/
  | subscribed (committer consumer : Address) (hash : Hash)
  /-- A commitment is on chain. -/
  | commitRegistered (sender : Address) (hash : Hash) (block : Word)
  /-- A seed is public. -/
  | seedRevealed (committer : Address) (hash : Hash) (seed : Seed)
  | unsubscribed (consumer : Address) (hash : Hash)
  | randomConsumed (consumer : Address) (hash : Hash)
deriving DecidableEq

namespace OracleEvent

/-- The five declarations. -/
inductive Kind where
  | subscribe | commitHash | revealSeed | unSubscribe | randomConsumed
deriving DecidableEq, Repr

def Kind.name : Kind → String
  | .subscribe => "Subscribe"
  | .commitHash => "CommitHash"
  | .revealSeed => "RevealSeed"
  | .unSubscribe => "UnSubscribe"
  | .randomConsumed => "RandomConsumed"

def Kind.declaration : Kind → String
  | .subscribe => "Subscribe(address,address,bytes32)"
  | .commitHash => "CommitHash(address,bytes32,uint256)"
  | .revealSeed => "RevealSeed(address,bytes32,bytes32)"
  | .unSubscribe => "UnSubscribe(address,bytes32)"
  | .randomConsumed => "RandomConsumed(address,bytes32)"

/-- The Keccak hash of the declaration. -/
def Kind.signature : Kind → Hash
  | .subscribe => .ofNat 32 0x9d48c8374928935f162c75d7310b15fb1040c13fd2f8725698fd7e66cecc0a13
  | .commitHash => .ofNat 32 0x19fad381b1712620715f03d76aa899a2fb46b402f67a49a4c13ff09a23a17724
  | .revealSeed => .ofNat 32 0x7f262ba67f6c961a225373037d9838eba69e1f947bf9fa70782ff8be8816035d
  | .unSubscribe => .ofNat 32 0x2e38bf4da02e7c39f32b929c783ed2bd12458999585aae8c93820e9bc7637f34
  | .randomConsumed => .ofNat 32 0x6c953386e7b68261ed7c2a002cd98afc7d146afc7eb40bec6700335df4f452b2

theorem Kind.signature_eq (k : Kind) : k.signature = Keccak.hash (.ofAscii k.declaration) := by
  cases k <;> decide +kernel

def kind : OracleEvent → Kind
  | subscribed .. => .subscribe
  | commitRegistered .. => .commitHash
  | seedRevealed .. => .revealSeed
  | unsubscribed .. => .unSubscribe
  | randomConsumed .. => .randomConsumed

def name (e : OracleEvent) : String :=
  e.kind.name

/-- The agent an event belongs to, for the events that name one. -/
def owner : OracleEvent → Option Address
  | subscribed committer _ _ => some committer
  | commitRegistered sender _ _ => some sender
  | seedRevealed committer _ _ => some committer
  | unsubscribed _ _ => none
  | randomConsumed _ _ => none

def hash : OracleEvent → Hash
  | subscribed _ _ hash => hash
  | commitRegistered _ hash _ => hash
  | seedRevealed _ hash _ => hash
  | unsubscribed _ hash => hash
  | randomConsumed _ hash => hash

/-- The indexed addresses. -/
def addresses : OracleEvent → List Address
  | subscribed committer consumer _ => [committer, consumer]
  | commitRegistered sender _ _ => [sender]
  | seedRevealed committer _ _ => [committer]
  | unsubscribed consumer _ => [consumer]
  | randomConsumed consumer _ => [consumer]

def topics (e : OracleEvent) : List Hash :=
  e.kind.signature :: e.addresses.map Address.toWord

def data : OracleEvent → Bytes
  | commitRegistered _ hash block => hash.bytes ++ Bytes.ofNatBE 32 block.toNat
  | seedRevealed _ hash seed => hash.bytes ++ seed.bytes
  | e => e.hash.bytes

/-- The word at place `i` of the data. -/
def word? (data : Bytes) (i : Nat) : Option Hash :=
  FixedBytes.ofBytes? 32 ((data.drop (32 * i)).take 32)

/-- The event that topics and data spell. Further data, the twelve bytes that lead an address and the
high bytes of a block are not looked at. -/
def ofLog? (topics : List Hash) (data : Bytes) : Option OracleEvent :=
  match topics with
  | [signature, a, b] =>
    if signature = Kind.subscribe.signature then do
      let hash ← word? data 0
      some (.subscribed (.ofWord a) (.ofWord b) hash)
    else none
  | [signature, a] =>
    if signature = Kind.commitHash.signature then do
      let hash ← word? data 0
      let block ← word? data 1
      some (.commitRegistered (.ofWord a) hash (.ofNat block.toNat))
    else if signature = Kind.revealSeed.signature then do
      let hash ← word? data 0
      let seed ← word? data 1
      some (.seedRevealed (.ofWord a) hash seed)
    else if signature = Kind.unSubscribe.signature then do
      let hash ← word? data 0
      some (.unsubscribed (.ofWord a) hash)
    else if signature = Kind.randomConsumed.signature then do
      let hash ← word? data 0
      some (.randomConsumed (.ofWord a) hash)
    else none
  | _ => none

def decode (topics : List Hash) (data : Bytes) : Except ChainError OracleEvent :=
  match ofLog? topics data with
  | some e => .ok e
  | none => .error (.decode "Invalid data")

/-- The log of an event. -/
def toLog (e : OracleEvent) (oracle : Address) (block : Option Word) (index : Option Nat) : EventLog :=
  ⟨oracle, e.topics, e.data, block, index⟩

end OracleEvent

end CommitReveal
