import CommitReveal.Config.Basic
import CommitReveal.Config.Field

/-! Reading a configuration from JSON: an object with its fields in any order, unknown ones passed over,
or a list of its fields in their order. What is wrong first in the text is what is reported. -/
namespace CommitReveal.Config

/-- The values read so far. -/
abbrev Draft := List (Field × Value)

namespace Draft

def has (d : Draft) (f : Field) : Bool :=
  (d.lookup f).isSome

def text? (d : Draft) (f : Field) : Option String :=
  match d.lookup f with
  | some (.text value) => some value
  | _ => none

def word? (d : Draft) (f : Field) : Option Word :=
  match d.lookup f with
  | some (.word value) => some value
  | _ => none

/-- A value that must be there. -/
def need (f : Field) : Option α → Except Json.Fault α
  | some a => .ok a
  | none => .error (.missingField f.name)

/-- Puts in what a file may leave out. -/
def finish (d : Draft) : Except Json.Fault Config := do
  let rpcUrl ← need .rpcUrl (d.text? .rpcUrl)
  let chainId ← need .chainId (d.word? .chainId)
  let oracleAddress ← need .oracleAddress (d.text? .oracleAddress)
  let tokenAddress ← need .tokenAddress (d.text? .tokenAddress)
  return {
    rpcUrl, chainId, oracleAddress, tokenAddress
    privateKey := (d.text? .privateKey).getD ""
    dbPath := (d.text? .dbPath).getD "./data/agent.db"
    httpListen := (d.text? .httpListen).getD "127.0.0.1:8080"
    startBlock := d.word? .startBlock
    deployTx := d.text? .deployTx
    confirmations := (d.word? .confirmations).getD 0
    gasLimit := (d.word? .gasLimit).getD 1000000
    gasPrice := (d.word? .gasPrice).getD 5000000000
    allowanceTokens := (d.word? .allowanceTokens).getD 10000000000
    rpcTimeoutSeconds := (d.word? .rpcTimeout).getD 10
    liveGraceSeconds := (d.word? .liveGrace).getD 10 }

end Draft

/-- Reads the members of an object up to its closing brace, at most `fuel` of them. -/
def readMembers : (fuel : Nat) → (first : Bool) → Draft → List Char →
    Except Json.Fault (Draft × List Char)
  | 0, _, _, _ => .error .endInObject
  | fuel + 1, first, d, s => do
    match ← Json.nextKey first s with
    | none => return (d, s)
    | some (key, s) =>
      match Field.ofName? key with
      | none => readMembers fuel false d (← Json.skipValue (← Json.readColon s))
      | some f =>
        if d.has f then
          .error (.duplicateField f.name)
        else
          let (value, s) ← f.read (← Json.readColon s)
          readMembers fuel false ((f, value) :: d) s

/-- What a file holds, in the words of a refusal. -/
def wanted : String := "struct AgentConfig"

/-- Reads the items of a list up to its closing bracket, one for each of the fields; those after the
required ones may be left out. -/
def readItems : List Field → Draft → List Char → Except Json.Fault (Draft × List Char)
  | [], d, s => .ok (d, s)
  | f :: fs, d, s => do
    match ← Json.nextItem d.isEmpty s with
    | none =>
      if f.isRequired then
        .error (.invalidLength d.length s!"{wanted} with {Field.all.length} elements")
      else
        return (d, s)
    | some s =>
      let (value, s) ← f.read s
      readItems fs ((f, value) :: d) s

/-- Reads a configuration from the front of a text. -/
def read (s : List Char) : Except Json.Fault (Config × List Char) :=
  match Json.skipBlanks s with
  | [] => .error .endInValue
  | '[' :: s => do
    let (d, s) ← readItems Field.all [] s
    let c ← d.finish
    return (c, ← Json.closeList s)
  | '\x7b' :: s => do
    let (d, s) ← readMembers (s.length + 1) true [] s
    let c ← d.finish
    return (c, ← Json.closeObject s)
  | s => .error (Json.mismatch wanted s)

/-- The configuration that a JSON text holds. -/
def ofJson (text : String) : Except ConfigFault Config :=
  let result : Except Json.Fault Config := do
    let (c, s) ← read text.toList
    Json.finish s
    return c
  result.mapError .malformed

end CommitReveal.Config
