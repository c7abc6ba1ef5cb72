import CommitReveal.Json.Skip
import CommitReveal.Word

/-! Reading values of a wanted kind, and the items of lists and objects one after the other. What is
found instead of the wanted kind is named only if it is itself well formed so far. -/
namespace CommitReveal.Json

/-- The fault of finding something else than what was wanted. -/
def mismatch (wanted : String) (s : List Char) : Fault :=
  let found : Except Fault Found :=
    match s with
    | [] => .error .valueExpected
    | 'n' :: s => (fun _ => .null) <$> readWord ['u', 'l', 'l'] s
    | 't' :: s => (fun _ => .boolean true) <$> readWord ['r', 'u', 'e'] s
    | 'f' :: s => (fun _ => .boolean false) <$> readWord ['a', 'l', 's', 'e'] s
    | '"' :: s => (fun r => .string (String.ofList r.1)) <$> readText true s
    | '[' :: _ => .ok .sequence
    | '\x7b' :: _ => .ok .map
    | c :: s =>
      if c = '-' ∨ (digit? c).isSome then (fun r => r.1.found) <$> readNumber (c :: s)
      else .error .valueExpected
  match found with
  | .ok f => .invalidType f wanted
  | .error e => e

/-- Reads a text. -/
def readString (wanted : String) (s : List Char) : Except Fault (String × List Char) :=
  match skipBlanks s with
  | [] => .error .endInValue
  | '"' :: s => do
    let (cs, s) ← readText true s
    return (String.ofList cs, s)
  | s => .error (mismatch wanted s)

/-- Reads a whole number from 0 to `2 ^ 64 - 1`. -/
def readWord64 (wanted : String) (s : List Char) : Except Fault (Word × List Char) :=
  match skipBlanks s with
  | [] => .error .endInValue
  | c :: s =>
    if c = '-' ∨ (digit? c).isSome then do
      match ← readNumber (c :: s) with
      | (.whole n, s) =>
        if 0 ≤ n then return (UInt64.ofNat n.toNat, s)
        else .error (.invalidValue (.integer n) wanted)
      | (n, _) => .error (.invalidType n.found wanted)
    else .error (mismatch wanted (c :: s))

/-- Reads `null` as no value. -/
def readOptional (read : List Char → Except Fault (α × List Char)) (s : List Char) :
    Except Fault (Option α × List Char) :=
  match skipBlanks s with
  | 'n' :: s => do return (none, ← readWord ['u', 'l', 'l'] s)
  | s => do
    let (a, s) ← read s
    return (some a, s)

/-- Goes to the next item of a list; none at its closing bracket. -/
def nextItem (first : Bool) (s : List Char) : Except Fault (Option (List Char)) :=
  match skipBlanks s with
  | [] => .error .endInList
  | ']' :: _ => .ok none
  | c :: s =>
    if first then .ok (some (c :: s))
    else if c = ',' then
      match skipBlanks s with
      | [] => .error .endInValue
      | ']' :: _ => .error .trailingComma
      | s => .ok (some s)
    else .error .listCommaExpected

/-- Goes to the next key of an object, reads it, and goes to its value; none at the closing brace. -/
def nextKey (first : Bool) (s : List Char) : Except Fault (Option (String × List Char)) := do
  let s := skipBlanks s
  let start ← match s with
    | [] => .error .endInObject
    | '\x7d' :: _ => return none
    | c :: rest =>
      if first then pure s
      else if c = ',' then
        match skipBlanks rest with
        | [] => .error .endInValue
        | '\x7d' :: _ => .error .trailingComma
        | s => pure s
      else .error .objectCommaExpected
  match start with
  | '"' :: s => do
    let (key, s) ← readText true s
    return some (String.ofList key, s)
  | _ => .error .keyNotString

/-- Passes over the colon between a key and its value. -/
def readColon (s : List Char) : Except Fault (List Char) :=
  match skipBlanks s with
  | [] => .error .endInObject
  | ':' :: s => .ok s
  | _ => .error .colonExpected

/-- Passes over the closing bracket of a list that has been read. -/
def closeList (s : List Char) : Except Fault (List Char) :=
  match skipBlanks s with
  | [] => .error .endInList
  | ']' :: s => .ok s
  | ',' :: s =>
    match skipBlanks s with
    | ']' :: _ => .error .trailingComma
    | _ => .error .trailingCharacters
  | _ => .error .trailingCharacters

/-- Passes over the closing brace of an object that has been read. -/
def closeObject (s : List Char) : Except Fault (List Char) :=
  match skipBlanks s with
  | [] => .error .endInObject
  | '\x7d' :: s => .ok s
  | ',' :: _ => .error .trailingComma
  | _ => .error .trailingCharacters

/-- Refuses anything but blanks. -/
def finish (s : List Char) : Except Fault Unit :=
  match skipBlanks s with
  | [] => .ok ()
  | _ => .error .trailingCharacters

end CommitReveal.Json
