import CommitReveal.Json.Lexeme
import CommitReveal.Json.Number

/-! Passing over a value of any kind, however deep it is nested. -/
namespace CommitReveal.Json

/-- A list or an object that is still open. -/
inductive Frame where
  | list
  | object
deriving DecidableEq, Repr

def Frame.closing : Frame → Char
  | .list => ']'
  | .object => '\x7d'

def Frame.endFault : Frame → Fault
  | .list => .endInList
  | .object => .endInObject

def Frame.commaFault : Frame → Fault
  | .list => .listCommaExpected
  | .object => .objectCommaExpected

/-- Passes over a value that opens nothing. -/
def skipScalar : List Char → Except Fault (List Char)
  | [] => .error .endInValue
  | 'n' :: s => readWord ['u', 'l', 'l'] s
  | 't' :: s => readWord ['r', 'u', 'e'] s
  | 'f' :: s => readWord ['a', 'l', 's', 'e'] s
  | '"' :: s => (·.2) <$> readText false s
  | c :: s => if c = '-' ∨ (digit? c).isSome then skipNumber (c :: s) else .error .valueExpected

/-- Passes over a key and the colon after it. -/
def skipKey (s : List Char) : Except Fault (List Char) :=
  match skipBlanks s with
  | [] => .error .endInObject
  | '"' :: s => do
    let (_, s) ← readText false s
    match skipBlanks s with
    | [] => .error .endInObject
    | ':' :: s => return s
    | _ => .error .colonExpected
  | _ => .error .keyNotString

/-- Where a reader stands among the values to pass over. -/
inductive Place where
  | beforeValue
  /-- Within a list or object, before its first item or its end. -/
  | opened
  | afterValue
deriving DecidableEq, Repr

/-- Passes over what is left of a value, in at most `fuel` moves. The open containers are listed from
the inside. -/
def skipFrom : (fuel : Nat) → Place → List Frame → List Char → Except Fault (List Char)
  | 0, _, _, _ => .error .endInValue
  | fuel + 1, .beforeValue, frames, s =>
    match skipBlanks s with
    | '[' :: s => skipFrom fuel .opened (.list :: frames) s
    | '\x7b' :: s => skipFrom fuel .opened (.object :: frames) s
    | s => do skipFrom fuel .afterValue frames (← skipScalar s)
  | _ + 1, .afterValue, [], s => .ok s
  | _ + 1, .opened, [], s => .ok s
  | fuel + 1, place, frame :: frames, s =>
    let item (s : List Char) : Except Fault (List Char) := do
      match frame with
      | .list => skipFrom fuel .beforeValue (frame :: frames) s
      | .object => skipFrom fuel .beforeValue (frame :: frames) (← skipKey s)
    match skipBlanks s with
    | [] => .error frame.endFault
    | c :: s =>
      if c = frame.closing then skipFrom fuel .afterValue frames s
      else if place = .opened then item (c :: s)
      else if c = ',' then item s
      else .error frame.commaFault

/-- Passes over one value. Each two moves use up a character at least. -/
def skipValue (s : List Char) : Except Fault (List Char) :=
  skipFrom (2 * s.length + 2) .beforeValue [] s

end CommitReveal.Json
