import CommitReveal.Json.Reader

/-! JSON values as trees. An object keeps its members as they stand in the text, so that a name may occur
twice. -/
namespace CommitReveal.Json

inductive Value where
  | null
  | boolean (value : Bool)
  | number (value : Number)
  | string (value : String)
  | list (items : List Value)
  | object (members : List (String × Value))
deriving Repr, Inhabited

/-- Reads the items of a list up to its closing bracket, at most `fuel` of them. -/
def readItems (read : List Char → Except Fault (Value × List Char)) :
    (fuel : Nat) → (first : Bool) → List Char → Except Fault (List Value × List Char)
  | 0, _, _ => .error .endInList
  | fuel + 1, first, s => do
    match ← nextItem first s with
    | none => return ([], ← closeList s)
    | some s =>
      let (item, s) ← read s
      let (items, s) ← readItems read fuel false s
      return (item :: items, s)

/-- Reads the members of an object up to its closing brace, at most `fuel` of them. -/
def readMembers (read : List Char → Except Fault (Value × List Char)) :
    (fuel : Nat) → (first : Bool) → List Char → Except Fault (List (String × Value) × List Char)
  | 0, _, _ => .error .endInObject
  | fuel + 1, first, s => do
    match ← nextKey first s with
    | none => return ([], ← closeObject s)
    | some (key, s) =>
      let (value, s) ← read (← readColon s)
      let (members, s) ← readMembers read fuel false s
      return ((key, value) :: members, s)

/-- Reads a value that holds no others. -/
def readScalar : List Char → Except Fault (Value × List Char)
  | [] => .error .endInValue
  | 'n' :: s => do return (.null, ← readWord ['u', 'l', 'l'] s)
  | 't' :: s => do return (.boolean true, ← readWord ['r', 'u', 'e'] s)
  | 'f' :: s => do return (.boolean false, ← readWord ['a', 'l', 's', 'e'] s)
  | '"' :: s => do
    let (cs, s) ← readText true s
    return (.string (String.ofList cs), s)
  | c :: s =>
    if c = '-' ∨ (digit? c).isSome then do
      let (n, s) ← readNumber (c :: s)
      return (.number n, s)
    else .error .valueExpected

/-- Reads a value in which at most `depth` lists and objects stand within each other. -/
def readValue : (depth : Nat) → List Char → Except Fault (Value × List Char)
  | depth, s =>
    match depth, skipBlanks s with
    | 0, '[' :: _ | 0, '\x7b' :: _ => .error .nestedTooDeep
    | depth + 1, '[' :: s => do
      let (items, s) ← readItems (readValue depth) (s.length + 1) true s
      return (.list items, s)
    | depth + 1, '\x7b' :: s => do
      let (members, s) ← readMembers (readValue depth) (s.length + 1) true s
      return (.object members, s)
    | _, s => readScalar s

def depthLimit : Nat := 127

/-- The value that a text spells, with nothing but blanks around it. -/
def Value.ofText (text : String) : Except Fault Value := do
  let (v, s) ← readValue depthLimit text.toList
  finish s
  return v

/-- What stands under each name, in the order of names; of several with one name the last counts. -/
def byName (members : List (String × α)) : List (String × α) :=
  let latest := members.foldl (fun kept m => kept.filter (·.1 ≠ m.1) ++ [m]) []
  latest.mergeSort fun a b => !decide (b.1 < a.1)

mutual

/-- A value with the kind of each of its parts spelled out, as a log shows it. -/
def Value.shown : Value → String
  | .null => "Null"
  | .boolean value => s!"Bool({value})"
  | .number (.whole n) => s!"Number({n})"
  | .number (.double negative x) => "Number(" ++ x.text negative ++ ")"
  | .string value => "String(" ++ Text.quote value ++ ")"
  | .list items => "Array [" ++ String.intercalate ", " (shownItems items) ++ "]"
  | .object members =>
    let entry (m : String × String) : String := Text.quote m.1 ++ ": " ++ m.2
    "Object \x7b" ++ String.intercalate ", " ((byName (shownMembers members)).map entry) ++ "\x7d"

def shownItems : List Value → List String
  | [] => []
  | v :: rest => v.shown :: shownItems rest

def shownMembers : List (String × Value) → List (String × String)
  | [] => []
  | (name, v) :: rest => (name, v.shown) :: shownMembers rest

end

end CommitReveal.Json
