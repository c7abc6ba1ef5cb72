import CommitReveal.Json.Value
import CommitReveal.Node.HexText
import CommitReveal.Word

/-! Reading values of one kind from what a node replies, and the fields of a record. A field that a record
has twice is refused, as is one of the wrong kind; fields nobody asks for are passed over. -/
namespace CommitReveal.Node

/-- Reads a value, if it is of the right kind. -/
abbrev Reading (α : Type) := Json.Value → Option α

namespace Reading

def text : Reading String
  | .string s => some s
  | _ => none

def flag : Reading Bool
  | .boolean b => some b
  | _ => none

/-- A number of up to `width` hexadecimal digits. -/
def number (width : Nat) : Reading Nat := fun v =>
  (text v).bind (HexText.number? width)

def word : Reading Word := fun v =>
  (number 16 v).map UInt64.ofNat

/-- A number of up to 256 bits. -/
def amount : Reading Nat :=
  number 64

def fixed (n : Nat) : Reading (FixedBytes n) := fun v =>
  (text v).bind (HexText.fixed? n)

def bytes : Reading Bytes := fun v =>
  (text v).bind HexText.bytes?

def anything : Reading Json.Value :=
  some

/-- Reads `null` as no value. -/
def optional (read : Reading α) : Reading (Option α)
  | .null => some none
  | v => (read v).map some

def list (read : Reading α) : Reading (List α)
  | .list items => items.mapM read
  | _ => none

end Reading

/-- The fields of a record, by name. -/
abbrev Fields := List (String × Json.Value)

namespace Fields

/-- The fields of an object. -/
def ofObject : Reading Fields
  | .object members => some members
  | _ => none

/-- The fields of an object, or of a list that holds the values in the order of `names`. -/
def ofEither (names : List String) : Reading Fields
  | .list items => if items.length = names.length then some (names.zip items) else none
  | v => ofObject v

/-- Reads a field if the record has it. -/
def ifAny (fs : Fields) (name : String) (read : Reading α) : Option (Option α) :=
  match fs.filter (·.1 = name) with
  | [] => some none
  | [field] => (read field.2).map some
  | _ => none

/-- Reads a field that every such record has. -/
def need (fs : Fields) (name : String) (read : Reading α) : Option α :=
  (fs.ifAny name read).join

/-- Reads a field that may be missing or `null`. -/
def mayHave (fs : Fields) (name : String) (read : Reading α) : Option (Option α) :=
  (fs.ifAny name (Reading.optional read)).map Option.join

/-- Looks at fields that are not kept but must be well formed. -/
def needAll (fs : Fields) (names : List String) (read : Reading α) : Option Unit :=
  names.forM fun name => (fs.need name read).map fun _ => ()

/-- Looks at fields that are not kept but must be well formed if there are any. -/
def mayHaveAll (fs : Fields) (names : List String) (read : Reading α) : Option Unit :=
  names.forM fun name => (fs.mayHave name read).map fun _ => ()

end Fields

end CommitReveal.Node
