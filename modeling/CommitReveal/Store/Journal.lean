import CommitReveal.Store.Table

/-! Keeping a table in a file: a marker, then every change in turn. Reading the file makes the changes again;
one that was cut off while it was written is left out. -/
namespace CommitReveal.Store.Journal

/-- What such a file begins with. -/
def marker : Bytes :=
  Bytes.ofAscii "commit-reveal store 1\n"

/-- Bytes behind their length. -/
def chunk (bytes : Bytes) : Bytes :=
  Bytes.ofNatBE 8 bytes.length ++ bytes

/-- What is written for a call; nothing for one that changes nothing. -/
def entry : Call → Bytes
  | .set key value => 1 :: chunk key ++ chunk value
  | .delete key => 0 :: chunk key
  | .get _ | .scan _ => []

/-- Bytes behind their length, and what follows them. -/
def takeChunk? (bytes : Bytes) : Option (Bytes × Bytes) :=
  let length := Bytes.toNatBE (bytes.take 8)
  let rest := bytes.drop 8
  if bytes.length < 8 ∨ rest.length < length then none
  else some (rest.take length, rest.drop length)

theorem takeChunk?_chunk (bytes rest : Bytes) (h : bytes.length < Nat.pow 256 8) :
    takeChunk? (chunk bytes ++ rest) = some (bytes, rest) := by
  have front : (Bytes.ofNatBE 8 bytes.length ++ bytes ++ rest).take 8 = Bytes.ofNatBE 8 bytes.length := by
    rw [List.append_assoc, List.take_left' (Bytes.length_ofNatBE 8 _)]
  have back : (Bytes.ofNatBE 8 bytes.length ++ bytes ++ rest).drop 8 = bytes ++ rest := by
    rw [List.append_assoc, List.drop_left' (Bytes.length_ofNatBE 8 _)]
  unfold takeChunk? chunk
  rw [front, back, Bytes.toNatBE_ofNatBE, Nat.mod_eq_of_lt h]
  simp

/-- The change at the front, and what follows it. -/
def takeChange? : Bytes → Option (Call × Bytes)
  | 1 :: bytes => do
    let (key, bytes) ← takeChunk? bytes
    let (value, bytes) ← takeChunk? bytes
    return (.set key value, bytes)
  | 0 :: bytes => do
    let (key, bytes) ← takeChunk? bytes
    return (.delete key, bytes)
  | _ => none

/-- Makes at most `fuel` changes. -/
def replay : (fuel : Nat) → Table → Bytes → Table
  | 0, t, _ => t
  | fuel + 1, t, bytes =>
    match takeChange? bytes with
    | some (.set key value, rest) => replay fuel (t.upsert key value) rest
    | some (.delete key, rest) => replay fuel (t.delete key) rest
    | _ => t

/-- The table that a file holds: an empty one in a file without bytes, and none in a file without the
marker. -/
def read? (file : Bytes) : Option Table :=
  if file.isEmpty then some .empty
  else if file.startsWith marker then some (replay file.length .empty (file.drop marker.length))
  else none

/-- The file of a table, without changes that others have undone. -/
def write (t : Table) : Bytes :=
  marker ++ t.rows.flatMap fun row => entry (.set row.1 row.2)

end CommitReveal.Store.Journal
