import CommitReveal.FixedBytes

/-! Internet addresses with a port, as text: `1.2.3.4:80`, or `[1::2]:80` with a scope after `%` if it is not
zero. Reading takes every usual spelling, writing gives the canonical one. -/
namespace CommitReveal.Net

inductive Host where
  | v4 (bytes : FixedBytes 4)
  | v6 (bytes : FixedBytes 16) (scope : UInt32)
deriving DecidableEq, Repr

/-- Whether every machine has this address: it stands for the machine itself, or for all its addresses. -/
def Host.isLocal : Host → Bool
  | .v4 bytes => bytes.toNat = 0 || bytes.bytes.head? = some 127
  | .v6 bytes _ => bytes.toNat ≤ 1

structure SocketAddress where
  host : Host
  port : UInt16
deriving DecidableEq, Repr

/-- A reading from the front of a text, with what follows it. -/
abbrev Reading (α : Type) := List Char → Option (α × List Char)

def isDigitOf (base : Nat) (c : Char) : Bool :=
  (Hex.value? c).any (· < base)

def valueOf (base : Nat) (digits : List Char) : Nat :=
  digits.foldl (fun n c => base * n + (Hex.value? c).getD 0) 0

/-- Reads all the digits at the front as a number below `bound`. -/
def readNumber (base bound : Nat) : Reading Nat := fun s =>
  let ds := s.takeWhile (isDigitOf base)
  let n := valueOf base ds
  if ds.isEmpty ∨ bound ≤ n then none else some (n, s.dropWhile (isDigitOf base))

/-- The number of digits at the front. -/
def width (base : Nat) (s : List Char) : Nat :=
  (s.takeWhile (isDigitOf base)).length

def readChar (c : Char) : Reading Unit
  | [] => none
  | d :: s => if d = c then some ((), s) else none

/-- Up to three digits that do not begin with a zero, unless they are just `0`. -/
def readOctet : Reading Nat := fun s =>
  if width 10 s > 3 ∨ (s.head? = some '0' ∧ width 10 s > 1) then none
  else readNumber 10 256 s

/-- Up to four hexadecimal digits. -/
def readGroup : Reading Nat := fun s =>
  if width 16 s > 4 then none else readNumber 16 0x10000 s

/-- Reads something after a separator. -/
def after (separator : Char) (read : Reading α) : Reading α := fun s => do
  let ((), s) ← readChar separator s
  read s

def readOctets : Reading (List Nat) := fun s => do
  let (a, s) ← readOctet s
  let (b, s) ← after '.' readOctet s
  let (c, s) ← after '.' readOctet s
  let (d, s) ← after '.' readOctet s
  return ([a, b, c, d], s)

/-- Two groups that are spelled as four octets. -/
def readOctetGroups : Reading (List Nat) := fun s => do
  match ← readOctets s with
  | ([a, b, c, d], s) => return ([256 * a + b, 256 * c + d], s)
  | _ => none

/-- Reads at most `left` groups with colons between them. Octets stand for the last two groups; the flag
says that they did. -/
def readGroups : (left : Nat) → (first : Bool) → List Char → List Nat × Bool × List Char
  | 0, _, s => ([], false, s)
  | left + 1, first, s =>
    let item {α : Type} (read : Reading α) : Reading α := if first then read else after ':' read
    let octets := if left = 0 then none else item readOctetGroups s
    match octets, item readGroup s with
    | some (groups, s), _ => (groups, true, s)
    | none, some (group, s) =>
      let (groups, mixed, s) := readGroups left false s
      (group :: groups, mixed, s)
    | none, none => ([], false, s)

/-- Reads eight groups; a pair of colons stands for one group of zeros or more. -/
def readHost6 : Reading (List Nat) := fun s => do
  let (head, mixed, s) := readGroups 8 true s
  if head.length = 8 then
    return (head, s)
  else if mixed then
    none
  else
    let ((), s) ← readChar ':' s
    let ((), s) ← readChar ':' s
    let (tail, _, s) := readGroups (7 - head.length) true s
    return (head ++ List.replicate (8 - head.length - tail.length) 0 ++ tail, s)

def readPort : Reading UInt16 := fun s => do
  let (n, s) ← after ':' (readNumber 10 0x10000) s
  return (UInt16.ofNat n, s)

def readAddress4 : Reading SocketAddress := fun s => do
  let (octets, s) ← readOctets s
  let bytes ← FixedBytes.ofBytes? 4 (octets.map UInt8.ofNat)
  let (port, s) ← readPort s
  return (⟨.v4 bytes, port⟩, s)

def readAddress6 : Reading SocketAddress := fun s => do
  let ((), s) ← readChar '[' s
  let (groups, s) ← readHost6 s
  let bytes ← FixedBytes.ofBytes? 16 (groups.flatMap (Bytes.ofNatBE 2))
  let (scope, s) := (after '%' (readNumber 10 UInt32.size) s).getD (0, s)
  let ((), s) ← readChar ']' s
  let (port, s) ← readPort s
  return (⟨.v6 bytes (UInt32.ofNat scope), port⟩, s)

/-- The address that a text spells. -/
def SocketAddress.ofText? (text : String) : Option SocketAddress :=
  match (readAddress4 text.toList).or (readAddress6 text.toList) with
  | some (address, []) => some address
  | _ => none

def octetText (bytes : Bytes) : String :=
  String.intercalate "." (bytes.map fun b => toString b.toNat)

/-- Pairs of bytes as numbers. -/
def groups : Bytes → List Nat
  | a :: b :: rest => (256 * a.toNat + b.toNat) :: groups rest
  | _ => []

def groupText (gs : List Nat) : String :=
  String.intercalate ":" (gs.map fun g => String.ofList (Nat.toDigits 16 g))

/-- The length of the run of zeros at each place. -/
def zeroRuns : List Nat → List Nat
  | [] => []
  | g :: gs =>
    let runs := zeroRuns gs
    (if g = 0 then 1 + runs.headD 0 else 0) :: runs

/-- The first longest run of zeros is left out if it has two groups or more; an address that embeds
octets shows them. -/
def hostText6 (bytes : Bytes) : String :=
  if bytes.take 12 = List.replicate 10 0 ++ [0xff, 0xff] then
    "::ffff:" ++ octetText (bytes.drop 12)
  else
    let gs := groups bytes
    let runs := zeroRuns gs
    let longest := runs.foldl max 0
    if longest < 2 then groupText gs
    else
      let start := runs.idxOf longest
      groupText (gs.take start) ++ "::" ++ groupText (gs.drop (start + longest))

def Host.text : Host → String
  | .v4 bytes => octetText bytes.bytes
  | .v6 bytes scope =>
    "[" ++ hostText6 bytes.bytes ++ (if scope = 0 then "" else s!"%{scope.toNat}") ++ "]"

def SocketAddress.text (a : SocketAddress) : String :=
  a.host.text ++ s!":{a.port.toNat}"

end CommitReveal.Net
