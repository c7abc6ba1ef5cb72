import CommitReveal.Hex
import CommitReveal.Json.Fault

/-! The words and texts of JSON, read from the front of a list of characters. Each reading returns what
follows, and refuses at the first character that is wrong. -/
namespace CommitReveal.Json

def isBlank (c : Char) : Bool :=
  c == ' ' || c == '\n' || c == '\t' || c == '\r'

def skipBlanks (s : List Char) : List Char :=
  s.dropWhile isBlank

/-- Reads the letters of a word. -/
def readWord : (letters : List Char) → List Char → Except Fault (List Char)
  | [], s => .ok s
  | _ :: _, [] => .error .endInValue
  | letter :: letters, c :: s => if c = letter then readWord letters s else .error .identExpected

/-- Four hexadecimal digits as a number. A text that ends within four bytes has no room for them. -/
def readUnit : List Char → Except Fault (Nat × List Char)
  | a :: b :: c :: d :: rest =>
    match Hex.value? a, Hex.value? b, Hex.value? c, Hex.value? d with
    | some a, some b, some c, some d => .ok (((a * 16 + b) * 16 + c) * 16 + d, rest)
    | _, _, _, _ => .error .invalidEscape
  | short => if (String.ofList short).utf8ByteSize < 4 then .error .endInString else .error .invalidEscape

def isLeading (n : Nat) : Bool :=
  0xd800 ≤ n && n ≤ 0xdbff

def isTrailing (n : Nat) : Bool :=
  0xdc00 ≤ n && n ≤ 0xdfff

/-- The character spelled by the rest of a `\u` escape: one unit, or a pair of surrogates. -/
def readCodePoint (s : List Char) : Except Fault (Char × List Char) :=
  match readUnit s with
  | .error e => .error e
  | .ok (n, rest) =>
    if isTrailing n then .error .loneSurrogate
    else if isLeading n then
      match rest with
      | [] | ['\\'] => .error .endInString
      | '\\' :: 'u' :: rest =>
        match readUnit rest with
        | .error e => .error e
        | .ok (m, rest) =>
          if isTrailing m then
            .ok (Char.ofNat (0x10000 + (n - 0xd800) * 0x400 + (m - 0xdc00)), rest)
          else .error .loneSurrogate
      | _ => .error .endInHexEscape
    else .ok (Char.ofNat n, rest)

theorem length_of_readUnit {s rest : List Char} {n : Nat} (h : readUnit s = .ok (n, rest)) :
    rest.length < s.length := by
  unfold readUnit at h
  split at h
  · split at h
    · cases h
      simp only [List.length_cons]
      omega
    · cases h
  · split at h <;> cases h

theorem length_of_readCodePoint {s rest : List Char} {c : Char}
    (h : readCodePoint s = .ok (c, rest)) : rest.length < s.length := by
  unfold readCodePoint at h
  split at h
  · cases h
  · rename_i n tail hn
    have := length_of_readUnit hn
    split at h
    · cases h
    · split at h
      · split at h
        · cases h
        · cases h
        · split at h
          · cases h
          · rename_i hm
            have := length_of_readUnit hm
            split at h
            · injection h with h
              injection h with _ h
              subst h
              simp only [List.length_cons] at *
              omega
            · cases h
        · cases h
      · injection h with h
        injection h with _ h
        subst h
        assumption

/-- What a letter after a backslash stands for. -/
def escaped? (c : Char) : Option Char :=
  [('"', '"'), ('\\', '\\'), ('/', '/'), ('b', '\x08'), ('f', '\x0c'), ('n', '\n'), ('r', '\r'),
    ('t', '\t')].lookup c

/-- Reads a text after its opening quote. In a `paired` text surrogates come in pairs; in a text that
is only passed over they need not, and stand for nothing. -/
def readText (paired : Bool) : List Char → Except Fault (List Char × List Char)
  | [] => .error .endInString
  | '"' :: rest => .ok ([], rest)
  | ['\\'] => .error .endInString
  | '\\' :: 'u' :: rest =>
    if paired then
      match _h : readCodePoint rest with
      | .error e => .error e
      | .ok (c, tail) => do
        let (cs, tail) ← readText paired tail
        return (c :: cs, tail)
    else
      match _h : readUnit rest with
      | .error e => .error e
      | .ok (_, tail) => readText paired tail
  | '\\' :: c :: rest =>
    match escaped? c with
    | none => .error .invalidEscape
    | some c => do
      let (cs, rest) ← readText paired rest
      return (c :: cs, rest)
  | c :: rest =>
    if c.toNat < 0x20 then .error .controlCharacter
    else do
      let (cs, rest) ← readText paired rest
      return (c :: cs, rest)
termination_by s => s.length
decreasing_by
  all_goals simp only [List.length_cons]
  · have := length_of_readCodePoint (by assumption)
    omega
  · have := length_of_readUnit (by assumption)
    omega
  · omega
  · omega

end CommitReveal.Json
