import CommitReveal.Text.Shown

/-! Texts in quotes. A quote, a backslash, a line break, a tab and NUL are written with a backslash; any
other character that would not show is written as `\u` and its code in braces. -/
namespace CommitReveal.Text

def codeDigits (n : Nat) : List Char :=
  Nat.toDigits 16 n

def singleQuote : Char := Char.ofNat 0x27

/-- A character inside quotes; `marks` are the quotes that need a backslash there. -/
def quotedChar (marks : List Char) (c : Char) : List Char :=
  if c = '\x00' then ['\\', '0']
  else if c = '\t' then ['\\', 't']
  else if c = '\r' then ['\\', 'r']
  else if c = '\n' then ['\\', 'n']
  else if c = '\\' ∨ c ∈ marks then ['\\', c]
  else if isShown c then [c]
  else ['\\', 'u', '\x7b'] ++ codeDigits c.toNat ++ ['\x7d']

def quoteWith (marks : List Char) (s : String) : String :=
  String.ofList ('"' :: s.toList.flatMap (quotedChar marks) ++ ['"'])

def quote (s : String) : String :=
  quoteWith ['"'] s

/-- A file path in quotes: there the single quote is escaped too. -/
def quotePath (s : String) : String :=
  quoteWith ['"', singleQuote] s

/-- A single character, in single quotes. -/
def quoteChar (c : Char) : String :=
  String.ofList (singleQuote :: quotedChar [singleQuote] c ++ [singleQuote])

end CommitReveal.Text
