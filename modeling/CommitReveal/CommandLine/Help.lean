import CommitReveal.CommandLine.Arguments

/-! The text that answers a request for help: one entry for each option, in two columns. -/
namespace CommitReveal.CommandLine

/-- What stands for an option's value. -/
def Flag.placeholder : Flag → String
  | .config => "CONFIG"
  | .rpcUrl => "RPC_URL"
  | .privateKey => "PRIVATE_KEY"
  | .dbPath => "DB_PATH"

def Flag.description : Flag → String
  | .config => "Path to the JSON configuration file"
  | .rpcUrl => "Node JSON-RPC endpoint"
  | .privateKey => "Hex encoded signing key"
  | .dbPath => "SQLite database file"

/-- Whether the value in the environment may be shown. -/
def Flag.isSecret : Flag → Bool
  | .privateKey => true
  | _ => false

/-- Where a value comes from that is not given. -/
def Flag.note (environment : String → Option String) (f : Flag) : String :=
  match f.environmentName? with
  | none => s!"[default: {defaultConfig}]"
  | some name =>
    if f.isSecret then s!"[env: {name}]"
    else s!"[env: {name}=" ++ (environment name).getD "" ++ "]"

/-- The letter, if there is one, and the long name with its value. -/
def Flag.spelling (f : Flag) : String :=
  let letter := match f.letter? with
    | some c => "-" ++ String.singleton c ++ ", "
    | none => "    "
  letter ++ "--" ++ f.name ++ " <" ++ f.placeholder ++ ">"

namespace Help

def helpSpelling : String := "-h, --help"

def margin : String := "  "

/-- The column of the descriptions: two blanks behind the longest option. -/
def column : Nat :=
  margin.length + (Flag.all.map fun f => f.spelling.length).foldl max helpSpelling.length + 2

/-- The length of a line. -/
def lineLimit : Nat := 100

/-- Puts words on lines of at most `limit` characters; a longer word has a line of its own. -/
def wrap (limit : Nat) : (line : String) → (words : List String) → List String
  | line, [] => [line]
  | line, word :: rest =>
    if limit < line.length + 1 + word.length then line :: wrap limit word rest
    else wrap limit (line ++ " " ++ word) rest

def blanks (n : Nat) : String :=
  String.ofList (List.replicate n ' ')

/-- An option and its description, as many lines as that takes. -/
def entry (spelling description : String) : List String :=
  let start := margin ++ spelling
  let lines := match description.splitOn " " with
    | [] => []
    | word :: rest => wrap (lineLimit - column) word rest
  match lines with
  | [] => [start]
  | first :: rest =>
    (start ++ blanks (column - start.length) ++ first) :: rest.map (blanks column ++ ·)

def lines (environment : String → Option String) : List String :=
  ["Commit-reveal randomness agent for the SRNG oracle", "", "Usage: srng-agent [OPTIONS]", "", "Options:"]
    ++ Flag.all.flatMap (fun f => entry f.spelling (f.description ++ " " ++ f.note environment))
    ++ entry helpSpelling "Print help"

end Help

end CommitReveal.CommandLine
