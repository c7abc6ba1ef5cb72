/-! The command line: four options that take a value each, and a request for help. A value may stand in an
argument of its own or be attached to its option; what is not given may come from the environment. -/
namespace CommitReveal.CommandLine

inductive Flag where
  | config
  | rpcUrl
  | privateKey
  | dbPath
deriving DecidableEq, Repr

def Flag.all : List Flag :=
  [.config, .rpcUrl, .privateKey, .dbPath]

/-- The long name, after two dashes. -/
def Flag.name : Flag → String
  | .config => "config"
  | .rpcUrl => "rpc-url"
  | .privateKey => "private-key"
  | .dbPath => "db-path"

/-- The letter after one dash. -/
def Flag.letter? : Flag → Option Char
  | .config => some 'c'
  | _ => none

/-- The environment variable that stands in for an option. -/
def Flag.environmentName? : Flag → Option String
  | .config => none
  | .rpcUrl => some "SRNG_RPC_URL"
  | .privateKey => some "SRNG_PRIVATE_KEY"
  | .dbPath => some "SRNG_DB_PATH"

/-- Whether the value names a file; such a value is never empty. -/
def Flag.isPath : Flag → Bool
  | .config | .dbPath => true
  | _ => false

inductive Fault where
  | helpAsked (long : Bool)
  | unknownArgument
  /-- A value is missing, or is none that the option can have. -/
  | invalidValue
  | argumentConflict
  | tooManyValues
deriving DecidableEq, Repr

def Fault.message : Fault → String
  | .helpAsked _ => "help was asked for"
  | .unknownArgument => "unexpected argument found"
  | .invalidValue => "one of the values isn't valid for an argument"
  | .argumentConflict =>
    "an argument cannot be used with one or more of the other specified arguments"
  | .tooManyValues => "unexpected value for an argument found"

structure Arguments where
  config : String
  rpcUrl : Option String
  privateKey : Option String
  dbPath : Option String
deriving DecidableEq, Repr

/-- The values taken so far, and the option that is still to be completed. -/
structure Progress where
  given : List (Flag × String)
  /-- An option whose value, if it has one yet, stood in an argument of its own. -/
  pending : Option (Flag × Option String)
deriving DecidableEq, Repr

namespace Progress

def start : Progress := ⟨[], none⟩

/-- Takes a value; an option is given once, and a path is not empty. -/
def give (p : Progress) (f : Flag) (value : String) : Except Fault Progress :=
  if p.given.any (·.1 = f) then .error .argumentConflict
  else if f.isPath ∧ value.isEmpty then .error .invalidValue
  else .ok { p with given := p.given ++ [(f, value)] }

/-- Completes the pending option, which must have got a value. -/
def settle (p : Progress) : Except Fault Progress :=
  match p.pending with
  | none => .ok p
  | some (_, none) => .error .invalidValue
  | some (f, some value) => { p with pending := none }.give f value

/-- Takes an option, with the value attached to it if there is one. -/
def option (p : Progress) (f : Flag) (attached : Option String) : Except Fault Progress := do
  let p ← p.settle
  match attached with
  | some value => p.give f value
  | none => return { p with pending := some (f, none) }

def help (p : Progress) (long : Bool) : Except Fault Progress := do
  let _ ← p.settle
  throw (.helpAsked long)

/-- An argument that begins with two dashes: a name, and a value after an equals sign. -/
def long (p : Progress) (body : List Char) : Except Fault Progress :=
  let name := String.ofList (body.takeWhile (· ≠ '='))
  let attached := match body.dropWhile (· ≠ '=') with
    | [] => none
    | _ :: value => some (String.ofList value)
  match Flag.all.find? fun f => f.name == name with
  | some f => p.option f attached
  | none =>
    if name = "help" then
      if attached.isSome then .error .tooManyValues else p.help true
    else .error .unknownArgument

/-- An argument that begins with one dash: a letter, and a value right after it. -/
def short (p : Progress) (letter : Char) (body : List Char) : Except Fault Progress :=
  match Flag.all.find? fun f => f.letter? == some letter with
  | some f =>
    p.option f (match body with
      | [] => none
      | '=' :: value => some (String.ofList value)
      | value => some (String.ofList value))
  | none => if letter = 'h' then p.help false else .error .unknownArgument

/-- An argument that is no option: the value of the pending one, or nothing that is known. -/
def plain (p : Progress) (value : String) : Except Fault Progress :=
  match p.pending with
  | some (f, none) => .ok { p with pending := some (f, some value) }
  | _ => .error .unknownArgument

/-- Takes the arguments in turn. After two lone dashes every further one is unknown. -/
def takeAll (p : Progress) : List String → Except Fault Progress
  | [] => p.settle
  | a :: rest => do
    match a.toList with
    | ['-', '-'] => if rest.isEmpty then p.settle else throw .unknownArgument
    | '-' :: '-' :: body => takeAll (← p.long body) rest
    | '-' :: letter :: body => takeAll (← p.short letter body) rest
    | _ => takeAll (← p.plain a) rest

end Progress

/-- Adds the value of an option's environment variable unless the option is given. -/
def addVariable (environment : String → Option String) (p : Progress) (f : Flag) :
    Except Fault Progress :=
  if p.given.any (·.1 = f) then .ok p
  else
    match f.environmentName?.bind environment with
    | some value => p.give f value
    | none => .ok p

/-- The configuration file that is read if none is named. -/
def defaultConfig : String := "config.json"

/-- Reads the arguments, the program's own name left out. -/
def Arguments.read (arguments : List String) (environment : String → Option String) :
    Except Fault Arguments := do
  let p ← Progress.start.takeAll arguments
  let p ← Flag.all.foldlM (addVariable environment) p
  return {
    config := (p.given.lookup .config).getD defaultConfig
    rpcUrl := p.given.lookup .rpcUrl
    privateKey := p.given.lookup .privateKey
    dbPath := p.given.lookup .dbPath }

end CommitReveal.CommandLine
