import CommitReveal.Api.SeedLookup

/-! The HTTP surface: two paths that answer GET and HEAD. -/
namespace CommitReveal.Api

structure Request where
  method : String
  /-- The target of the request line. -/
  target : String
deriving DecidableEq, Repr

structure Response where
  status : Nat
  contentType : Option String
  /-- The methods that a path takes, when another one was used. -/
  allow : Option String
  body : String
deriving DecidableEq, Repr

/-- A target without scheme and host, as far as it has a path. -/
def dropHost (target : List Char) : List Char :=
  match target with
  | '/' :: _ => target
  | _ =>
    match target.dropWhile (· ≠ ':') with
    | ':' :: '/' :: '/' :: rest =>
      match rest.dropWhile fun c => c ≠ '/' && c ≠ '?' with
      | '?' :: query => '/' :: '?' :: query
      | path => path
    | _ => target

/-- The path and the query of a target; what follows a `#` is left out. -/
def splitTarget (target : String) : String × Bytes :=
  let target := (dropHost target.toList).takeWhile (· ≠ '#')
  let query := (target.dropWhile (· ≠ '?')).drop 1
  (String.ofList (target.takeWhile (· ≠ '?')), Bytes.ofText (String.ofList query))

inductive Route where
  | health
  | seed
deriving DecidableEq, Repr

def Route.ofPath? (path : String) : Option Route :=
  [("/health", Route.health), ("/robot/api/getseed", Route.seed)].lookup path

def plainText : String := "text/plain; charset=utf-8"

def Route.respond (query : Bytes) : Route → Program Repository.interface (Response × List Notice)
  | .health => pure (⟨200, some plainText, none, "ok"⟩, [])
  | .seed =>
    match hashText query with
    | .error e => pure (⟨400, some plainText, none, e.message⟩, [])
    | .ok text => do
      let (answer, notices) ← lookUp text
      return (⟨200, some "application/json", none, answer.body⟩, notices)

/-- Answers a request. HEAD is answered as GET, without the body. -/
def respond (r : Request) : Program Repository.interface (Response × List Notice) := do
  let (path, query) := splitTarget r.target
  match Route.ofPath? path with
  | none => return (⟨404, none, none, ""⟩, [])
  | some route =>
    if r.method = "GET" then
      route.respond query
    else if r.method = "HEAD" then
      let (response, notices) ← route.respond query
      return ({ response with body := "" }, notices)
    else
      return (⟨405, none, some "GET,HEAD", ""⟩, [])

end CommitReveal.Api
