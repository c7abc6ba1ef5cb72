import CommitReveal.Api.Router
import CommitReveal.Net.Url

/-! The texts that HTTP exchanges: a question to a node and the body of its answer, and the requests and answers
of the seed look-up. Every connection carries one exchange. -/
namespace CommitReveal.Net.Http

def lineEnd : String := "\r\n"

/-- The lines of a head, and the empty line behind it. -/
def head (lines : List String) : String :=
  String.join (lines.map (· ++ lineEnd)) ++ lineEnd

/-- The port that a scheme has if none is named. -/
def defaultPort (scheme : String) : UInt16 :=
  if scheme = "https" then 443 else 80

def port (url : Url) : UInt16 :=
  url.port.getD (defaultPort url.scheme)

/-- The path and the query of a URL, with a slash in front. -/
def target (url : Url) : String :=
  match url.path.toList.takeWhile (· ≠ '#') with
  | '/' :: rest => String.ofList ('/' :: rest)
  | rest => String.ofList ('/' :: rest)

/-- Sends a JSON text to a node. -/
def post (url : Url) (body : String) : String :=
  head ["POST " ++ target url ++ " HTTP/1.1", "Host: " ++ url.host ++ s!":{(port url).toNat}",
    "Content-Type: application/json", s!"Content-Length: {body.utf8ByteSize}", "Connection: close"] ++ body

/-- Splits at the empty line behind a head. -/
def splitHead : Bytes → Option (Bytes × Bytes)
  | 13 :: 10 :: 13 :: 10 :: rest => some ([], rest)
  | [] => none
  | b :: rest => (splitHead rest).map fun (head, body) => (b :: head, body)

/-- The fields of a head, with their names in small letters. -/
def fields (head : Bytes) : List (String × String) :=
  ((Text.decodeUtf8 head).splitOn lineEnd).drop 1 |>.map fun line =>
    let name := String.ofList (line.toList.takeWhile (· ≠ ':'))
    let value := (line.toList.dropWhile (· ≠ ':')).drop 1
    (name.toLower, String.ofList (Text.trim value))

/-- Joins the chunks of a body, each behind a line with its length; at most `fuel` of them. -/
def joinChunks : (fuel : Nat) → Bytes → Bytes
  | 0, _ => []
  | fuel + 1, bytes =>
    let digits := (bytes.takeWhile (· ≠ 13)).map fun b => Char.ofNat b.toNat
    let length := valueOf 16 (digits.takeWhile (isDigitOf 16))
    let rest := bytes.drop (digits.length + 2)
    if length = 0 then [] else rest.take length ++ joinChunks fuel (rest.drop (length + 2))

/-- The body of an answer. -/
def answerBody? (answer : Bytes) : Option String := do
  let (head, body) ← splitHead answer
  let chunked := (fields head).any fun f => f.1 = "transfer-encoding" && f.2.toLower = "chunked"
  return Text.decodeUtf8 (if chunked then joinChunks body.length body else body)

/-- The request that a head makes. -/
def request? (head : Bytes) : Option Api.Request :=
  match ((Text.decodeUtf8 head).splitOn lineEnd).head?.map (·.splitOn " ") with
  | some [method, target, _] => some ⟨method, target⟩
  | _ => none

/-- The words for a status. -/
def reason : (status : Nat) → String
  | 200 => "OK"
  | 400 => "Bad Request"
  | 404 => "Not Found"
  | 405 => "Method Not Allowed"
  | _ => ""

/-- An answer as it is sent. -/
def answer (r : Api.Response) : String :=
  head ((s!"HTTP/1.1 {r.status} " ++ reason r.status) ::
    (r.contentType.map ("Content-Type: " ++ ·)).toList ++ (r.allow.map ("Allow: " ++ ·)).toList ++
    [s!"Content-Length: {r.body.utf8ByteSize}", "Connection: close"]) ++ r.body

end CommitReveal.Net.Http
