import CommitReveal.Net.SocketAddress
import CommitReveal.Text.Percent

/-! The addresses of nodes as URLs: a scheme, and for most schemes a host with an optional port, a path and
a query. Hosts of the usual network schemes are domain names, four octets in any of their spellings, or eight
groups in brackets; other schemes take almost any text. -/
namespace CommitReveal.Net

inductive UrlFault where
  | noScheme
  | emptyHost
  | domain
  | opaqueHost
  | octets
  | groups
  | port
deriving DecidableEq, Repr

def UrlFault.message : UrlFault → String
  | .noScheme => "relative URL without a base"
  | .emptyHost => "empty host"
  | .domain => "invalid international domain name"
  | .opaqueHost => "invalid domain character"
  | .octets => "invalid IPv4 address"
  | .groups => "invalid IPv6 address"
  | .port => "invalid port number"

structure Url where
  scheme : String
  /-- Empty for a URL that has none. -/
  host : String
  port : Option UInt16
  /-- What follows host and port. -/
  path : String
deriving DecidableEq, Repr

namespace Url

/-- Schemes whose URLs always have a host. -/
def networkSchemes : List String :=
  ["http", "https", "ws", "wss", "ftp"]

/-- Leaves out controls and spaces at both ends, and line breaks and tabs everywhere. -/
def clean (text : String) : List Char :=
  let isEdge (c : Char) : Bool := c.toNat ≤ 0x20
  let trimmed := ((text.toList.dropWhile isEdge).reverse.dropWhile isEdge).reverse
  trimmed.filter fun c => c ≠ '\t' && c ≠ '\n' && c ≠ '\r'

/-- A letter, then letters, digits, plus, minus and point, then a colon. -/
def splitScheme? (cs : List Char) : Option (String × List Char) :=
  let isPart (c : Char) : Bool := c.isAlphanum || c == '+' || c == '-' || c == '.'
  match cs.takeWhile isPart, cs.dropWhile isPart with
  | c :: name, ':' :: rest =>
    if c.isAlpha then some (String.ofList ((c :: name).map Char.toLower), rest) else none
  | _, _ => none

/-- A part of a host of octets: decimal, or octal after `0`, or hexadecimal after `0x`. -/
def octetPart? (cs : List Char) : Option Nat :=
  let number (base : Nat) (ds : List Char) : Option Nat :=
    if ds.all (isDigitOf base) then some (valueOf base ds) else none
  match cs with
  | [] => none
  | '0' :: 'x' :: ds | '0' :: 'X' :: ds => number 16 ds
  | '0' :: d :: ds => number 8 (d :: ds)
  | ds => number 10 ds

/-- The parts between points; a point at the end ends the last one. -/
def pointParts (host : List Char) : List (List Char) :=
  let parts := host.splitOn '.'
  if parts.length > 1 ∧ parts.getLast? = some [] then parts.dropLast else parts

/-- Whether a host must be one of octets: its last part is a number. -/
def endsInNumber (host : List Char) : Bool :=
  match (pointParts host).getLast? with
  | some part => (!part.isEmpty && part.all (isDigitOf 10)) || (octetPart? part).isSome
  | none => false

/-- Whether parts make a host of octets: the last one fills what the others leave of four bytes. -/
def isOctetHost (host : List Char) : Bool :=
  match (pointParts host).mapM octetPart? with
  | none | some [] => false
  | some (n :: ns) =>
    let numbers := n :: ns
    let last := numbers.getLastD 0
    numbers.length ≤ 4 && numbers.dropLast.all (· < 256) && last < Nat.pow 256 (5 - numbers.length)

/-- Characters that no domain name has. -/
def isForbiddenInDomain (c : Char) : Bool :=
  c.toNat ≤ 0x20 || c.toNat = 0x7f || "%#/:<>?@[\\]^|".toList.contains c

/-- Characters that no host of other schemes has. -/
def isForbiddenInOpaque (c : Char) : Bool :=
  c.toNat = 0 || " #/:<>?@[\\]^|".toList.contains c

/-- Eight groups between brackets. -/
def checkGroups (host : List Char) : Except UrlFault Unit :=
  match readHost6 (host.drop 1).dropLast with
  | some (_, []) => if host.getLast? = some ']' then .ok () else .error .groups
  | _ => .error .groups

/-- A host of one of the usual schemes. -/
def checkHost (host : List Char) : Except UrlFault String :=
  if host.head? = some '[' then do
    checkGroups host
    return String.ofList host
  else
    match (Text.Percent.decode (Bytes.ofText (String.ofList host))).toText? with
    | none => .error .domain
    | some domain =>
      if domain.toList.any isForbiddenInDomain then .error .domain
      else if endsInNumber domain.toList && !isOctetHost domain.toList then .error .octets
      else .ok domain

/-- A host of another scheme. -/
def checkOpaqueHost (host : List Char) : Except UrlFault String :=
  if host.head? = some '[' then do
    checkGroups host
    return String.ofList host
  else if host.any isForbiddenInOpaque then .error .opaqueHost
  else .ok (String.ofList host)

/-- The host in front of a port, and what follows it; a colon in brackets belongs to the host. -/
def splitHost : (inside : Bool) → List Char → List Char × List Char
  | _, [] => ([], [])
  | inside, c :: rest =>
    if c = ':' ∧ ¬inside then ([], c :: rest)
    else
      let (host, rest) := splitHost (if c = '[' then true else if c = ']' then false else inside) rest
      (c :: host, rest)

/-- The digits after a colon, if there are any. -/
def checkPort : List Char → Except UrlFault (Option UInt16)
  | ':' :: cs =>
    let ds := cs.takeWhile (isDigitOf 10)
    let rest := cs.dropWhile (isDigitOf 10)
    let n := valueOf 10 ds
    if 0xffff < n ∨ ¬(rest.isEmpty ∨ rest.head? = some '\\') then .error .port
    else .ok (if ds.isEmpty then none else some (UInt16.ofNat n))
  | _ => .ok none

/-- What stands before the last at sign, if there is one, and what stands behind it. -/
def splitUser (authority : List Char) : Option (List Char) × List Char :=
  let behind := (authority.reverse.takeWhile (· ≠ '@')).reverse
  if behind.length = authority.length then (none, authority)
  else (some (authority.take (authority.length - behind.length - 1)), behind)

/-- Whether a user's part has a name or a password. -/
def hasUser (user : Option (List Char)) : Bool :=
  user.any fun cs => !cs.isEmpty && cs ≠ [':']

/-- Reads host, port and path; `network` tells the usual schemes from the others. -/
def readAuthority (scheme : String) (network : Bool) (cs : List Char) : Except UrlFault Url := do
  let inAuthority (c : Char) : Bool := c ≠ '/' && c ≠ '?' && c ≠ '#' && !(network && c = '\\')
  let path := cs.dropWhile inAuthority
  let (user, address) := splitUser (cs.takeWhile inAuthority)
  if user = some [] ∧ address.isEmpty ∧ ¬path.isEmpty then throw .emptyHost
  let (hostText, behind) := splitHost false address
  if hostText.isEmpty ∧ (network ∨ behind.head? = some ':') then throw .emptyHost
  let host ← if network then checkHost hostText else checkOpaqueHost hostText
  let port ← checkPort behind
  if hostText.isEmpty ∧ hasUser user then throw .emptyHost
  return ⟨scheme, host, port, String.ofList path⟩

/-- Reads a URL of files, whose host may be missing. -/
def readFile (scheme : String) (cs : List Char) : Except UrlFault Url := do
  let isSlash (c : Char) : Bool := c = '/' || c = '\\'
  match cs with
  | a :: b :: rest =>
    let inHost (c : Char) : Bool := !isSlash c && c ≠ '?' && c ≠ '#'
    let host := rest.takeWhile inHost
    let isDrive : Bool := match host with
      | [letter, colon] => letter.isAlpha && (colon = ':' || colon = '|')
      | _ => false
    if isSlash a && isSlash b && !host.isEmpty && !isDrive then
      return ⟨scheme, ← checkHost host, none, String.ofList (rest.dropWhile inHost)⟩
    else
      return ⟨scheme, "", none, String.ofList cs⟩
  | _ => return ⟨scheme, "", none, String.ofList cs⟩

/-- Reads a URL that stands on its own. -/
def read (text : String) : Except UrlFault Url := do
  match splitScheme? (clean text) with
  | none => throw .noScheme
  | some (scheme, rest) =>
    if networkSchemes.contains scheme then
      readAuthority scheme true (rest.dropWhile fun c => c = '/' || c = '\\')
    else if scheme = "file" then
      readFile scheme rest
    else
      match rest with
      | '/' :: '/' :: rest => readAuthority scheme false rest
      | path => return ⟨scheme, "", none, String.ofList path⟩

end Url

end CommitReveal.Net
