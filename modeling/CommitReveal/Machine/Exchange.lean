import CommitReveal.Net.Http
import CommitReveal.Node.Request
import Std.Async.DNS
import Std.Async.TCP

/-! HTTP over sockets: one exchange with a node, and serving at an address. -/
namespace CommitReveal.Machine

open Std.Async

/-- The system's words for the commonest failures, by their number. -/
def failureText : List (Nat × String) :=
  [(2, "No such file or directory"), (13, "Permission denied"), (17, "File exists"),
    (20, "Not a directory"), (21, "Is a directory"), (28, "No space left on device"),
    (30, "Read-only file system"), (36, "File name too long"), (98, "Address already in use"),
    (99, "Cannot assign requested address"), (110, "Connection timed out"), (111, "Connection refused")]

/-- A failure's words and its number, which may have come with its sign turned. -/
def numbered (code : UInt32) (text : String) : String :=
  let number := min code.toNat (UInt32.size - code.toNat)
  (failureText.lookup number).getD text ++ s!" (os error {number})"

/-- What the system says of a failure. -/
def reason : IO.Error → String
  | .alreadyExists _ code text | .permissionDenied _ code text | .invalidArgument _ code text
  | .resourceExhausted _ code text | .inappropriateType _ code text | .noSuchThing _ code text
  | .noFileOrDirectory _ code text | .interrupted _ code text | .otherError code text
  | .resourceBusy code text | .resourceVanished code text | .unsupportedOperation code text
  | .hardwareFault code text | .unsatisfiedConstraints code text | .illegalOperation code text
  | .protocolError code text | .timeExpired code text => numbered code text
  | .unexpectedEof => "unexpected end of file"
  | .userError text => text

/-- How often a wait looks again, in milliseconds. -/
def glance : UInt32 := 10

/-- Does something that must be done within a time. -/
def within (ms : Nat) (action : IO α) : IO α := do
  let task ← IO.asTask action .dedicated
  let deadline := (← IO.monoMsNow) + ms
  while !(← IO.hasFinished task) do
    if deadline ≤ (← IO.monoMsNow) then
      throw (.userError "operation timed out")
    IO.sleep glance
  IO.ofExcept task.get

def socketAddress (port : UInt16) : Std.Net.IPAddr → Std.Net.SocketAddress
  | .v4 address => .v4 ⟨address, port⟩
  | .v6 address => .v6 ⟨address, port⟩

/-- The addresses of a host. -/
def resolve (url : Net.Url) : IO (List Std.Net.SocketAddress) := do
  let isBracket (c : Char) : Bool := c = '[' || c = ']'
  let name := String.ofList (url.host.toList.filter fun c => !isBracket c)
  let port := Net.Http.port url
  let found ← (DNS.getAddrInfo name (toString port.toNat)).block
  return found.toList.map (socketAddress port)

/-- Connects to the first address that takes the connection. -/
def connect : List Std.Net.SocketAddress → IO TCP.Socket.Client
  | [] => throw (.userError "no address takes a connection")
  | address :: rest => do
    let socket ← TCP.Socket.Client.mk
    try
      (socket.connect address).block
      return socket
    catch e => if rest.isEmpty then throw e else connect rest

def receive (socket : TCP.Socket.Client) : IO (Option Bytes) := do
  let chunk ← (socket.recv? 65536).block
  return chunk.map (·.toList)

def send (socket : TCP.Socket.Client) (text : String) : IO Unit :=
  (socket.send text.toUTF8).block

/-- Asks a node and waits for its whole answer. -/
def exchange (url : Net.Url) (body : String) : IO String := do
  if url.scheme ≠ "http" then
    throw (.userError s!"unsupported scheme {url.scheme}")
  let socket ← connect (← resolve url)
  send socket (Net.Http.post url body)
  let mut chunks := []
  while true do
    match ← receive socket with
    | some bytes => chunks := bytes :: chunks
    | none => break
  match Net.Http.answerBody? chunks.reverse.flatten with
  | some text => return text
  | none => throw (.userError "connection closed before message completed")

/-- The reply of a node to a request, or the reason for none. -/
def carry (url : Net.Url) (seconds number : Nat) (r : Node.Request) : IO (Except String String) := do
  try
    let text ← within (1000 * seconds) (exchange url (r.body number))
    return .ok text
  catch e => return .error ("error sending request: " ++ reason e)

/-- An address as sockets take it. -/
def native (address : Net.SocketAddress) : Std.Net.SocketAddress :=
  let byte (bytes : Bytes) (i : Nat) : UInt8 := bytes[i]?.getD 0
  match address.host with
  | .v4 host => .v4 ⟨⟨Vector.ofFn fun i : Fin 4 => byte host.bytes i⟩, address.port⟩
  | .v6 host _ =>
    let segment (i : Nat) : UInt16 :=
      (byte host.bytes (2 * i)).toUInt16 * 256 + (byte host.bytes (2 * i + 1)).toUInt16
    .v6 ⟨⟨Vector.ofFn fun i : Fin 8 => segment i⟩, address.port⟩

def portOf : Std.Net.SocketAddress → UInt16
  | .v4 address => address.port
  | .v6 address => address.port

/-- A server at an address, and the address with the port that it has got. -/
def listen (address : Net.SocketAddress) : IO (TCP.Socket.Server × Net.SocketAddress) := do
  let server ← TCP.Socket.Server.mk
  server.bind (native address)
  server.listen 1024
  return (server, { address with port := portOf (← server.getSockName) })

/-- The longest head of a request that is read, in bytes. -/
def headLimit : Nat := 65536

/-- Reads the head of a request, up to the empty line behind it. -/
def receiveHead (socket : TCP.Socket.Client) : IO (Option Bytes) := do
  let mut received : Bytes := []
  while received.length ≤ headLimit do
    match ← receive socket with
    | none => break
    | some bytes =>
      received := received ++ bytes
      if let some (head, _) := Net.Http.splitHead received then
        return some head
  return none

/-- Answers the one request of a connection. -/
def converse (respond : Api.Request → IO Api.Response) (socket : TCP.Socket.Client) : IO Unit := do
  match ← receiveHead socket with
  | none => pure ()
  | some head =>
    let response ← match Net.Http.request? head with
      | some request => respond request
      | none => pure ⟨400, none, none, ""⟩
    send socket (Net.Http.answer response)
  (socket.shutdown).block

/-- Takes connections until told to stop, and then waits for the answers under way. -/
def serve (stopped : IO Bool) (respond : Api.Request → IO Api.Response) (server : TCP.Socket.Server) :
    IO Unit := do
  let mut talks := []
  while !(← stopped) do
    match ← server.tryAccept with
    | some socket =>
      talks := (← IO.asTask (converse respond socket) .dedicated) :: talks
    | none =>
      talks ← talks.filterM fun task => return !(← IO.hasFinished task)
      IO.sleep glance
  for task in talks do
    discard (IO.wait task)

end CommitReveal.Machine
