import RillServer.Netpack.Requests
import Mathlib.Logic.Relation

/-!
# The gate server

`lualib/faci/gateserver_ws.lua`, with `mod/gateway/gate.lua` as its handler. A connection begins
with an HTTP request. `unpack` passes the connection's flag to the packet filter, once for a chunk, and
`dispatch_msg` looks at the flag again for every packet: a packet of a connection in the handshake
is a request, which ends the handshake or the connection, and any other goes to `handler.message`.

`handler.message` does not suspend, so the packets of a chunk are dispatched one after the other
before the next chunk is filtered. `handler.disconnect` and `kick` may suspend before they call
`closeclient`, and `close_fd` comes after them; both are events of their own here. A fault of the
filter ends the run.
-/

namespace RillServer.GateServer

open Netpack

/-! ## The request -/

/-- The bytes of a string. -/
def ascii (s : String) : Bytes := s.toList.map fun c => UInt8.ofNat c.toNat

/-- The parts of a string that end at `"\r\n"`. -/
def splitLines : Bytes → Bytes → List Bytes
  | line, 13 :: 10 :: rest => line :: splitLines [] rest
  | line, b :: rest => splitLines (line ++ [b]) rest
  | _, [] => []

/-- The set `[%a-]`. -/
def isKey (b : UInt8) : Bool := (65 ≤ b && b ≤ 90) || (97 ≤ b && b ≤ 122) || b == 45

/-- The class `%s`. -/
def isSpace (b : UInt8) : Bool := b == 32 || (9 ≤ b && b ≤ 13)

/-- `string.lower`. -/
def lower (bytes : Bytes) : Bytes := bytes.map fun b => if 65 ≤ b && b ≤ 90 then b + 32 else b

/-- `string.match(str, "([%a-]+)%s*: (.*)")`. Neither repetition can end earlier than it has to:
what follows begins with a byte that it does not take. -/
def matchField : Bytes → Option (Bytes × Bytes)
  | [] => none
  | b :: rest =>
      if isKey b then
        match ((b :: rest).dropWhile isKey).dropWhile isSpace with
        | 58 :: 32 :: value => some ((b :: rest).takeWhile isKey, value)
        | _ => matchField rest
      else matchField rest

/-- A header, by field. -/
abbrev Header := Bytes → Option Bytes

def setField (header : Header) (line : Bytes) : Header :=
  match matchField line with
  | none => header
  | some (key, value) => Function.update header (lower key) (some value)

/-- `parse_httpheader`. The first line is no field. -/
def parseHttpheader (httpStr : Bytes) : Header :=
  (splitLines [] httpStr).tail.foldl setField fun _ => none

/-- `find(needle, 1, true)`. -/
def finds (bytes needle : Bytes) : Bool := bytes.tails.any needle.isPrefixOf

/-- `checkwebsocket_valid` without an origin check, as `checkwebsocket` calls it: the response to
send and its code, or the key and the protocol of the response that accepts. -/
def checkwebsocketValid (header : Header) : Except (Nat × String) (Bytes × Option Bytes) :=
  if (header (ascii "upgrade")).map lower ≠ some (ascii "websocket") then
    .error (400, "Can \"Upgrade\" only to \"WebSocket\".")
  else if (header (ascii "connection")).any (fun s => finds (lower s) (ascii "upgrade")) = false then
    .error (400, "\"Connection\" must be \"Upgrade\".")
  else if header (ascii "sec-websocket-version") ≠ some (ascii "13") then
    .error (400, "HTTP/1.1 Upgrade Required\r\nSec-WebSocket-Version: 13\r\n\r\n")
  else
    match header (ascii "sec-websocket-key") with
    | none => .error (400, "\"Sec-WebSocket-Key\" must not be  nil.")
    | some key => .ok (key, header (ascii "sec-websocket-protocol"))

/-- What `checkwebsocket` returns. A rejected request is answered, and its connection closed. -/
def accepts (msg : Bytes) : Bool := (checkwebsocketValid (parseHttpheader msg)).isOk

/-! ## Connections -/

/-- `max_packsize`. -/
def maxPacksize : Nat := 10 * 1024

/-- `max_headersize`. -/
def maxHeadersize : Nat := 1024

/-- An entry of `connection`: `handshake` says that `iswebsocket_handeshake` is 1. -/
structure Connection where
  isconnect : Bool
  handshake : Bool
  deriving DecidableEq

/-- A call of `handler.message`, with the flag under which the packet was extracted, the bytes that
the socket had sent and the request that was accepted. -/
structure Message where
  fd : Fd
  msg : Bytes
  handshake : Bool
  received : Bytes
  request : Bytes
  deriving DecidableEq

/-- The state of the service. The last three fields are not in the source: what the sockets have
sent since they were opened, the requests that were accepted, and the calls of `handler.message`. -/
structure Server where
  queue : Queue
  connection : Fd → Option Connection
  clientNumber : Int
  maxclient : Int
  stream : Fd → Option Bytes
  request : Fd → Bytes
  messages : List Message

def init (maxclient : Int) : Server where
  queue := .empty
  connection := fun _ => none
  clientNumber := 0
  maxclient := maxclient
  stream := fun _ => none
  request := fun _ => []
  messages := []

/-- An entry is removed, if there is one. -/
def Server.remove (s : Server) (fd : Fd) : Server :=
  match s.connection fd with
  | none => s
  | some _ =>
      { s with
        connection := Function.update s.connection fd none
        clientNumber := s.clientNumber - 1 }

/-- `gateserver.closeclient`. -/
def Server.closeclient (s : Server) (fd : Fd) : Server := s.remove fd

/-- `close_fd`. -/
def Server.closeFd (s : Server) (fd : Fd) : Server := s.remove fd

/-- `dispatch_msg`. -/
def Server.dispatchMsg (s : Server) (flag : Bool) (fd : Fd) (msg : Bytes) : Server :=
  match s.connection fd with
  | none => s
  | some c =>
      if c.isconnect then
        if c.handshake then
          if msg.length ≥ maxHeadersize then s.closeclient fd
          else if accepts msg then
            { s with
              connection := Function.update s.connection fd (some { c with handshake := false })
              request := Function.update s.request fd msg }
          else s.closeclient fd
        else if msg.length ≥ maxPacksize then s.closeclient fd
        else
          { s with messages := s.messages ++
              [⟨fd, msg, flag, (s.stream fd).getD [], s.request fd⟩] }
      else s

/-- `MSG.data`, and `MSG.more` for one packet. `MSG.close` begins with `handler.disconnect`. -/
def Server.dispatch (flag : Bool) (s : Server) : Netpack.Event → Server
  | .message fd msg => s.dispatchMsg flag fd msg
  | .closed _ => s

/-- The flag that `unpack` passes to the filter. -/
def Server.flag (s : Server) (fd : Fd) : Bool :=
  match s.connection fd with
  | none => true
  | some c => if c.isconnect then c.handshake else true

/-- `MSG.open`. A socket that is refused is not started. -/
def Server.opened (s : Server) (fd : Fd) : Server :=
  if s.clientNumber ≥ s.maxclient then s
  else
    { s with
      connection := Function.update s.connection fd (some ⟨true, true⟩)
      clientNumber := s.clientNumber + 1
      stream := Function.update s.stream fd (some [])
      request := Function.update s.request fd [] }

/-- A chunk is filtered and its packets are dispatched. -/
def Server.data (s : Server) (fd : Fd) (chunk : Bytes) : Option Server :=
  match filter (s.flag fd) fd s.queue chunk with
  | .error _ => none
  | .ok (queue, events) =>
      some (events.foldl (Server.dispatch (s.flag fd))
        { s with queue, stream := Function.update s.stream fd ((s.stream fd).map (· ++ chunk)) })

inductive Event where
  | opened (fd : Fd)
  | data (fd : Fd) (chunk : Bytes)
  /-- the socket was closed, or failed -/
  | closed (fd : Fd)
  | closeclient (fd : Fd)
  | closeFd (fd : Fd)
  deriving DecidableEq

def step (s : Server) : Event → Option Server
  | .opened fd => some (s.opened fd)
  | .data fd chunk => s.data fd chunk
  | .closed fd =>
      some { s with
        queue := s.queue.closeUncomplete fd
        stream := Function.update s.stream fd none }
  | .closeclient fd => some (s.closeclient fd)
  | .closeFd fd => some (s.closeFd fd)

/-- The states that are reached by steps that all satisfy a guard. -/
abbrev Reach (guard : Server → Event → Prop) (maxclient : Int) : Server → Prop :=
  Relation.ReflTransGen (fun s s' => ∃ e, guard s e ∧ step s e = some s') (init maxclient)

end RillServer.GateServer
