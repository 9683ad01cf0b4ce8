import VynxHttp.HttpParser
import VynxHttp.HttpRequest
import VynxHttp.TcpSocket

/-!
# Pool entries and the exchange on one of them

The loops of `send_request` and `receive_response` are structural in the
answers which the environment still has to give; when there are none left, the
call blocks.
-/

namespace VynxHttp

theorem noSession :
    false = true → (none : Option TlsContext).isSome = true := nofun

/-- The session of an entry whose handshake is done is there to be used. -/
structure PoolEntry where
  socket : TcpSocket
  tls : Option TlsContext := none
  isTls : Bool := false
  tlsHandshakeDone : Bool := false
  lastActive : ℤ := 0
  tls_isSome : tlsHandshakeDone = true → tls.isSome = true := by
    first | exact noSession | simp

namespace PoolEntry

/-- `entry.is_tls && entry.tls_handshake_done`. -/
def viaTls (entry : PoolEntry) : Bool :=
  entry.isTls && entry.tlsHandshakeDone

theorem tls_isSome_of_viaTls {entry : PoolEntry}
    (hvia : entry.viaTls = true) : entry.tls.isSome = true :=
  entry.tls_isSome (by simp_all [viaTls])

def conn (entry : PoolEntry) : ℕ :=
  if hvia : entry.viaTls then
    (entry.tls.get (tls_isSome_of_viaTls hvia)).conn
  else entry.socket.conn

def withSocket (entry : PoolEntry) (socket : TcpSocket) : PoolEntry :=
  { entry with socket }

def withLastActive (entry : PoolEntry) (time : ℤ) : PoolEntry :=
  { entry with lastActive := time }

def write (entry : PoolEntry) (data : Bytes) (outcome : SendOutcome) :
    Result ℕ :=
  if entry.viaTls then TlsContext.write data outcome
  else entry.socket.send data outcome

def read (entry : PoolEntry) (outcome : RecvOutcome) :
    PoolEntry × Result Bytes :=
  if entry.viaTls then (entry, TlsContext.read outcome)
  else
    let (socket, status) := entry.socket.receive outcome
    (entry.withSocket socket, status)

/-! ## Sending -/

/-- The loop of `send_request`: the bytes which have been accepted, and the
result unless the call blocks. -/
def sendRemaining (entry : PoolEntry) (remaining : Bytes) :
    List SendOutcome → Bytes × Option (Result Unit)
  | [] => ([], if remaining = [] then some success else none)
  | outcome :: outcomes =>
      if remaining = [] then ([], some success)
      else
        match entry.write remaining outcome with
        | .error code => ([], some (.error code))
        | .ok 0 => ([], some (.error .operationTimeout))
        | .ok (count + 1) =>
            let (sent, status) :=
              sendRemaining entry (remaining.drop (count + 1)) outcomes
            (remaining.take (count + 1) ++ sent, status)

def sendRequest (entry : PoolEntry) (request : HttpRequest)
    (outcomes : List SendOutcome) : Bytes × Option (Result Unit) :=
  match request.serialize with
  | none => ([], none)
  | some serialized => entry.sendRemaining serialized.unread outcomes

/-! ## Receiving -/

/-- The result of `receive_response`, with the entry it leaves and the answers
it has not asked for. -/
structure Received where
  entry : PoolEntry
  result : Result HttpResponse
  unread : List RecvOutcome

/-- Whether the loop of `receive_response` is left before the next read, and
with what. -/
def exitWith (parser : HttpParser) : Option (Result HttpResponse) :=
  if parser.state = .complete then some (.ok parser.response)
  else if parser.state = .error then some (.error .httpParseError)
  else none

/-- The loop of `receive_response`.  Its tests for `complete` after a failed
read are left out: the loop has been left before the read in that state. -/
def receiveLoop (entry : PoolEntry) (parser : HttpParser) :
    List RecvOutcome → Option Received
  | [] => (exitWith parser).map fun result => ⟨entry, result, []⟩
  | outcome :: outcomes =>
      match exitWith parser with
      | some result => some ⟨entry, result, outcome :: outcomes⟩
      | none =>
          match entry.read outcome with
          | (entry, .error code) => some ⟨entry, .error code, outcomes⟩
          | (entry, .ok bytes) =>
              if bytes = [] then
                some ⟨entry, .error .httpParseError, outcomes⟩
              else
                match parser.feed bytes with
                | none => none
                | some (_, .error code) =>
                    some ⟨entry, .error code, outcomes⟩
                | some (parser, .ok ()) =>
                    receiveLoop entry parser outcomes

/-- `none` when the call does not return. -/
def receiveResponse (entry : PoolEntry) (outcomes : List RecvOutcome) :
    Option Received :=
  entry.receiveLoop .new outcomes

/-- `send_and_receive`; `none` when it does not return. -/
def sendAndReceive (entry : PoolEntry) (request : HttpRequest)
    (sends : List SendOutcome) (recvs : List RecvOutcome) :
    Option Received :=
  match (entry.sendRequest request sends).2 with
  | none => none
  | some (.error code) => some ⟨entry, .error code, recvs⟩
  | some (.ok ()) => entry.receiveResponse recvs

end PoolEntry

end VynxHttp
