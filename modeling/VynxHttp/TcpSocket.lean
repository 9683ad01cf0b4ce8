import VynxHttp.ByteString
import VynxHttp.Result

/-!
# Sockets and TLS sessions

`TcpSocket` and `TlsContext` keep what decides the result of their operations.
The operating system and the TLS library answer through the outcome types
below; everything else follows `tcp_socket` and `tls_context`.
-/

namespace VynxHttp

/-! ## Answers of the environment -/

/-- Name resolution and the system's `connect`. -/
inductive ConnectOutcome where
  | unresolved (code : ErrorCode)
  | established
  | inProgress
  | refused

/-- The system's `send`, or `SSL_write`. -/
inductive SendOutcome where
  | accepted (count : ℕ)
  | wouldBlock
  | failed
  deriving DecidableEq

/-- The system's `recv`, or `SSL_read`.  No bytes are the end of the stream. -/
inductive RecvOutcome where
  | received (bytes : Bytes)
  | wouldBlock
  | failed
  deriving DecidableEq

inductive HandshakeOutcome where
  | finished
  | wouldBlock
  | sslError
  | failed

/-! ## Sockets -/

inductive SocketState where
  | disconnected
  | connecting
  | connected
  | closing
  | error
  deriving DecidableEq, Repr

/-- `conn` counts the sockets of a run and stands for the connection behind the
descriptor; `opened` tells whether the descriptor is not `-1`. -/
structure TcpSocket where
  conn : ℕ
  opened : Bool := true
  state : SocketState := .disconnected

namespace TcpSocket

def valid (socket : TcpSocket) : Bool := socket.opened

/-- `answer` is the environment's answer for a host and a port. -/
def connect (socket : TcpSocket) (host : Bytes) (port : UInt16)
    (answer : Bytes → UInt16 → ConnectOutcome) : TcpSocket × Result Unit :=
  if socket.state ≠ .disconnected then (socket, .error .invalidState)
  else
    match answer host port with
    | .unresolved code => (socket, .error code)
    | .established => ({ socket with state := .connected }, success)
    | .inProgress => ({ socket with state := .connecting }, success)
    | .refused => ({ socket with state := .error }, .error .connectionRefused)

/-- The system takes at most the bytes which it is given. -/
def send (socket : TcpSocket) (data : Bytes) (outcome : SendOutcome) :
    Result ℕ :=
  if socket.state ≠ .connected then .error .invalidState
  else
    match outcome with
    | .accepted count => .ok (min count data.length)
    | .wouldBlock => .ok 0
    | .failed => .error .socketError

def receive (socket : TcpSocket) (outcome : RecvOutcome) :
    TcpSocket × Result Bytes :=
  if socket.state ≠ .connected then (socket, .error .invalidState)
  else
    match outcome with
    | .received [] =>
        ({ socket with state := .disconnected }, .error .connectionReset)
    | .received bytes => (socket, .ok bytes)
    | .wouldBlock => (socket, .ok [])
    | .failed => (socket, .error .socketError)

end TcpSocket

/-! ## TLS sessions -/

/-- A session on the descriptor of the connection `conn`, for the server name
`hostname`. -/
structure TlsContext where
  conn : ℕ
  hostname : Bytes

namespace TlsContext

/-- `refusal` is the error of `SSL_new` or `SSL_set_fd`, if there is one. -/
def create (conn : ℕ) (hostname : Bytes) (refusal : Option ErrorCode) :
    Result TlsContext :=
  match refusal with
  | some code => .error code
  | none => .ok ⟨conn, hostname⟩

def handshake (outcome : HandshakeOutcome) : Result Unit :=
  match outcome with
  | .finished => success
  | .wouldBlock => .error .operationTimeout
  | .sslError => .error .tlsCertificateError
  | .failed => .error .tlsHandshakeFailed

def write (data : Bytes) (outcome : SendOutcome) : Result ℕ :=
  match outcome with
  | .accepted 0 => .error .connectionReset
  | .accepted count => .ok (min count data.length)
  | .wouldBlock => .error .operationTimeout
  | .failed => .error .tlsProtocolError

def read (outcome : RecvOutcome) : Result Bytes :=
  match outcome with
  | .received [] => .error .connectionReset
  | .received bytes => .ok bytes
  | .wouldBlock => .error .operationTimeout
  | .failed => .error .tlsProtocolError

end TlsContext

end VynxHttp
