import VynxHttp.ParsedUrl
import VynxHttp.PoolEntry

/-!
# The client

`Run.executeHop` follows one activation of `http_client::do_execute`, from the
defaults of the request to the decision to return or to follow a redirect, and
`Run.doExecute` follows the recursion.  The answers of the environment to one
activation are a `HopOutcomes`.  A run carries the client, the number of
sockets opened so far and the trace of what has been done, latest event first;
a call which blocks keeps the trace up to there.
-/

namespace VynxHttp

/-- The timeouts of the sockets and the TLS options are left to the
environment. -/
structure HttpClientConfig where
  idleTimeout : ℤ := 60000
  maxRedirects : ℕ := 10
  followRedirects : Bool := true
  keepAlive : Bool := true
  defaultHost : Bytes := []
  defaultPort : UInt16 := 80

/-- `tlsReady` tells whether the shared TLS context has been created, and
`redirectCallback` whether a callback observes redirects. -/
structure HttpClient where
  config : HttpClientConfig := {}
  cookies : CookieJar := {}
  redirectCallback : Bool := false
  connections : Bytes → Option PoolEntry := fun _ => none
  tlsReady : Bool := false

/-! ## Defaults and keys -/

/-- `:port` unless the port is a default one. -/
def portSuffix (port : UInt16) : Bytes :=
  if port ≠ 80 ∧ port ≠ 443 then colon :: decimal port.toNat else []

def HttpHeaders.setDefault (headers : HttpHeaders) (name value : Bytes) :
    HttpHeaders :=
  if headers.contains name then headers else headers.set name value

theorem HttpHeaders.get_setDefault (headers : HttpHeaders)
    (name value : Bytes) :
    (headers.setDefault name value).get name =
      some ((headers.get name).getD value) := by
  unfold setDefault
  rw [contains_eq_isSome_get]
  cases hget : headers.get name with
  | none => exact headers.get_set name value
  | some own => exact hget

theorem HttpHeaders.get_setDefault_of_ne (headers : HttpHeaders)
    {name other : Bytes} (hother : equalsIgnoreCase name other = false)
    (value : Bytes) :
    (headers.setDefault name value).get other = headers.get other := by
  unfold setDefault
  split
  next => rfl
  next => exact headers.get_set_of_ne hother value

/-- The `Cookie` header, written or not, leaves the others alone. -/
theorem HttpHeaders.get_setCookie_of_ne (headers : HttpHeaders)
    {other : Bytes} (hother : equalsIgnoreCase (ascii "Cookie") other = false)
    (value : Bytes) :
    (if value = [] then headers else headers.set (ascii "Cookie") value).get
      other = headers.get other := by
  split
  next => rfl
  next => exact headers.get_set_of_ne hother value

theorem HttpHeaders.filter_setDefault_of_ne (headers : HttpHeaders)
    {name other : Bytes} (hother : equalsIgnoreCase name other = false)
    (value : Bytes) :
    (headers.setDefault name value).fields.filter (·.hasName other) =
      headers.fields.filter (·.hasName other) := by
  unfold setDefault
  split
  next => rfl
  next => exact filter_setFields_of_ne hother value headers.fields

namespace HttpClient

/-- The host and the port of a request, from the configuration where they are
not set. -/
def fillTarget (client : HttpClient) (request : HttpRequest) :
    HttpRequest :=
  { request with
    host :=
      if request.host = [] ∧ client.config.defaultHost ≠ [] then
        client.config.defaultHost
      else request.host
    port :=
      if request.port = 0 then client.config.defaultPort else request.port }

def defaultHeaders (client : HttpClient) (request : HttpRequest) :
    HttpHeaders :=
  let headers := request.headers.setDefault (ascii "Host")
    (request.host ++ portSuffix request.port)
  let headers := headers.setDefault (ascii "Connection")
    (if client.config.keepAlive then ascii "keep-alive" else ascii "close")
  let headers :=
    if 0 < request.body.size then
      headers.setDefault (ascii "Content-Length")
        (decimal request.body.size)
    else headers
  let headers :=
    headers.setDefault (ascii "User-Agent") (ascii "vynx_http/0.1")
  let headers := headers.setDefault (ascii "Accept") (ascii "*/*")
  let cookieHeader := client.cookies.buildCookieHeader request.host request.uri
  if cookieHeader = [] then headers
  else headers.set (ascii "Cookie") cookieHeader

/-- The `Cookie` header is written last, and no other default touches it. -/
theorem defaultHeaders_cookie (client : HttpClient) (request : HttpRequest) :
    ∃ headers : HttpHeaders,
      headers.fields.filter (·.hasName (ascii "Cookie")) =
        request.headers.fields.filter (·.hasName (ascii "Cookie")) ∧
      client.defaultHeaders request =
        if client.cookies.buildCookieHeader request.host request.uri = [] then
          headers
        else headers.set (ascii "Cookie")
          (client.cookies.buildCookieHeader request.host request.uri) := by
  refine ⟨_, ?_, rfl⟩
  rw [HttpHeaders.filter_setDefault_of_ne _ (by decide),
    HttpHeaders.filter_setDefault_of_ne _ (by decide)]
  have hlength : ∀ headers : HttpHeaders,
      (if 0 < request.body.size then
          headers.setDefault (ascii "Content-Length")
            (decimal request.body.size)
        else headers).fields.filter (·.hasName (ascii "Cookie")) =
        headers.fields.filter (·.hasName (ascii "Cookie")) := by
    intro headers
    split
    next => exact headers.filter_setDefault_of_ne (by decide) _
    next => rfl
  rw [hlength, HttpHeaders.filter_setDefault_of_ne _ (by decide),
    HttpHeaders.filter_setDefault_of_ne _ (by decide)]

def applyDefaults (client : HttpClient) (request : HttpRequest) :
    HttpRequest :=
  let request := client.fillTarget request
  { request with headers := client.defaultHeaders request }

def cleanupIdle (client : HttpClient) (now : ℤ) : HttpClient :=
  { client with
    connections := fun key => (client.connections key).filter fun entry =>
      decide (now - entry.lastActive ≤ client.config.idleTimeout) }

end HttpClient

/-- The scheme of a request, inferred from its port when it has none. -/
def HttpRequest.effectiveScheme (request : HttpRequest) : Bytes :=
  if request.scheme = [] then
    if request.port = 443 then https else http
  else request.scheme

def poolKey (scheme host : Bytes) (port : UInt16) : Bytes :=
  scheme ++ ascii "://" ++ host ++ [colon] ++ decimal port.toNat

/-! ## Redirects -/

/-- `scheme://host[:port]`. -/
def originText (scheme : Bytes) (request : HttpRequest) : Bytes :=
  scheme ++ ascii "://" ++ request.host ++ portSuffix request.port

/-- The target of a redirect; `none` for a location of another form. -/
def redirectTarget (scheme : Bytes) (request : HttpRequest)
    (location : Bytes) : Option Bytes :=
  if location.take 7 = ascii "http://" ∨
      location.take 8 = ascii "https://" then some location
  else if location.take 1 = [slash] then
    some (originText scheme request ++ location)
  else none

/-- Fields which are applied again to the follow-up request. -/
def reapplied (field : HeaderField) : Bool :=
  field.hasName (ascii "Host") || field.hasName (ascii "Content-Length") ||
    field.hasName (ascii "Cookie")

def isCredential (field : HeaderField) : Bool :=
  field.hasName (ascii "Authorization") ||
    field.hasName (ascii "Proxy-Authorization")

def redirectHeaders (request : HttpRequest) (crossOrigin : Bool) :
    HttpHeaders :=
  ⟨request.headers.fields.filter fun field =>
    !(reapplied field || crossOrigin && isCredential field)⟩

/-- The follow-up request.  Only the hosts are compared to tell whether it
crosses origins. -/
def redirectRequest (request : HttpRequest) (status : UInt16)
    (target : ParsedUrl) : HttpRequest where
  method :=
    if status = 307 ∨ status = 308 then request.method else .get
  uri := target.path
  host := target.host
  scheme := target.scheme
  port := target.port
  headers := redirectHeaders request (target.host != request.host)
  body := .empty

/-! ## Runs -/

inductive Event where
  | connected (conn : ℕ) (host : Bytes) (port : UInt16)
  | handshaken (conn : ℕ)
  | active (conn : ℕ) (time : ℤ)
  | reused (conn : ℕ) (state : SocketState) (now timeout : ℤ)
  | requested (conn : ℕ) (viaTls : Bool) (scheme : Bytes)
      (request : HttpRequest) (sent : Bytes)
  | failed (conn : ℕ)
  | responded (conn : ℕ) (response : HttpResponse) (following : Bool)
  | redirected (source target : Bytes) (status : UInt16)
  | followed (request : HttpRequest) (target : ParsedUrl)

/-- The answers to one activation of `do_execute`: the clock at the clean-up,
whether a socket can be created, the connection, the shared TLS context, the
session and its handshake, the clock when the connection enters the pool, the
exchange, and the clock after it. -/
structure HopOutcomes where
  now : ℤ := 0
  created : Bool := true
  connect : Bytes → UInt16 → ConnectOutcome := fun _ _ => .established
  tlsContext : Option ErrorCode := none
  tlsSession : Option ErrorCode := none
  handshake : HandshakeOutcome := .finished
  insertedAt : ℤ := 0
  sends : List SendOutcome := []
  recvs : List RecvOutcome := []
  doneAt : ℤ := 0

structure Run where
  client : HttpClient := {}
  opened : ℕ := 0
  trace : List Event := []

/-- How one activation of `do_execute` goes on. -/
inductive HopResult where
  | blocked
  | returned (result : Result HttpResponse)
  | follow (next : HttpRequest)

namespace Run

def log (run : Run) (event : Event) : Run :=
  { run with trace := event :: run.trace }

def put (run : Run) (key : Bytes) (entry : PoolEntry) : Run :=
  { run with
    client := { run.client with
      connections := Function.update run.client.connections key
        (some entry) } }

def erase (run : Run) (key : Bytes) : Run :=
  { run with
    client := { run.client with
      connections := Function.update run.client.connections key none } }

def cleanupIdle (run : Run) (now : ℤ) : Run :=
  { run with client := run.client.cleanupIdle now }

/-! ## Opening a connection -/

def connectSocket (run : Run) (hop : HopOutcomes) (request : HttpRequest) :
    Run × Result TcpSocket :=
  if hop.created then
    let socket : TcpSocket := { conn := run.opened }
    let run := { run with opened := run.opened + 1 }
    match socket.connect request.host request.port hop.connect with
    | (_, .error code) => (run, .error code)
    | (socket, .ok ()) =>
        (run.log (.connected socket.conn request.host request.port),
          .ok socket)
  else (run, .error .socketError)

def ensureTlsContext (run : Run) (hop : HopOutcomes) : Run × Result Unit :=
  if run.client.tlsReady then (run, success)
  else
    match hop.tlsContext with
    | some code => (run, .error code)
    | none =>
        ({ run with client := { run.client with tlsReady := true } },
          success)

def secureSocket (run : Run) (hop : HopOutcomes) (hostname : Bytes)
    (socket : TcpSocket) : Run × Result TlsContext :=
  match run.ensureTlsContext hop with
  | (run, .error code) => (run, .error code)
  | (run, .ok ()) =>
      match TlsContext.create socket.conn hostname hop.tlsSession with
      | .error code => (run, .error code)
      | .ok tls =>
          match TlsContext.handshake hop.handshake with
          | .error code => (run, .error code)
          | .ok () => (run.log (.handshaken tls.conn), .ok tls)

/-- `connections_.emplace`, for a key which is not in the pool. -/
def insert (run : Run) (key : Bytes) (entry : PoolEntry) :
    Run × Result PoolEntry :=
  ((run.log (.active entry.conn entry.lastActive)).put key entry, .ok entry)

def openConnection (run : Run) (hop : HopOutcomes) (scheme key : Bytes)
    (request : HttpRequest) : Run × Result PoolEntry :=
  match run.connectSocket hop request with
  | (run, .error code) => (run, .error code)
  | (run, .ok socket) =>
      if scheme = https then
        match run.secureSocket hop request.host socket with
        | (run, .error code) => (run, .error code)
        | (run, .ok tls) =>
            run.insert key
              { socket
                tls := some tls
                isTls := true
                tlsHandshakeDone := true
                lastActive := hop.insertedAt }
      else run.insert key { socket, lastActive := hop.insertedAt }

def obtainConnection (run : Run) (hop : HopOutcomes) (scheme key : Bytes)
    (request : HttpRequest) : Run × Result PoolEntry :=
  match run.client.connections key with
  | some entry =>
      if entry.socket.valid && entry.socket.state == .connected then
        (run.log (.reused entry.conn entry.socket.state hop.now
          run.client.config.idleTimeout), .ok entry)
      else (run.erase key).openConnection hop scheme key request
  | none => run.openConnection hop scheme key request

/-! ## One activation -/

def storeCookies (run : Run) (response : HttpResponse) (host : Bytes) :
    Run :=
  let lines := response.headers.fields.filter (·.hasName (ascii "Set-Cookie"))
  { run with
    client := { run.client with
      cookies := lines.foldl
        (fun jar field => jar.setCookieLine field.value host)
        run.client.cookies } }

def announceRedirect (run : Run) (source target : Bytes)
    (status : UInt16) : Run :=
  if run.client.redirectCallback then
    run.log (.redirected source target status)
  else run

def followRedirect (run : Run) (scheme : Bytes) (request : HttpRequest)
    (response : HttpResponse) : Run × HopResult :=
  match response.headers.get (ascii "Location") with
  | none => (run, .returned (.ok response))
  | some location =>
      match redirectTarget scheme request location with
      | none => (run, .returned (.ok response))
      | some target =>
          let run := run.announceRedirect
            (originText scheme request ++ request.uri) target
            response.statusCode
          match parseUrl target with
          | .error code => (run, .returned (.error code))
          | .ok parsed =>
              let next := redirectRequest request response.statusCode parsed
              (run.log (.followed request parsed), .follow next)

/-- The time of the round trip and the cookies of the response. -/
def recordResponse (run : Run) (doneAt : ℤ) (key : Bytes)
    (request : HttpRequest) (entry : PoolEntry) (response : HttpResponse)
    (following : Bool) : Run :=
  let run := (run.put key (entry.withLastActive doneAt)).log
    (.active entry.conn doneAt)
  (run.storeCookies response request.host).log
    (.responded entry.conn response following)

/-- After a response: the pool, the cookies, the redirect and, only where none
is to be followed, the `Connection` header. -/
def finishHop (run : Run) (doneAt : ℤ) (scheme key : Bytes)
    (request : HttpRequest) (remaining : ℕ) (entry : PoolEntry)
    (response : HttpResponse) : Run × HopResult :=
  let following := response.isRedirect && run.client.config.followRedirects &&
    decide (0 < remaining)
  let run := run.recordResponse doneAt key request entry response following
  if following then run.followRedirect scheme request response
  else if response.headers.connectionKeepAlive then
    (run, .returned (.ok response))
  else (run.erase key, .returned (.ok response))

def exchange (run : Run) (hop : HopOutcomes) (scheme key : Bytes)
    (request : HttpRequest) (remaining : ℕ) (entry : PoolEntry) :
    Run × HopResult :=
  let run := run.log (.requested entry.conn entry.viaTls scheme request
    (entry.sendRequest request hop.sends).1)
  match entry.sendAndReceive request hop.sends hop.recvs with
  | none => (run, .blocked)
  | some ⟨_, .error code, _⟩ =>
      ((run.erase key).log (.failed entry.conn), .returned (.error code))
  | some ⟨entry, .ok response, _⟩ =>
      run.finishHop hop.doneAt scheme key request remaining entry response

def executeHop (run : Run) (hop : HopOutcomes) (request : HttpRequest)
    (remaining : ℕ) : Run × HopResult :=
  let request := run.client.applyDefaults request
  let run := run.cleanupIdle hop.now
  let scheme := request.effectiveScheme
  let key := poolKey scheme request.host request.port
  match run.obtainConnection hop scheme key request with
  | (run, .error code) => (run, .returned (.error code))
  | (run, .ok entry) => run.exchange hop scheme key request remaining entry

/-! ## Whole calls and whole runs -/

/-- `none` for a call which has not returned when the answers end. -/
def doExecute : List HopOutcomes → Run → HttpRequest → ℕ →
    Run × Option (Result HttpResponse)
  | [], run, _, _ => (run, none)
  | hop :: hops, run, request, remaining =>
      match run.executeHop hop request remaining with
      | (run, .blocked) => (run, none)
      | (run, .returned result) => (run, some result)
      | (run, .follow next) => doExecute hops run next (remaining - 1)

/-- `execute(req)`. -/
def execute (run : Run) (request : HttpRequest) (hops : List HopOutcomes) :
    Run × Option (Result HttpResponse) :=
  doExecute hops run request run.client.config.maxRedirects

inductive Action where
  | execute (request : HttpRequest) (hops : List HopOutcomes)
  | configure (config : HttpClientConfig)
  | setCookies (cookies : CookieJar)
  | onRedirect (callback : Bool)

def act (run : Run) : Action → Run × Bool
  | .execute request hops =>
      let (run, result) := run.execute request hops
      (run, result.isSome)
  | .configure config =>
      ({ run with client := { run.client with config } }, true)
  | .setCookies cookies =>
      ({ run with client := { run.client with cookies } }, true)
  | .onRedirect callback =>
      ({ run with
        client := { run.client with redirectCallback := callback } }, true)

/-- The actions one after the other, up to the first which does not return. -/
def actAll (run : Run) : List Action → Run
  | [] => run
  | action :: actions =>
      match run.act action with
      | (run, true) => run.actAll actions
      | (run, false) => run

end Run

/-- The request which `execute(method, url, headers, body)` makes. -/
def HttpRequest.ofUrl (method : HttpMethod) (url : Bytes)
    (headers : HttpHeaders) (body : ByteBuffer) : Result HttpRequest :=
  (parseUrl url).map fun parsed =>
    { method
      uri := parsed.path
      host := parsed.host
      scheme := parsed.scheme
      port := parsed.port
      headers
      body }

end VynxHttp
