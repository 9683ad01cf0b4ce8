import VynxHttp.SecureCookies

/-!
# Requests which are refused

`serialize` refuses a target with a CR or LF by returning an empty buffer, and
`send_request` has then nothing to send and succeeds.  The reply to a refused
request is therefore waited for as soon as there is a connection.
-/

namespace VynxHttp

open EventLog

def HttpRequest.IsRefused (request : HttpRequest) : Prop :=
  cr ∈ request.uri ∨ lf ∈ request.uri

instance (request : HttpRequest) : Decidable request.IsRefused :=
  inferInstanceAs (Decidable (_ ∨ _))

/-! ## Whether there is a connection -/

def ConnectOutcome.succeeds : ConnectOutcome → Bool
  | .established | .inProgress => true
  | .unresolved _ | .refused => false

def HandshakeOutcome.succeeds : HandshakeOutcome → Bool
  | .finished => true
  | .wouldBlock | .sslError | .failed => false

namespace Run

/-- The TLS context, the session and its handshake can be had. -/
def secures (run : Run) (hop : HopOutcomes) : Bool :=
  (run.client.tlsReady || hop.tlsContext.isNone) && hop.tlsSession.isNone &&
    hop.handshake.succeeds

/-- A new connection can be opened. -/
def opens (run : Run) (hop : HopOutcomes) (scheme : Bytes)
    (request : HttpRequest) : Bool :=
  hop.created && (hop.connect request.host request.port).succeeds &&
    (scheme != https || run.secures hop)

/-- There is a connection for a key: a usable one in the pool, or a new one. -/
def connects (run : Run) (hop : HopOutcomes) (scheme key : Bytes)
    (request : HttpRequest) : Bool :=
  match run.client.connections key with
  | some entry =>
      entry.socket.valid && entry.socket.state == .connected ||
        run.opens hop scheme request
  | none => run.opens hop scheme request

theorem isOk_connectSocket (run : Run) (hop : HopOutcomes)
    (request : HttpRequest) :
    (run.connectSocket hop request).2.isOk =
        (hop.created &&
          (hop.connect request.host request.port).succeeds) ∧
      (run.connectSocket hop request).1.client = run.client := by
  unfold connectSocket
  cases hop.created with
  | false => exact ⟨rfl, rfl⟩
  | true =>
      simp only [if_true, TcpSocket.connect, ne_eq, not_true_eq_false,
        if_false, Bool.true_and]
      cases hop.connect request.host request.port <;> exact ⟨rfl, rfl⟩

theorem isOk_secureSocket (run : Run) (hop : HopOutcomes) (hostname : Bytes)
    (socket : TcpSocket) :
    (run.secureSocket hop hostname socket).2.isOk = run.secures hop := by
  unfold secureSocket secures ensureTlsContext
  cases run.client.tlsReady <;> cases hop.tlsContext <;>
    cases hop.tlsSession <;> cases hop.handshake <;> rfl

theorem isOk_openConnection (run : Run) (hop : HopOutcomes)
    (scheme key : Bytes) (request : HttpRequest) :
    (run.openConnection hop scheme key request).2.isOk =
      run.opens hop scheme request := by
  obtain ⟨hconnect, hclient⟩ := run.isOk_connectSocket hop request
  unfold openConnection opens
  rw [← hconnect]
  cases hstep : run.connectSocket hop request with
  | mk connected status =>
      rw [hstep] at hclient
      cases status with
      | error code => rfl
      | ok socket =>
          simp only
          by_cases hhttps : scheme = https
          · have hsecures : connected.secures hop = run.secures hop := by
              unfold secures
              rw [show connected.client = run.client from hclient]
            have hsecure :=
              connected.isOk_secureSocket hop request.host socket
            rw [if_pos hhttps, ← hsecures, ← hsecure, hhttps]
            cases connected.secureSocket hop request.host socket with
            | mk secured status => cases status <;> rfl
          · rw [if_neg hhttps, bne_iff_ne.mpr hhttps]
            rfl

theorem isOk_obtainConnection (run : Run) (hop : HopOutcomes)
    (scheme key : Bytes) (request : HttpRequest) :
    (run.obtainConnection hop scheme key request).2.isOk =
      run.connects hop scheme key request := by
  unfold obtainConnection connects
  cases run.client.connections key with
  | none => exact run.isOk_openConnection hop scheme key request
  | some entry =>
      simp only
      cases entry.socket.valid && entry.socket.state == .connected with
      | true => rfl
      | false => exact (run.erase key).isOk_openConnection hop scheme key request

end Run

/-! ## One activation -/

theorem PoolEntry.sendRequest_of_isRefused (entry : PoolEntry)
    {request : HttpRequest} (hrefused : request.IsRefused)
    (outcomes : List SendOutcome) :
    entry.sendRequest request outcomes = ([], some success) := by
  obtain ⟨serialized, hserialize, hunread⟩ := request.serialize_spec
  rw [if_pos (show cr ∈ request.uri ∨ lf ∈ request.uri from hrefused)]
    at hunread
  rw [sendRequest, hserialize]
  simp only [hunread]
  cases outcomes <;> rfl

namespace Activation

variable (activation : Activation)

def obtained : Result PoolEntry :=
  ((activation.before.cleanupIdle activation.hop.now).obtainConnection
    activation.hop activation.sent.effectiveScheme
    (poolKey activation.sent.effectiveScheme activation.sent.host
      activation.sent.port) activation.sent).2

/-- Whether `receive_response` is called. -/
def awaits : Bool :=
  match activation.obtained with
  | .error _ => false
  | .ok entry =>
      (entry.sendRequest activation.sent activation.hop.sends).2 ==
        some success

def connects : Bool :=
  (activation.before.cleanupIdle activation.hop.now).connects activation.hop
    activation.sent.effectiveScheme
    (poolKey activation.sent.effectiveScheme activation.sent.host
      activation.sent.port) activation.sent

/-- The activation ends with an error, no reply is waited for, and nothing has
been written to a connection. -/
structure Fails : Prop where
  returned : ∃ code, (activation.before.executeHop activation.hop
    activation.request activation.remaining).2 = .returned (.error code)
  not_awaits : activation.awaits = false
  unsent : ∀ conn viaTls scheme request bytes,
    Event.requested conn viaTls scheme request bytes ∈ activation.added →
      bytes = []

theorem isOk_obtained : activation.obtained.isOk = activation.connects :=
  Run.isOk_obtainConnection _ _ _ _ _

theorem awaits_of_connects (hrefused : activation.request.IsRefused)
    (hconnects : activation.connects = true) : activation.awaits = true := by
  have hok := activation.isOk_obtained
  rw [hconnects] at hok
  unfold awaits
  cases hobtained : activation.obtained with
  | error code =>
      rw [hobtained] at hok
      cases hok
  | ok entry =>
      have hsent : activation.sent.IsRefused := hrefused
      simp only
      rw [entry.sendRequest_of_isRefused hsent]
      rfl

theorem fails_of_not_connects (hconnects : activation.connects = false) :
    activation.Fails := by
  have hok := activation.isOk_obtained
  rw [hconnects] at hok
  have hawaits : activation.awaits = false := by
    unfold awaits
    cases hobtained : activation.obtained with
    | error code => rfl
    | ok entry =>
        rw [hobtained] at hok
        cases hok
  rcases activation.before.executeHop_cases activation.hop activation.request
      activation.remaining with
    ⟨opened, code, hopens, hfailed⟩ | ⟨opened, entry, _, hobtain, _⟩
  · refine ⟨⟨code, by rw [hfailed]⟩, hawaits, ?_⟩
    intro conn viaTls scheme request bytes hmem
    obtain ⟨events, htrace, hopening⟩ := hopens.events
    have hafter : activation.after.trace =
        events ++ activation.before.trace := by
      rw [after, hfailed]
      exact htrace
    rw [activation.added_eq hafter] at hmem
    exact (hopening _ hmem).elim
  · have hobtained : activation.obtained = .ok entry :=
      congrArg Prod.snd hobtain
    rw [hobtained] at hok
    cases hok

/-- A refused request fails exactly when there is no connection which it could
be sent on. -/
theorem fails_iff (hrefused : activation.request.IsRefused) :
    activation.Fails ↔ activation.connects = false := by
  refine ⟨fun hfails => ?_, activation.fails_of_not_connects⟩
  rw [Bool.eq_false_iff]
  intro hconnects
  have hawaits := activation.awaits_of_connects hrefused hconnects
  rw [hfails.not_awaits] at hawaits
  cases hawaits

end Activation

/-- A request with a CR LF in its target, on a host which does not listen. -/
def refusedActivation (connect : ConnectOutcome) : Activation where
  before := {}
  hop := { connect := fun _ _ => connect }
  request := { uri := ascii "/\r\n", host := ascii "a" }
  remaining := 0

theorem Activation.fails_unconnected :
    (refusedActivation .refused).Fails :=
  (fails_iff _ (by decide +kernel)).mpr (by decide +kernel)

/-- On a connection, the reply to the refused request is waited for. -/
theorem Activation.not_fails_connected :
    (refusedActivation .established).request.IsRefused ∧
      (refusedActivation .established).awaits = true ∧
      ¬(refusedActivation .established).Fails := by
  have hawaits : (refusedActivation .established).awaits = true := by
    decide +kernel
  refine ⟨by decide +kernel, hawaits, fun hfails => ?_⟩
  rw [hfails.not_awaits] at hawaits
  cases hawaits

end VynxHttp
