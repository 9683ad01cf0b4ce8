import VynxHttp.RunTrace

/-!
# Credentials across redirects

`Authorization` and `Proxy-Authorization` fields are dropped when a redirect
names another host, whatever its scheme and its port.
-/

namespace VynxHttp

open EventLog

/-! ## Origins -/

structure Origin where
  scheme : Bytes
  host : Bytes
  port : UInt16
  deriving DecidableEq, Repr

def HttpRequest.origin (request : HttpRequest) : Origin :=
  ⟨request.effectiveScheme, request.host, request.port⟩

def ParsedUrl.origin (url : ParsedUrl) : Origin :=
  ⟨url.scheme, url.host, url.port⟩

def HttpRequest.carriesCredentials (request : HttpRequest) : Bool :=
  request.headers.fields.any isCredential

/-- What is sent goes to the origin or carries no credentials. -/
def KeepsCredentials (origin : Origin) : Event → Prop
  | .requested _ _ scheme request _ =>
      (⟨scheme, request.host, request.port⟩ : Origin) = origin ∨
        request.carriesCredentials = false
  | _ => True

/-- A redirect of a request with credentials which names the host of the
request names its origin. -/
def NamesOrigin : Event → Prop
  | .followed request target =>
      request.carriesCredentials = true → target.host = request.host →
        target.origin = request.origin
  | _ => True

instance (origin : Origin) : DecidablePred (KeepsCredentials origin)
  | .requested .. => inferInstanceAs (Decidable (_ ∨ _))
  | .connected .. | .handshaken .. | .active .. | .reused .. | .failed ..
  | .responded .. | .redirected .. | .followed .. => .isTrue trivial

instance : DecidablePred NamesOrigin
  | .followed request target =>
      inferInstanceAs (Decidable (request.carriesCredentials = true →
        target.host = request.host → target.origin = request.origin))
  | .connected .. | .handshaken .. | .active .. | .reused .. | .failed ..
  | .responded .. | .redirected .. | .requested .. => .isTrue trivial

/-! ## Defaults -/

theorem not_isCredential_of_hasName {field : HeaderField} {name : Bytes}
    (hname : field.hasName name = true)
    (hother : isCredential ⟨name, field.value⟩ = false) :
    isCredential field = false := by
  have hsame : field.name.map toLower = name.map toLower :=
    equalsIgnoreCase_iff.mp hname
  simpa [isCredential, HeaderField.hasName, equalsIgnoreCase, hsame]
    using hother

theorem HttpHeaders.any_isCredential_set {headers : HttpHeaders}
    {name value : Bytes}
    (hother : ∀ value, isCredential ⟨name, value⟩ = false)
    (hheaders : headers.fields.any isCredential = false) :
    (headers.set name value).fields.any isCredential = false := by
  rw [List.any_eq_false] at hheaders ⊢
  intro field hmem
  rcases mem_set hmem with hmem | hname
  · exact hheaders field hmem
  · simpa using not_isCredential_of_hasName hname (hother _)

theorem HttpHeaders.any_isCredential_setDefault {headers : HttpHeaders}
    {name value : Bytes}
    (hother : ∀ value, isCredential ⟨name, value⟩ = false)
    (hheaders : headers.fields.any isCredential = false) :
    (headers.setDefault name value).fields.any isCredential = false := by
  unfold setDefault
  split
  next => exact hheaders
  next => exact any_isCredential_set hother hheaders

theorem not_isCredential_default {name : Bytes}
    (hname : name ∈ [ascii "Host", ascii "Connection",
      ascii "Content-Length", ascii "User-Agent", ascii "Accept",
      ascii "Cookie"]) (value : Bytes) :
    isCredential ⟨name, value⟩ = false := by
  simp only [isCredential, HeaderField.hasName]
  revert name
  decide

theorem HttpClient.any_isCredential_defaultHeaders (client : HttpClient)
    (request : HttpRequest)
    (hnone : request.headers.fields.any isCredential = false) :
    (client.defaultHeaders request).fields.any isCredential = false := by
  have hdefault : ∀ {headers : HttpHeaders} (name value : Bytes),
      name ∈ [ascii "Host", ascii "Connection", ascii "Content-Length",
        ascii "User-Agent", ascii "Accept", ascii "Cookie"] →
      headers.fields.any isCredential = false →
      (headers.setDefault name value).fields.any isCredential = false :=
    fun _ _ hname =>
      HttpHeaders.any_isCredential_setDefault (not_isCredential_default hname)
  unfold defaultHeaders
  simp only
  have hhost := hdefault (ascii "Host")
    (request.host ++ portSuffix request.port) (by simp) hnone
  have hconnection := hdefault (ascii "Connection")
    (if client.config.keepAlive then ascii "keep-alive" else ascii "close")
    (by simp) hhost
  generalize HttpHeaders.setDefault _ (ascii "Connection") _ = headers
    at hconnection ⊢
  have hlength : (if 0 < request.body.size then
      headers.setDefault (ascii "Content-Length")
        (decimal request.body.size)
      else headers).fields.any isCredential = false := by
    split
    next => exact hdefault _ _ (by simp) hconnection
    next => exact hconnection
  have hagent := hdefault (ascii "User-Agent") (ascii "vynx_http/0.1")
    (by simp) hlength
  have haccept := hdefault (ascii "Accept") (ascii "*/*") (by simp) hagent
  split
  next => exact haccept
  next =>
    exact HttpHeaders.any_isCredential_set
      (not_isCredential_default (by simp)) haccept

theorem HttpClient.carriesCredentials_of_applyDefaults (client : HttpClient)
    {request : HttpRequest}
    (hcarries : (client.applyDefaults request).carriesCredentials = true) :
    request.carriesCredentials = true := by
  by_contra hnone
  rw [Bool.not_eq_true] at hnone
  have hdefaults :
      (client.applyDefaults request).carriesCredentials = false :=
    client.any_isCredential_defaultHeaders (client.fillTarget request) hnone
  rw [hdefaults] at hcarries
  exact absurd hcarries (by decide)

/-! ## Redirects -/

theorem not_reapplied_of_isCredential {field : HeaderField}
    (hfield : isCredential field = true) : reapplied field = false := by
  by_contra hreapplied
  rw [Bool.not_eq_false] at hreapplied
  have hnot : isCredential field = false := by
    simp only [reapplied, Bool.or_eq_true] at hreapplied
    rcases hreapplied with (hname | hname) | hname
    all_goals
      exact not_isCredential_of_hasName hname
        (not_isCredential_default (by simp) _)
  rw [hnot] at hfield
  exact absurd hfield (by decide)

/-- Credentials are kept exactly on the host they were meant for. -/
theorem carriesCredentials_redirectRequest (request : HttpRequest)
    (status : UInt16) (target : ParsedUrl) :
    (redirectRequest request status target).carriesCredentials = true ↔
      request.carriesCredentials = true ∧ target.host = request.host := by
  simp only [HttpRequest.carriesCredentials, redirectRequest, redirectHeaders,
    List.any_eq_true, List.mem_filter]
  constructor
  · rintro ⟨field, ⟨hmem, hkept⟩, hfield⟩
    refine ⟨⟨field, hmem, hfield⟩, ?_⟩
    simpa [not_reapplied_of_isCredential hfield, hfield] using hkept
  · rintro ⟨⟨field, hmem, hfield⟩, hhost⟩
    refine ⟨field, ⟨hmem, ?_⟩, hfield⟩
    simp [not_reapplied_of_isCredential hfield, hhost]

theorem HttpClient.origin_redirectRequest (client : HttpClient)
    (request : HttpRequest) (status : UInt16) {url : Bytes}
    {target : ParsedUrl} (hparse : parseUrl url = .ok target) :
    (client.applyDefaults (redirectRequest request status target)).origin =
      target.origin := by
  obtain ⟨hscheme, hhost, hport⟩ := parseUrl_ok hparse
  have hne : target.scheme ≠ [] := by
    rcases hscheme with h | h <;> rw [h] <;> decide
  simp [HttpRequest.origin, ParsedUrl.origin, HttpRequest.effectiveScheme,
    applyDefaults, fillTarget, redirectRequest, hne, hhost, hport]

/-! ## Calls -/

theorem Event.OfRequest.keepsCredentials {request : HttpRequest}
    {origin : Origin} {event : Event} (hevent : event.OfRequest request)
    (hrequest : request.carriesCredentials = true →
      request.origin = origin) : KeepsCredentials origin event := by
  cases event with
  | requested conn viaTls scheme sent bytes =>
      obtain ⟨rfl, rfl⟩ := hevent
      by_cases hcarries : sent.carriesCredentials = true
      · exact .inl (hrequest hcarries)
      · exact .inr (by simpa using hcarries)
  | _ => trivial

theorem Run.doExecute_keepsCredentials (hops : List HopOutcomes) (run : Run)
    (request : HttpRequest) (remaining : ℕ) {origin : Origin}
    (hrequest :
      (run.client.applyDefaults request).carriesCredentials = true →
        (run.client.applyDefaults request).origin = origin)
    (hredirects : Extends NamesOrigin run.trace
      (doExecute hops run request remaining).1.trace) :
    Extends (KeepsCredentials origin) run.trace
      (doExecute hops run request remaining).1.trace := by
  induction hops generalizing run request remaining with
  | nil => exact .refl _
  | cons hop hops ih =>
      have hof := run.executeHop_extends hop request remaining
      have hhop := hof.mono fun event hevent =>
        hevent.keepsCredentials hrequest
      rw [doExecute] at hredirects ⊢
      split
      next hstep =>
        rw [hstep] at hhop
        exact hhop
      next hstep =>
        rw [hstep] at hhop
        exact hhop
      next after next hstep =>
        simp only [hstep] at hredirects hof hhop
        obtain ⟨hsofar, hlater⟩ := hredirects.split hof.suffix
          (doExecute_suffix hops after next (remaining - 1))
        obtain ⟨url, target, status, past, hparse, rfl, hpast, hafter⟩ :=
          executeHop_follow hstep
        rw [hafter] at hsofar
        refine hhop.trans (ih after _ _ (fun hcarries => ?_) hlater)
        rw [HttpClient.origin_redirectRequest _ _ _ hparse]
        obtain ⟨hkept, hhost⟩ :=
          (carriesCredentials_redirectRequest _ _ _).mp
            (HttpClient.carriesCredentials_of_applyDefaults _ hcarries)
        rw [← hrequest hkept]
        exact hsofar.of_cons hpast hkept hhost

/-- As long as no redirect of a request with credentials names the same host
with another scheme or port, credentials go to the origin of the caller's
request only. -/
theorem Run.execute_keepsCredentials (run : Run) (request : HttpRequest)
    (hops : List HopOutcomes)
    (hredirects : Extends NamesOrigin run.trace
      (run.execute request hops).1.trace) :
    Extends (KeepsCredentials (run.client.applyDefaults request).origin)
      run.trace (run.execute request hops).1.trace :=
  run.doExecute_keepsCredentials hops request _ (fun _ => rfl) hredirects

/-- The answers to a request which is redirected to a URL, and to its
follow-up. -/
def redirectedTo (url : Bytes) : List HopOutcomes :=
  [{ sends := [.accepted 4096]
     recvs := [.received (ascii "HTTP/1.1 302 Found\r\nLocation: " ++ url ++
       ascii "\r\nContent-Length: 0\r\n\r\n")] },
    { sends := [.accepted 4096]
      recvs := [.received
        (ascii "HTTP/1.1 200 OK\r\nContent-Length: 0\r\n\r\n")] }]

def authorizedRequest : HttpRequest where
  uri := [slash]
  host := ascii "a"
  scheme := https
  port := 443
  headers := ⟨[⟨ascii "authorization", ascii "secret"⟩]⟩

/-- Another host does not see the credentials. -/
theorem Run.execute_keepsCredentials_crossHost :
    (({} : Run).execute authorizedRequest
      (redirectedTo (ascii "https://b/"))).1.opened = 2 ∧
    Extends (KeepsCredentials ⟨https, ascii "a", 443⟩) []
      (({} : Run).execute authorizedRequest
        (redirectedTo (ascii "https://b/"))).1.trace :=
  ⟨by decide +kernel,
    execute_keepsCredentials {} authorizedRequest
      (redirectedTo (ascii "https://b/"))
      (extends_nil_iff.mpr (by decide +kernel))⟩

/-- The credentials meant for `https` go out in the clear. -/
theorem Run.not_keepsCredentials_downgrade :
    ¬ Extends (KeepsCredentials
        (({} : Run).client.applyDefaults authorizedRequest).origin)
      [] (({} : Run).execute authorizedRequest
        (redirectedTo (ascii "http://a/"))).1.trace := by
  rw [extends_nil_iff]
  decide +kernel

end VynxHttp
