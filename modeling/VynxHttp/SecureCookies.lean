import VynxHttp.Activations

/-!
# Secure cookies

The `Cookie` header of a request is written from the cookies of the jar which
match its host and path.  Nothing else is asked of a cookie, so that a secure
one goes out in the clear as soon as it matches a request for which there is no
TLS session.
-/

namespace VynxHttp

open EventLog

/-! ## The Cookie header -/

/-- `name=value` of some cookies, joined by `; `. -/
def cookieText (cookies : List CookieEntry) : Bytes :=
  (ascii "; ").intercalate
    (cookies.map fun cookie => cookie.name ++ [equalsSign] ++ cookie.value)

theorem cookieText_eq_nil_iff {cookies : List CookieEntry} :
    cookieText cookies = [] ↔ cookies = [] := by
  cases cookies with
  | nil => exact iff_of_true rfl rfl
  | cons cookie rest =>
      cases rest <;> simp [cookieText, List.intercalate]

/-- The cookies which are sent to a host and path. -/
def CookieJar.selected (jar : CookieJar) (domain path : Bytes) :
    List CookieEntry :=
  jar.cookies.filter fun cookie =>
    domainMatches cookie domain && pathMatches cookie path

theorem CookieJar.buildCookieHeader_eq (jar : CookieJar)
    (domain path : Bytes) :
    jar.buildCookieHeader domain path = cookieText (jar.selected domain path) :=
  rfl

/-- The `Cookie` header of a request is written from the cookies of the jar
when some match, and is the caller's own otherwise. -/
theorem HttpClient.get_cookie_applyDefaults (client : HttpClient)
    (request : HttpRequest) :
    (client.applyDefaults request).headers.get (ascii "Cookie") =
      if client.cookies.selected (client.applyDefaults request).host
          (client.applyDefaults request).uri = [] then
        request.headers.get (ascii "Cookie")
      else
        some (cookieText (client.cookies.selected
          (client.applyDefaults request).host
          (client.applyDefaults request).uri)) := by
  have hget : ∀ headers : HttpHeaders,
      headers.fields.filter (·.hasName (ascii "Cookie")) =
        request.headers.fields.filter (·.hasName (ascii "Cookie")) →
      headers.get (ascii "Cookie") =
        request.headers.get (ascii "Cookie") := by
    intro headers hfields
    rw [HttpHeaders.get, HttpHeaders.get, ← List.head?_filter, hfields,
      List.head?_filter]
  obtain ⟨headers, hfields, heq⟩ :=
    client.defaultHeaders_cookie (client.fillTarget request)
  unfold applyDefaults
  simp only [heq, CookieJar.buildCookieHeader_eq, cookieText_eq_nil_iff]
  split
  next => exact hget headers hfields
  next => exact HttpHeaders.get_set _ _ _

/-! ## Transport -/

namespace Run

theorem openConnection_viaTls {run run' : Run} {hop : HopOutcomes}
    {scheme key : Bytes} {request : HttpRequest} {entry : PoolEntry}
    (hopen : run.openConnection hop scheme key request =
      (run', .ok entry)) : entry.viaTls = (scheme == https) := by
  unfold openConnection at hopen
  split at hopen
  next => simp at hopen
  next =>
    split at hopen
    next hhttps =>
      split at hopen
      next => simp at hopen
      next =>
        simp only [insert, Prod.mk.injEq, Except.ok.injEq] at hopen
        rw [← hopen.2, hhttps]
        rfl
    next hhttps =>
      simp only [insert, Prod.mk.injEq, Except.ok.injEq] at hopen
      rw [← hopen.2]
      simp [PoolEntry.viaTls, hhttps]

/-- Whether a connection obtained for a key runs over TLS: a pooled one as it
was opened, and a new one for `https` only. -/
def securedFor (run : Run) (scheme key : Bytes) : Bool :=
  match run.client.connections key with
  | some entry =>
      if entry.socket.valid && entry.socket.state == .connected then
        entry.viaTls
      else scheme == https
  | none => scheme == https

theorem obtainConnection_viaTls {run run' : Run} {hop : HopOutcomes}
    {scheme key : Bytes} {request : HttpRequest} {entry : PoolEntry}
    (hobtain : run.obtainConnection hop scheme key request =
      (run', .ok entry)) : entry.viaTls = run.securedFor scheme key := by
  unfold obtainConnection at hobtain
  unfold securedFor
  cases hpooled : run.client.connections key with
  | none =>
      simp only [hpooled] at hobtain ⊢
      exact openConnection_viaTls hobtain
  | some pooled =>
      simp only [hpooled] at hobtain ⊢
      split at hobtain
      next husable =>
        simp only [Prod.mk.injEq, Except.ok.injEq] at hobtain
        rw [if_pos husable, hobtain.2]
      next husable =>
        rw [if_neg husable]
        exact openConnection_viaTls hobtain

/-- What is sent goes over TLS, or in the clear. -/
def sentOver (viaTls : Bool) : Event → Prop
  | .requested _ sentViaTls _ _ _ => sentViaTls = viaTls
  | _ => True

theorem executeHop_sentOver (run : Run) (hop : HopOutcomes)
    (request : HttpRequest) (remaining : ℕ) :
    Extends (sentOver ((run.cleanupIdle hop.now).securedFor
        (run.client.applyDefaults request).effectiveScheme
        (poolKey (run.client.applyDefaults request).effectiveScheme
          (run.client.applyDefaults request).host
          (run.client.applyDefaults request).port)))
      run.trace (run.executeHop hop request remaining).1.trace := by
  have hopening : ∀ viaTls event, event.Opening → sentOver viaTls event := by
    intro viaTls event hevent
    cases event <;> trivial
  have hclosing : ∀ viaTls request event, event.Closing request →
      sentOver viaTls event := by
    intro viaTls request event hevent
    cases event with
    | requested => exact hevent.elim
    | _ => trivial
  rcases run.executeHop_cases hop request remaining with
    ⟨opened, code, hopens, hfailed⟩ |
      ⟨opened, entry, hopens, hobtain, hexchange⟩
  · rw [hfailed]
    exact hopens.events.mono (hopening _)
  · rw [hexchange, ← obtainConnection_viaTls hobtain]
    generalize run.client.applyDefaults request = request
    have hsent : Extends (sentOver entry.viaTls) run.trace
        (opened.sentOn hop request.effectiveScheme request entry).trace :=
      (hopens.events.mono (hopening _)).cons rfl
    exact hsent.trans
      ((opened.exchange_closes hop request.effectiveScheme _ request remaining
        entry).mono (hclosing _ _))

end Run

/-! ## Whole runs -/

namespace Activation

variable (activation : Activation)

/-- Whether the request of the activation goes over TLS. -/
def secured : Bool :=
  (activation.before.cleanupIdle activation.hop.now).securedFor
    activation.sent.effectiveScheme
    (poolKey activation.sent.effectiveScheme activation.sent.host
      activation.sent.port)

/-- The cookies of the jar which the `Cookie` header is written from. -/
def carried : List CookieEntry :=
  activation.before.client.cookies.selected activation.sent.host
    activation.sent.uri

/-- The request goes over TLS, or no secure cookie of the jar is for its host
and path. -/
def Discreet : Prop :=
  activation.secured = true ∨
    ∀ cookie ∈ activation.before.client.cookies.cookies,
      CookieJar.domainMatches cookie activation.sent.host = true →
      CookieJar.pathMatches cookie activation.sent.uri = true →
        cookie.secure = false

instance : Decidable activation.Discreet :=
  inferInstanceAs (Decidable (_ ∨ ∀ _ ∈ _, _))

/-- The `Cookie` header of a request is written from the cookies which the
activation carries, and none of them is a secure one when the request goes out
in the clear. -/
def KeepsSecure : Event → Prop
  | .requested _ viaTls _ request _ =>
      request.headers.get (ascii "Cookie") =
          (if activation.carried = [] then
            activation.request.headers.get (ascii "Cookie")
          else some (cookieText activation.carried)) ∧
        (viaTls = false →
          ∀ cookie ∈ activation.carried, cookie.secure = false)
  | _ => True

instance : DecidablePred activation.KeepsSecure
  | .requested .. => inferInstanceAs (Decidable (_ ∧ _))
  | .connected .. | .handshaken .. | .active .. | .reused .. | .failed ..
  | .responded .. | .redirected .. | .followed .. => .isTrue trivial

theorem requested_of_mem_added {conn : ℕ} {viaTls : Bool}
    {scheme bytes : Bytes} {request : HttpRequest}
    (hmem : Event.requested conn viaTls scheme request bytes ∈
      activation.added) :
    viaTls = activation.secured ∧ request = activation.sent := by
  obtain ⟨events, htrace, hover⟩ := activation.before.executeHop_sentOver
    activation.hop activation.request activation.remaining
  obtain ⟨events', htrace', hof⟩ := activation.before.executeHop_extends
    activation.hop activation.request activation.remaining
  rw [activation.added_eq htrace] at hmem
  have hsame : events = events' :=
    List.append_cancel_right (htrace.symm.trans htrace')
  have hrequested : Event.OfRequest activation.sent
      (.requested conn viaTls scheme request bytes) := hof _ (hsame ▸ hmem)
  exact ⟨hover _ hmem, hrequested.2⟩

theorem keepsSecure_of_discreet (hdiscreet : activation.Discreet) :
    ∀ event ∈ activation.added, activation.KeepsSecure event := by
  intro event hmem
  cases event with
  | requested conn viaTls scheme request bytes =>
      obtain ⟨hvia, hrequest⟩ := activation.requested_of_mem_added hmem
      constructor
      · rw [hrequest]
        exact activation.before.client.get_cookie_applyDefaults
          activation.request
      · intro hclear cookie hcarried
        rw [hclear] at hvia
        obtain ⟨hcookie, hmatches⟩ := List.mem_filter.mp hcarried
        rw [Bool.and_eq_true] at hmatches
        rcases hdiscreet with hsecured | hnone
        · rw [hsecured] at hvia
          contradiction
        · exact hnone cookie hcookie hmatches.1 hmatches.2
  | _ => trivial

/-- No activation which sends something could ask for less. -/
theorem discreet_of_keepsSecure {conn : ℕ} {viaTls : Bool}
    {scheme bytes : Bytes} {request : HttpRequest}
    (hmem : Event.requested conn viaTls scheme request bytes ∈
      activation.added)
    (hkeeps : activation.KeepsSecure
      (.requested conn viaTls scheme request bytes)) :
    activation.Discreet := by
  by_cases hsecured : activation.secured = true
  · exact .inl hsecured
  · right
    intro cookie hcookie hdomain hpath
    have hclear : viaTls = false := by
      rw [(activation.requested_of_mem_added hmem).1]
      simpa using hsecured
    apply hkeeps.2 hclear
    apply List.mem_filter.mpr
    exact ⟨hcookie, by rw [hdomain, hpath]; rfl⟩

end Activation

/-- In a run whose activations all go over TLS or find no secure cookie for
their host and path, no secure cookie goes out in the clear. -/
theorem Run.actAll_keepsSecure (run : Run) (actions : List Action)
    (hdiscreet : ∀ activation ∈ run.activations actions,
      activation.Discreet) :
    (run.actAll actions).trace =
        eventsOf (run.activations actions) ++ run.trace ∧
      ∀ activation ∈ run.activations actions,
        ∀ event ∈ activation.added, activation.KeepsSecure event :=
  ⟨run.actAll_trace actions, fun activation hmem =>
    activation.keepsSecure_of_discreet (hdiscreet activation hmem)⟩

/-- A call of `GET http://a/` or `GET https://a/` which is answered with a
secure cookie. -/
def securelyAnswered (scheme : Bytes) (port : UInt16) : Run.Action :=
  .execute { uri := [slash], host := ascii "a", scheme, port }
    [{ sends := [.accepted 4096]
       recvs := [.received (ascii ("HTTP/1.1 200 OK\r\n" ++
         "Set-Cookie: s=1; Secure\r\nContent-Length: 0\r\n\r\n"))] }]

/-- The cookie goes back over TLS. -/
theorem Run.actAll_keepsSecure_https :
    (∃ activation ∈ ({} : Run).activations
        [securelyAnswered https 443, securelyAnswered https 443],
      activation.carried ≠ []) ∧
      ∀ activation ∈ ({} : Run).activations
          [securelyAnswered https 443, securelyAnswered https 443],
        ∀ event ∈ activation.added, activation.KeepsSecure event :=
  ⟨by decide +kernel, (Run.actAll_keepsSecure {}
    [securelyAnswered https 443, securelyAnswered https 443]
    (by decide +kernel)).2⟩

/-- The cookie which has come over TLS goes out in the clear. -/
theorem Run.not_keepsSecure_http :
    ¬ ∀ activation ∈ ({} : Run).activations
        [securelyAnswered https 443, securelyAnswered http 80],
      ∀ event ∈ activation.added, activation.KeepsSecure event := by
  decide +kernel

end VynxHttp
