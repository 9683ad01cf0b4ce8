import VynxHttp.HopSteps

/-!
# Relative redirects

The target of a relative redirect is written as a URL and parsed again.  The
origin text has no brackets around an IPv6 literal, and no port when the port
is a default one of either scheme, so `parseUrl` reads it back only for the
hosts and ports of `Rendered`.
-/

namespace VynxHttp

/-- `[` and `]`. -/
def leftBracket : UInt8 := 91
def rightBracket : UInt8 := 93

/-! ## Hosts which come out of a URL -/

/-- What is known of the host of a URL. -/
structure HostText (host : Bytes) : Prop where
  ne_nil : host ≠ []
  slash_notMem : slash ∉ host
  bracket : host.head? = some leftBracket → rightBracket ∉ host

namespace ParsedUrl

theorem slash_notMem_splitPath (rest : Bytes) :
    slash ∉ (splitPath rest).1 := by
  unfold splitPath
  cases hcut : cutAt slash rest with
  | none => exact cutAt_eq_none_iff.mp hcut
  | some cut => exact (cutAt_eq_some hcut).2

theorem parsePort_map_ok {text name host : Bytes} {port : UInt16}
    (hmap : (parsePort text).map (fun port => (name, port)) =
      .ok (host, port)) : name = host ∧ parsePort text = .ok port := by
  cases htext : parsePort text with
  | error code => simp [htext, Except.map] at hmap
  | ok parsed =>
      simp only [htext, Except.map, Except.ok.injEq, Prod.mk.injEq] at hmap
      exact ⟨hmap.1, by rw [hmap.2]⟩

/-- The host is a part of the text before the path: what stands in brackets, or
what stands before the port. -/
theorem parseHostPort_host {hostPort host : Bytes} {port port' : UInt16}
    (hparse : parseHostPort hostPort port = .ok (host, port')) :
    (∃ bracketed rest, hostPort = bracketed ++ rest ∧
        rightBracket ∉ bracketed ∧ host = bracketed.drop 1) ∨
      hostPort.head? ≠ some leftBracket ∧ colon ∉ host ∧
        host <+: hostPort := by
  unfold parseHostPort at hparse
  split at hparse
  next =>
    left
    split at hparse
    next => simp at hparse
    next bracketed hcut =>
      obtain ⟨hsplit, hmem⟩ := cutAt_eq_some hcut
      simp only [Except.ok.injEq, Prod.mk.injEq] at hparse
      exact ⟨bracketed, _, hsplit, hmem, hparse.1.symm⟩
    next bracketed b text hcut =>
      obtain ⟨hsplit, hmem⟩ := cutAt_eq_some hcut
      split at hparse
      next => simp at hparse
      next =>
        obtain ⟨hhost, _⟩ := parsePort_map_ok hparse
        exact ⟨bracketed, _, hsplit, hmem, hhost.symm⟩
  next hhead =>
    right
    refine ⟨hhead, ?_⟩
    split at hparse
    next hcut =>
      simp only [Except.ok.injEq, Prod.mk.injEq] at hparse
      rw [← hparse.1]
      exact ⟨cutAt_eq_none_iff.mp hcut, List.prefix_refl _⟩
    next name text hcut =>
      obtain ⟨hsplit, hmem⟩ := cutAt_eq_some hcut
      obtain ⟨rfl, _⟩ := parsePort_map_ok hparse
      rw [hsplit]
      exact ⟨hmem, List.prefix_append _ _⟩

theorem parseAuthority_hostText {scheme rest : Bytes} {port : UInt16}
    {parsed : ParsedUrl}
    (hparse : parseAuthority scheme rest port = .ok parsed) :
    HostText parsed.host := by
  have hslash := slash_notMem_splitPath rest
  obtain ⟨_, host, port', hhostPort, hne, rfl⟩ :=
    parseAuthority_eq_ok_iff.mp hparse
  generalize (splitPath rest).1 = hostPort at hhostPort hslash
  rcases parseHostPort_host hhostPort with
    ⟨bracketed, tail, rfl, hmem, rfl⟩ | ⟨hhead, _, hinitial⟩
  · refine ⟨hne, fun h => hslash ?_, fun _ h => hmem ?_⟩
    · exact List.mem_append_left _ (List.mem_of_mem_drop h)
    · exact List.mem_of_mem_drop h
  · refine ⟨hne, fun h => hslash (hinitial.mem h), fun h => ?_⟩
    obtain ⟨tail, rfl⟩ := hinitial
    rw [List.head?_append_of_ne_nil _ hne] at hhead
    exact absurd h hhead

end ParsedUrl

theorem parseUrl_hostText {url : Bytes} {parsed : ParsedUrl}
    (hparse : parseUrl url = .ok parsed) : HostText parsed.host := by
  rcases parseUrl_cases hparse with ⟨_, hhttps⟩ | ⟨_, _, hhttp⟩
  · exact ParsedUrl.parseAuthority_hostText hhttps
  · exact ParsedUrl.parseAuthority_hostText hhttp

/-! ## Reading a rendered origin back -/

/-- The port of a URL which gives none. -/
def defaultPort (scheme : Bytes) : UInt16 := if scheme = https then 443 else 80

theorem parseUrl_scheme {scheme : Bytes}
    (hscheme : scheme = http ∨ scheme = https) (rest : Bytes) :
    parseUrl (scheme ++ ascii "://" ++ rest) =
      ParsedUrl.parseAuthority scheme rest (defaultPort scheme) := by
  rcases hscheme with rfl | rfl
  · have hlong : (http ++ ascii "://" ++ rest).take 8 ≠ ascii "https://" := by
      simp [http, ascii]
    have hshort : (http ++ ascii "://" ++ rest).take 7 = ascii "http://" :=
      rfl
    rw [parseUrl, if_neg hlong, if_pos hshort]
    rfl
  · have hlong : (https ++ ascii "://" ++ rest).take 8 = ascii "https://" :=
      rfl
    rw [parseUrl, if_pos hlong]
    rfl

theorem ParsedUrl.splitPath_append {hostPort : Bytes}
    (hslash : slash ∉ hostPort) {location : Bytes}
    (hlocation : [slash] <+: location) :
    splitPath (hostPort ++ location) = (hostPort, location) := by
  obtain ⟨rest, rfl⟩ := hlocation
  rw [splitPath, List.singleton_append, cutAt_append hslash]

theorem notMem_portSuffix {b : UInt8} (hcolon : b ≠ colon)
    (hdigit : ¬ isDecimalDigit b) (port : UInt16) : b ∉ portSuffix port := by
  unfold portSuffix
  split
  next =>
    rw [List.mem_cons, not_or]
    exact ⟨hcolon, fun h => hdigit (isDecimalDigit_of_mem_decimal h)⟩
  next => exact List.not_mem_nil

theorem ParsedUrl.parsePort_decimal {port : UInt16} (hport : port ≠ 0) :
    parsePort (decimal port.toNat) = .ok port := by
  have hlt : port.toNat < 2 ^ 16 := port.toNat_lt
  have hne : port.toNat ≠ 0 := fun h =>
    hport (UInt16.toNat_inj.mp (by rw [h]; rfl))
  rw [parsePort, if_neg (decimal_ne_nil _), fromChars_decimal hlt]
  simp [hne]

/-- A host with its port is read back, unless it is taken for a bracketed one
or cut at a colon of its own. -/
theorem ParsedUrl.parseHostPort_rendered {host : Bytes}
    {port fallback : UInt16} (hport : port ≠ 0)
    (hbracket : host.head? = some leftBracket → rightBracket ∉ host)
    (hne : host ≠ []) :
    parseHostPort (host ++ portSuffix port) fallback = .ok (host, port) ↔
      colon ∉ host ∧ host.head? ≠ some leftBracket ∧
        (port ≠ 80 ∧ port ≠ 443 ∨ port = fallback) := by
  have hhead : (host ++ portSuffix port).head? = host.head? :=
    List.head?_append_of_ne_nil _ hne
  unfold parseHostPort
  rw [hhead]
  by_cases hleft : host.head? = some leftBracket
  · have hright : rightBracket ∉ host ++ portSuffix port := by
      rw [List.mem_append, not_or]
      exact ⟨hbracket hleft,
        notMem_portSuffix (by decide) (by decide) port⟩
    have hcut : cutAt 93 (host ++ portSuffix port) = none :=
      cutAt_eq_none_iff.mpr hright
    rw [if_pos (show host.head? = some 91 from hleft), hcut]
    simp [hleft]
  · rw [if_neg (show ¬ host.head? = some 91 from hleft)]
    by_cases hcolon : colon ∈ host
    · -- the host is cut at its first colon
      obtain ⟨name, text, hcut, hlength⟩ : ∃ name text,
          cutAt colon (host ++ portSuffix port) = some (name, text) ∧
            name.length < host.length := by
        cases hcut : cutAt colon host with
        | none => exact absurd hcolon (cutAt_eq_none_iff.mp hcut)
        | some cut =>
            obtain ⟨hsplit, hmem⟩ := cutAt_eq_some hcut
            refine ⟨cut.1, cut.2 ++ portSuffix port, ?_, ?_⟩
            · rw [hsplit, List.append_assoc, List.cons_append,
                cutAt_append hmem]
            · rw [hsplit, List.length_append, List.length_cons]
              omega
      rw [hcut]
      simp only [hcolon, not_true_eq_false, false_and, iff_false]
      intro hparse
      obtain ⟨hname, _⟩ := parsePort_map_ok hparse
      rw [hname] at hlength
      exact lt_irrefl _ hlength
    · by_cases hdefault : port ≠ 80 ∧ port ≠ 443
      · have hsuffix : portSuffix port = colon :: decimal port.toNat :=
          if_pos hdefault
        rw [hsuffix, cutAt_append hcolon]
        simp [parsePort_decimal hport, Except.map, hcolon, hleft, hdefault]
      · have hsuffix : portSuffix port = [] := if_neg hdefault
        rw [hsuffix, List.append_nil, cutAt_eq_none_iff.mpr hcolon]
        simp only [Except.ok.injEq, Prod.mk.injEq, true_and, hcolon,
          not_false_eq_true, hleft, ne_eq, hdefault, false_or]
        exact eq_comm

/-! ## Follow-up requests -/

/-- The hosts and ports which are the same after rendering and parsing. -/
structure Rendered (url : ParsedUrl) : Prop where
  colon_notMem : colon ∉ url.host
  no_bracket : url.host.head? ≠ some leftBracket
  port : url.port ≠ 80 ∧ url.port ≠ 443 ∨ url.port = defaultPort url.scheme

instance (url : ParsedUrl) : Decidable (Rendered url) :=
  decidable_of_iff (colon ∉ url.host ∧ url.host.head? ≠ some leftBracket ∧
      (url.port ≠ 80 ∧ url.port ≠ 443 ∨ url.port = defaultPort url.scheme))
    ⟨fun h => ⟨h.1, h.2.1, h.2.2⟩, fun h => ⟨h.1, h.2, h.3⟩⟩

/-- The request goes where the URL says. -/
structure HttpRequest.BuiltFrom (request : HttpRequest) (url : ParsedUrl) :
    Prop where
  scheme_eq : request.scheme = url.scheme
  host_eq : request.host = url.host
  port_eq : request.port = url.port

theorem HttpRequest.builtFrom_ofUrl {method : HttpMethod} {url : Bytes}
    {headers : HttpHeaders} {body : ByteBuffer} {request : HttpRequest}
    (hrequest : ofUrl method url headers body = .ok request) :
    ∃ parsed, parseUrl url = .ok parsed ∧ request.BuiltFrom parsed := by
  unfold ofUrl at hrequest
  cases hparse : parseUrl url with
  | error code => simp [hparse, Except.map] at hrequest
  | ok parsed =>
      simp only [hparse, Except.map, Except.ok.injEq] at hrequest
      exact ⟨parsed, rfl, hrequest ▸ ⟨rfl, rfl, rfl⟩⟩

theorem HttpRequest.BuiltFrom.applyDefaults {request : HttpRequest}
    {url : Bytes} {parsed : ParsedUrl} (hbuilt : request.BuiltFrom parsed)
    (hparse : parseUrl url = .ok parsed) (client : HttpClient) :
    (client.applyDefaults request).BuiltFrom parsed := by
  obtain ⟨_, hhost, hport⟩ := parseUrl_ok hparse
  constructor
  · exact hbuilt.scheme_eq
  · simp [HttpClient.applyDefaults, HttpClient.fillTarget, hbuilt.host_eq,
      hhost]
  · simp [HttpClient.applyDefaults, HttpClient.fillTarget, hbuilt.port_eq,
      hport]

/-- The request which a redirect has led to. -/
def HopResult.followUp : HopResult → Option HttpRequest
  | .follow next => some next
  | _ => none

/-- The follow-up request goes to the same scheme, host and port, with the
location as its path. -/
def StaysOnOrigin (request : HttpRequest) (location : Bytes)
    (result : HopResult) : Prop :=
  ∃ next ∈ result.followUp, next.scheme = request.scheme ∧
    next.host = request.host ∧ next.port = request.port ∧
    next.uri = location

instance (request : HttpRequest) (location : Bytes) (result : HopResult) :
    Decidable (StaysOnOrigin request location result) :=
  inferInstanceAs (Decidable (∃ next ∈ result.followUp, _))

theorem parseUrl_rendered_iff {url : Bytes} {parsed : ParsedUrl}
    (hparse : parseUrl url = .ok parsed) {request : HttpRequest}
    (hbuilt : request.BuiltFrom parsed) {location : Bytes}
    (hlocation : [slash] <+: location) :
    parseUrl (originText parsed.scheme request ++ location) =
        .ok ⟨parsed.scheme, parsed.host, parsed.port, location⟩ ↔
      Rendered parsed := by
  obtain ⟨hscheme, hhostNe, hport⟩ := parseUrl_ok hparse
  have hhost := parseUrl_hostText hparse
  have hslash : slash ∉ parsed.host ++ portSuffix parsed.port := by
    rw [List.mem_append, not_or]
    exact ⟨hhost.slash_notMem,
      notMem_portSuffix (by decide) (by decide) parsed.port⟩
  have hne : parsed.host ++ portSuffix parsed.port ≠ [] := by
    simp [hhostNe]
  have htext : originText parsed.scheme request ++ location =
      parsed.scheme ++ ascii "://" ++
        (parsed.host ++ portSuffix parsed.port ++ location) := by
    simp only [originText, hbuilt.host_eq, hbuilt.port_eq, List.append_assoc]
  rw [htext, parseUrl_scheme hscheme, ParsedUrl.parseAuthority_eq_ok_iff,
    ParsedUrl.splitPath_append hslash hlocation]
  have hrendered : ParsedUrl.parseHostPort
        (parsed.host ++ portSuffix parsed.port)
        (defaultPort parsed.scheme) = .ok (parsed.host, parsed.port) ↔
      Rendered parsed := by
    rw [ParsedUrl.parseHostPort_rendered hport hhost.bracket hhostNe]
    exact ⟨fun h => ⟨h.1, h.2.1, h.2.2⟩, fun h => ⟨h.1, h.2, h.3⟩⟩
  rw [← hrendered]
  constructor
  · rintro ⟨_, host, port, hfound, _, heq⟩
    obtain ⟨-, rfl, rfl, -⟩ := ParsedUrl.mk.inj heq
    exact hfound
  · intro hfound
    exact ⟨hne, parsed.host, parsed.port, hfound, hhostNe, rfl⟩

theorem redirectTarget_of_slash {scheme location : Bytes}
    (request : HttpRequest) (hlocation : [slash] <+: location) :
    redirectTarget scheme request location =
      some (originText scheme request ++ location) := by
  obtain ⟨rest, rfl⟩ := hlocation
  have habsolute : ¬ (([slash] ++ rest).take 7 = ascii "http://" ∨
      ([slash] ++ rest).take 8 = ascii "https://") := by
    simp [ascii, slash]
  have hrelative : ([slash] ++ rest).take 1 = [slash] := rfl
  rw [redirectTarget, if_neg habsolute, if_pos hrelative]

theorem HttpRequest.BuiltFrom.effectiveScheme_eq {request : HttpRequest}
    {url : Bytes} {parsed : ParsedUrl} (hbuilt : request.BuiltFrom parsed)
    (hparse : parseUrl url = .ok parsed) :
    request.effectiveScheme = parsed.scheme := by
  have hne : request.scheme ≠ [] := by
    rw [hbuilt.scheme_eq]
    rcases (parseUrl_ok hparse).1 with h | h <;> rw [h] <;> decide
  rw [HttpRequest.effectiveScheme, if_neg hne, hbuilt.scheme_eq]

namespace Run

theorem followRedirect_staysOnOrigin_iff {url : Bytes}
    {parsed : ParsedUrl} (hparse : parseUrl url = .ok parsed)
    {request : HttpRequest} (hbuilt : request.BuiltFrom parsed) (run : Run)
    {response : HttpResponse} {location : Bytes}
    (hget : response.headers.get (ascii "Location") = some location)
    (hlocation : [slash] <+: location) :
    StaysOnOrigin request location
        (run.followRedirect request.effectiveScheme request response).2 ↔
      Rendered parsed := by
  rw [← parseUrl_rendered_iff hparse hbuilt hlocation,
    hbuilt.effectiveScheme_eq hparse]
  unfold followRedirect
  rw [hget]
  simp only [redirectTarget_of_slash request hlocation]
  cases parseUrl (originText parsed.scheme request ++ location) with
  | error code => simp [StaysOnOrigin, HopResult.followUp]
  | ok target =>
      cases target
      simp [StaysOnOrigin, HopResult.followUp, redirectRequest,
        hbuilt.scheme_eq, hbuilt.host_eq, hbuilt.port_eq]

/-- A relative redirect stays on the origin of the request exactly when that
origin is read back from its text. -/
theorem executeHop_staysOnOrigin_iff {url : Bytes} {parsed : ParsedUrl}
    (hparse : parseUrl url = .ok parsed) {request : HttpRequest}
    (hbuilt : request.BuiltFrom parsed) {run : Run} {hop : HopOutcomes}
    {remaining : ℕ} {response : HttpResponse}
    (hanswer : run.answer hop request = some response)
    (hfollowing : run.following remaining response = true)
    {location : Bytes}
    (hget : response.headers.get (ascii "Location") = some location)
    (hlocation : [slash] <+: location) :
    StaysOnOrigin (run.client.applyDefaults request) location
        (run.executeHop hop request remaining).2 ↔
      Rendered parsed := by
  obtain ⟨recorded, hstep⟩ := executeHop_of_following hanswer hfollowing
  rw [hstep]
  exact followRedirect_staysOnOrigin_iff hparse
    (hbuilt.applyDefaults hparse run.client) recorded hget hlocation

end Run

/-- The answers to a request which is redirected to `/b`. -/
def relativeHop : HopOutcomes where
  sends := [.accepted 4096]
  recvs := [.received (ascii
    "HTTP/1.1 302 Found\r\nLocation: /b\r\nContent-Length: 0\r\n\r\n")]

def requestTo (url : ParsedUrl) : HttpRequest where
  uri := url.path
  host := url.host
  scheme := url.scheme
  port := url.port

theorem requestTo_builtFrom (url : ParsedUrl) :
    (requestTo url).BuiltFrom url := ⟨rfl, rfl, rfl⟩

def secureUrl (host : Bytes) (port : UInt16) : ParsedUrl :=
  ⟨https, host, port, [slash]⟩

theorem answer_8443_isSome : (({} : Run).answer relativeHop
    (requestTo (secureUrl (ascii "a") 8443))).isSome = true := by
  decide +kernel

/-- A port which is a default of neither scheme is kept. -/
theorem Run.executeHop_staysOnOrigin_8443 :
    StaysOnOrigin
      (({} : Run).client.applyDefaults
        (requestTo (secureUrl (ascii "a") 8443))) (ascii "/b")
      (({} : Run).executeHop relativeHop
        (requestTo (secureUrl (ascii "a") 8443)) 10).2 :=
  (executeHop_staysOnOrigin_iff
    (show parseUrl (ascii "https://a:8443/") =
      .ok (secureUrl (ascii "a") 8443) by decide)
    (requestTo_builtFrom _) (Option.some_get answer_8443_isSome).symm
    (by decide +kernel) (by decide +kernel) (by decide)).mpr (by decide)

/-- Port 80 of `https` is not written and is read back as 443, and an IPv6
literal without its brackets is not read back at all. -/
theorem Run.not_staysOnOrigin_elided :
    parseUrl (ascii "https://a:80/") = .ok (secureUrl (ascii "a") 80) ∧
      ¬ StaysOnOrigin
        (({} : Run).client.applyDefaults
          (requestTo (secureUrl (ascii "a") 80))) (ascii "/b")
        (({} : Run).executeHop relativeHop
          (requestTo (secureUrl (ascii "a") 80)) 10).2 ∧
    parseUrl (ascii "https://[::1]/") = .ok (secureUrl (ascii "::1") 443) ∧
      ¬ StaysOnOrigin
        (({} : Run).client.applyDefaults
          (requestTo (secureUrl (ascii "::1") 443))) (ascii "/b")
        (({} : Run).executeHop relativeHop
          (requestTo (secureUrl (ascii "::1") 443)) 10).2 :=
  ⟨by decide, by decide +kernel, by decide, by decide +kernel⟩

end VynxHttp
