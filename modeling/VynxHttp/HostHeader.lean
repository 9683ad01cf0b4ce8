import VynxHttp.UrlAuthority

/-!
# The Host header

`apply_defaults` writes the host of a request without the brackets of an IPv6
literal, and leaves both default ports out whatever the scheme is.
-/

namespace VynxHttp

/-- The host is written from the request unless the caller has given one. -/
theorem HttpClient.get_host_applyDefaults (client : HttpClient)
    (request : HttpRequest) :
    (client.applyDefaults request).headers.get (ascii "Host") =
      some ((request.headers.get (ascii "Host")).getD
        ((client.applyDefaults request).host ++
          portSuffix (client.applyDefaults request).port)) := by
  have hlength : ∀ (headers : HttpHeaders) (size : ℕ),
      (if 0 < size then
          headers.setDefault (ascii "Content-Length") (decimal size)
        else headers).get (ascii "Host") = headers.get (ascii "Host") := by
    intro headers size
    split
    next => exact headers.get_setDefault_of_ne (by decide) _
    next => rfl
  have hheaders : (client.fillTarget request).headers = request.headers := rfl
  unfold applyDefaults defaultHeaders
  rw [← hheaders]
  generalize client.fillTarget request = request
  simp only
  rw [HttpHeaders.get_setCookie_of_ne _ (by decide),
    HttpHeaders.get_setDefault_of_ne _ (by decide),
    HttpHeaders.get_setDefault_of_ne _ (by decide), hlength,
    HttpHeaders.get_setDefault_of_ne _ (by decide),
    HttpHeaders.get_setDefault]

/-- The `Host` header of a request, behind its scheme, is read back as its
host and port. -/
def HttpRequest.NamesAuthority (request : HttpRequest) : Prop :=
  ∃ value parsed, request.headers.get (ascii "Host") = some value ∧
    parseUrl (request.scheme ++ ascii "://" ++ value ++ [slash]) =
      .ok parsed ∧
    parsed.host = request.host ∧ parsed.port = request.port

/-- The scheme and the path of an origin which is followed by a path are read
back. -/
theorem parseUrl_origin_parts {scheme hostPort : Bytes} {found : ParsedUrl}
    (hscheme : scheme = http ∨ scheme = https) (hslash : slash ∉ hostPort)
    (hfound : parseUrl (scheme ++ ascii "://" ++ hostPort ++ [slash]) =
      .ok found) :
    found.scheme = scheme ∧ found.path = [slash] := by
  rw [List.append_assoc _ hostPort, parseUrl_scheme hscheme,
    ParsedUrl.parseAuthority_eq_ok_iff,
    ParsedUrl.splitPath_append hslash (List.prefix_refl _)] at hfound
  obtain ⟨_, host, port, _, _, rfl⟩ := hfound
  exact ⟨rfl, rfl⟩

theorem namesAuthority_iff_rendered {url : Bytes} {parsed : ParsedUrl}
    (hparse : parseUrl url = .ok parsed) {request : HttpRequest}
    (hbuilt : request.BuiltFrom parsed)
    (hvalue : request.headers.get (ascii "Host") =
      some (request.host ++ portSuffix request.port)) :
    request.NamesAuthority ↔ Rendered parsed := by
  obtain ⟨hscheme, _, _⟩ := parseUrl_ok hparse
  have horigin : originText parsed.scheme request ++ [slash] =
      request.scheme ++ ascii "://" ++
        (request.host ++ portSuffix request.port) ++ [slash] := by
    simp only [originText, hbuilt.scheme_eq, List.append_assoc]
  rw [← parseUrl_rendered_iff hparse hbuilt (List.prefix_refl [slash])]
  constructor
  · rintro ⟨value, found, hget, hfound, hhost, hport⟩
    obtain rfl : request.host ++ portSuffix request.port = value :=
      Option.some.inj (hvalue.symm.trans hget)
    have hslash : slash ∉ parsed.host ++ portSuffix parsed.port := by
      rw [List.mem_append, not_or]
      exact ⟨(parseUrl_hostText hparse).slash_notMem,
        notMem_portSuffix (by decide) (by decide) parsed.port⟩
    rw [hbuilt.host_eq] at hhost
    rw [hbuilt.port_eq] at hport
    have hread := hfound
    rw [hbuilt.scheme_eq, hbuilt.host_eq, hbuilt.port_eq] at hread
    obtain ⟨hfoundScheme, hpath⟩ :=
      parseUrl_origin_parts hscheme hslash hread
    rw [horigin, hfound]
    obtain ⟨scheme, host, port, path⟩ := found
    rw [Except.ok.injEq, ParsedUrl.mk.injEq]
    exact ⟨hfoundScheme, hhost, hport, hpath⟩
  · intro hread
    rw [horigin] at hread
    exact ⟨_, _, hvalue, hread, hbuilt.host_eq.symm, hbuilt.port_eq.symm⟩

theorem HttpRequest.headers_ofUrl {method : HttpMethod} {url : Bytes}
    {headers : HttpHeaders} {body : ByteBuffer} {request : HttpRequest}
    (hrequest : ofUrl method url headers body = .ok request) :
    request.headers = headers := by
  unfold ofUrl at hrequest
  cases hparse : parseUrl url with
  | error code => simp [hparse, Except.map] at hrequest
  | ok parsed =>
      simp only [hparse, Except.map, Except.ok.injEq] at hrequest
      rw [← hrequest]

/-- The `Host` header which is written for a URL names its authority exactly
when host and port are read back from their text. -/
theorem namesAuthority_applyDefaults_iff {method : HttpMethod}
    {url : Bytes} {headers : HttpHeaders} {body : ByteBuffer}
    {request : HttpRequest}
    (hrequest : HttpRequest.ofUrl method url headers body = .ok request)
    (hhost : headers.contains (ascii "Host") = false)
    (client : HttpClient) :
    (client.applyDefaults request).NamesAuthority ↔
      Rendered ⟨request.scheme, request.host, request.port, request.uri⟩ := by
  obtain ⟨parsed, hparse, hbuilt⟩ := HttpRequest.builtFrom_ofUrl hrequest
  have hrendered : Rendered
      ⟨request.scheme, request.host, request.port, request.uri⟩ ↔
        Rendered parsed := by
    rw [hbuilt.scheme_eq, hbuilt.host_eq, hbuilt.port_eq]
    exact ⟨fun h => ⟨h.1, h.2, h.3⟩, fun h => ⟨h.1, h.2, h.3⟩⟩
  rw [hrendered]
  refine namesAuthority_iff_rendered hparse
    (hbuilt.applyDefaults hparse client) ?_
  have hnone : request.headers.get (ascii "Host") = none := by
    rw [HttpRequest.headers_ofUrl hrequest]
    rw [HttpHeaders.contains_eq_isSome_get] at hhost
    simpa using hhost
  rw [client.get_host_applyDefaults, hnone]
  rfl

theorem namesAuthority_applyDefaults_8080 :
    HttpRequest.ofUrl .get (ascii "http://a:8080/b") .empty .empty =
        .ok { uri := ascii "/b", host := ascii "a", scheme := http,
              port := 8080 } ∧
      ((({} : HttpClient).applyDefaults
          { uri := ascii "/b", host := ascii "a", scheme := http,
            port := 8080 }).NamesAuthority ↔
        Rendered ⟨http, ascii "a", 8080, ascii "/b"⟩) := by
  have hrequest : HttpRequest.ofUrl .get (ascii "http://a:8080/b") .empty
      .empty = .ok { uri := ascii "/b", host := ascii "a", scheme := http,
                     port := 8080 } := by
    have hparse : parseUrl (ascii "http://a:8080/b") =
        .ok ⟨http, ascii "a", 8080, ascii "/b"⟩ := by
      decide +kernel
    rw [HttpRequest.ofUrl, hparse]
    rfl
  exact ⟨hrequest, namesAuthority_applyDefaults_iff hrequest (by decide) {}⟩

/-- The port 80 of an `https` request is left out, and is read back as 443. -/
theorem not_namesAuthority_https_80 :
    HttpRequest.ofUrl .get (ascii "https://a:80/") .empty .empty =
        .ok { uri := [slash], host := ascii "a", scheme := https,
              port := 80 } ∧
      ¬(({} : HttpClient).applyDefaults
          { uri := [slash], host := ascii "a", scheme := https,
            port := 80 }).NamesAuthority := by
  have haccept : parseUrl (ascii "https://a:80/") =
      .ok ⟨https, ascii "a", 80, [slash]⟩ := by
    decide +kernel
  refine ⟨by rw [HttpRequest.ofUrl, haccept]; rfl, ?_⟩
  rintro ⟨value, parsed, hget, hparse, _, hport⟩
  have hvalue : value = ascii "a" :=
    Option.some.inj (hget.symm.trans (by decide +kernel))
  subst hvalue
  have hread : parseUrl (https ++ ascii "://" ++ ascii "a" ++ [slash]) =
      .ok ⟨https, ascii "a", 443, [slash]⟩ := by
    decide +kernel
  obtain rfl : ParsedUrl.mk https (ascii "a") 443 [slash] = parsed :=
    Except.ok.inj (hread.symm.trans hparse)
  exact absurd hport (by decide)

end VynxHttp
