import VynxHttp.CookieSelection
import VynxHttp.UrlAuthority

/-!
# Cookies and queries

`apply_defaults` selects the cookies by the whole target of the request, so
that a query changes which cookie paths it is taken to be in.
-/

namespace VynxHttp

/-- The cookie is sent to the path with the query exactly when it is sent to
the path alone. -/
structure IgnoresQuery (path query : Bytes) (cookie : CookieEntry) : Prop where
  not_whole : cookie.path = path → path = [] ∨ path.getLast? = some slash
  not_inside : path.length < cookie.path.length →
    ¬PathMatch (path ++ questionMark :: query) cookie.path

namespace CookieJar

theorem pathMatches_append {cookie : CookieEntry} {path : Bytes}
    (hlt : cookie.path.length < path.length) (rest : Bytes) :
    pathMatches cookie (path ++ rest) = pathMatches cookie path := by
  have hlong : ¬(path ++ rest).length ≤ cookie.path.length := by
    rw [List.length_append]
    omega
  unfold pathMatches
  rw [List.take_append_of_le_length (by omega),
    List.getElem?_append_left hlt, decide_eq_false hlong,
    decide_eq_false (show ¬path.length ≤ cookie.path.length by omega)]

theorem pathMatches_of_take_ne {cookie : CookieEntry} {path : Bytes}
    (hne : cookie.path ≠ [])
    (htake : path.take cookie.path.length ≠ cookie.path) :
    pathMatches cookie path = false := by
  rw [pathMatches, if_neg hne, beq_eq_false_iff_ne.mpr htake,
    Bool.false_and]

/-- With a query, only a slash at the end of the path itself counts. -/
theorem pathMatches_whole_iff {cookie : CookieEntry} {path : Bytes}
    (heq : cookie.path = path) (query : Bytes) :
    pathMatches cookie (path ++ questionMark :: query) = true ↔
      path = [] ∨ path.getLast? = some slash := by
  have hnext : (path ++ questionMark :: query)[path.length]? =
      some questionMark := by
    rw [List.getElem?_append_right (Nat.le_refl _), Nat.sub_self]
    rfl
  unfold pathMatches
  rw [heq, List.take_left, hnext]
  simp [questionMark, slash]

theorem pathMatches_query_iff (path query : Bytes) (cookie : CookieEntry) :
    pathMatches cookie (path ++ questionMark :: query) =
        pathMatches cookie path ↔
      IgnoresQuery path query cookie := by
  by_cases heq : cookie.path = path
  · -- The byte behind the cookie path is now the `?`.
    have hpath : pathMatches cookie path = true :=
      pathMatches_iff.mpr (.inr (.inl heq.symm))
    rw [hpath, pathMatches_whole_iff heq]
    refine ⟨fun h => ⟨fun _ => h, fun hlong => ?_⟩, fun h => h.1 heq⟩
    rw [heq] at hlong
    exact absurd hlong (lt_irrefl _)
  rcases lt_trichotomy cookie.path.length path.length with
    hshort | hsame | hlong
  · refine iff_of_true (pathMatches_append hshort _) ⟨?_, ?_⟩
    · exact fun h => absurd h heq
    · intro hlong
      omega
  · have hne : cookie.path ≠ [] := by
      intro hnil
      rw [hnil, List.length_nil] at hsame
      exact heq (hnil.trans (List.length_eq_zero_iff.mp hsame.symm).symm)
    refine iff_of_true ?_ ⟨fun h => absurd h heq, fun hlong => ?_⟩
    · have htake : (path ++ questionMark :: query).take
          cookie.path.length ≠ cookie.path := by
        rw [hsame, List.take_left]
        exact Ne.symm heq
      have hwhole : path.take cookie.path.length ≠ cookie.path := by
        rw [hsame, List.take_length]
        exact Ne.symm heq
      rw [pathMatches_of_take_ne hne htake, pathMatches_of_take_ne hne hwhole]
    · omega
  · have hne : cookie.path ≠ [] := by
      intro hnil
      simp [hnil] at hlong
    have htake : path.take cookie.path.length ≠ cookie.path := by
      rw [List.take_of_length_le (by omega)]
      exact Ne.symm heq
    have hpath : pathMatches cookie path = false :=
      pathMatches_of_take_ne hne htake
    rw [hpath, Bool.eq_false_iff, ne_eq, pathMatches_iff]
    simp only [hne, false_or]
    exact ⟨fun hnone => ⟨fun h => absurd h heq, fun _ => hnone⟩,
      fun hignores => hignores.not_inside hlong⟩

end CookieJar

/-- The `Cookie` header of a request with a query is the one of the request
without it, whichever cookies of the jar are there and whichever headers the
caller has given. -/
def HttpClient.QueryIgnored (client : HttpClient) (request : HttpRequest)
    (path query : Bytes) : Prop :=
  ∀ cookies, cookies.Sublist client.cookies.cookies → ∀ headers,
    ({ client with cookies := ⟨cookies⟩ }.applyDefaults
        { request with
          uri := path ++ questionMark :: query
          headers }).headers.get (ascii "Cookie") =
      ({ client with cookies := ⟨cookies⟩ }.applyDefaults
        { request with uri := path, headers }).headers.get (ascii "Cookie")

theorem HttpClient.selected_query_eq {client : HttpClient}
    {request : HttpRequest} {path query : Bytes}
    (hignores : ∀ cookie ∈ client.cookies.cookies,
      CookieJar.domainMatches cookie (client.fillTarget request).host = true →
        IgnoresQuery path query cookie)
    {cookies : List CookieEntry}
    (hcookies : cookies.Sublist client.cookies.cookies) :
    CookieJar.selected ⟨cookies⟩ (client.fillTarget request).host
        (path ++ questionMark :: query) =
      CookieJar.selected ⟨cookies⟩ (client.fillTarget request).host path := by
  apply List.filter_congr
  intro cookie hmem
  cases hdomain :
      CookieJar.domainMatches cookie (client.fillTarget request).host with
  | false => rfl
  | true =>
      have hcookie := hignores cookie (hcookies.subset hmem) hdomain
      rw [(CookieJar.pathMatches_query_iff path query cookie).mpr hcookie]

theorem HttpClient.get_cookie_target (client : HttpClient)
    (request : HttpRequest) (cookies : List CookieEntry) (uri : Bytes)
    (headers : HttpHeaders) :
    ({ client with cookies := ⟨cookies⟩ }.applyDefaults
        { request with uri, headers }).headers.get (ascii "Cookie") =
      if CookieJar.selected ⟨cookies⟩ (client.fillTarget request).host uri =
          [] then
        headers.get (ascii "Cookie")
      else some (cookieText (CookieJar.selected ⟨cookies⟩
        (client.fillTarget request).host uri)) :=
  get_cookie_applyDefaults _ _

theorem CookieJar.selected_singleton {cookie : CookieEntry} {host : Bytes}
    (hdomain : domainMatches cookie host = true) (uri : Bytes) :
    selected ⟨[cookie]⟩ host uri =
      if pathMatches cookie uri = true then [cookie] else [] := by
  rw [selected, List.filter_singleton, hdomain, Bool.true_and]
  cases pathMatches cookie uri <;> rfl

/-- Queries make no difference exactly when no cookie of the host has the path
itself, without a slash at its end, or a path which goes on into the query. -/
theorem HttpClient.queryIgnored_iff (client : HttpClient)
    (request : HttpRequest) (path query : Bytes) :
    client.QueryIgnored request path query ↔
      ∀ cookie ∈ client.cookies.cookies,
        CookieJar.domainMatches cookie (client.fillTarget request).host =
            true →
          IgnoresQuery path query cookie := by
  constructor
  · -- the cookie on its own is sent with one target only
    intro hquery cookie hmem hdomain
    have hone := hquery [cookie] (List.singleton_sublist.mpr hmem) .empty
    rw [get_cookie_target, get_cookie_target,
      CookieJar.selected_singleton hdomain,
      CookieJar.selected_singleton hdomain] at hone
    rw [← CookieJar.pathMatches_query_iff]
    have hempty : HttpHeaders.empty.get (ascii "Cookie") = none := rfl
    cases hwith :
        CookieJar.pathMatches cookie (path ++ questionMark :: query) <;>
      cases hwithout : CookieJar.pathMatches cookie path <;>
        simp [hwith, hwithout, hempty] at hone ⊢
  · intro hignores cookies hcookies headers
    rw [get_cookie_target, get_cookie_target,
      selected_query_eq hignores hcookies]

def wholePathCookie : CookieEntry where
  name := ascii "a"
  value := ascii "1"
  path := ascii "/foo"

/-- A cookie for `/foo` is sent to `/foo`, and not to `/foo?x`. -/
theorem HttpClient.cookie_lost_by_query :
    (HttpClient.applyDefaults { cookies := ⟨[wholePathCookie]⟩ }
        { host := ascii "h", uri := ascii "/foo" }).headers.get
          (ascii "Cookie") = some (ascii "a=1") ∧
      (HttpClient.applyDefaults { cookies := ⟨[wholePathCookie]⟩ }
        { host := ascii "h", uri := ascii "/foo?x" }).headers.get
          (ascii "Cookie") = none := by
  decide +kernel

end VynxHttp
