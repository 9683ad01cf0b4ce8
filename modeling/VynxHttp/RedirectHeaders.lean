import VynxHttp.HeaderLookup
import VynxHttp.RelativeRedirect
import VynxHttp.SecureCookies

/-!
# The headers of redirected requests

`do_execute` copies the header fields of a redirected request in a loop, whose
inner loops compare the name of a field with the names to be left out and end
at the first which is found.  The copy is the filter `redirectHeaders`, so that
the next activation starts without cookies and writes its own.
-/

namespace VynxHttp

/-! ## The loops -/

/-- The innermost loop, over two names of the same size: `match` at its end. -/
def compareNames : Bytes → Bytes → Bool
  | b :: fieldName, c :: skipName =>
      if toLower b ≠ toLower c then false else compareNames fieldName skipName
  | _, _ => true

/-- The loop over the names to be left out: `skip` at its end. -/
def skipLoop (fieldName : Bytes) : List Bytes → Bool → Bool
  | [], skip => skip
  | skipName :: names, skip =>
      if fieldName.length = skipName.length ∧
          compareNames fieldName skipName = true then true
      else skipLoop fieldName names skip

def reappliedNames : List Bytes :=
  [ascii "Host", ascii "Content-Length", ascii "Cookie"]

def credentialNames : List Bytes :=
  [ascii "Authorization", ascii "Proxy-Authorization"]

def skipField (isCrossOrigin : Bool) (fieldName : Bytes) : Bool :=
  let skip := skipLoop fieldName reappliedNames false
  if isCrossOrigin then skipLoop fieldName credentialNames skip else skip

/-- The loop over the fields, from the headers copied so far. -/
def copyFields (isCrossOrigin : Bool) :
    List HeaderField → HttpHeaders → HttpHeaders
  | [], headers => headers
  | field :: fields, headers =>
      copyFields isCrossOrigin fields
        (if skipField isCrossOrigin field.name then headers
        else headers.add field.name field.value)

theorem compareNames_iff {fieldName skipName : Bytes}
    (hlength : fieldName.length = skipName.length) :
    compareNames fieldName skipName = true ↔
      fieldName.map toLower = skipName.map toLower := by
  induction fieldName generalizing skipName with
  | nil =>
      obtain rfl := List.length_eq_zero_iff.mp hlength.symm
      exact iff_of_true rfl rfl
  | cons b fieldName ih =>
      cases skipName with
      | nil => cases hlength
      | cons c skipName =>
          rw [compareNames, List.map_cons, List.map_cons, List.cons.injEq,
            ← ih (Nat.succ.inj hlength)]
          by_cases hsame : toLower b = toLower c
          · simp [hsame]
          · simp [hsame]

theorem skipLoop_eq (fieldName : Bytes) (names : List Bytes) (skip : Bool) :
    skipLoop fieldName names skip =
      (skip || names.any fun name => equalsIgnoreCase fieldName name) := by
  induction names with
  | nil => simp [skipLoop]
  | cons skipName names ih =>
      have hsame : (fieldName.length = skipName.length ∧
          compareNames fieldName skipName = true) ↔
          equalsIgnoreCase fieldName skipName = true := by
        rw [equalsIgnoreCase_iff]
        constructor
        · rintro ⟨hlength, hcompare⟩
          exact (compareNames_iff hlength).mp hcompare
        · intro hmap
          have hlength : fieldName.length = skipName.length := by
            simpa using congrArg List.length hmap
          exact ⟨hlength, (compareNames_iff hlength).mpr hmap⟩
      rw [skipLoop, ih]
      by_cases hname : equalsIgnoreCase fieldName skipName = true
      · rw [if_pos (hsame.mpr hname)]
        simp [hname]
      · rw [if_neg (mt hsame.mp hname)]
        simp [hname]

theorem skipField_eq (isCrossOrigin : Bool) (field : HeaderField) :
    skipField isCrossOrigin field.name =
      (reapplied field || isCrossOrigin && isCredential field) := by
  unfold skipField
  cases isCrossOrigin <;>
    simp [skipLoop_eq, reapplied, isCredential, reappliedNames,
      credentialNames, HeaderField.hasName, Bool.or_assoc]

theorem fields_copyFields (isCrossOrigin : Bool)
    (fields : List HeaderField) (headers : HttpHeaders) :
    (copyFields isCrossOrigin fields headers).fields =
      headers.fields ++ fields.filter fun field =>
        !(reapplied field || isCrossOrigin && isCredential field) := by
  induction fields generalizing headers with
  | nil => simp [copyFields]
  | cons field fields ih =>
      rw [copyFields, ih, skipField_eq, List.filter_cons]
      cases reapplied field || isCrossOrigin && isCredential field <;> simp

/-- The loops copy the fields which `redirectHeaders` keeps. -/
theorem copyFields_eq_redirectHeaders (request : HttpRequest)
    (isCrossOrigin : Bool) :
    copyFields isCrossOrigin request.headers.fields .empty =
      redirectHeaders request isCrossOrigin := by
  have hfields :=
    fields_copyFields isCrossOrigin request.headers.fields .empty
  rw [HttpHeaders.fields_empty, List.nil_append] at hfields
  exact congrArg HttpHeaders.mk hfields

/-! ## Followed redirects -/

/-- The header list of a follow-up request: the loops have copied it, and it is
the list of the redirected request without the fields of some names. -/
structure Rewritten (sent next : HttpRequest) : Prop where
  copied : next.headers = copyFields (next.host != sent.host)
    sent.headers.fields .empty
  fields_eq : next.headers.fields = sent.headers.fields.filter fun field =>
    !((reappliedNames.any fun name => equalsIgnoreCase field.name name) ||
      decide (next.host ≠ sent.host) &&
        credentialNames.any fun name => equalsIgnoreCase field.name name)

/-- What is written from a jar for a host and path. -/
def cookieFields (jar : CookieJar) (host uri : Bytes) : List HeaderField :=
  if jar.buildCookieHeader host uri = [] then []
  else [⟨ascii "Cookie", jar.buildCookieHeader host uri⟩]

theorem rewritten_redirectRequest (sent : HttpRequest) (status : UInt16)
    (target : ParsedUrl) :
    Rewritten sent (redirectRequest sent status target) where
  copied :=
    (copyFields_eq_redirectHeaders sent (target.host != sent.host)).symm
  fields_eq := by
    have hcross : decide (target.host ≠ sent.host) =
        (target.host != sent.host) := by
      simp [bne, Bool.beq_eq_decide_eq]
    simp [redirectRequest, redirectHeaders, reapplied, isCredential,
      reappliedNames, credentialNames, HeaderField.hasName, Bool.or_assoc,
      ← hcross]

theorem Rewritten.cookies_eq_nil {sent next : HttpRequest}
    (hrewritten : Rewritten sent next) :
    next.headers.fields.filter (·.hasName (ascii "Cookie")) = [] := by
  rw [hrewritten.fields_eq, List.filter_filter, List.filter_eq_nil_iff]
  intro field _ hname
  rw [Bool.and_eq_true, Bool.not_eq_true', Bool.or_eq_false_iff] at hname
  obtain ⟨hcookie, hkept, _⟩ := hname
  have hskipped := List.any_eq_false.mp hkept (ascii "Cookie")
    (by simp [reappliedNames])
  exact hskipped hcookie

theorem HttpClient.cookieFields_applyDefaults (client : HttpClient)
    {request : HttpRequest}
    (hnone : request.headers.fields.filter (·.hasName (ascii "Cookie")) =
      []) :
    (client.applyDefaults request).headers.fields.filter
        (·.hasName (ascii "Cookie")) =
      cookieFields client.cookies (client.fillTarget request).host
        request.uri := by
  obtain ⟨headers, hfields, heq⟩ :=
    client.defaultHeaders_cookie (client.fillTarget request)
  have habsent : headers.fields.filter (·.hasName (ascii "Cookie")) = [] :=
    hfields.trans hnone
  have huri : (client.fillTarget request).uri = request.uri := rfl
  unfold applyDefaults cookieFields
  simp only [heq, huri]
  split
  next => exact habsent
  next =>
    rw [HttpHeaders.set, HttpHeaders.setFields_of_absent habsent,
      List.filter_append, habsent]
    simp [HeaderField.hasName]

/-- The headers of a followed redirect are the ones of the request before
without those which are written again and, for another host, without the
credentials; what is sent next has the cookies which are written for it. -/
theorem Run.executeHop_rewritten {run run' : Run} {hop : HopOutcomes}
    {request next : HttpRequest} {remaining : ℕ}
    (hstep : run.executeHop hop request remaining = (run', .follow next)) :
    Rewritten (run.client.applyDefaults request) next ∧
      (run'.client.applyDefaults next).headers.fields.filter
          (·.hasName (ascii "Cookie")) =
        cookieFields run'.client.cookies next.host next.uri ∧
      ∀ hop' remaining' conn viaTls scheme sent bytes,
        Event.requested conn viaTls scheme sent bytes ∈
          (Activation.mk run' hop' next remaining').added →
        sent.headers.fields.filter (·.hasName (ascii "Cookie")) =
          cookieFields run'.client.cookies next.host next.uri := by
  obtain ⟨url, target, status, _, hparse, rfl, _, _⟩ :=
    executeHop_follow hstep
  have hrewritten :=
    rewritten_redirectRequest (run.client.applyDefaults request) status target
  generalize hnext : redirectRequest (run.client.applyDefaults request)
    status target = next at hrewritten
  have hhost : (run'.client.fillTarget next).host = next.host := by
    have hne : next.host ≠ [] := by
      rw [← hnext]
      exact (parseUrl_ok hparse).2.1
    simp [HttpClient.fillTarget, hne]
  have hcookies :=
    run'.client.cookieFields_applyDefaults hrewritten.cookies_eq_nil
  rw [hhost] at hcookies
  refine ⟨hrewritten, hcookies, ?_⟩
  intro hop' remaining' conn viaTls scheme sent bytes hmem
  obtain ⟨_, hsent⟩ := Activation.requested_of_mem_added _ hmem
  rw [hsent]
  exact hcookies

/-- The answers to a request which is redirected to another host. -/
def crossingHop : HopOutcomes where
  sends := [.accepted 4096]
  recvs := [.received (ascii ("HTTP/1.1 302 Found\r\n" ++
    "Location: http://b/\r\nContent-Length: 0\r\n\r\n"))]

/-- Two fields of one name, with credentials between them. -/
def mixedRequest : HttpRequest where
  uri := [slash]
  host := ascii "a"
  headers := ⟨[⟨ascii "X", ascii "1"⟩, ⟨ascii "aUTHORIZATION", ascii "2"⟩,
    ⟨ascii "x", ascii "3"⟩]⟩

theorem Run.executeHop_rewritten_mixed :
    ∃ run' next,
      ({} : Run).executeHop crossingHop mixedRequest 10 =
          (run', .follow next) ∧
        Rewritten (({} : Run).client.applyDefaults mixedRequest) next := by
  have hfollows : (({} : Run).executeHop crossingHop mixedRequest
      10).2.followUp.isSome = true := by
    decide +kernel
  cases hstep : ({} : Run).executeHop crossingHop mixedRequest 10 with
  | mk run' result =>
      rw [hstep] at hfollows
      cases result with
      | blocked => cases hfollows
      | returned result => cases hfollows
      | follow next => exact ⟨run', next, rfl, (executeHop_rewritten hstep).1⟩

end VynxHttp
