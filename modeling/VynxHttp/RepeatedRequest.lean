import Mathlib.Data.List.Chain
import VynxHttp.RedirectChain

/-!
# Requests which are repeated

After a redirect with status 307 or 308 the request is to be made again.  The
follow-up keeps the method, but its body is always a new buffer, and the
`Content-Length` which belonged to the old one is left out.
-/

namespace VynxHttp

/-! ## The length which a request gives -/

/-- The length is written from the body unless the caller has given one. -/
theorem HttpClient.get_contentLength_applyDefaults (client : HttpClient)
    (request : HttpRequest) :
    (client.applyDefaults request).headers.get (ascii "Content-Length") =
      if 0 < request.body.size then
        some ((request.headers.get (ascii "Content-Length")).getD
          (decimal request.body.size))
      else request.headers.get (ascii "Content-Length") := by
  have hdefaults : ∀ (headers : HttpHeaders) (name value : Bytes),
      name ∈ [ascii "Host", ascii "Connection", ascii "User-Agent",
        ascii "Accept"] →
      (headers.setDefault name value).get (ascii "Content-Length") =
        headers.get (ascii "Content-Length") := by
    intro headers name value hname
    apply headers.get_setDefault_of_ne
    revert name
    decide
  have hheaders : (client.fillTarget request).headers = request.headers := rfl
  have hbody : (client.fillTarget request).body = request.body := rfl
  unfold applyDefaults defaultHeaders
  rw [← hheaders, ← hbody]
  generalize client.fillTarget request = request
  simp only
  rw [HttpHeaders.get_setCookie_of_ne _ (by decide),
    hdefaults _ (ascii "Accept") _ (by simp),
    hdefaults _ (ascii "User-Agent") _ (by simp)]
  split
  next =>
    rw [HttpHeaders.get_setDefault,
      hdefaults _ (ascii "Connection") _ (by simp),
      hdefaults _ (ascii "Host") _ (by simp)]
  next =>
    rw [hdefaults _ (ascii "Connection") _ (by simp),
      hdefaults _ (ascii "Host") _ (by simp)]

/-- The caller has left the length to the client, or has given the right
one. -/
def HttpRequest.OwnLength (request : HttpRequest) : Prop :=
  request.headers.get (ascii "Content-Length") = none ∨
    request.headers.contentLength = some request.body.size

instance (request : HttpRequest) : Decidable request.OwnLength :=
  inferInstanceAs (Decidable (_ ∨ _))

theorem HttpClient.contentLength_applyDefaults (client : HttpClient)
    {request : HttpRequest} (hbody : 0 < request.body.size)
    (hsize : request.body.size < 2 ^ 64) :
    (client.applyDefaults request).headers.contentLength =
        some request.body.size ↔
      request.OwnLength := by
  have hget := client.get_contentLength_applyDefaults request
  rw [if_pos hbody] at hget
  rw [HttpHeaders.contentLength, hget, HttpRequest.OwnLength,
    HttpHeaders.contentLength]
  have hread := fromChars_decimal hsize
  cases request.headers.get (ascii "Content-Length") with
  | none => simp only [Option.getD_none, hread, Option.map_some, true_or]
  | some value => simp

/-! ## The exchanges of a call -/

/-- The second request is the follow-up of a redirect of the first. -/
def Exchange.FollowsUp (first second : Exchange) : Prop :=
  ∃ (response : HttpResponse) (client : HttpClient) (target : ParsedUrl),
    first.response = some response ∧
      second.request = client.applyDefaults
        (redirectRequest first.request response.statusCode target)

namespace Run

def callExchanges (run : Run) (request : HttpRequest)
    (hops : List HopOutcomes) : List Exchange :=
  let trace := (run.execute request hops).1.trace
  (callRecord (trace.take (trace.length - run.trace.length))).exchanges

theorem doExecute_followsUp (hops : List HopOutcomes) (run : Run)
    (request : HttpRequest) (remaining : ℕ) :
    ∃ exchanges,
      run.Recorded (doExecute hops run request remaining).1 exchanges ∧
      (∀ exchange ∈ exchanges.head?,
        exchange.request = run.client.applyDefaults request) ∧
      exchanges.IsChain Exchange.FollowsUp := by
  induction hops generalizing run request remaining with
  | nil => exact ⟨[], (Opens.refl run).recorded, by simp, .nil⟩
  | cons hop hops ih =>
      obtain ⟨exchanges, hrecorded, hrecord⟩ :=
        executeHop_recorded (.refl run.client) hop request remaining
      have hends : (∀ exchange ∈ exchanges.head?,
          exchange.request = run.client.applyDefaults request) ∧
          exchanges.IsChain Exchange.FollowsUp := by
        rcases hrecord.exchange_cases with
          rfl | ⟨exchange, rfl, hrequest, _⟩
        · exact ⟨by simp, .nil⟩
        · exact ⟨by simpa using hrequest, .singleton _⟩
      rw [doExecute]
      split
      next run' hstep =>
        rw [hstep] at hrecorded
        exact ⟨exchanges, hrecorded, hends⟩
      next run' result hstep =>
        rw [hstep] at hrecorded
        exact ⟨exchanges, hrecorded, hends⟩
      next run' next hstep =>
        rw [hstep] at hrecorded hrecord
        obtain ⟨exchange, response, location, url, parsed, rfl, hredirected,
          _, _, rfl⟩ := hrecord.follow
        obtain ⟨later, hlater, hnext, hchain⟩ := ih run'
          (redirectRequest (run.client.applyDefaults request)
            response.statusCode parsed) (remaining - 1)
        have hrequest : exchange.request =
            run.client.applyDefaults request := by
          simpa using hends.1
        refine ⟨exchange :: later, hrecorded.trans hlater,
          by simpa using hrequest, ?_⟩
        refine List.isChain_cons.mpr ⟨fun second hsecond => ?_, hchain⟩
        refine ⟨response, run'.client, parsed, hredirected.response_eq, ?_⟩
        rw [hrequest]
        exact hnext second hsecond

theorem callExchanges_followsUp (run : Run) (request : HttpRequest)
    (hops : List HopOutcomes) :
    (∀ exchange ∈ (run.callExchanges request hops).head?,
      exchange.request = run.client.applyDefaults request) ∧
      (run.callExchanges request hops).IsChain Exchange.FollowsUp := by
  obtain ⟨exchanges, ⟨_, added, htrace, hrecords⟩, hchain⟩ :=
    doExecute_followsUp hops run request run.client.config.maxRedirects
  have hexchanges : run.callExchanges request hops = exchanges := by
    rw [callExchanges, execute, htrace, List.length_append,
      Nat.add_sub_cancel, List.take_left, hrecords.callRecord_eq]
  rw [hexchanges]
  exact hchain

end Run

/-! ## Repeated requests -/

/-- The redirects which are followed keep the method. -/
def KeepMethod (exchanges : List Exchange) : Prop :=
  ∀ exchange ∈ exchanges.dropLast, ∀ response ∈ exchange.response,
    response.statusCode = 307 ∨ response.statusCode = 308

/-- What is sent has the method and the body of the request, and the length of
a body which there is. -/
structure Repeats (request sent : HttpRequest) : Prop where
  method_eq : sent.method = request.method
  body_eq : sent.body.unread = request.body.unread
  length_eq : sent.body.unread ≠ [] →
    sent.headers.contentLength = some sent.body.size

theorem Exchange.FollowsUp.request_eq {first second : Exchange}
    (hfollows : first.FollowsUp second)
    (hstatus : ∀ response ∈ first.response,
      response.statusCode = 307 ∨ response.statusCode = 308) :
    second.request.method = first.request.method ∧
      second.request.body.unread = [] := by
  obtain ⟨response, client, target, hresponse, hrequest⟩ := hfollows
  have hkeeps := hstatus response hresponse
  rw [hrequest]
  exact ⟨if_pos hkeeps, ByteBuffer.unread_empty⟩

theorem followUps_unread {first : Exchange} {later : List Exchange}
    (hchain : (first :: later).IsChain Exchange.FollowsUp)
    (hstatus : KeepMethod (first :: later)) :
    ∀ exchange ∈ later, exchange.request.method = first.request.method ∧
      exchange.request.body.unread = [] := by
  induction later generalizing first with
  | nil => simp
  | cons second later ih =>
      obtain ⟨hfollows, hrest⟩ := List.isChain_cons_cons.mp hchain
      have hsecond := hfollows.request_eq
        (hstatus first (by simp [List.dropLast]))
      have hlater := ih hrest fun exchange hmem =>
        hstatus exchange (List.mem_cons_of_mem _ hmem)
      rintro exchange (_ | ⟨_, hmem⟩)
      · exact hsecond
      · obtain ⟨hmethod, hbody⟩ := hlater exchange hmem
        exact ⟨hmethod.trans hsecond.1, hbody⟩

theorem repeats_applyDefaults_iff (client : HttpClient)
    {request : HttpRequest} (hsize : request.body.size < 2 ^ 64) :
    Repeats request (client.applyDefaults request) ↔
      request.body.unread = [] ∨ request.OwnLength := by
  have hbody : (client.applyDefaults request).body = request.body := rfl
  by_cases hempty : request.body.unread = []
  · have hrepeats : Repeats request (client.applyDefaults request) :=
      ⟨rfl, rfl, fun hne => absurd hempty hne⟩
    exact iff_of_true hrepeats (.inl hempty)
  · have hpositive : 0 < request.body.size := by
      rw [← ByteBuffer.length_unread]
      exact List.length_pos_iff.mpr hempty
    rw [or_iff_right hempty,
      ← client.contentLength_applyDefaults hpositive hsize]
    constructor
    · intro hrepeats
      have hlength := hrepeats.length_eq hempty
      rwa [hbody] at hlength
    · exact fun hlength => ⟨rfl, rfl, fun _ => hlength⟩

/-- Whatever the run, the request and the answers: when the redirects which a
call follows have status 307 or 308, each request of the call repeats the first
one exactly when there is no body, or no follow-up and a right length. -/
theorem Run.callExchanges_repeat_iff (run : Run) (request : HttpRequest)
    (hops : List HopOutcomes) (hsize : request.body.size < 2 ^ 64)
    (hstatus : KeepMethod (run.callExchanges request hops)) :
    (∀ exchange ∈ run.callExchanges request hops,
        Repeats request exchange.request) ↔
      request.body.unread = [] ∨
        (run.callExchanges request hops).length ≤ 1 ∧
          (run.callExchanges request hops ≠ [] → request.OwnLength) := by
  obtain ⟨hhead, hchain⟩ := run.callExchanges_followsUp request hops
  generalize run.callExchanges request hops = exchanges at *
  cases exchanges with
  | nil => simp
  | cons first later =>
      have hfirst : first.request = run.client.applyDefaults request :=
        hhead first rfl
      have hlater := followUps_unread hchain hstatus
      have hiff := repeats_applyDefaults_iff run.client hsize
      rw [← hfirst] at hiff
      rw [List.forall_mem_cons, hiff]
      by_cases hempty : request.body.unread = []
      · refine iff_of_true ⟨.inl hempty, fun exchange hmem => ?_⟩
          (.inl hempty)
        obtain ⟨hmethod, hbody⟩ := hlater exchange hmem
        have hsame : first.request.method = request.method := by
          rw [hfirst]
          rfl
        exact ⟨hmethod.trans hsame, hbody.trans hempty.symm,
          fun hne => absurd hbody hne⟩
      · rw [or_iff_right hempty, or_iff_right hempty]
        constructor
        · rintro ⟨hlength, hrepeats⟩
          refine ⟨?_, fun _ => hlength⟩
          cases later with
          | nil => simp
          | cons second later =>
              -- The follow-up has lost the body.
              have hsecond := hlater second (List.mem_cons_self ..)
              have hbody :=
                (hrepeats second (List.mem_cons_self ..)).body_eq
              rw [hsecond.2] at hbody
              exact absurd hbody.symm hempty
        · rintro ⟨hshort, hlength⟩
          have hnone : later = [] := by
            rw [List.length_cons] at hshort
            exact List.length_eq_zero_iff.mp (by omega)
          rw [hnone]
          exact ⟨hlength (by simp), by simp⟩

instance (exchanges : List Exchange) : Decidable (KeepMethod exchanges) :=
  inferInstanceAs (Decidable (∀ exchange ∈ exchanges.dropLast,
    ∀ response ∈ exchange.response,
      response.statusCode = 307 ∨ response.statusCode = 308))

def emptyAnswer : HopOutcomes where
  sends := [.accepted 4096]
  recvs := [.received
    (ascii "HTTP/1.1 200 OK\r\nContent-Length: 0\r\n\r\n")]

/-- The answers to a request which is redirected with status 307, and to its
follow-up. -/
def repeatedAt (url : Bytes) : List HopOutcomes :=
  [{ sends := [.accepted 4096]
     recvs := [.received (ascii "HTTP/1.1 307 Temporary Redirect\r\n" ++
       ascii "Location: " ++ url ++
       ascii "\r\nContent-Length: 0\r\n\r\n")] },
    emptyAnswer]

def uploadRequest (body : Bytes) : HttpRequest where
  method := .post
  uri := [slash]
  host := ascii "a"
  scheme := http
  body := .ofBytes body

/-- Without a redirect the body is sent, and without a body a redirect loses
nothing. -/
theorem Run.callExchanges_repeat_iff_upload :
    (∃ exchange,
      ({} : Run).callExchanges (uploadRequest (ascii "x")) [emptyAnswer] =
          [exchange] ∧
        Repeats (uploadRequest (ascii "x")) exchange.request) ∧
    (({} : Run).callExchanges (uploadRequest [])
        (repeatedAt (ascii "http://a/b"))).length = 2 ∧
      ∀ exchange ∈ ({} : Run).callExchanges (uploadRequest [])
          (repeatedAt (ascii "http://a/b")),
        Repeats (uploadRequest []) exchange.request := by
  have hlength : (({} : Run).callExchanges (uploadRequest (ascii "x"))
      [emptyAnswer]).length = 1 := by decide +kernel
  have hupload := (Run.callExchanges_repeat_iff {} (uploadRequest (ascii "x"))
    [emptyAnswer] (by decide) (by decide +kernel)).mpr
    (.inr ⟨hlength.le, fun _ => .inl (by decide)⟩)
  obtain ⟨exchange, hone⟩ := List.length_eq_one_iff.mp hlength
  refine ⟨⟨exchange, hone, hupload exchange (by simp [hone])⟩,
    by decide +kernel, ?_⟩
  exact (Run.callExchanges_repeat_iff {} (uploadRequest [])
    (repeatedAt (ascii "http://a/b")) (by decide) (by decide +kernel)).mpr
    (.inl (by decide))

/-- The follow-up of an upload has lost its body. -/
theorem Run.not_repeats_upload :
    KeepMethod (({} : Run).callExchanges (uploadRequest (ascii "x"))
        (repeatedAt (ascii "http://a/b"))) ∧
      ¬∀ exchange ∈ ({} : Run).callExchanges (uploadRequest (ascii "x"))
          (repeatedAt (ascii "http://a/b")),
        Repeats (uploadRequest (ascii "x")) exchange.request := by
  refine ⟨by decide +kernel, fun hrepeats => ?_⟩
  have hlost : ∃ exchange ∈ ({} : Run).callExchanges
      (uploadRequest (ascii "x")) (repeatedAt (ascii "http://a/b")),
      exchange.request.body.unread ≠ ascii "x" := by
    decide +kernel
  obtain ⟨exchange, hmem, hbody⟩ := hlost
  exact hbody (hrepeats exchange hmem).body_eq

end VynxHttp
