import VynxHttp.MessageEnd

/-!
# Responses without a body and responses ended by the connection

What `send_and_receive` makes of a response whose end its headers do not give:
one which is read until the connection closes, and one which has no body
because of the method or the status.  Interim responses may come before the
second.
-/

namespace VynxHttp

open DelimitedText Segmentation

namespace PoolEntry

/-! ## Read until close -/

/-- After the segments the peer closes the connection; the response is returned
with the status and the headers of `head` and with this body. -/
def DeliversUntilClose (entry : PoolEntry) (head : ResponseHead)
    (body : Bytes) (segments : List Bytes) (more : List RecvOutcome) :
    Prop :=
  ∃ received response,
    entry.receiveResponse
        (segments.map .received ++ .received [] :: more) = some received ∧
      received.result = .ok response ∧
      response.value = head.value.appendBody body

theorem read_closed {entry : PoolEntry} (husable : entry.Usable) :
    ∃ next, entry.read (.received []) = (next, .error .connectionReset) := by
  unfold read
  by_cases hvia : entry.viaTls = true
  · exact ⟨entry, by rw [if_pos hvia]; rfl⟩
  · have hconnected := husable.resolve_left hvia
    rw [if_neg hvia]
    simp [TcpSocket.receive, hconnected]

/-- A response is returned only when its headers give its end. -/
theorem framed_of_received {entry : PoolEntry}
    {outcomes : List RecvOutcome} {received : Received}
    {response : HttpResponse}
    (hreceive : entry.receiveResponse outcomes = some received)
    (hok : received.result = .ok response) :
    response.headers.isChunked = true ∨
      response.headers.contentLength.isSome = true := by
  obtain ⟨segments, p, _, hrun, hstate, rfl⟩ := receiveLoop_ok hreceive hok
  have hframed := HttpParser.feedAll_framed HttpParser.new_framed hrun
  simpa [HttpParser.Framed, hstate] using hframed

theorem receiveResponse_untilClose {head : ResponseHead}
    (hlimit : head.WithinLimit)
    (hchunked : head.headers.isChunked = false)
    (hlength : head.headers.contentLength = none) {entry : PoolEntry}
    (husable : entry.Usable) {body : Bytes} {segments : List Bytes}
    (hcut : segments.flatten = head.encode ++ body)
    (hne : ∀ segment ∈ segments, segment ≠ []) (more : List RecvOutcome) :
    ∃ next, entry.receiveResponse
        (segments.map .received ++ .received [] :: more) =
      some ⟨next, .error .connectionReset, more⟩ := by
  obtain ⟨p, hrun, hcomplete, herror⟩ :=
    HttpParser.feedAll_untilEof hlimit hchunked hlength
      ((List.append_nil _).trans hcut)
  obtain ⟨next, hread⟩ := read_closed husable
  refine ⟨next, ?_⟩
  rw [receiveResponse, receiveLoop_segments husable HttpParser.new_framed
    hne hrun herror ?_]
  · simp only [receiveLoop, exitWith_eq_none_iff.mpr ⟨hcomplete, herror⟩,
      hread]
  · rintro before after q rfl _ hq
    rw [List.flatten_append] at hcut
    obtain ⟨q', hq', hnot, _⟩ :=
      HttpParser.feedAll_untilEof hlimit hchunked hlength hcut
    rw [hq, Option.some.injEq] at hq'
    exact hq' ▸ hnot

/-- No response whose end is the end of the connection is delivered; one within
the limits of the parser ends with the error of the transport. -/
theorem not_deliversUntilClose {head : ResponseHead}
    (hchunked : head.headers.isChunked = false)
    (hlength : head.headers.contentLength = none) (entry : PoolEntry)
    (body : Bytes) (segments : List Bytes) (more : List RecvOutcome) :
    ¬ entry.DeliversUntilClose head body segments more ∧
      (head.WithinLimit → entry.Usable →
        segments.flatten = head.encode ++ body →
        (∀ segment ∈ segments, segment ≠ []) →
        ∃ next, entry.receiveResponse
            (segments.map .received ++ .received [] :: more) =
          some ⟨next, .error .connectionReset, more⟩) := by
  refine ⟨?_, fun hlimit husable hcut hne =>
    receiveResponse_untilClose hlimit hchunked hlength husable hcut hne more⟩
  rintro ⟨received, response, hreceive, hok, hvalue⟩
  have hheaders : response.headers = head.headers :=
    congrArg HttpHeaders.mk (congrArg ResponseValue.fields hvalue)
  have hframed := framed_of_received hreceive hok
  rw [hheaders, hchunked, hlength] at hframed
  simp at hframed

def bareHead : ResponseHead := .ok []

theorem not_deliversUntilClose_bareHead :
    ¬ plainEntry.DeliversUntilClose bareHead (ascii "hi")
      [bareHead.encode, ascii "hi"] [] :=
  (not_deliversUntilClose (show bareHead.headers.isChunked = false by decide)
    (by decide) plainEntry _ _ _).1

theorem exists_not_deliversUntilClose :
    ¬ ∀ (head : ResponseHead) (entry : PoolEntry) (body : Bytes)
        (segments : List Bytes) (more : List RecvOutcome),
      head.headers.isChunked = false → head.headers.contentLength = none →
      head.WithinLimit → entry.Usable →
      segments.flatten = head.encode ++ body →
      (∀ segment ∈ segments, segment ≠ []) →
      entry.DeliversUntilClose head body segments more := by
  intro hall
  obtain ⟨received, response, hreceive, hok, _⟩ :=
    hall bareHead plainEntry (ascii "hi") [bareHead.encode, ascii "hi"] []
      (by decide) (by decide) (by decide) (.inr rfl) (by decide) (by decide)
  have hresult : (plainEntry.receiveResponse
      ([bareHead.encode, ascii "hi"].map .received ++ [.received []])).map
        (fun received => received.result.toOption.isSome) = some false := by
    decide +kernel
  rw [hreceive, Option.map_some, hok] at hresult
  simp [Except.toOption] at hresult

/-! ## No body -/

end PoolEntry

/-- A final response to `HEAD`, or one whose status says that it has no body. -/
def HttpRequest.Bodiless (request : HttpRequest) (head : ResponseHead) :
    Prop :=
  request.method = .head ∨ head.code = 204 ∨ head.code = 304

def ResponseHead.Interim (head : ResponseHead) : Prop := head.code < 200

instance (head : ResponseHead) : Decidable head.Interim :=
  inferInstanceAs (Decidable (_ < _))

theorem ResponseHead.encode_ne_nil (head : ResponseHead) :
    head.encode ≠ [] := by
  simp [ResponseHead.encode, encodeBlock]

/-- What a peer sends for a request, up to the body of the final response: any
number of interim responses, and the head of the final one. -/
structure ResponseSequence where
  interims : List ResponseHead
  final : ResponseHead
  interim : ∀ head ∈ interims, head.Interim
  final_code : 200 ≤ final.code

namespace ResponseSequence

/-- The final response alone. -/
def direct (final : ResponseHead) (hcode : 200 ≤ final.code) :
    ResponseSequence where
  interims := []
  final
  interim _ hmem := by cases hmem
  final_code := hcode

def encode (responses : ResponseSequence) : Bytes :=
  responses.interims.flatMap ResponseHead.encode ++ responses.final.encode

theorem encode_of_interim {responses : ResponseSequence}
    {first : ResponseHead} (hfirst : first ∈ responses.interims.head?) :
    first.encode <+: responses.encode := by
  obtain ⟨later, hinterims⟩ := List.head?_eq_some_iff.mp hfirst
  rw [encode, hinterims, List.flatMap_cons, List.append_assoc]
  exact List.prefix_append _ _

theorem encode_of_direct {responses : ResponseSequence}
    (hdirect : responses.interims = []) :
    responses.encode = responses.final.encode := by
  simp [encode, hdirect]

theorem encode_ne_nil (responses : ResponseSequence) :
    responses.encode ≠ [] := by
  simp [encode, responses.final.encode_ne_nil]

end ResponseSequence

namespace PoolEntry

/-- The segments bring everything up to the end of the head, and `more` what
comes after it; the response is the one with this head and an empty body, and
`more` stays unread. -/
def EndsAtHead (entry : PoolEntry) (request : HttpRequest)
    (sends : List SendOutcome) (head : ResponseHead)
    (segments : List Bytes) (more : List RecvOutcome) : Prop :=
  ∃ received response,
    entry.sendAndReceive request sends
        (segments.map .received ++ more) = some received ∧
      received.result = .ok response ∧ response.value = head.value ∧
      received.unread = more

/-- A bodiless final response ends with its head, however many interim ones
come before it; and no interim response is returned for the final one, whatever
follows the first of them. -/
structure FramedByMethod (entry : PoolEntry) (request : HttpRequest)
    (sends : List SendOutcome) (responses : ResponseSequence) : Prop where
  bodiless : request.Bodiless responses.final →
    ∀ (segments : List Bytes) (more : List RecvOutcome),
      segments.flatten = responses.encode →
      (∀ segment ∈ segments, segment ≠ []) →
      entry.EndsAtHead request sends responses.final segments more
  interim : ∀ first ∈ responses.interims.head?,
    ∀ (segments : List Bytes) (more : List RecvOutcome),
      first.encode <+: segments.flatten →
      (∀ segment ∈ segments, segment ≠ []) →
      ∀ received response,
        entry.sendAndReceive request sends
            (segments.map .received ++ more) = some received →
        received.result = .ok response → 200 ≤ response.statusCode.toNat

theorem sendAndReceive_of_sent {entry : PoolEntry} {request : HttpRequest}
    {sends : List SendOutcome}
    (hsent : (entry.sendRequest request sends).2 = some success)
    (recvs : List RecvOutcome) :
    entry.sendAndReceive request sends recvs =
      entry.receiveResponse recvs := by
  simp only [sendAndReceive, hsent, success]

theorem flatten_ne_nil {segments : List Bytes}
    (hne : ∀ segment ∈ segments, segment ≠ []) (hsegments : segments ≠ []) :
    segments.flatten ≠ [] := by
  cases segments with
  | nil => exact absurd rfl hsegments
  | cons segment segments =>
      intro hempty
      rw [List.flatten_cons, List.append_eq_nil_iff] at hempty
      exact hne segment (by simp) hempty.1

/-- Up to the end of the head every segment is read. -/
theorem receiveResponse_head {entry : PoolEntry} (husable : entry.Usable)
    {head : ResponseHead} (hlimit : head.WithinLimit)
    {segments : List Bytes} (hcut : segments.flatten = head.encode)
    (hne : ∀ segment ∈ segments, segment ≠ []) {p : HttpParser}
    (hrun : HttpParser.new.feedAll segments = some p)
    (hafter : p.AfterHead head) (outcomes : List RecvOutcome) :
    entry.receiveResponse (segments.map .received ++ outcomes) =
      entry.receiveLoop p outcomes := by
  refine receiveLoop_segments husable HttpParser.new_framed hne hrun ?_ ?_
    outcomes
  · rcases hafter with ⟨_, hdelivered⟩ | ⟨_, hawaits⟩
    · simp [hdelivered.state_eq]
    · exact hawaits.not_complete.2
  · rintro before after q rfl hmore hq
    rw [List.flatten_append] at hcut
    have hrest : after.flatten ≠ [] :=
      flatten_ne_nil (fun segment hmem => hne segment (by simp [hmem])) hmore
    obtain ⟨q', hq', hstate⟩ := HttpParser.feedAll_inHead hlimit hcut hrest
    rw [hq, Option.some.injEq] at hq'
    subst hq'
    rcases hstate with hstate | hstate <;> simp [hstate]

theorem endsAtHead_iff {entry : PoolEntry} (husable : entry.Usable)
    {request : HttpRequest} {sends : List SendOutcome}
    (hsent : (entry.sendRequest request sends).2 = some success)
    {head : ResponseHead} (hlimit : head.WithinLimit)
    {segments : List Bytes} (hcut : segments.flatten = head.encode)
    (hne : ∀ segment ∈ segments, segment ≠ []) (more : List RecvOutcome) :
    entry.EndsAtHead request sends head segments more ↔
      head.EndsMessage := by
  obtain ⟨p, hrun, hafter⟩ := HttpParser.feedAll_head hlimit hcut
  constructor
  · rintro ⟨received, response, hreceive, hok, _, hunread⟩
    rw [sendAndReceive_of_sent hsent] at hreceive
    obtain ⟨read, q, hsplit, hq, hstate, _⟩ := receiveLoop_ok hreceive hok
    rw [hunread] at hsplit
    have hread : segments = read :=
      List.map_injective_iff.mpr (fun _ _ => RecvOutcome.received.inj)
        (List.append_cancel_right hsplit)
    rw [← hread, hrun, Option.some.injEq] at hq
    subst hq
    rcases hafter with ⟨hends, _⟩ | ⟨_, hawaits⟩
    · exact hends
    · exact absurd hstate hawaits.not_complete.1
  · intro hends
    have hdelivered : p.Delivered head.value := by
      rcases hafter with ⟨_, hdelivered⟩ | ⟨hnot, _⟩
      · exact hdelivered
      · exact absurd hends hnot
    refine ⟨⟨entry, .ok p.response, more⟩, p.response, ?_, rfl,
      hdelivered.value_eq, rfl⟩
    rw [sendAndReceive_of_sent hsent,
      receiveResponse_head husable hlimit hcut hne hrun hafter]
    exact receiveLoop_complete hdelivered.state_eq more

/-! ## Interim responses -/

end PoolEntry

def ResponseHead.Unframed (head : ResponseHead) : Prop :=
  head.headers.isChunked = false ∧ head.headers.contentLength = none

instance (head : ResponseHead) : Decidable head.Unframed :=
  inferInstanceAs (Decidable (_ ∧ _))

/-- A head which frames a body is followed by one. -/
theorem HttpParser.exists_completion {head : ResponseHead}
    (hlimit : head.WithinLimit) (hends : ¬ head.EndsMessage)
    (hframed : ¬ head.Unframed) :
    ∃ body p, body ≠ [] ∧ new.feedAll [head.encode, body] = some p ∧
      p.state = .complete ∧
      p.response.statusCode = head.value.statusCode := by
  cases hchunked : head.headers.isChunked with
  | true =>
      let response : ChunkedResponse :=
        { head, chunks := [], last := .zero, trailers := []
          chunked := hchunked, last_size := by decide }
      obtain ⟨p, hrun, hphase⟩ :=
        feedAll_inStep hlimit
          (show [head.encode, response.bodyText].flatten ++ [] =
              response.encode by simp [response, ChunkedResponse.encode])
          (fun n _ => ChunkedResponse.not_endsInChunk_of_nil rfl n)
      rcases hphase with ⟨_, hdelivered⟩ | ⟨hlong, _⟩
      · refine ⟨response.bodyText, p, ?_, hrun, hdelivered.state_eq,
          congrArg ResponseValue.statusCode hdelivered.value_eq⟩
        simp [ChunkedResponse.bodyText,
          ChunkedResponse.trailerText_ne_nil]
      · simp at hlong
  | false =>
      cases hlength : head.headers.contentLength with
      | none => exact absurd ⟨hchunked, hlength⟩ hframed
      | some length =>
          have hpos : length ≠ 0 := by
            rintro rfl
            exact hends ⟨hchunked, hlength⟩
          obtain ⟨p, hrun, hdelivered⟩ :=
            feedAll_contentLength hlimit hchunked (by simpa using hlength)
              (show [head.encode, List.replicate length 0].flatten =
                head.encode ++ List.replicate length 0 by simp)
          exact ⟨List.replicate length 0, p, by simpa using hpos, hrun,
            hdelivered.state_eq,
            congrArg ResponseValue.statusCode hdelivered.value_eq⟩

namespace PoolEntry

theorem receiveResponse_completed {entry : PoolEntry}
    (husable : entry.Usable) {head : ResponseHead}
    (hlimit : head.WithinLimit) (hends : ¬ head.EndsMessage)
    {body : Bytes} {p : HttpParser} (hbody : body ≠ [])
    (hrun : HttpParser.new.feedAll [head.encode, body] = some p)
    (hstate : p.state = .complete) :
    entry.receiveResponse
        ([head.encode].map .received ++ [.received body]) =
      some ⟨entry, .ok p.response, []⟩ := by
  have hheadNe := head.encode_ne_nil
  obtain ⟨q, hq, hafter⟩ :=
    HttpParser.feedAll_head hlimit
      (show [head.encode].flatten = head.encode by simp)
  have hawaits : q.Awaits head.value := by
    rcases hafter with ⟨habsurd, _⟩ | ⟨_, hawaits⟩
    · exact absurd habsurd hends
    · exact hawaits
  have hrest : q.feedAll [body] = some p := by
    rw [HttpParser.feedAll] at hrun hq ⊢
    rw [← List.singleton_append, run_append, hq, Option.bind_some] at hrun
    exact hrun
  rw [receiveResponse_head husable hlimit (by simp) (by simpa) hq hafter]
  have hloop := receiveLoop_segments husable
    (HttpParser.feedAll_framed HttpParser.new_framed hq) (by simpa) hrest
    (by simp [hstate])
    (by
      rintro before after r hsplit hmore hr
      have hbefore : before = [] := by
        have hlength := congrArg List.length hsplit
        have hpos := List.length_pos_of_ne_nil hmore
        rw [List.length_append, List.length_singleton] at hlength
        exact List.length_eq_zero_iff.mp (by omega)
      subst hbefore
      simp only [HttpParser.feedAll, run_nil, Option.some.injEq] at hr
      exact hr ▸ hawaits.not_complete.1) []
  rw [List.append_nil, List.map_singleton] at hloop
  rw [hloop]
  exact receiveLoop_complete hstate []

/-- What has been read of the segments and of what follows them is a part of
some continuation of their text. -/
theorem exists_text_of_read {read segments : List Bytes}
    {unread more : List RecvOutcome}
    (hsplit : segments.map .received ++ more =
      read.map .received ++ unread) :
    ∃ rest body, read.flatten ++ rest = segments.flatten ++ body := by
  have hinjective : Function.Injective (List.map RecvOutcome.received) :=
    List.map_injective_iff.mpr fun _ _ => RecvOutcome.received.inj
  rcases List.append_eq_append_iff.mp hsplit with
    ⟨tail, hread, _⟩ | ⟨tail, hsegments, _⟩
  · obtain ⟨first, second, rfl, hfirst, _⟩ :=
      List.map_eq_append_iff.mp hread
    rw [← hinjective hfirst]
    exact ⟨[], second.flatten, by simp⟩
  · obtain ⟨first, second, rfl, hfirst, _⟩ :=
      List.map_eq_append_iff.mp hsegments
    rw [← hinjective hfirst]
    exact ⟨second.flatten, [], by simp⟩

/-- Whatever follows a head without framing is read as its body. -/
theorem not_returned_of_unframed {entry : PoolEntry}
    {head : ResponseHead} (hlimit : head.WithinLimit)
    (hunframed : head.Unframed) {segments : List Bytes}
    (hfirst : head.encode <+: segments.flatten) {more : List RecvOutcome}
    {received : Received} {response : HttpResponse}
    (hreceive : entry.receiveResponse (segments.map .received ++ more) =
      some received) : received.result ≠ .ok response := by
  intro hok
  obtain ⟨read, p, hsplit, hrun, hstate, _⟩ := receiveLoop_ok hreceive hok
  obtain ⟨rest, body, htext⟩ := exists_text_of_read hsplit
  obtain ⟨after, hafter⟩ := hfirst
  rw [← hafter, List.append_assoc] at htext
  obtain ⟨p', hrun', hnot, _⟩ :=
    HttpParser.feedAll_untilEof hlimit hunframed.1 hunframed.2 htext
  rw [hrun, Option.some.injEq] at hrun'
  exact hnot (hrun' ▸ hstate)

theorem statusCode_toNat (head : ResponseHead) :
    head.value.statusCode.toNat = head.code := by
  have hle := head.code_le
  simp only [ResponseHead.value, Nat.toUInt16, UInt16.toNat_ofNat']
  omega

/-- An interim response with framing headers is returned when its body
follows. -/
theorem exists_returned {entry : PoolEntry} (husable : entry.Usable)
    {head : ResponseHead} (hlimit : head.WithinLimit)
    (hframed : ¬ head.Unframed) :
    ∃ more received response,
      entry.receiveResponse ([head.encode].map .received ++ more) =
        some received ∧
      received.result = .ok response ∧
      response.statusCode.toNat = head.code := by
  by_cases hends : head.EndsMessage
  · obtain ⟨p, hrun, hafter⟩ :=
      HttpParser.feedAll_head hlimit
      (show [head.encode].flatten = head.encode by simp)
    have hdelivered : p.Delivered head.value := by
      rcases hafter with ⟨_, hdelivered⟩ | ⟨hnot, _⟩
      · exact hdelivered
      · exact absurd hends hnot
    refine ⟨[], ⟨entry, .ok p.response, []⟩, p.response, ?_, rfl, ?_⟩
    · rw [receiveResponse_head husable hlimit (by simp)
        (by simp [head.encode_ne_nil]) hrun hafter]
      exact receiveLoop_complete hdelivered.state_eq []
    · rw [← statusCode_toNat]
      exact congrArg (UInt16.toNat ∘ ResponseValue.statusCode)
        hdelivered.value_eq
  · obtain ⟨body, p, hbody, hrun, hstate, hstatus⟩ :=
      HttpParser.exists_completion hlimit hends hframed
    refine ⟨[.received body], ⟨entry, .ok p.response, []⟩, p.response,
      receiveResponse_completed husable hlimit hends hbody hrun hstate,
      rfl, ?_⟩
    rw [hstatus, statusCode_toNat]

/-- A request whose first interim response gives no framing is not answered. -/
theorem unanswered_of_unframed {entry : PoolEntry} {request : HttpRequest}
    {sends : List SendOutcome}
    (hsent : (entry.sendRequest request sends).2 = some success)
    {first : ResponseHead} (hlimit : first.WithinLimit)
    (hunframed : first.Unframed) {segments : List Bytes}
    (hfirst : first.encode <+: segments.flatten) {more : List RecvOutcome}
    {received : Received} {response : HttpResponse}
    (hreceive : entry.sendAndReceive request sends
      (segments.map .received ++ more) = some received) :
    received.result ≠ .ok response := by
  rw [sendAndReceive_of_sent hsent] at hreceive
  exact not_returned_of_unframed hlimit hunframed hfirst hreceive

theorem FramedByMethod.first_unframed {entry : PoolEntry}
    (husable : entry.Usable) {request : HttpRequest}
    {sends : List SendOutcome}
    (hsent : (entry.sendRequest request sends).2 = some success)
    {responses : ResponseSequence}
    (hframed : entry.FramedByMethod request sends responses)
    {first : ResponseHead} (hfirst : first ∈ responses.interims.head?)
    (hlimit : first.WithinLimit) : first.Unframed := by
  have hcode : first.code < 200 :=
    responses.interim first (List.mem_of_mem_head? hfirst)
  by_contra hnot
  obtain ⟨more, received, response, hreceive, hok, hstatus⟩ :=
    exists_returned husable hlimit hnot
  have hreturned := hframed.interim first hfirst [first.encode] more
    (by simp) (by simp [first.encode_ne_nil]) received response
    (by rw [sendAndReceive_of_sent hsent, hreceive]) hok
  omega

/-- The method and the status are respected exactly when a bodiless response
comes without interim ones and its headers give the length zero, and the
headers of the first interim response give no framing at all. -/
theorem framedByMethod_iff {entry : PoolEntry} (husable : entry.Usable)
    {request : HttpRequest} {sends : List SendOutcome}
    (hsent : (entry.sendRequest request sends).2 = some success)
    {responses : ResponseSequence}
    (hfinal : responses.final.WithinLimit)
    (hinterims : ∀ head ∈ responses.interims, head.WithinLimit) :
    entry.FramedByMethod request sends responses ↔
      (request.Bodiless responses.final →
        responses.interims = [] ∧ responses.final.EndsMessage) ∧
      ∀ first ∈ responses.interims.head?, first.Unframed := by
  have hlimit : ∀ first ∈ responses.interims.head?, first.WithinLimit :=
    fun first hfirst => hinterims first (List.mem_of_mem_head? hfirst)
  constructor
  · intro hframed
    have hunframed : ∀ first ∈ responses.interims.head?,
        first.Unframed := fun first hfirst =>
      hframed.first_unframed husable hsent hfirst (hlimit first hfirst)
    refine ⟨fun hbodiless => ?_, hunframed⟩
    have hends := hframed.bodiless hbodiless [responses.encode] []
      (by simp) (by simp [responses.encode_ne_nil])
    cases hhead : responses.interims.head? with
    | none =>
        have hdirect := List.head?_eq_none_iff.mp hhead
        rw [responses.encode_of_direct hdirect] at hends
        refine ⟨hdirect, (endsAtHead_iff husable hsent hfinal (by simp)
          (by simp [responses.final.encode_ne_nil]) []).mp hends⟩
    | some first =>
        -- the final head is swallowed as the body of the interim response
        obtain ⟨received, response, hreceive, hok, _⟩ := hends
        have hfirst : first.encode <+: [responses.encode].flatten := by
          simpa using responses.encode_of_interim hhead
        exact absurd hok (unanswered_of_unframed hsent (hlimit first hhead)
          (hunframed first hhead) hfirst hreceive)
  · rintro ⟨hends, hunframed⟩
    constructor
    · intro hbodiless segments more hcut hne
      obtain ⟨hdirect, hend⟩ := hends hbodiless
      rw [responses.encode_of_direct hdirect] at hcut
      exact (endsAtHead_iff husable hsent hfinal hcut hne more).mpr hend
    · intro first hhead segments more hfirst _ received response hreceive hok
      exact absurd hok (unanswered_of_unframed hsent (hlimit first hhead)
        (hunframed first hhead) hfirst hreceive)

/-- `204 No Content` with these fields. -/
def noContentHead (fieldLines : List FieldLine) : ResponseHead where
  minor := 49
  code := 204
  reason := ascii "No Content"
  fieldLines
  minor_digit := isDecimalDigit_one
  code_ge := by decide
  code_le := by decide
  reason_text := by decide

def continueHead : ResponseHead where
  minor := 49
  code := 100
  reason := ascii "Continue"
  fieldLines := []
  minor_digit := isDecimalDigit_one
  code_ge := by decide
  code_le := by decide
  reason_text := by decide

/-- `Content-Length: 0`. -/
def zeroLength : FieldLine :=
  .plain ⟨ascii "Content-Length", ascii "0"⟩ (by decide)

def bareRequest : HttpRequest := { uri := ascii "/" }

def continued : ResponseSequence where
  interims := [continueHead]
  final := noContentHead [zeroLength]
  interim head hmem := by
    rw [List.mem_singleton.mp hmem]
    decide
  final_code := by decide

/-- The length zero is enough for a response which comes alone, and not for one
which comes after `100 Continue`. -/
theorem framedByMethod_iff_noContent :
    plainEntry.FramedByMethod bareRequest [.accepted 20]
        (.direct (noContentHead [zeroLength]) (by decide)) ∧
      ¬ plainEntry.FramedByMethod bareRequest [.accepted 20] continued := by
  have husable : plainEntry.Usable := .inr rfl
  have hsent : (plainEntry.sendRequest bareRequest [.accepted 20]).2 =
      some success := by decide +kernel
  constructor
  · exact (framedByMethod_iff husable hsent (by decide)
      (fun _ hmem => by cases hmem)).mpr
        ⟨fun _ => ⟨rfl, by decide⟩, fun _ hmem => by cases hmem⟩
  · intro hframed
    have hconditions := (framedByMethod_iff husable hsent (by decide)
      (by decide)).mp hframed
    exact absurd (hconditions.1 (.inr (.inl rfl))).1 (by decide)

theorem not_framedByMethod_noContent :
    ¬ ∀ (entry : PoolEntry) (request : HttpRequest)
        (sends : List SendOutcome) (responses : ResponseSequence),
      entry.Usable →
      (entry.sendRequest request sends).2 = some success →
      responses.final.WithinLimit →
      (∀ head ∈ responses.interims, head.WithinLimit) →
      entry.FramedByMethod request sends responses := by
  intro hall
  obtain ⟨received, _, hreceive, _⟩ :=
    (hall plainEntry bareRequest [.accepted 20]
      (.direct (noContentHead []) (by decide)) (.inr rfl)
      (by decide +kernel) (by decide) (fun _ hmem => by cases hmem)).bodiless
        (.inr (.inl rfl)) [(noContentHead []).encode] []
        (by simp [ResponseSequence.direct, ResponseSequence.encode])
        (by decide)
  have hblocks : (plainEntry.sendAndReceive bareRequest [.accepted 20]
      ([(noContentHead []).encode].map .received ++ [])).isNone = true := by
    decide +kernel
  rw [hreceive] at hblocks
  simp at hblocks

end PoolEntry

end VynxHttp
