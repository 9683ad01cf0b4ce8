import VynxHttp.HttpParserHead

/-!
# Bodies with a Content-Length

Between two calls in `body_raw` the buffer is empty, `body_remaining_` is the
number of bytes still to come, and the body written so far followed by these
bytes is the body of the message.  With the rule for heads this decodes every
well-formed response under every segmentation.
-/

namespace VynxHttp

open DelimitedText FuelLoop Segmentation

namespace HttpParser

theorem Ready.takeBody {p : HttpParser} {state : ParserState}
    {value : ResponseValue} {buffer : Bytes}
    (hready : p.Ready state value buffer) (count : ℕ) :
    ∃ next, p.takeBody count = some next ∧
      next.Ready state (value.appendBody (buffer.take count))
        (buffer.drop count) ∧
      next.bodyRemaining = p.bodyRemaining := by
  obtain ⟨body, htake, hunread, hcapacity⟩ :=
    p.takeBody_spec count hready.growable
  refine ⟨_, htake, ?_, rfl⟩
  constructor
  · exact hready.state_eq
  · rw [← hready.value_eq, ← hready.buffer_eq]
    simp [HttpResponse.value, ResponseValue.appendBody, hunread]
  · rw [← hready.buffer_eq]
  · exact hcapacity

structure Delivered (p : HttpParser) (value : ResponseValue) : Prop where
  state_eq : p.state = .complete
  value_eq : p.response.value = value

theorem Delivered.feed {p : HttpParser} {value : ResponseValue}
    (hdelivered : p.Delivered value) (data : Bytes) :
    p.feed data = some (p, success) := by
  rw [HttpParser.feed, if_pos (.inr hdelivered.state_eq)]

theorem drain_processBody {p next : HttpParser}
    (hstate : p.state = .bodyRaw ∨ p.state = .bodyChunked ∨
      p.state = .bodyUntilEof)
    (hbody : p.processBody = some (next, success)) :
    p.drain = some (next, success) := by
  apply drain_leave
  rcases hstate with hstate | hstate | hstate <;>
    simp only [feedRound, hstate, hbody, Option.map_some, success]

/-- Between two calls in `body_raw`, with `rest` still to come, which is not
empty. -/
structure InRawBody (value : ResponseValue) (p : HttpParser)
    (rest : Bytes) : Prop where
  ready : ∃ body, p.Ready .bodyRaw { value with body } [] ∧
    body ++ rest = value.body
  remaining : p.bodyRemaining = rest.length
  more : rest ≠ []

theorem drain_raw (value : ResponseValue) (body : Bytes) {p : HttpParser}
    {buffer rest : Bytes}
    (hready : p.Ready .bodyRaw { value with body } buffer)
    (hsplit : body ++ (buffer ++ rest) = value.body)
    (hremaining : p.bodyRemaining = (buffer ++ rest).length) :
    ∃ next, p.drain = some (next, success) ∧
      (next.Delivered value ∧ rest = [] ∨ InRawBody value next rest) := by
  have hall : ∀ {bytes : Bytes}, body ++ bytes = value.body →
      ResponseValue.appendBody { value with body } bytes = value := by
    intro bytes hbytes
    simp [ResponseValue.appendBody, hbytes]
  have hstate := hready.state_eq
  rw [List.length_append] at hremaining
  by_cases hzero : p.bodyRemaining = 0
  · have hbuffer : buffer = [] := List.length_eq_zero_iff.mp (by omega)
    have hrest : rest = [] := List.length_eq_zero_iff.mp (by omega)
    subst hbuffer hrest
    refine ⟨{ p with state := .complete },
      drain_processBody (.inl hstate) ?_, .inl ⟨⟨rfl, ?_⟩, rfl⟩⟩
    · simp [processBody, hstate, processRaw, hzero]
    · rw [hready.value_eq, ← hall hsplit]
      simp
  · by_cases hempty : buffer = []
    · subst hempty
      rw [List.length_nil, Nat.zero_add] at hremaining
      have hmore : rest ≠ [] := by
        rintro rfl
        exact hzero hremaining
      refine ⟨p, drain_processBody (.inl hstate) ?_, .inr ⟨⟨body, hready,
        by simpa using hsplit⟩, hremaining, hmore⟩⟩
      simp [processBody, hstate, processRaw, hzero, hready.buffer_eq]
    · obtain ⟨q, htake, hq, hqremaining⟩ := hready.takeBody buffer.length
      rw [List.take_length, List.drop_length] at hq
      have hmin : min p.bodyRemaining p.buffer.length = buffer.length := by
        rw [hready.buffer_eq]
        omega
      have hleft : p.bodyRemaining - buffer.length = rest.length := by omega
      have hbody : p.processBody = some
          (if rest.length = 0 then
              { q with bodyRemaining := rest.length, state := .complete }
            else { q with bodyRemaining := rest.length }, success) := by
        simp only [processBody, hstate, processRaw, if_neg hzero,
          hready.buffer_eq, if_neg hempty]
        rw [← hready.buffer_eq, hmin, htake]
        simp only [Option.map_some, hqremaining, hleft]
      refine ⟨_, drain_processBody (.inl hstate) hbody, ?_⟩
      by_cases hdone : rest.length = 0
      · have hrest : rest = [] := List.length_eq_zero_iff.mp hdone
        subst hrest
        rw [List.append_nil] at hsplit
        refine .inl ⟨⟨by simp, ?_⟩, rfl⟩
        rw [if_pos hdone]
        exact hq.value_eq.trans (hall hsplit)
      · rw [if_neg hdone]
        have hmore : rest ≠ [] := fun h => hdone (by simp [h])
        refine .inr ⟨⟨body ++ buffer, ?_, by
          rw [List.append_assoc, hsplit]⟩, rfl, hmore⟩
        exact ⟨hq.state_eq, hq.value_eq, hq.buffer_eq, hq.growable⟩

theorem InRawBody.feed {value : ResponseValue} {p : HttpParser}
    {segment rest : Bytes} (hraw : InRawBody value p (segment ++ rest)) :
    ∃ next, p.feed segment = some (next, success) ∧
      (next.Delivered value ∧ rest = [] ∨ InRawBody value next rest) := by
  obtain ⟨body, hready, hsplit⟩ := hraw.ready
  rw [hready.feed_eq (by simp) segment]
  exact drain_raw _ _ (hready.append segment) (by simpa using hsplit)
    (by simpa using hraw.remaining)

/-- At the empty line the parser expects as many bytes as the length says. -/
theorem finishHeaders_contentLength {head : ResponseHead} {length : ℕ}
    (hchunked : head.headers.isChunked = false)
    (hlength : head.headers.contentLength = some length)
    {q : HttpParser} {buffer : Bytes}
    (hready : q.Ready .headers head.value buffer) :
    q.finishHeaders.Ready .bodyRaw head.value buffer ∧
      q.finishHeaders.bodyRemaining = length := by
  have hfinish : q.finishHeaders =
      { q with
        bodyRemaining := length
        contentLengthSet := true
        state := .bodyRaw } := by
    unfold finishHeaders
    rw [HttpResponse.isChunked, HttpResponse.contentLength,
      hready.headers_eq, hchunked, hlength]
    rfl
  rw [hfinish]
  exact ⟨⟨rfl, hready.value_eq, hready.buffer_eq, hready.growable⟩, rfl⟩

/-- A head with a length followed by as many bytes is delivered. -/
theorem feedAll_contentLength {head : ResponseHead}
    (hlimit : head.WithinLimit) {body : Bytes}
    (hchunked : head.headers.isChunked = false)
    (hlength : head.headers.contentLength = some body.length)
    {segments : List Bytes}
    (hcut : segments.flatten = head.encode ++ body) :
    ∃ p, new.feedAll segments = some p ∧
      p.Delivered (head.value.appendBody body) := by
  let value := head.value.appendBody body
  let BodyInv : HttpParser → ℕ → Bytes → Prop := fun p _ rest =>
    p.Delivered value ∧ rest = [] ∨ InRawBody value p rest
  have hsplit : segments.flatten ++ [] = head.encode ++ body := by
    rw [List.append_nil, hcut]
  obtain ⟨p, hrun, hphase⟩ :=
    feedAll_message hlimit body (fun _ => True) BodyInv
      (by
        intro q buffer rest hready hbody _
        obtain ⟨hraw, hremaining⟩ :=
          finishHeaders_contentLength hchunked hlength hready
        obtain ⟨next, hdrain, hnext⟩ :=
          drain_raw value [] hraw
            (by simpa [value, ResponseValue.appendBody, ResponseHead.value]
              using hbody)
            (by rw [hremaining, hbody])
        exact ⟨next, success, hdrain, hnext⟩)
      (by
        rintro p offset segment rest (⟨hdelivered, hempty⟩ | hraw) _
        · refine ⟨p, success, hdelivered.feed segment, .inl ⟨hdelivered, ?_⟩⟩
          exact (List.append_eq_nil_iff.mp hempty).2
        · obtain ⟨next, hfeed, hnext⟩ := hraw.feed
          exact ⟨next, success, hfeed, hnext⟩)
      hsplit (by simp)
  have hlength := congrArg List.length hsplit
  simp only [List.length_append, List.length_nil] at hlength
  rcases hphase with ⟨hshort, _⟩ | ⟨_, ⟨hdelivered, _⟩ | hraw⟩
  · omega
  · exact ⟨p, hrun, hdelivered⟩
  · exact absurd rfl hraw.more

end HttpParser

/-! ## Responses with a Content-Length -/

/-- A response whose first Content-Length is the length of its body.  The
length of a byte string is a `size_t`. -/
structure ContentLengthResponse where
  code : ℕ
  reason : Bytes
  fields : List HeaderField
  body : Bytes
  code_ge : 100 ≤ code
  code_le : code ≤ 599
  reason_text : LineText reason
  fields_valid : ∀ field ∈ fields, field.Valid
  notEncoded : ∀ field ∈ fields,
    field.hasName (ascii "Transfer-Encoding") = false
  firstLength : (fields.find? (·.hasName (ascii "Content-Length"))).map
    HeaderField.value = some (decimal body.length)
  body_size : body.length < 2 ^ 64

namespace ContentLengthResponse

def statusText (response : ContentLengthResponse) : Bytes :=
  ascii "HTTP/1.1 " ++ decimal response.code ++ ascii " " ++ response.reason

def lines (response : ContentLengthResponse) : List Bytes :=
  response.statusText :: response.fields.map HeaderField.plainText

def encode (response : ContentLengthResponse) : Bytes :=
  encodeBlock cr lf response.lines response.body

def head (response : ContentLengthResponse) : ResponseHead where
  minor := 49
  code := response.code
  reason := response.reason
  fieldLines := response.fields.pmap FieldLine.plain response.fields_valid
  minor_digit := isDecimalDigit_one
  code_ge := response.code_ge
  code_le := response.code_le
  reason_text := response.reason_text

theorem head_headers (response : ContentLengthResponse) :
    response.head.headers = ⟨response.fields⟩ := by
  simp only [ResponseHead.headers, head, List.map_pmap]
  congr 1
  exact (List.pmap_eq_map _).trans (List.map_id' _)

theorem head_lines (response : ContentLengthResponse) :
    response.head.lines = response.lines := by
  have hfields : response.head.fieldLines.map FieldLine.text =
      response.fields.map HeaderField.plainText := by
    simp only [head, List.map_pmap]
    rw [← List.pmap_eq_map response.fields_valid]
    congr 1
    funext field hvalid
    simp [FieldLine.text, FieldLine.plain, HeaderField.plainText, ascii, colon,
      space]
  have hstatus : response.head.statusText = response.statusText := by
    simp [ResponseHead.statusText, statusText, head, ascii, space]
  rw [ResponseHead.lines, hfields, hstatus, lines]

theorem encode_eq (response : ContentLengthResponse) :
    response.encode = response.head.encode ++ response.body := by
  rw [encode, ResponseHead.encode, head_lines]
  simp [encodeBlock]

theorem head_value (response : ContentLengthResponse) :
    response.head.value.appendBody response.body =
      ⟨response.code.toUInt16, response.reason, response.fields,
        response.body⟩ := by
  simp only [ResponseHead.value, ResponseValue.appendBody, head_headers,
    List.nil_append]
  rfl

theorem head_withinLimit {response : ContentLengthResponse}
    (hlimit : ∀ line ∈ response.lines, line.length ≤ 8191) :
    response.head.WithinLimit := by
  intro line hline
  rw [head_lines] at hline
  exact Nat.lt_succ_of_le (hlimit line hline)

theorem isChunked_headers (response : ContentLengthResponse) :
    HttpHeaders.isChunked ⟨response.fields⟩ = false := by
  have hget : HttpHeaders.get ⟨response.fields⟩
      (ascii "Transfer-Encoding") = none :=
    HttpHeaders.get_eq_none_of_contains_eq_false response.notEncoded
  rw [HttpHeaders.isChunked, hget]

theorem contentLength_headers (response : ContentLengthResponse) :
    HttpHeaders.contentLength ⟨response.fields⟩ =
      some response.body.length := by
  have hget : HttpHeaders.get ⟨response.fields⟩ (ascii "Content-Length") =
      some (decimal response.body.length) := response.firstLength
  rw [HttpHeaders.contentLength, hget]
  simp only [fromChars_decimal response.body_size, Option.map_some]

/-- Decoding undoes encoding under every segmentation. -/
theorem feedAll_encode (response : ContentLengthResponse)
    (hlimit : ∀ line ∈ response.lines, line.length ≤ 8191)
    (segments : List Bytes) (hcut : segments.flatten = response.encode) :
    ∃ p, HttpParser.new.feedAll segments = some p ∧
      p.state = .complete ∧
      p.response.statusCode.toNat = response.code ∧
      p.response.reason = response.reason ∧
      p.response.headers.fields = response.fields ∧
      p.response.body.unread = response.body := by
  obtain ⟨p, hrun, hdelivered⟩ :=
    HttpParser.feedAll_contentLength (head_withinLimit hlimit)
      (by rw [head_headers, isChunked_headers])
      (by rw [head_headers, contentLength_headers])
      (hcut.trans response.encode_eq)
  have hvalue : p.response.value = ⟨response.code.toUInt16,
      response.reason, response.fields, response.body⟩ :=
    hdelivered.value_eq.trans response.head_value
  have hle := response.code_le
  simp only [HttpResponse.value, ResponseValue.mk.injEq] at hvalue
  obtain ⟨hcode, hreason, hfields, hbody⟩ := hvalue
  refine ⟨p, hrun, hdelivered.state_eq, ?_, hreason, hfields, hbody⟩
  rw [hcode, Nat.toUInt16, UInt16.toNat_ofNat']
  omega

def abc : ContentLengthResponse where
  code := 200
  reason := ascii "OK"
  fields := [⟨ascii "Content-Length", ascii "3"⟩]
  body := ascii "abc"
  code_ge := (ResponseHead.ok []).code_ge
  code_le := (ResponseHead.ok []).code_le
  reason_text := (ResponseHead.ok []).reason_text
  fields_valid := by decide
  notEncoded := by decide
  firstLength := by decide
  body_size := by decide

theorem feedAll_encode_abc :
    ∃ p, HttpParser.new.feedAll (abc.encode.map fun b => [b]) = some p ∧
      p.state = .complete ∧
      p.response.statusCode.toNat = 200 ∧
      p.response.reason = ascii "OK" ∧
      p.response.headers.fields =
        [⟨ascii "Content-Length", ascii "3"⟩] ∧
      p.response.body.unread = ascii "abc" :=
  feedAll_encode abc (by decide) _ (by decide)

end ContentLengthResponse

end VynxHttp
