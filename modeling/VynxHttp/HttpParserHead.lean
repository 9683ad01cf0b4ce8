import VynxHttp.ResponseGrammar

/-!
# Response heads under every segmentation

The parser reads a well-formed head line by line wherever the segments are
cut.  The state between two calls is described by the lines which are still
expected; a call either leaves the parser waiting for the rest of one of them,
or takes it past the empty line into the body state chosen by
`finishHeaders`.  `feedAll_message` turns an invariant of the body states into
one of whole messages.
-/

namespace VynxHttp

open DelimitedText FuelLoop Segmentation

namespace HttpParser

/-- The state, the response so far and the buffer of a parser whose body
buffer can grow. -/
structure Ready (p : HttpParser) (state : ParserState)
    (value : ResponseValue) (buffer : Bytes) : Prop where
  state_eq : p.state = state
  value_eq : p.response.value = value
  buffer_eq : p.buffer = buffer
  growable : 0 < p.response.body.capacity

theorem ready_new :
    new.Ready .statusLine ⟨0, [], [], []⟩ [] where
  state_eq := rfl
  value_eq := by simp [new, HttpResponse.value]
  buffer_eq := rfl
  growable := ByteBuffer.capacity_empty_pos

theorem Ready.append {p : HttpParser} {state : ParserState}
    {value : ResponseValue} {buffer : Bytes}
    (hready : p.Ready state value buffer) (data : Bytes) :
    ({ p with buffer := p.buffer ++ data } : HttpParser).Ready state value
      (buffer ++ data) where
  state_eq := hready.state_eq
  value_eq := hready.value_eq
  buffer_eq := by rw [hready.buffer_eq]
  growable := hready.growable

theorem Ready.headers_eq {q : HttpParser} {head : ResponseHead}
    {buffer : Bytes} (hready : q.Ready .headers head.value buffer) :
    q.response.headers = head.headers :=
  congrArg HttpHeaders.mk (congrArg ResponseValue.fields hready.value_eq)

theorem Ready.feed_eq {p : HttpParser} {state : ParserState}
    {value : ResponseValue} {buffer : Bytes}
    (hready : p.Ready state value buffer)
    (hstate : state ≠ .error ∧ state ≠ .complete) (data : Bytes) :
    p.feed data = drain { p with buffer := p.buffer ++ data } := by
  have hstop : ¬ (p.state = .error ∨ p.state = .complete) := by
    rw [hready.state_eq]
    tauto
  rw [feed, if_neg hstop]

theorem drain_again {p next : HttpParser}
    (hround : p.feedRound = some (.again next)) :
    p.drain = next.drain :=
  runRanked_again feedRound_decreases hround

theorem drain_leave {p : HttpParser} {step : Step}
    (hround : p.feedRound = some (.leave step)) :
    p.drain = some step :=
  runRanked_leave _ hround

/-! ## Lines which are not complete yet -/

/-- Without a line end in the buffer, and within the limit, the two line states
wait. -/
theorem drain_await {p : HttpParser} {state : ParserState}
    {value : ResponseValue} {buffer : Bytes}
    (hready : p.Ready state value buffer)
    (hstate : state = .statusLine ∨ state = .headers)
    (hfree : Free cr lf buffer)
    (hlimit : buffer.length ≤ maxHeaderBuffer) :
    p.drain = some (p, success) := by
  have hfind : findCrlf p.buffer = none := by
    rw [hready.buffer_eq]
    exact findDelim_eq_none_iff.mpr hfree
  have hawait : p.awaitLine = (p, success) := by
    rw [awaitLine, hready.buffer_eq, if_neg (not_lt.mpr hlimit)]
  apply drain_leave
  rcases hstate with rfl | rfl <;>
    simp [feedRound, hready.state_eq, hfind, hawait]

theorem cr_ne_lf : cr ≠ lf := by decide

theorem drain_await_line {p : HttpParser} {state : ParserState}
    {value : ResponseValue} {buffer line rest tail : Bytes}
    (hready : p.Ready state value buffer)
    (hstate : state = .statusLine ∨ state = .headers)
    (hline : LineText line) (hlimit : line.length < maxHeaderBuffer)
    (hsplit : buffer ++ tail = line ++ cr :: lf :: rest)
    (hshort : buffer.length < line.length + 2) :
    p.drain = some (p, success) :=
  drain_await hready hstate
    (free_of_prefix_line cr_ne_lf hline.free hsplit hshort) (by omega)

/-! ## Complete lines -/

theorem findCrlf_line {line : Bytes} (hline : LineText line)
    (rest : Bytes) :
    findCrlf (line ++ cr :: lf :: rest) = some line.length :=
  findDelim_append cr_ne_lf hline.free rest

theorem take_line (line rest : Bytes) :
    (line ++ cr :: lf :: rest).take line.length = line :=
  List.take_left' rfl

theorem drop_line (line rest : Bytes) :
    (line ++ cr :: lf :: rest).drop (line.length + 2) = rest := by
  simp

theorem drain_statusLine {head : ResponseHead} {p : HttpParser}
    {value : ResponseValue} {rest : Bytes}
    (hready : p.Ready .statusLine value
      (head.statusText ++ cr :: lf :: rest)) :
    ∃ next : HttpParser, p.drain = next.drain ∧
      next.Ready .headers
        { value with
          statusCode := head.code.toUInt16, reason := head.reason } rest := by
  have hround : p.feedRound = some (.again
      { p with
        response := { p.response with
          statusCode := head.code.toUInt16, reason := head.reason }
        buffer := rest
        state := .headers }) := by
    simp only [feedRound, hready.state_eq, hready.buffer_eq,
      findCrlf_line head.statusText_lineText, take_line, drop_line,
      head.parseStatusLine_statusText]
  refine ⟨_, drain_again hround, rfl, ?_, rfl, hready.growable⟩
  rw [← hready.value_eq]
  rfl

theorem drain_fieldLine {line : FieldLine} {p : HttpParser}
    {value : ResponseValue} {rest : Bytes}
    (hready : p.Ready .headers value (line.text ++ cr :: lf :: rest)) :
    ∃ next : HttpParser, p.drain = next.drain ∧
      next.Ready .headers
        { value with fields := value.fields ++ [line.field] } rest := by
  have hpos : line.text.length ≠ 0 := by
    simpa using line.text_ne_nil
  have hround : p.feedRound = some (.again
      { p with
        response := { p.response with
          headers :=
            p.response.headers.add line.field.name line.field.value }
        buffer := rest }) := by
    simp only [feedRound, hready.state_eq, hready.buffer_eq,
      findCrlf_line line.text_lineText, take_line, drop_line, if_neg hpos,
      line.parseHeaderLine_text]
  refine ⟨_, drain_again hround, hready.state_eq, ?_, rfl, hready.growable⟩
  rw [← hready.value_eq]
  rfl

theorem drain_emptyLine {p : HttpParser} {value : ResponseValue}
    {rest : Bytes}
    (hready : p.Ready .headers value (cr :: lf :: rest)) :
    ∃ next : HttpParser, p.drain = next.finishHeaders.drain ∧
      next.Ready .headers value rest := by
  have hfind : findCrlf (cr :: lf :: rest) = some 0 := by
    simp [findCrlf, findDelim]
  have hround : p.feedRound = some (.again
      (finishHeaders { p with buffer := rest })) := by
    simp only [feedRound, hready.state_eq, hready.buffer_eq, hfind, if_true,
      List.drop_succ_cons, List.drop_zero]
  exact ⟨_, drain_again hround, hready.state_eq, hready.value_eq, rfl,
    hready.growable⟩

theorem drain_fields {head : ResponseHead} {read expected : List FieldLine}
    (hlines : head.fieldLines = read ++ expected) {p : HttpParser}
    {rest : Bytes}
    (hready : p.Ready .headers
      { head.value with fields := read.map FieldLine.field }
      (encodeBlock cr lf (expected.map FieldLine.text) rest)) :
    ∃ q : HttpParser, p.drain = q.finishHeaders.drain ∧
      q.Ready .headers head.value rest := by
  induction expected generalizing p read with
  | nil =>
      have hall : read = head.fieldLines := by simp [hlines]
      rw [hall] at hready
      exact drain_emptyLine hready
  | cons line expected ih =>
      rw [List.map_cons, encodeBlock, encodeLines_cons, List.append_assoc,
        List.cons_append, List.cons_append] at hready
      obtain ⟨next, hdrain, hnext⟩ := drain_fieldLine hready
      have hread : read.map FieldLine.field ++ [line.field] =
          (read ++ [line]).map FieldLine.field := by simp
      simp only [hread] at hnext
      obtain ⟨q, hq, hqready⟩ := ih (by simp [hlines]) hnext
      exact ⟨q, hdrain.trans hq, hqready⟩

/-- A head which comes in one call may be of any length. -/
theorem feed_encode (head : ResponseHead) (rest : Bytes) :
    ∃ q : HttpParser,
      new.feed (head.encode ++ rest) = q.finishHeaders.drain ∧
        q.Ready .headers head.value rest := by
  have htext : head.encode ++ rest = head.statusText ++ cr :: lf ::
      encodeBlock cr lf (head.fieldLines.map FieldLine.text) rest := by
    simp [ResponseHead.encode, ResponseHead.lines, encodeBlock]
  have hready := ready_new.append (head.encode ++ rest)
  rw [List.nil_append, htext] at hready
  obtain ⟨next, hdrain, hnext⟩ := drain_statusLine hready
  obtain ⟨q, hq, hqready⟩ :=
    drain_fields (List.nil_append head.fieldLines).symm hnext
  refine ⟨q, ?_, hqready⟩
  rw [ready_new.feed_eq (by simp), htext]
  exact hdrain.trans hq

/-! ## Between two calls -/

/-- The text of the fields which are still expected, and what follows them. -/
def fieldsText (lines : List FieldLine) (body : Bytes) : Bytes :=
  encodeBlock cr lf (lines.map FieldLine.text) body

theorem fieldsText_nil (body : Bytes) :
    fieldsText [] body = cr :: lf :: body := by
  simp [fieldsText, encodeBlock]

theorem fieldsText_cons (line : FieldLine) (lines : List FieldLine)
    (body : Bytes) :
    fieldsText (line :: lines) body =
      line.text ++ cr :: lf :: fieldsText lines body := by
  simp [fieldsText, encodeBlock]

theorem length_fieldsText (lines : List FieldLine) (body : Bytes) :
    (fieldsText lines body).length =
      (fieldsText lines []).length + body.length := by
  simp only [fieldsText, encodeBlock, List.length_append,
    List.length_cons, List.length_nil]
  omega

/-- Waiting in the head with `tail` still to come. -/
inductive InHead (head : ResponseHead) (body : Bytes) (p : HttpParser)
    (tail : Bytes) : Prop where
  | status (buffer : Bytes)
      (ready : p.Ready .statusLine ⟨0, [], [], []⟩ buffer)
      (split : buffer ++ tail =
        head.statusText ++ cr :: lf :: fieldsText head.fieldLines body)
  | fields (buffer : Bytes) (read expected : List FieldLine)
      (lines : head.fieldLines = read ++ expected)
      (ready : p.Ready .headers
        { head.value with fields := read.map FieldLine.field } buffer)
      (split : buffer ++ tail = fieldsText expected body)

theorem InHead.not_complete {head : ResponseHead} {body tail : Bytes}
    {p : HttpParser} (hinHead : InHead head body p tail) :
    p.state = .statusLine ∨ p.state = .headers := by
  cases hinHead with
  | status _ hready _ => exact .inl hready.state_eq
  | fields _ _ _ _ hready _ => exact .inr hready.state_eq

/-- What a call does to a parser which waits in the head: it still waits, with
at least the empty line to come, or it has reached the body. -/
inductive HeadProgress (head : ResponseHead) (body : Bytes)
    (p : HttpParser) (tail : Bytes) : Prop where
  | waits (next : HttpParser) (result : p.drain = some (next, success))
      (inHead : InHead head body next tail)
      (short : body.length < tail.length)
  | body (q : HttpParser) (buffer : Bytes)
      (result : p.drain = q.finishHeaders.drain)
      (ready : q.Ready .headers head.value buffer)
      (split : buffer ++ tail = body)

theorem headProgress_fields {head : ResponseHead}
    (hlimit : head.WithinLimit) {body tail : Bytes}
    {p : HttpParser} {read expected : List FieldLine} {buffer : Bytes}
    (hlines : head.fieldLines = read ++ expected)
    (hready : p.Ready .headers
      { head.value with fields := read.map FieldLine.field } buffer)
    (hsplit : buffer ++ tail = fieldsText expected body) :
    HeadProgress head body p tail := by
  induction expected generalizing p read buffer with
  | nil =>
      have hempty : buffer ++ tail = [] ++ cr :: lf :: body := by
        rw [hsplit, fieldsText_nil, List.nil_append]
      by_cases hshort : buffer.length < ([] : Bytes).length + 2
      · have hawait := drain_await_line hready (.inr rfl)
          (show LineText [] by decide) (by decide) hempty hshort
        refine .waits p hawait
          (.fields buffer read [] hlines hready hsplit) ?_
        have hlength := congrArg List.length hempty
        simp only [List.length_append, List.length_cons,
          List.length_nil] at hlength hshort
        omega
      · obtain ⟨rest, hbuffer, hrest⟩ :=
          exists_rest_of_long hempty (by omega)
        rw [hbuffer] at hready
        obtain ⟨q, hdrain, hq⟩ := drain_emptyLine hready
        refine .body q rest hdrain ?_ hrest
        have hall : read = head.fieldLines := by simp [hlines]
        rw [hall] at hq
        exact hq
  | cons line expected ih =>
      rw [fieldsText_cons] at hsplit
      by_cases hshort : buffer.length < line.text.length + 2
      · have hmem : line.text ∈ head.lines := by
          simp only [ResponseHead.lines, hlines, List.map_append,
            List.map_cons]
          simp
        have hawait := drain_await_line hready (.inr rfl)
          line.text_lineText (hlimit _ hmem) hsplit hshort
        refine .waits p hawait (.fields buffer read (line :: expected)
          hlines hready (by rw [hsplit, fieldsText_cons])) ?_
        have hlength := congrArg List.length hsplit
        have hfields := length_fieldsText expected body
        simp only [List.length_append, List.length_cons] at hlength hshort
        omega
      · obtain ⟨rest, hbuffer, hrest⟩ :=
          exists_rest_of_long hsplit (by omega)
        rw [hbuffer] at hready
        obtain ⟨next, hdrain, hnext⟩ := drain_fieldLine hready
        have hread : read.map FieldLine.field ++ [line.field] =
            (read ++ [line]).map FieldLine.field := by simp
        simp only [hread] at hnext
        cases ih (by simp [hlines]) hnext hrest with
        | waits last hlast hinHead htail =>
            exact .waits last (hdrain.trans hlast) hinHead htail
        | body q buffer' hq hqready hqsplit =>
            exact .body q buffer' (hdrain.trans hq) hqready hqsplit

theorem headProgress {head : ResponseHead} (hlimit : head.WithinLimit)
    {body segment tail : Bytes} {p : HttpParser}
    (hinHead : InHead head body p (segment ++ tail)) :
    HeadProgress head body { p with buffer := p.buffer ++ segment }
      tail := by
  cases hinHead with
  | fields buffer read expected hlines hready hsplit =>
      exact headProgress_fields hlimit hlines (hready.append segment)
        (by rw [List.append_assoc, hsplit])
  | status buffer hready hsplit =>
      have happended := hready.append segment
      rw [← List.append_assoc] at hsplit
      by_cases hshort :
          (buffer ++ segment).length < head.statusText.length + 2
      · have hawait := drain_await_line happended (.inl rfl)
          head.statusText_lineText (hlimit _ (by simp [ResponseHead.lines]))
          hsplit hshort
        refine .waits _ hawait (.status _ happended hsplit) ?_
        have hlength := congrArg List.length hsplit
        have hfields := length_fieldsText head.fieldLines body
        rw [List.length_append] at hlength
        simp only [List.length_append, List.length_cons] at hlength hshort
        omega
      · obtain ⟨rest, hbuffer, hrest⟩ :=
          exists_rest_of_long hsplit (by omega)
        rw [hbuffer] at happended
        obtain ⟨next, hdrain, hnext⟩ := drain_statusLine happended
        have hstart : next.Ready .headers
            { head.value with fields := [].map FieldLine.field } rest :=
          hnext
        cases headProgress_fields hlimit (List.nil_append _).symm hstart
            hrest with
        | waits last hlast hinHead htail =>
            exact .waits last (hdrain.trans hlast) hinHead htail
        | body q buffer' hq hqready hqsplit =>
            exact .body q buffer' (hdrain.trans hq) hqready hqsplit

/-! ## Whole messages -/

theorem encode_append (head : ResponseHead) (body : Bytes) :
    head.encode ++ body =
      head.statusText ++ cr :: lf :: fieldsText head.fieldLines body := by
  simp [ResponseHead.encode, ResponseHead.lines, fieldsText, encodeBlock]

/-- The rule for messages.  `BodyInv p offset rest` says that the parser has
read `offset` bytes of the message and that `rest` is still to come; it has to
hold after the call which reaches the body, and to be preserved by every
further call. -/
theorem feedAll_message {head : ResponseHead} (hlimit : head.WithinLimit)
    (body : Bytes) (allowed : ℕ → Prop)
    (BodyInv : HttpParser → ℕ → Bytes → Prop)
    (hstart : ∀ (q : HttpParser) buffer rest, q.Ready .headers head.value buffer →
      buffer ++ rest = body →
      allowed (head.encode.length + buffer.length) →
      ∃ p r, q.finishHeaders.drain = some (p, r) ∧
        BodyInv p (head.encode.length + buffer.length) rest)
    (hstep : ∀ (p : HttpParser) offset segment rest,
      BodyInv p offset (segment ++ rest) →
      allowed (offset + segment.length) →
      ∃ next r, p.feed segment = some (next, r) ∧
        BodyInv next (offset + segment.length) rest)
    {segments : List Bytes} {rest : Bytes}
    (hcut : segments.flatten ++ rest = head.encode ++ body)
    (hallowed : ∀ n ∈ ends 0 segments, allowed n) :
    ∃ p, new.feedAll segments = some p ∧
      (segments.flatten.length < head.encode.length ∧
          (p.state = .statusLine ∨ p.state = .headers) ∨
        head.encode.length ≤ segments.flatten.length ∧
          BodyInv p segments.flatten.length rest) := by
  let total := head.encode.length + body.length
  let Inv : HttpParser → ℕ → Bytes → Prop := fun p offset tail =>
    offset + tail.length = total ∧
      (offset < head.encode.length ∧ InHead head body p tail ∨
        head.encode.length ≤ offset ∧ BodyInv p offset tail)
  have hinv : Inv new 0 (segments.flatten ++ rest) := by
    refine ⟨by rw [hcut]; simp [total], .inl ⟨?_, ?_⟩⟩
    · simp [ResponseHead.encode, encodeBlock]
    · exact .status [] ready_new (by
        rw [List.nil_append, hcut, encode_append])
  have hfeed : ∀ s offset segment tail,
      Inv s offset (segment ++ tail) → allowed (offset + segment.length) →
      ∃ next, (s.feed segment).map Prod.fst = some next ∧
        Inv next (offset + segment.length) tail := by
    rintro s offset segment tail ⟨htotal, hphase⟩ hok
    rw [List.length_append] at htotal
    rcases hphase with ⟨_, hinHead⟩ | ⟨hoffset, hbody⟩
    · have hdrain : s.feed segment =
          drain { s with buffer := s.buffer ++ segment } := by
        cases hinHead with
        | status _ hready _ => exact hready.feed_eq (by simp) segment
        | fields _ _ _ _ hready _ => exact hready.feed_eq (by simp) segment
      cases headProgress hlimit hinHead with
      | waits next hresult hnext hshort =>
          refine ⟨next, by rw [hdrain, hresult]; rfl, by omega,
            .inl ⟨by omega, hnext⟩⟩
      | body q buffer hresult hready hsplit =>
          have hlength := congrArg List.length hsplit
          rw [List.length_append] at hlength
          have hoffset : offset + segment.length =
              head.encode.length + buffer.length := by omega
          rw [hoffset] at hok
          obtain ⟨p, r, hp, hinvp⟩ := hstart q buffer tail hready hsplit hok
          refine ⟨p, by rw [hdrain, hresult, hp]; rfl, by omega,
            .inr ⟨by omega, ?_⟩⟩
          rw [hoffset]
          exact hinvp
    · obtain ⟨next, r, hnext, hinvnext⟩ :=
        hstep s offset segment tail hbody hok
      exact ⟨next, by rw [hnext]; rfl, by omega, .inr ⟨by omega, hinvnext⟩⟩
  obtain ⟨p, hrun, _, hphase⟩ := run_of_step allowed Inv hfeed hinv hallowed
  rw [Nat.zero_add] at hphase
  exact ⟨p, hrun, hphase.imp
    (fun h => ⟨h.1, h.2.not_complete⟩) id⟩

end HttpParser

end VynxHttp
