import VynxHttp.ContentLengthBody

/-!
# Chunk-coded bodies

The chunk loop erases a size line before it knows whether the data of the chunk
is buffered.  A call which ends between the line end of a size line and the end
of that chunk therefore loses the size, and the next call takes the data for a
size line.  As long as no call ends there, the state between two calls is
described by the chunks which are still expected, and the message is complete
with the call which brings the line end of the last chunk's size line.
-/

namespace VynxHttp

open DelimitedText FuelLoop Segmentation

/-! ## Where a call may end -/

/-- An offset into the coded chunks after the size line of a chunk and before
the end of that chunk. -/
def InsideChunk : List Chunk → ℕ → Prop
  | [], _ => False
  | chunk :: chunks, n =>
      chunk.sizeLine.encode.length ≤ n ∧ n < chunk.encode.length ∨
        chunk.encode.length ≤ n ∧
          InsideChunk chunks (n - chunk.encode.length)

instance decidableInsideChunk :
    ∀ chunks n, Decidable (InsideChunk chunks n)
  | [], _ => inferInstanceAs (Decidable False)
  | chunk :: chunks, n =>
      have := decidableInsideChunk chunks (n - chunk.encode.length)
      inferInstanceAs (Decidable (_ ∨ _))

theorem insideChunk_cons_add (chunk : Chunk) (chunks : List Chunk) (n : ℕ) :
    InsideChunk (chunk :: chunks) (chunk.encode.length + n) ↔
      InsideChunk chunks n := by
  simp [InsideChunk]

theorem encodeChunks_cons (chunk : Chunk) (chunks : List Chunk) :
    encodeChunks (chunk :: chunks) =
      chunk.encode ++ encodeChunks chunks := by
  simp [encodeChunks]

theorem encodeChunks_append (first second : List Chunk) :
    encodeChunks (first ++ second) =
      encodeChunks first ++ encodeChunks second := by
  simp [encodeChunks]

theorem chunksData_append (first second : List Chunk) :
    chunksData (first ++ second) =
      chunksData first ++ chunksData second := by
  simp [chunksData]

theorem chunksData_cons (chunk : Chunk) (chunks : List Chunk) :
    chunksData (chunk :: chunks) = chunk.data ++ chunksData chunks := by
  simp [chunksData]

theorem insideChunk_append_add (read chunks : List Chunk) (n : ℕ) :
    InsideChunk (read ++ chunks) ((encodeChunks read).length + n) ↔
      InsideChunk chunks n := by
  induction read with
  | nil => simp [encodeChunks]
  | cons chunk read ih =>
      rw [List.cons_append, encodeChunks_cons, List.length_append,
        Nat.add_assoc, insideChunk_cons_add, ih]

namespace ChunkedResponse

def EndsInChunk (response : ChunkedResponse) (n : ℕ) : Prop :=
  response.head.encode.length ≤ n ∧
    InsideChunk response.chunks (n - response.head.encode.length)

instance (response : ChunkedResponse) (n : ℕ) :
    Decidable (response.EndsInChunk n) :=
  inferInstanceAs (Decidable (_ ∧ _))

def lastLineEnd (response : ChunkedResponse) : ℕ :=
  response.head.encode.length + (encodeChunks response.chunks).length +
    response.last.encode.length

/-- An offset after the last chunk's size line and before the end of the
message. -/
def EndsInTrailer (response : ChunkedResponse) (n : ℕ) : Prop :=
  response.lastLineEnd ≤ n ∧ n < response.encode.length

instance (response : ChunkedResponse) (n : ℕ) :
    Decidable (response.EndsInTrailer n) :=
  inferInstanceAs (Decidable (_ ∧ _))

theorem trailerText_ne_nil (response : ChunkedResponse) :
    response.trailerText ≠ [] := by
  simp [trailerText, encodeBlock]

theorem length_encode (response : ChunkedResponse) :
    response.encode.length =
      response.lastLineEnd + response.trailerText.length := by
  simp only [encode, bodyText, lastLineEnd, List.length_append]
  omega

end ChunkedResponse

namespace SizeLine

theorem encode_append (line : SizeLine) (rest : Bytes) :
    line.encode ++ rest = line.text ++ cr :: lf :: rest := by
  simp [encode, crlf]

theorem length_encode (line : SizeLine) :
    line.encode.length = line.text.length + 2 := by
  simp [encode, crlf]

end SizeLine

theorem Chunk.encode_append (chunk : Chunk) (rest : Bytes) :
    chunk.encode ++ rest =
      chunk.sizeLine.text ++ cr :: lf :: (chunk.payload ++ rest) := by
  rw [encode, List.append_assoc, SizeLine.encode_append]

theorem Chunk.length_payload (chunk : Chunk) :
    chunk.payload.length = chunk.data.length + 2 := by
  simp [payload, crlf]

namespace HttpParser

/-! ## One round of the chunk loop -/

theorem chunkRound_await {p : HttpParser} {state : ParserState}
    {value : ResponseValue} {buffer : Bytes}
    (hready : p.Ready state value buffer) (hfree : Free cr lf buffer) :
    chunkRound p = some (.leave (p, success)) := by
  have hfind : findCrlf p.buffer = none := by
    rw [hready.buffer_eq]
    exact findDelim_eq_none_iff.mpr hfree
  simp only [chunkRound, hfind]

theorem chunkRound_line {p : HttpParser} {state : ParserState}
    {value : ResponseValue} {line rest : Bytes} {size : ℕ}
    (hready : p.Ready state value (line ++ cr :: lf :: rest))
    (hfree : Free cr lf line) (hparse : parseChunkSize line = .ok size) :
    chunkRound p =
      if size = 0 then
        some (.leave
          ({ p with
              buffer := if rest.take 2 = crlf then rest.drop 2 else rest
              state := .complete }, success))
      else if rest.length < size + 2 then
        some (.leave ({ p with buffer := rest }, success))
      else
        (takeBody { p with buffer := rest } size).map fun next =>
          .again { next with buffer := next.buffer.drop 2 } := by
  have hfind : findCrlf (line ++ cr :: lf :: rest) = some line.length :=
    findDelim_append cr_ne_lf hfree rest
  simp only [chunkRound, hready.buffer_eq, hfind, take_line, drop_line,
    hparse]

theorem chunkRound_sizeLine {p : HttpParser} {state : ParserState}
    {value : ResponseValue} {chunk : Chunk} {rest : Bytes}
    (hready : p.Ready state value
      (chunk.sizeLine.text ++ cr :: lf :: rest)) :
    chunkRound p =
      if rest.length < chunk.data.length + 2 then
        some (.leave ({ p with buffer := rest }, success))
      else
        (takeBody { p with buffer := rest } chunk.data.length).map
          fun next => .again { next with buffer := next.buffer.drop 2 } := by
  have hsize : chunk.sizeLine.size ≤ maxChunkSize := by
    rw [chunk.size_eq]
    exact chunk.data_le
  have hparse := chunk.sizeLine.parseChunkSize_text hsize
  rw [chunk.size_eq] at hparse
  have hne : chunk.data.length ≠ 0 := by simpa using chunk.data_ne
  rw [chunkRound_line hready chunk.sizeLine.text_lineText.free hparse,
    if_neg hne]

theorem chunkRound_chunk {p : HttpParser} {state : ParserState}
    {value : ResponseValue} {chunk : Chunk} {rest : Bytes}
    (hready : p.Ready state value (chunk.encode ++ rest)) :
    ∃ next : HttpParser, chunkRound p = some (.again next) ∧
      next.Ready state (value.appendBody chunk.data) rest := by
  rw [chunk.encode_append] at hready
  have hround := chunkRound_sizeLine hready
  have hlong : ¬ (chunk.payload ++ rest).length <
      chunk.data.length + 2 := by
    rw [List.length_append, chunk.length_payload]
    omega
  rw [if_neg hlong] at hround
  have herased :
      ({ p with buffer := chunk.payload ++ rest } : HttpParser).Ready state
        value (chunk.payload ++ rest) :=
    ⟨hready.state_eq, hready.value_eq, rfl, hready.growable⟩
  obtain ⟨next, htake, hnext, _⟩ := herased.takeBody chunk.data.length
  rw [htake] at hround
  refine ⟨_, hround, hnext.state_eq, ?_, ?_, hnext.growable⟩
  · rw [Chunk.payload, List.append_assoc, List.take_left' rfl] at hnext
    exact hnext.value_eq
  · have hbuffer := hnext.buffer_eq
    rw [Chunk.payload, List.append_assoc, List.drop_left' rfl] at hbuffer
    rw [hbuffer]
    rfl

/-- The size line of a chunk which is not buffered to its end is lost. -/
theorem chunkRound_cut {p : HttpParser} {state : ParserState}
    {value : ResponseValue} {chunk : Chunk} {rest : Bytes}
    (hready : p.Ready state value
      (chunk.sizeLine.text ++ cr :: lf :: rest))
    (hshort : rest.length < chunk.payload.length) :
    ∃ next : HttpParser, chunkRound p = some (.leave (next, success)) ∧
      next.Ready state value rest := by
  have hround := chunkRound_sizeLine hready
  rw [chunk.length_payload] at hshort
  rw [if_pos hshort] at hround
  exact ⟨_, hround, hready.state_eq, hready.value_eq, rfl, hready.growable⟩

theorem chunkRound_last {p : HttpParser} {state : ParserState}
    {value : ResponseValue} {line rest : Bytes}
    (hready : p.Ready state value (line ++ cr :: lf :: rest))
    (hfree : Free cr lf line) (hparse : parseChunkSize line = .ok 0) :
    ∃ next : HttpParser, chunkRound p = some (.leave (next, success)) ∧
      next.Delivered value := by
  have hround := chunkRound_line hready hfree hparse
  rw [if_pos rfl] at hround
  exact ⟨_, hround, rfl, hready.value_eq⟩

/-! ## The chunk loop -/

theorem chunk_of_long {chunk : Chunk} {chunks : List Chunk}
    {buffer rest tail : Bytes}
    (htext : buffer ++ rest = encodeChunks (chunk :: chunks) ++ tail)
    (hlong : chunk.encode.length ≤ buffer.length) :
    ∃ more, buffer = chunk.encode ++ more ∧
      more ++ rest = encodeChunks chunks ++ tail := by
  rw [encodeChunks_cons, List.append_assoc] at htext
  have hwhole : chunk.encode <+: buffer ++ rest :=
    ⟨encodeChunks chunks ++ tail, htext.symm⟩
  obtain ⟨more, hmore⟩ :=
    List.prefix_of_prefix_length_le hwhole
      (List.prefix_append buffer rest) hlong
  refine ⟨more, hmore.symm, ?_⟩
  rw [← hmore, List.append_assoc] at htext
  exact List.append_cancel_left htext

/-- What the chunk loop does with the chunks `chunks` and the size line `last`
when `rest` is still to come after the buffer. -/
inductive ChunkProgress (chunks : List Chunk) (last : SizeLine)
    (trailer : Bytes) (value : ResponseValue) (rest : Bytes)
    (p : HttpParser) : Prop where
  | delivered (next : HttpParser)
      (result : p.processChunked = some (next, success))
      (done : next.Delivered (value.appendBody (chunksData chunks)))
      (short : rest.length ≤ trailer.length)
  | waits (next : HttpParser) (read expected : List Chunk) (buffer : Bytes)
      (result : p.processChunked = some (next, success))
      (split : chunks = read ++ expected)
      (ready : next.Ready .bodyChunked
        (value.appendBody (chunksData read)) buffer)
      (text : buffer ++ rest =
        encodeChunks expected ++ (last.encode ++ trailer))
      (long : trailer.length < rest.length)

theorem chunkProgress {chunks : List Chunk} {last : SizeLine}
    {trailer rest buffer : Bytes} {value : ResponseValue} {p : HttpParser}
    (hlast : last.size = 0)
    (hready : p.Ready .bodyChunked value buffer)
    (htext : buffer ++ rest =
      encodeChunks chunks ++ (last.encode ++ trailer))
    (hsafe : ¬ InsideChunk chunks buffer.length) :
    ChunkProgress chunks last trailer value rest p := by
  have hlength := congrArg List.length htext
  simp only [List.length_append] at hlength
  induction chunks generalizing p value buffer with
  | nil =>
      have hline : buffer ++ rest = last.text ++ cr :: lf :: trailer := by
        rw [htext, ← last.encode_append]
        simp [encodeChunks]
      rw [last.length_encode] at hlength
      simp only [encodeChunks, List.flatMap_nil, List.length_nil]
        at hlength
      by_cases hshort : buffer.length < last.text.length + 2
      · have hfree := free_of_prefix_line cr_ne_lf
          last.text_lineText.free hline hshort
        refine .waits p [] [] buffer
          (runRanked_leave _ (chunkRound_await hready hfree)) rfl
          (by simpa [chunksData] using hready) htext (by omega)
      · obtain ⟨tail, hbuffer, _⟩ := exists_rest_of_long hline (by omega)
        rw [hbuffer] at hready
        have hparse := last.parseChunkSize_text (by rw [hlast]; decide)
        rw [hlast] at hparse
        obtain ⟨next, hround, hnext⟩ :=
          chunkRound_last hready last.text_lineText.free hparse
        refine .delivered next (runRanked_leave _ hround) ?_ (by omega)
        simpa [chunksData] using hnext
  | cons chunk chunks ih =>
      have hline : buffer ++ rest = chunk.sizeLine.text ++ cr :: lf ::
          (chunk.payload ++
            (encodeChunks chunks ++ (last.encode ++ trailer))) := by
        rw [htext, encodeChunks_cons, List.append_assoc,
          chunk.encode_append]
      have hchunk : chunk.encode.length =
          chunk.sizeLine.encode.length + chunk.payload.length := by
        simp [Chunk.encode]
      rw [encodeChunks_cons, List.length_append] at hlength
      by_cases hshort : buffer.length < chunk.sizeLine.text.length + 2
      · have hfree := free_of_prefix_line cr_ne_lf
          chunk.sizeLine.text_lineText.free hline hshort
        rw [← chunk.sizeLine.length_encode] at hshort
        exact .waits p [] (chunk :: chunks) buffer
          (runRanked_leave _ (chunkRound_await hready hfree)) rfl
          (by simpa [chunksData] using hready) htext (by omega)
      · have hlong : chunk.encode.length ≤ buffer.length := by
          by_contra hcut
          apply hsafe
          rw [← chunk.sizeLine.length_encode] at hshort
          exact .inl ⟨by omega, by omega⟩
        obtain ⟨tail, hbuffer, htail⟩ := chunk_of_long htext hlong
        rw [hbuffer] at hready hsafe
        rw [List.length_append, insideChunk_cons_add] at hsafe
        obtain ⟨next, hround, hnext⟩ := chunkRound_chunk hready
        have hsame : p.processChunked = next.processChunked :=
          runRanked_again chunkRound_decreases hround
        have htailLength := congrArg List.length htail
        simp only [List.length_append] at htailLength
        cases ih hnext htail hsafe htailLength with
        | delivered final hresult hdone hrest =>
            refine .delivered final (hsame.trans hresult) ?_ hrest
            simpa [chunksData_cons] using hdone
        | waits final read expected buffer' hresult hsplit hwaits
            htext' hrest =>
            refine .waits final (chunk :: read) expected buffer'
              (hsame.trans hresult) (by simp [hsplit]) ?_ htext' hrest
            simpa [chunksData_cons] using hwaits

/-! ## Calls which end outside the chunks -/

/-- Between two calls, with whole chunks consumed and `rest` still to come. -/
def InChunks (response : ChunkedResponse) (p : HttpParser)
    (rest : Bytes) : Prop :=
  ∃ read expected buffer, response.chunks = read ++ expected ∧
    p.Ready .bodyChunked
      (response.head.value.appendBody (chunksData read)) buffer ∧
    buffer ++ rest = encodeChunks expected ++
      (response.last.encode ++ response.trailerText)

/-- In step with the message: delivered when the last size line has been read,
and waiting for it before that. -/
def InStep (response : ChunkedResponse) (p : HttpParser) (offset : ℕ)
    (rest : Bytes) : Prop :=
  offset + rest.length = response.encode.length ∧
    (rest.length ≤ response.trailerText.length ∧
        p.Delivered response.value ∨
      response.trailerText.length < rest.length ∧ InChunks response p rest)

theorem finishHeaders_chunked {head : ResponseHead}
    (hchunked : head.headers.isChunked = true)
    {q : HttpParser} {buffer : Bytes}
    (hready : q.Ready .headers head.value buffer) :
    q.finishHeaders.Ready .bodyChunked head.value buffer := by
  have hfinish : q.finishHeaders = { q with state := .bodyChunked } := by
    unfold finishHeaders
    rw [HttpResponse.isChunked, hready.headers_eq, hchunked]
    rfl
  rw [hfinish]
  exact ⟨rfl, hready.value_eq, hready.buffer_eq, hready.growable⟩

theorem drain_processChunked {p next : HttpParser}
    (hstate : p.state = .bodyChunked)
    (hresult : p.processChunked = some (next, success)) :
    p.drain = some (next, success) :=
  drain_processBody (.inr (.inl hstate)) (by
    simp only [processBody, hstate, hresult])

theorem drain_inStep {response : ChunkedResponse} {p : HttpParser}
    {read expected : List Chunk} {buffer rest : Bytes}
    (hchunks : response.chunks = read ++ expected)
    (hready : p.Ready .bodyChunked
      (response.head.value.appendBody (chunksData read)) buffer)
    (htext : buffer ++ rest = encodeChunks expected ++
      (response.last.encode ++ response.trailerText))
    {offset : ℕ} (hoffset : offset + rest.length = response.encode.length)
    (hsafe : ¬ response.EndsInChunk offset) :
    ∃ next, p.drain = some (next, success) ∧
      InStep response next offset rest := by
  have hlength := congrArg List.length htext
  have htotal := response.length_encode
  have hread : (encodeChunks response.chunks).length =
      (encodeChunks read).length + (encodeChunks expected).length := by
    rw [hchunks, encodeChunks_append, List.length_append]
  simp only [List.length_append] at hlength
  rw [ChunkedResponse.lastLineEnd] at htotal
  have hinside : ¬ InsideChunk expected buffer.length := by
    intro hinside
    apply hsafe
    have hrelative : offset - response.head.encode.length =
        (encodeChunks read).length + buffer.length := by omega
    refine ⟨by omega, ?_⟩
    rw [hrelative, hchunks, insideChunk_append_add]
    exact hinside
  cases chunkProgress response.last_size hready htext hinside with
  | delivered next hresult hdone hshort =>
      refine ⟨next, drain_processChunked hready.state_eq hresult, hoffset,
        .inl ⟨hshort, ?_⟩⟩
      rw [ResponseValue.appendBody_appendBody, ← chunksData_append,
        ← hchunks] at hdone
      exact hdone
  | waits next more expected' buffer' hresult hsplit hnext htext' hlong =>
      refine ⟨next, drain_processChunked hready.state_eq hresult, hoffset,
        .inr ⟨hlong, read ++ more, expected', buffer', ?_, ?_, htext'⟩⟩
      · rw [hchunks, hsplit, List.append_assoc]
      · rw [chunksData_append, ← ResponseValue.appendBody_appendBody]
        exact hnext

theorem InStep.feed {response : ChunkedResponse} {p : HttpParser}
    {offset : ℕ} {segment rest : Bytes}
    (hstep : InStep response p offset (segment ++ rest))
    (hsafe : ¬ response.EndsInChunk (offset + segment.length)) :
    ∃ next, p.feed segment = some (next, success) ∧
      InStep response next (offset + segment.length) rest := by
  obtain ⟨hoffset, hphase⟩ := hstep
  rw [List.length_append] at hoffset hphase
  have hnext : offset + segment.length + rest.length =
      response.encode.length := by omega
  rcases hphase with ⟨hshort, hdelivered⟩ | ⟨_, hinChunks⟩
  · exact ⟨p, hdelivered.feed segment, hnext,
      .inl ⟨by omega, hdelivered⟩⟩
  · obtain ⟨read, expected, buffer, hchunks, hready, htext⟩ := hinChunks
    rw [hready.feed_eq (by simp) segment]
    exact drain_inStep hchunks (hready.append segment)
      (by rw [List.append_assoc, htext]) hnext hsafe

theorem drain_chunkStart {response : ChunkedResponse} {q : HttpParser}
    {buffer rest : Bytes}
    (hready : q.Ready .headers response.head.value buffer)
    (hbody : buffer ++ rest = response.bodyText)
    (hsafe : ¬ response.EndsInChunk
      (response.head.encode.length + buffer.length)) :
    ∃ next, q.finishHeaders.drain = some (next, success) ∧
      InStep response next
        (response.head.encode.length + buffer.length) rest := by
  have hlength := congrArg List.length hbody
  rw [List.length_append] at hlength
  have htotal : response.encode.length =
      response.head.encode.length + response.bodyText.length := by
    simp [ChunkedResponse.encode]
  exact drain_inStep (List.nil_append response.chunks).symm
    (by simpa [chunksData] using finishHeaders_chunked response.chunked hready)
    (by rw [hbody, ChunkedResponse.bodyText]) (by omega) hsafe

/-- A run whose calls all end outside the chunks is in step. -/
theorem feedAll_inStep {response : ChunkedResponse}
    (hlimit : response.head.WithinLimit) {segments : List Bytes}
    {rest : Bytes} (hcut : segments.flatten ++ rest = response.encode)
    (hsafe : ∀ n ∈ ends 0 segments, ¬ response.EndsInChunk n) :
    ∃ p, new.feedAll segments = some p ∧
      (rest.length ≤ response.trailerText.length ∧
          p.Delivered response.value ∨
        response.trailerText.length < rest.length ∧
          p.state ≠ .complete) := by
  obtain ⟨p, hrun, hphase⟩ :=
    feedAll_message hlimit response.bodyText _ (InStep response)
      (fun q buffer rest hready hbody hok => by
        obtain ⟨next, hdrain, hnext⟩ := drain_chunkStart hready hbody hok
        exact ⟨next, success, hdrain, hnext⟩)
      (fun p offset segment rest hinv hok => by
        obtain ⟨next, hfeed, hnext⟩ := hinv.feed hok
        exact ⟨next, success, hfeed, hnext⟩)
      hcut hsafe
  refine ⟨p, hrun, ?_⟩
  rcases hphase with ⟨hshort, hstate⟩ | ⟨_, _, hphase⟩
  · right
    have hlength := congrArg List.length hcut
    simp only [List.length_append, ChunkedResponse.encode,
      ChunkedResponse.bodyText, response.last.length_encode] at hlength
    refine ⟨by omega, ?_⟩
    rcases hstate with hstate | hstate <;> simp [hstate]
  · refine hphase.imp id fun ⟨hlong, hinChunks⟩ => ⟨hlong, ?_⟩
    obtain ⟨_, _, _, _, hready, _⟩ := hinChunks
    simp [hready.state_eq]

/-! ## Calls which end inside a chunk -/

end HttpParser

/-- What the parser takes for a size line when it looks for one at the start
of the data. -/
def Chunk.dataLine (chunk : Chunk) : Bytes :=
  chunk.payload.take ((findCrlf chunk.payload).getD 0)

/-- The data of the chunk do not start with the text of a size line. -/
def Chunk.Unreadable (chunk : Chunk) : Prop :=
  (parseChunkSize chunk.dataLine).toOption = none

instance (chunk : Chunk) : Decidable chunk.Unreadable :=
  inferInstanceAs (Decidable (_ = none))

theorem Chunk.payload_eq (chunk : Chunk) :
    ∃ more, chunk.payload = chunk.dataLine ++ cr :: lf :: more ∧
      Free cr lf chunk.dataLine := by
  cases hfind : findCrlf chunk.payload with
  | none =>
      have hfree := findDelim_eq_none_iff.mp hfind
      exact absurd ⟨chunk.data, [], by simp [payload, crlf]⟩ hfree
  | some i =>
      obtain ⟨hsplit, hfree⟩ := findDelim_spec hfind
      refine ⟨chunk.payload.drop (i + 2), ?_, ?_⟩
      · rw [dataLine, hfind, Option.getD_some]
        exact hsplit
      · rw [dataLine, hfind, Option.getD_some]
        exact hfree

namespace HttpParser

theorem drain_unreadable {p : HttpParser} {value : ResponseValue}
    {line rest : Bytes}
    (hready : p.Ready .bodyChunked value (line ++ cr :: lf :: rest))
    (hfree : Free cr lf line)
    (hunreadable : (parseChunkSize line).toOption = none) :
    ∃ next r, p.drain = some (next, r) ∧ next.state = .error ∧
      next.response.value = value := by
  cases hparse : parseChunkSize line with
  | ok size => simp [hparse, Except.toOption] at hunreadable
  | error failure =>
      have hfind : findCrlf (line ++ cr :: lf :: rest) =
          some line.length := findDelim_append cr_ne_lf hfree rest
      have hround : chunkRound p = some (.leave
          ({ p with errorMessage := failure.message },
            .error failure.code)) := by
        simp only [chunkRound, hready.buffer_eq, hfind, take_line, hparse]
      have hloop : p.processChunked = some
          ({ p with errorMessage := failure.message },
            .error failure.code) := runRanked_leave _ hround
      have hbody : p.feedRound = some (.leave
          ({ p with errorMessage := failure.message, state := .error },
            .error failure.code)) := by
        simp only [feedRound, hready.state_eq, processBody, hloop,
          Option.map_some]
      exact ⟨_, _, drain_leave hbody, rfl, hready.value_eq⟩

/-- The size of the chunk `rest` continues has been lost: what is buffered and
still to come starts with a line which is no size line, or such a line has
been met. -/
inductive Lost (p : HttpParser) (rest : Bytes) : Prop where
  | failed (state_eq : p.state = .error)
  | pending (value : ResponseValue) (buffer line more : Bytes)
      (ready : p.Ready .bodyChunked value buffer)
      (free : Free cr lf line)
      (unreadable : (parseChunkSize line).toOption = none)
      (text : buffer ++ rest = line ++ cr :: lf :: more)

theorem Lost.not_complete {p : HttpParser} {rest : Bytes}
    (hlost : Lost p rest) : p.state ≠ .complete := by
  cases hlost with
  | failed hstate => simp [hstate]
  | pending _ _ _ _ hready _ _ _ => simp [hready.state_eq]

theorem Lost.feed {p : HttpParser} {segment rest : Bytes}
    (hlost : Lost p (segment ++ rest)) :
    ∃ next r, p.feed segment = some (next, r) ∧ Lost next rest := by
  cases hlost with
  | failed hstate =>
      exact ⟨p, success, by rw [HttpParser.feed, if_pos (.inl hstate)],
        .failed hstate⟩
  | pending value buffer line more hready hfree hunreadable htext =>
      rw [hready.feed_eq (by simp) segment]
      have happended := hready.append segment
      rw [← List.append_assoc] at htext
      by_cases hshort : (buffer ++ segment).length < line.length + 2
      · have hwait := runRanked_leave bufferLength
          (chunkRound_await happended
            (free_of_prefix_line cr_ne_lf hfree htext hshort))
        exact ⟨_, success,
          drain_processChunked happended.state_eq hwait,
          .pending value _ line more happended hfree hunreadable htext⟩
      · obtain ⟨tail, hbuffer, _⟩ := exists_rest_of_long htext (by omega)
        rw [hbuffer] at happended
        obtain ⟨next, r, hdrain, hstate, _⟩ :=
          drain_unreadable happended hfree hunreadable
        exact ⟨next, r, hdrain, .failed hstate⟩

theorem Lost.feedAll {p : HttpParser} {segments : List Bytes}
    {rest : Bytes} (hlost : Lost p (segments.flatten ++ rest)) :
    ∃ next, p.feedAll segments = some next ∧ Lost next rest := by
  have hfeed : ∀ (s : HttpParser) (offset : ℕ) segment tail,
      Lost s (segment ++ tail) → True →
      ∃ next, (s.feed segment).map Prod.fst = some next ∧
        Lost next tail := by
    intro s _ segment tail hs _
    obtain ⟨next, r, hnext, hlostNext⟩ := hs.feed
    exact ⟨next, by rw [hnext]; rfl, hlostNext⟩
  exact run_of_step (fun _ => True) (fun s _ tail => Lost s tail) hfeed
    hlost (fun n (_ : n ∈ ends 0 segments) => trivial)

end HttpParser

end VynxHttp
