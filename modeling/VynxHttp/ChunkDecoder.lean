import VynxHttp.ChunkedSegmentation
import VynxHttp.ChunkGrammar
import VynxHttp.ParserBuffer

/-!
# What the decoder accepts

The loop over chunks completes exactly on the texts which start with a
`ReadBody` (`processChunked_readBody`, `exists_readBody`), and then takes over
the data of its chunks.  So the decoder accepts what the grammar describes, and
nothing else, exactly on the texts which are not read in another way than the
grammar has it (`StrictlyRead`).
-/

namespace VynxHttp

open DelimitedText FuelLoop Segmentation

namespace HttpParser

/-! ## The loop over chunks -/

theorem chunkRound_readChunk {p : HttpParser} {value : ResponseValue}
    {chunk : ReadChunk} {rest : Bytes}
    (hready : p.Ready .bodyChunked value (chunk.encode ++ rest)) :
    ∃ next : HttpParser, p.chunkRound = some (.again next) ∧
      next.Ready .bodyChunked (value.appendBody chunk.data) rest := by
  rw [chunk.encode_append] at hready
  have hround := chunkRound_line hready chunk.line_free
    chunk.parseChunkSize_line
  have hne : chunk.data.length ≠ 0 := by simpa using chunk.data_ne
  have hlong : ¬ (chunk.data ++ (chunk.ending ++ rest)).length <
      chunk.data.length + 2 := by
    have hending := chunk.ending_length
    simp only [List.length_append]
    omega
  rw [if_neg hne, if_neg hlong] at hround
  have herased : ({ p with
      buffer := chunk.data ++ (chunk.ending ++ rest) } : HttpParser).Ready
        .bodyChunked value (chunk.data ++ (chunk.ending ++ rest)) :=
    ⟨hready.state_eq, hready.value_eq, rfl, hready.growable⟩
  obtain ⟨next, htake, hnext, _⟩ := herased.takeBody chunk.data.length
  rw [List.take_left' rfl, List.drop_left' rfl] at hnext
  rw [htake, Option.map_some] at hround
  refine ⟨_, hround, hnext.state_eq, hnext.value_eq, ?_, hnext.growable⟩
  rw [hnext.buffer_eq]
  exact List.drop_left' chunk.ending_length

/-- What is left of a text when the line end after the last size line has been
taken off, if there is one. -/
def afterBody (rest : Bytes) : Bytes :=
  if rest.take 2 = crlf then rest.drop 2 else rest

theorem afterBody_split (rest : Bytes) :
    ∃ ending, (ending = [] ∨ ending = crlf) ∧
      rest = ending ++ afterBody rest := by
  unfold afterBody
  by_cases hcrlf : rest.take 2 = crlf
  · rw [if_pos hcrlf, ← hcrlf]
    exact ⟨rest.take 2, .inr rfl, (List.take_append_drop 2 rest).symm⟩
  · rw [if_neg hcrlf]
    exact ⟨[], .inl rfl, rfl⟩

/-- What starts with a body is read to the end of it. -/
theorem processChunked_readBody {p : HttpParser} {value : ResponseValue}
    {body : ReadBody} {rest : Bytes}
    (hready : p.Ready .bodyChunked value (body.encode ++ rest)) :
    ∃ q, p.processChunked = some (q, success) ∧
      q.Ready .complete (value.appendBody body.data) (afterBody rest) := by
  obtain ⟨chunks, last, hfree, hdigits, hsize⟩ := body
  induction chunks generalizing p value with
  | nil =>
      have htext : ReadBody.encode ⟨[], last, hfree, hdigits, hsize⟩ ++ rest =
          last ++ cr :: lf :: rest := by
        simp [ReadBody.encode, crlf]
      rw [htext] at hready
      have hround := chunkRound_line hready hfree
        (ReadBody.parseChunkSize_last ⟨[], last, hfree, hdigits, hsize⟩)
      rw [if_pos rfl] at hround
      refine ⟨_, runRanked_leave _ hround, rfl, ?_, rfl, hready.growable⟩
      simpa [ReadBody.data] using hready.value_eq
  | cons chunk chunks ih =>
      have htext : ReadBody.encode
          ⟨chunk :: chunks, last, hfree, hdigits, hsize⟩ ++ rest =
            chunk.encode ++ (ReadBody.encode
              ⟨chunks, last, hfree, hdigits, hsize⟩ ++ rest) := by
        simp [ReadBody.encode]
      rw [htext] at hready
      obtain ⟨next, hround, hnext⟩ := chunkRound_readChunk hready
      obtain ⟨q, hrun, hq⟩ := ih hnext
      refine ⟨q, (runRanked_again chunkRound_decreases hround).trans hrun, ?_⟩
      rw [ResponseValue.appendBody_appendBody] at hq
      exact hq

theorem exists_readChunk {p next : HttpParser}
    (hround : p.chunkRound = some (.again next)) :
    ∃ chunk : ReadChunk, p.buffer = chunk.encode ++ next.buffer := by
  obtain ⟨pos, chunkSize, q, hfind, hparse, hzero, hlong, htake, rfl⟩ :=
    chunkRound_again hround
  obtain ⟨hsplit, hfree⟩ := findDelim_spec hfind
  obtain ⟨hdigits, hspelled, hle⟩ := parseChunkSize_eq_ok_iff.mp hparse
  have hdata : ((p.buffer.drop (pos + 2)).take chunkSize).length =
      chunkSize := List.length_take_of_le (by omega)
  let chunk : ReadChunk :=
    { line := p.buffer.take pos
      data := (p.buffer.drop (pos + 2)).take chunkSize
      ending := ((p.buffer.drop (pos + 2)).drop chunkSize).take 2
      line_free := hfree
      digits_ne := hdigits
      size_eq := hspelled.trans hdata.symm
      data_ne := by
        intro hempty
        rw [hempty, List.length_nil] at hdata
        exact hzero hdata.symm
      data_le := by rwa [hdata]
      ending_length := by
        rw [List.length_take, List.length_drop]
        omega }
  refine ⟨chunk, ?_⟩
  rw [chunk.encode_append]
  simp only [chunk, takeBody_buffer htake, List.take_append_drop]
  exact hsplit

theorem exists_readBody {p : HttpParser} {step : Step}
    (hstate : p.state = .bodyChunked)
    (hprocess : p.processChunked = some step)
    (hcomplete : step.1.state = .complete) :
    ∃ (body : ReadBody) (rest : Bytes), p.buffer = body.encode ++ rest := by
  let Inv : HttpParser → Prop := fun q =>
    q.state = .bodyChunked ∧ ∃ chunks : List ReadChunk,
      p.buffer = chunks.flatMap ReadChunk.encode ++ q.buffer
  let Post : Step → Prop := fun step => step.1.state = .complete →
    ∃ (body : ReadBody) (rest : Bytes), p.buffer = body.encode ++ rest
  refine runRanked_of_invariant Inv Post ?_ ?_ ⟨hstate, [], rfl⟩ hprocess
    hcomplete
  · intro q next hinv hround
    obtain ⟨hq, chunks, hread⟩ := hinv
    obtain ⟨chunk, hbuffer⟩ := exists_readChunk hround
    obtain ⟨_, _, r, _, _, _, _, htake, hnext⟩ := chunkRound_again hround
    constructor
    · rw [hnext]
      obtain ⟨body, _, rfl⟩ := Option.map_eq_some_iff.mp htake
      exact hq
    · refine ⟨chunks ++ [chunk], ?_⟩
      rw [hread, hbuffer]
      simp
  · intro q result hinv hround hdone
    obtain ⟨hq, chunks, hread⟩ := hinv
    cases chunkRound_leave hround with
    | waits _ => simp [hq] at hdone
    | refuses _ _ _ _ => simp [hq] at hdone
    | short _ _ _ _ _ => simp [hq] at hdone
    | last pos hfind hparse =>
        obtain ⟨hsplit, hfree⟩ := findDelim_spec hfind
        obtain ⟨hdigits, hspelled, _⟩ := parseChunkSize_eq_ok_iff.mp hparse
        refine ⟨⟨chunks, q.buffer.take pos, hfree, hdigits, hspelled⟩,
          q.buffer.drop (pos + 2), ?_⟩
        rw [hread, ReadBody.encode, List.append_assoc]
        congr 1
        rw [crlf, List.append_assoc]
        exact hsplit

/-! ## Sound decoding -/

/-- What is consumed of `text` when `q` is left obeys the grammar, and the body
of the response is what it encodes. -/
def DecodedFrom (q : HttpParser) (text : Bytes) : Prop :=
  ∃ (body : ReadBody) (ending : Bytes), body.Grammatical ∧
    (ending = [] ∨ ending = crlf) ∧
    text = body.encode ++ (ending ++ q.buffer) ∧
    q.response.body.unread = body.data

/-- If the text starts with a body, then with one which obeys the grammar. -/
def StrictlyRead (text : Bytes) : Prop :=
  ∀ (body : ReadBody) (rest : Bytes), text = body.encode ++ rest →
    body.Grammatical

theorem drain_decodedFrom_iff {p : HttpParser} {value : ResponseValue}
    {text : Bytes} (hready : p.Ready .bodyChunked value text)
    (hbody : value.body = []) {step : Step} (hdrain : p.drain = some step) :
    (step.1.state = .complete → step.1.DecodedFrom text) ↔
      StrictlyRead text := by
  constructor
  · intro hsound body rest htext
    rw [htext] at hready
    obtain ⟨q, hprocess, hq⟩ := processChunked_readBody hready
    have hcomplete := drain_processChunked hready.state_eq hprocess
    rw [hdrain, Option.some.injEq] at hcomplete
    subst hcomplete
    obtain ⟨other, ending, hgrammatical, _, hother, _⟩ :=
      hsound hq.state_eq
    rw [htext] at hother
    rw [(ReadBody.encode_append_inj hother).1]
    exact hgrammatical
  · intro hstrict hcomplete
    obtain ⟨body, rest, htext⟩ : ∃ (body : ReadBody) (rest : Bytes),
        text = body.encode ++ rest := by
      obtain ⟨q, status, hprocess, _, hreturned, hfailed⟩ :=
        drain_bodyChunked hready.state_eq hdrain
      by_cases hstatus : status = success
      · rw [hreturned hstatus] at hcomplete
        rw [← hready.buffer_eq]
        exact exists_readBody hready.state_eq hprocess hcomplete
      · rw [hfailed hstatus] at hcomplete
        contradiction
    have hgrammatical := hstrict body rest htext
    rw [htext] at hready ⊢
    obtain ⟨q, hprocess, hq⟩ := processChunked_readBody hready
    have hresult := drain_processChunked hready.state_eq hprocess
    rw [hdrain, Option.some.injEq] at hresult
    subst hresult
    obtain ⟨ending, hending, hrest⟩ := afterBody_split rest
    refine ⟨body, ending, hgrammatical, hending, ?_, ?_⟩
    · rw [hq.buffer_eq, ← hrest]
    · have hvalue := congrArg ResponseValue.body hq.value_eq
      simpa [HttpResponse.value, ResponseValue.appendBody, hbody] using hvalue

/-- The calls which bring `text` after a head with chunked coding: on its own,
or together with the head. -/
inductive ChunkedCall (text : Bytes) : HttpParser → Bytes → Prop
  | afterHead (segments : List Bytes) (p : HttpParser)
      (run : new.feedAll segments = some p)
      (in_chunked : p.state = .bodyChunked)
      (nothing_buffered : p.buffer = [])
      (nothing_decoded : p.response.body.unread = []) :
      ChunkedCall text p text
  | withHead (head : ResponseHead)
      (chunked : head.headers.isChunked = true) :
      ChunkedCall text new (head.encode ++ text)

/-- A call which brings a text after a head with chunked coding completes with
what the grammar says, or not at all, exactly when the text is not read in
another way. -/
theorem feed_decodedFrom_iff {text data : Bytes} {p : HttpParser}
    (hcall : ChunkedCall text p data) :
    ∃ step, p.feed data = some step ∧
      ((step.1.state = .complete → step.1.DecodedFrom text) ↔
        StrictlyRead text) := by
  cases hcall with
  | afterHead segments p hrun hstate hbuffer hbody =>
      obtain ⟨q, hq, hkept⟩ := new_kept.feedAll segments
      rw [hrun, Option.some.injEq] at hq
      subst hq
      obtain ⟨step, hfeed, _⟩ := hkept.feed text
      refine ⟨step, hfeed, ?_⟩
      have hready : p.Ready .bodyChunked p.response.value [] :=
        ⟨hstate, rfl, hbuffer, hkept.growable⟩
      rw [hready.feed_eq (by simp)] at hfeed
      exact drain_decodedFrom_iff (hready.append text) hbody hfeed
  | withHead head hchunked =>
      obtain ⟨step, hfeed, _⟩ := new_kept.feed (head.encode ++ text)
      obtain ⟨q, hdrain, hq⟩ := feed_encode head text
      refine ⟨step, hfeed, ?_⟩
      rw [hdrain] at hfeed
      exact drain_decodedFrom_iff (finishHeaders_chunked hchunked hq) rfl
        hfeed

open ChunkedResponse (hello)

/-- A chunk as the grammar has it. -/
theorem feed_decodedFrom_iff_hello :
    ∃ step, new.feed (hello.head.encode ++ hello.bodyText) = some step ∧
      ((step.1.state = .complete → step.1.DecodedFrom hello.bodyText) ↔
        StrictlyRead hello.bodyText) :=
  feed_decodedFrom_iff (.withHead hello.head hello.chunked)

/-- A size line with a letter behind its digits. -/
def letterBody : ReadBody :=
  .ofChunks
    [{ line := ascii "5x"
       data := ascii "abcde"
       ending := crlf
       line_free := by decide
       digits_ne := by decide
       size_eq := by decide
       data_ne := by decide
       data_le := by decide
       ending_length := rfl }]

theorem not_decodedFrom_letter :
    ¬ ∀ text p data, ChunkedCall text p data →
      ∃ step, p.feed data = some step ∧
        (step.1.state = .complete → step.1.DecodedFrom text) := by
  intro hall
  obtain ⟨step, hfeed, hsound⟩ :=
    hall (letterBody.encode ++ crlf) new _
      (.withHead hello.head hello.chunked)
  obtain ⟨q, hdrain, hq⟩ := feed_encode hello.head (letterBody.encode ++ crlf)
  rw [hdrain] at hfeed
  have hstrict := (drain_decodedFrom_iff
    (finishHeaders_chunked hello.chunked hq) rfl hfeed).mp hsound
  have hgrammatical := hstrict letterBody crlf rfl
  exact absurd hgrammatical.1 (by decide)

/-! ## Complete decoding -/

end HttpParser

/-- A chunk with spaces before its size. -/
structure SpacedChunk where
  spaces : ℕ
  chunk : Chunk

namespace SpacedChunk

def indent (spaced : SpacedChunk) : Bytes :=
  List.replicate spaced.spaces space

def encode (spaced : SpacedChunk) : Bytes :=
  spaced.indent ++ spaced.chunk.encode

theorem sizeDigits_indent (spaced : SpacedChunk) (line : Bytes) :
    sizeDigits (spaced.indent ++ line) = sizeDigits line := by
  have hspaces : ∀ b ∈ spaced.indent, (b == space) = true := by
    intro b hb
    rw [List.eq_of_mem_replicate hb]
    rfl
  rw [sizeDigits, sizeText, List.dropWhile_append_of_pos hspaces]
  rfl

theorem indent_lineText (spaced : SpacedChunk) : LineText spaced.indent := by
  refine LineText.of_all fun b hb => ?_
  rw [List.eq_of_mem_replicate hb]
  decide

/-- The chunk as the decoder sees it. -/
def read (spaced : SpacedChunk) : ReadChunk :=
  have hsize : spaced.chunk.sizeLine.size ≤ maxChunkSize := by
    rw [spaced.chunk.size_eq]
    exact spaced.chunk.data_le
  have hread := parseChunkSize_eq_ok_iff.mp
    (spaced.chunk.sizeLine.parseChunkSize_text hsize)
  { line := spaced.indent ++ spaced.chunk.sizeLine.text
    data := spaced.chunk.data
    ending := crlf
    line_free :=
      (spaced.indent_lineText.append
        spaced.chunk.sizeLine.text_lineText).free
    digits_ne := by
      rw [sizeDigits_indent]
      exact hread.1
    size_eq := by
      rw [spelledSize, sizeDigits_indent, ← spaced.chunk.size_eq]
      exact hread.2.1
    data_ne := spaced.chunk.data_ne
    data_le := spaced.chunk.data_le
    ending_length := rfl }

theorem encode_read (spaced : SpacedChunk) :
    spaced.read.encode = spaced.encode := by
  simp [read, ReadChunk.encode, encode, Chunk.encode, SizeLine.encode,
    Chunk.payload, crlf]

end SpacedChunk

/-- A response with chunked coding which comes in one piece. -/
structure WholeResponse where
  head : ResponseHead
  chunks : List SpacedChunk
  trailers : List FieldLine
  chunked : head.headers.isChunked = true

namespace WholeResponse

def trailerText (response : WholeResponse) : Bytes :=
  encodeBlock cr lf (response.trailers.map FieldLine.text) []

def encode (response : WholeResponse) : Bytes :=
  response.head.encode ++ (response.chunks.flatMap SpacedChunk.encode ++
    (ascii "0" ++ crlf ++ response.trailerText))

def data (response : WholeResponse) : Bytes :=
  response.chunks.flatMap fun spaced => spaced.chunk.data

def read (response : WholeResponse) : ReadBody :=
  .ofChunks (response.chunks.map SpacedChunk.read)

theorem encode_eq (response : WholeResponse) :
    response.encode = response.head.encode ++
      (response.read.encode ++ response.trailerText) := by
  have hchunks : (response.chunks.map SpacedChunk.read).flatMap
      ReadChunk.encode = response.chunks.flatMap SpacedChunk.encode := by
    rw [List.flatMap_map]
    simp only [SpacedChunk.encode_read]
  simp only [encode, ReadBody.encode, read, ReadBody.ofChunks, hchunks,
    List.append_assoc]

theorem data_read (response : WholeResponse) :
    response.read.data = response.data := by
  simp only [ReadBody.data, read, ReadBody.ofChunks, data, List.flatMap_map]
  rfl

/-- Every response with chunked coding which comes in one piece is read to its
end, and its body is the concatenation of the data of its chunks. -/
theorem parseResponse_encode (response : WholeResponse) :
    ∃ read, HttpParser.parseResponse response.encode = some (.ok read) ∧
      read.value = response.head.value.appendBody response.data := by
  obtain ⟨p, hfeed, hp⟩ := HttpParser.feed_encode response.head
    (response.read.encode ++ response.trailerText)
  obtain ⟨q, hprocess, hq⟩ := HttpParser.processChunked_readBody
    (HttpParser.finishHeaders_chunked response.chunked hp)
  have hdrain := HttpParser.drain_processChunked
    (HttpParser.finishHeaders_chunked response.chunked hp).state_eq hprocess
  have hstate : q.state = .complete := hq.state_eq
  refine ⟨q.response, ?_, ?_⟩
  · rw [HttpParser.parseResponse, encode_eq, hfeed, hdrain, Option.map_some]
    simp [success, hstate, HttpParser.releaseResponse]
  · rw [hq.value_eq, data_read]

/-- A size line between blanks and with an extension, data with a line end, and
a trailer. -/
def spacedHello : WholeResponse where
  head := ChunkedResponse.hello.head
  chunks :=
    [⟨2, { sizeLine :=
            { spelling := ascii "0A"
              extension := ascii " ;q=1"
              spelling_ne := by decide
              spelling_hex := by decide
              extension_text := by decide
              extension_head := by decide }
           data := ascii "hello\r\nyou"
           data_ne := by decide
           data_le := by decide
           size_eq := by decide }⟩,
      ⟨0, { sizeLine := .plain (ascii "3") (by decide) (by decide)
            data := ascii "all"
            data_ne := by decide
            data_le := by decide
            size_eq := by decide }⟩]
  trailers := [.plain ⟨ascii "Etag", ascii "1"⟩ (by decide)]
  chunked := ChunkedResponse.hello.chunked

theorem parseResponse_encode_spacedHello :
    spacedHello.encode = ascii ("HTTP/1.1 200 OK\r\n" ++
      "Transfer-Encoding: chunked\r\n\r\n" ++
      "  0A ;q=1\r\nhello\r\nyou\r\n3\r\nall\r\n0\r\nEtag: 1\r\n\r\n") ∧
    ∃ read, HttpParser.parseResponse spacedHello.encode = some (.ok read) ∧
      read.value = spacedHello.head.value.appendBody
        (ascii "hello\r\nyouall") := by
  refine ⟨by decide +kernel, ?_⟩
  have hdata : spacedHello.data = ascii "hello\r\nyouall" := by decide
  rw [← hdata]
  exact parseResponse_encode spacedHello

end WholeResponse

end VynxHttp
