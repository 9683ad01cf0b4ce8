import VynxHttp.DelimitedText
import VynxHttp.FuelLoop
import VynxHttp.HttpResponse
import VynxHttp.Result
import VynxHttp.Segmentation

/-!
# The incremental response parser

`HttpParser.feed` follows `http_parser::feed`.  The two loops of the source,
over lines and over chunks, are given by their bodies (`feedRound`,
`chunkRound`) and run by `FuelLoop`; every further round consumes bytes of the
buffer.  `none` stands for a call which does not return, which only a body
buffer of capacity zero can bring about.
-/

namespace VynxHttp

open DelimitedText FuelLoop

inductive ParserState where
  | statusLine
  | headers
  | bodyRaw
  | bodyChunked
  | bodyUntilEof
  | complete
  | error
  deriving DecidableEq, Repr

structure HttpParser where
  state : ParserState := .statusLine
  response : HttpResponse := {}
  errorMessage : String := ""
  buffer : Bytes := []
  bodyRemaining : ℕ := 0
  contentLengthSet : Bool := false

/-- Maximum allowed chunk size (64 MB). -/
def maxChunkSize : ℕ := 64 * 1024 * 1024

/-- Maximum bytes allowed in the parser buffer before the headers are
complete. -/
def maxHeaderBuffer : ℕ := 8192

/-- `buffer_.find("\r\n")`. -/
def findCrlf (text : Bytes) : Option ℕ := findDelim cr lf text

/-- A text for `error_` and the code which is returned with it. -/
structure ParseFailure where
  message : String
  code : ErrorCode
  deriving DecidableEq, Repr

/-! ## Lines -/

/-- The `int` accumulator over the digits of the status code, with two's
complement wrap-around; `none` at the first other character. -/
def readStatusCode (codeStr : Bytes) : Option ℤ :=
  codeStr.foldlM
    (fun code c =>
      if c < 48 ∨ 57 < c then none
      else some (Int.bmod (code * 10 + (c.toNat - 48)) (2 ^ 32)))
    0

def parseStatusLine (line : Bytes) :
    Except ParseFailure (UInt16 × Bytes) :=
  match cutAt space line with
  | none =>
      .error ⟨"missing status code in status line", .httpParseError⟩
  | some (version, rest) =>
      if version.length < 8 ∨ version.take 7 ≠ ascii "HTTP/1." then
        .error ⟨"invalid HTTP version", .httpInvalidVersion⟩
      else
        let (codeStr, reason) := (cutAt space rest).getD (rest, [])
        if codeStr = [] then
          .error ⟨"empty status code", .httpParseError⟩
        else
          match readStatusCode codeStr with
          | none => .error ⟨"non-digit in status code", .httpParseError⟩
          | some code =>
              if code < 100 ∨ 599 < code then
                .error ⟨"status code out of range", .httpParseError⟩
              else .ok (code.toNat.toUInt16, reason)

def isBlank (b : UInt8) : Bool := b == space || b == tab

def trimBlanks (value : Bytes) : Bytes :=
  ((value.dropWhile isBlank).reverse.dropWhile isBlank).reverse

def parseHeaderLine (line : Bytes) : Except ParseFailure HeaderField :=
  match cutAt colon line with
  | none => .error ⟨"missing colon in header line", .httpInvalidHeader⟩
  | some (name, rest) =>
      if name = [] then .error ⟨"empty header name", .httpInvalidHeader⟩
      else .ok ⟨name, trimBlanks rest⟩

/-- The size on a chunk-size line.  What follows the first `;` is ignored, and
so is what follows the digits. -/
def parseChunkSize (chunkLine : Bytes) : Except ParseFailure ℕ :=
  let hexStr := ((cutAt semicolon chunkLine).map Prod.fst).getD chunkLine
  let hexStr := hexStr.dropWhile (· == space)
  if hexStr = [] then
    .error ⟨"empty chunk size", .httpChunkedEncodingError⟩
  else
    match fromChars 16 (2 ^ 64) hexStr with
    | none =>
        .error ⟨"chunk size overflow or exceeds maximum",
          .httpChunkedEncodingError⟩
    | some (chunkSize, _) =>
        if maxChunkSize < chunkSize then
          .error ⟨"chunk size overflow or exceeds maximum",
            .httpChunkedEncodingError⟩
        else .ok chunkSize

/-- What `error_` may say of a head. -/
def headMessages : List String :=
  ["header section exceeds maximum size",
    "missing status code in status line", "invalid HTTP version",
    "empty status code", "non-digit in status code",
    "status code out of range", "missing colon in header line",
    "empty header name"]

/-- What `error_` may say of a chunk-coded body. -/
def chunkMessages : List String :=
  ["empty chunk size", "chunk size overflow or exceeds maximum"]

theorem parseStatusLine_ok {line reason : Bytes} {statusCode : UInt16}
    (hparse : parseStatusLine line = .ok (statusCode, reason)) :
    100 ≤ statusCode ∧ statusCode ≤ 599 := by
  unfold parseStatusLine at hparse
  split at hparse
  next => simp at hparse
  next =>
    split at hparse
    next => simp at hparse
    next =>
      simp only at hparse
      split at hparse
      next => simp at hparse
      next =>
        split at hparse
        next => simp at hparse
        next code _ =>
          split at hparse
          next => simp at hparse
          next hrange =>
            simp only [Except.ok.injEq, Prod.mk.injEq] at hparse
            have hvalue : code.toNat.toUInt16.toNat = code.toNat := by
              rw [Nat.toUInt16_eq, UInt16.toNat_ofNat']
              omega
            rw [← hparse.1, UInt16.le_iff_toNat_le, UInt16.le_iff_toNat_le,
              hvalue]
            constructor
            · show 100 ≤ code.toNat
              omega
            · show code.toNat ≤ 599
              omega

theorem parseStatusLine_message {line : Bytes} {failure : ParseFailure}
    (hparse : parseStatusLine line = .error failure) :
    failure.message ∈ headMessages := by
  unfold parseStatusLine at hparse
  split at hparse
  next =>
    simp only [Except.error.injEq] at hparse
    simp [← hparse, headMessages]
  next =>
    split at hparse
    next =>
      simp only [Except.error.injEq] at hparse
      simp [← hparse, headMessages]
    next =>
      simp only at hparse
      split at hparse
      next =>
        simp only [Except.error.injEq] at hparse
        simp [← hparse, headMessages]
      next =>
        split at hparse
        next =>
          simp only [Except.error.injEq] at hparse
          simp [← hparse, headMessages]
        next =>
          split at hparse
          next =>
            simp only [Except.error.injEq] at hparse
            simp [← hparse, headMessages]
          next => simp at hparse

theorem parseHeaderLine_message {line : Bytes} {failure : ParseFailure}
    (hparse : parseHeaderLine line = .error failure) :
    failure.message ∈ headMessages := by
  unfold parseHeaderLine at hparse
  split at hparse
  next =>
    simp only [Except.error.injEq] at hparse
    simp [← hparse, headMessages]
  next =>
    split at hparse
    next =>
      simp only [Except.error.injEq] at hparse
      simp [← hparse, headMessages]
    next => simp at hparse

theorem parseChunkSize_message {line : Bytes} {failure : ParseFailure}
    (hparse : parseChunkSize line = .error failure) :
    failure.message ∈ chunkMessages := by
  unfold parseChunkSize at hparse
  simp only at hparse
  split at hparse
  next =>
    simp only [Except.error.injEq] at hparse
    simp [← hparse, chunkMessages]
  next =>
    split at hparse
    next =>
      simp only [Except.error.injEq] at hparse
      simp [← hparse, chunkMessages]
    next =>
      split at hparse
      next =>
        simp only [Except.error.injEq] at hparse
        simp [← hparse, chunkMessages]
      next => simp at hparse

theorem parseChunkSize_le {line : Bytes} {chunkSize : ℕ}
    (hparse : parseChunkSize line = .ok chunkSize) :
    chunkSize ≤ maxChunkSize := by
  unfold parseChunkSize at hparse
  simp only at hparse
  split at hparse
  next => simp at hparse
  next =>
    split at hparse
    next => simp at hparse
    next =>
      split at hparse
      next => simp at hparse
      next hle =>
        simp only [Except.ok.injEq] at hparse
        exact hparse ▸ Nat.le_of_not_lt hle

namespace HttpParser

/-- A call's effect on the parser and its result. -/
abbrev Step := HttpParser × Result Unit

/-! ## Body -/

/-- `response_.body.write` of the first bytes of the buffer, which are then
erased. -/
def takeBody (p : HttpParser) (count : ℕ) : Option HttpParser :=
  (p.response.body.write (p.buffer.take count)).map fun body =>
    { p with
      response := { p.response with body }
      buffer := p.buffer.drop count }

def processRaw (p : HttpParser) : Option Step :=
  if p.bodyRemaining = 0 then
    some ({ p with state := .complete }, success)
  else if p.buffer = [] then some (p, success)
  else
    let toRead := min p.bodyRemaining p.buffer.length
    (p.takeBody toRead).map fun p =>
      let p := { p with bodyRemaining := p.bodyRemaining - toRead }
      (if p.bodyRemaining = 0 then { p with state := .complete } else p,
        success)

def chunkRound (p : HttpParser) : Option (Round HttpParser Step) :=
  match findCrlf p.buffer with
  | none => some (.leave (p, success))
  | some pos =>
      match parseChunkSize (p.buffer.take pos) with
      | .error failure =>
          some (.leave
            ({ p with errorMessage := failure.message },
              .error failure.code))
      | .ok chunkSize =>
          -- the size line is gone from here on, whatever follows it
          let p := { p with buffer := p.buffer.drop (pos + 2) }
          if chunkSize = 0 then
            let buffer :=
              if p.buffer.take 2 = crlf then p.buffer.drop 2 else p.buffer
            some (.leave ({ p with buffer, state := .complete }, success))
          else if p.buffer.length < chunkSize + 2 then
            some (.leave (p, success))
          else
            (p.takeBody chunkSize).map fun p =>
              .again { p with buffer := p.buffer.drop 2 }

def bufferLength (p : HttpParser) : ℕ := p.buffer.length

def processChunked (p : HttpParser) : Option Step :=
  runRanked chunkRound bufferLength p

def processUntilEof (p : HttpParser) : Option Step :=
  if p.buffer = [] then some (p, success)
  else (p.takeBody p.buffer.length).map fun p => (p, success)

def processBody (p : HttpParser) : Option Step :=
  match p.state with
  | .bodyRaw => p.processRaw
  | .bodyChunked => p.processChunked
  | .bodyUntilEof => p.processUntilEof
  | _ => some (p, success)

/-! ## Feeding -/

/-- The branch of both line states in which no line end is buffered. -/
def awaitLine (p : HttpParser) : Step :=
  if maxHeaderBuffer < p.buffer.length then
    ({ p with
        errorMessage := "header section exceeds maximum size"
        state := .error },
      .error .httpParseError)
  else (p, success)

def failWith (p : HttpParser) (failure : ParseFailure) : Step :=
  ({ p with errorMessage := failure.message, state := .error },
    .error failure.code)

def finishHeaders (p : HttpParser) : HttpParser :=
  if p.response.isChunked then { p with state := .bodyChunked }
  else
    match p.response.contentLength with
    | some length =>
        { p with
          bodyRemaining := length
          contentLengthSet := true
          state := .bodyRaw }
    | none => { p with state := .bodyUntilEof }

/-- One round of the loop of `feed`. -/
def feedRound (p : HttpParser) : Option (Round HttpParser Step) :=
  match p.state with
  | .statusLine =>
      match findCrlf p.buffer with
      | none => some (.leave p.awaitLine)
      | some pos =>
          match parseStatusLine (p.buffer.take pos) with
          | .error failure => some (.leave (p.failWith failure))
          | .ok (statusCode, reason) =>
              some (.again
                { p with
                  response := { p.response with statusCode, reason }
                  buffer := p.buffer.drop (pos + 2)
                  state := .headers })
  | .headers =>
      match findCrlf p.buffer with
      | none => some (.leave p.awaitLine)
      | some pos =>
          if pos = 0 then
            some (.again
              (finishHeaders { p with buffer := p.buffer.drop 2 }))
          else
            match parseHeaderLine (p.buffer.take pos) with
            | .error failure => some (.leave (p.failWith failure))
            | .ok field =>
                some (.again
                  { p with
                    response := { p.response with
                      headers := p.response.headers.add field.name field.value }
                    buffer := p.buffer.drop (pos + 2) })
  | .bodyRaw | .bodyChunked | .bodyUntilEof =>
      p.processBody.map fun step =>
        match step with
        | (p, .ok ()) => .leave (p, success)
        | (p, .error code) => .leave ({ p with state := .error }, .error code)
  | .complete | .error => some (.leave (p, success))

/-- The loop of `feed` over what is buffered. -/
def drain (p : HttpParser) : Option Step :=
  runRanked feedRound bufferLength p

/-- `http_parser::feed`. -/
def feed (p : HttpParser) (data : Bytes) : Option Step :=
  if p.state = .error ∨ p.state = .complete then some (p, success)
  else drain { p with buffer := p.buffer ++ data }

def new : HttpParser := {}

/-- `release_response`, with what is left of the moved-from `reason`. -/
def releaseResponse (p : HttpParser) (reason : Bytes) :
    HttpParser × HttpResponse :=
  ({ p with response := p.response.movedFrom reason }, p.response)

def reset (p : HttpParser) : HttpParser where
  state := .statusLine
  response :=
    { statusCode := 0
      reason := []
      headers := .empty
      body := p.response.body.reset }
  errorMessage := ""
  buffer := []
  bodyRemaining := 0
  contentLengthSet := false

/-- The state after one call of `feed` for each segment. -/
def feedAll (p : HttpParser) (segments : List Bytes) : Option HttpParser :=
  Segmentation.run (fun p data => (p.feed data).map Prod.fst) p segments

/-- `parse_response`; `none` when it does not return. -/
def parseResponse (data : Bytes) : Option (Result HttpResponse) :=
  (new.feed data).map fun step =>
    match step with
    | (_, .error code) => .error code
    | (p, .ok ()) =>
        if p.state = .error then .error .httpParseError
        else if p.state ≠ .complete then .error .httpParseError
        else .ok (p.releaseResponse []).2

/-! ## What a round can do -/

/-- A body buffer without capacity cannot be written to. -/
def Growable (p : HttpParser) : Prop := 0 < p.response.body.capacity

theorem takeBody_spec (p : HttpParser) (count : ℕ)
    (hgrowable : p.Growable) :
    ∃ body, p.takeBody count = some
        { p with
          response := { p.response with body }
          buffer := p.buffer.drop count } ∧
      body.unread = p.response.body.unread ++ p.buffer.take count ∧
      0 < body.capacity := by
  obtain ⟨body, hwrite, hunread, hcapacity⟩ :=
    p.response.body.write_spec (p.buffer.take count) hgrowable
  exact ⟨body, by rw [takeBody, hwrite, Option.map_some], hunread,
    hcapacity⟩

theorem takeBody_buffer {p next : HttpParser} {count : ℕ}
    (htake : p.takeBody count = some next) :
    next.buffer = p.buffer.drop count := by
  obtain ⟨body, _, rfl⟩ := Option.map_eq_some_iff.mp htake
  rfl

/-- Another round of the loop over chunks has moved a whole chunk. -/
theorem chunkRound_again {p next : HttpParser}
    (hround : p.chunkRound = some (.again next)) :
    ∃ pos chunkSize q, findCrlf p.buffer = some pos ∧
      parseChunkSize (p.buffer.take pos) = .ok chunkSize ∧
      chunkSize ≠ 0 ∧
      chunkSize + 2 ≤ (p.buffer.drop (pos + 2)).length ∧
      takeBody { p with buffer := p.buffer.drop (pos + 2) } chunkSize =
        some q ∧
      next = { q with buffer := q.buffer.drop 2 } := by
  unfold chunkRound at hround
  split at hround
  next => simp at hround
  next pos hfind =>
    split at hround
    next => simp at hround
    next chunkSize hsize =>
      simp only at hround
      split at hround
      next => simp at hround
      next hzero =>
        split at hround
        next => simp at hround
        next hlong =>
          obtain ⟨q, hq, hnext⟩ := Option.map_eq_some_iff.mp hround
          simp only [Round.again.injEq] at hnext
          exact ⟨pos, chunkSize, q, hfind, hsize, hzero,
            Nat.le_of_not_lt hlong, hq, hnext.symm⟩

/-- The rounds which leave the loop over chunks. -/
inductive ChunkStops (p : HttpParser) : Step → Prop where
  | waits (unfound : findCrlf p.buffer = none) : p.ChunkStops (p, success)
  | refuses (pos : ℕ) (failure : ParseFailure)
      (found : findCrlf p.buffer = some pos)
      (refused : parseChunkSize (p.buffer.take pos) = .error failure) :
      p.ChunkStops
        ({ p with errorMessage := failure.message }, .error failure.code)
  | last (pos : ℕ) (found : findCrlf p.buffer = some pos)
      (size : parseChunkSize (p.buffer.take pos) = .ok 0) :
      p.ChunkStops
        ({ p with
            buffer :=
              if (p.buffer.drop (pos + 2)).take 2 = crlf then
                (p.buffer.drop (pos + 2)).drop 2
              else p.buffer.drop (pos + 2)
            state := .complete }, success)
  | short (pos chunkSize : ℕ) (found : findCrlf p.buffer = some pos)
      (size : parseChunkSize (p.buffer.take pos) = .ok chunkSize)
      (short : (p.buffer.drop (pos + 2)).length < chunkSize + 2) :
      p.ChunkStops ({ p with buffer := p.buffer.drop (pos + 2) }, success)

theorem chunkRound_leave {p : HttpParser} {step : Step}
    (hround : p.chunkRound = some (.leave step)) : p.ChunkStops step := by
  unfold chunkRound at hround
  split at hround
  next hfind =>
    simp only [Option.some.injEq, Round.leave.injEq] at hround
    exact hround ▸ .waits hfind
  next pos hfind =>
    split at hround
    next failure hrefused =>
      simp only [Option.some.injEq, Round.leave.injEq] at hround
      exact hround ▸ .refuses pos failure hfind hrefused
    next chunkSize hsize =>
      simp only at hround
      split at hround
      next hzero =>
        subst hzero
        simp only [Option.some.injEq, Round.leave.injEq] at hround
        exact hround ▸ .last pos hfind hsize
      next =>
        split at hround
        next hshort =>
          simp only [Option.some.injEq, Round.leave.injEq] at hround
          exact hround ▸ .short pos chunkSize hfind hsize hshort
        next =>
          obtain ⟨q, _, hnext⟩ := Option.map_eq_some_iff.mp hround
          simp at hnext

/-- The rounds of `feed` which ask for another one. -/
inductive ReadsOn (p next : HttpParser) : Prop where
  | statusLine (pos : ℕ) (statusCode : UInt16) (reason : Bytes)
      (in_statusLine : p.state = .statusLine)
      (found : findCrlf p.buffer = some pos)
      (parsed : parseStatusLine (p.buffer.take pos) =
        .ok (statusCode, reason))
      (next_eq : next =
        { p with
          response := { p.response with statusCode, reason }
          buffer := p.buffer.drop (pos + 2)
          state := .headers })
  | endOfHead (in_headers : p.state = .headers)
      (found : findCrlf p.buffer = some 0)
      (next_eq : next =
        finishHeaders { p with buffer := p.buffer.drop 2 })
  | field (pos : ℕ) (field : HeaderField) (in_headers : p.state = .headers)
      (found : findCrlf p.buffer = some pos) (pos_ne : pos ≠ 0)
      (parsed : parseHeaderLine (p.buffer.take pos) = .ok field)
      (next_eq : next =
        { p with
          response := { p.response with
            headers := p.response.headers.add field.name field.value }
          buffer := p.buffer.drop (pos + 2) })

theorem feedRound_again {p next : HttpParser}
    (hround : p.feedRound = some (.again next)) : p.ReadsOn next := by
  unfold feedRound at hround
  split at hround
  next hstate =>
    split at hround
    next => simp at hround
    next pos hfind =>
      split at hround
      next => simp at hround
      next hparse =>
        simp only [Option.some.injEq, Round.again.injEq] at hround
        exact .statusLine pos _ _ hstate hfind hparse hround.symm
  next hstate =>
    split at hround
    next => simp at hround
    next pos hfind =>
      split at hround
      next hpos =>
        subst hpos
        simp only [Option.some.injEq, Round.again.injEq] at hround
        exact .endOfHead hstate hfind hround.symm
      next hpos =>
        split at hround
        next => simp at hround
        next hparse =>
          simp only [Option.some.injEq, Round.again.injEq] at hround
          exact .field pos _ hstate hfind hpos hparse hround.symm
  all_goals
    first
      | (obtain ⟨step, _, hstep⟩ := Option.map_eq_some_iff.mp hround
         split at hstep <;> simp at hstep)
      | simp at hround

/-- The line at the start of the buffer is not what the state asks for. -/
inductive Refuses (p : HttpParser) (failure : ParseFailure) : Prop where
  | statusLine (pos : ℕ) (in_statusLine : p.state = .statusLine)
      (found : findCrlf p.buffer = some pos)
      (refused : parseStatusLine (p.buffer.take pos) = .error failure)
  | field (pos : ℕ) (in_headers : p.state = .headers)
      (found : findCrlf p.buffer = some pos) (pos_ne : pos ≠ 0)
      (refused : parseHeaderLine (p.buffer.take pos) = .error failure)

/-- The rounds of `feed` which end it. -/
inductive Stops (p : HttpParser) : Step → Prop where
  | waits (in_head : p.state = .statusLine ∨ p.state = .headers)
      (unfound : findCrlf p.buffer = none) : p.Stops p.awaitLine
  | fails (failure : ParseFailure) (refuses : p.Refuses failure) :
      p.Stops (p.failWith failure)
  | body (q : HttpParser) (in_body : p.state = .bodyRaw ∨
        p.state = .bodyChunked ∨ p.state = .bodyUntilEof)
      (found : p.processBody = some (q, success)) :
      p.Stops (q, success)
  | bodyFails (q : HttpParser) (code : ErrorCode)
      (in_body : p.state = .bodyRaw ∨ p.state = .bodyChunked ∨
        p.state = .bodyUntilEof)
      (found : p.processBody = some (q, .error code)) :
      p.Stops ({ q with state := .error }, .error code)
  | done (stopped : p.state = .complete ∨ p.state = .error) :
      p.Stops (p, success)

theorem feedRound_leave {p : HttpParser} {step : Step}
    (hround : p.feedRound = some (.leave step)) : p.Stops step := by
  have hbody : (p.state = .bodyRaw ∨ p.state = .bodyChunked ∨
      p.state = .bodyUntilEof) → (p.processBody.map fun step =>
      match step with
      | (p, .ok ()) => (Round.leave (p, success) : Round HttpParser Step)
      | (p, .error code) => .leave ({ p with state := .error }, .error code))
        = some (.leave step) → p.Stops step := by
    intro hstate hround
    obtain ⟨⟨q, status⟩, hprocess, hstep⟩ := Option.map_eq_some_iff.mp hround
    cases status with
    | ok _ =>
        simp only [Round.leave.injEq] at hstep
        exact hstep ▸ .body q hstate hprocess
    | error code =>
        simp only [Round.leave.injEq] at hstep
        exact hstep ▸ .bodyFails q code hstate hprocess
  unfold feedRound at hround
  split at hround
  next hstate =>
    split at hround
    next hfind =>
      simp only [Option.some.injEq, Round.leave.injEq] at hround
      exact hround ▸ .waits (.inl hstate) hfind
    next pos hfind =>
      split at hround
      next failure hrefused =>
        simp only [Option.some.injEq, Round.leave.injEq] at hround
        exact hround ▸
          .fails failure (.statusLine pos hstate hfind hrefused)
      next => simp at hround
  next hstate =>
    split at hround
    next hfind =>
      simp only [Option.some.injEq, Round.leave.injEq] at hround
      exact hround ▸ .waits (.inr hstate) hfind
    next pos hfind =>
      split at hround
      next => simp at hround
      next hpos =>
        split at hround
        next failure hrefused =>
          simp only [Option.some.injEq, Round.leave.injEq] at hround
          exact hround ▸
            .fails failure (.field pos hstate hfind hpos hrefused)
        next => simp at hround
  next hstate => exact hbody (.inl hstate) hround
  next hstate => exact hbody (.inr (.inl hstate)) hround
  next hstate => exact hbody (.inr (.inr hstate)) hround
  next hstate =>
    simp only [Option.some.injEq, Round.leave.injEq] at hround
    exact hround ▸ .done (.inl hstate)
  next hstate =>
    simp only [Option.some.injEq, Round.leave.injEq] at hround
    exact hround ▸ .done (.inr hstate)

/-! ## The loops end -/

theorem chunkRound_decreases : Decreases chunkRound bufferLength := by
  intro p next hround
  obtain ⟨pos, chunkSize, q, hfind, _, _, _, htake, rfl⟩ :=
    chunkRound_again hround
  have hpos := findDelim_lt hfind
  have hbuffer := takeBody_buffer htake
  simp only [bufferLength, hbuffer, List.length_drop]
  omega

theorem bufferLength_finishHeaders (p : HttpParser) :
    (finishHeaders p).bufferLength = p.bufferLength := by
  unfold finishHeaders
  split
  next => rfl
  next => split <;> rfl

theorem feedRound_decreases : Decreases feedRound bufferLength := by
  intro p next hround
  cases feedRound_again hround with
  | statusLine pos statusCode reason _ hfind _ hnext =>
      have hpos := findDelim_lt hfind
      subst hnext
      simp only [bufferLength, List.length_drop]
      omega
  | endOfHead _ hfind hnext =>
      have hpos := findDelim_lt hfind
      subst hnext
      rw [bufferLength_finishHeaders]
      simp only [bufferLength, List.length_drop]
      omega
  | field pos field _ hfind _ _ hnext =>
      have hpos := findDelim_lt hfind
      subst hnext
      simp only [bufferLength, List.length_drop]
      omega

end HttpParser

end VynxHttp
