import VynxHttp.ChunkedBody

/-!
# Chunk-coded responses under every segmentation

Parsing in segments agrees with parsing in one call as long as no call ends
inside a chunk.  The first call which does loses the size of that chunk, and
its data are then read as a size line: if they do not look like one, the
message is never completed.  No message which has a chunk at all survives
every segmentation, since a run of one byte in every call reads no data.
-/

namespace VynxHttp

open DelimitedText FuelLoop Segmentation

/-! ## The first chunk which is cut -/

/-- The chunk which an offset into the coded chunks lies inside. -/
def cutChunk : List Chunk → ℕ → Option Chunk
  | [], _ => none
  | chunk :: chunks, n =>
      if n < chunk.encode.length then
        if chunk.sizeLine.encode.length ≤ n then some chunk else none
      else cutChunk chunks (n - chunk.encode.length)

theorem cutChunk_cons_add (chunk : Chunk) (chunks : List Chunk) (n : ℕ) :
    cutChunk (chunk :: chunks) (chunk.encode.length + n) =
      cutChunk chunks n := by
  simp [cutChunk]

theorem cutChunk_append_add (read chunks : List Chunk) (n : ℕ) :
    cutChunk (read ++ chunks) ((encodeChunks read).length + n) =
      cutChunk chunks n := by
  induction read with
  | nil => simp [encodeChunks]
  | cons chunk read ih =>
      rw [List.cons_append, encodeChunks_cons, List.length_append,
        Nat.add_assoc, cutChunk_cons_add, ih]

theorem insideChunk_of_cutChunk {chunks : List Chunk} {n : ℕ}
    {chunk : Chunk} (hcut : cutChunk chunks n = some chunk) :
    InsideChunk chunks n := by
  induction chunks generalizing n with
  | nil => simp [cutChunk] at hcut
  | cons first chunks ih =>
      rw [cutChunk] at hcut
      split at hcut
      next hlt =>
        split at hcut
        next hle => exact .inl ⟨hle, hlt⟩
        next => simp at hcut
      next hlt => exact .inr ⟨not_lt.mp hlt, ih hcut⟩

theorem lt_of_insideChunk {chunks : List Chunk} {n : ℕ}
    (hinside : InsideChunk chunks n) : n < (encodeChunks chunks).length := by
  induction chunks generalizing n with
  | nil => exact hinside.elim
  | cons chunk chunks ih =>
      rw [encodeChunks_cons, List.length_append]
      rcases hinside with ⟨_, hlt⟩ | ⟨hle, hlater⟩
      · omega
      · have hlt := ih hlater
        omega

namespace ChunkedResponse

def chunkAt (response : ChunkedResponse) (n : ℕ) : Option Chunk :=
  if response.head.encode.length ≤ n then
    cutChunk response.chunks (n - response.head.encode.length)
  else none

def FirstCut (response : ChunkedResponse) (segments : List Bytes)
    (chunk : Chunk) : Prop :=
  ∃ earlier segment later, segments = earlier ++ segment :: later ∧
    (∀ n ∈ ends 0 earlier, ¬ response.EndsInChunk n) ∧
    response.chunkAt (earlier.flatten.length + segment.length) = some chunk

theorem endsInChunk_of_chunkAt {response : ChunkedResponse} {n : ℕ}
    {chunk : Chunk} (hchunk : response.chunkAt n = some chunk) :
    response.EndsInChunk n := by
  rw [chunkAt] at hchunk
  split at hchunk
  next hle => exact ⟨hle, insideChunk_of_cutChunk hchunk⟩
  next => simp at hchunk

theorem not_endsInChunk_of_le {response : ChunkedResponse} {n : ℕ}
    (hle : response.head.encode.length +
      (encodeChunks response.chunks).length ≤ n) :
    ¬ response.EndsInChunk n := by
  rintro ⟨_, hinside⟩
  have hlt := lt_of_insideChunk hinside
  omega

theorem not_endsInChunk_length (response : ChunkedResponse) :
    ¬ response.EndsInChunk response.encode.length := by
  apply not_endsInChunk_of_le
  rw [length_encode, lastLineEnd]
  omega

end ChunkedResponse

namespace HttpParser

/-! ## A call which ends inside a chunk -/

/-- The chunk loop leaves the data of the cut chunk without its size. -/
theorem processChunked_cut {chunks : List Chunk} {chunk : Chunk}
    {buffer rest tail : Bytes} {value : ResponseValue} {p : HttpParser}
    (hready : p.Ready .bodyChunked value buffer)
    (htext : buffer ++ rest = encodeChunks chunks ++ tail)
    (hcut : cutChunk chunks buffer.length = some chunk) :
    ∃ next value' buffer' after,
      p.processChunked = some (next, success) ∧
      next.Ready .bodyChunked value' buffer' ∧
      buffer' ++ rest = chunk.payload ++ after := by
  induction chunks generalizing p value buffer with
  | nil => simp [cutChunk] at hcut
  | cons first chunks ih =>
      by_cases hshort : buffer.length < first.encode.length
      · rw [cutChunk, if_pos hshort] at hcut
        have hline : first.sizeLine.encode.length ≤ buffer.length := by
          by_contra hnot
          rw [if_neg hnot] at hcut
          simp at hcut
        rw [if_pos hline, Option.some.injEq] at hcut
        subst hcut
        rw [first.sizeLine.length_encode] at hline
        rw [encodeChunks_cons, List.append_assoc, first.encode_append]
          at htext
        obtain ⟨data, hbuffer, hdata⟩ := exists_rest_of_long htext hline
        rw [hbuffer] at hready hshort
        have hpayload : data.length < first.payload.length := by
          simp only [Chunk.encode, List.length_append, List.length_cons,
            first.sizeLine.length_encode] at hshort
          omega
        obtain ⟨next, hround, hnext⟩ := chunkRound_cut hready hpayload
        exact ⟨next, value, data, encodeChunks chunks ++ tail,
          runRanked_leave _ hround, hnext, hdata⟩
      · obtain ⟨more, hbuffer, hmore⟩ :=
          chunk_of_long htext (not_lt.mp hshort)
        rw [hbuffer] at hready hcut
        rw [List.length_append, cutChunk_cons_add] at hcut
        obtain ⟨next, hround, hnext⟩ := chunkRound_chunk hready
        have hsame : p.processChunked = next.processChunked :=
          runRanked_again chunkRound_decreases hround
        rw [hsame]
        exact ih hnext hmore hcut

theorem drain_cut {response : ChunkedResponse} {p : HttpParser}
    {read expected : List Chunk} {buffer rest : Bytes} {offset : ℕ}
    {chunk : Chunk} (hchunks : response.chunks = read ++ expected)
    (hready : p.Ready .bodyChunked
      (response.head.value.appendBody (chunksData read)) buffer)
    (htext : buffer ++ rest = encodeChunks expected ++
      (response.last.encode ++ response.trailerText))
    (hoffset : offset + rest.length = response.encode.length)
    (hcut : response.chunkAt offset = some chunk)
    (hunreadable : chunk.Unreadable) :
    ∃ next, p.drain = some (next, success) ∧ Lost next rest := by
  have hlength := congrArg List.length htext
  have htotal := response.length_encode
  have hread : (encodeChunks response.chunks).length =
      (encodeChunks read).length + (encodeChunks expected).length := by
    rw [hchunks, encodeChunks_append, List.length_append]
  simp only [List.length_append] at hlength
  rw [ChunkedResponse.lastLineEnd] at htotal
  have hrelative : offset - response.head.encode.length =
      (encodeChunks read).length + buffer.length := by omega
  rw [ChunkedResponse.chunkAt, if_pos (by omega), hrelative, hchunks,
    cutChunk_append_add] at hcut
  obtain ⟨next, value, buffer', after, hresult, hnext, htext'⟩ :=
    processChunked_cut hready htext hcut
  obtain ⟨more, hpayload, hfree⟩ := chunk.payload_eq
  refine ⟨next, drain_processChunked hready.state_eq hresult,
    .pending value buffer' chunk.dataLine (more ++ after) hnext hfree
      hunreadable ?_⟩
  rw [htext', hpayload, List.append_assoc, List.cons_append,
    List.cons_append]

theorem InStep.feed_cut {response : ChunkedResponse} {p : HttpParser}
    {offset : ℕ} {segment rest : Bytes} {chunk : Chunk}
    (hstep : InStep response p offset (segment ++ rest))
    (hcut : response.chunkAt (offset + segment.length) = some chunk)
    (hunreadable : chunk.Unreadable) :
    ∃ next, p.feed segment = some (next, success) ∧ Lost next rest := by
  obtain ⟨hoffset, hphase⟩ := hstep
  rw [List.length_append] at hoffset hphase
  have hinside := ChunkedResponse.endsInChunk_of_chunkAt hcut
  have htotal := response.length_encode
  rcases hphase with ⟨hshort, _⟩ | ⟨_, hinChunks⟩
  · refine absurd hinside (ChunkedResponse.not_endsInChunk_of_le ?_)
    rw [ChunkedResponse.lastLineEnd] at htotal
    omega
  · obtain ⟨read, expected, buffer, hchunks, hready, htext⟩ := hinChunks
    rw [hready.feed_eq (by simp) segment]
    exact drain_cut hchunks (hready.append segment)
      (by rw [List.append_assoc, htext]) (by omega) hcut hunreadable

/-- Once a chunk with unreadable data has been cut, the message is never
complete. -/
theorem feedAll_firstCut {response : ChunkedResponse}
    (hlimit : response.head.WithinLimit) {segments : List Bytes}
    {rest : Bytes} (hcut : segments.flatten ++ rest = response.encode)
    {chunk : Chunk} (hfirst : response.FirstCut segments chunk)
    (hunreadable : chunk.Unreadable) :
    ∃ p, new.feedAll segments = some p ∧ p.state ≠ .complete := by
  obtain ⟨earlier, segment, later, rfl, hsafe, hchunk⟩ := hfirst
  obtain ⟨cut, hcutOffset⟩ :
      ∃ cut, cut = earlier.flatten.length + segment.length := ⟨_, rfl⟩
  rw [← hcutOffset] at hchunk
  have hinside := ChunkedResponse.endsInChunk_of_chunkAt hchunk
  have hsplit : (earlier ++ [segment]).flatten ++ (later.flatten ++ rest) =
      response.head.encode ++ response.bodyText := by
    rw [← ChunkedResponse.encode, ← hcut]
    simp
  have hlength : (earlier ++ [segment]).flatten.length = cut := by
    simp [hcutOffset]
  let BodyInv : HttpParser → ℕ → Bytes → Prop := fun p offset tail =>
    ¬ response.EndsInChunk offset ∧ InStep response p offset tail ∨
      Lost p tail
  obtain ⟨p, hrun, hphase⟩ :=
    feedAll_message hlimit response.bodyText
      (fun n => ¬ response.EndsInChunk n ∨ n = cut) BodyInv
      (fun q buffer tail hready hbody hok => by
        by_cases hin : response.EndsInChunk
            (response.head.encode.length + buffer.length)
        · have hoffset := hok.resolve_left (not_not_intro hin)
          rw [← hoffset] at hchunk
          have hlength := congrArg List.length hbody
          rw [List.length_append] at hlength
          have htotal : response.encode.length =
              response.head.encode.length + response.bodyText.length := by
            simp [ChunkedResponse.encode]
          obtain ⟨next, hdrain, hnext⟩ :=
            drain_cut (List.nil_append response.chunks).symm
              (by simpa [chunksData] using finishHeaders_chunked response.chunked hready)
              (by rw [hbody, ChunkedResponse.bodyText]) (by omega)
              hchunk hunreadable
          exact ⟨next, success, hdrain, .inr hnext⟩
        · obtain ⟨next, hdrain, hnext⟩ := drain_chunkStart hready hbody hin
          exact ⟨next, success, hdrain, .inl ⟨hin, hnext⟩⟩)
      (fun p offset data tail hinv hok => by
        rcases hinv with ⟨_, hstep⟩ | hlost
        · by_cases hin : response.EndsInChunk (offset + data.length)
          · have hoffset := hok.resolve_left (not_not_intro hin)
            rw [← hoffset] at hchunk
            obtain ⟨next, hfeed, hnext⟩ :=
              hstep.feed_cut hchunk hunreadable
            exact ⟨next, success, hfeed, .inr hnext⟩
          · obtain ⟨next, hfeed, hnext⟩ := hstep.feed hin
            exact ⟨next, success, hfeed, .inl ⟨hin, hnext⟩⟩
        · obtain ⟨next, r, hfeed, hnext⟩ := hlost.feed
          exact ⟨next, r, hfeed, .inr hnext⟩)
      hsplit
      (fun n hn => by
        rw [ends_append, List.mem_append] at hn
        rcases hn with hn | hn
        · exact .inl (hsafe n hn)
        · right
          simpa [hcutOffset] using hn)
  rw [hlength] at hphase
  have hlost : Lost p (later.flatten ++ rest) := by
    rcases hphase with ⟨hshort, _⟩ | ⟨_, ⟨hnot, _⟩ | hlost⟩
    · exact absurd hinside.1 (not_le.mpr hshort)
    · exact absurd hinside hnot
    · exact hlost
  obtain ⟨final, hfinal, hlostFinal⟩ := hlost.feedAll
  refine ⟨final, ?_, hlostFinal.not_complete⟩
  rw [feedAll, List.append_cons, run_append]
  rw [feedAll] at hrun hfinal
  rw [hrun, Option.bind_some, hfinal]

/-! ## One byte in every call -/

/-- No data have been read, and no size line is buffered. -/
inductive NothingRead (p : HttpParser) (value : ResponseValue) : Prop where
  | waits (buffer : Bytes) (ready : p.Ready .bodyChunked value buffer)
      (free : Free cr lf buffer)
  | stopped (state_eq : p.state = .error ∨ p.state = .complete)
      (value_eq : p.response.value = value)

theorem NothingRead.value_eq {p : HttpParser} {value : ResponseValue}
    (hnothing : NothingRead p value) : p.response.value = value := by
  cases hnothing with
  | waits _ hready _ => exact hready.value_eq
  | stopped _ hvalue => exact hvalue

/-- A size line which has just been completed is followed by no data. -/
theorem drain_short (buffer segment : Bytes) {p : HttpParser}
    {value : ResponseValue}
    (hready : p.Ready .bodyChunked value (buffer ++ segment))
    (hfree : Free cr lf buffer) (hshort : segment.length ≤ 1) :
    ∃ next r, p.drain = some (next, r) ∧ NothingRead next value := by
  cases hfind : findCrlf (buffer ++ segment) with
  | none =>
      have hwait := findDelim_eq_none_iff.mp hfind
      have hresult := runRanked_leave bufferLength
        (chunkRound_await hready hwait)
      exact ⟨p, success, drain_processChunked hready.state_eq hresult,
        .waits _ hready hwait⟩
  | some pos =>
      obtain ⟨hsplit, hline⟩ := findDelim_spec hfind
      generalize (buffer ++ segment).take pos = line at hsplit hline
      have hrest : (buffer ++ segment).drop (pos + 2) = [] := by
        by_contra hmore
        have hpos := List.length_pos_of_ne_nil hmore
        have hlength := congrArg List.length hsplit
        simp only [List.length_append, List.length_cons] at hlength
        obtain ⟨tail, hbuffer, _⟩ := exists_rest_of_long hsplit (by omega)
        exact hfree ⟨line, tail, by simp [hbuffer]⟩
      rw [hrest] at hsplit
      rw [hsplit] at hready
      cases hparse : parseChunkSize line with
      | error failure =>
          obtain ⟨next, r, hdrain, hstate, hvalue⟩ :=
            drain_unreadable hready hline (by rw [hparse]; rfl)
          exact ⟨next, r, hdrain, .stopped (.inl hstate) hvalue⟩
      | ok size =>
          cases size with
          | zero =>
              obtain ⟨next, hround, hnext⟩ :=
                chunkRound_last hready hline hparse
              exact ⟨next, success,
                drain_processChunked hready.state_eq
                  (runRanked_leave _ hround),
                .stopped (.inr hnext.state_eq) hnext.value_eq⟩
          | succ size =>
              have hround := chunkRound_line hready hline hparse
              rw [if_neg (Nat.succ_ne_zero size),
                if_pos (by simp)] at hround
              refine ⟨_, success,
                drain_processChunked hready.state_eq
                  (runRanked_leave _ hround), .waits [] ?_ (by simp [Free])⟩
              exact ⟨hready.state_eq, hready.value_eq, rfl,
                hready.growable⟩

theorem NothingRead.feed {p : HttpParser} {value : ResponseValue}
    (hnothing : NothingRead p value) (segment : Bytes)
    (hshort : segment.length ≤ 1) :
    ∃ next r, p.feed segment = some (next, r) ∧ NothingRead next value := by
  cases hnothing with
  | waits buffer hready hfree =>
      rw [hready.feed_eq (by simp) segment]
      exact drain_short _ segment (hready.append segment) hfree hshort
  | stopped hstate hvalue =>
      exact ⟨p, success, by rw [HttpParser.feed, if_pos hstate],
        .stopped hstate hvalue⟩

theorem NothingRead.feedAll {p : HttpParser} {value : ResponseValue}
    (hnothing : NothingRead p value) (segments : List Bytes)
    (hshort : ∀ segment ∈ segments, segment.length ≤ 1) :
    ∃ final, p.feedAll segments = some final ∧ NothingRead final value := by
  apply run_meets (fun segment => segment.length ≤ 1)
    (fun q => NothingRead q value) _ hnothing hshort
  intro q segment hq hsegment
  obtain ⟨next, r, hfeed, hnext⟩ := hq.feed segment hsegment
  exact ⟨next, by rw [hfeed, Option.map_some], hnext⟩

/-- With the head in one call and then one byte in every call, the body stays
empty. -/
theorem feedAll_bytes {response : ChunkedResponse}
    (hlimit : response.head.WithinLimit) :
    ∃ p, new.feedAll (response.head.encode ::
        response.bodyText.map fun b => [b]) = some p ∧
      p.response.value = response.head.value := by
  let BodyInv : HttpParser → ℕ → Bytes → Prop := fun p offset _ =>
    offset = response.head.encode.length ∧
      NothingRead p response.head.value
  obtain ⟨p, hrun, hphase⟩ :=
    feedAll_message hlimit response.bodyText
      (fun n => n = response.head.encode.length) BodyInv
      (fun q buffer rest hready _ hok => by
        have hbuffer : buffer = [] :=
          List.length_eq_zero_iff.mp (by omega)
        subst hbuffer
        obtain ⟨next, r, hdrain, hnext⟩ :=
          drain_short [] [] (finishHeaders_chunked response.chunked hready)
            (by simp [Free]) (by simp)
        exact ⟨next, r, hdrain, hok, hnext⟩)
      (fun p offset segment rest hinv hok => by
        obtain ⟨hoffset, hnothing⟩ := hinv
        obtain ⟨next, r, hfeed, hnext⟩ :=
          hnothing.feed segment (by omega)
        exact ⟨next, r, hfeed, hok, hnext⟩)
      (show [response.head.encode].flatten ++ response.bodyText = _ by simp)
      (by simp)
  have hnothing : NothingRead p response.head.value := by
    rcases hphase with ⟨hshort, _⟩ | ⟨_, _, hnothing⟩
    · simp at hshort
    · exact hnothing
  obtain ⟨final, hfinal, hread⟩ :=
    hnothing.feedAll (response.bodyText.map fun b => [b]) (by simp)
  refine ⟨final, ?_, hread.value_eq⟩
  rw [feedAll, ← List.singleton_append, run_append]
  rw [feedAll] at hrun hfinal
  rw [hrun, Option.bind_some, hfinal]

end HttpParser

/-! ## Agreement with parsing in one call -/

namespace ChunkedResponse

/-- The run is complete with the response which a single call gives. -/
def Agrees (response : ChunkedResponse) (segments : List Bytes) : Prop :=
  ∃ p q result, HttpParser.new.feedAll segments = some p ∧
    HttpParser.new.feed response.encode = some (q, result) ∧
    p.state = .complete ∧ p.response.value = q.response.value

theorem feed_encode {response : ChunkedResponse}
    (hlimit : response.head.WithinLimit) :
    ∃ q result, HttpParser.new.feed response.encode = some (q, result) ∧
      q.Delivered response.value := by
  obtain ⟨q, hrun, hphase⟩ :=
    HttpParser.feedAll_inStep hlimit
      (show [response.encode].flatten ++ [] = _ by simp) (by
        simpa using response.not_endsInChunk_length)
  rw [HttpParser.feedAll, Segmentation.run] at hrun
  simp only [run_nil, Option.bind_fun_some] at hrun
  obtain ⟨⟨next, result⟩, hfeed, rfl⟩ := Option.map_eq_some_iff.mp hrun
  refine ⟨next, result, hfeed, ?_⟩
  rcases hphase with ⟨_, hdelivered⟩ | ⟨hlong, _⟩
  · exact hdelivered
  · simp at hlong

theorem agrees_iff {response : ChunkedResponse}
    (hlimit : response.head.WithinLimit) {segments : List Bytes} :
    response.Agrees segments ↔
      ∃ p, HttpParser.new.feedAll segments = some p ∧
        p.Delivered response.value := by
  obtain ⟨q, result, hone, hdelivered⟩ := feed_encode hlimit
  constructor
  · rintro ⟨p, q', result', hrun, hone', hstate, hvalue⟩
    rw [hone, Option.some.injEq, Prod.mk.injEq] at hone'
    refine ⟨p, hrun, hstate, ?_⟩
    rw [hvalue, ← hone'.1, hdelivered.value_eq]
  · rintro ⟨p, hrun, hp⟩
    exact ⟨p, q, result, hrun, hone, hp.state_eq,
      hp.value_eq.trans hdelivered.value_eq.symm⟩

theorem agrees_of_safe {response : ChunkedResponse}
    (hlimit : response.head.WithinLimit) {segments : List Bytes}
    (hcut : segments.flatten = response.encode)
    (hsafe : ∀ n ∈ ends 0 segments, ¬ response.EndsInChunk n) :
    response.Agrees segments := by
  obtain ⟨p, hrun, hphase⟩ :=
    HttpParser.feedAll_inStep hlimit ((List.append_nil _).trans hcut)
      hsafe
  refine (agrees_iff hlimit).mpr ⟨p, hrun, ?_⟩
  rcases hphase with ⟨_, hdelivered⟩ | ⟨hlong, _⟩
  · exact hdelivered
  · simp at hlong

theorem not_agrees_of_firstCut {response : ChunkedResponse}
    (hlimit : response.head.WithinLimit) {segments : List Bytes}
    (hcut : segments.flatten = response.encode) {chunk : Chunk}
    (hfirst : response.FirstCut segments chunk)
    (hunreadable : chunk.Unreadable) : ¬ response.Agrees segments := by
  rintro ⟨p, _, _, hrun, _, hstate, _⟩
  obtain ⟨p', hrun', hnot⟩ :=
    HttpParser.feedAll_firstCut hlimit ((List.append_nil _).trans hcut)
      hfirst hunreadable
  rw [hrun, Option.some.injEq] at hrun'
  rw [← hrun'] at hnot
  exact hnot hstate

theorem exists_not_agrees {response : ChunkedResponse}
    (hlimit : response.head.WithinLimit) (hchunks : response.chunks ≠ []) :
    ∃ segments : List Bytes, segments.flatten = response.encode ∧
      ¬ response.Agrees segments := by
  refine ⟨response.head.encode :: response.bodyText.map fun b => [b],
    ?_, ?_⟩
  · rw [List.flatten_cons, encode, ← List.flatMap_def,
      List.flatMap_singleton']
  · intro hagrees
    obtain ⟨p, hrun, hdelivered⟩ := (agrees_iff hlimit).mp hagrees
    obtain ⟨p', hrun', hvalue⟩ := HttpParser.feedAll_bytes hlimit
    rw [hrun, Option.some.injEq] at hrun'
    rw [← hrun', hdelivered.value_eq] at hvalue
    have hdata : chunksData response.chunks = [] := by
      have hbody := congrArg ResponseValue.body hvalue
      simpa [value, ResponseHead.value, ResponseValue.appendBody] using hbody
    cases hlist : response.chunks with
    | nil => exact hchunks hlist
    | cons chunk chunks =>
        rw [hlist, chunksData_cons, List.append_eq_nil_iff] at hdata
        exact chunk.data_ne hdata.1

theorem not_endsInChunk_of_nil {response : ChunkedResponse}
    (hchunks : response.chunks = []) (n : ℕ) :
    ¬ response.EndsInChunk n := by
  rintro ⟨_, hinside⟩
  rw [hchunks] at hinside
  exact hinside

/-- A run agrees with a single call when no call ends inside a chunk.  Where
one does, the run fails when the data of the first such chunk cannot be read
as a size line; and some run fails for every message with a chunk. -/
theorem agrees_of_segmentation {response : ChunkedResponse}
    (hlimit : response.head.WithinLimit) :
    (∀ segments : List Bytes, segments.flatten = response.encode →
      (∀ n ∈ ends 0 segments, ¬ response.EndsInChunk n) →
        response.Agrees segments) ∧
    (∀ (segments : List Bytes) (chunk : Chunk),
      segments.flatten = response.encode →
      response.FirstCut segments chunk → chunk.Unreadable →
        ¬ response.Agrees segments) ∧
    ((∀ segments : List Bytes, segments.flatten = response.encode →
      response.Agrees segments) ↔ response.chunks = []) := by
  refine ⟨fun _ hcut hsafe => agrees_of_safe hlimit hcut hsafe,
    fun _ _ hcut hfirst hunreadable =>
      not_agrees_of_firstCut hlimit hcut hfirst hunreadable, ?_, ?_⟩
  · intro hall
    by_contra hchunks
    obtain ⟨segments, hcut, hnot⟩ := exists_not_agrees hlimit hchunks
    exact hnot (hall segments hcut)
  · intro hchunks segments hcut
    exact agrees_of_safe hlimit hcut
      fun n _ => not_endsInChunk_of_nil hchunks n

def transferLine : FieldLine :=
  .plain ⟨ascii "Transfer-Encoding", ascii "chunked"⟩ (by decide)

def hello : ChunkedResponse where
  head := .ok [transferLine]
  chunks :=
    [{ sizeLine := .plain (ascii "5") (by decide) (by decide)
       data := ascii "hello"
       data_ne := by decide
       data_le := by decide
       size_eq := by decide }]
  last := .zero
  trailers := []
  chunked := by decide
  last_size := by decide

/-- The first call ends between the size line of the chunk and its data. -/
def helloSegments : List Bytes :=
  [hello.head.encode ++ ascii "5" ++ crlf,
    ascii "hello" ++ crlf ++ ascii "0" ++ crlf ++ crlf]

theorem agrees_of_segmentation_hello :
    hello.Agrees [hello.head.encode, hello.bodyText] ∧
      ¬ hello.Agrees helloSegments :=
  ⟨(agrees_of_segmentation (show hello.head.WithinLimit by decide)).1 _
      (by decide) (by decide),
    (agrees_of_segmentation (show hello.head.WithinLimit by decide)).2.1 _ _
      (by decide) ⟨[], _, _, rfl, by simp, rfl⟩ (by decide)⟩

theorem not_agrees_hello :
    ¬ ∀ (response : ChunkedResponse) (segments : List Bytes),
      response.trailers = [] → response.head.WithinLimit →
      segments.flatten = response.encode → response.Agrees segments := by
  intro hall
  obtain ⟨p, _, _, hrun, _, hstate, _⟩ :=
    hall hello helloSegments rfl (by decide) (by decide)
  have herror : (HttpParser.new.feedAll helloSegments).map
      HttpParser.state = some .error := by decide
  rw [hrun, Option.map_some, Option.some.injEq, hstate] at herror
  exact absurd herror (by decide)

end ChunkedResponse

end VynxHttp
