import VynxHttp.BodySteps
import VynxHttp.ParserCalls

/-!
# How much the parser keeps buffered

While the head is incomplete the buffer stays within the 8 KB limit, and the
two other body states leave it empty.  In chunked mode a buffered chunk is
limited by the maximum size of a chunk, but a size line is not: as long as its
line end has not come, whatever is received is kept.
-/

namespace VynxHttp

open DelimitedText FuelLoop Segmentation

namespace HttpParser

/-- The size of the buffer of `receive_response`. -/
def recvBufSize : ℕ := 8192

def chunkBufferLimit : ℕ := maxChunkSize + 2 + recvBufSize

def BufferBounded (p : HttpParser) : Prop :=
  match p.state with
  | .statusLine | .headers => p.buffer.length ≤ maxHeaderBuffer
  | .bodyRaw | .bodyUntilEof => p.buffer = []
  | .bodyChunked => p.buffer.length ≤ chunkBufferLimit
  | .complete | .error => True

/-- A call in chunked mode finds a line end, or what is buffered then is within
the limit. -/
def LineEnds (p : HttpParser) (data : Bytes) : Prop :=
  p.state = .bodyChunked → findCrlf (p.buffer ++ data) ≠ none ∨
    (p.buffer ++ data).length ≤ chunkBufferLimit

/-! ## Calls take from the buffer only -/

theorem Stops.length_le {p : HttpParser} {step : Step}
    (hstops : p.Stops step) : step.1.buffer.length ≤ p.buffer.length := by
  cases hstops with
  | waits _ _ =>
      unfold awaitLine
      split <;> exact le_rfl
  | fails failure _ => exact le_rfl
  | body q _ hprocess =>
      exact (processBody_step hprocess).consumes.buffer_suffix.length_le
  | bodyFails q code _ hprocess =>
      have hconsumes := (processBody_step hprocess).consumes
      exact hconsumes.buffer_suffix.length_le
  | done _ => exact le_rfl

theorem drain_length {p : HttpParser} {step : Step}
    (hstep : p.drain = some step) :
    step.1.buffer.length ≤ p.buffer.length := by
  refine runRanked_of_invariant
    (fun q => q.buffer.length ≤ p.buffer.length)
    (fun step => step.1.buffer.length ≤ p.buffer.length) ?_ ?_ le_rfl hstep
  · intro q next hq hround
    have hlt := feedRound_decreases q next hround
    exact le_trans hlt.le hq
  · intro q step hq hround
    exact le_trans (feedRound_leave hround).length_le hq

/-! ## Chunked mode -/

theorem drain_bodyChunked {p : HttpParser} {step : Step}
    (hstate : p.state = .bodyChunked) (hstep : p.drain = some step) :
    ∃ q status, p.processChunked = some (q, status) ∧
      step.1.buffer = q.buffer ∧
      (status = success → step = (q, success)) ∧
      (status ≠ success → step.1.state = .error) := by
  have hbody : p.processBody = p.processChunked := by
    simp only [processBody, hstate]
  cases hprocess : p.processChunked with
  | none =>
      have hround : p.feedRound = none := by
        simp only [feedRound, hstate, hbody, hprocess, Option.map_none]
      simp [drain, runRanked, FuelLoop.run, hround] at hstep
  | some result =>
      obtain ⟨q, status⟩ := result
      refine ⟨q, status, rfl, ?_⟩
      cases status with
      | ok _ =>
          have hround : p.feedRound = some (.leave (q, success)) := by
            simp only [feedRound, hstate, hbody, hprocess, Option.map_some]
          have hdrain : p.drain = some (q, success) :=
            runRanked_leave _ hround
          rw [hdrain, Option.some.injEq] at hstep
          subst hstep
          exact ⟨rfl, fun _ => rfl, fun hne => absurd rfl hne⟩
      | error code =>
          have hround : p.feedRound = some (.leave
              ({ q with state := .error }, .error code)) := by
            simp only [feedRound, hstate, hbody, hprocess, Option.map_some]
          have hdrain : p.drain =
              some ({ q with state := .error }, .error code) :=
            runRanked_leave _ hround
          rw [hdrain, Option.some.injEq] at hstep
          subst hstep
          exact ⟨rfl, fun h => by simp [success] at h, fun _ => rfl⟩

theorem drain_unended {p : HttpParser} (hstate : p.state = .bodyChunked)
    (hfind : findCrlf p.buffer = none) :
    p.drain = some (p, success) := by
  have hround : p.chunkRound = some (.leave (p, success)) := by
    simp only [chunkRound, hfind]
  have hprocess : p.processChunked = some (p, success) :=
    runRanked_leave _ hround
  apply runRanked_leave
  simp only [feedRound, hstate, processBody, hprocess, Option.map_some,
    success]

/-- The first size line is gone after the call, unless the call fails. -/
theorem drain_lineEnd {p : HttpParser} {step : Step} {pos : ℕ}
    (hstate : p.state = .bodyChunked)
    (hfind : findCrlf p.buffer = some pos) (hstep : p.drain = some step) :
    step.1.state = .error ∨
      step.1.buffer.length + (pos + 2) ≤ p.buffer.length := by
  have hpos := findDelim_lt hfind
  obtain ⟨q, status, hprocess, hbuffer, _, hfails⟩ :=
    drain_bodyChunked hstate hstep
  rw [hbuffer]
  have hloop := hprocess
  rw [processChunked, runRanked, FuelLoop.run] at hloop
  cases hround : p.chunkRound with
  | none => simp [hround] at hloop
  | some round =>
      cases round with
      | again next =>
          have hsame : p.processChunked = next.processChunked :=
            runRanked_again chunkRound_decreases hround
          obtain ⟨pos', chunkSize, r, hfind', _, _, _, htake, rfl⟩ :=
            chunkRound_again hround
          have hnext : r.state = .bodyChunked :=
            (takeBody_consumes htake).2.trans hstate
          have hbody :=
            processChunked_step (p := { r with buffer := r.buffer.drop 2 })
              hnext (hsame.symm.trans hprocess)
          have hle := hbody.consumes.buffer_suffix.length_le
          rw [hfind, Option.some.injEq] at hfind'
          subst hfind'
          simp only [takeBody_buffer htake, List.length_drop] at hle
          right
          omega
      | leave result =>
          have hresult : p.processChunked = some result :=
            runRanked_leave _ hround
          rw [hprocess, Option.some.injEq] at hresult
          subst hresult
          cases chunkRound_leave hround with
          | waits hnone => simp [hfind] at hnone
          | refuses _ _ _ _ =>
              exact .inl (hfails (by simp [success]))
          | last pos' hfind' _ =>
              rw [hfind, Option.some.injEq] at hfind'
              subst hfind'
              right
              simp only
              split <;> simp only [List.length_drop] <;> omega
          | short pos' _ hfind' _ _ =>
              rw [hfind, Option.some.injEq] at hfind'
              subst hfind'
              right
              simp only [List.length_drop]
              omega

/-! ## Calls -/

theorem Kept.bufferBounded {p : HttpParser} (hkept : p.Kept)
    (hchunked : p.state = .bodyChunked →
      p.buffer.length ≤ chunkBufferLimit) : p.BufferBounded := by
  have hsettled := hkept.settled
  unfold BufferBounded
  cases hstate : p.state <;> simp only [Settled, hstate] at hsettled ⊢
  · exact hsettled.2
  · exact hsettled.2
  · exact hsettled.2
  · exact hchunked hstate
  · exact hsettled

theorem feed_bufferBounded_iff {p : HttpParser} (hkept : p.Kept)
    {data : Bytes} (hdata : data.length ≤ recvBufSize) :
    ∃ next, (p.feed data).map Prod.fst = some next ∧ next.Kept ∧
      (next.BufferBounded ↔ p.LineEnds data) := by
  obtain ⟨step, hfeed, hnext⟩ := hkept.feed data
  refine ⟨step.1, by rw [hfeed, Option.map_some], hnext, ?_⟩
  by_cases hstopped : p.state = .error ∨ p.state = .complete
  · rw [HttpParser.feed, if_pos hstopped, Option.some.injEq] at hfeed
    subst hfeed
    constructor
    · intro _ hchunked
      rcases hstopped with h | h <;> simp [h] at hchunked
    · intro _
      apply hkept.bufferBounded
      intro hchunked
      rcases hstopped with h | h <;> simp [h] at hchunked
  · rw [HttpParser.feed, if_neg hstopped] at hfeed
    have hlength := drain_length hfeed
    rw [List.length_append] at hlength
    have hsettled := hkept.settled
    by_cases hchunked : p.state = .bodyChunked
    · simp only [Settled, hchunked] at hsettled
      cases hfind : findCrlf (p.buffer ++ data) with
      | none =>
          have hdrain := drain_unended
            (p := { p with buffer := p.buffer ++ data }) hchunked hfind
          rw [hdrain, Option.some.injEq] at hfeed
          subst hfeed
          simp only [BufferBounded, LineEnds, hchunked, hfind, ne_eq,
            not_true_eq_false, false_or, true_implies]
      | some pos =>
          refine ⟨fun _ _ => .inl (by simp [hfind]), fun _ => ?_⟩
          apply hnext.bufferBounded
          intro hstate
          have hshorter := (drain_lineEnd
            (p := { p with buffer := p.buffer ++ data }) hchunked hfind
            hfeed).resolve_left (by simp [hstate])
          rw [List.length_append] at hshorter
          unfold chunkBufferLimit
          rcases hsettled with hfree | hshort
          · have hlt := lt_of_findDelim_append
              (findDelim_eq_none_iff.mp hfree) hfind
            omega
          · omega
    · refine ⟨fun _ h => absurd h hchunked, fun _ => ?_⟩
      apply hnext.bufferBounded
      intro _
      have hbuffer : p.buffer.length ≤ maxHeaderBuffer := by
        cases hstate : p.state <;>
          simp only [Settled, hstate] at hsettled hchunked hstopped
        all_goals simp_all
      have hlimit : maxHeaderBuffer + recvBufSize ≤ chunkBufferLimit := by
        decide
      omega

/-- When no call receives more than `receive_response` asks for, the buffer is
bounded throughout a run exactly when every call in chunked mode finds a line
end or is within the limit. -/
theorem feedAll_bufferBounded_iff (segments : List Bytes)
    (hsegments : ∀ segment ∈ segments, segment.length ≤ recvBufSize) :
    (∀ before after, segments = before ++ after →
      ∃ p, new.feedAll before = some p ∧ p.BufferBounded) ↔
        Along (fun p data => (p.feed data).map Prod.fst) LineEnds new
          segments :=
  forall_good_iff_along Kept BufferBounded
    (fun segment => segment.length ≤ recvBufSize)
    (fun _ _ hkept _ hsmall => feed_bufferBounded_iff hkept hsmall)
    new_kept (Nat.zero_le _) hsegments

def chunkedHead : Bytes :=
  ascii "HTTP/1.1 200 OK\r\nTransfer-Encoding: chunked\r\n\r\n"

/-- A chunk, in two calls of which the first ends within the size line. -/
theorem feedAll_bufferBounded_iff_chunk :
    (∀ before after, [chunkedHead ++ ascii "1", ascii "\r\na\r\n"] =
        before ++ after →
      ∃ p, new.feedAll before = some p ∧ p.BufferBounded) ↔
        Along (fun p data => (p.feed data).map Prod.fst) LineEnds new
          [chunkedHead ++ ascii "1", ascii "\r\na\r\n"] :=
  feedAll_bufferBounded_iff _ (by decide)

/-! ## A size line which does not end -/

/-- As much as one call receives, without a line end. -/
def endless : Bytes := List.replicate recvBufSize 97

theorem feedAll_endless {p : HttpParser} (hstate : p.state = .bodyChunked)
    (hbuffer : cr ∉ p.buffer) (n : ℕ) :
    ∃ q, p.feedAll (List.replicate n endless) = some q ∧
      q.state = .bodyChunked ∧
      q.buffer.length = p.buffer.length + n * recvBufSize := by
  induction n generalizing p with
  | zero => exact ⟨p, rfl, hstate, by simp⟩
  | succ n ih =>
      have hmore : cr ∉ p.buffer ++ endless := by
        simp only [List.mem_append, not_or]
        exact ⟨hbuffer, by simp [endless, cr]⟩
      have hfind : findCrlf (p.buffer ++ endless) = none :=
        findDelim_eq_none_iff.mpr (free_of_notMem_left hmore)
      have hfeed : p.feed endless =
          some ({ p with buffer := p.buffer ++ endless }, success) := by
        rw [HttpParser.feed, if_neg (by simp [hstate])]
        exact drain_unended hstate hfind
      obtain ⟨q, hrun, hq, hlength⟩ :=
        ih (p := { p with buffer := p.buffer ++ endless }) hstate hmore
      refine ⟨q, ?_, hq, ?_⟩
      · rw [List.replicate_succ, feedAll, run_cons_of_eq (by rw [hfeed]; rfl)]
        exact hrun
      · rw [hlength, List.length_append, endless, List.length_replicate]
        ring

/-- A server which never ends a size line makes the buffer grow beyond every
bound. -/
theorem not_bufferBounded_endless :
    ¬ ∀ segments : List Bytes,
      (∀ segment ∈ segments, segment.length ≤ recvBufSize) →
      ∃ p, new.feedAll segments = some p ∧ p.BufferBounded := by
  intro hall
  obtain ⟨p, hhead, hstate, hbuffer⟩ : ∃ p,
      (new.feed chunkedHead).map Prod.fst = some p ∧
        p.state = .bodyChunked ∧ p.buffer = [] := by
    have hrun : (new.feed chunkedHead).map
        (fun step => (step.1.state, step.1.buffer)) =
          some (.bodyChunked, []) := by decide +kernel
    obtain ⟨step, hfeed, hstep⟩ := Option.map_eq_some_iff.mp hrun
    simp only [Prod.mk.injEq] at hstep
    exact ⟨step.1, by rw [hfeed, Option.map_some], hstep⟩
  obtain ⟨q, hrun, hq, hlength⟩ :=
    feedAll_endless hstate (by simp [hbuffer]) 8200
  obtain ⟨r, hfed, hbounded⟩ :=
    hall (chunkedHead :: List.replicate 8200 endless) (by
      intro segment hmem
      rcases List.mem_cons.mp hmem with rfl | hmem
      · decide
      · rw [List.eq_of_mem_replicate hmem, endless, List.length_replicate])
  rw [feedAll, run_cons_of_eq hhead] at hfed
  rw [feedAll, hfed, Option.some.injEq] at hrun
  subst hrun
  simp only [BufferBounded, hq, hlength, hbuffer, List.length_nil,
    chunkBufferLimit, maxChunkSize, recvBufSize] at hbounded
  omega

end HttpParser

end VynxHttp
