import VynxHttp.ReceiveResponse

/-!
# Where a message ends without chunks and without a length

The parser knows the headers only, neither the method of the request nor
whether the peer has closed the connection.  A response which is read until the
connection closes is therefore never returned, and a response without a body
ends with its head exactly when its headers give the length zero.
-/

namespace VynxHttp

open DelimitedText FuelLoop Segmentation

namespace HttpParser

/-! ## Inside the head -/

theorem feedAll_inHead {head : ResponseHead} (hlimit : head.WithinLimit)
    {segments : List Bytes} {rest : Bytes}
    (hcut : segments.flatten ++ rest = head.encode) (hrest : rest ≠ []) :
    ∃ p, new.feedAll segments = some p ∧
      (p.state = .statusLine ∨ p.state = .headers) := by
  have hlength := congrArg List.length hcut
  have hpos := List.length_pos_of_ne_nil hrest
  rw [List.length_append] at hlength
  -- no call reaches the end of the head, so nothing is asked of the body
  obtain ⟨p, hrun, hphase⟩ :=
    feedAll_message hlimit [] (fun n => n < head.encode.length)
      (fun _ _ _ => False)
      (fun q buffer tail _ _ hok => absurd hok (by omega))
      (fun _ _ _ _ hfalse _ => hfalse.elim)
      (show segments.flatten ++ rest = head.encode ++ [] by
        rw [List.append_nil, hcut])
      (fun n hn => by
        have hle := (le_of_mem_ends hn).2
        omega)
  rcases hphase with ⟨_, hstate⟩ | ⟨_, hfalse⟩
  · exact ⟨p, hrun, hstate⟩
  · exact hfalse.elim

/-! ## At the end of the head -/

/-- A parser in a body state for which nothing is buffered. -/
structure Awaits (p : HttpParser) (value : ResponseValue) : Prop where
  ready : ∃ state, p.Ready state value [] ∧
    (state = .bodyRaw ∧ p.bodyRemaining ≠ 0 ∨ state = .bodyChunked ∨
      state = .bodyUntilEof)

theorem Awaits.not_complete {p : HttpParser} {value : ResponseValue}
    (hawaits : p.Awaits value) :
    p.state ≠ .complete ∧ p.state ≠ .error := by
  obtain ⟨state, hready, hstate⟩ := hawaits.ready
  rw [hready.state_eq]
  rcases hstate with ⟨rfl, _⟩ | rfl | rfl <;> simp

theorem Awaits.drain {p : HttpParser} {value : ResponseValue}
    (hawaits : p.Awaits value) : p.drain = some (p, success) := by
  obtain ⟨state, hready, hstate⟩ := hawaits.ready
  have hbuffer := hready.buffer_eq
  rcases hstate with ⟨rfl, hremaining⟩ | rfl | rfl
  · have hp := hready.state_eq
    refine drain_processBody (.inl hp) ?_
    simp [processBody, hp, processRaw, hremaining, hbuffer]
  · have hp := hready.state_eq
    refine drain_processBody (.inr (.inl hp)) ?_
    simp only [processBody, hp]
    exact runRanked_leave _ (chunkRound_await hready free_nil)
  · have hp := hready.state_eq
    refine drain_processBody (.inr (.inr hp)) ?_
    simp [processBody, hp, processUntilEof, hbuffer]

theorem Awaits.feed_nil {p : HttpParser} {value : ResponseValue}
    (hawaits : p.Awaits value) : p.feed [] = some (p, success) := by
  have hstate := hawaits.not_complete
  have hstop : ¬ (p.state = .error ∨ p.state = .complete) := by tauto
  rw [feed, if_neg hstop, List.append_nil]
  exact hawaits.drain

theorem finishHeaders_untilEof {head : ResponseHead}
    (hchunked : head.headers.isChunked = false)
    (hlength : head.headers.contentLength = none)
    {q : HttpParser} {buffer : Bytes}
    (hready : q.Ready .headers head.value buffer) :
    q.finishHeaders.Ready .bodyUntilEof head.value buffer := by
  have hfinish : q.finishHeaders = { q with state := .bodyUntilEof } := by
    unfold finishHeaders
    rw [HttpResponse.isChunked, HttpResponse.contentLength,
      hready.headers_eq, hchunked, hlength]
    rfl
  rw [hfinish]
  exact ⟨rfl, hready.value_eq, hready.buffer_eq, hready.growable⟩

end HttpParser

def ResponseHead.EndsMessage (head : ResponseHead) : Prop :=
  head.headers.isChunked = false ∧ head.headers.contentLength = some 0

instance (head : ResponseHead) : Decidable head.EndsMessage :=
  inferInstanceAs (Decidable (_ ∧ _))

namespace HttpParser

/-- What the parser does at the empty line when nothing else is buffered. -/
def AfterHead (head : ResponseHead) (p : HttpParser) : Prop :=
  head.EndsMessage ∧ p.Delivered head.value ∨
    ¬ head.EndsMessage ∧ p.Awaits head.value

theorem drain_headEnd {head : ResponseHead} {q : HttpParser}
    (hready : q.Ready .headers head.value []) :
    ∃ next, q.finishHeaders.drain = some (next, success) ∧
      next.AfterHead head := by
  cases hchunked : head.headers.isChunked with
  | true =>
      have hawaits : q.finishHeaders.Awaits head.value :=
        ⟨_, finishHeaders_chunked hchunked hready, .inr (.inl rfl)⟩
      refine ⟨_, hawaits.drain, .inr ⟨?_, hawaits⟩⟩
      simp [ResponseHead.EndsMessage, hchunked]
  | false =>
      cases hlength : head.headers.contentLength with
      | none =>
          have hawaits : q.finishHeaders.Awaits head.value :=
            ⟨_, finishHeaders_untilEof hchunked hlength hready,
              .inr (.inr rfl)⟩
          refine ⟨_, hawaits.drain, .inr ⟨?_, hawaits⟩⟩
          simp [ResponseHead.EndsMessage, hlength]
      | some length =>
          obtain ⟨hraw, hremaining⟩ :=
            finishHeaders_contentLength hchunked hlength hready
          cases length with
          | zero =>
              obtain ⟨next, hdrain, hnext⟩ :=
                drain_raw head.value [] hraw (List.append_nil _) hremaining
              refine ⟨next, hdrain, .inl ⟨⟨hchunked, hlength⟩, ?_⟩⟩
              rcases hnext with ⟨hdelivered, _⟩ | hmore
              · exact hdelivered
              · exact absurd rfl hmore.more
          | succ length =>
              have hawaits : q.finishHeaders.Awaits head.value :=
                ⟨_, hraw, .inl ⟨rfl, by simp [hremaining]⟩⟩
              refine ⟨_, hawaits.drain, .inr ⟨?_, hawaits⟩⟩
              simp [ResponseHead.EndsMessage, hlength]

theorem AfterHead.feed_nil {head : ResponseHead} {p : HttpParser}
    (hafter : p.AfterHead head) : p.feed [] = some (p, success) := by
  rcases hafter with ⟨_, hdelivered⟩ | ⟨_, hawaits⟩
  · exact hdelivered.feed []
  · exact hawaits.feed_nil

theorem feedAll_head {head : ResponseHead} (hlimit : head.WithinLimit)
    {segments : List Bytes} (hcut : segments.flatten = head.encode) :
    ∃ p, new.feedAll segments = some p ∧ p.AfterHead head := by
  obtain ⟨p, hrun, hphase⟩ :=
    feedAll_message hlimit [] (fun _ => True)
      (fun p _ rest => rest = [] ∧ p.AfterHead head)
      (fun q buffer rest hready hbody _ => by
        obtain ⟨rfl, rfl⟩ := List.append_eq_nil_iff.mp hbody
        obtain ⟨next, hdrain, hnext⟩ := drain_headEnd hready
        exact ⟨next, success, hdrain, rfl, hnext⟩)
      (fun p offset segment rest hinv _ => by
        obtain ⟨hempty, hafter⟩ := hinv
        obtain ⟨rfl, rfl⟩ := List.append_eq_nil_iff.mp hempty
        exact ⟨p, success, hafter.feed_nil, rfl, hafter⟩)
      (show segments.flatten ++ [] = head.encode ++ [] by rw [hcut])
      (by simp)
  rcases hphase with ⟨hshort, _⟩ | ⟨_, _, hafter⟩
  · rw [hcut] at hshort
    exact absurd hshort (lt_irrefl _)
  · exact ⟨p, hrun, hafter⟩

/-! ## Until the connection closes -/

/-- Between two calls in `body_until_eof`, with `rest` still to come. -/
def InUntilEof (value : ResponseValue) (p : HttpParser) (rest : Bytes) :
    Prop :=
  ∃ body, p.Ready .bodyUntilEof { value with body } [] ∧
    body ++ rest = value.body

theorem drain_untilEof (value : ResponseValue) (body rest : Bytes)
    {p : HttpParser} {buffer : Bytes}
    (hready : p.Ready .bodyUntilEof { value with body } buffer)
    (hsplit : body ++ (buffer ++ rest) = value.body) :
    ∃ next, p.drain = some (next, success) ∧
      next.InUntilEof value rest := by
  have hstate := hready.state_eq
  by_cases hempty : buffer = []
  · subst hempty
    refine ⟨p, drain_processBody (.inr (.inr hstate)) ?_, body, hready,
      by simpa using hsplit⟩
    simp [processBody, hstate, processUntilEof, hready.buffer_eq]
  · obtain ⟨next, htake, hnext, _⟩ := hready.takeBody buffer.length
    rw [List.take_length, List.drop_length] at hnext
    refine ⟨next, drain_processBody (.inr (.inr hstate)) ?_,
      body ++ buffer, hnext, by rw [List.append_assoc, hsplit]⟩
    have hne : p.buffer ≠ [] := by rw [hready.buffer_eq]; exact hempty
    rw [← hready.buffer_eq] at htake
    simp only [processBody, hstate, processUntilEof, if_neg hne, htake,
      Option.map_some]

/-- A head with neither chunks nor a length is never complete, whatever
follows it. -/
theorem feedAll_untilEof {head : ResponseHead} (hlimit : head.WithinLimit)
    (hchunked : head.headers.isChunked = false)
    (hlength : head.headers.contentLength = none) {body : Bytes}
    {segments : List Bytes} {rest : Bytes}
    (hcut : segments.flatten ++ rest = head.encode ++ body) :
    ∃ p, new.feedAll segments = some p ∧ p.state ≠ .complete ∧
      p.state ≠ .error := by
  let value := head.value.appendBody body
  obtain ⟨p, hrun, hphase⟩ :=
    feedAll_message hlimit body (fun _ => True)
      (fun p _ rest => p.InUntilEof value rest)
      (fun q buffer rest hready hbody _ => by
        obtain ⟨next, hdrain, hnext⟩ :=
          drain_untilEof value [] rest
            (finishHeaders_untilEof hchunked hlength hready)
            (by simpa [value, ResponseValue.appendBody, ResponseHead.value]
              using hbody)
        exact ⟨next, success, hdrain, hnext⟩)
      (fun p offset segment rest hinv _ => by
        obtain ⟨read, hready, hsplit⟩ := hinv
        obtain ⟨next, hdrain, hnext⟩ :=
          drain_untilEof _ _ _ (hready.append segment) (by simpa using hsplit)
        refine ⟨next, success, ?_, hnext⟩
        rw [hready.feed_eq (by simp) segment]
        exact hdrain)
      hcut (by simp)
  refine ⟨p, hrun, ?_⟩
  rcases hphase with ⟨_, hstate | hstate⟩ | ⟨_, _, hready, _⟩
  · simp [hstate]
  · simp [hstate]
  · simp [hready.state_eq]

end HttpParser

end VynxHttp
