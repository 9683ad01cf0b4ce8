import VynxHttp.BodySteps
import VynxHttp.ParserCalls

/-!
# A parser which is used again

Two parsers are alike when they differ in the storage of their body buffers
only, and both buffers can grow; such parsers cannot be told apart
(`Alike.observations`).  `reset` keeps the storage, so a parser which has been
reset is alike to a new one, unless the storage has gone with a released
response: it stays without any, and no body can be read again.
-/

namespace VynxHttp

open FuelLoop Segmentation

namespace HttpParser

def withBody (p : HttpParser) (body : ByteBuffer) : HttpParser :=
  { p with response := { p.response with body } }

inductive Alike (p : HttpParser) : HttpParser → Prop where
  | intro (body : ByteBuffer) (unread : body.unread = p.response.body.unread)
      (growable : p.Growable) (growable' : 0 < body.capacity) :
      p.Alike (p.withBody body)

/-- Alike parsers with the same result. -/
def AlikeSteps (step step' : Step) : Prop :=
  step.1.Alike step'.1 ∧ step.2 = step'.2

def AlikeRounds : Option (Round HttpParser Step) →
    Option (Round HttpParser Step) → Prop
  | some round, some round' => Round.Rel Alike AlikeSteps round round'
  | _, _ => False

theorem AlikeRounds.exists_rounds {round round'}
    (halike : AlikeRounds round round') :
    ∃ r r', round = some r ∧ round' = some r' ∧
      Round.Rel Alike AlikeSteps r r' := by
  cases round with
  | none => exact halike.elim
  | some r =>
      cases round' with
      | none => exact halike.elim
      | some r' => exact ⟨r, r', rfl, rfl, halike⟩

/-! ## Alike parsers do the same -/

theorem Alike.takeBody {p q : HttpParser} (halike : p.Alike q) (count : ℕ) :
    ∃ p' q', p.takeBody count = some p' ∧ q.takeBody count = some q' ∧
      p'.Alike q' ∧ p'.buffer = p.buffer.drop count ∧
      p'.bodyRemaining = p.bodyRemaining := by
  cases halike with
  | intro body hunread hgrowable hgrowable' =>
      obtain ⟨first, hfirst, hunread₁, hgrow₁⟩ :=
        p.takeBody_spec count hgrowable
      obtain ⟨second, hsecond, hunread₂, hgrow₂⟩ :=
        (p.withBody body).takeBody_spec count hgrowable'
      refine ⟨_, _, hfirst, hsecond, .intro second ?_ hgrow₁ hgrow₂, rfl,
        rfl⟩
      exact hunread₂.trans ((congrArg (· ++ _) hunread).trans hunread₁.symm)

/-- Alike parsers stay so when everything but the bodies is changed in the same
way. -/
theorem Alike.map {p q : HttpParser} (halike : p.Alike q)
    (f : HttpParser → HttpParser)
    (hcomm : ∀ r body, f (r.withBody body) = (f r).withBody body)
    (hbody : ∀ r, (f r).response.body = r.response.body) :
    (f p).Alike (f q) := by
  cases halike with
  | intro body hunread hgrowable hgrowable' =>
      rw [hcomm]
      refine .intro body ?_ ?_ hgrowable'
      · rw [hbody, hunread]
      · rw [Growable, hbody]
        exact hgrowable

section

variable {p q : HttpParser}

theorem Alike.state_eq (halike : p.Alike q) : q.state = p.state := by
  cases halike
  rfl

theorem Alike.buffer_eq (halike : p.Alike q) : q.buffer = p.buffer := by
  cases halike
  rfl

theorem Alike.bodyRemaining_eq (halike : p.Alike q) :
    q.bodyRemaining = p.bodyRemaining := by
  cases halike
  rfl

theorem Alike.processRaw (halike : p.Alike q) :
    ∃ step step', p.processRaw = some step ∧ q.processRaw = some step' ∧
      AlikeSteps step step' := by
  unfold HttpParser.processRaw
  rw [halike.bodyRemaining_eq, halike.buffer_eq]
  by_cases hzero : p.bodyRemaining = 0
  · rw [if_pos hzero, if_pos hzero]
    have hdone := halike.map
      (fun r => { r with
        buffer := p.buffer
        bodyRemaining := p.bodyRemaining
        state := .complete })
      (fun _ _ => rfl) (fun _ => rfl)
    exact ⟨_, _, rfl, rfl, hdone, rfl⟩
  · rw [if_neg hzero, if_neg hzero]
    by_cases hempty : p.buffer = []
    · rw [if_pos hempty, if_pos hempty]
      exact ⟨_, _, rfl, rfl, halike, rfl⟩
    · rw [if_neg hempty, if_neg hempty]
      obtain ⟨p', q', hp, hq, hnext, _, _⟩ :=
        halike.takeBody (min p.bodyRemaining p.buffer.length)
      simp only [hp, hq, Option.map_some, hnext.bodyRemaining_eq]
      refine ⟨_, _, rfl, rfl, ?_, rfl⟩
      have hcount := hnext.map
        (fun r => { r with
          bodyRemaining := p'.bodyRemaining -
            min p.bodyRemaining p.buffer.length })
        (fun _ _ => rfl) (fun _ => rfl)
      by_cases hdone :
          p'.bodyRemaining - min p.bodyRemaining p.buffer.length = 0
      · rw [if_pos hdone, if_pos hdone]
        exact hcount.map (fun r => { r with state := .complete })
          (fun _ _ => rfl) (fun _ => rfl)
      · rw [if_neg hdone, if_neg hdone]
        exact hcount

theorem Alike.chunkRound (halike : p.Alike q) :
    AlikeRounds p.chunkRound q.chunkRound := by
  unfold HttpParser.chunkRound
  rw [halike.buffer_eq]
  cases findCrlf p.buffer with
  | none => exact .leave ⟨halike, rfl⟩
  | some pos =>
      simp only
      cases parseChunkSize (p.buffer.take pos) with
      | error failure =>
          have hfailed := halike.map
            (fun r => { r with
              buffer := p.buffer
              errorMessage := failure.message })
            (fun _ _ => rfl) (fun _ => rfl)
          exact .leave ⟨hfailed, rfl⟩
      | ok chunkSize =>
          have hline := halike.map
            (fun r => { r with buffer := p.buffer.drop (pos + 2) })
            (fun _ _ => rfl) (fun _ => rfl)
          simp only
          by_cases hzero : chunkSize = 0
          · rw [if_pos hzero, if_pos hzero]
            have hlast := hline.map
              (fun r => { r with
                buffer :=
                  if (p.buffer.drop (pos + 2)).take 2 = crlf then
                    (p.buffer.drop (pos + 2)).drop 2
                  else p.buffer.drop (pos + 2)
                state := .complete })
              (fun _ _ => rfl) (fun _ => rfl)
            exact .leave ⟨hlast, rfl⟩
          · rw [if_neg hzero, if_neg hzero]
            by_cases hshort :
                (p.buffer.drop (pos + 2)).length < chunkSize + 2
            · rw [if_pos hshort, if_pos hshort]
              exact .leave ⟨hline, rfl⟩
            · rw [if_neg hshort, if_neg hshort]
              obtain ⟨p', q', hp, hq, hnext, _, _⟩ :=
                hline.takeBody chunkSize
              rw [hp, hq, Option.map_some, Option.map_some,
                hnext.buffer_eq]
              exact .again (hnext.map
                (fun r => { r with buffer := p'.buffer.drop 2 })
                (fun _ _ => rfl) (fun _ => rfl))

theorem Alike.processChunked (halike : p.Alike q) :
    ∃ step step', p.processChunked = some step ∧
      q.processChunked = some step' ∧ AlikeSteps step step' :=
  runRanked_rel chunkRound_decreases chunkRound_decreases Alike AlikeSteps
    (fun _ _ hrelated => hrelated.chunkRound.exists_rounds) halike

theorem Alike.processUntilEof (halike : p.Alike q) :
    ∃ step step', p.processUntilEof = some step ∧
      q.processUntilEof = some step' ∧ AlikeSteps step step' := by
  unfold HttpParser.processUntilEof
  rw [halike.buffer_eq]
  by_cases hempty : p.buffer = []
  · rw [if_pos hempty, if_pos hempty]
    exact ⟨_, _, rfl, rfl, halike, rfl⟩
  · rw [if_neg hempty, if_neg hempty]
    obtain ⟨p', q', hp, hq, hnext, _, _⟩ :=
      halike.takeBody p.buffer.length
    rw [hp, hq]
    exact ⟨_, _, rfl, rfl, hnext, rfl⟩

theorem Alike.processBody (halike : p.Alike q) :
    ∃ step step', p.processBody = some step ∧ q.processBody = some step' ∧
      AlikeSteps step step' := by
  unfold HttpParser.processBody
  rw [halike.state_eq]
  cases p.state with
  | bodyRaw => exact halike.processRaw
  | bodyChunked => exact halike.processChunked
  | bodyUntilEof => exact halike.processUntilEof
  | statusLine => exact ⟨_, _, rfl, rfl, halike, rfl⟩
  | headers => exact ⟨_, _, rfl, rfl, halike, rfl⟩
  | complete => exact ⟨_, _, rfl, rfl, halike, rfl⟩
  | error => exact ⟨_, _, rfl, rfl, halike, rfl⟩

theorem Alike.awaitLine (halike : p.Alike q) :
    AlikeSteps p.awaitLine q.awaitLine := by
  unfold HttpParser.awaitLine
  rw [halike.buffer_eq]
  split
  next =>
    exact ⟨halike.map
      (fun r => { r with
        buffer := p.buffer
        errorMessage := "header section exceeds maximum size"
        state := .error })
      (fun _ _ => rfl) (fun _ => rfl), rfl⟩
  next => exact ⟨halike, rfl⟩

theorem Alike.failWith (halike : p.Alike q) (failure : ParseFailure) :
    AlikeSteps (p.failWith failure) (q.failWith failure) :=
  ⟨halike.map
    (fun r => { r with errorMessage := failure.message, state := .error })
    (fun _ _ => rfl) (fun _ => rfl), rfl⟩

theorem Alike.finishHeaders (halike : p.Alike q) :
    p.finishHeaders.Alike q.finishHeaders := by
  apply halike.map HttpParser.finishHeaders
  · intro r body
    unfold HttpParser.finishHeaders
    by_cases hchunked : r.response.isChunked = true
    · rw [if_pos hchunked, if_pos (show (r.withBody body).response.isChunked =
        true from hchunked)]
      rfl
    · rw [if_neg hchunked, if_neg (show ¬ (r.withBody body).response.isChunked =
        true from hchunked)]
      have hsame : (r.withBody body).response.contentLength =
        r.response.contentLength := rfl
      rw [hsame]
      cases r.response.contentLength with
      | none => rfl
      | some length => rfl
  · intro r
    unfold HttpParser.finishHeaders
    split
    next => rfl
    next => split <;> rfl

theorem Alike.feedBody (halike : p.Alike q) :
    AlikeRounds
      (p.processBody.map fun step =>
        match step with
        | (p, .ok ()) => .leave (p, success)
        | (p, .error code) => .leave ({ p with state := .error }, .error code))
      (q.processBody.map fun step =>
        match step with
        | (p, .ok ()) => .leave (p, success)
        | (p, .error code) =>
            .leave ({ p with state := .error }, .error code)) := by
  obtain ⟨⟨p', status⟩, ⟨q', status'⟩, hp, hq, hnext, hsame⟩ :=
    halike.processBody
  simp only at hnext hsame
  subst hsame
  rw [hp, hq]
  cases status with
  | ok _ => exact .leave ⟨hnext, rfl⟩
  | error code =>
      exact .leave ⟨hnext.map (fun r => { r with state := .error })
        (fun _ _ => rfl) (fun _ => rfl), rfl⟩

theorem Alike.feedRound (halike : p.Alike q) :
    AlikeRounds p.feedRound q.feedRound := by
  unfold HttpParser.feedRound
  rw [halike.state_eq, halike.buffer_eq]
  cases p.state with
  | statusLine =>
      simp only
      cases findCrlf p.buffer with
      | none => exact .leave halike.awaitLine
      | some pos =>
          simp only
          cases parseStatusLine (p.buffer.take pos) with
          | error failure => exact .leave (halike.failWith failure)
          | ok parsed =>
              exact .again (halike.map
                (fun r => { r with
                  response := { r.response with
                    statusCode := parsed.1, reason := parsed.2 }
                  buffer := p.buffer.drop (pos + 2)
                  state := .headers })
                (fun _ _ => rfl) (fun _ => rfl))
  | headers =>
      simp only
      cases findCrlf p.buffer with
      | none => exact .leave halike.awaitLine
      | some pos =>
          simp only
          by_cases hpos : pos = 0
          · rw [if_pos hpos, if_pos hpos]
            have hrest := halike.map
              (fun r => { r with
                state := .headers
                buffer := p.buffer.drop 2 })
              (fun _ _ => rfl) (fun _ => rfl)
            exact .again hrest.finishHeaders
          · rw [if_neg hpos, if_neg hpos]
            cases parseHeaderLine (p.buffer.take pos) with
            | error failure => exact .leave (halike.failWith failure)
            | ok field =>
                exact .again (halike.map
                  (fun r => { r with
                    state := .headers
                    response := { r.response with
                      headers :=
                        r.response.headers.add field.name field.value }
                    buffer := p.buffer.drop (pos + 2) })
                  (fun _ _ => rfl) (fun _ => rfl))
  | bodyRaw => exact halike.feedBody
  | bodyChunked => exact halike.feedBody
  | bodyUntilEof => exact halike.feedBody
  | complete => exact .leave ⟨halike, rfl⟩
  | error => exact .leave ⟨halike, rfl⟩

theorem Alike.feed (halike : p.Alike q) (data : Bytes) :
    ∃ step step', p.feed data = some step ∧ q.feed data = some step' ∧
      AlikeSteps step step' := by
  unfold HttpParser.feed
  rw [halike.state_eq, halike.buffer_eq]
  by_cases hstopped : p.state = .error ∨ p.state = .complete
  · rw [if_pos hstopped, if_pos hstopped]
    exact ⟨_, _, rfl, rfl, halike, rfl⟩
  · rw [if_neg hstopped, if_neg hstopped]
    exact runRanked_rel feedRound_decreases feedRound_decreases Alike
      AlikeSteps (fun _ _ hrelated => hrelated.feedRound.exists_rounds)
      (halike.map
        (fun r => { r with state := p.state, buffer := p.buffer ++ data })
        (fun _ _ => rfl) (fun _ => rfl))

end

/-- What is seen of the parser after a call. -/
structure Observation where
  result : Result Unit
  state : ParserState
  value : ResponseValue
  message : String

def observe (step : Step) : Observation where
  result := step.2
  state := step.1.state
  value := step.1.response.value
  message := step.1.errorMessage

theorem AlikeSteps.observe_eq {step step' : Step}
    (halike : AlikeSteps step step') : observe step = observe step' := by
  obtain ⟨p, status⟩ := step
  obtain ⟨q, status'⟩ := step'
  obtain ⟨halike, hsame⟩ := halike
  simp only at halike hsame
  subst hsame
  cases halike with
  | intro body hunread _ _ =>
      simp only [observe, withBody, HttpResponse.value, hunread]

theorem Alike.observations {p q : HttpParser} (halike : p.Alike q)
    (segments : List Bytes) :
    ∃ seen, observations HttpParser.feed observe p segments = some seen ∧
      observations HttpParser.feed observe q segments = some seen := by
  refine observations_eq_of_rel Alike ?_ halike segments
  intro p q data hrelated
  obtain ⟨step, step', hp, hq, hsteps⟩ := hrelated.feed data
  exact ⟨step, step', hp, hq, hsteps.1, hsteps.observe_eq⟩

/-- After `reset` every sequence of calls returns, and what is seen of the
parser is what is seen of a new one. -/
def Reusable (p : HttpParser) : Prop :=
  ∀ segments, ∃ seen,
    observations feed observe p.reset segments = some seen ∧
      observations feed observe new segments = some seen

theorem Growable.reusable {p : HttpParser} (hgrowable : p.Growable) :
    p.Reusable := by
  have hunread : ByteBuffer.empty.unread = p.reset.response.body.unread := by
    rw [ByteBuffer.unread_empty]
    simp [reset, ByteBuffer.reset, ByteBuffer.unread]
  have halike : p.reset.Alike new :=
    .intro .empty hunread hgrowable ByteBuffer.capacity_empty_pos
  exact halike.observations

/-! ## Parsers without storage -/

/-- The storage of the body buffer has gone. -/
def Drained (p : HttpParser) : Prop := p.response.body.capacity = 0

section

variable {p q next : HttpParser} {step : Step}

theorem finishHeaders_response (p : HttpParser) :
    p.finishHeaders.response = p.response := by
  unfold HttpParser.finishHeaders
  split
  next => rfl
  next => split <;> rfl

theorem ReadsOn.drained (hreads : p.ReadsOn next) (hdrained : p.Drained) :
    next.Drained := by
  cases hreads with
  | statusLine _ _ _ _ _ _ hnext => exact hnext ▸ hdrained
  | endOfHead _ _ hnext =>
      rw [hnext, Drained, finishHeaders_response]
      exact hdrained
  | field _ _ _ _ _ _ hnext => exact hnext ▸ hdrained

theorem Stops.drained (hstops : p.Stops step) (hdrained : p.Drained) :
    step.1.Drained := by
  cases hstops with
  | waits _ _ =>
      unfold HttpParser.awaitLine
      split
      next => exact hdrained
      next => exact hdrained
  | fails failure _ => exact hdrained
  | body q _ hprocess =>
      exact (processBody_step hprocess).consumes.capacity_zero hdrained
  | bodyFails q code _ hprocess =>
      have hq : q.Drained :=
        (processBody_step hprocess).consumes.capacity_zero hdrained
      exact hq
  | done _ => exact hdrained

theorem Drained.feed (hdrained : p.Drained) {data : Bytes}
    (hfeed : p.feed data = some step) : step.1.Drained := by
  unfold HttpParser.feed at hfeed
  split at hfeed
  next =>
    simp only [Option.some.injEq] at hfeed
    exact hfeed ▸ hdrained
  next =>
    exact runRanked_of_invariant Drained (fun step => step.1.Drained)
      (fun _ _ hs hround => (feedRound_again hround).drained hs)
      (fun _ _ hs hround => (feedRound_leave hround).drained hs)
      (s := { p with buffer := p.buffer ++ data }) hdrained hfeed

theorem Drained.callAll (hdrained : p.Drained) {calls : List Call}
    (hrun : p.callAll calls = some q) : q.Drained := by
  induction calls generalizing p with
  | nil =>
      rw [HttpParser.callAll, Option.some.injEq] at hrun
      exact hrun ▸ hdrained
  | cons call calls ih =>
      obtain ⟨next, hcall, htail⟩ := Option.bind_eq_some_iff.mp hrun
      apply ih _ htail
      cases call with
      | feed data =>
          obtain ⟨step, hstep, rfl⟩ := Option.map_eq_some_iff.mp hcall
          exact hdrained.feed hstep
      | reset =>
          rw [HttpParser.call, Option.some.injEq] at hcall
          exact hcall ▸ hdrained
      | release reason =>
          simp only [HttpParser.call, Option.ite_none_right_eq_some,
            Option.some.injEq] at hcall
          rw [← hcall.2]
          rfl

theorem callAll_release {calls : List Call}
    (hrelease : ∃ call ∈ calls, call.isRelease = true)
    (hrun : p.callAll calls = some q) : q.Drained := by
  obtain ⟨call, hmem, hcall⟩ := hrelease
  induction calls generalizing p with
  | nil => simp at hmem
  | cons first calls ih =>
      obtain ⟨next, hfirst, htail⟩ := Option.bind_eq_some_iff.mp hrun
      rcases List.mem_cons.mp hmem with rfl | hlater
      · cases call with
        | feed _ => simp [Call.isRelease] at hcall
        | reset => simp [Call.isRelease] at hcall
        | release reason =>
            simp only [HttpParser.call, Option.ite_none_right_eq_some,
              Option.some.injEq] at hfirst
            have hnext : next.Drained := by
              rw [← hfirst.2]
              rfl
            exact hnext.callAll htail
      · exact ih htail hlater

end

/-- A response with a body of one byte. -/
def oneByte : Bytes := ascii "HTTP/1.1 200 OK\r\nContent-Length: 1\r\n\r\na"

/-- The call which brings the body does not return. -/
theorem Drained.feed_oneByte {p : HttpParser} (hdrained : p.Drained) :
    p.reset.feed oneByte = none := by
  have hdata : p.response.body.data = [] :=
    List.length_eq_zero_iff.mp hdrained
  have hbody : p.response.body.reset = .movedFrom := by
    simp only [ByteBuffer.reset, ByteBuffer.movedFrom, hdata]
  have hstuck :
      (HttpParser.feed { response := { body := .movedFrom } }
        oneByte).isNone = true := by decide +kernel
  rw [reset, hbody]
  exact Option.isNone_iff_eq_none.mp hstuck

theorem Drained.not_reusable {p : HttpParser} (hdrained : p.Drained) :
    ¬ p.Reusable := by
  intro hreusable
  obtain ⟨seen, hseen, _⟩ := hreusable [oneByte]
  rw [observations, hdrained.feed_oneByte, Option.bind_none] at hseen
  exact Option.some_ne_none _ hseen.symm

/-- A parser can be used again exactly when no response has been released
from it. -/
theorem reusable_iff {calls : List Call} {p : HttpParser}
    (hrun : new.callAll calls = some p) :
    p.Reusable ↔ ∀ call ∈ calls, call.isRelease = false := by
  constructor
  · intro hreusable call hmem
    by_contra hrelease
    rw [Bool.not_eq_false] at hrelease
    exact (callAll_release ⟨call, hmem, hrelease⟩ hrun).not_reusable
      hreusable
  · intro hcalls
    obtain ⟨q, hq, hkept⟩ := new_kept.callAll hcalls
    rw [hrun, Option.some.injEq] at hq
    subst hq
    exact hkept.growable.reusable

theorem reusable_iff_fed :
    ∃ p, new.callAll [.feed oneByte] = some p ∧
      (p.Reusable ↔
        ∀ call ∈ [Call.feed oneByte], call.isRelease = false) := by
  have hcalls : ∀ call ∈ [Call.feed oneByte], call.isRelease = false := by
    intro call hmem
    rw [List.mem_singleton.mp hmem]
    rfl
  obtain ⟨p, hrun, _⟩ := new_kept.callAll hcalls
  exact ⟨p, hrun, reusable_iff hrun⟩

/-- A response is read and released. -/
theorem not_reusable_released :
    ¬ ∀ calls p, new.callAll calls = some p → p.Reusable := by
  intro hall
  have hreturns :
      (new.callAll [.feed oneByte, .release []]).isSome = true := by
    decide +kernel
  obtain ⟨p, hrun⟩ := Option.isSome_iff_exists.mp hreturns
  have hdrained : p.Drained :=
    callAll_release ⟨.release [], by simp, rfl⟩ hrun
  exact hdrained.not_reusable (hall _ p hrun)

end HttpParser

end VynxHttp
