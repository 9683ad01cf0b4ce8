import VynxHttp.BodySteps

/-!
# What every run of the parser keeps

A parser reads a body in the way the headers ask for: it is never complete with
headers which give neither a chunked transfer coding nor a length.  And a call
which fails leaves the parser in the error state.
-/

namespace VynxHttp

open FuelLoop Segmentation

namespace HttpParser

/-- The state of the parser is one which its headers may lead to. -/
def Framed (p : HttpParser) : Prop :=
  match p.state with
  | .statusLine | .headers | .bodyUntilEof | .error => True
  | .bodyRaw => p.response.headers.contentLength.isSome = true
  | .bodyChunked => p.response.headers.isChunked = true
  | .complete =>
      p.response.headers.isChunked = true ∨
        p.response.headers.contentLength.isSome = true

/-- The state and the headers, which is what `Framed` depends on. -/
theorem Framed.congr {p q : HttpParser} (hframed : p.Framed)
    (hstate : q.state = p.state)
    (hheaders : q.response.headers = p.response.headers) : q.Framed := by
  unfold Framed at hframed ⊢
  rw [hstate, hheaders]
  exact hframed

theorem framed_of_error {p : HttpParser} (hstate : p.state = .error) :
    p.Framed := by
  simp [Framed, hstate]

/-- What one of the body functions leaves: the parser is framed, or would be
but for a failure. -/
def BodyResult (step : Step) : Prop := step.2 = success → step.1.Framed

theorem processBody_framed {p : HttpParser} {step : Step}
    (hframed : p.Framed) (hstep : p.processBody = some step) :
    BodyResult step := by
  have hbody := processBody_step hstep
  have hheaders := hbody.consumes.head.headers_eq
  intro _
  rcases hbody.state_eq with hsame | ⟨hcomplete, hcounted⟩
  · exact hframed.congr hsame hheaders
  · unfold Framed at hframed ⊢
    rw [hcomplete, hheaders]
    rcases hcounted with hstate | hstate
    · rw [hstate] at hframed
      exact .inr hframed
    · rw [hstate] at hframed
      exact .inl hframed

theorem finishHeaders_framed (p : HttpParser) : p.finishHeaders.Framed := by
  unfold finishHeaders
  split
  next hchunked => exact hchunked
  next =>
    split
    next length hlength =>
      show p.response.headers.contentLength.isSome = true
      exact Option.isSome_of_eq_some hlength
    next => trivial

/-- What a call leaves: the parser is framed, and in the error state when the
call fails. -/
def CallResult (step : Step) : Prop :=
  step.1.Framed ∧ (step.2 = success ∨ step.1.state = .error)

theorem awaitLine_result {p : HttpParser} (hframed : p.Framed) :
    CallResult p.awaitLine := by
  unfold awaitLine
  split
  next => exact ⟨framed_of_error rfl, .inr rfl⟩
  next => exact ⟨hframed, .inl rfl⟩

theorem failWith_result (p : HttpParser) (failure : ParseFailure) :
    CallResult (p.failWith failure) :=
  ⟨framed_of_error rfl, .inr rfl⟩

theorem feedRound_framed {p next : HttpParser}
    (hround : p.feedRound = some (.again next)) : next.Framed := by
  cases feedRound_again hround with
  | statusLine _ _ _ _ _ _ hnext =>
      subst hnext
      trivial
  | endOfHead _ _ hnext =>
      subst hnext
      exact finishHeaders_framed _
  | field _ _ hstate _ _ _ hnext =>
      subst hnext
      simp [Framed, hstate]

theorem feedRound_result {p : HttpParser} {step : Step}
    (hframed : p.Framed) (hround : p.feedRound = some (.leave step)) :
    CallResult step := by
  cases feedRound_leave hround with
  | waits => exact awaitLine_result hframed
  | fails failure => exact failWith_result p failure
  | body q _ hprocess =>
      exact ⟨processBody_framed hframed hprocess rfl, .inl rfl⟩
  | bodyFails => exact ⟨framed_of_error rfl, .inr rfl⟩
  | done => exact ⟨hframed, .inl rfl⟩

theorem feed_result {p : HttpParser} {data : Bytes} {step : Step}
    (hframed : p.Framed) (hfeed : p.feed data = some step) :
    CallResult step := by
  unfold feed at hfeed
  split at hfeed
  next =>
    simp only [Option.some.injEq] at hfeed
    subst hfeed
    exact ⟨hframed, .inl rfl⟩
  next =>
    have hstart : HttpParser.Framed
        { p with buffer := p.buffer ++ data } := hframed.congr rfl rfl
    exact runRanked_of_invariant _ CallResult (fun _ _ _ => feedRound_framed)
      (fun _ _ => feedRound_result) hstart hfeed

theorem new_framed : new.Framed := trivial

theorem feedAll_framed {p final : HttpParser} {segments : List Bytes}
    (hframed : p.Framed) (hrun : p.feedAll segments = some final) :
    final.Framed := by
  induction segments generalizing p with
  | nil =>
      simp only [feedAll, run_nil, Option.some.injEq] at hrun
      exact hrun ▸ hframed
  | cons segment segments ih =>
      obtain ⟨next, hfeed, htail⟩ := Option.bind_eq_some_iff.mp hrun
      obtain ⟨step, hstep, rfl⟩ := Option.map_eq_some_iff.mp hfeed
      exact ih (feed_result hframed hstep).1 htail

end HttpParser

end VynxHttp
