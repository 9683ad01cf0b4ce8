import VynxHttp.HttpParser

/-!
# What the body functions do

A body function takes bytes from the front of the buffer and leaves what has
been read of the head as it is (`Consumes`).  It completes the response in the
two counted states only, and says why when it refuses a chunk (`BodyStep`).
-/

namespace VynxHttp

open DelimitedText FuelLoop

namespace HttpParser

structure SameHead (p q : HttpParser) : Prop where
  statusCode_eq : q.response.statusCode = p.response.statusCode
  reason_eq : q.response.reason = p.response.reason
  headers_eq : q.response.headers = p.response.headers

/-- What is left of a parser whose buffer has been read from.  A body without
storage stays without it. -/
structure Consumes (p q : HttpParser) : Prop where
  head : p.SameHead q
  buffer_suffix : q.buffer <:+ p.buffer
  capacity_zero : p.response.body.capacity = 0 →
    q.response.body.capacity = 0

theorem Consumes.refl (p : HttpParser) : p.Consumes p :=
  ⟨⟨rfl, rfl, rfl⟩, List.suffix_refl _, id⟩

theorem Consumes.trans {p q r : HttpParser} (hfirst : p.Consumes q)
    (hsecond : q.Consumes r) : p.Consumes r where
  head :=
    { statusCode_eq :=
        hsecond.head.statusCode_eq.trans hfirst.head.statusCode_eq
      reason_eq := hsecond.head.reason_eq.trans hfirst.head.reason_eq
      headers_eq := hsecond.head.headers_eq.trans hfirst.head.headers_eq }
  buffer_suffix := hsecond.buffer_suffix.trans hfirst.buffer_suffix
  capacity_zero := hsecond.capacity_zero ∘ hfirst.capacity_zero

theorem Consumes.congr {p q r : HttpParser} (hconsumes : p.Consumes q)
    (hresponse : r.response = q.response)
    (hbuffer : r.buffer <:+ q.buffer) : p.Consumes r where
  head := by
    constructor
    · rw [hresponse, hconsumes.head.statusCode_eq]
    · rw [hresponse, hconsumes.head.reason_eq]
    · rw [hresponse, hconsumes.head.headers_eq]
  buffer_suffix := hbuffer.trans hconsumes.buffer_suffix
  capacity_zero := by
    rw [hresponse]
    exact hconsumes.capacity_zero

theorem takeBody_consumes {p q : HttpParser} {count : ℕ}
    (htake : p.takeBody count = some q) :
    p.Consumes q ∧ q.state = p.state := by
  obtain ⟨body, hwrite, rfl⟩ := Option.map_eq_some_iff.mp htake
  refine ⟨⟨⟨rfl, rfl, rfl⟩, List.drop_suffix _ _, fun hzero => ?_⟩, rfl⟩
  exact (ByteBuffer.write_of_capacity_eq_zero hzero hwrite).2

/-- What a body function leaves. -/
structure BodyStep (p : HttpParser) (step : Step) : Prop where
  consumes : p.Consumes step.1
  state_eq : step.1.state = p.state ∨ step.1.state = .complete ∧
    (p.state = .bodyRaw ∨ p.state = .bodyChunked)
  message : step.2 ≠ success → step.1.errorMessage ∈ chunkMessages

theorem BodyStep.refl (p : HttpParser) : p.BodyStep (p, success) :=
  ⟨.refl p, .inl rfl, fun h => absurd rfl h⟩

theorem processRaw_step {p : HttpParser} {step : Step}
    (hstate : p.state = .bodyRaw) (hstep : p.processRaw = some step) :
    p.BodyStep step := by
  unfold processRaw at hstep
  split at hstep
  next =>
    simp only [Option.some.injEq] at hstep
    subst hstep
    exact ⟨(Consumes.refl p).congr rfl (List.suffix_refl _),
      .inr ⟨rfl, .inl hstate⟩, fun h => absurd rfl h⟩
  next =>
    split at hstep
    next =>
      simp only [Option.some.injEq] at hstep
      exact hstep ▸ .refl p
    next =>
      obtain ⟨q, htake, rfl⟩ := Option.map_eq_some_iff.mp hstep
      obtain ⟨hconsumes, hsame⟩ := takeBody_consumes htake
      simp only
      split
      next =>
        exact ⟨hconsumes.congr rfl (List.suffix_refl _),
          .inr ⟨rfl, .inl hstate⟩, fun h => absurd rfl h⟩
      next =>
        exact ⟨hconsumes.congr rfl (List.suffix_refl _), .inl hsame,
          fun h => absurd rfl h⟩

theorem processChunked_step {p : HttpParser} {step : Step}
    (hstate : p.state = .bodyChunked)
    (hstep : p.processChunked = some step) : p.BodyStep step := by
  apply runRanked_of_invariant
    (fun q => p.Consumes q ∧ q.state = p.state) p.BodyStep _ _
    ⟨.refl p, rfl⟩ hstep
  · rintro q next ⟨hconsumes, hsame⟩ hround
    obtain ⟨pos, chunkSize, r, _, _, _, _, htake, rfl⟩ :=
      chunkRound_again hround
    obtain ⟨htaken, hkept⟩ := takeBody_consumes htake
    have hline : q.Consumes { q with buffer := q.buffer.drop (pos + 2) } :=
      (Consumes.refl q).congr rfl (List.drop_suffix _ _)
    refine ⟨?_, hkept.trans hsame⟩
    exact hconsumes.trans
      ((hline.trans htaken).congr rfl (List.drop_suffix _ _))
  · rintro q result ⟨hconsumes, hsame⟩ hround
    cases chunkRound_leave hround with
    | waits _ => exact ⟨hconsumes, .inl hsame, fun h => absurd rfl h⟩
    | refuses pos failure _ hrefused =>
        exact ⟨hconsumes.congr rfl (List.suffix_refl _), .inl hsame,
          fun _ => parseChunkSize_message hrefused⟩
    | last pos _ _ =>
        refine ⟨hconsumes.congr rfl ?_, .inr ⟨rfl, .inr hstate⟩,
          fun h => absurd rfl h⟩
        have hdrop : q.buffer.drop (pos + 2) <:+ q.buffer :=
          List.drop_suffix _ _
        simp only
        split
        next => exact (List.drop_suffix _ _).trans hdrop
        next => exact hdrop
    | short pos _ _ _ _ =>
        exact ⟨hconsumes.congr rfl (List.drop_suffix _ _), .inl hsame,
          fun h => absurd rfl h⟩

theorem processUntilEof_step {p : HttpParser} {step : Step}
    (hstep : p.processUntilEof = some step) : p.BodyStep step := by
  unfold processUntilEof at hstep
  split at hstep
  next =>
    simp only [Option.some.injEq] at hstep
    exact hstep ▸ .refl p
  next =>
    obtain ⟨q, htake, rfl⟩ := Option.map_eq_some_iff.mp hstep
    obtain ⟨hconsumes, hsame⟩ := takeBody_consumes htake
    exact ⟨hconsumes, .inl hsame, fun h => absurd rfl h⟩

theorem processBody_step {p : HttpParser} {step : Step}
    (hstep : p.processBody = some step) : p.BodyStep step := by
  unfold processBody at hstep
  split at hstep
  next hstate => exact processRaw_step hstate hstep
  next hstate => exact processChunked_step hstate hstep
  next => exact processUntilEof_step hstep
  next =>
    simp only [Option.some.injEq] at hstep
    exact hstep ▸ .refl p

end HttpParser

end VynxHttp
