import VynxHttp.HttpParser

/-!
# What every sequence of calls keeps

The state of the parser tells what has been read so far.  `Accounted` says so
throughout a call, `Settled` says what else is known when a call has returned,
and both together are kept by `feed` and by `reset`.
-/

namespace VynxHttp

open DelimitedText FuelLoop Segmentation

namespace HttpParser

/-! ## Calls -/

inductive Call where
  | feed (data : Bytes)
  | reset
  | release (reason : Bytes)

/-- A response may be released in the state `complete` only. -/
def call (p : HttpParser) : Call → Option HttpParser
  | .feed data => (p.feed data).map Prod.fst
  | .reset => some p.reset
  | .release reason =>
      if p.state = .complete then some (p.releaseResponse reason).1
      else none

def callAll (p : HttpParser) : List Call → Option HttpParser
  | [] => some p
  | call :: calls => (p.call call).bind fun next => next.callAll calls

def Call.isRelease : Call → Bool
  | .release _ => true
  | _ => false

/-! ## What is accounted for -/

def StatusRead (p : HttpParser) : Prop :=
  100 ≤ p.response.statusCode ∧ p.response.statusCode ≤ 599

def Accounted (p : HttpParser) : Prop :=
  match p.state with
  | .statusLine => p.errorMessage = "" ∧ p.response.body.size = 0
  | .headers =>
      p.StatusRead ∧ p.errorMessage = "" ∧ p.response.body.size = 0
  | .bodyRaw =>
      p.StatusRead ∧ p.errorMessage = "" ∧
        p.response.contentLength =
          some (p.response.body.size + p.bodyRemaining)
  | .bodyChunked =>
      p.StatusRead ∧ p.errorMessage = "" ∧ p.response.isChunked = true
  | .bodyUntilEof => p.StatusRead ∧ p.errorMessage = ""
  | .complete =>
      p.StatusRead ∧ p.errorMessage = "" ∧
        (p.response.isChunked = true ∨
          p.response.contentLength = some p.response.body.size)
  | .error => p.errorMessage ≠ ""

def Settled (p : HttpParser) : Prop :=
  match p.state with
  | .statusLine | .headers =>
      findCrlf p.buffer = none ∧ p.buffer.length ≤ maxHeaderBuffer
  | .bodyRaw => 0 < p.bodyRemaining ∧ p.buffer = []
  | .bodyChunked =>
      findCrlf p.buffer = none ∨ p.buffer.length < maxChunkSize + 2
  | .bodyUntilEof => p.buffer = []
  | .complete | .error => True

/-- The parser between two calls. -/
structure Kept (p : HttpParser) : Prop where
  accounted : p.Accounted
  settled : p.Settled
  growable : p.Growable

theorem kept_of_error {p : HttpParser} (hstate : p.state = .error)
    (hmessage : p.errorMessage ≠ "") (hgrowable : p.Growable) :
    p.Kept where
  accounted := by simpa [Accounted, hstate] using hmessage
  settled := by simp [Settled, hstate]
  growable := hgrowable

theorem ne_empty_of_head {message : String}
    (hmem : message ∈ headMessages) : message ≠ "" := by
  rintro rfl
  exact absurd hmem (by decide)

theorem ne_empty_of_chunk {message : String}
    (hmem : message ∈ chunkMessages) : message ≠ "" := by
  rintro rfl
  exact absurd hmem (by decide)

/-! ## Bodies -/

/-- What the body functions leave, before `feed` looks at their result. -/
def BodyLeaves (step : Step) : Prop :=
  step.1.Growable ∧
    match step.2 with
    | .ok _ => step.1.Accounted ∧ step.1.Settled
    | .error _ => step.1.errorMessage ∈ chunkMessages

theorem processRaw_leaves {p : HttpParser} (hstate : p.state = .bodyRaw)
    (haccounted : p.Accounted) (hgrowable : p.Growable) :
    ∃ step, p.processRaw = some step ∧ BodyLeaves step := by
  have haccount := haccounted
  simp only [Accounted, hstate] at haccount
  obtain ⟨hstatus, hmessage, hlength⟩ := haccount
  unfold processRaw
  by_cases hzero : p.bodyRemaining = 0
  · rw [if_pos hzero]
    refine ⟨_, rfl, hgrowable, ⟨hstatus, hmessage, .inr ?_⟩, trivial⟩
    rw [hlength, hzero, Nat.add_zero]
  · rw [if_neg hzero]
    by_cases hempty : p.buffer = []
    · rw [if_pos hempty]
      refine ⟨_, rfl, hgrowable, haccounted, ?_⟩
      simp only [Settled, hstate]
      exact ⟨Nat.pos_of_ne_zero hzero, hempty⟩
    · rw [if_neg hempty]
      obtain ⟨body, htake, hunread, hcapacity⟩ :=
        p.takeBody_spec (min p.bodyRemaining p.buffer.length) hgrowable
      have hsize := congrArg List.length hunread
      simp only [List.length_append, ByteBuffer.length_unread,
        List.length_take] at hsize
      simp only [htake, Option.map_some]
      refine ⟨_, rfl, ?_⟩
      by_cases hdone :
          p.bodyRemaining - min p.bodyRemaining p.buffer.length = 0
      · rw [if_pos hdone]
        refine ⟨hcapacity, ⟨hstatus, hmessage, .inr ?_⟩, trivial⟩
        show p.response.contentLength = some body.size
        rw [hlength, Option.some.injEq]
        omega
      · rw [if_neg hdone]
        refine ⟨hcapacity, ?_, ?_⟩
        · simp only [Accounted, hstate]
          refine ⟨hstatus, hmessage, ?_⟩
          show p.response.contentLength = _
          rw [hlength, Option.some.injEq]
          omega
        · simp only [Settled, hstate, List.drop_eq_nil_iff]
          omega

theorem chunkRound_returns {p : HttpParser} (hgrowable : p.Growable) :
    ∃ round, p.chunkRound = some round := by
  unfold chunkRound
  split
  next => exact ⟨_, rfl⟩
  next pos _ =>
    split
    next => exact ⟨_, rfl⟩
    next chunkSize _ =>
      simp only
      split
      next => exact ⟨_, rfl⟩
      next =>
        split
        next => exact ⟨_, rfl⟩
        next =>
          obtain ⟨body, htake, _⟩ :=
            takeBody_spec { p with buffer := p.buffer.drop (pos + 2) }
              chunkSize hgrowable
          rw [htake]
          exact ⟨_, rfl⟩

theorem processChunked_leaves {p : HttpParser}
    (hstate : p.state = .bodyChunked) (haccounted : p.Accounted)
    (hgrowable : p.Growable) :
    ∃ step, p.processChunked = some step ∧ BodyLeaves step := by
  let Inv : HttpParser → Prop := fun q =>
    q.state = .bodyChunked ∧ q.Accounted ∧ q.Growable
  refine runRanked_meets chunkRound_decreases Inv BodyLeaves ?_
    ⟨hstate, haccounted, hgrowable⟩
  rintro q ⟨hq, hacc, hgrow⟩
  have hparts := hacc
  simp only [Accounted, hq] at hparts
  obtain ⟨hstatus, hmessage, hchunked⟩ := hparts
  obtain ⟨round, hround⟩ := chunkRound_returns hgrow
  refine ⟨round, hround, ?_⟩
  cases round with
  | again next =>
      obtain ⟨pos, chunkSize, r, _, _, _, _, htake, rfl⟩ :=
        chunkRound_again hround
      obtain ⟨body, htake', _, hcapacity⟩ :=
        takeBody_spec { q with buffer := q.buffer.drop (pos + 2) }
          chunkSize hgrow
      rw [htake, Option.some.injEq] at htake'
      subst htake'
      refine ⟨hq, ?_, hcapacity⟩
      simp only [Accounted, hq]
      exact ⟨hstatus, hmessage, hchunked⟩
  | leave step =>
      cases chunkRound_leave hround with
      | waits hfind =>
          refine ⟨hgrow, hacc, ?_⟩
          simp only [Settled, hq]
          exact .inl hfind
      | refuses pos failure _ hrefused =>
          exact ⟨hgrow, parseChunkSize_message hrefused⟩
      | last pos =>
          exact ⟨hgrow, ⟨hstatus, hmessage, .inl hchunked⟩, trivial⟩
      | short pos chunkSize _ hsize hshort =>
          refine ⟨hgrow, ?_, ?_⟩
          · simp only [Accounted, hq]
            exact ⟨hstatus, hmessage, hchunked⟩
          · have hle := parseChunkSize_le hsize
            simp only [Settled, hq]
            right
            omega

theorem processUntilEof_leaves {p : HttpParser}
    (hstate : p.state = .bodyUntilEof) (haccounted : p.Accounted)
    (hgrowable : p.Growable) :
    ∃ step, p.processUntilEof = some step ∧ BodyLeaves step := by
  unfold processUntilEof
  by_cases hempty : p.buffer = []
  · rw [if_pos hempty]
    refine ⟨_, rfl, hgrowable, haccounted, ?_⟩
    simp only [Settled, hstate]
    exact hempty
  · rw [if_neg hempty]
    obtain ⟨body, htake, _, hcapacity⟩ :=
      p.takeBody_spec p.buffer.length hgrowable
    rw [htake, Option.map_some]
    simp only [Accounted, hstate] at haccounted
    refine ⟨_, rfl, hcapacity, ?_, ?_⟩
    · simp only [Accounted, hstate]
      exact haccounted
    · simp only [Settled, hstate, List.drop_length]

/-! ## Calls of `feed` -/

theorem finishHeaders_accounted {p : HttpParser}
    (hstatus : p.StatusRead) (hmessage : p.errorMessage = "")
    (hsize : p.response.body.size = 0) (hgrowable : p.Growable) :
    p.finishHeaders.Accounted ∧ p.finishHeaders.Growable := by
  unfold finishHeaders
  split
  next hchunked => exact ⟨⟨hstatus, hmessage, hchunked⟩, hgrowable⟩
  next =>
    split
    next length hlength =>
      refine ⟨⟨hstatus, hmessage, ?_⟩, hgrowable⟩
      show p.response.contentLength = some (p.response.body.size + length)
      rw [hlength, hsize, Nat.zero_add]
    next => exact ⟨⟨hstatus, hmessage⟩, hgrowable⟩

theorem processBody_leaves {p : HttpParser}
    (hstate : p.state = .bodyRaw ∨ p.state = .bodyChunked ∨
      p.state = .bodyUntilEof)
    (haccounted : p.Accounted) (hgrowable : p.Growable) :
    ∃ step, p.processBody = some step ∧ BodyLeaves step := by
  unfold processBody
  rcases hstate with hstate | hstate | hstate
  · simp only [hstate]
    exact processRaw_leaves hstate haccounted hgrowable
  · simp only [hstate]
    exact processChunked_leaves hstate haccounted hgrowable
  · simp only [hstate]
    exact processUntilEof_leaves hstate haccounted hgrowable

theorem feedRound_returns {p : HttpParser} (haccounted : p.Accounted)
    (hgrowable : p.Growable) : ∃ round, p.feedRound = some round := by
  have hbody : (p.state = .bodyRaw ∨ p.state = .bodyChunked ∨
      p.state = .bodyUntilEof) → ∀ f : Step → Round HttpParser Step,
      ∃ round, p.processBody.map f = some round := by
    intro hstate f
    obtain ⟨step, hstep, _⟩ :=
      processBody_leaves hstate haccounted hgrowable
    exact ⟨f step, by rw [hstep, Option.map_some]⟩
  unfold feedRound
  split
  next =>
    split
    next => exact ⟨_, rfl⟩
    next => split <;> exact ⟨_, rfl⟩
  next =>
    split
    next => exact ⟨_, rfl⟩
    next =>
      split
      next => exact ⟨_, rfl⟩
      next => split <;> exact ⟨_, rfl⟩
  next hstate => exact hbody (.inl hstate) _
  next hstate => exact hbody (.inr (.inl hstate)) _
  next hstate => exact hbody (.inr (.inr hstate)) _
  next => exact ⟨_, rfl⟩
  next => exact ⟨_, rfl⟩

theorem ReadsOn.accounted {p next : HttpParser} (hreads : p.ReadsOn next)
    (haccounted : p.Accounted) (hgrowable : p.Growable) :
    next.Accounted ∧ next.Growable := by
  cases hreads with
  | statusLine pos statusCode reason hstate _ hparse hnext =>
      subst hnext
      simp only [Accounted, hstate] at haccounted
      exact ⟨⟨parseStatusLine_ok hparse, haccounted⟩, hgrowable⟩
  | endOfHead hstate _ hnext =>
      subst hnext
      simp only [Accounted, hstate] at haccounted
      obtain ⟨hstatus, hmessage, hsize⟩ := haccounted
      exact finishHeaders_accounted hstatus hmessage hsize hgrowable
  | field pos field hstate _ _ _ hnext =>
      subst hnext
      refine ⟨?_, hgrowable⟩
      simp only [Accounted, hstate] at haccounted ⊢
      exact haccounted

theorem Refuses.message {p : HttpParser} {failure : ParseFailure}
    (hrefuses : p.Refuses failure) : failure.message ∈ headMessages := by
  cases hrefuses with
  | statusLine _ _ _ hrefused => exact parseStatusLine_message hrefused
  | field _ _ _ _ hrefused => exact parseHeaderLine_message hrefused

theorem Stops.kept {p : HttpParser} {step : Step} (hstops : p.Stops step)
    (haccounted : p.Accounted) (hgrowable : p.Growable) :
    step.1.Kept := by
  have hbody : ∀ {q status}, (p.state = .bodyRaw ∨
      p.state = .bodyChunked ∨ p.state = .bodyUntilEof) →
      p.processBody = some (q, status) → BodyLeaves (q, status) := by
    intro q status hstate hprocess
    obtain ⟨step, hstep, hleaves⟩ :=
      processBody_leaves hstate haccounted hgrowable
    rw [hprocess, Option.some.injEq] at hstep
    exact hstep ▸ hleaves
  cases hstops with
  | waits hhead hfind =>
      unfold awaitLine
      split
      next =>
        exact kept_of_error rfl (ne_empty_of_head (by simp [headMessages]))
          hgrowable
      next hlimit =>
        refine ⟨haccounted, ?_, hgrowable⟩
        rcases hhead with hstate | hstate <;>
          simp only [Settled, hstate] <;>
          exact ⟨hfind, Nat.le_of_not_lt hlimit⟩
  | fails failure hrefuses =>
      exact kept_of_error rfl (ne_empty_of_head hrefuses.message) hgrowable
  | body q hstate hprocess =>
      obtain ⟨hgrow, hacc, hsettled⟩ := hbody hstate hprocess
      exact ⟨hacc, hsettled, hgrow⟩
  | bodyFails q code hstate hprocess =>
      obtain ⟨hgrow, hmessage⟩ := hbody hstate hprocess
      exact kept_of_error rfl (ne_empty_of_chunk hmessage) hgrow
  | done hstate =>
      refine ⟨haccounted, ?_, hgrowable⟩
      rcases hstate with hstate | hstate <;> simp [Settled, hstate]

theorem drain_kept {p : HttpParser} (haccounted : p.Accounted)
    (hgrowable : p.Growable) :
    ∃ step, p.drain = some step ∧ step.1.Kept := by
  refine runRanked_meets feedRound_decreases
    (fun q => q.Accounted ∧ q.Growable) (fun step => step.1.Kept) ?_
    ⟨haccounted, hgrowable⟩
  rintro q ⟨hacc, hgrow⟩
  obtain ⟨round, hround⟩ := feedRound_returns hacc hgrow
  refine ⟨round, hround, ?_⟩
  cases round with
  | again next => exact (feedRound_again hround).accounted hacc hgrow
  | leave step => exact (feedRound_leave hround).kept hacc hgrow

theorem Kept.feed {p : HttpParser} (hkept : p.Kept) (data : Bytes) :
    ∃ step, p.feed data = some step ∧ step.1.Kept := by
  unfold HttpParser.feed
  split
  next => exact ⟨_, rfl, hkept⟩
  next =>
    apply drain_kept
    · exact hkept.accounted
    · exact hkept.growable

/-! ## Sequences of calls -/

theorem new_kept : new.Kept where
  accounted := ⟨rfl, rfl⟩
  settled := ⟨rfl, Nat.zero_le _⟩
  growable := ByteBuffer.capacity_empty_pos

theorem Kept.reset {p : HttpParser} (hkept : p.Kept) : p.reset.Kept where
  accounted := ⟨rfl, rfl⟩
  settled := ⟨rfl, Nat.zero_le _⟩
  growable := hkept.growable

theorem Kept.callAll {p : HttpParser} (hkept : p.Kept) {calls : List Call}
    (hcalls : ∀ call ∈ calls, call.isRelease = false) :
    ∃ final, p.callAll calls = some final ∧ final.Kept := by
  induction calls generalizing p with
  | nil => exact ⟨p, rfl, hkept⟩
  | cons call calls ih =>
      have hlater : ∀ call ∈ calls, call.isRelease = false :=
        fun call hmem => hcalls call (List.mem_cons_of_mem _ hmem)
      cases call with
      | feed data =>
          obtain ⟨step, hfeed, hnext⟩ := hkept.feed data
          obtain ⟨final, hrun, hfinal⟩ := ih hnext hlater
          refine ⟨final, ?_, hfinal⟩
          simp [HttpParser.callAll, HttpParser.call, hfeed, hrun]
      | reset =>
          obtain ⟨final, hrun, hfinal⟩ := ih hkept.reset hlater
          exact ⟨final, hrun, hfinal⟩
      | release reason =>
          exact absurd (hcalls _ (List.mem_cons_self ..)) (by
            simp [Call.isRelease])

theorem Kept.feedAll {p : HttpParser} (hkept : p.Kept)
    (segments : List Bytes) :
    ∃ final, p.feedAll segments = some final ∧ final.Kept := by
  apply run_meets (fun _ => True) Kept _ hkept fun _ _ => trivial
  intro q data hq _
  obtain ⟨step, hfeed, hnext⟩ := hq.feed data
  exact ⟨step.1, by rw [hfeed, Option.map_some], hnext⟩

/-- What the state of the parser says between two calls. -/
structure CallInvariant (p : HttpParser) : Prop where
  status : p.state ≠ .statusLine → p.state ≠ .error → p.StatusRead
  line : p.state = .statusLine ∨ p.state = .headers →
    Free cr lf p.buffer ∧ p.buffer.length ≤ maxHeaderBuffer
  raw : p.state = .bodyRaw → ∃ n, p.response.contentLength = some n ∧
    p.response.body.size + p.bodyRemaining = n ∧ 0 < p.bodyRemaining ∧
    p.buffer = []
  untilEof : p.state = .bodyUntilEof → p.buffer = []
  counted : p.state = .complete → p.response.isChunked = false →
    ∃ n, p.response.contentLength = some n ∧ p.response.body.size = n
  failed_iff : p.state = .error ↔ p.errorMessage ≠ ""
  final : p.state = .complete ∨ p.state = .error →
    ∀ data, p.feed data = some (p, success)

theorem Kept.callInvariant {p : HttpParser} (hkept : p.Kept) :
    p.CallInvariant := by
  have haccounted := hkept.accounted
  have hsettled := hkept.settled
  constructor
  · intro hstatusLine herror
    cases hstate : p.state <;>
      simp only [Accounted, hstate] at haccounted hstatusLine herror
    all_goals first | exact haccounted.1 | contradiction
  · rintro (hstate | hstate)
    all_goals
      simp only [Settled, hstate] at hsettled
      exact ⟨findDelim_eq_none_iff.mp hsettled.1, hsettled.2⟩
  · intro hstate
    simp only [Accounted, Settled, hstate] at haccounted hsettled
    exact ⟨_, haccounted.2.2, rfl, hsettled⟩
  · intro hstate
    simpa only [Settled, hstate] using hsettled
  · intro hstate hchunked
    simp only [Accounted, hstate] at haccounted
    refine ⟨_, haccounted.2.2.resolve_left ?_, rfl⟩
    rw [hchunked]
    decide
  · cases hstate : p.state <;> simp only [Accounted, hstate] at haccounted
    all_goals simp [haccounted]
  · intro hstopped data
    rw [HttpParser.feed, if_pos hstopped.symm]

/-- Whatever is fed, and whenever the parser is reset, every call returns, and
the state of the parser tells what has been read. -/
theorem callAll_invariant (calls : List Call)
    (hcalls : ∀ call ∈ calls, call.isRelease = false) :
    ∃ p, new.callAll calls = some p ∧ p.CallInvariant := by
  obtain ⟨p, hrun, hkept⟩ := new_kept.callAll hcalls
  exact ⟨p, hrun, hkept.callInvariant⟩

/-- A response which is cut off, and a parser which is used again. -/
def resetCalls : List Call :=
  [.feed (ascii "HTTP/1.1 200 OK\r\nContent-Length: 3\r\n\r\na"),
    .reset, .feed (ascii "HTTP/1.1 404 ")]

theorem callAll_invariant_reset :
    ((new.callAll resetCalls).map HttpParser.state = some .statusLine) ∧
      ∃ p, new.callAll resetCalls = some p ∧ p.CallInvariant :=
  ⟨by decide +kernel, callAll_invariant resetCalls (by decide)⟩

end HttpParser

end VynxHttp
