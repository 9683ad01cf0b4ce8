import VynxHttp.BodySteps
import VynxHttp.HttpParserHead
import VynxHttp.ParserInvariant
import VynxHttp.ParserCalls

/-!
# Heads read line by line

`readHead` reads the head at the start of a text with the line parsers alone:
it knows of no buffer, no calls and no limit.  `drain_head` says that the loop
of `feed` does the same with what is buffered, except that it gives up where an
unfinished line is longer than the limit.
-/

namespace VynxHttp

open DelimitedText FuelLoop

/-! ## Heads as texts -/

inductive HeadState where
  | statusLine
  | fields (statusCode : UInt16) (reason : Bytes)
      (entries : List HeaderField)
  | accepted (statusCode : UInt16) (reason : Bytes)
      (entries : List HeaderField)
  | rejected
  deriving DecidableEq

namespace HeadState

def readLine : HeadState → Bytes → HeadState
  | .statusLine, line =>
      match parseStatusLine line with
      | .ok (statusCode, reason) => .fields statusCode reason []
      | .error _ => .rejected
  | .fields statusCode reason entries, line =>
      if line = [] then .accepted statusCode reason entries
      else
        match parseHeaderLine line with
        | .ok field => .fields statusCode reason (entries ++ [field])
        | .error _ => .rejected
  | .accepted statusCode reason entries, _ =>
      .accepted statusCode reason entries
  | .rejected, _ => .rejected

def readLines (state : HeadState) (lines : List Bytes) : HeadState :=
  lines.foldl readLine state

/-- More lines are expected. -/
def unfinished : HeadState → Bool
  | .statusLine | .fields .. => true
  | .accepted .. | .rejected => false

theorem readLines_of_finished {state : HeadState}
    (hfinished : state.unfinished = false) (lines : List Bytes) :
    state.readLines lines = state := by
  induction lines with
  | nil => rfl
  | cons line lines ih =>
      cases state with
      | statusLine => simp [unfinished] at hfinished
      | fields _ _ _ => simp [unfinished] at hfinished
      | accepted _ _ _ => exact ih
      | rejected => exact ih

end HeadState

/-- The head at the start of a text. -/
def readHead (text : Bytes) : HeadState :=
  HeadState.statusLine.readLines (cutLines cr lf text).1

/-- What comes later does not change a head which has been read. -/
theorem readHead_append (text more : Bytes) :
    readHead (text ++ more) =
      (readHead text).readLines
        (cutLines cr lf ((cutLines cr lf text).2 ++ more)).1 := by
  rw [readHead, HeadState.readLines,
    cutLines_append HttpParser.cr_ne_lf text more, List.foldl_append]
  rfl

theorem readHead_append_of_finished {text : Bytes}
    (hfinished : (readHead text).unfinished = false) (more : Bytes) :
    readHead (text ++ more) = readHead text := by
  rw [readHead_append, HeadState.readLines_of_finished hfinished]

/-! ## Heads as the parser sees them -/

/-- What can be told of a head. -/
inductive HeadVerdict where
  | pending
  | accepted (statusCode : UInt16) (reason : Bytes)
      (entries : List HeaderField)
  | rejected
  deriving DecidableEq

def HeadState.verdict : HeadState → HeadVerdict
  | .statusLine | .fields .. => .pending
  | .accepted statusCode reason entries => .accepted statusCode reason entries
  | .rejected => .rejected

namespace HttpParser

/-- The verdict of a parser.  An error in the body is told from one in the head
by its message. -/
def headVerdict (p : HttpParser) : HeadVerdict :=
  let accepted := HeadVerdict.accepted p.response.statusCode
    p.response.reason p.response.headers.fields
  match p.state with
  | .statusLine | .headers => .pending
  | .bodyRaw | .bodyChunked | .bodyUntilEof | .complete => accepted
  | .error => if p.errorMessage ∈ chunkMessages then accepted else .rejected

/-- Waiting for lines of the head. -/
def Reads (p : HttpParser) (head : HeadState) (buffer : Bytes) : Prop :=
  match head with
  | .statusLine => p.Ready .statusLine ⟨0, [], [], []⟩ buffer
  | .fields statusCode reason entries =>
      p.Ready .headers ⟨statusCode, reason, entries, []⟩ buffer
  | .accepted .. | .rejected => False

theorem Reads.append {p : HttpParser} {head : HeadState} {buffer : Bytes}
    (hreads : p.Reads head buffer) (data : Bytes) :
    ({ p with buffer := p.buffer ++ data } : HttpParser).Reads head
      (buffer ++ data) := by
  cases head with
  | statusLine => exact Ready.append hreads data
  | fields _ _ _ => exact Ready.append hreads data
  | accepted _ _ _ => exact hreads.elim
  | rejected => exact hreads.elim

theorem Reads.unfinished {p : HttpParser} {head : HeadState}
    {buffer : Bytes} (hreads : p.Reads head buffer) :
    head.unfinished = true := by
  cases head with
  | statusLine => rfl
  | fields _ _ _ => rfl
  | accepted _ _ _ => exact hreads.elim
  | rejected => exact hreads.elim

theorem Reads.state_eq {p : HttpParser} {head : HeadState} {buffer : Bytes}
    (hreads : p.Reads head buffer) :
    p.state = .statusLine ∨ p.state = .headers := by
  cases head with
  | statusLine => exact .inl (Ready.state_eq hreads)
  | fields _ _ _ => exact .inr (Ready.state_eq hreads)
  | accepted _ _ _ => exact hreads.elim
  | rejected => exact hreads.elim

theorem Reads.buffer_eq {p : HttpParser} {head : HeadState}
    {buffer : Bytes} (hreads : p.Reads head buffer) :
    p.buffer = buffer := by
  cases head with
  | statusLine => exact Ready.buffer_eq hreads
  | fields _ _ _ => exact Ready.buffer_eq hreads
  | accepted _ _ _ => exact hreads.elim
  | rejected => exact hreads.elim

theorem Reads.headVerdict_eq {p : HttpParser} {head : HeadState}
    {buffer : Bytes} (hreads : p.Reads head buffer) :
    p.headVerdict = .pending := by
  rcases hreads.state_eq with hstate | hstate <;> simp [headVerdict, hstate]

theorem Reads.verdict_eq {p : HttpParser} {head : HeadState}
    {buffer : Bytes} (hreads : p.Reads head buffer) :
    head.verdict = .pending := by
  cases head with
  | statusLine => rfl
  | fields _ _ _ => rfl
  | accepted _ _ _ => exact hreads.elim
  | rejected => exact hreads.elim

/-! ## Bodies leave the head as it is -/

def InBody (p : HttpParser) : Prop :=
  p.state = .bodyRaw ∨ p.state = .bodyChunked ∨ p.state = .bodyUntilEof

theorem headVerdict_of_sameHead {p q : HttpParser} (hbody : p.InBody)
    (hhead : p.SameHead q)
    (hstate : q.state = p.state ∨ q.state = .complete ∨
      q.state = .error ∧ q.errorMessage ∈ chunkMessages) :
    q.headVerdict = p.headVerdict := by
  obtain ⟨hstatusCode, hreason, hheaders⟩ := hhead
  unfold headVerdict
  rw [hstatusCode, hreason, hheaders]
  rcases hstate with hq | hq | ⟨hq, hmessage⟩
  · rw [hq]
    rcases hbody with hp | hp | hp <;> simp only [hp]
  · rw [hq]
    rcases hbody with hp | hp | hp <;> simp only [hp]
  · rw [hq]
    rcases hbody with hp | hp | hp <;> simp only [hp, if_pos hmessage]

theorem drain_headVerdict {p : HttpParser} {step : Step}
    (hbody : p.InBody) (hstep : p.drain = some step) :
    step.1.headVerdict = p.headVerdict := by
  refine runRanked_of_invariant (fun q => q = p)
    (fun step => step.1.headVerdict = p.headVerdict) ?_ ?_ rfl hstep
  · rintro q next rfl hround
    exfalso
    cases feedRound_again hround with
    | statusLine _ _ _ hstate _ _ _ => simp [InBody, hstate] at hbody
    | endOfHead hstate _ _ => simp [InBody, hstate] at hbody
    | field _ _ hstate _ _ _ _ => simp [InBody, hstate] at hbody
  · rintro q result rfl hround
    cases feedRound_leave hround with
    | waits hstate _ =>
        exfalso
        rcases hstate with hstate | hstate <;> simp [InBody, hstate] at hbody
    | fails failure hrefuses =>
        exfalso
        cases hrefuses with
        | statusLine _ hstate _ _ => simp [InBody, hstate] at hbody
        | field _ hstate _ _ _ => simp [InBody, hstate] at hbody
    | body r _ hprocess =>
        have hsteps := processBody_step hprocess
        apply headVerdict_of_sameHead hbody hsteps.consumes.head
        rcases hsteps.state_eq with hsame | ⟨hcomplete, _⟩
        · exact .inl hsame
        · exact .inr (.inl hcomplete)
    | bodyFails r code _ hprocess =>
        have hsteps := processBody_step hprocess
        obtain ⟨hstatusCode, hreason, hheaders⟩ := hsteps.consumes.head
        exact headVerdict_of_sameHead hbody
          ⟨hstatusCode, hreason, hheaders⟩
          (.inr (.inr ⟨rfl, hsteps.message (by simp [success])⟩))
    | done _ => rfl

theorem finishHeaders_inBody (p : HttpParser) : p.finishHeaders.InBody := by
  unfold finishHeaders
  split
  next => exact .inr (.inl rfl)
  next =>
    split
    next => exact .inl rfl
    next => exact .inr (.inr rfl)

theorem headVerdict_finishHeaders {p : HttpParser} {statusCode : UInt16}
    {reason : Bytes} {fields : List HeaderField} {buffer : Bytes}
    (hready : p.Ready .headers ⟨statusCode, reason, fields, []⟩ buffer) :
    p.finishHeaders.headVerdict = .accepted statusCode reason fields := by
  have hvalue := hready.value_eq
  simp only [HttpResponse.value, ResponseValue.mk.injEq] at hvalue
  unfold finishHeaders
  split
  next => simp [headVerdict, hvalue]
  next => split <;> simp [headVerdict, hvalue]

/-! ## The loop of `feed` in the head -/

/-- What a call leaves after the lines of the buffer, with `head` read and the
unfinished line `line`. -/
inductive HeadOutcome (head : HeadState) (line : Bytes)
    (next : HttpParser) : Prop where
  | waits (reads : next.Reads head line)
      (limit : line.length ≤ maxHeaderBuffer)
  | overruns (unfinished : head.unfinished = true)
      (exceeds : maxHeaderBuffer < line.length)
      (verdict : next.headVerdict = .rejected)
  | finished (finished : head.unfinished = false)
      (verdict : next.headVerdict = head.verdict)

theorem headVerdict_failWith (p : HttpParser) {failure : ParseFailure}
    (hmessage : failure.message ∈ headMessages) :
    (p.failWith failure).1.headVerdict = .rejected := by
  have hother : failure.message ∉ chunkMessages := by
    intro hmem
    revert hmessage
    rcases List.mem_pair.mp hmem with h | h <;> rw [h] <;> decide
  simp [failWith, headVerdict, hother]

theorem drain_unfinished {p : HttpParser} {head : HeadState}
    {line : Bytes} {step : Step} (hreads : p.Reads head line)
    (hfree : Free cr lf line) (hstep : p.drain = some step) :
    HeadOutcome head line step.1 := by
  have hfind : findCrlf p.buffer = none := by
    rw [hreads.buffer_eq]
    exact findDelim_eq_none_iff.mpr hfree
  have hround : p.feedRound = some (.leave p.awaitLine) := by
    rcases hreads.state_eq with hstate | hstate <;>
      simp only [feedRound, hstate, hfind]
  have hdrain := drain_leave hround
  rw [hstep, Option.some.injEq] at hdrain
  subst hdrain
  unfold awaitLine
  rw [hreads.buffer_eq]
  by_cases hover : maxHeaderBuffer < line.length
  · rw [if_pos hover]
    refine .overruns hreads.unfinished hover ?_
    simp only [headVerdict]
    exact if_neg (by decide)
  · rw [if_neg hover]
    exact .waits hreads (Nat.le_of_not_lt hover)

theorem drain_readStatusLine {p : HttpParser} {line rest : Bytes}
    {step : Step} (hready : p.Ready .statusLine ⟨0, [], [], []⟩
      (line ++ cr :: lf :: rest))
    (hfree : Free cr lf line) (hstep : p.drain = some step) :
    (HeadState.statusLine.readLine line = .rejected ∧
        step.1.headVerdict = .rejected) ∨
      ∃ next : HttpParser, next.drain = some step ∧
        next.Reads (HeadState.statusLine.readLine line) rest := by
  have hfind : findCrlf (line ++ cr :: lf :: rest) = some line.length :=
    findDelim_append cr_ne_lf hfree rest
  cases hparse : parseStatusLine line with
  | error failure =>
      have hround : p.feedRound = some (.leave (p.failWith failure)) := by
        simp only [feedRound, hready.state_eq, hready.buffer_eq, hfind,
          take_line, hparse]
      have hdrain := drain_leave hround
      rw [hstep, Option.some.injEq] at hdrain
      subst hdrain
      refine .inl ⟨by simp only [HeadState.readLine, hparse], ?_⟩
      exact headVerdict_failWith p (parseStatusLine_message hparse)
  | ok parsed =>
      obtain ⟨statusCode, reason⟩ := parsed
      have hround : p.feedRound = some (.again
          { p with
            response := { p.response with statusCode, reason }
            buffer := rest
            state := .headers }) := by
        simp only [feedRound, hready.state_eq, hready.buffer_eq, hfind,
          take_line, drop_line, hparse]
      refine .inr ⟨_, (drain_again hround).symm.trans hstep, ?_⟩
      simp only [HeadState.readLine, hparse]
      have hvalue := hready.value_eq
      simp only [HttpResponse.value, ResponseValue.mk.injEq] at hvalue
      refine ⟨rfl, ?_, rfl, hready.growable⟩
      simp [HttpResponse.value, hvalue]

theorem drain_readField {p : HttpParser} {statusCode : UInt16}
    {reason line rest : Bytes} {fields : List HeaderField} {step : Step}
    (hready : p.Ready .headers ⟨statusCode, reason, fields, []⟩
      (line ++ cr :: lf :: rest))
    (hfree : Free cr lf line) (hstep : p.drain = some step) :
    ((HeadState.fields statusCode reason fields).readLine line).unfinished =
        false ∧
        step.1.headVerdict =
          ((HeadState.fields statusCode reason fields).readLine
            line).verdict ∨
      ∃ next : HttpParser, next.drain = some step ∧
        next.Reads ((HeadState.fields statusCode reason fields).readLine
          line) rest := by
  have hfind : findCrlf (line ++ cr :: lf :: rest) = some line.length :=
    findDelim_append cr_ne_lf hfree rest
  by_cases hempty : line = []
  · subst hempty
    have hround : p.feedRound = some (.again
        (finishHeaders { p with buffer := rest })) := by
      rw [List.length_nil, List.nil_append] at hfind
      simp only [feedRound, hready.state_eq, hready.buffer_eq, hfind,
        if_true, List.nil_append, List.drop_succ_cons, List.drop_zero]
    have hrest : ({ p with buffer := rest } : HttpParser).Ready .headers
        ⟨statusCode, reason, fields, []⟩ rest :=
      ⟨hready.state_eq, hready.value_eq, rfl, hready.growable⟩
    have hdrain := (drain_again hround).symm.trans hstep
    refine .inl ⟨rfl, ?_⟩
    rw [drain_headVerdict (finishHeaders_inBody _) hdrain,
      headVerdict_finishHeaders hrest]
    rfl
  · have hpos : line.length ≠ 0 := by simpa using hempty
    cases hparse : parseHeaderLine line with
    | error failure =>
        have hround : p.feedRound = some (.leave (p.failWith failure)) := by
          simp only [feedRound, hready.state_eq, hready.buffer_eq, hfind,
            take_line, if_neg hpos, hparse]
        have hdrain := drain_leave hround
        rw [hstep, Option.some.injEq] at hdrain
        subst hdrain
        left
        simp only [HeadState.readLine, if_neg hempty, hparse]
        exact ⟨rfl, headVerdict_failWith p (parseHeaderLine_message hparse)⟩
    | ok field =>
        have hround : p.feedRound = some (.again
            { p with
              response := { p.response with
                headers := p.response.headers.add field.name field.value }
              buffer := rest }) := by
          simp only [feedRound, hready.state_eq, hready.buffer_eq, hfind,
            take_line, drop_line, if_neg hpos, hparse]
        refine .inr ⟨_, (drain_again hround).symm.trans hstep, ?_⟩
        simp only [HeadState.readLine, if_neg hempty, hparse]
        have hvalue := hready.value_eq
        simp only [HttpResponse.value, ResponseValue.mk.injEq] at hvalue
        refine ⟨hready.state_eq, ?_, rfl, hready.growable⟩
        simp [HttpResponse.value, hvalue]

theorem drain_head {p : HttpParser} {head : HeadState} {buffer : Bytes}
    {step : Step} (hreads : p.Reads head buffer)
    (hstep : p.drain = some step) :
    HeadOutcome (head.readLines (cutLines cr lf buffer).1)
      (cutLines cr lf buffer).2 step.1 := by
  induction buffer using lines_induction (a := cr) (b := lf)
    generalizing p head with
  | hfree line hfree =>
      rw [cutLines_free hfree]
      exact drain_unfinished hreads hfree hstep
  | hline line rest hfree ih =>
      rw [cutLines_line cr_ne_lf hfree]
      -- a line which ends the head decides about the whole text
      have hends : (head.readLine line).unfinished = false →
          step.1.headVerdict = (head.readLine line).verdict →
          HeadOutcome (head.readLines
            (line :: (cutLines cr lf rest).1)) (cutLines cr lf rest).2
            step.1 := by
        intro hfinished hverdict
        have hlater := HeadState.readLines_of_finished hfinished
          (cutLines cr lf rest).1
        have hsame : head.readLines (line :: (cutLines cr lf rest).1) =
            head.readLine line := hlater
        rw [hsame]
        exact .finished hfinished hverdict
      cases head with
      | statusLine =>
          rcases drain_readStatusLine hreads hfree hstep with
            ⟨hrejected, hverdict⟩ | ⟨next, hdrain, hnext⟩
          · exact hends (by rw [hrejected]; rfl) (by rw [hrejected]; exact hverdict)
          · exact ih hnext hdrain
      | fields statusCode reason fields =>
          rcases drain_readField hreads hfree hstep with
            ⟨hfinished, hverdict⟩ | ⟨next, hdrain, hnext⟩
          · exact hends hfinished hverdict
          · exact ih hnext hdrain
      | accepted _ _ _ => exact hreads.elim
      | rejected => exact hreads.elim

end HttpParser

end VynxHttp
