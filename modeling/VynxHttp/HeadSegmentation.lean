import VynxHttp.HeadReader

/-!
# The head and the calls

The limit on the buffer is looked at only when a call ends within a line, so
whether a line is too long depends on where the calls are cut.  `Overruns` says
that some call ends within a line which is longer than the limit;
`feedAll_headVerdict` says that apart from this every way of cutting a text
into calls leads to the verdict of `readHead`.
-/

namespace VynxHttp

open DelimitedText Segmentation

/-- The head is unfinished, and its last line is already longer than the
limit. -/
def Overlong (text : Bytes) : Prop :=
  (readHead text).unfinished = true ∧
    maxHeaderBuffer < (cutLines cr lf text).2.length

instance (text : Bytes) : Decidable (Overlong text) :=
  inferInstanceAs (Decidable (_ ∧ _))

/-- After `text`, some call ends where the head is overlong. -/
def Overruns (text : Bytes) : List Bytes → Prop
  | [] => False
  | segment :: segments =>
      Overlong (text ++ segment) ∨ Overruns (text ++ segment) segments

instance instDecidableOverruns (text : Bytes) :
    (segments : List Bytes) → Decidable (Overruns text segments)
  | [] => inferInstanceAs (Decidable False)
  | segment :: segments =>
      have := instDecidableOverruns (text ++ segment) segments
      inferInstanceAs (Decidable (_ ∨ _))

theorem not_overlong_append {text : Bytes}
    (hfinished : (readHead text).unfinished = false) (more : Bytes) :
    ¬ Overlong (text ++ more) := by
  rintro ⟨hunfinished, _⟩
  rw [readHead_append_of_finished hfinished, hfinished] at hunfinished
  exact Bool.false_ne_true hunfinished

theorem not_overruns_of_finished {text : Bytes}
    (hfinished : (readHead text).unfinished = false)
    (segments : List Bytes) : ¬ Overruns text segments := by
  induction segments generalizing text with
  | nil => exact id
  | cons segment segments ih =>
      rintro (hoverlong | hlater)
      · exact not_overlong_append hfinished segment hoverlong
      · apply ih _ hlater
        rw [readHead_append_of_finished hfinished, hfinished]

theorem HeadState.verdict_ne_pending {head : HeadState}
    (hfinished : head.unfinished = false) : head.verdict ≠ .pending := by
  cases head with
  | statusLine => simp [unfinished] at hfinished
  | fields _ _ _ => simp [unfinished] at hfinished
  | accepted _ _ _ => simp [verdict]
  | rejected => simp [verdict]

namespace HttpParser

/-! ## Verdicts are final -/

theorem feed_headVerdict {p : HttpParser} {step : Step}
    (hdecided : p.headVerdict ≠ .pending) {data : Bytes}
    (hfeed : p.feed data = some step) :
    step.1.headVerdict = p.headVerdict := by
  by_cases hstopped : p.state = .error ∨ p.state = .complete
  · rw [HttpParser.feed, if_pos hstopped, Option.some.injEq] at hfeed
    rw [← hfeed]
  · rw [HttpParser.feed, if_neg hstopped] at hfeed
    have hbody : p.InBody := by
      cases hstate : p.state <;> simp [headVerdict, hstate] at hdecided
      all_goals simp_all [InBody]
    exact drain_headVerdict (p := { p with buffer := p.buffer ++ data })
      hbody hfeed

theorem Kept.feedAll_decided {p : HttpParser} (hkept : p.Kept)
    (hdecided : p.headVerdict ≠ .pending) (segments : List Bytes) :
    ∃ final, p.feedAll segments = some final ∧
      final.headVerdict = p.headVerdict := by
  let Inv : HttpParser → Prop := fun q =>
    q.Kept ∧ q.headVerdict = p.headVerdict
  have hcall : ∀ (q : HttpParser) (data : Bytes), Inv q → True →
      ∃ next, (q.feed data).map Prod.fst = some next ∧ Inv next := by
    rintro q data ⟨hq, hsame⟩ _
    obtain ⟨step, hfeed, hnext⟩ := hq.feed data
    have hverdict := feed_headVerdict (by rwa [hsame]) hfeed
    exact ⟨step.1, by rw [hfeed, Option.map_some], hnext,
      hverdict.trans hsame⟩
  have hinv : Inv p := ⟨hkept, rfl⟩
  obtain ⟨final, hrun, _, hfinal⟩ :=
    run_meets (fun _ => True) Inv hcall hinv
      (show ∀ segment ∈ segments, True from fun _ _ => trivial)
  exact ⟨final, hrun, hfinal⟩

/-! ## Runs -/

/-- What a call does to a parser which has read `text` and waits in the
head. -/
theorem Reads.feed {p : HttpParser} {text segment : Bytes} {step : Step}
    (hreads : p.Reads (readHead text) (cutLines cr lf text).2)
    (hfeed : p.feed segment = some step) :
    HeadOutcome (readHead (text ++ segment))
      (cutLines cr lf (text ++ segment)).2 step.1 := by
  have hgoing : ¬ (p.state = .error ∨ p.state = .complete) := by
    rcases hreads.state_eq with hstate | hstate <;> simp [hstate]
  rw [HttpParser.feed, if_neg hgoing] at hfeed
  have houtcome := drain_head (hreads.append segment) hfeed
  rw [readHead_append, cutLines_append cr_ne_lf text segment]
  exact houtcome

theorem Reads.feedAll {p : HttpParser} (hkept : p.Kept) {text : Bytes}
    (hreads : p.Reads (readHead text) (cutLines cr lf text).2)
    (segments : List Bytes) :
    ∃ final, p.feedAll segments = some final ∧
      final.headVerdict =
        if Overruns text segments then .rejected
        else (readHead (text ++ segments.flatten)).verdict := by
  induction segments generalizing p text with
  | nil =>
      refine ⟨p, rfl, ?_⟩
      rw [if_neg (show ¬ Overruns text [] from id), List.flatten_nil,
        List.append_nil, hreads.headVerdict_eq, hreads.verdict_eq]
  | cons segment segments ih =>
      obtain ⟨step, hfeed, hnext⟩ := hkept.feed segment
      have hcall : (p.feed segment).map Prod.fst = some step.1 := by
        rw [hfeed, Option.map_some]
      have hrun : p.feedAll (segment :: segments) =
          step.1.feedAll segments := run_cons_of_eq hcall segments
      rw [hrun, List.flatten_cons, ← List.append_assoc]
      cases hreads.feed hfeed with
      | waits hwaits hlimit =>
          obtain ⟨final, hfinal, hverdict⟩ := ih hnext hwaits
          refine ⟨final, hfinal, ?_⟩
          have hshort : ¬ Overlong (text ++ segment) :=
            fun hoverlong => absurd hoverlong.2 (Nat.not_lt.mpr hlimit)
          simp only [hverdict, Overruns, hshort, false_or]
      | overruns hunfinished hover hrejected =>
          obtain ⟨final, hfinal, hverdict⟩ :=
            hnext.feedAll_decided (by simp [hrejected]) segments
          refine ⟨final, hfinal, ?_⟩
          have hoverruns : Overruns text (segment :: segments) :=
            .inl ⟨hunfinished, hover⟩
          rw [if_pos hoverruns, hverdict, hrejected]
      | finished hfinished hread =>
          have hdecided := HeadState.verdict_ne_pending hfinished
          obtain ⟨final, hfinal, hverdict⟩ :=
            hnext.feedAll_decided (by rwa [hread]) segments
          refine ⟨final, hfinal, ?_⟩
          have hwithin : ¬ Overruns text (segment :: segments) := by
            rintro (hoverlong | hlater)
            · rw [Overlong, hfinished] at hoverlong
              exact Bool.false_ne_true hoverlong.1
            · exact not_overruns_of_finished hfinished segments hlater
          rw [if_neg hwithin, hverdict, hread,
            readHead_append_of_finished hfinished]

/-- Whatever the text and its cuts, the verdict on the head is that of
`readHead`, unless a call overruns the limit. -/
theorem feedAll_headVerdict (segments : List Bytes) :
    ∃ p, new.feedAll segments = some p ∧
      p.headVerdict =
        if Overruns [] segments then .rejected
        else (readHead segments.flatten).verdict := by
  have hreads : new.Reads (readHead []) (cutLines cr lf []).2 := ready_new
  exact hreads.feedAll new_kept segments

/-! ## Two ways of cutting a text -/

/-- Two ways of cutting a text into calls lead to the same verdict exactly when
a complete line of the head is refused anyway, or both ways overrun the limit,
or none does. -/
theorem feedAll_headVerdict_eq_iff (first second : List Bytes)
    (htext : first.flatten = second.flatten) :
    ∃ p q, new.feedAll first = some p ∧ new.feedAll second = some q ∧
      (p.headVerdict = q.headVerdict ↔
        readHead first.flatten = .rejected ∨
          (Overruns [] first ↔ Overruns [] second)) := by
  obtain ⟨p, hp, hpverdict⟩ := feedAll_headVerdict first
  obtain ⟨q, hq, hqverdict⟩ := feedAll_headVerdict second
  refine ⟨p, q, hp, hq, ?_⟩
  rw [hpverdict, hqverdict, ← htext]
  have hrejected : (readHead first.flatten).verdict = .rejected ↔
      readHead first.flatten = .rejected := by
    cases readHead first.flatten <;> simp [HeadState.verdict]
  by_cases hfirst : Overruns [] first <;>
    by_cases hsecond : Overruns [] second
  · simp [hfirst, hsecond]
  · simp [hfirst, hsecond, ← hrejected, eq_comm]
  · simp [hfirst, hsecond, hrejected]
  · simp [hfirst, hsecond]

/-- A small head in one call and in three. -/
theorem feedAll_headVerdict_eq_iff_small :
    ∃ p q,
      new.feedAll [ascii "HTTP/1.1 200 OK\r\nA:b\r\n\r\n"] = some p ∧
      new.feedAll [ascii "HTTP/1.1 200 OK\r", ascii "\nA:b\r\n\r",
        ascii "\n"] = some q ∧
      (p.headVerdict = q.headVerdict ↔
        readHead [ascii "HTTP/1.1 200 OK\r\nA:b\r\n\r\n"].flatten =
            .rejected ∨
          (Overruns [] [ascii "HTTP/1.1 200 OK\r\nA:b\r\n\r\n"] ↔
            Overruns [] [ascii "HTTP/1.1 200 OK\r", ascii "\nA:b\r\n\r",
              ascii "\n"])) :=
  feedAll_headVerdict_eq_iff _ _ (by decide)

/-! ## A line longer than the limit -/

def longValue : Bytes := List.replicate maxHeaderBuffer 97

def longLine : Bytes := ascii "X" ++ colon :: longValue

theorem free_longLine : Free cr lf longLine := by
  apply free_of_notMem_left
  simp [longLine, longValue, cr, colon, ascii]

/-- The status line and a line which is longer than the limit. -/
def longHead : Bytes :=
  encodeLines cr lf [ascii "HTTP/1.1 200 OK"] ++ longLine

theorem cutLines_longHead :
    cutLines cr lf longHead = ([ascii "HTTP/1.1 200 OK"], longLine) := by
  rw [longHead, cutLines_encodeLines cr_ne_lf (by decide),
    cutLines_free free_longLine]
  rfl

theorem overlong_longHead : Overlong longHead := by
  rw [Overlong, readHead, cutLines_longHead]
  constructor
  · rfl
  · rw [longLine, longValue, List.length_append, List.length_cons,
      List.length_replicate]
    omega

theorem parseHeaderLine_longLine :
    parseHeaderLine longLine = .ok ⟨ascii "X", longValue⟩ := by
  have hblank : ∀ b ∈ longValue, isBlank b = false := by
    intro b hb
    rw [List.eq_of_mem_replicate hb]
    decide
  have htrim : trimBlanks ([] ++ longValue ++ []) = longValue := by
    apply trimBlanks_of_trimmed
    · simp
    · exact ⟨fun b hb => hblank b (List.mem_of_mem_head? hb),
        fun b hb => hblank b (List.mem_of_mem_getLast? hb)⟩
    · simp
  have hname : ascii "X" ≠ [] := by decide
  rw [parseHeaderLine, longLine, cutAt_append (by decide)]
  simp only [if_neg hname]
  rw [List.nil_append, List.append_nil] at htrim
  rw [htrim]

theorem readHead_longHead :
    readHead (longHead ++ ascii "\r\n\r\n") =
      .accepted 200 (ascii "OK")
        [⟨ascii "X", longValue⟩] := by
  have hne : longLine ≠ [] := by simp [longLine, ascii]
  have hlines : cutLines cr lf (longHead ++ ascii "\r\n\r\n") =
      ([ascii "HTTP/1.1 200 OK", longLine, []], []) := by
    rw [cutLines_append cr_ne_lf, cutLines_longHead]
    have hrest : longLine ++ ascii "\r\n\r\n" =
        encodeLines cr lf [longLine, []] ++ [] := by simp; rfl
    rw [hrest, cutLines_encodeLines cr_ne_lf]
    · rfl
    · simp [free_longLine]
  rw [readHead, hlines]
  have hstatus : HeadState.statusLine.readLine (ascii "HTTP/1.1 200 OK") =
      .fields 200 (ascii "OK") [] := by decide +kernel
  simp only [HeadState.readLines, List.foldl_cons, List.foldl_nil, hstatus]
  simp [HeadState.readLine, hne, parseHeaderLine_longLine]

theorem not_headVerdict_eq_longHead :
    ¬ ∀ first second : List Bytes, first.flatten = second.flatten →
      ∃ p q, new.feedAll first = some p ∧ new.feedAll second = some q ∧
        p.headVerdict = q.headVerdict := by
  intro hall
  obtain ⟨p, q, hp, hq, heq⟩ :=
    hall [longHead ++ ascii "\r\n\r\n"] [longHead, ascii "\r\n\r\n"]
      (by simp)
  obtain ⟨p', hp', hone⟩ :=
    feedAll_headVerdict [longHead ++ ascii "\r\n\r\n"]
  obtain ⟨q', hq', htwo⟩ :=
    feedAll_headVerdict [longHead, ascii "\r\n\r\n"]
  rw [hp, Option.some.injEq] at hp'
  rw [hq, Option.some.injEq] at hq'
  subst hp' hq'
  have hfinished : (readHead (longHead ++ ascii "\r\n\r\n")).unfinished =
      false := by
    rw [readHead_longHead]
    rfl
  have hwithin : ¬ Overruns [] [longHead ++ ascii "\r\n\r\n"] := by
    simp [Overruns, Overlong, hfinished]
  have hoverruns : Overruns [] [longHead, ascii "\r\n\r\n"] :=
    .inl overlong_longHead
  rw [heq, if_neg hwithin, List.flatten_singleton, readHead_longHead] at hone
  rw [hone, if_pos hoverruns] at htwo
  simp [HeadState.verdict] at htwo

end HttpParser

end VynxHttp
