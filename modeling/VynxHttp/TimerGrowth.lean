import VynxHttp.TimerRequests

/-!
# Timers scheduled by callbacks

`process_timers` keeps a reference into the vector of timers across a callback.
A run in which callbacks schedule timers does what one expects of it exactly
when the vector has room for them in every pass.
-/

namespace VynxHttp

namespace LoopTimers

open TimerEvent

variable {α : Type*} {loop loop' : LoopTimers α}

/-- The callbacks of one timer, latest first. -/
def firingsOf (id : ℕ) (log : List TimerEvent) : List (ℕ × ℤ) :=
  (firings log).filter fun call => call.1 == id

theorem firingsOf_eq_nil_iff {id : ℕ} {log : List TimerEvent} :
    firingsOf id log = [] ↔ ∀ now, .fired id now ∉ log := by
  simp only [firingsOf, List.filter_eq_nil_iff, firings,
    List.mem_filterMap, beq_iff_eq]
  constructor
  · intro hnone now hmem
    exact hnone (id, now) ⟨_, hmem, rfl⟩ rfl
  · rintro hnone ⟨id', now⟩ ⟨event, hmem, hevent⟩ rfl
    cases event <;> simp [firing] at hevent
    obtain ⟨rfl, rfl⟩ := hevent
    exact hnone _ hmem

/-! ## Passes with room -/

/-- There is room for the timers which the callbacks of a pass schedule. -/
def Fits (loop : LoopTimers α) : Step α (TimerRequest α) → Prop
  | .op _ => True
  | .processTimers now requests =>
      (requested requests now loop.timers.elems).length ≤
        loop.timers.spare

/-- What a pass comes to, as seen from the end of the run. -/
structure PassKept (loop : LoopTimers α) (now : ℤ)
    (requests : ℕ → List (TimerRequest α)) (loop' final : LoopTimers α) :
    Prop where
  one_shot : ∀ timer ∈ loop.timers.elems, isDue now timer = true →
    timer.repeating = false →
    firingsOf timer.id final.log = [(timer.id, now)] ∧
      ∀ other ∈ loop'.timers.elems, other.id ≠ timer.id
  repeating : ∀ timer ∈ loop.timers.elems, isDue now timer = true →
    timer.repeating = true →
    { timer with expiry := now + timer.interval } ∈ loop'.timers.elems
  scheduled : ∀ timer ∈ number loop.nextTimerId
      (requested requests now loop.timers.elems),
    timer ∈ loop'.timers.elems ∧ firingsOf timer.id loop'.log = []

/-- The run is defined, and keeps its timers in every pass. -/
def TimersKept (growth : ℕ → ℕ) (steps : List (Step α (TimerRequest α))) :
    Prop :=
  ∃ final, (create growth).run TimerOp.schedule steps = some final ∧
    ∀ before now requests after,
      steps = before ++ .processTimers now requests :: after →
      ∃ loop loop',
        (create growth).run TimerOp.schedule before = some loop ∧
        loop.step TimerOp.schedule (.processTimers now requests) =
          some loop' ∧
        PassKept loop now requests loop' final

abbrev noEffect (_ : α) (_ : ℕ) (world : Unit) : Unit := world

theorem grown_of_step (hordered : loop.Ordered) {now : ℤ}
    {requests : ℕ → List (TimerRequest α)}
    (hstep : loop.step TimerOp.schedule (.processTimers now requests) =
      some loop') :
    (requested requests now loop.timers.elems).length ≤
        loop.timers.spare ∧
      Grown requests noEffect now (loop, ()) (loop', ()) := by
  obtain ⟨s, hpass, hs⟩ := Option.map_eq_some_iff.mp hstep
  have hpass : processTimers (requesting requests noEffect) now (loop, ()) =
      some s := hpass
  have hroom := room_of_processTimers hordered hpass
  obtain ⟨s', hpass', hgrown⟩ : ∃ s', processTimers
      (requesting requests noEffect) now (loop, ()) = some s' ∧
      Grown requests noEffect now (loop, ()) s' :=
    processTimers_of_room hordered () hroom
  have hsame : s' = s := by
    have hboth := hpass'.symm.trans hpass
    simpa using hboth
  rw [hsame] at hgrown
  rw [← hs]
  exact ⟨hroom, hgrown⟩

theorem exists_step_of_fits (hordered : loop.Ordered)
    (event : Step α (TimerRequest α)) (hfits : loop.Fits event) :
    ∃ loop', loop.step TimerOp.schedule event = some loop' := by
  cases event with
  | op op => exact ⟨_, rfl⟩
  | processTimers now requests =>
      obtain ⟨s, hpass, _⟩ : ∃ s, processTimers
          (requesting requests noEffect) now (loop, ()) = some s ∧
          Grown requests noEffect now (loop, ()) s :=
        processTimers_of_room hordered () hfits
      exact ⟨s.1, Option.map_eq_some_iff.mpr ⟨s, hpass, rfl⟩⟩

/-! ## The callbacks of a pass -/

variable {now : ℤ}

/-- In a list without repeated keys a key is found once. -/
theorem filter_key {γ : Type*} (key : γ → ℕ) {xs : List γ} {x : γ}
    (hsorted : xs.Pairwise fun x y => key x < key y) (hmem : x ∈ xs) :
    xs.filter (fun y => key y == key x) = [x] := by
  induction xs with
  | nil => simp at hmem
  | cons y ys ih =>
      rw [List.pairwise_cons] at hsorted
      rcases List.mem_cons.mp hmem with rfl | hlater
      · have hrest : ys.filter (fun y => key y == key x) = [] := by
          rw [List.filter_eq_nil_iff]
          intro z hz
          have hlt : key x < key z := hsorted.1 z hz
          rw [beq_iff_eq]
          omega
        simp [hrest]
      · have hlt : key y < key x := hsorted.1 x hlater
        have hne : key y ≠ key x := by omega
        simp [hne, ih hsorted.2 hlater]

/-- A pass calls each due timer once. -/
theorem dueFirings_filter {timers : List (TimerEntry α)}
    (hsorted : timers.Pairwise fun s t => s.id < t.id)
    {timer : TimerEntry α} (hmem : timer ∈ timers)
    (hdue : isDue now timer = true) :
    (dueFirings now timers).filter (fun call => call.1 == timer.id) =
      [(timer.id, now)] := by
  have honly := filter_key TimerEntry.id (hsorted.filter (isDue now))
    (List.mem_filter.mpr ⟨hmem, hdue⟩)
  have hcall : (fun call : ℕ × ℤ => call.1 == timer.id) ∘
      (fun other : TimerEntry α => (other.id, now)) =
      fun other => other.id == timer.id := rfl
  rw [dueFirings, List.filter_reverse, List.filter_map, hcall, honly]
  rfl

theorem dueFirings_filter_of_ne {timers : List (TimerEntry α)} {id : ℕ}
    (hother : ∀ timer ∈ timers, isDue now timer = true → timer.id ≠ id) :
    (dueFirings now timers).filter (fun call => call.1 == id) = [] := by
  simp only [dueFirings, List.filter_eq_nil_iff, List.mem_reverse,
    List.mem_map, List.mem_filter, beq_iff_eq]
  rintro call ⟨timer, ⟨hmem, hdue⟩, rfl⟩
  exact hother timer hmem hdue

theorem mem_survivors {timers : List (TimerEntry α)}
    {timer : TimerEntry α} (hmem : timer ∈ survivors now timers) :
    timer.cancelled = false ∧ ∃ before ∈ timers,
      settled now before = timer ∧ before.id = timer.id ∧
        (isDue now before = true → before.repeating = true) := by
  obtain ⟨hmap, hactive⟩ := List.mem_filter.mp hmem
  obtain ⟨before, hbefore, rfl⟩ := List.mem_map.mp hmap
  rw [Bool.not_eq_true'] at hactive
  refine ⟨hactive, before, hbefore, rfl, (settled_id now before).symm, ?_⟩
  intro hdue
  cases hrepeating : before.repeating with
  | false => simp [settled, settle, hdue, hrepeating] at hactive
  | true => rfl

/-! ## What runs keep -/

/-- The active one-shot timers have not been called. -/
structure Uncalled (loop : LoopTimers α) : Prop where
  logged : loop.Logged
  one_shot : ∀ timer ∈ loop.timers.elems, timer.cancelled = false →
    timer.repeating = false → firingsOf timer.id loop.log = []

theorem uncalled_create (growth : ℕ → ℕ) :
    (create growth : LoopTimers α).Uncalled :=
  ⟨logged_create growth, by simp [create]⟩

theorem firingsOf_of_unknown (hlogged : loop.Logged) {id : ℕ}
    (hid : loop.nextTimerId ≤ id) : firingsOf id loop.log = [] :=
  firingsOf_eq_nil_iff.mpr (hlogged.unknown id hid).2

theorem firingsOf_cancelTimer (id id' : ℕ) :
    firingsOf id' (loop.cancelTimer id).1.log = firingsOf id' loop.log := by
  rcases cancelTimer_log loop id with hlog | ⟨_, hlog⟩
  · rw [hlog]
    rfl
  · rw [hlog]
    rfl

theorem firingsOf_grown {requests : ℕ → List (TimerRequest α)}
    (hgrown : Grown requests noEffect now (loop, ()) (loop', ())) (id : ℕ) :
    firingsOf id loop'.log =
      (dueFirings now loop.timers.elems).filter (fun call => call.1 == id) ++
        firingsOf id loop.log := by
  rw [firingsOf, hgrown.fires, List.filter_append]
  rfl

theorem Uncalled.apply (huncalled : loop.Uncalled) (op : TimerOp α) :
    (loop.apply op).Uncalled := by
  cases op with
  | schedule request =>
      refine ⟨huncalled.logged.addTimer request, ?_⟩
      intro timer htimer hactive hshot
      have hlog : firingsOf timer.id (loop.addTimer request).1.log =
          firingsOf timer.id loop.log := rfl
      rw [LoopTimers.apply, elems_addTimer, List.mem_append, List.mem_singleton]
        at htimer
      rw [LoopTimers.apply, hlog]
      rcases htimer with hold | rfl
      · exact huncalled.one_shot timer hold hactive hshot
      · exact firingsOf_of_unknown huncalled.logged le_rfl
  | cancel id =>
      refine ⟨huncalled.logged.cancelTimer id, ?_⟩
      intro timer htimer hactive hshot
      rw [LoopTimers.apply, elems_cancelTimer huncalled.logged.ordered] at htimer
      obtain ⟨before, hbefore, rfl⟩ := List.mem_map.mp htimer
      obtain ⟨_, hsame⟩ := active_markCancelled hactive
      rw [LoopTimers.apply, firingsOf_cancelTimer]
      rw [hsame] at hactive hshot ⊢
      exact huncalled.one_shot before hbefore hactive hshot

theorem Uncalled.pass (huncalled : loop.Uncalled)
    {requests : ℕ → List (TimerRequest α)}
    (hstep : loop.step TimerOp.schedule (.processTimers now requests) =
      some loop') : loop'.Uncalled := by
  have hordered := huncalled.logged.ordered
  obtain ⟨_, hgrown⟩ := grown_of_step hordered hstep
  refine ⟨huncalled.logged.step hstep, ?_⟩
  intro timer htimer hactive hshot
  have helems : loop'.timers.elems = _ := hgrown.elems
  rw [helems, List.mem_append] at htimer
  rw [firingsOf_grown hgrown]
  rcases htimer with hsurvivor | hnew
  · obtain ⟨_, before, hbefore, hsettled, hid, hrepeats⟩ :=
      mem_survivors hsurvivor
    have hidle : isDue now before = false := by
      by_contra hdue
      rw [Bool.not_eq_false] at hdue
      have hrepeating := hrepeats hdue
      rw [← hsettled] at hshot
      simp [settled, settle, hdue, hrepeating] at hshot
    have hsame : before = timer := by
      simpa [settled, hidle] using hsettled
    subst hsame
    have hnone : (dueFirings now loop.timers.elems).filter
        (fun call => call.1 == before.id) = [] := by
      apply dueFirings_filter_of_ne
      intro other hother hdue hsame
      have hsame := hordered.eq_of_id hother hbefore hsame
      rw [hsame, hidle] at hdue
      simp at hdue
    rw [hnone, huncalled.one_shot before hbefore hactive hshot]
    rfl
  · have hfresh : loop.nextTimerId ≤ timer.id := (of_mem_number hnew).1
    have hnone : (dueFirings now loop.timers.elems).filter
        (fun call => call.1 == timer.id) = [] := by
      apply dueFirings_filter_of_ne
      intro other hother _
      have hlt := hordered.below other hother
      omega
    rw [hnone, firingsOf_of_unknown huncalled.logged hfresh]
    rfl

theorem Uncalled.step (huncalled : loop.Uncalled)
    {event : Step α (TimerRequest α)}
    (hstep : loop.step TimerOp.schedule event = some loop') :
    loop'.Uncalled := by
  cases event with
  | op op =>
      have happly : loop.apply op = loop' := by
        simpa [LoopTimers.step] using hstep
      exact happly ▸ huncalled.apply op
  | processTimers now requests => exact huncalled.pass hstep

/-- A timer which has left the list for good. -/
def Gone (id : ℕ) (loop : LoopTimers α) : Prop :=
  id < loop.nextTimerId ∧ ∀ timer ∈ loop.timers.elems, timer.id ≠ id

/-- A timer which has left the list is not called again. -/
theorem Gone.step {id : ℕ} (hgone : Gone id loop) (hordered : loop.Ordered)
    {event : Step α (TimerRequest α)}
    (hstep : loop.step TimerOp.schedule event = some loop') :
    Gone id loop' ∧ firingsOf id loop'.log = firingsOf id loop.log := by
  obtain ⟨hlt, habsent⟩ := hgone
  cases event with
  | op op =>
      have happly : loop.apply op = loop' := by
        simpa [LoopTimers.step] using hstep
      subst happly
      cases op with
      | schedule request =>
          refine ⟨⟨Nat.lt_succ_of_lt hlt, ?_⟩, rfl⟩
          intro timer htimer
          rw [LoopTimers.apply, elems_addTimer, List.mem_append,
            List.mem_singleton] at htimer
          rcases htimer with hold | rfl
          · exact habsent timer hold
          · exact Nat.ne_of_gt hlt
      | cancel other =>
          refine ⟨⟨?_, ?_⟩, firingsOf_cancelTimer other id⟩
          · rw [LoopTimers.apply, nextTimerId_cancelTimer]
            exact hlt
          · intro timer htimer
            rw [LoopTimers.apply, elems_cancelTimer hordered] at htimer
            obtain ⟨before, hbefore, rfl⟩ := List.mem_map.mp htimer
            rw [markCancelled_id]
            exact habsent before hbefore
  | processTimers now requests =>
      obtain ⟨_, hgrown⟩ := grown_of_step hordered hstep
      have hnone : (dueFirings now loop.timers.elems).filter
          (fun call => call.1 == id) = [] :=
        dueFirings_filter_of_ne fun timer htimer _ => habsent timer htimer
      refine ⟨⟨lt_of_lt_of_le hlt hgrown.next, ?_⟩, ?_⟩
      · intro timer htimer
        have helems : loop'.timers.elems = _ := hgrown.elems
        rw [helems, List.mem_append] at htimer
        rcases htimer with hsurvivor | hnew
        · obtain ⟨_, before, hbefore, _, hid, _⟩ := mem_survivors hsurvivor
          rw [← hid]
          exact habsent before hbefore
        · have hfresh := (of_mem_number hnew).1
          simp only at hfresh
          omega
      · rw [firingsOf_grown hgrown, hnone]
        rfl

theorem Gone.run {id : ℕ} (hgone : Gone id loop)
    (huncalled : loop.Uncalled) {steps : List (Step α (TimerRequest α))}
    (hrun : loop.run TimerOp.schedule steps = some loop') :
    firingsOf id loop'.log = firingsOf id loop.log := by
  have hkept := StepRun.run_invariant
    (fun reached => reached.Uncalled ∧ Gone id reached ∧
      firingsOf id reached.log = firingsOf id loop.log) (fun _ => True)
    (fun s event next hinv _ hstep => by
      obtain ⟨hnext, hsame⟩ := hinv.2.1.step hinv.1.logged.ordered hstep
      exact ⟨hinv.1.step hstep, hnext, hsame.trans hinv.2.2⟩)
    ⟨huncalled, hgone, rfl⟩ (by simp) hrun
  exact hkept.2.2

/-! ## The run -/

theorem passKept (huncalled : loop.Uncalled)
    {requests : ℕ → List (TimerRequest α)} {final : LoopTimers α}
    {after : List (Step α (TimerRequest α))}
    (hstep : loop.step TimerOp.schedule (.processTimers now requests) =
      some loop')
    (hrun : loop'.run TimerOp.schedule after = some final) :
    PassKept loop now requests loop' final := by
  have hordered := huncalled.logged.ordered
  obtain ⟨_, hgrown⟩ := grown_of_step hordered hstep
  have helems : loop'.timers.elems = _ := hgrown.elems
  refine ⟨?_, ?_, ?_⟩
  · intro timer htimer hdue hshot
    have hlt := hordered.below timer htimer
    have hleft : ∀ other ∈ loop'.timers.elems, other.id ≠ timer.id := by
      intro other hother hsame
      rw [helems, List.mem_append] at hother
      rcases hother with hsurvivor | hnew
      · obtain ⟨_, before, hbefore, _, hid, hrepeats⟩ :=
          mem_survivors hsurvivor
        have heq := hordered.eq_of_id hbefore htimer (hid.trans hsame)
        subst heq
        rw [hrepeats hdue] at hshot
        simp at hshot
      · have hfresh := (of_mem_number hnew).1
        simp only at hfresh
        omega
    have hgone : Gone timer.id loop' := ⟨lt_of_lt_of_le hlt hgrown.next, hleft⟩
    refine ⟨?_, hleft⟩
    rw [hgone.run (huncalled.step hstep) hrun, firingsOf_grown hgrown,
      dueFirings_filter hordered.sorted htimer hdue,
      huncalled.one_shot timer htimer (isDue_iff.mp hdue).1 hshot]
    rfl
  · intro timer htimer hdue hrepeating
    have hactive := (isDue_iff.mp hdue).1
    rw [helems, List.mem_append]
    refine .inl (List.mem_filter.mpr ⟨List.mem_map.mpr
      ⟨timer, htimer, ?_⟩, ?_⟩)
    · simp [settled, settle, hdue, hrepeating]
    · simp [hactive]
  · intro timer hnew
    refine ⟨by rw [helems]; exact List.mem_append_right _ hnew, ?_⟩
    have hfresh := (of_mem_number hnew).1
    rw [firingsOf_grown hgrown, firingsOf_of_unknown huncalled.logged hfresh]
    rw [List.append_nil]
    apply dueFirings_filter_of_ne
    intro other hother _
    have hlt := hordered.below other hother
    omega

/-- Timers are kept exactly in the runs in whose passes the vector has room for
everything which the callbacks schedule. -/
theorem timersKept_iff_fits (growth : ℕ → ℕ)
    (steps : List (Step α (TimerRequest α))) :
    TimersKept growth steps ↔
      StepRun.Along (step TimerOp.schedule) Fits (create growth) steps := by
  have hcreate := uncalled_create (α := α) growth
  constructor
  · rintro ⟨final, hrun, _⟩
    refine StepRun.along_of_run Uncalled Fits ?_ hcreate hrun
    intro loop event loop' huncalled hstep
    refine ⟨?_, huncalled.step hstep⟩
    cases event with
    | op op => trivial
    | processTimers now requests =>
        exact (grown_of_step huncalled.logged.ordered hstep).1
  · intro hfits
    obtain ⟨final, hrun, _⟩ := StepRun.run_meets_along Uncalled Fits
      (fun loop event huncalled hevent => by
        obtain ⟨loop', hstep⟩ :=
          exists_step_of_fits huncalled.logged.ordered event hevent
        exact ⟨loop', hstep, huncalled.step hstep⟩) hcreate hfits
    refine ⟨final, hrun, ?_⟩
    rintro before now requests after rfl
    obtain ⟨loop, hbefore, hrest⟩ := StepRun.run_append_eq_some.mp hrun
    obtain ⟨loop', hstep, hafter⟩ := StepRun.run_cons_eq_some.mp hrest
    have huncalled : loop.Uncalled := StepRun.run_invariant Uncalled
      (fun _ => True) (fun _ _ _ hinv _ hstep => hinv.step hstep) hcreate
      (by simp) hbefore
    exact ⟨loop, loop', hbefore, hstep, passKept huncalled hstep hafter⟩

/-- A timer which is due at once, and the pass in which its callback asks for
another one. -/
def rescheduling : List (Step Unit (TimerRequest Unit)) :=
  [.op (.schedule ⟨0, 0, 0, (), false⟩),
    .processTimers 0 fun _ => [⟨0, 5, 5, (), false⟩]]

/-- The vector is full when the callback schedules its timer. -/
theorem rescheduling_not_kept :
    ¬TimersKept (fun size => 2 * size) rescheduling := by
  rintro ⟨final, hrun, _⟩
  have hundefined : ((create fun size => 2 * size).run TimerOp.schedule
      rescheduling).isSome = false := by
    decide +kernel
  rw [hrun] at hundefined
  simp at hundefined

end LoopTimers

end VynxHttp
