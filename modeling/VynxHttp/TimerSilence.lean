import VynxHttp.TimerHistory

/-!
# Callbacks which cancel timers

A pass whose callbacks only cancel timers moves no element, so it is defined.
What it leaves of the list is told by what has happened in the pass: the timers
which were neither cancelled nor called for the only time, in their order.
-/

namespace VynxHttp

namespace LoopTimers

open TimerEvent

variable {α β σ : Type*} {loop : LoopTimers α}

/-! ## Cancelling a list of timers -/

def cancelIn (ids : List ℕ) (timer : TimerEntry α) : TimerEntry α :=
  if timer.id ∈ ids then { timer with cancelled := true } else timer

@[simp] theorem cancelIn_id (ids : List ℕ) (timer : TimerEntry α) :
    (cancelIn ids timer).id = timer.id := by
  unfold cancelIn
  split <;> rfl

theorem storage_cancelTimer (id : ℕ) :
    (loop.cancelTimer id).1.timers.storage = loop.timers.storage := by
  unfold cancelTimer
  split <;> rfl

/-- What a list of cancellations does to the timers. -/
structure Cancels (ids : List ℕ) (events : List TimerEvent)
    (loop loop' : LoopTimers α) : Prop where
  ordered : loop'.Ordered
  elems : loop'.timers.elems = loop.timers.elems.map (cancelIn ids)
  storage : loop'.timers.storage = loop.timers.storage
  log : loop'.log = events ++ loop.log
  cancelled_iff : ∀ timer ∈ loop.timers.elems,
    .cancelled timer.id ∈ events ↔ timer.id ∈ ids
  quiet : ∀ id now, .fired id now ∉ events

theorem cancels_cancelTimer (hordered : loop.Ordered) (id : ℕ) :
    ∃ events, Cancels [id] events loop (loop.cancelTimer id).1 := by
  have helems : (loop.cancelTimer id).1.timers.elems =
      loop.timers.elems.map (cancelIn [id]) := by
    rw [elems_cancelTimer hordered]
    simp [markCancelled, cancelIn]
  have hordered' := hordered.cancelTimer id
  rcases cancelTimer_log loop id with hlog | ⟨_, hlog⟩
  · -- A refused identifier is the one of no timer.
    have habsent : ∀ timer ∈ loop.timers.elems, timer.id ≠ id := by
      rw [← cancelTimer_error_iff]
      unfold cancelTimer at hlog ⊢
      split at hlog
      next => rfl
      next => simp at hlog
    refine ⟨[.refused id], hordered', helems, storage_cancelTimer id, hlog,
      ?_, by simp⟩
    intro timer htimer
    simpa using habsent timer htimer
  · refine ⟨[.cancelled id], hordered', helems, storage_cancelTimer id, hlog,
      ?_, by simp⟩
    intro timer _
    simp

theorem cancels_applyAll (hordered : loop.Ordered) (ids : List ℕ) :
    ∃ events, Cancels ids events loop
      (loop.applyAll (ids.map .cancel)) := by
  induction ids generalizing loop with
  | nil =>
      have hnone : cancelIn (α := α) [] = fun timer => timer := by
        funext timer
        simp [cancelIn]
      refine ⟨[], hordered, ?_, rfl, rfl, by simp, by simp⟩
      simp [applyAll, hnone]
  | cons id ids ih =>
      obtain ⟨first, hfirst⟩ := cancels_cancelTimer hordered id
      obtain ⟨later, hlater⟩ := ih hfirst.ordered
      refine ⟨later ++ first, hlater.ordered, ?_,
        hlater.storage.trans hfirst.storage, ?_, ?_, ?_⟩
      · have helems := hlater.elems
        rw [hfirst.elems, List.map_map] at helems
        refine helems.trans (List.map_congr_left fun timer _ => ?_)
        by_cases hid : timer.id = id <;> by_cases hids : timer.id ∈ ids <;>
          simp [cancelIn, hid, hids]
      · rw [List.append_assoc, ← hfirst.log]
        exact hlater.log
      · intro timer htimer
        have hmem : cancelIn [id] timer ∈
            (loop.cancelTimer id).1.timers.elems := by
          rw [hfirst.elems]
          exact List.mem_map_of_mem htimer
        have hiff := hlater.cancelled_iff _ hmem
        rw [cancelIn_id] at hiff
        rw [List.mem_append, hiff, hfirst.cancelled_iff timer htimer,
          List.mem_singleton, List.mem_cons, or_comm]
      · intro other now hfired
        rcases List.mem_append.mp hfired with hfired | hfired
        · exact hlater.quiet other now hfired
        · exact hfirst.quiet other now hfired

/-! ## What is left of the list -/

/-- The timers which are neither cancelled nor called for the only time. -/
def keeps (events : List TimerEvent) (now : ℤ) (timer : TimerEntry α) :
    Bool :=
  !timer.cancelled && decide (.cancelled timer.id ∉ events) &&
    (decide (.fired timer.id now ∉ events) || timer.repeating)

def rearm (events : List TimerEvent) (now : ℤ) (timer : TimerEntry α) :
    TimerEntry α :=
  if .fired timer.id now ∈ events then
    { timer with expiry := now + timer.interval }
  else timer

/-- A timer in the middle of a pass. -/
def touch (events : List TimerEvent) (now : ℤ) (timer : TimerEntry α) :
    TimerEntry α :=
  { timer with
    expiry :=
      if .fired timer.id now ∈ events ∧ timer.repeating = true then
        now + timer.interval
      else timer.expiry
    cancelled := !keeps events now timer }

theorem touch_of_keeps {events : List TimerEvent} {now : ℤ}
    {timer : TimerEntry α} (hkeeps : keeps events now timer = true) :
    touch events now timer = rearm events now timer := by
  have hkept := hkeeps
  simp only [keeps, Bool.and_eq_true, Bool.not_eq_true'] at hkeeps
  unfold touch rearm
  by_cases hfired : .fired timer.id now ∈ events
  · have hrepeating : timer.repeating = true := by
      simpa [hfired] using hkeeps.2
    simp [hfired, hrepeating, hkept, hkeeps.1.1]
  · have hsame : { timer with cancelled := false } = timer := by
      rw [← hkeeps.1.1]
    simpa [hfired, hkept] using hsame

theorem filter_touch (events : List TimerEvent) (now : ℤ)
    (timers : List (TimerEntry α)) :
    (timers.map (touch events now)).filter (fun timer => !timer.cancelled) =
      (timers.filter (keeps events now)).map (rearm events now) := by
  rw [List.filter_map]
  have htest : (fun timer : TimerEntry α => !timer.cancelled) ∘
      touch events now = keeps events now := by
    funext timer
    simp [touch]
  rw [htest]
  exact List.map_congr_left fun timer htimer =>
    touch_of_keeps (List.mem_filter.mp htimer).2

/-- What holds before the turn at an index, in a pass which starts from
`base`. -/
structure Swept (base : LoopTimers α) (now : ℤ) (index : ℕ)
    (loop : LoopTimers α) : Prop where
  mid : MidPass index loop
  storage : loop.timers.storage = base.timers.storage
  elems : ∃ events, loop.log = events ++ .pass now :: base.log ∧
    loop.timers.elems = base.timers.elems.map (touch events now) ∧
    ∀ timer ∈ base.timers.elems.drop index, .fired timer.id now ∉ events

theorem touch_id (events : List TimerEvent) (now : ℤ)
    (timer : TimerEntry α) : (touch events now timer).id = timer.id := rfl

theorem Swept.start (hlogged : loop.Logged) (now : ℤ) :
    Swept loop now 0 (loop.record (.pass now)) := by
  refine ⟨MidPass.start hlogged now, rfl, [], rfl, ?_, by simp⟩
  have htouch : touch (α := α) [] now = fun timer => timer := by
    funext timer
    simp [touch, keeps]
  simp [record, htouch]

/-- What a turn makes of a timer whose callback cancels some timers. -/
theorem settle_touch {events fresh : List TimerEvent} {now : ℤ}
    {ids : List ℕ} {timer other : TimerEntry α}
    (hdue : isDue now (touch events now timer) = true)
    (hsame : other.id = timer.id → other = timer)
    (hunfired : .fired timer.id now ∉ events)
    (hcancelled : .cancelled other.id ∈ fresh ↔
      .cancelled other.id ∈ events ∨ other.id ∈ ids)
    (hfired : .fired other.id now ∈ fresh ↔
      .fired other.id now ∈ events ∨ other.id = timer.id) :
    (if other.id = timer.id then
      settle now (cancelIn ids (touch events now other))
    else cancelIn ids (touch events now other)) = touch fresh now other := by
  by_cases hid : other.id = timer.id
  · have hother : other = timer := hsame hid
    subst hother
    have hkeeps : keeps events now other = true := by
      simpa [touch] using (isDue_iff.mp hdue).1
    have htouch : touch events now other = other := by
      rw [touch_of_keeps hkeeps, rearm, if_neg hunfired]
    have hin : .fired other.id now ∈ fresh := hfired.mpr (.inr rfl)
    simp only [keeps, Bool.and_eq_true, Bool.not_eq_true',
      decide_eq_true_eq] at hkeeps
    rw [if_pos rfl, htouch]
    by_cases hids : other.id ∈ ids <;> cases hrepeating : other.repeating <;>
      simp [settle, cancelIn, touch, keeps, hin, hcancelled, hids,
        hrepeating, hkeeps]
  · rw [if_neg hid]
    have hfired : .fired other.id now ∈ fresh ↔
        .fired other.id now ∈ events := by simp [hfired, hid]
    by_cases hids : other.id ∈ ids <;>
      simp [cancelIn, touch, keeps, hids, hcancelled, hfired]

variable {base : LoopTimers α} {now : ℤ} {index : ℕ} {world : σ}
  {acts : ℕ → List ℕ}

theorem Swept.idle (hswept : Swept base now index loop)
    {timer : TimerEntry α}
    (hindex : loop.timers.elems[index]? = some timer)
    (hidle : isDue now timer = false) :
    ∃ loop', timerTurn (acting TimerOp.cancel acts) now (loop, world)
        ⟨base.timers.storage, index⟩ = some (loop', world) ∧
      Swept base now (index + 1) loop' := by
  have hturn : timerTurn (acting TimerOp.cancel acts) now (loop, world)
      ⟨base.timers.storage, index⟩ = some (loop, world) := by
    rw [← hswept.storage]
    exact timerTurn_of_idle hindex hidle
  obtain ⟨events, hlog, helems, hunfired⟩ := hswept.elems
  refine ⟨loop, hturn, hswept.mid.turn hturn, hswept.storage, events, hlog,
    helems, fun other hother => hunfired other ?_⟩
  rw [← List.drop_drop] at hother
  exact List.mem_of_mem_drop hother

theorem log_settleAt (loop : LoopTimers α) (now : ℤ) (index : ℕ)
    (timer : TimerEntry α) :
    ∃ marks, (loop.settleAt now index timer).log = marks ++ loop.log ∧
      (∀ id, .cancelled id ∉ marks) ∧ ∀ id now', .fired id now' ∉ marks := by
  cases hrepeating : timer.repeating with
  | false => exact ⟨[], by simp [settleAt, hrepeating], by simp, by simp⟩
  | true =>
      exact ⟨[.rearmed timer.id (now + timer.interval)],
        by simp [settleAt, hrepeating], by simp, by simp⟩

theorem Swept.due (hswept : Swept base now index loop)
    (hbase : base.Ordered) {timer : TimerEntry α}
    (hindex : loop.timers.elems[index]? = some timer)
    (hdue : isDue now timer = true) :
    ∃ loop', timerTurn (acting TimerOp.cancel acts) now (loop, world)
        ⟨base.timers.storage, index⟩ = some (loop', world) ∧
      Swept base now (index + 1) loop' := by
  obtain ⟨events, hlog, helems, hunfired⟩ := hswept.elems
  rw [helems, List.getElem?_map, Option.map_eq_some_iff] at hindex
  obtain ⟨before, hbefore, rfl⟩ := hindex
  obtain ⟨hlt, hget⟩ := List.getElem?_eq_some_iff.mp hbefore
  have hmem : before ∈ base.timers.elems := List.mem_of_getElem? hbefore
  have hfirst : .fired before.id now ∉ events := by
    apply hunfired before
    rw [List.drop_eq_getElem_cons hlt, hget]
    exact List.mem_cons_self ..
  -- The call, and the turn which ends with settling the timer.
  obtain ⟨called, hcall⟩ : ∃ called, called =
      (loop.record (.fired before.id now)).applyAll
        ((acts before.id).map .cancel) := ⟨_, rfl⟩
  obtain ⟨later, hcancels⟩ := cancels_applyAll
    (hswept.mid.logged.ordered.record (.fired before.id now))
    (acts before.id)
  rw [← hcall] at hcancels
  have hcalled : called.timers.elems = base.timers.elems.map
      (cancelIn (acts before.id) ∘ touch events now) := by
    rw [← List.map_map, ← helems]
    exact hcancels.elems
  have hat : called.timers.elems[index]? =
      some (cancelIn (acts before.id) (touch events now before)) := by
    rw [hcalled, List.getElem?_map, hbefore]
    rfl
  have hturn : timerTurn (acting TimerOp.cancel acts) now (loop, world)
      ⟨base.timers.storage, index⟩ =
      some (called.settleAt now index
        (cancelIn (acts before.id) (touch events now before)), world) := by
    rw [← hswept.storage, hcall] at *
    exact timerTurn_of_due
      (by rw [helems, List.getElem?_map, hbefore]; rfl) hdue rfl
      hcancels.storage hat
  refine ⟨_, hturn, hswept.mid.turn hturn,
    hcancels.storage.trans hswept.storage, ?_⟩
  obtain ⟨marks, hmarks, hno, hnone⟩ := log_settleAt called now index
    (cancelIn (acts before.id) (touch events now before))
  refine ⟨marks ++ (later ++ .fired before.id now :: events), ?_, ?_, ?_⟩
  · rw [hmarks, hcancels.log, record, hlog]
    simp only [List.append_assoc, List.cons_append]
  · rw [elems_settleAt hcancels.ordered now hat, hcalled, List.map_map]
    refine List.map_congr_left fun other hother => ?_
    have hpresent : touch events now other ∈ loop.timers.elems := by
      rw [helems]
      exact List.mem_map_of_mem hother
    have hiff := hcancels.cancelled_iff _ hpresent
    rw [touch_id] at hiff
    simp only [Function.comp_apply, cancelIn_id, touch_id]
    refine settle_touch hdue (hbase.eq_of_id hother hmem) hfirst ?_ ?_
    · simp [hno, hiff, or_comm]
    · simp [hnone, hcancels.quiet, or_comm]
  · intro other hother hfired
    have hid : before.id < other.id :=
      hbase.id_lt_of_mem_drop hbefore hother
    have hne : other.id ≠ before.id := by omega
    rw [← List.drop_drop] at hother
    simp [hnone, hcancels.quiet, hne,
      hunfired other (List.mem_of_mem_drop hother)] at hfired

theorem Swept.turn (hswept : Swept base now index loop)
    (hbase : base.Ordered) (hindex : index < base.timers.elems.length)
    (world : σ) (acts : ℕ → List ℕ) :
    ∃ loop', timerTurn (acting TimerOp.cancel acts) now (loop, world)
        ⟨base.timers.storage, index⟩ = some (loop', world) ∧
      Swept base now (index + 1) loop' := by
  obtain ⟨events, _, helems, _⟩ := hswept.elems
  have hlt : index < loop.timers.elems.length := by
    rwa [helems, List.length_map]
  have htimer := List.getElem?_eq_getElem hlt
  cases hdue : isDue now loop.timers.elems[index] with
  | false => exact hswept.idle htimer hdue
  | true => exact hswept.due hbase htimer hdue

/-! ## Passes and runs -/

/-- What a pass leaves of the list. -/
theorem sweep (hlogged : loop.Logged) (now : ℤ) (acts : ℕ → List ℕ) :
    ∃ loop' events,
      loop.step TimerOp.cancel (.processTimers now acts) = some loop' ∧
      loop'.log = events ++ .pass now :: loop.log ∧
      loop'.timers.elems =
        (loop.timers.elems.filter (keeps events now)).map
          (rearm events now) := by
  have hturns : ∀ index (s : LoopTimers α × Unit),
      index < loop.timers.size → Swept loop now index s.1 →
      ∃ s', timerTurn (acting TimerOp.cancel acts) now s
          ⟨loop.timers.storage, index⟩ = some s' ∧
        Swept loop now (index + 1) s'.1 := by
    intro index s hindex hswept
    obtain ⟨loop', hturn, hnext⟩ :=
      hswept.turn hlogged.ordered hindex s.2 acts
    exact ⟨(loop', s.2), hturn, hnext⟩
  obtain ⟨last, world, hpass, hlast⟩ := processTimers_meets (s := (loop, ()))
    (fun index s => Swept loop now index s.1)
    (Swept.start hlogged now) hturns
  obtain ⟨events, hlog, helems, _⟩ := hlast.elems
  refine ⟨last.removeCancelled, events, ?_, hlog, ?_⟩
  · rw [step, hpass]
    rfl
  · calc last.removeCancelled.timers.elems
        = last.timers.elems.filter fun timer => !timer.cancelled := rfl
      _ = (loop.timers.elems.filter (keeps events now)).map
            (rearm events now) := by rw [helems, filter_touch]

theorem exists_step (hlogged : loop.Logged) (event : Step α ℕ) :
    ∃ loop', loop.step TimerOp.cancel event = some loop' ∧
      loop'.Logged := by
  cases event with
  | op op =>
      have hstep : loop.step (β := ℕ) TimerOp.cancel (.op op) =
          some (loop.apply op) := rfl
      exact ⟨_, hstep, hlogged.step hstep⟩
  | processTimers now acts =>
      obtain ⟨loop', _, hstep, _⟩ := sweep hlogged now acts
      exact ⟨loop', hstep, hlogged.step hstep⟩

theorem exists_run (hlogged : loop.Logged) (steps : List (Step α ℕ)) :
    ∃ loop', loop.run TimerOp.cancel steps = some loop' ∧ loop'.Logged :=
  StepRun.run_meets Logged (fun _ => True)
    (fun _ event hinv _ => exists_step hinv event) hlogged (by simp)

theorem cancelTimer_fails_iff (id : ℕ) :
    (∃ code, (loop.cancelTimer id).2 = .error code) ↔
      ∀ timer ∈ loop.timers.elems, timer.id ≠ id := by
  rw [← cancelTimer_error_iff]
  constructor
  · rintro ⟨code, hcode⟩
    unfold cancelTimer at hcode ⊢
    split at hcode
    next => rfl
    next => simp [success] at hcode
  · exact fun hcode => ⟨_, hcode⟩

/-- A success is what the log calls a cancellation, and there is a timer which
it marks. -/
theorem cancelTimer_succeeds {id : ℕ}
    (hok : (loop.cancelTimer id).2 = success) :
    (loop.cancelTimer id).1.log = .cancelled id :: loop.log ∧
      ∃ timer ∈ loop.timers.elems, timer.id = id ∧
        { timer with cancelled := true } ∈
          (loop.cancelTimer id).1.timers.elems := by
  unfold cancelTimer at hok ⊢
  split at hok
  next => cases hok
  next index hsome =>
    obtain ⟨hlt, hid, _⟩ := List.findIdx?_eq_some_iff_getElem.mp hsome
    refine ⟨rfl, loop.timers.elems[index], List.getElem_mem hlt,
      by simpa using hid, ?_⟩
    rw [StdVector.elems_modify]
    refine List.mem_iff_getElem?.mpr ⟨index, ?_⟩
    rw [List.getElem?_modify_eq, List.getElem?_eq_getElem hlt]
    rfl

/-- Cancelled timers stay silent, when the callbacks of every pass may cancel
any timers: each callback was admissible when it started, and the next pass
keeps the timers which are neither cancelled nor called for the only time.  The
cancellations of the log are those which have succeeded. -/
theorem cancelled_timers_stay_silent (growth : ℕ → ℕ)
    (steps : List (Step α ℕ)) :
    ∃ loop, (create growth).run TimerOp.cancel steps = some loop ∧
      EventLog.Holds Admissible loop.log ∧
      (∀ now acts, ∃ loop' events,
        loop.step TimerOp.cancel (.processTimers now acts) = some loop' ∧
        loop'.log = events ++ .pass now :: loop.log ∧
        loop'.timers.elems =
          (loop.timers.elems.filter (keeps events now)).map
            (rearm events now)) ∧
      (∀ (reached : LoopTimers α) (id : ℕ),
        (∃ code, (reached.cancelTimer id).2 = .error code) ↔
          ∀ timer ∈ reached.timers.elems, timer.id ≠ id) ∧
      ∀ (reached : LoopTimers α) (id : ℕ),
        (reached.cancelTimer id).2 = success →
        (reached.cancelTimer id).1.log = .cancelled id :: reached.log ∧
          ∃ timer ∈ reached.timers.elems, timer.id = id ∧
            { timer with cancelled := true } ∈
              (reached.cancelTimer id).1.timers.elems := by
  have hcreate := logged_create (α := α) growth
  obtain ⟨loop, hrun, hlogged⟩ := exists_run hcreate steps
  refine ⟨loop, hrun, hlogged.holds, ?_, ?_, ?_⟩
  · exact fun now acts => sweep hlogged now acts
  · exact fun reached id => cancelTimer_fails_iff id
  · exact fun reached id => cancelTimer_succeeds

end LoopTimers

end VynxHttp
