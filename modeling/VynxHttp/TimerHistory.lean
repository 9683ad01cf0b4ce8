import VynxHttp.TimerPasses

/-!
# What the log of the timers tells

A callback starts only for a timer which has not been cancelled, which has
expired, and which has not been called in the same pass yet.  `Logged` relates
the list to the log so that the next callback is admissible as well; it is kept
by every operation and by every turn, whatever the callbacks do.
-/

namespace VynxHttp

namespace TimerEvent

def isPass : TimerEvent → Bool
  | pass _ => true
  | _ => false

/-- The events since the last pass has started. -/
def currentPass (log : List TimerEvent) : List TimerEvent :=
  log.takeWhile fun event => !event.isPass

/-- The expiry for which a timer was scheduled or re-armed last. -/
def lastArmed (id : ℕ) : List TimerEvent → Option ℤ
  | [] => none
  | scheduled id' expiry :: past =>
      if id' = id then some expiry else lastArmed id past
  | rearmed id' expiry :: past =>
      if id' = id then some expiry else lastArmed id past
  | cancelled _ :: past => lastArmed id past
  | refused _ :: past => lastArmed id past
  | pass _ :: past => lastArmed id past
  | fired _ _ :: past => lastArmed id past

/-- What is asked of the start of a callback. -/
def Admissible : TimerEvent → List TimerEvent → Prop
  | fired id now, past =>
      cancelled id ∉ past ∧
      (∃ expiry, lastArmed id past = some expiry ∧ expiry ≤ now) ∧
      ∀ now', fired id now' ∉ currentPass past
  | _, _ => True

theorem mem_of_mem_currentPass {event : TimerEvent}
    {log : List TimerEvent} (hmem : event ∈ currentPass log) :
    event ∈ log :=
  (List.takeWhile_sublist _).subset hmem

end TimerEvent

namespace LoopTimers

open TimerEvent

variable {α β σ : Type*} {loop : LoopTimers α}

/-- What the list and the log know of each other. -/
structure Logged (loop : LoopTimers α) : Prop where
  ordered : loop.Ordered
  holds : EventLog.Holds Admissible loop.log
  unknown : ∀ id, loop.nextTimerId ≤ id →
    .cancelled id ∉ loop.log ∧ ∀ now, .fired id now ∉ loop.log
  silent : ∀ timer ∈ loop.timers.elems, timer.cancelled = false →
    .cancelled timer.id ∉ loop.log
  armed : ∀ timer ∈ loop.timers.elems, timer.cancelled = false →
    lastArmed timer.id loop.log = some timer.expiry

/-- The timers from an index on have not been called in this pass. -/
def Waiting (index : ℕ) (loop : LoopTimers α) : Prop :=
  ∀ timer ∈ loop.timers.elems.drop index, ∀ now,
    .fired timer.id now ∉ currentPass loop.log

theorem logged_create (growth : ℕ → ℕ) :
    (create growth : LoopTimers α).Logged where
  ordered := ordered_create growth
  holds := trivial
  unknown := by simp [create]
  silent := by simp [create]
  armed := by simp [create]

/-! ## Operations -/

theorem Logged.addTimer (hlogged : loop.Logged)
    (request : TimerRequest α) : (loop.addTimer request).1.Logged where
  ordered := hlogged.ordered.addTimer request
  holds := ⟨trivial, hlogged.holds⟩
  unknown := by
    intro id hid
    have hlt : loop.nextTimerId + 1 ≤ id := hid
    simpa using hlogged.unknown id (by omega)
  silent := by
    intro timer htimer hactive
    rw [elems_addTimer, List.mem_append, List.mem_singleton] at htimer
    rw [log_addTimer, List.mem_cons]
    rintro (hevent | hevent)
    · simp at hevent
    · cases htimer with
      | inl hold => exact hlogged.silent timer hold hactive hevent
      | inr hnew =>
          subst hnew
          exact (hlogged.unknown loop.nextTimerId le_rfl).1 hevent
  armed := by
    intro timer htimer hactive
    rw [elems_addTimer, List.mem_append, List.mem_singleton] at htimer
    rw [log_addTimer, lastArmed]
    cases htimer with
    | inl hold =>
        have hlt : timer.id < loop.nextTimerId :=
          hlogged.ordered.below timer hold
        rw [if_neg (by omega)]
        exact hlogged.armed timer hold hactive
    | inr hnew =>
        subst hnew
        exact if_pos rfl

theorem Waiting.addTimer {index : ℕ} (hwaiting : Waiting index loop)
    (hlogged : loop.Logged) (hindex : index ≤ loop.timers.elems.length)
    (request : TimerRequest α) :
    Waiting index (loop.addTimer request).1 := by
  intro timer htimer now hfired
  rw [elems_addTimer, List.drop_append_of_le_length hindex,
    List.mem_append, List.mem_singleton] at htimer
  have hfired : .fired timer.id now ∈ currentPass loop.log := by
    simpa [currentPass, isPass] using hfired
  cases htimer with
  | inl hold => exact hwaiting timer hold now hfired
  | inr hnew =>
      subst hnew
      exact (hlogged.unknown loop.nextTimerId le_rfl).2 now
        (mem_of_mem_currentPass hfired)

theorem cancelTimer_log (loop : LoopTimers α) (id : ℕ) :
    (loop.cancelTimer id).1.log = .refused id :: loop.log ∨
      (∃ timer ∈ loop.timers.elems, timer.id = id) ∧
        (loop.cancelTimer id).1.log = .cancelled id :: loop.log := by
  unfold cancelTimer
  split
  next => exact .inl rfl
  next index hsome =>
    obtain ⟨hlt, hid, _⟩ := List.findIdx?_eq_some_iff_getElem.mp hsome
    exact .inr ⟨⟨_, List.getElem_mem hlt, by simpa using hid⟩, rfl⟩

/-- A timer which a cancellation leaves active is another one. -/
theorem active_markCancelled {id : ℕ} {timer : TimerEntry α}
    (hactive : (markCancelled id timer).cancelled = false) :
    timer.id ≠ id ∧ markCancelled id timer = timer := by
  unfold markCancelled at hactive ⊢
  by_cases hid : timer.id = id
  · simp [hid] at hactive
  · exact ⟨hid, if_neg hid⟩

theorem Logged.cancelTimer (hlogged : loop.Logged) (id : ℕ) :
    (loop.cancelTimer id).1.Logged := by
  have hordered := hlogged.ordered
  have helems := elems_cancelTimer hordered id
  have hnext := nextTimerId_cancelTimer loop id
  have hactive : ∀ timer ∈ (loop.cancelTimer id).1.timers.elems,
      timer.cancelled = false →
      timer ∈ loop.timers.elems ∧ timer.id ≠ id := by
    intro timer htimer hactive
    rw [helems] at htimer
    obtain ⟨before, hbefore, rfl⟩ := List.mem_map.mp htimer
    obtain ⟨hid, hsame⟩ := active_markCancelled hactive
    rw [hsame]
    exact ⟨hbefore, hid⟩
  rcases cancelTimer_log loop id with hlog | ⟨hpresent, hlog⟩
  · refine ⟨hordered.cancelTimer id, ?_, ?_, ?_, ?_⟩
    · rw [hlog]
      exact ⟨trivial, hlogged.holds⟩
    · rw [hlog, hnext]
      simpa using hlogged.unknown
    · intro timer htimer htrue
      rw [hlog]
      simpa using hlogged.silent timer (hactive timer htimer htrue).1 htrue
    · intro timer htimer htrue
      rw [hlog]
      exact hlogged.armed timer (hactive timer htimer htrue).1 htrue
  · refine ⟨hordered.cancelTimer id, ?_, ?_, ?_, ?_⟩
    · rw [hlog]
      exact ⟨trivial, hlogged.holds⟩
    · obtain ⟨present, hpresent, hid⟩ := hpresent
      have hlt : present.id < loop.nextTimerId :=
        hordered.below present hpresent
      rw [hlog, hnext]
      intro other hother
      have hne : other ≠ id := by omega
      simpa [hne] using hlogged.unknown other hother
    · intro timer htimer htrue
      obtain ⟨hbefore, hne⟩ := hactive timer htimer htrue
      rw [hlog]
      simpa [hne] using hlogged.silent timer hbefore htrue
    · intro timer htimer htrue
      rw [hlog]
      exact hlogged.armed timer (hactive timer htimer htrue).1 htrue

theorem Waiting.cancelTimer {index : ℕ} (hwaiting : Waiting index loop)
    (hordered : loop.Ordered) (id : ℕ) :
    Waiting index (loop.cancelTimer id).1 := by
  intro timer htimer now hfired
  rw [elems_cancelTimer hordered, ← List.map_drop] at htimer
  obtain ⟨before, hbefore, rfl⟩ := List.mem_map.mp htimer
  rw [markCancelled_id] at hfired
  have hfired : .fired before.id now ∈ currentPass loop.log := by
    rcases cancelTimer_log loop id with hlog | ⟨_, hlog⟩
    · simpa [hlog, currentPass, isPass] using hfired
    · simpa [hlog, currentPass, isPass] using hfired
  exact hwaiting before hbefore now hfired

/-- What holds before the turn at an index. -/
structure MidPass (index : ℕ) (loop : LoopTimers α) : Prop where
  logged : loop.Logged
  waiting : Waiting index loop
  length : index ≤ loop.timers.elems.length

theorem length_apply (hordered : loop.Ordered) (op : TimerOp α) :
    loop.timers.elems.length ≤ (loop.apply op).timers.elems.length := by
  cases op with
  | schedule request => simp [apply]
  | cancel id => simp [apply, elems_cancelTimer hordered]

theorem MidPass.apply {index : ℕ} (hmid : MidPass index loop)
    (op : TimerOp α) : MidPass index (loop.apply op) := by
  have hlength : index ≤ (loop.apply op).timers.elems.length :=
    le_trans hmid.length (length_apply hmid.logged.ordered op)
  cases op with
  | schedule request =>
      exact ⟨hmid.logged.addTimer request,
        hmid.waiting.addTimer hmid.logged hmid.length request, hlength⟩
  | cancel id =>
      exact ⟨hmid.logged.cancelTimer id,
        hmid.waiting.cancelTimer hmid.logged.ordered id, hlength⟩

theorem MidPass.applyAll {index : ℕ} (hmid : MidPass index loop)
    (ops : List (TimerOp α)) : MidPass index (loop.applyAll ops) := by
  induction ops generalizing loop with
  | nil => exact hmid
  | cons op ops ih => exact ih (hmid.apply op)

/-! ## Turns -/

/-- The timers behind an index have other identifiers. -/
theorem Ordered.id_lt_of_mem_drop (hordered : loop.Ordered) {index : ℕ}
    {timer other : TimerEntry α}
    (hindex : loop.timers.elems[index]? = some timer)
    (hother : other ∈ loop.timers.elems.drop (index + 1)) :
    timer.id < other.id := by
  obtain ⟨hlt, htimer⟩ := List.getElem?_eq_some_iff.mp hindex
  have hsorted : (loop.timers.elems.drop index).Pairwise
      fun s t => s.id < t.id := hordered.sorted.drop
  rw [List.drop_eq_getElem_cons hlt, List.pairwise_cons, htimer] at hsorted
  exact hsorted.1 other hother

theorem MidPass.fire {index : ℕ} (hmid : MidPass index loop) {now : ℤ}
    {timer : TimerEntry α}
    (hindex : loop.timers.elems[index]? = some timer)
    (hdue : isDue now timer = true) :
    MidPass (index + 1) (loop.record (.fired timer.id now)) := by
  have hlogged := hmid.logged
  have hmem : timer ∈ loop.timers.elems := List.mem_of_getElem? hindex
  obtain ⟨hlt, htimer⟩ := List.getElem?_eq_some_iff.mp hindex
  obtain ⟨hactive, hexpired⟩ := isDue_iff.mp hdue
  have hfirst : ∀ now', .fired timer.id now' ∉ currentPass loop.log := by
    apply hmid.waiting timer
    rw [List.drop_eq_getElem_cons hlt, htimer]
    exact List.mem_cons_self ..
  refine ⟨⟨hlogged.ordered.record _, ?_, ?_, ?_, ?_⟩, ?_, hlt⟩
  · exact ⟨⟨hlogged.silent timer hmem hactive,
      ⟨timer.expiry, hlogged.armed timer hmem hactive, hexpired⟩, hfirst⟩,
      hlogged.holds⟩
  · intro id hid
    have hbelow : timer.id < loop.nextTimerId :=
      hlogged.ordered.below timer hmem
    have hid : loop.nextTimerId ≤ id := hid
    have hne : id ≠ timer.id := by omega
    simpa [record, hne] using hlogged.unknown id hid
  · intro other hother htrue
    simpa [record] using hlogged.silent other hother htrue
  · exact hlogged.armed
  · intro other hother now' hfired
    have hother : other ∈ loop.timers.elems.drop (index + 1) := hother
    have hid : timer.id < other.id :=
      hlogged.ordered.id_lt_of_mem_drop hindex hother
    have hne : other.id ≠ timer.id := by omega
    have hfired : .fired other.id now' ∈ currentPass loop.log := by
      simpa [record, currentPass, isPass, hne] using hfired
    rw [← List.drop_drop] at hother
    exact hmid.waiting other (List.mem_of_mem_drop hother) now' hfired

/-- A turn ends with the timer settled. -/
theorem MidPass.settleAt {index : ℕ} (hmid : MidPass (index + 1) loop)
    (now : ℤ) {timer : TimerEntry α}
    (hindex : loop.timers.elems[index]? = some timer) :
    MidPass (index + 1) (loop.settleAt now index timer) := by
  have hlogged := hmid.logged
  have hordered := hlogged.ordered
  have hmem : timer ∈ loop.timers.elems := List.mem_of_getElem? hindex
  have helems := elems_settleAt hordered now hindex
  have hlog : (loop.settleAt now index timer).log =
      if timer.repeating then
        .rearmed timer.id (now + timer.interval) :: loop.log
      else loop.log := rfl
  -- A timer is active after the turn when it is another one or repeats.
  have hafter : ∀ other ∈ (loop.settleAt now index timer).timers.elems,
      other.cancelled = false →
      (other.id ≠ timer.id ∧ other ∈ loop.timers.elems) ∨
        (timer.repeating = true ∧ timer.cancelled = false ∧
          other = { timer with expiry := now + timer.interval }) := by
    intro other hother hactive
    rw [helems] at hother
    obtain ⟨before, hbefore, rfl⟩ := List.mem_map.mp hother
    by_cases hid : before.id = timer.id
    · have hsame : before = timer := hordered.eq_of_id hbefore hmem hid
      subst hsame
      simp only [↓reduceIte, settle] at hactive ⊢
      cases hrepeating : before.repeating with
      | false => simp [hrepeating] at hactive
      | true =>
          simp only [hrepeating, ↓reduceIte] at hactive
          exact .inr ⟨rfl, hactive, by simp⟩
    · simp only [hid, ↓reduceIte]
      exact .inl ⟨hid, hbefore⟩
  refine ⟨⟨hordered.settleAt now index hindex, ?_, ?_, ?_, ?_⟩, ?_, ?_⟩
  · rw [hlog]
    split
    next => exact ⟨trivial, hlogged.holds⟩
    next => exact hlogged.holds
  · intro id hid
    have hunknown := hlogged.unknown id hid
    rw [hlog]
    split
    next => simpa using hunknown
    next => exact hunknown
  · intro other hother hactive
    have hsilent : .cancelled other.id ∉ loop.log := by
      rcases hafter other hother hactive with
        ⟨_, hbefore⟩ | ⟨_, hbefore, rfl⟩
      · exact hlogged.silent other hbefore hactive
      · exact hlogged.silent timer hmem hbefore
    rw [hlog]
    split
    next => simpa using hsilent
    next => exact hsilent
  · intro other hother hactive
    rw [hlog]
    rcases hafter other hother hactive with
      ⟨hne, hbefore⟩ | ⟨hrepeating, _, rfl⟩
    · have harmed := hlogged.armed other hbefore hactive
      split
      next => simpa [lastArmed, Ne.symm hne] using harmed
      next => exact harmed
    · simp [hrepeating, lastArmed]
  · intro other hother now' hfired
    have hdrop : other ∈ loop.timers.elems.drop (index + 1) := by
      have hlater : (loop.timers.elems.modify index (settle now)).drop
          (index + 1) = loop.timers.elems.drop (index + 1) :=
        List.drop_modify_of_lt _ _ _ _ (Nat.lt_succ_self _)
      exact hlater ▸ hother
    have hfired : .fired other.id now' ∈ currentPass loop.log := by
      rw [hlog] at hfired
      split at hfired
      next => simpa [currentPass, isPass] using hfired
      next => exact hfired
    exact hmid.waiting other hdrop now' hfired
  · rw [helems, List.length_map]
    exact hmid.length

variable {does : β → TimerOp α} {acts : ℕ → List β}

/-- A turn keeps the invariant, whatever the callback does to the timers. -/
theorem MidPass.turn {storage index : ℕ} {now : ℤ} {world world' : σ}
    {loop' : LoopTimers α} (hmid : MidPass index loop)
    (hturn : timerTurn (acting does acts) now (loop, world)
      ⟨storage, index⟩ = some (loop', world')) :
    MidPass (index + 1) loop' := by
  obtain ⟨_, timer, hindex, hcases⟩ := timerTurn_cases hturn
  obtain ⟨hlt, _⟩ := List.getElem?_eq_some_iff.mp hindex
  rcases hcases with ⟨_, hidle⟩ | ⟨hdue, called, settled, hcall, _, hsettled,
    hfinal⟩
  · rw [Prod.mk.injEq] at hidle
    rw [hidle.1]
    refine ⟨hmid.logged, fun other hother => hmid.waiting other ?_, hlt⟩
    rw [← List.drop_drop] at hother
    exact List.mem_of_mem_drop hother
  · rw [Prod.mk.injEq] at hfinal
    rw [hfinal.1]
    have hfired := hmid.fire hindex hdue
    have hcalled : MidPass (index + 1) called.1 := by
      rw [← hcall]
      exact hfired.applyAll _
    exact hcalled.settleAt now hsettled

/-! ## Passes and runs -/

theorem MidPass.start (hlogged : loop.Logged) (now : ℤ) :
    MidPass 0 (loop.record (.pass now)) := by
  refine ⟨⟨hlogged.ordered.record _, ⟨trivial, hlogged.holds⟩, ?_, ?_, ?_⟩,
    ?_, Nat.zero_le _⟩
  · simpa [record] using hlogged.unknown
  · simpa [record] using hlogged.silent
  · exact hlogged.armed
  · intro timer _ now' hfired
    simp [record, currentPass, isPass] at hfired

theorem Logged.removeCancelled (hlogged : loop.Logged) :
    loop.removeCancelled.Logged where
  ordered := hlogged.ordered.removeCancelled
  holds := hlogged.holds
  unknown := hlogged.unknown
  silent := fun timer htimer =>
    hlogged.silent timer (List.mem_filter.mp htimer).1
  armed := fun timer htimer =>
    hlogged.armed timer (List.mem_filter.mp htimer).1

theorem Logged.step {loop' : LoopTimers α} {event : Step α β}
    (hlogged : loop.Logged) (hstep : loop.step does event = some loop') :
    loop'.Logged := by
  cases event with
  | op op =>
      have happly : loop.apply op = loop' := by
        simpa [LoopTimers.step] using hstep
      subst happly
      cases op with
      | schedule request => exact hlogged.addTimer request
      | cancel id => exact hlogged.cancelTimer id
  | processTimers now acts =>
      obtain ⟨final, hpass, rfl⟩ := Option.map_eq_some_iff.mp hstep
      obtain ⟨last, hlast, hremoved⟩ := processTimers_invariant
        (fun index s => MidPass index s.1) (MidPass.start hlogged now)
        (fun _ _ _ _ hmid hturn => hmid.turn hturn) hpass
      rw [hremoved]
      exact hlast.logged.removeCancelled

/-- Every callback of a run was admissible when it started. -/
theorem Logged.run {loop' : LoopTimers α} {events : List (Step α β)}
    (hlogged : loop.Logged) (hrun : loop.run does events = some loop') :
    loop'.Logged :=
  StepRun.run_invariant Logged (fun _ => True)
    (fun _ _ _ hinv _ hstep => hinv.step hstep) hlogged (by simp) hrun

end LoopTimers

end VynxHttp
