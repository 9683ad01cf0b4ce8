import VynxHttp.TimeoutTimers

/-!
# The life of a timeout

A timeout lives from its start until an operation ends it or a pass finds it
expired.  It makes no call in the first case and one call in the second, and
none afterwards.
-/

namespace VynxHttp

open LoopTimers

variable {α : Type*}

/-- A timeout which has been started, with the timer which it was given. -/
structure StartedTimeout (α : Type*) where
  timer : ℕ
  handle : NativeHandle
  type : TimeoutType
  callback : TimeoutCallback α
  expiry : ℤ

def StartedTimeout.invocation (timeout : StartedTimeout α) (now : ℤ) :
    Invocation α :=
  ⟨timeout.timer, now, timeout.handle, timeout.type, timeout.callback⟩

def invocationsOf (timer : ℕ) (manager : TimeoutManager α) :
    List (Invocation α) :=
  manager.invocations.filter fun call => call.timer == timer

def TimeoutOp.started (timer : ℕ) : TimeoutOp α → Option (StartedTimeout α)
  | .start now handle type duration callback =>
      some ⟨timer, handle, type, callback, now + milliseconds duration⟩
  | .resetIdle now handle duration =>
      some ⟨timer, handle, .idle, .noop, now + milliseconds duration⟩
  | _ => none

/-- Whether an operation cancels or replaces the timeout of a handle and a
type. -/
def TimeoutOp.ends (handle : NativeHandle) (type : TimeoutType) :
    TimeoutOp α → Bool
  | .start _ handle' type' _ _ => only handle' type' handle type
  | .cancel handle' type' => only handle' type' handle type
  | .cancelAll handle' => handle == handle'
  | .resetIdle _ handle' _ => only handle' .idle handle type

namespace ManagedLoop

variable {s s' s'' : ManagedLoop α} {timeout : StartedTimeout α}

structure Alive (timeout : StartedTimeout α) (s : ManagedLoop α) : Prop where
  pending : ∃ timer ∈ s.loop.timers.elems, timer.id = timeout.timer ∧
    timer.expiry = timeout.expiry ∧ timer.cancelled = false ∧
    timer.callback =
      .timeout ⟨timeout.handle, timeout.type, timeout.callback⟩
  silent : invocationsOf timeout.timer s.manager = []

/-- Whatever the timer has called, it calls nothing any more. -/
structure Over (timer : ℕ) (calls : List (Invocation α))
    (s : ManagedLoop α) : Prop where
  known : timer < s.loop.nextTimerId
  cancelled : ∀ other ∈ s.loop.timers.elems, other.id = timer →
    other.cancelled = true
  calls : invocationsOf timer s.manager = calls

structure Sound (s : ManagedLoop α) : Prop where
  in_step : s.InStep
  known : ∀ call ∈ s.manager.invocations, call.timer < s.loop.nextTimerId

theorem Sound.invocationsOf_next (hsound : s.Sound) :
    invocationsOf s.loop.nextTimerId s.manager = [] := by
  unfold invocationsOf
  rw [List.filter_eq_nil_iff]
  intro call hcall
  have hlt := hsound.known call hcall
  rw [beq_iff_eq]
  omega

/-! ## Operations -/

section Served

variable {ended : NativeHandle → TimeoutType → Bool}
  {added : List (TimerEntry (LoopCallback α))}

theorem sound_of_served (hserved : Served ended added s s')
    (hsound : s.Sound) : s'.Sound := by
  refine ⟨hserved.corresponds, ?_⟩
  rw [hserved.invocations, hserved.next]
  intro call hcall
  exact Nat.lt_add_right _ (hsound.known call hcall)

theorem over_of_served (hserved : Served ended added s s') {id : ℕ}
    {calls : List (Invocation α)} (hover : Over id calls s) :
    Over id calls s' := by
  obtain ⟨ids, helems, _⟩ := hserved.elems
  refine ⟨?_, ?_, ?_⟩
  · rw [hserved.next]
    exact Nat.lt_add_right _ hover.known
  · intro other hother hid
    rw [helems, List.mem_append] at hother
    rcases hother with hold | hnew
    · obtain ⟨before, hbefore, rfl⟩ := List.mem_map.mp hold
      rw [cancelIn_id] at hid
      have hcancelled := hover.cancelled before hbefore hid
      unfold cancelIn
      split
      next => rfl
      next => exact hcancelled
    · have hfresh := hserved.fresh other hnew
      have hknown := hover.known
      omega
  · rw [invocationsOf, hserved.invocations]
    exact hover.calls

theorem alive_of_served (hserved : Served ended added s s')
    (hsound : s.Sound) (halive : Alive timeout s) :
    (ended timeout.handle timeout.type = true →
        Over timeout.timer [] s') ∧
      (ended timeout.handle timeout.type = false → Alive timeout s') := by
  obtain ⟨timer, hmem, hid, hexpiry, hactive, hcallback⟩ := halive.pending
  obtain ⟨ids, helems, hids⟩ := hserved.elems
  obtain ⟨entry, hfind, hentry, htimer⟩ :=
    hsound.in_step.tracked timer hmem hactive _ hcallback
  obtain ⟨_, _, hcallback'⟩ :=
    hsound.in_step.lambda_eq hfind hentry hmem htimer.symm
  have hdata := hcallback.symm.trans hcallback'
  simp only [LoopCallback.timeout.injEq, TimeoutLambda.mk.injEq] at hdata
  have hiff := hids _ entry hfind hentry
  rw [htimer, hid, ← hdata.1, ← hdata.2.1] at hiff
  have hcalls : invocationsOf timeout.timer s'.manager = [] := by
    rw [invocationsOf, hserved.invocations]
    exact halive.silent
  have hlt : timeout.timer < s.loop.nextTimerId := by
    rw [← hid]
    exact hsound.in_step.ordered.below timer hmem
  constructor
  · intro hended
    have hin := hiff.mpr hended
    refine ⟨?_, ?_, hcalls⟩
    · rw [hserved.next]
      exact Nat.lt_add_right _ hlt
    · intro other hother hother_id
      rw [helems, List.mem_append] at hother
      rcases hother with hold | hnew
      · obtain ⟨before, _, rfl⟩ := List.mem_map.mp hold
        rw [cancelIn_id] at hother_id
        simp [cancelIn, hother_id, hin]
      · have hfresh := hserved.fresh other hnew
        omega
  · intro hended
    have hout : timeout.timer ∉ ids := by
      rw [hiff, hended]
      simp
    refine ⟨⟨timer, ?_, hid, hexpiry, hactive, hcallback⟩, hcalls⟩
    rw [helems]
    refine List.mem_append_left _ (List.mem_map.mpr ⟨timer, hmem, if_neg ?_⟩)
    rw [hid]
    exact hout

end Served

structure Advances (op : TimeoutOp α) (s s' : ManagedLoop α) : Prop where
  sound : s'.Sound
  alive : ∀ timeout, Alive timeout s →
    (op.ends timeout.handle timeout.type = true →
        Over timeout.timer [] s') ∧
      (op.ends timeout.handle timeout.type = false → Alive timeout s')
  ended : ∀ id calls, Over id calls s → Over id calls s'
  started : ∀ timeout, op.started s.loop.nextTimerId = some timeout →
    Alive timeout s'

theorem alive_of_start (hsound : s.Sound)
    {ended : NativeHandle → TimeoutType → Bool} {request}
    (hserved : Served ended
      [(request : TimerRequest (LoopCallback α)).entry s.loop.nextTimerId]
      s s')
    (hid : timeout.timer = s.loop.nextTimerId)
    (hexpiry : timeout.expiry = request.now + milliseconds request.delay)
    (hcallback : request.callback =
      .timeout ⟨timeout.handle, timeout.type, timeout.callback⟩) :
    Alive timeout s' := by
  obtain ⟨ids, helems, _⟩ := hserved.elems
  refine ⟨⟨request.entry s.loop.nextTimerId, ?_, hid.symm, hexpiry.symm,
    rfl, hcallback⟩, ?_⟩
  · rw [helems]
    exact List.mem_append_right _ (List.mem_singleton_self _)
  · rw [invocationsOf, hserved.invocations, hid]
    exact hsound.invocationsOf_next

theorem Advances.of_served (hsound : s.Sound) {op : TimeoutOp α}
    {added : List (TimerEntry (LoopCallback α))}
    (hserved : Served
      (fun handle type => op.ends handle type) added s s')
    (hstarted : ∀ timeout, op.started s.loop.nextTimerId = some timeout →
      Alive timeout s') : Advances op s s' where
  sound := sound_of_served hserved hsound
  alive := fun _ halive => alive_of_served hserved hsound halive
  ended := fun _ _ hover => over_of_served hserved hover
  started := hstarted

theorem exists_advance (hsound : s.Sound) (op : TimeoutOp α) :
    ∃ s', s.step (.op op) = some s' ∧ Advances op s s' := by
  cases op with
  | start now handle type duration callback =>
      obtain ⟨loop', hloop, hserved⟩ := startTimeout_served hsound.in_step
        now handle type duration callback
      refine ⟨_, Option.map_eq_some_iff.mpr ⟨loop', hloop, rfl⟩,
        .of_served hsound hserved ?_⟩
      intro timeout hstarted
      rw [TimeoutOp.started, Option.some.injEq] at hstarted
      subst hstarted
      exact alive_of_start hsound hserved rfl rfl rfl
  | cancel handle type =>
      obtain ⟨loop', hloop, hserved⟩ :=
        cancelTimeout_served hsound.in_step handle type
      exact ⟨_, Option.map_eq_some_iff.mpr ⟨loop', hloop, rfl⟩,
        .of_served hsound hserved (by simp [TimeoutOp.started])⟩
  | cancelAll handle =>
      obtain ⟨loop', hloop, hserved⟩ :=
        cancelAll_served hsound.in_step handle
      exact ⟨_, Option.map_eq_some_iff.mpr ⟨loop', hloop, rfl⟩,
        .of_served hsound hserved (by simp [TimeoutOp.started])⟩
  | resetIdle now handle duration =>
      obtain ⟨loop₁, hloop₁, hserved₁⟩ :=
        cancelTimeout_served hsound.in_step handle .idle
      have hsound₁ := sound_of_served hserved₁ hsound
      obtain ⟨loop₂, hloop₂, hserved₂⟩ := startTimeout_served
        hsound₁.in_step now handle .idle duration .noop
      have hstep : s.step (.op (.resetIdle now handle duration)) =
          step ⟨(s.manager.cancelTimeout (some s.loop) handle .idle).1, loop₁⟩
            (.op (.start now handle .idle duration .noop)) := by
        simp only [step, TimeoutManager.apply, resetIdle_eq, hloop₁]
      rw [hstep]
      refine ⟨_, Option.map_eq_some_iff.mpr ⟨loop₂, hloop₂, rfl⟩,
        sound_of_served hserved₂ hsound₁, ?_, ?_, ?_⟩
      · intro timeout halive
        have hfirst := alive_of_served hserved₁ hsound halive
        refine ⟨fun hends => over_of_served hserved₂ (hfirst.1 hends), ?_⟩
        intro hends
        exact (alive_of_served hserved₂ hsound₁ (hfirst.2 hends)).2 hends
      · intro id calls hover
        exact over_of_served hserved₂ (over_of_served hserved₁ hover)
      · intro timeout hstarted
        rw [TimeoutOp.started, Option.some.injEq] at hstarted
        subst hstarted
        exact alive_of_start hsound₁ hserved₂ hserved₁.next.symm rfl rfl

/-- Timers of other owners are none of the manager's business. -/
theorem schedule_served (hsound : s.Sound) (now delay interval : ℤ)
    (repeating : Bool) :
    Served (fun _ _ => false)
      [(TimerRequest.mk now delay interval .other repeating).entry
        s.loop.nextTimerId] s
      ⟨s.manager, (s.loop.addTimer
        ⟨now, delay, interval, .other, repeating⟩).1⟩ := by
  have hin := hsound.in_step
  have hnil := retires_nil hin.ordered
  refine ⟨⟨hin.ordered.addTimer _, hin.keyed, ?_, ?_⟩, rfl, ⟨[], ?_, ?_⟩, ?_,
    rfl⟩
  · intro key entry hfind hactive
    obtain ⟨timer, hmem, hrest⟩ := hin.pending key entry hfind hactive
    refine ⟨timer, ?_, hrest⟩
    rw [elems_addTimer]
    exact List.mem_append_left _ hmem
  · intro timer hmem hactive lambda hlambda
    rw [elems_addTimer, List.mem_append, List.mem_singleton] at hmem
    rcases hmem with hold | rfl
    · exact hin.tracked timer hold hactive lambda hlambda
    · simp [TimerRequest.entry] at hlambda
  · rw [elems_addTimer, ← hnil.elems]
  · simp
  · intro timer htimer
    rw [List.mem_singleton] at htimer
    exact htimer ▸ le_rfl

/-! ## Passes -/

variable {now : ℤ} {index : ℕ} {timer : TimerEntry (LoopCallback α)}

theorem timerTurn_inert (hindex : s.loop.timers.elems[index]? = some timer)
    (hdue : isDue now timer = true) :
    timerTurn (inert now) now (s.loop, s.manager)
        ⟨s.loop.timers.storage, index⟩ =
      some ((fireTurn now index timer s).loop,
        (fireTurn now index timer s).manager) :=
  timerTurn_of_due hindex hdue rfl rfl hindex

theorem fire_invocations (hin : s.InStep)
    (hmem : timer ∈ s.loop.timers.elems) (hdue : isDue now timer = true) :
    (s.manager.fire now timer.callback timer.id).invocations =
        s.manager.invocations ∨
      ∃ lambda, timer.callback = .timeout lambda ∧
        (s.manager.fire now timer.callback timer.id).invocations =
          callsOf now timer.id lambda ++ s.manager.invocations := by
  cases hcallback : timer.callback with
  | other => exact .inl rfl
  | timeout lambda =>
      obtain ⟨entry, hfind, hentry, _, _⟩ :=
        hin.entry_of_due hmem (isDue_iff.mp hdue).1 hcallback
      exact .inr ⟨lambda, rfl, (fire_timeout now hfind hentry timer.id).2⟩

theorem callsOf_timer {now : ℤ} {id : ℕ} {lambda : TimeoutLambda α}
    {call : Invocation α} (hcall : call ∈ callsOf now id lambda) :
    call.timer = id := by
  unfold callsOf at hcall
  split at hcall
  next => simp at hcall
  next =>
    rw [List.mem_singleton] at hcall
    rw [hcall]
  next =>
    rw [List.mem_singleton] at hcall
    rw [hcall]

theorem invocationsOf_fireTurn (hin : s.InStep)
    (hindex : s.loop.timers.elems[index]? = some timer)
    (hdue : isDue now timer = true) {id : ℕ} (hid : timer.id ≠ id) :
    invocationsOf id (fireTurn now index timer s).manager =
      invocationsOf id s.manager := by
  unfold invocationsOf fireTurn
  rcases fire_invocations hin (List.mem_of_getElem? hindex) hdue with
    hsame | ⟨lambda, _, hcalls⟩
  · rw [hsame]
  · rw [hcalls, List.filter_append]
    have hnone : (callsOf now timer.id lambda).filter
        (fun call => call.timer == id) = [] := by
      rw [List.filter_eq_nil_iff]
      intro call hcall
      rw [callsOf_timer hcall, beq_iff_eq]
      exact hid
    rw [hnone, List.nil_append]

theorem Sound.fireTurn (hsound : s.Sound)
    (hindex : s.loop.timers.elems[index]? = some timer)
    (hdue : isDue now timer = true) :
    (fireTurn now index timer s).Sound := by
  have hmem : timer ∈ s.loop.timers.elems := List.mem_of_getElem? hindex
  have hlt := hsound.in_step.ordered.below timer hmem
  refine ⟨hsound.in_step.fireTurn hindex hdue, ?_⟩
  have hnext : (ManagedLoop.fireTurn now index timer s).loop.nextTimerId =
      s.loop.nextTimerId := rfl
  rw [hnext]
  intro call hcall
  unfold ManagedLoop.fireTurn at hcall
  rcases fire_invocations hsound.in_step hmem hdue with
    hsame | ⟨lambda, _, hcalls⟩
  · rw [hsame] at hcall
    exact hsound.known call hcall
  · rw [hcalls, List.mem_append] at hcall
    rcases hcall with hnew | hold
    · rw [callsOf_timer hnew]
      exact hlt
    · exact hsound.known call hold

theorem Over.fireTurn {id : ℕ} {calls : List (Invocation α)}
    (hover : Over id calls s) (hsound : s.Sound)
    (hindex : s.loop.timers.elems[index]? = some timer)
    (hdue : isDue now timer = true) :
    Over id calls (fireTurn now index timer s) := by
  have hordered := hsound.in_step.ordered
  have hmem : timer ∈ s.loop.timers.elems := List.mem_of_getElem? hindex
  have hne : timer.id ≠ id := by
    intro hid
    have hcancelled := hover.cancelled timer hmem hid
    rw [(isDue_iff.mp hdue).1] at hcancelled
    simp at hcancelled
  refine ⟨hover.known, ?_, ?_⟩
  · intro other hother hid
    rw [elems_fireTurn hordered now hindex] at hother
    obtain ⟨before, hbefore, rfl⟩ := List.mem_map.mp hother
    by_cases hsame : before.id = timer.id
    · rw [if_pos hsame, settle_id, hsame] at hid
      exact absurd hid hne
    · rw [if_neg hsame] at hid ⊢
      exact hover.cancelled before hbefore hid
  · rw [invocationsOf_fireTurn hsound.in_step hindex hdue hne]
    exact hover.calls

theorem Alive.fireTurn_of_ne (halive : Alive timeout s) (hsound : s.Sound)
    (hindex : s.loop.timers.elems[index]? = some timer)
    (hdue : isDue now timer = true) (hne : timer.id ≠ timeout.timer) :
    Alive timeout (fireTurn now index timer s) := by
  obtain ⟨own, hmem, hid, hrest⟩ := halive.pending
  refine ⟨⟨own, ?_, hid, hrest⟩, ?_⟩
  · rw [elems_fireTurn hsound.in_step.ordered now hindex]
    refine List.mem_map.mpr ⟨own, hmem, if_neg ?_⟩
    rw [hid]
    exact Ne.symm hne
  · rw [invocationsOf_fireTurn hsound.in_step hindex hdue hne]
    exact halive.silent

theorem Alive.fireTurn_self (halive : Alive timeout s) (hsound : s.Sound)
    (hcallback : timeout.callback ≠ .empty)
    (hindex : s.loop.timers.elems[index]? = some timer)
    (hdue : isDue now timer = true) (hid : timer.id = timeout.timer) :
    Over timeout.timer [timeout.invocation now]
      (fireTurn now index timer s) := by
  have hordered := hsound.in_step.ordered
  have hmem : timer ∈ s.loop.timers.elems := List.mem_of_getElem? hindex
  obtain ⟨own, hown, hown_id, _, hactive, hlambda⟩ := halive.pending
  have hsame := hordered.eq_of_id hown hmem (hown_id.trans hid.symm)
  subst hsame
  obtain ⟨entry, hfind, hentry, _, hshot⟩ :=
    hsound.in_step.entry_of_due hmem hactive hlambda
  refine ⟨?_, ?_, ?_⟩
  · rw [← hid]
    exact hordered.below own hmem
  · intro other hother hother_id
    rw [elems_fireTurn hordered now hindex] at hother
    obtain ⟨before, hbefore, rfl⟩ := List.mem_map.mp hother
    by_cases hsame : before.id = own.id
    · have heq := hordered.eq_of_id hbefore hmem hsame
      subst heq
      simp [settle, hshot]
    · rw [if_neg hsame, ← hid] at hother_id
      exact absurd hother_id hsame
  · have hcalls : callsOf now own.id
        ⟨timeout.handle, timeout.type, timeout.callback⟩ =
        [timeout.invocation now] := by
      unfold callsOf StartedTimeout.invocation
      cases hkind : timeout.callback with
      | empty => exact absurd hkind hcallback
      | noop => simp [hid]
      | call callback => simp [hid]
    have hinvocations :=
      (fire_timeout now hfind hentry own.id).2
    unfold invocationsOf ManagedLoop.fireTurn
    rw [hlambda, hinvocations, hcalls, List.filter_append]
    have hsilent := halive.silent
    unfold invocationsOf at hsilent
    rw [hsilent]
    simp [StartedTimeout.invocation]

/-- A timeout which has expired before a pass: its turn is still to come, or
it has made its call. -/
def Expiring (now : ℤ) (index : ℕ) (timeout : StartedTimeout α)
    (s : ManagedLoop α) : Prop :=
  (Alive timeout s ∧
      timeout.timer ∈ (s.loop.timers.elems.drop index).map (·.id)) ∨
    Over timeout.timer [timeout.invocation now] s

/-- What holds before the turn at an index, in a pass which starts from
`base`. -/
structure Passing (now : ℤ) (base : ManagedLoop α) (index : ℕ)
    (s : ManagedLoop α) : Prop where
  sound : s.Sound
  storage : s.loop.timers.storage = base.loop.timers.storage
  size : s.loop.timers.size = base.loop.timers.size
  ended : ∀ id calls, Over id calls base → Over id calls s
  later : ∀ timeout, Alive timeout base → now < timeout.expiry →
    Alive timeout s
  expiring : ∀ timeout, Alive timeout base → timeout.expiry ≤ now →
    timeout.callback ≠ .empty → Expiring now index timeout s

theorem Passing.start (hsound : s.Sound) (now : ℤ) :
    Passing now s 0 ⟨s.manager, s.loop.record (.pass now)⟩ := by
  have hin := hsound.in_step
  refine ⟨⟨⟨hin.ordered.record _, hin.keyed, hin.pending, hin.tracked⟩,
    hsound.known⟩, rfl, rfl, ?_, ?_, ?_⟩
  · exact fun id calls hover => ⟨hover.known, hover.cancelled, hover.calls⟩
  · exact fun timeout halive _ => ⟨halive.pending, halive.silent⟩
  · intro timeout halive _ _
    obtain ⟨timer, hmem, hid, _⟩ := halive.pending
    refine .inl ⟨⟨halive.pending, halive.silent⟩, ?_⟩
    rw [← hid]
    exact List.mem_map_of_mem hmem

theorem mem_drop_iff {timers : List (TimerEntry (LoopCallback α))}
    (hindex : timers[index]? = some timer) {id : ℕ} :
    id ∈ (timers.drop index).map (·.id) ↔
      id = timer.id ∨ id ∈ (timers.drop (index + 1)).map (·.id) := by
  obtain ⟨hlt, hget⟩ := List.getElem?_eq_some_iff.mp hindex
  rw [List.drop_eq_getElem_cons hlt, hget, List.map_cons, List.mem_cons]

theorem Passing.idle {base : ManagedLoop α}
    (hpassing : Passing now base index s)
    (hindex : s.loop.timers.elems[index]? = some timer)
    (hidle : isDue now timer = false) : Passing now base (index + 1) s := by
  refine ⟨hpassing.sound, hpassing.storage, hpassing.size, hpassing.ended,
    hpassing.later, ?_⟩
  intro timeout halive hexpired hcallback
  rcases hpassing.expiring timeout halive hexpired hcallback with
    ⟨hnow, hmem⟩ | hover
  · refine .inl ⟨hnow, ?_⟩
    rcases (mem_drop_iff hindex).mp hmem with hid | hlater
    · -- The turn of an expired timeout is not idle.
      obtain ⟨own, hown, hown_id, hexpiry, hactive, _⟩ := hnow.pending
      have hsame := hpassing.sound.in_step.ordered.eq_of_id hown
        (List.mem_of_getElem? hindex) (hown_id.trans hid)
      rw [← hsame] at hidle
      have hdue : isDue now own = true :=
        isDue_iff.mpr ⟨hactive, by rw [hexpiry]; exact hexpired⟩
      rw [hdue] at hidle
      simp at hidle
    · exact hlater
  · exact .inr hover

theorem Passing.due {base : ManagedLoop α}
    (hpassing : Passing now base index s)
    (hindex : s.loop.timers.elems[index]? = some timer)
    (hdue : isDue now timer = true) :
    Passing now base (index + 1) (fireTurn now index timer s) := by
  have hsound := hpassing.sound
  have hordered := hsound.in_step.ordered
  have hmem : timer ∈ s.loop.timers.elems := List.mem_of_getElem? hindex
  have hsize : (fireTurn now index timer s).loop.timers.size =
      s.loop.timers.size := StdVector.size_modify _ _ _
  refine ⟨hsound.fireTurn hindex hdue, hpassing.storage,
    hsize.trans hpassing.size, ?_, ?_, ?_⟩
  · intro id calls hover
    exact (hpassing.ended id calls hover).fireTurn hsound hindex hdue
  · intro timeout halive hlater
    have hnow := hpassing.later timeout halive hlater
    apply hnow.fireTurn_of_ne hsound hindex hdue
    intro hid
    obtain ⟨own, hown, hown_id, hexpiry, _⟩ := hnow.pending
    have hsame := hordered.eq_of_id hown hmem (hown_id.trans hid.symm)
    have hexpired := (isDue_iff.mp hdue).2
    rw [← hsame, hexpiry] at hexpired
    omega
  · intro timeout halive hexpired hcallback
    rcases hpassing.expiring timeout halive hexpired hcallback with
      ⟨hnow, hdrop⟩ | hover
    · by_cases hid : timer.id = timeout.timer
      · exact .inr (hnow.fireTurn_self hsound hcallback hindex hdue hid)
      · refine .inl ⟨hnow.fireTurn_of_ne hsound hindex hdue hid, ?_⟩
        rcases (mem_drop_iff hindex).mp hdrop with hsame | hlater
        · exact absurd hsame.symm hid
        · have hrest : (fireTurn now index timer
              s).loop.timers.elems.drop (index + 1) =
              s.loop.timers.elems.drop (index + 1) :=
            List.drop_modify_of_lt _ _ _ _ (Nat.lt_succ_self _)
          rw [hrest]
          exact hlater
    · exact .inr (hover.fireTurn hsound hindex hdue)

/-! ## The end of a pass -/

theorem Sound.removeCancelled (hsound : s.Sound) :
    (⟨s.manager, s.loop.removeCancelled⟩ : ManagedLoop α).Sound := by
  have hin := hsound.in_step
  refine ⟨⟨hin.ordered.removeCancelled, hin.keyed, ?_, ?_⟩, hsound.known⟩
  · intro key entry hfind hactive
    obtain ⟨timer, hmem, hid, htrue, hrest⟩ :=
      hin.pending key entry hfind hactive
    exact ⟨timer, List.mem_filter.mpr ⟨hmem, by simp [htrue]⟩, hid, htrue,
      hrest⟩
  · intro timer hmem
    exact hin.tracked timer (List.mem_filter.mp hmem).1

theorem Over.removeCancelled {id : ℕ} {calls : List (Invocation α)}
    (hover : Over id calls s) :
    Over id calls ⟨s.manager, s.loop.removeCancelled⟩ :=
  ⟨hover.known, fun other hother =>
    hover.cancelled other (List.mem_filter.mp hother).1, hover.calls⟩

theorem Alive.removeCancelled (halive : Alive timeout s) :
    Alive timeout ⟨s.manager, s.loop.removeCancelled⟩ := by
  obtain ⟨timer, hmem, hid, hexpiry, hactive, hcallback⟩ := halive.pending
  exact ⟨⟨timer, List.mem_filter.mpr ⟨hmem, by simp [hactive]⟩, hid, hexpiry,
    hactive, hcallback⟩, halive.silent⟩

structure Passes (now : ℤ) (s s' : ManagedLoop α) : Prop where
  sound : s'.Sound
  ended : ∀ id calls, Over id calls s → Over id calls s'
  later : ∀ timeout, Alive timeout s → now < timeout.expiry →
    Alive timeout s'
  expired : ∀ timeout, Alive timeout s → timeout.expiry ≤ now →
    timeout.callback ≠ .empty →
    Over timeout.timer [timeout.invocation now] s'

theorem exists_pass (hsound : s.Sound) (now : ℤ) :
    ∃ s', s.step (.processTimers now) = some s' ∧ Passes now s s' := by
  have hturns : ∀ index (t : TimeoutLoop α × TimeoutManager α),
      index < s.loop.timers.size → Passing now s index ⟨t.2, t.1⟩ →
      ∃ t', timerTurn (inert now) now t
          ⟨s.loop.timers.storage, index⟩ = some t' ∧
        Passing now s (index + 1) ⟨t'.2, t'.1⟩ := by
    intro index t hindex hpassing
    have hlt : index < t.1.timers.elems.length := by
      have hsize := hpassing.size
      simp only [StdVector.size] at hsize hindex
      omega
    have htimer := List.getElem?_eq_getElem hlt
    rw [← hpassing.storage]
    cases hdue : isDue now t.1.timers.elems[index] with
    | false => exact ⟨t, timerTurn_of_idle htimer hdue,
        hpassing.idle htimer hdue⟩
    | true =>
        exact ⟨_, timerTurn_inert (s := ⟨t.2, t.1⟩) htimer hdue,
          hpassing.due htimer hdue⟩
  obtain ⟨last, manager, hpass, hlast⟩ := processTimers_meets
    (s := (s.loop, s.manager)) (fun index t => Passing now s index ⟨t.2, t.1⟩)
    (Passing.start hsound now) hturns
  refine ⟨⟨manager, last.removeCancelled⟩,
    Option.map_eq_some_iff.mpr ⟨_, hpass, rfl⟩,
    hlast.sound.removeCancelled, ?_, ?_, ?_⟩
  · exact fun id calls hover => (hlast.ended id calls hover).removeCancelled
  · exact fun timeout halive hlater =>
      (hlast.later timeout halive hlater).removeCancelled
  · intro timeout halive hexpired hcallback
    rcases hlast.expiring timeout halive hexpired hcallback with
      ⟨_, hmem⟩ | hover
    · have hsize : last.timers.elems.length = s.loop.timers.size :=
        hlast.size
      rw [← hsize, List.drop_length] at hmem
      simp at hmem
    · exact hover.removeCancelled

/-! ## Runs -/

theorem sound_create (growth : ℕ → ℕ) :
    (⟨{}, create growth⟩ : ManagedLoop α).Sound := by
  refine ⟨⟨ordered_create growth, ?_, ?_, ?_⟩, by simp⟩
  · intro key entry hfind
    simp [KeyedTable.find?, KeyedTable.empty] at hfind
  · intro key entry hfind
    simp [KeyedTable.find?, KeyedTable.empty] at hfind
  · intro timer hmem
    simp [create] at hmem

theorem exists_step (hsound : s.Sound) (event : ManagedStep α) :
    ∃ s', s.step event = some s' ∧ s'.Sound := by
  cases event with
  | op op =>
      obtain ⟨s', hstep, hadvances⟩ := exists_advance hsound op
      exact ⟨s', hstep, hadvances.sound⟩
  | schedule now delay interval repeating =>
      exact ⟨_, rfl, sound_of_served
        (schedule_served hsound now delay interval repeating) hsound⟩
  | processTimers now =>
      obtain ⟨s', hstep, hpasses⟩ := exists_pass hsound now
      exact ⟨s', hstep, hpasses.sound⟩

theorem exists_run (hsound : s.Sound) (steps : List (ManagedStep α)) :
    ∃ s', StepRun.run step s steps = some s' ∧ s'.Sound :=
  StepRun.run_meets Sound (fun _ => True)
    (fun _ event hinv _ => exists_step hinv event) hsound (by simp)

theorem run_over {id : ℕ} {calls : List (Invocation α)} (hsound : s.Sound)
    (hover : Over id calls s) (steps : List (ManagedStep α)) :
    ∃ s', StepRun.run step s steps = some s' ∧
      invocationsOf id s'.manager = calls := by
  obtain ⟨s', hrun, _, hafter⟩ := StepRun.run_meets
    (fun t => t.Sound ∧ Over id calls t) (fun _ => True)
    (fun t event hinv _ => by
      cases event with
      | op op =>
          obtain ⟨t', hstep, hadvances⟩ := exists_advance hinv.1 op
          exact ⟨t', hstep, hadvances.sound,
            hadvances.ended id calls hinv.2⟩
      | schedule now delay interval repeating =>
          have hserved :=
            schedule_served hinv.1 now delay interval repeating
          exact ⟨_, rfl, sound_of_served hserved hinv.1,
            over_of_served hserved hinv.2⟩
      | processTimers now =>
          obtain ⟨t', hstep, hpasses⟩ := exists_pass hinv.1 now
          exact ⟨t', hstep, hpasses.sound, hpasses.ended id calls hinv.2⟩)
    (s := s) ⟨hsound, hover⟩ (fun event (_ : event ∈ steps) => trivial)
  exact ⟨s', hrun, hafter.calls⟩

end ManagedLoop

/-- The calls which a timeout makes in the steps after its start: none when an
operation ends it first, and otherwise one, in the first pass at or after its
expiry. -/
def StartedTimeout.calls (timeout : StartedTimeout α) :
    List (ManagedStep α) → List (Invocation α)
  | [] => []
  | .op op :: steps =>
      if op.ends timeout.handle timeout.type then []
      else timeout.calls steps
  | .schedule .. :: steps => timeout.calls steps
  | .processTimers now :: steps =>
      if timeout.expiry ≤ now then [timeout.invocation now]
      else timeout.calls steps

namespace ManagedLoop

variable {s : ManagedLoop α} {timeout : StartedTimeout α}

theorem run_alive (hsound : s.Sound) (halive : Alive timeout s)
    (hcallback : timeout.callback ≠ .empty)
    (steps : List (ManagedStep α)) :
    ∃ s', StepRun.run step s steps = some s' ∧
      invocationsOf timeout.timer s'.manager = timeout.calls steps := by
  induction steps generalizing s with
  | nil => exact ⟨s, rfl, halive.silent⟩
  | cons event steps ih =>
      cases event with
      | op op =>
          obtain ⟨next, hstep, hadvances⟩ := exists_advance hsound op
          rw [StepRun.run_cons_of_eq hstep]
          cases hends : op.ends timeout.handle timeout.type with
          | true =>
              simp only [StartedTimeout.calls, hends, ↓reduceIte]
              exact run_over hadvances.sound
                ((hadvances.alive timeout halive).1 hends) steps
          | false =>
              simp only [StartedTimeout.calls, hends]
              exact ih hadvances.sound
                ((hadvances.alive timeout halive).2 hends)
      | schedule now delay interval repeating =>
          have hserved := schedule_served hsound now delay interval repeating
          exact ih (sound_of_served hserved hsound)
            ((alive_of_served hserved hsound halive).2 rfl)
      | processTimers now =>
          obtain ⟨next, hstep, hpasses⟩ := exists_pass hsound now
          rw [StepRun.run_cons_of_eq hstep]
          by_cases hexpired : timeout.expiry ≤ now
          · simp only [StartedTimeout.calls, hexpired, ↓reduceIte]
            exact run_over hpasses.sound
              (hpasses.expired timeout halive hexpired hcallback) steps
          · simp only [StartedTimeout.calls, hexpired, ↓reduceIte]
            exact ih hpasses.sound
              (hpasses.later timeout halive (not_le.mp hexpired))

/-- The rows of the active entries, and the pending timers of the manager. -/
def activeRows (s : ManagedLoop α) : Set (UInt64 × TimeoutEntry α) :=
  {row | row ∈ s.manager.entries.rows ∧ row.2.active = true}

def pendingTimers (s : ManagedLoop α) : Set ℕ :=
  {id | ∃ timer ∈ s.loop.timers.elems, timer.id = id ∧
    timer.cancelled = false ∧ ∃ lambda, timer.callback = .timeout lambda}

theorem bijOn_timer (hin : s.InStep) :
    Set.BijOn (fun row => row.2.timer) s.activeRows s.pendingTimers := by
  refine ⟨?_, ?_, ?_⟩
  · rintro row ⟨hrow, hactive⟩
    have hfind := KeyedTable.find?_eq_some_iff.mpr hrow
    obtain ⟨timer, hmem, hid, htrue, _, hcallback⟩ :=
      hin.pending row.1 row.2 hfind hactive
    exact ⟨timer, hmem, hid, htrue, _, hcallback⟩
  · rintro row ⟨hrow, hactive⟩ other ⟨hother, hactive'⟩ htimer
    have hfind := KeyedTable.find?_eq_some_iff.mpr hrow
    have hfind' := KeyedTable.find?_eq_some_iff.mpr hother
    have hkey := hin.key_eq_of_timer hfind hactive hfind' hactive' htimer
    rw [hkey, hfind', Option.some.injEq] at hfind
    exact Prod.ext hkey hfind.symm
  · rintro id ⟨timer, hmem, rfl, htrue, lambda, hcallback⟩
    obtain ⟨entry, hfind, hactive, hid⟩ :=
      hin.tracked timer hmem htrue lambda hcallback
    exact ⟨_, ⟨KeyedTable.find?_eq_some_iff.mp hfind, hactive⟩, hid⟩

/-- Timeouts and timers correspond after every sequence of steps, and a timeout
which is started then makes the calls of its life. -/
theorem timeouts_follow_timers (growth : ℕ → ℕ)
    (before : List (ManagedStep α)) :
    ∃ s, StepRun.run step ⟨{}, create growth⟩ before = some s ∧
      Set.BijOn (fun row => row.2.timer) s.activeRows s.pendingTimers ∧
      (∀ row ∈ s.activeRows, Pending s.loop row.2) ∧
      ∀ op timeout, op.started s.loop.nextTimerId = some timeout →
        timeout.callback ≠ .empty →
        ∀ after, ∃ final,
          StepRun.run step s (.op op :: after) = some final ∧
          invocationsOf timeout.timer final.manager =
            timeout.calls after := by
  obtain ⟨s, hrun, hsound⟩ := exists_run (sound_create growth) before
  refine ⟨s, hrun, bijOn_timer hsound.in_step, ?_, ?_⟩
  · rintro row ⟨hrow, hactive⟩
    exact hsound.in_step.pending row.1 row.2
      (KeyedTable.find?_eq_some_iff.mpr hrow) hactive
  · intro op timeout hstarted hcallback after
    obtain ⟨next, hstep, hadvances⟩ := exists_advance hsound op
    rw [StepRun.run_cons_of_eq hstep]
    exact run_alive hadvances.sound (hadvances.started timeout hstarted)
      hcallback after

end ManagedLoop

end VynxHttp
