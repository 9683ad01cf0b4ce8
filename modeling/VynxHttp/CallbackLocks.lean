import VynxHttp.Mutex
import VynxHttp.TimeoutLife

/-!
# Callbacks which use the manager

Every call of the manager holds its mutex while it works, and so does the
lambda of a timer, also while it calls the callback of the timeout.  A callback
which calls the manager itself locks the mutex a second time.
-/

namespace VynxHttp

open LoopTimers

/-- What a callback does with the manager: calls, and what it does on their
results. -/
inductive TimeoutProgram (α : Type*) where
  | done
  | op (op : TimeoutOp α) (next : Result Unit → TimeoutProgram α)
  | isActive (handle : NativeHandle) (type : TimeoutType)
      (next : Bool → TimeoutProgram α)

abbrev TimeoutPrograms (α : Type*) :=
  α → NativeHandle → TimeoutType → TimeoutProgram α

variable {α : Type*}

def TimeoutLambda.program (programs : TimeoutPrograms α)
    (lambda : TimeoutLambda α) : TimeoutProgram α :=
  match lambda.callback with
  | .empty | .noop => .done
  | .call callback => programs callback lambda.handle lambda.type

abbrev LockedManager (α : Type*) := Guarded (ManagedLoop α)

namespace LockedManager

/-! ## Calls -/

/-- The work of an operation once it has the lock, and its result. -/
def work (op : TimeoutOp α) (s : ManagedLoop α) : ManagedLoop α :=
  let applied := s.manager.apply (some s.loop) op
  ⟨applied.1, applied.2.1.getD s.loop⟩

def resultOf (op : TimeoutOp α) (s : ManagedLoop α) : Result Unit :=
  (s.manager.apply (some s.loop) op).2.2

/-- `reset_idle` leaves the locking to the two operations which it calls. -/
def perform (op : TimeoutOp α) (s : LockedManager α) : LockedManager α :=
  match op with
  | .resetIdle now handle duration =>
      let cancelled := s.update (work (.cancel handle .idle))
      let start := cancelled.update
        (work (.start now handle .idle duration .noop))
      match resultOf (.cancel handle .idle) s.value with
      | .ok () => start
      | .error code => if code = .invalidArgument then start else cancelled
  | op => s.update (work op)

/-- A callback goes on as long as its calls return. -/
def runProgram : TimeoutProgram α → LockedManager α → LockedManager α
  | .done, s => s
  | .op op next, s =>
      let after := perform op s
      if after.mutex = .relocked then after
      else runProgram (next (resultOf op s.value)) after
  | .isActive handle type next, s =>
      let after := s.update id
      if after.mutex = .relocked then after
      else runProgram (next (s.value.manager.isActive handle type)) after

def mapManager (f : TimeoutManager α → TimeoutManager α)
    (s : LockedManager α) : LockedManager α :=
  ⟨s.mutex, f s.value.manager, s.value.loop⟩

/-- The lambda which `start_timeout` schedules. -/
def runLambda (programs : TimeoutPrograms α) (now : ℤ)
    (lambda : TimeoutLambda α) (timer : ℕ) :
    LockedManager α → LockedManager α :=
  Guarded.lockGuard fun s =>
    let key := makeKey lambda.handle lambda.type
    match s.value.manager.entries.find? key with
    | none => mapManager TimeoutManager.countActive s
    | some entry =>
        if entry.active then
          let called := runProgram (lambda.program programs)
            (mapManager (fun manager =>
              { manager with
                entries := manager.entries.set key
                  { entry with active := false }
                stats := { manager.stats with
                  timeoutsFired := manager.stats.timeoutsFired + 1 } }.invoke
                    now timer lambda) s)
          if called.mutex = .relocked then called
          else mapManager TimeoutManager.countActive called
        else mapManager TimeoutManager.countActive s

def fire (programs : TimeoutPrograms α) (now : ℤ)
    (callback : LoopCallback α) (timer : ℕ) (s : LockedManager α) :
    LockedManager α :=
  match callback with
  | .timeout lambda => runLambda programs now lambda timer s
  | .other => s

def calling (programs : TimeoutPrograms α) (now : ℤ)
    (callback : LoopCallback α) (timer : ℕ)
    (t : TimeoutLoop α × Mutex × TimeoutManager α) :
    TimeoutLoop α × Mutex × TimeoutManager α :=
  let called := fire programs now callback timer ⟨t.2.1, t.2.2, t.1⟩
  (called.value.loop, called.mutex, called.value.manager)

/-- A step of a thread which can go on. -/
def proceed (programs : TimeoutPrograms α) (s : LockedManager α) :
    ManagedStep α → Option (LockedManager α)
  | .op op => some (perform op s)
  | .schedule now delay interval repeating =>
      some ⟨s.mutex, s.value.manager, (s.value.loop.addTimer
        ⟨now, delay, interval, .other, repeating⟩).1⟩
  | .processTimers now =>
      (processTimers (calling programs now) now
        (s.value.loop, s.mutex, s.value.manager)).map fun t =>
          ⟨t.2.1, t.2.2, t.1⟩

/-- There is no step after one in which the mutex has been locked twice. -/
def step (programs : TimeoutPrograms α) (s : LockedManager α)
    (event : ManagedStep α) : Option (LockedManager α) :=
  if s.mutex = .free then proceed programs s event else none

/-! ## Calls under the lock -/

variable {s : LockedManager α} {programs : TimeoutPrograms α}

section

variable (manager : TimeoutManager α) (loop : TimeoutLoop α)
  (handle : NativeHandle) (type : TimeoutType)

theorem exists_cancelLoopTimer (timer : ℕ) :
    ∃ loop', TimeoutManager.cancelLoopTimer (some loop) timer =
      some loop' := by
  unfold TimeoutManager.cancelLoopTimer
  split
  next => exact ⟨loop, rfl⟩
  next => exact ⟨_, rfl⟩

theorem exists_loop_cancelTimeout :
    ∃ loop', (manager.cancelTimeout (some loop) handle type).2.1 =
      some loop' := by
  unfold TimeoutManager.cancelTimeout
  dsimp only
  split
  next => exact ⟨loop, rfl⟩
  next entry _ =>
    split
    next => exact exists_cancelLoopTimer loop entry.timer
    next => exact ⟨loop, rfl⟩

theorem exists_loop_startTimeout (now duration : ℤ)
    (callback : TimeoutCallback α) :
    ∃ loop', (manager.startTimeout (some loop) now handle type duration
      callback).2.1 = some loop' := by
  have hsupersede : ∃ loop', (manager.supersede (some loop)
      (makeKey handle type)).2 = some loop' := by
    unfold TimeoutManager.supersede
    split
    next => exact ⟨loop, rfl⟩
    next entry _ =>
      split
      next => exact exists_cancelLoopTimer loop entry.timer
      next => exact ⟨loop, rfl⟩
  rcases hsupersede with ⟨loop', hloop⟩
  unfold TimeoutManager.startTimeout
  dsimp only
  rw [hloop]
  exact ⟨_, rfl⟩

end

/-- The two calls of `reset_idle` come to its work. -/
theorem work_resetIdle (now : ℤ) (handle : NativeHandle) (duration : ℤ)
    (s : ManagedLoop α) :
    work (.resetIdle now handle duration) s =
      work (.start now handle .idle duration .noop)
        (work (.cancel handle .idle) s) := by
  rcases exists_loop_cancelTimeout s.manager s.loop handle .idle with
    ⟨loop', hloop⟩
  rcases exists_loop_startTimeout
    (s.manager.cancelTimeout (some s.loop) handle .idle).1 loop' handle .idle
    now duration .noop with ⟨loop'', hloop'⟩
  unfold work TimeoutManager.apply
  dsimp only
  rw [ManagedLoop.resetIdle_eq, hloop, Option.getD_some, hloop']
  rfl

theorem step_of_free (hfree : s.mutex = .free) (event : ManagedStep α) :
    step programs s event = proceed programs s event :=
  if_pos hfree

theorem perform_of_free (hfree : s.mutex = .free) (op : TimeoutOp α) :
    perform op s = ⟨.free, work op s.value⟩ := by
  cases op with
  | start now handle type duration callback =>
      exact Guarded.update_of_free hfree
  | cancel handle type => exact Guarded.update_of_free hfree
  | cancelAll handle => exact Guarded.update_of_free hfree
  | resetIdle now handle duration =>
      have hcancelled := Guarded.update_of_free
        (f := work (.cancel handle .idle)) hfree
      unfold perform
      dsimp only
      rw [hcancelled, Guarded.update_of_free rfl, work_resetIdle]
      rcases ManagedLoop.result_cancelTimeout s.value.manager
        (some s.value.loop) handle .idle with hok | herror
      · unfold resultOf TimeoutManager.apply
        dsimp only
        rw [hok]
      · unfold resultOf TimeoutManager.apply
        dsimp only
        rw [herror]
        exact if_pos rfl

theorem perform_of_held (hheld : s.mutex = .held) (op : TimeoutOp α) :
    perform op s = ⟨.relocked, s.value⟩ := by
  cases op with
  | start now handle type duration callback =>
      exact Guarded.update_of_held hheld
  | cancel handle type => exact Guarded.update_of_held hheld
  | cancelAll handle => exact Guarded.update_of_held hheld
  | resetIdle now handle duration =>
      have hcancelled := Guarded.update_of_held
        (f := work (.cancel handle .idle)) hheld
      unfold perform
      dsimp only
      rw [hcancelled]
      split
      next => rfl
      next =>
        split
        next => rfl
        next => rfl

/-- A callback which makes a call locks the mutex of the lambda again, and
nothing comes of the call. -/
theorem runProgram_of_held (hheld : s.mutex = .held)
    {program : TimeoutProgram α} (hcalls : program ≠ .done) :
    runProgram program s = ⟨.relocked, s.value⟩ := by
  cases program with
  | done => exact absurd rfl hcalls
  | op op next =>
      unfold runProgram
      rw [perform_of_held hheld]
      exact if_pos rfl
  | isActive handle type next =>
      unfold runProgram
      rw [Guarded.update_of_held hheld]
      exact if_pos rfl

theorem fire_of_done {timer : ℕ} (now : ℤ) {callback : LoopCallback α}
    (hdone : ∀ lambda, callback = .timeout lambda →
      lambda.program programs = .done)
    (manager : TimeoutManager α) (loop : TimeoutLoop α) :
    fire programs now callback timer ⟨.free, manager, loop⟩ =
      ⟨.free, manager.fire now callback timer, loop⟩ := by
  cases callback with
  | other => rfl
  | timeout lambda =>
      unfold fire runLambda TimeoutManager.fire TimeoutManager.runLambda
      dsimp only
      rw [Guarded.lockGuard_of_free rfl, hdone lambda rfl]
      dsimp only
      cases manager.entries.find? (makeKey lambda.handle lambda.type) with
      | none => rfl
      | some entry =>
          cases hactive : entry.active with
          | false => simp [hactive, mapManager, Guarded.unlock]
          | true => simp [hactive, mapManager, Guarded.unlock, runProgram]

/-- With an active entry the callback is called under the lock. -/
theorem fire_of_calls (timer : ℕ) (now : ℤ) {lambda : TimeoutLambda α}
    (hcalls : lambda.program programs ≠ .done)
    {manager : TimeoutManager α} {entry : TimeoutEntry α}
    (hfind : manager.entries.find? (makeKey lambda.handle lambda.type) =
      some entry)
    (hactive : entry.active = true) (loop : TimeoutLoop α) :
    ∃ manager', fire programs now (.timeout lambda) timer
      ⟨.free, manager, loop⟩ = ⟨.relocked, manager', loop⟩ := by
  unfold fire runLambda
  dsimp only
  rw [Guarded.lockGuard_of_free rfl]
  dsimp only
  rw [hfind]
  dsimp only
  rw [if_pos hactive, runProgram_of_held rfl hcalls]
  exact ⟨_, rfl⟩

theorem fire_of_relocked {timer : ℕ} (now : ℤ) (callback : LoopCallback α)
    (manager : TimeoutManager α) (loop : TimeoutLoop α) :
    fire programs now callback timer ⟨.relocked, manager, loop⟩ =
      ⟨.relocked, manager, loop⟩ := by
  cases callback with
  | other => rfl
  | timeout lambda =>
      unfold fire runLambda
      exact Guarded.lockGuard_of_relocked rfl

/-! ## Passes -/

/-- The timer calls a callback which uses the manager. -/
def CallsManager (programs : TimeoutPrograms α) (now : ℤ)
    (timer : TimerEntry (LoopCallback α)) : Prop :=
  isDue now timer = true ∧
    ∃ lambda, timer.callback = .timeout lambda ∧
      lambda.program programs ≠ .done

/-- What holds before the turn at an index, in a pass which starts from
`base`: either a callback has locked the mutex again, or none of those before
the index has used the manager. -/
structure LockedPassing (programs : TimeoutPrograms α) (now : ℤ)
    (base : ManagedLoop α) (index : ℕ)
    (t : TimeoutLoop α × Mutex × TimeoutManager α) : Prop where
  storage : t.1.timers.storage = base.loop.timers.storage
  size : t.1.timers.size = base.loop.timers.size
  state :
    (t.2.1 = .relocked ∧
        ∃ timer ∈ base.loop.timers.elems, CallsManager programs now timer) ∨
      (t.2.1 = .free ∧ (⟨t.2.2, t.1⟩ : ManagedLoop α).Sound ∧
        t.1.timers.elems.drop index = base.loop.timers.elems.drop index ∧
        ∀ timer ∈ base.loop.timers.elems.take index,
          ¬CallsManager programs now timer)

variable {now : ℤ} {base : ManagedLoop α} {index : ℕ}
  {t : TimeoutLoop α × Mutex × TimeoutManager α}
  {timer : TimerEntry (LoopCallback α)}

theorem LockedPassing.start (hsound : base.Sound) :
    LockedPassing programs now base 0
      (base.loop.record (.pass now), .free, base.manager) := by
  have hin := hsound.in_step
  have hrecorded : (⟨base.manager, base.loop.record (.pass now)⟩ :
      ManagedLoop α).Sound :=
    ⟨⟨hin.ordered.record _, hin.keyed, hin.pending, hin.tracked⟩,
      hsound.known⟩
  exact ⟨rfl, rfl, .inr ⟨rfl, hrecorded, rfl, by simp⟩⟩

theorem drop_succ_of_drop {γ : Type*} {xs ys : List γ}
    (hdrop : xs.drop index = ys.drop index) :
    xs.drop (index + 1) = ys.drop (index + 1) := by
  rw [← List.drop_drop, ← List.drop_drop, hdrop]

/-- A turn ends with the mutex as the callback has left it. -/
theorem turn_of_called {called : TimeoutLoop α × Mutex × TimeoutManager α}
    (hindex : t.1.timers.elems[index]? = some timer)
    (hdue : isDue now timer = true)
    (hcalled : calling programs now timer.callback timer.id
      (t.1.record (.fired timer.id now), t.2) = called)
    (hloop : called.1 = t.1.record (.fired timer.id now)) :
    timerTurn (calling programs now) now t ⟨t.1.timers.storage, index⟩ =
      some ((t.1.record (.fired timer.id now)).settleAt now index timer,
        called.2) := by
  rw [← hloop]
  refine timerTurn_of_due hindex hdue hcalled ?_ ?_
  · rw [hloop]
    rfl
  · rw [hloop]
    exact hindex

theorem calls_take_succ {timers : List (TimerEntry (LoopCallback α))}
    (hbase : timers[index]? = some timer)
    (hbefore : ∀ other ∈ timers.take index, ¬CallsManager programs now other)
    (htimer : ¬CallsManager programs now timer) :
    ∀ other ∈ timers.take (index + 1),
      ¬CallsManager programs now other := by
  intro other hother
  rw [List.take_add_one, hbase, List.mem_append] at hother
  rcases hother with hold | hnew
  · exact hbefore other hold
  · rw [Option.toList_some, List.mem_singleton] at hnew
    rw [hnew]
    exact htimer

theorem getElem?_of_drop {γ : Type*} {xs ys : List γ}
    (hdrop : xs.drop index = ys.drop index) : xs[index]? = ys[index]? := by
  rw [← List.head?_drop, ← List.head?_drop, hdrop]

theorem LockedPassing.idle
    (hpassing : LockedPassing programs now base index t)
    (hindex : t.1.timers.elems[index]? = some timer)
    (hidle : isDue now timer = false) :
    LockedPassing programs now base (index + 1) t := by
  refine ⟨hpassing.storage, hpassing.size, ?_⟩
  rcases hpassing.state with hrelocked | ⟨hfree, hsound, hdrop, hbefore⟩
  · exact .inl hrelocked
  · refine .inr ⟨hfree, hsound, drop_succ_of_drop hdrop, ?_⟩
    rw [getElem?_of_drop hdrop] at hindex
    refine calls_take_succ hindex hbefore fun hcalls => ?_
    rw [hcalls.1] at hidle
    cases hidle

/-- A due timer has its callback called, unless the mutex has been locked
twice. -/
theorem LockedPassing.due
    (hpassing : LockedPassing programs now base index t)
    (hindex : t.1.timers.elems[index]? = some timer)
    (hdue : isDue now timer = true) :
    ∃ state, calling programs now timer.callback timer.id
        (t.1.record (.fired timer.id now), t.2) =
          (t.1.record (.fired timer.id now), state) ∧
      LockedPassing programs now base (index + 1)
        ((t.1.record (.fired timer.id now)).settleAt now index timer,
          state) := by
  rcases t with ⟨loop, mutex, manager⟩
  have hsize : ((loop.record (.fired timer.id now)).settleAt now index
      timer).timers.size = base.loop.timers.size :=
    (StdVector.size_modify _ _ _).trans hpassing.size
  rcases hpassing.state with ⟨hrelocked, hcalls⟩ |
    ⟨hfree, hsound, hdrop, hbefore⟩
  · cases hrelocked
    refine ⟨(.relocked, manager), ?_, hpassing.storage, hsize,
      .inl ⟨rfl, hcalls⟩⟩
    unfold calling
    rw [fire_of_relocked]
  · cases hfree
    have hbase := hindex
    rw [getElem?_of_drop hdrop] at hbase
    by_cases hcalls : CallsManager programs now timer
    · rcases hcalls with ⟨_, lambda, hlambda, hprogram⟩
      rcases hsound.in_step.entry_of_due (List.mem_of_getElem? hindex)
        (isDue_iff.mp hdue).1 hlambda with ⟨entry, hfind, hactive, _⟩
      rcases fire_of_calls timer.id now hprogram hfind hactive
        (loop.record (.fired timer.id now)) with ⟨manager', hfire⟩
      refine ⟨(.relocked, manager'), ?_, hpassing.storage, hsize,
        .inl ⟨rfl, timer, List.mem_of_getElem? hbase, hdue, lambda, hlambda,
          hprogram⟩⟩
      unfold calling
      rw [hlambda, hfire]
    · have hdone : ∀ lambda, timer.callback = .timeout lambda →
          lambda.program programs = .done := by
        intro lambda hlambda
        by_contra hprogram
        exact hcalls ⟨hdue, lambda, hlambda, hprogram⟩
      refine ⟨(.free, manager.fire now timer.callback timer.id), ?_,
        hpassing.storage, hsize, .inr ⟨rfl, ?_, ?_, ?_⟩⟩
      · unfold calling
        rw [fire_of_done now hdone]
      · exact hsound.fireTurn hindex hdue
      · have hrest : ((loop.record (.fired timer.id now)).settleAt now index
            timer).timers.elems.drop (index + 1) =
              loop.timers.elems.drop (index + 1) :=
          List.drop_modify_of_lt _ _ _ _ (Nat.lt_succ_self _)
        rw [hrest]
        exact drop_succ_of_drop hdrop
      · exact calls_take_succ hbase hbefore hcalls

theorem LockedPassing.turn
    (hpassing : LockedPassing programs now base index t)
    (hlt : index < base.loop.timers.size) :
    ∃ t', timerTurn (calling programs now) now t
        ⟨base.loop.timers.storage, index⟩ = some t' ∧
      LockedPassing programs now base (index + 1) t' := by
  have hlength : index < t.1.timers.elems.length := by
    have hsize := hpassing.size
    simp only [StdVector.size] at hsize hlt
    omega
  have hindex := List.getElem?_eq_getElem hlength
  rw [← hpassing.storage]
  cases hdue : isDue now t.1.timers.elems[index] with
  | false =>
      exact ⟨t, timerTurn_of_idle hindex hdue, hpassing.idle hindex hdue⟩
  | true =>
      rcases hpassing.due hindex hdue with ⟨state, hcalled, hnext⟩
      exact ⟨_, turn_of_called hindex hdue hcalled rfl, hnext⟩

/-- A pass from a sound state locks the mutex twice exactly when it calls a
callback which uses the manager. -/
theorem exists_pass (programs : TimeoutPrograms α) (hsound : base.Sound)
    (now : ℤ) :
    ∃ next, step programs ⟨.free, base⟩ (.processTimers now) = some next ∧
      ((next.mutex = .relocked ∧
          ∃ timer ∈ base.loop.timers.elems, CallsManager programs now timer) ∨
        (next.mutex = .free ∧ next.value.Sound ∧
          ∀ timer ∈ base.loop.timers.elems,
            ¬CallsManager programs now timer)) := by
  have hmeets : ∃ last world,
      processTimers (calling programs now) now
        (base.loop, .free, base.manager) =
          some (last.removeCancelled, world) ∧
        LockedPassing programs now base base.loop.timers.size
          (last, world) :=
    processTimers_meets (LockedPassing programs now base)
      (LockedPassing.start hsound)
      (fun _ _ hlt hpassing => hpassing.turn hlt)
  rcases hmeets with ⟨last, world, hpass, hlast⟩
  refine ⟨⟨world.1, world.2, last.removeCancelled⟩, ?_, ?_⟩
  · rw [step_of_free rfl]
    exact Option.map_eq_some_iff.mpr ⟨_, hpass, rfl⟩
  · rcases hlast.state with hrelocked | ⟨hfree, hafter, _, hall⟩
    · exact .inl hrelocked
    · refine .inr ⟨hfree, hafter.removeCancelled, ?_⟩
      rw [StdVector.size, List.take_length] at hall
      exact hall

/-! ## Runs -/

/-- The thread does not lock the mutex while it holds it. -/
def NeverRelocks (programs : TimeoutPrograms α) (s : LockedManager α)
    (event : ManagedStep α) : Prop :=
  ∀ next, step programs s event = some next → next.mutex ≠ .relocked

/-- A pass calls no callback which uses the manager. -/
def Quiet (programs : TimeoutPrograms α) (s : LockedManager α)
    (event : ManagedStep α) : Prop :=
  ∀ now, event = .processTimers now →
    ∀ timer ∈ s.value.loop.timers.elems, ¬CallsManager programs now timer

structure Unlocked (s : LockedManager α) : Prop where
  mutex_eq : s.mutex = .free
  sound : s.value.Sound

theorem sound_work {base : ManagedLoop α} (hsound : base.Sound)
    (op : TimeoutOp α) : (work op base).Sound := by
  rcases ManagedLoop.exists_advance hsound op with
    ⟨next, hstep, hadvances⟩
  rcases Option.map_eq_some_iff.mp hstep with ⟨loop, hloop, rfl⟩
  unfold work
  dsimp only
  rw [hloop]
  exact hadvances.sound

/-- What a step comes to: outside of passes the mutex is free again. -/
theorem Unlocked.step_cases (programs : TimeoutPrograms α)
    (hunlocked : s.Unlocked) (event : ManagedStep α) :
    ∃ next, step programs s event = some next ∧
      ((next.mutex = .relocked ∧ ¬Quiet programs s event) ∨
        (next.Unlocked ∧ Quiet programs s event)) := by
  rcases s with ⟨mutex, base⟩
  rcases hunlocked with ⟨hfree, hsound⟩
  cases hfree
  cases event with
  | op op =>
      refine ⟨perform op ⟨.free, base⟩, step_of_free rfl _, .inr ⟨?_, ?_⟩⟩
      · rw [perform_of_free rfl]
        exact ⟨rfl, sound_work hsound op⟩
      · intro now hnow
        cases hnow
  | schedule now delay interval repeating =>
      refine ⟨_, step_of_free rfl _, .inr ⟨⟨rfl, ?_⟩, ?_⟩⟩
      · exact ManagedLoop.sound_of_served (ManagedLoop.schedule_served hsound
          now delay interval repeating) hsound
      · intro other hother
        cases hother
  | processTimers now =>
      rcases exists_pass programs hsound now with
        ⟨next, hstep, hnext⟩
      refine ⟨next, hstep, ?_⟩
      rcases hnext with ⟨hrelocked, timer, hmem, hcalls⟩ |
        ⟨hfree, hafter, hquiet⟩
      · exact .inl ⟨hrelocked, fun hquiet =>
          hquiet now rfl timer hmem hcalls⟩
      · refine .inr ⟨⟨hfree, hafter⟩, ?_⟩
        intro other hother
        cases hother
        exact hquiet

theorem Unlocked.never_iff_quiet (hunlocked : s.Unlocked)
    (event : ManagedStep α) :
    NeverRelocks programs s event ↔ Quiet programs s event := by
  rcases hunlocked.step_cases programs event with
    ⟨next, hstep, ⟨hrelocked, hloud⟩ | ⟨hnext, hquiet⟩⟩
  · exact iff_of_false (fun hnever => hnever next hstep hrelocked) hloud
  · refine iff_of_true ?_ hquiet
    intro other hother
    rw [hstep, Option.some.injEq] at hother
    rw [← hother, hnext.mutex_eq]
    simp

def created (growth : ℕ → ℕ) : LockedManager α :=
  ⟨.free, {}, create growth⟩

/-- A run locks the mutex twice exactly when one of its passes calls a
callback which uses the manager. -/
theorem neverRelocks_iff (programs : TimeoutPrograms α) (growth : ℕ → ℕ)
    (steps : List (ManagedStep α)) :
    StepRun.Along (step programs) (NeverRelocks programs) (created growth)
        steps ↔
      StepRun.Along (step programs) (Quiet programs) (created growth)
        steps := by
  refine StepRun.along_congr Unlocked
    (fun _ event hunlocked => hunlocked.never_iff_quiet event) ?_
    ⟨rfl, ManagedLoop.sound_create growth⟩ steps
  intro s event next hunlocked hnever hstep
  rcases hunlocked.step_cases programs event with
    ⟨other, hother, ⟨hrelocked, _⟩ | ⟨hnext, _⟩⟩
  · exact absurd hrelocked (hnever other hother)
  · rw [hother, Option.some.injEq] at hstep
    exact hstep ▸ hnext

/-- A callback which starts its timeout again. -/
def rearming : TimeoutPrograms Unit :=
  fun _ handle type =>
    .op (.start 1000000 handle type 1 (.call ())) fun _ => .done

theorem not_neverRelocks_rearming :
    ¬StepRun.Along (step rearming) (NeverRelocks rearming)
      (created fun size => 2 * size)
      [.op (.start 0 7 .read 1 (.call ())), .processTimers 1000000] := by
  intro halong
  exact (halong.2 _ rfl).1 _ rfl rfl

end LockedManager

end VynxHttp
