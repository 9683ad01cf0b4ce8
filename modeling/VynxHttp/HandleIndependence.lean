import VynxHttp.TimeoutAccounting
import VynxHttp.TimeoutLife

/-!
# Timeouts of different handles and types

A key belongs to one pair of a handle and a type, and an entry is stored at the
key of its own pair.  So an operation leaves every timeout which it is not
about as active as it was, also `cancel_all`, which looks at the handles of the
entries and not at their keys.
-/

namespace VynxHttp

variable {α : Type*}

namespace TimeoutManager

variable {manager manager' : TimeoutManager α}
  {loop : Option (TimeoutLoop α)}

/-! ## Entries at their keys -/

def Keyed (manager : TimeoutManager α) : Prop :=
  ∀ key entry, manager.entries.find? key = some entry →
    key = makeKey entry.handle entry.type

/-- An entry is put at the key of its handle and type, and the other entries
stay. -/
structure Puts (handle : NativeHandle) (type : TimeoutType)
    (manager manager' : TimeoutManager α) : Prop where
  keyed : manager.Keyed → manager'.Keyed
  other : ∀ key, key ≠ makeKey handle type →
    manager'.entries.find? key = manager.entries.find? key

theorem puts_of_same (handle : NativeHandle) (type : TimeoutType)
    (hsame : manager'.entries = manager.entries) :
    Puts handle type manager manager' where
  keyed := by
    intro hkeyed key entry hfind
    rw [hsame] at hfind
    exact hkeyed key entry hfind
  other := fun key _ => by rw [hsame]

theorem Puts.trans {manager'' : TimeoutManager α} {handle : NativeHandle}
    {type : TimeoutType} (hfirst : Puts handle type manager manager')
    (hsecond : Puts handle type manager' manager'') :
    Puts handle type manager manager'' where
  keyed := fun hkeyed => hsecond.keyed (hfirst.keyed hkeyed)
  other := fun key hkey =>
    (hsecond.other key hkey).trans (hfirst.other key hkey)

theorem puts_of_set {handle : NativeHandle} {type : TimeoutType}
    (entry : TimeoutEntry α)
    (hentry : manager.Keyed →
      makeKey handle type = makeKey entry.handle entry.type)
    (hset : manager'.entries =
      manager.entries.set (makeKey handle type) entry) :
    Puts handle type manager manager' where
  keyed := by
    intro hkeyed key other hfind
    rw [hset] at hfind
    rcases KeyedTable.find?_set_eq_some_iff.mp hfind with
      ⟨rfl, rfl⟩ | ⟨_, hold⟩
    · exact hentry hkeyed
    · exact hkeyed key other hold
  other := fun key hkey => by
    rw [hset, KeyedTable.find?_set_of_ne hkey]

theorem Puts.isActive_eq {handle handle' : NativeHandle}
    {type type' : TimeoutType} (hputs : Puts handle type manager manager')
    (honly : only handle type handle' type' = false) :
    manager'.isActive handle' type' = manager.isActive handle' type' := by
  have hkey : makeKey handle' type' ≠ makeKey handle type := by
    intro hsame
    rw [only_iff.mpr hsame] at honly
    cases honly
  unfold isActive
  rw [hputs.other _ hkey]

/-! ## What the operations put -/

theorem entries_startTimeout (now : ℤ) (handle : NativeHandle)
    (type : TimeoutType) (duration : ℤ) (callback : TimeoutCallback α) :
    (manager.startTimeout loop now handle type duration
        callback).1.entries =
      manager.entries.set (makeKey handle type)
        ⟨(scheduleLoopTimer (manager.supersede loop
          (makeKey handle type)).2 now duration
            ⟨handle, type, callback⟩).2, handle, type, callback, true⟩ := by
  have hentries := (supersede_spec manager loop (makeKey handle type)).1
  unfold startTimeout countActive
  dsimp only
  rw [hentries]

theorem startTimeout_puts (now : ℤ) (handle : NativeHandle)
    (type : TimeoutType) (duration : ℤ) (callback : TimeoutCallback α) :
    Puts handle type manager
      (manager.startTimeout loop now handle type duration callback).1 :=
  puts_of_set ⟨_, handle, type, callback, true⟩ (fun _ => rfl)
    (entries_startTimeout now handle type duration callback)

theorem cancelTimeout_puts (handle : NativeHandle) (type : TimeoutType) :
    Puts handle type manager
      (manager.cancelTimeout loop handle type).1 := by
  unfold cancelTimeout
  dsimp only
  split
  next => exact puts_of_same handle type rfl
  next entry hfind =>
    split
    next =>
      have hentry : manager.Keyed →
          makeKey handle type = makeKey entry.handle entry.type :=
        fun hkeyed => hkeyed _ entry hfind
      exact puts_of_set { entry with active := false } hentry rfl
    next => exact puts_of_same handle type rfl

theorem resetIdle_puts (now : ℤ) (handle : NativeHandle) (duration : ℤ) :
    Puts handle .idle manager
      (manager.resetIdle loop now handle duration).1 := by
  rw [ManagedLoop.resetIdle_eq]
  exact (cancelTimeout_puts handle .idle).trans
    (startTimeout_puts now handle .idle duration .noop)

theorem fire_puts (now : ℤ) (lambda : TimeoutLambda α) (timer : ℕ) :
    Puts lambda.handle lambda.type manager
      (manager.fire now (.timeout lambda) timer) := by
  unfold fire runLambda
  dsimp only
  split
  next => exact puts_of_same _ _ rfl
  next entry hfind =>
    split
    next =>
      have hentry : manager.Keyed →
          makeKey lambda.handle lambda.type =
            makeKey entry.handle entry.type :=
        fun hkeyed => hkeyed _ entry hfind
      refine puts_of_set { entry with active := false } hentry ?_
      exact entries_invoke _ _ _ _
    next => exact puts_of_same _ _ rfl

theorem find?_cancelAll (handle : NativeHandle) (key : UInt64) :
    (manager.cancelAll loop handle).1.entries.find? key =
      (manager.entries.find? key).map (deactivate handle) :=
  KeyedTable.find?_mapValues _

theorem deactivate_handle (handle : NativeHandle) (entry : TimeoutEntry α) :
    (deactivate handle entry).handle = entry.handle := by
  unfold deactivate
  split <;> rfl

theorem deactivate_type (handle : NativeHandle) (entry : TimeoutEntry α) :
    (deactivate handle entry).type = entry.type := by
  unfold deactivate
  split <;> rfl

theorem cancelAll_keyed (hkeyed : manager.Keyed) (handle : NativeHandle) :
    (manager.cancelAll loop handle).1.Keyed := by
  intro key entry hfind
  rw [find?_cancelAll, Option.map_eq_some_iff] at hfind
  rcases hfind with ⟨before, hbefore, rfl⟩
  rw [deactivate_handle, deactivate_type]
  exact hkeyed key before hbefore

/-- An entry at the key of a handle is an entry of the handle, so `cancel_all`
finds it there and nowhere else. -/
theorem isActive_cancelAll (hkeyed : manager.Keyed)
    (handle handle' : NativeHandle) (type : TimeoutType) :
    (manager.cancelAll loop handle).1.isActive handle' type =
      (manager.isActive handle' type && !(handle' == handle)) := by
  unfold isActive
  rw [find?_cancelAll]
  cases hfind : manager.entries.find? (makeKey handle' type) with
  | none => rfl
  | some entry =>
      have hhandle : handle' = entry.handle :=
        (makeKey_injective (hkeyed _ entry hfind)).1
      subst hhandle
      unfold deactivate cancels
      cases hactive : entry.active with
      | false => simp [hactive]
      | true =>
          by_cases hsame : entry.handle = handle
          · simp [hsame, hactive]
          · simp [hsame, hactive]

/-! ## Runs -/

theorem apply_keyed (hkeyed : manager.Keyed) (op : TimeoutOp α) :
    (manager.apply loop op).1.Keyed := by
  cases op with
  | start now handle type duration callback =>
      exact (startTimeout_puts now handle type duration callback).keyed hkeyed
  | cancel handle type => exact (cancelTimeout_puts handle type).keyed hkeyed
  | cancelAll handle => exact cancelAll_keyed hkeyed handle
  | resetIdle now handle duration =>
      exact (resetIdle_puts now handle duration).keyed hkeyed

theorem fire_keyed (hkeyed : manager.Keyed) (now : ℤ)
    (callback : LoopCallback α) (timer : ℕ) :
    (manager.fire now callback timer).Keyed := by
  cases callback with
  | timeout lambda => exact (fire_puts now lambda timer).keyed hkeyed
  | other => exact hkeyed

/-- The timeouts which an operation does not end are as active as before. -/
theorem isActive_apply (hkeyed : manager.Keyed) {op : TimeoutOp α}
    {handle : NativeHandle} {type : TimeoutType}
    (hends : op.ends handle type = false) :
    (manager.apply loop op).1.isActive handle type =
      manager.isActive handle type := by
  cases op with
  | start now other otherType duration callback =>
      exact (startTimeout_puts now other otherType duration
        callback).isActive_eq hends
  | cancel other otherType =>
      exact (cancelTimeout_puts other otherType).isActive_eq hends
  | cancelAll other =>
      have hother : (handle == other) = false := hends
      exact (isActive_cancelAll hkeyed other handle type).trans
        (by rw [hother, Bool.not_false, Bool.and_true])
  | resetIdle now other duration =>
      exact (resetIdle_puts now other duration).isActive_eq hends

end TimeoutManager

namespace TimeoutWorld

variable {world world' : TimeoutWorld α}

theorem step_keyed {event : TimeoutStep α} (hkeyed : world.manager.Keyed)
    (hstep : world.step event = some world') : world'.manager.Keyed := by
  cases event with
  | op op =>
      rw [step, Option.some.injEq] at hstep
      subst hstep
      exact TimeoutManager.apply_keyed hkeyed op
  | setEventLoop loop =>
      rw [step, Option.some.injEq] at hstep
      subst hstep
      exact hkeyed
  | timerOp index op =>
      rw [step, Option.some.injEq] at hstep
      subst hstep
      exact hkeyed
  | processTimers index now acts =>
      rcases Option.map_eq_some_iff.mp hstep with ⟨s, hpass, rfl⟩
      rcases LoopTimers.processTimers_invariant
        (fun _ t => t.2.Keyed) hkeyed
        (fun turn t t' _ hinv hturn => by
          rcases LoopTimers.timerTurn_cases hturn with
            ⟨_, timer, _, ⟨_, rfl⟩ | ⟨_, called, _, hcall, _, _, rfl⟩⟩
          · exact hinv
          · rw [← hcall]
            exact TimeoutManager.fire_keyed hinv now _ _) hpass with
        ⟨_, hafter, _⟩
      exact hafter

theorem keyed_of_run {loops : ℕ → TimeoutLoop α}
    {steps : List (TimeoutStep α)}
    (hrun : StepRun.run step { loops := loops } steps = some world) :
    world.manager.Keyed :=
  StepRun.run_invariant (fun world : TimeoutWorld α => world.manager.Keyed)
    (fun _ => True) (fun _ _ _ hkeyed _ hstep => step_keyed hkeyed hstep)
    (by
      intro key entry hfind
      simp [KeyedTable.find?, KeyedTable.empty] at hfind)
    (by simp) hrun

/-- Two pairs never share a key, an operation changes the activity of no
timeout but those which it cancels or replaces, and `cancel_all` leaves no
timeout of its handle active. -/
theorem timeouts_independent {loops : ℕ → TimeoutLoop α}
    {steps : List (TimeoutStep α)}
    (hrun : StepRun.run step { loops := loops } steps = some world) :
    (∀ handle handle' type type',
      makeKey handle type = makeKey handle' type' →
        handle = handle' ∧ type = type') ∧
      (∀ loop op handle type, op.ends handle type = false →
        (world.manager.apply loop op).1.isActive handle type =
          world.manager.isActive handle type) ∧
      ∀ loop handle type,
        (world.manager.cancelAll loop handle).1.isActive handle type =
          false := by
  have hkeyed := keyed_of_run hrun
  refine ⟨?_, ?_, ?_⟩
  · exact fun _ _ _ _ hkey => makeKey_injective hkey
  · exact fun _ _ _ _ hends => TimeoutManager.isActive_apply hkeyed hends
  · intro loop handle type
    rw [TimeoutManager.isActive_cancelAll hkeyed, beq_self_eq_true,
      Bool.not_true, Bool.and_false]

/-- Timeouts of a negative handle and of another one. -/
def twoHandles : List (TimeoutStep ℕ) :=
  [.setEventLoop (some 0), .op (.start 0 (-1) .read 1 (.call 0)),
    .op (.start 0 7 .read 2 (.call 1))]

theorem timeouts_independent_twoHandles :
    ∃ world, StepRun.run step
        { loops := fun _ => LoopTimers.create fun size => 2 * size }
        twoHandles = some world ∧
      (∀ handle handle' type type',
        makeKey handle type = makeKey handle' type' →
          handle = handle' ∧ type = type') ∧
        (∀ loop op handle type, op.ends handle type = false →
          (world.manager.apply loop op).1.isActive handle type =
            world.manager.isActive handle type) ∧
        ∀ loop handle type,
          (world.manager.cancelAll loop handle).1.isActive handle type =
            false := by
  have hdefined : ∃ world, StepRun.run step
      { loops := fun _ => LoopTimers.create fun size => 2 * size }
      twoHandles = some world := ⟨_, rfl⟩
  rcases hdefined with ⟨world, hrun⟩
  exact ⟨world, hrun, timeouts_independent hrun⟩

end TimeoutWorld

end VynxHttp
