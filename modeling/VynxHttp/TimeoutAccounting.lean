import Mathlib.Logic.Function.Basic
import VynxHttp.TimeoutManager
import VynxHttp.TimerPasses

/-!
# The accounts of the timeout manager

Every timeout which was started has fired, has been cancelled or is active.
The manager may be pointed at any loop or at none, timers of timeouts which
have been replaced may still fire, and callbacks may do what they like to the
timers of their loop.
-/

namespace VynxHttp

/-- A manager among the loops to which it may be pointed.  `starts` counts the
successful starts. -/
structure TimeoutWorld (α : Type*) where
  manager : TimeoutManager α := {}
  current : Option ℕ := none
  loops : ℕ → TimeoutLoop α
  starts : ℕ := 0

inductive TimeoutStep (α : Type*) where
  | op (op : TimeoutOp α)
  | setEventLoop (loop : Option ℕ)
  | timerOp (loop : ℕ) (op : TimerOp (LoopCallback α))
  | processTimers (loop : ℕ) (now : ℤ)
      (acts : ℕ → List (TimerOp (LoopCallback α)))

variable {α : Type*}

def TimeoutOp.starts : TimeoutOp α → Result Unit → ℕ
  | .start .., .ok () => 1
  | .resetIdle .., .ok () => 1
  | _, _ => 0

namespace TimeoutWorld

def putLoop (world : TimeoutWorld α) (loop : Option (TimeoutLoop α)) :
    ℕ → TimeoutLoop α :=
  match world.current, loop with
  | some index, some loop => Function.update world.loops index loop
  | _, _ => world.loops

def call (now : ℤ) (acts : ℕ → List (TimerOp (LoopCallback α)))
    (callback : LoopCallback α) (timer : ℕ)
    (s : TimeoutLoop α × TimeoutManager α) :
    TimeoutLoop α × TimeoutManager α :=
  (s.1.applyAll (acts timer), s.2.fire now callback timer)

/-- A step is undefined when a pass is. -/
def step (world : TimeoutWorld α) :
    TimeoutStep α → Option (TimeoutWorld α)
  | .op op =>
      let applied :=
        world.manager.apply (world.current.map world.loops) op
      some { world with
        manager := applied.1
        loops := world.putLoop applied.2.1
        starts := world.starts + op.starts applied.2.2 }
  | .setEventLoop loop => some { world with current := loop }
  | .timerOp index op =>
      some { world with
        loops := Function.update world.loops index
          ((world.loops index).apply op) }
  | .processTimers index now acts =>
      (LoopTimers.processTimers (call now acts) now
        (world.loops index, world.manager)).map fun s =>
          { world with
            manager := s.2
            loops := Function.update world.loops index s.1 }

end TimeoutWorld

namespace TimeoutManager

variable {manager : TimeoutManager α} {loop : Option (TimeoutLoop α)}
  {n : ℕ}

/-! ## Balanced accounts -/

/-- `n` timeouts have been started. -/
structure Balanced (manager : TimeoutManager α) (n : ℕ) : Prop where
  starts : n = manager.stats.timeoutsFired +
    manager.stats.timeoutsCancelled + manager.activeCount
  cached : manager.stats.activeTimeouts = manager.activeCount

theorem activeCount_set (manager : TimeoutManager α) (key : UInt64)
    (entry : TimeoutEntry α) :
    (manager.entries.set key entry).count (fun entry => entry.active) +
        ((manager.entries.find? key).any fun entry => entry.active).toNat =
      manager.activeCount + entry.active.toNat :=
  KeyedTable.count_set _ _ _ _

theorem supersede_spec (manager : TimeoutManager α)
    (loop : Option (TimeoutLoop α)) (key : UInt64) :
    (manager.supersede loop key).1.entries = manager.entries ∧
      (manager.supersede loop key).1.stats.timeoutsFired =
        manager.stats.timeoutsFired ∧
      (manager.supersede loop key).1.stats.timeoutsCancelled =
        manager.stats.timeoutsCancelled +
          ((manager.entries.find? key).any fun entry =>
            entry.active).toNat := by
  unfold supersede
  split
  next hnone => simp [hnone]
  next entry hsome =>
    cases hactive : entry.active with
    | false => simp [hsome, hactive]
    | true => simp [hsome, hactive]

theorem startTimeout_balanced (hbalanced : manager.Balanced n) (now : ℤ)
    (handle : NativeHandle) (type : TimeoutType) (duration : ℤ)
    (callback : TimeoutCallback α) :
    (manager.startTimeout loop now handle type duration
      callback).1.Balanced (n + 1) := by
  obtain ⟨hentries, hfired, hcancelled⟩ :=
    supersede_spec manager loop (makeKey handle type)
  have hstarts := hbalanced.starts
  refine ⟨?_, rfl⟩
  simp only [startTimeout, countActive, activeCount, hentries, hfired,
    hcancelled]
  have hset := activeCount_set manager (makeKey handle type)
    ⟨(scheduleLoopTimer (manager.supersede loop (makeKey handle type)).2 now
      duration ⟨handle, type, callback⟩).2, handle, type, callback, true⟩
  simp only [Bool.toNat_true] at hset
  omega

theorem activeCount_deactivate {key : UInt64} {entry : TimeoutEntry α}
    (hfind : manager.entries.find? key = some entry)
    (hactive : entry.active = true) :
    (manager.entries.set key { entry with active := false }).count
        (fun entry => entry.active) + 1 = manager.activeCount := by
  have hset := activeCount_set manager key { entry with active := false }
  simpa [hfind, hactive] using hset

theorem cancelTimeout_balanced (hbalanced : manager.Balanced n)
    (handle : NativeHandle) (type : TimeoutType) :
    (manager.cancelTimeout loop handle type).1.Balanced n := by
  have hstarts := hbalanced.starts
  unfold cancelTimeout
  simp only
  split
  next => exact hbalanced
  next entry hfind =>
    split
    next hactive =>
      have hcount := activeCount_deactivate hfind hactive
      refine ⟨?_, rfl⟩
      simp only [countActive, activeCount]
      omega
    next => exact hbalanced

theorem cancelAll_balanced (hbalanced : manager.Balanced n)
    (handle : NativeHandle) :
    (manager.cancelAll loop handle).1.Balanced n := by
  have hstarts := hbalanced.starts
  have hcount : (manager.entries.mapValues (deactivate handle)).count
        (fun entry => entry.active) +
      (manager.entries.values.filter (cancels handle)).length =
      manager.activeCount := by
    have hleft : (fun entry : TimeoutEntry α =>
        (deactivate handle entry).active) =
        fun entry => entry.active && !(entry.handle == handle) := by
      funext entry
      unfold deactivate cancels
      cases hactive : entry.active <;>
        cases hhandle : entry.handle == handle <;> simp [hactive]
    have hcancelled : (manager.entries.values.filter
        (cancels handle)).length =
        manager.entries.count fun entry =>
          entry.active && entry.handle == handle :=
      List.countP_eq_length_filter.symm
    have hboth := KeyedTable.count_and_add_count
      (fun entry : TimeoutEntry α => entry.active)
      (fun entry => entry.handle == handle) manager.entries
    rw [KeyedTable.count_mapValues, hleft, hcancelled, activeCount]
    omega
  refine ⟨?_, rfl⟩
  simp only [cancelAll, countActive, activeCount]
  omega

theorem apply_balanced (hbalanced : manager.Balanced n)
    (op : TimeoutOp α) :
    (manager.apply loop op).1.Balanced
      (n + op.starts (manager.apply loop op).2.2) := by
  cases op with
  | start now handle type duration callback =>
      exact startTimeout_balanced hbalanced now handle type duration callback
  | cancel handle type =>
      exact cancelTimeout_balanced hbalanced handle type
  | cancelAll handle => exact cancelAll_balanced hbalanced handle
  | resetIdle now handle duration =>
      have hcancel : (manager.cancelTimeout loop handle .idle).1.Balanced n :=
        cancelTimeout_balanced hbalanced handle .idle
      simp only [apply, resetIdle]
      split
      next => exact startTimeout_balanced hcancel now handle .idle duration _
      next =>
        split
        next =>
          exact startTimeout_balanced hcancel now handle .idle duration _
        next => exact hcancel

/-! ## Timers which fire -/

theorem countActive_balanced (hbalanced : manager.Balanced n) :
    manager.countActive.Balanced n :=
  ⟨hbalanced.starts, rfl⟩

@[simp] theorem entries_invoke (manager : TimeoutManager α) (now : ℤ)
    (timer : ℕ) (lambda : TimeoutLambda α) :
    (manager.invoke now timer lambda).entries = manager.entries := by
  unfold invoke
  split <;> rfl

@[simp] theorem stats_invoke (manager : TimeoutManager α) (now : ℤ)
    (timer : ℕ) (lambda : TimeoutLambda α) :
    (manager.invoke now timer lambda).stats = manager.stats := by
  unfold invoke
  split <;> rfl

theorem fire_balanced (hbalanced : manager.Balanced n) (now : ℤ)
    (callback : LoopCallback α) (timer : ℕ) :
    (manager.fire now callback timer).Balanced n := by
  have hstarts := hbalanced.starts
  cases callback with
  | other => exact hbalanced
  | timeout lambda =>
      unfold fire runLambda
      simp only
      split
      next => exact countActive_balanced hbalanced
      next entry hfind =>
        split
        next hactive =>
          have hcount := activeCount_deactivate hfind hactive
          refine ⟨?_, rfl⟩
          simp only [countActive, activeCount, entries_invoke, stats_invoke]
          omega
        next => exact countActive_balanced hbalanced

end TimeoutManager

namespace TimeoutWorld

/-! ## Runs -/

theorem step_balanced {world world' : TimeoutWorld α}
    {event : TimeoutStep α}
    (hbalanced : world.manager.Balanced world.starts)
    (hstep : world.step event = some world') :
    world'.manager.Balanced world'.starts := by
  cases event with
  | op op =>
      rw [step, Option.some.injEq] at hstep
      subst hstep
      exact TimeoutManager.apply_balanced hbalanced op
  | setEventLoop loop =>
      rw [step, Option.some.injEq] at hstep
      subst hstep
      exact hbalanced
  | timerOp index op =>
      rw [step, Option.some.injEq] at hstep
      subst hstep
      exact hbalanced
  | processTimers index now acts =>
      obtain ⟨s, hpass, rfl⟩ := Option.map_eq_some_iff.mp hstep
      -- Each turn leaves the manager alone or runs one callback.
      obtain ⟨_, hafter, _⟩ := LoopTimers.processTimers_invariant
        (fun _ t => t.2.Balanced world.starts) hbalanced
        (fun turn t t' _ hinv hturn => by
          obtain ⟨_, timer, _, hcases⟩ := LoopTimers.timerTurn_cases hturn
          rcases hcases with ⟨_, rfl⟩ | ⟨_, called, _, hcall, _, _, rfl⟩
          · exact hinv
          · rw [← hcall]
            exact TimeoutManager.fire_balanced hinv now _ _) hpass
      exact hafter

/-- After every operation the successful starts are those which have fired,
those which have been cancelled and those which are active. -/
theorem timeouts_balance (loops : ℕ → TimeoutLoop α)
    (steps : List (TimeoutStep α)) {world : TimeoutWorld α}
    (hrun : StepRun.run step { loops := loops } steps = some world) :
    world.starts = world.manager.stats.timeoutsFired +
        world.manager.stats.timeoutsCancelled + world.manager.activeCount ∧
      world.manager.stats.activeTimeouts = world.manager.activeCount := by
  have hbalanced : world.manager.Balanced world.starts :=
    StepRun.run_invariant
      (fun world : TimeoutWorld α => world.manager.Balanced world.starts)
      (fun _ => True) (fun _ _ _ hinv _ hstep => step_balanced hinv hstep)
      ⟨rfl, rfl⟩ (by simp) hrun
  exact ⟨hbalanced.starts, hbalanced.cached⟩

/-- A timeout which is started again, and a pass in which it fires. -/
def restarting : List (TimeoutStep ℕ) :=
  [.setEventLoop (some 0), .op (.start 0 7 .read 1 (.call 0)),
    .op (.start 0 7 .read 2 (.call 1)), .setEventLoop none,
    .processTimers 0 3000000 fun _ => []]

theorem timeouts_balance_restarting :
    ∃ world, StepRun.run step
        { loops := fun _ => LoopTimers.create fun size => 2 * size }
        restarting = some world ∧
      world.starts = world.manager.stats.timeoutsFired +
        world.manager.stats.timeoutsCancelled + world.manager.activeCount ∧
      world.manager.stats.activeTimeouts = world.manager.activeCount := by
  have hdefined : (StepRun.run step
      { loops := fun _ => LoopTimers.create fun size => 2 * size }
      restarting).isSome = true := by
    decide +kernel
  obtain ⟨world, hrun⟩ := Option.isSome_iff_exists.mp hdefined
  exact ⟨world, hrun, timeouts_balance _ _ hrun⟩

end TimeoutWorld

end VynxHttp
