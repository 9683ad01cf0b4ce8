import Mathlib.Data.List.Infix
import VynxHttp.TimeoutLife

/-!
# Idle timeouts which are reset

The entry of a handle and a type tells which callback its next expiry calls.
`reset_idle` writes an entry with a callback which does nothing, so the
callback with which an idle timeout was started is called only when the handle
has not been reset.
-/

namespace VynxHttp

open LoopTimers

variable {α : Type*}

def callsFor (handle : NativeHandle) (type : TimeoutType)
    (manager : TimeoutManager α) : List (Invocation α) :=
  manager.invocations.filter fun call =>
    call.handle == handle && call.type == type

/-- How often a callback has been called for the idle timeouts of a handle. -/
def idleCalls [DecidableEq α] (callback : α) (handle : NativeHandle)
    (manager : TimeoutManager α) : ℕ :=
  (callsFor handle .idle manager).countP fun call =>
    call.callback = .call callback

namespace ManagedStep

def resetsIdle (handle : NativeHandle) : ManagedStep α → Bool
  | .op (.resetIdle _ handle' _) => handle' == handle
  | _ => false

/-- A step which neither cancels the idle timeout of a handle nor starts it
again, except through `reset_idle`. -/
def keepsIdle (handle : NativeHandle) (step : ManagedStep α) : Bool :=
  match step with
  | .op action => step.resetsIdle handle || !action.ends handle .idle
  | _ => true

end ManagedStep

namespace ManagedLoop

variable {s s' : ManagedLoop α} {now : ℤ} {index : ℕ}
  {timer : TimerEntry (LoopCallback α)} {handle : NativeHandle}
  {type : TimeoutType} {entry : TimeoutEntry α}

/-! ## Passes -/

/-- The entry is as it was, or it has been called. -/
def Called (now : ℤ) (handle : NativeHandle) (type : TimeoutType)
    (entry : TimeoutEntry α) (s s' : ManagedLoop α) : Prop :=
  (s'.manager.entries.find? (makeKey handle type) = some entry ∧
      callsFor handle type s'.manager = callsFor handle type s.manager) ∨
    (s'.manager.entries.find? (makeKey handle type) =
        some { entry with active := false } ∧
      callsFor handle type s'.manager =
        callsOf now entry.timer ⟨handle, type, entry.callback⟩ ++
          callsFor handle type s.manager)

theorem callsFor_callsOf (now : ℤ) (id : ℕ) (lambda : TimeoutLambda α)
    (handle : NativeHandle) (type : TimeoutType) :
    (callsOf now id lambda).filter (fun call =>
        call.handle == handle && call.type == type) =
      if lambda.handle = handle ∧ lambda.type = type then
        callsOf now id lambda
      else [] := by
  unfold callsOf
  split
  next => simp
  next =>
    by_cases hhandle : lambda.handle = handle <;>
      by_cases htype : lambda.type = type <;> simp [hhandle, htype]
  next =>
    by_cases hhandle : lambda.handle = handle <;>
      by_cases htype : lambda.type = type <;> simp [hhandle, htype]

theorem Called.fireTurn {base : ManagedLoop α}
    (hcalled : Called now handle type entry base s) (hin : s.InStep)
    (hentry : entry.active = true)
    (hindex : s.loop.timers.elems[index]? = some timer)
    (hdue : isDue now timer = true) :
    Called now handle type entry base (s.fireTurn now index timer) := by
  have hmem : timer ∈ s.loop.timers.elems := List.mem_of_getElem? hindex
  have hmanager : (s.fireTurn now index timer).manager =
      s.manager.fire now timer.callback timer.id := rfl
  unfold Called
  rw [hmanager]
  cases hcallback : timer.callback with
  | other => exact hcalled
  | timeout lambda =>
      obtain ⟨own, hown, hactive, hid, _⟩ :=
        hin.entry_of_due hmem (isDue_iff.mp hdue).1 hcallback
      obtain ⟨_, _, hdata⟩ := hin.lambda_eq hown hactive hmem hid.symm
      rw [hcallback, LoopCallback.timeout.injEq] at hdata
      obtain ⟨hentries, hcalls⟩ := fire_timeout now hown hactive timer.id
      have hfor : callsFor handle type
          (s.manager.fire now (.timeout lambda) timer.id) =
          (if lambda.handle = handle ∧ lambda.type = type then
            callsOf now timer.id lambda else []) ++
            callsFor handle type s.manager := by
        rw [callsFor, hcalls, List.filter_append, callsFor_callsOf]
        rfl
      rw [hentries, hfor]
      by_cases hkey : makeKey lambda.handle lambda.type =
          makeKey handle type
      · obtain ⟨hhandle, htype⟩ := makeKey_injective hkey
        rw [hkey] at hown
        rcases hcalled with ⟨hfind, hsame⟩ | ⟨hfind, _⟩
        · have heq : own = entry := by
            rw [hown, Option.some.injEq] at hfind
            exact hfind
          subst heq
          refine .inr ⟨by rw [hkey, KeyedTable.find?_set], ?_⟩
          have hlambda : lambda = ⟨handle, type, own.callback⟩ := by
            have howns := hdata
            rw [howns] at hhandle htype
            simp only at hhandle htype
            rw [howns, hhandle, htype]
          rw [if_pos ⟨hhandle, htype⟩, hsame, ← hid, hlambda]
        · rw [hown, Option.some.injEq] at hfind
          rw [hfind] at hactive
          simp at hactive
      · have hne : ¬(lambda.handle = handle ∧ lambda.type = type) := by
          rintro ⟨rfl, rfl⟩
          exact hkey rfl
        rw [if_neg hne, List.nil_append,
          KeyedTable.find?_set_of_ne (Ne.symm hkey)]
        exact hcalled

theorem called_pass (hsound : s.Sound) (hentry : entry.active = true)
    (hfind : s.manager.entries.find? (makeKey handle type) = some entry)
    (hpass : s.step (.processTimers now) = some s') :
    Called now handle type entry s s' := by
  obtain ⟨t, hprocess, rfl⟩ := Option.map_eq_some_iff.mp hpass
  have hturns : ∀ index (t t' : TimeoutLoop α × TimeoutManager α),
      index < s.loop.timers.size →
      (⟨t.2, t.1⟩ : ManagedLoop α).InStep ∧
        Called now handle type entry s ⟨t.2, t.1⟩ →
      timerTurn (inert now) now t ⟨s.loop.timers.storage, index⟩ =
        some t' →
      (⟨t'.2, t'.1⟩ : ManagedLoop α).InStep ∧
        Called now handle type entry s ⟨t'.2, t'.1⟩ := by
    intro index t t' _ hinv hturn
    obtain ⟨_, timer, hindex, hcases⟩ := timerTurn_cases hturn
    rcases hcases with ⟨_, rfl⟩ | ⟨hdue, called, settled, hcall, _,
      hsettled, rfl⟩
    · exact hinv
    · subst hcall
      have hsame : settled = timer := by
        have hindex' : (inert now timer.callback timer.id
            (t.1.record (.fired timer.id now), t.2)).1.timers.elems[index]? =
            some timer := hindex
        rw [hindex', Option.some.injEq] at hsettled
        exact hsettled.symm
      subst hsame
      exact ⟨hinv.1.fireTurn hindex hdue,
        hinv.2.fireTurn hinv.1 hentry hindex hdue⟩
  have hin := hsound.in_step
  obtain ⟨last, hlast, _⟩ := processTimers_invariant _
    ⟨⟨hin.ordered.record _, hin.keyed, hin.pending, hin.tracked⟩,
      .inl ⟨hfind, rfl⟩⟩ hturns hprocess
  exact hlast.2

/-! ## Operations -/

theorem supersede_kept (manager : TimeoutManager α)
    (loop : Option (TimeoutLoop α)) (key : UInt64) :
    (manager.supersede loop key).1.entries = manager.entries ∧
      (manager.supersede loop key).1.invocations =
        manager.invocations := by
  unfold TimeoutManager.supersede
  split
  next => exact ⟨rfl, rfl⟩
  next => split <;> exact ⟨rfl, rfl⟩

theorem startTimeout_entries (manager : TimeoutManager α)
    (loop : Option (TimeoutLoop α)) (now : ℤ) (handle : NativeHandle)
    (type : TimeoutType) (duration : ℤ) (callback : TimeoutCallback α) :
    (manager.startTimeout loop now handle type duration
        callback).1.invocations = manager.invocations ∧
      ∃ timer, (manager.startTimeout loop now handle type duration
          callback).1.entries =
        manager.entries.set (makeKey handle type)
          ⟨timer, handle, type, callback, true⟩ := by
  obtain ⟨hentries, hinvocations⟩ :=
    supersede_kept manager loop (makeKey handle type)
  refine ⟨hinvocations, (TimeoutManager.scheduleLoopTimer
    (manager.supersede loop (makeKey handle type)).2 now duration
    ⟨handle, type, callback⟩).2, ?_⟩
  simp only [TimeoutManager.startTimeout, TimeoutManager.countActive,
    hentries]

theorem cancelTimeout_entries (manager : TimeoutManager α)
    (loop : Option (TimeoutLoop α)) (handle : NativeHandle)
    (type : TimeoutType) :
    (manager.cancelTimeout loop handle type).1.invocations =
        manager.invocations ∧
      ∀ key, key ≠ makeKey handle type →
        (manager.cancelTimeout loop handle type).1.entries.find? key =
          manager.entries.find? key := by
  unfold TimeoutManager.cancelTimeout
  simp only
  split
  next => exact ⟨rfl, fun _ _ => rfl⟩
  next =>
    split
    next => exact ⟨rfl, fun key hkey => KeyedTable.find?_set_of_ne hkey _⟩
    next => exact ⟨rfl, fun _ _ => rfl⟩

/-- The entry of a pair which has an active timeout with a callback. -/
def Registered (handle : NativeHandle) (type : TimeoutType)
    (callback : TimeoutCallback α) (s : ManagedLoop α) : Prop :=
  ∃ entry, s.manager.entries.find? (makeKey handle type) = some entry ∧
    entry.active = true ∧ entry.callback = callback

theorem manager_of_step {action : TimeoutOp α}
    (hstep : s.step (.op action) = some s') :
    s'.manager = (s.manager.apply (some s.loop) action).1 := by
  obtain ⟨loop, _, rfl⟩ := Option.map_eq_some_iff.mp hstep
  rfl

theorem find_of_kept (hin : s.InStep) {action : TimeoutOp α}
    (hstep : s.step (.op action) = some s')
    (hkept : action.ends handle type = false) :
    s'.manager.entries.find? (makeKey handle type) =
        s.manager.entries.find? (makeKey handle type) ∧
      s'.manager.invocations = s.manager.invocations := by
  rw [manager_of_step hstep]
  have hother : ∀ handle' type', only handle' type' handle type = false →
      makeKey handle type ≠ makeKey handle' type' := by
    intro handle' type' honly hkey
    rw [only_iff.mpr hkey] at honly
    simp at honly
  cases action with
  | start now handle' type' duration callback =>
      obtain ⟨hcalls, timer, hentries⟩ := startTimeout_entries s.manager
        (some s.loop) now handle' type' duration callback
      refine ⟨?_, hcalls⟩
      rw [TimeoutManager.apply, hentries,
        KeyedTable.find?_set_of_ne (hother _ _ hkept)]
  | cancel handle' type' =>
      obtain ⟨hcalls, hentries⟩ :=
        cancelTimeout_entries s.manager (some s.loop) handle' type'
      exact ⟨hentries _ (hother _ _ hkept), hcalls⟩
  | cancelAll handle' =>
      refine ⟨?_, rfl⟩
      simp only [TimeoutManager.apply, TimeoutManager.cancelAll,
        TimeoutManager.countActive, KeyedTable.find?_mapValues]
      cases hfind : s.manager.entries.find? (makeKey handle type) with
      | none => rfl
      | some entry =>
          have hkey := hin.keyed _ entry hfind
          have hhandle := (makeKey_injective hkey).1
          have hne : (entry.handle == handle') = false := by
            rw [← hhandle]
            exact hkept
          simp [TimeoutManager.deactivate, TimeoutManager.cancels, hne]
  | resetIdle now handle' duration =>
      obtain ⟨hcalls, hentries⟩ :=
        cancelTimeout_entries s.manager (some s.loop) handle' .idle
      obtain ⟨hcalls', timer, hentries'⟩ := startTimeout_entries
        (s.manager.cancelTimeout (some s.loop) handle' .idle).1
        (s.manager.cancelTimeout (some s.loop) handle' .idle).2.1 now handle'
        .idle duration .noop
      simp only [TimeoutManager.apply, resetIdle_eq]
      refine ⟨?_, hcalls'.trans hcalls⟩
      rw [hentries', KeyedTable.find?_set_of_ne (hother _ _ hkept),
        hentries _ (hother _ _ hkept)]

theorem registered_of_start {now duration : ℤ}
    {callback : TimeoutCallback α}
    (hstep : s.step (.op (.start now handle type duration callback)) =
      some s') :
    Registered handle type callback s' ∧
      s'.manager.invocations = s.manager.invocations := by
  rw [Registered, manager_of_step hstep]
  obtain ⟨hcalls, timer, hentries⟩ := startTimeout_entries s.manager
    (some s.loop) now handle type duration callback
  refine ⟨⟨⟨timer, handle, type, callback, true⟩, ?_, rfl, rfl⟩, hcalls⟩
  rw [TimeoutManager.apply, hentries, KeyedTable.find?_set]

theorem registered_of_reset {now duration : ℤ}
    (hstep : s.step (.op (.resetIdle now handle duration)) = some s') :
    Registered handle .idle .noop s' ∧
      s'.manager.invocations = s.manager.invocations := by
  rw [Registered, manager_of_step hstep]
  obtain ⟨hcalls, _⟩ :=
    cancelTimeout_entries s.manager (some s.loop) handle .idle
  obtain ⟨hcalls', timer, hentries⟩ := startTimeout_entries
    (s.manager.cancelTimeout (some s.loop) handle .idle).1
    (s.manager.cancelTimeout (some s.loop) handle .idle).2.1 now handle
    .idle duration .noop
  simp only [TimeoutManager.apply, resetIdle_eq]
  refine ⟨⟨⟨timer, handle, .idle, .noop, true⟩, ?_, rfl, rfl⟩,
    hcalls'.trans hcalls⟩
  rw [hentries, KeyedTable.find?_set]

/-! ## Activity on a handle -/

/-- The callback which an idle timeout has left after some activity. -/
def idleCallback (handle : NativeHandle) (callback : TimeoutCallback α)
    (activity : List (ManagedStep α)) : TimeoutCallback α :=
  if activity.any (ManagedStep.resetsIdle handle) then .noop else callback

/-- The idle timeout of a handle is active after every part of a sequence of
steps. -/
def StaysActive (handle : NativeHandle) (s : ManagedLoop α)
    (activity : List (ManagedStep α)) : Prop :=
  ∀ early ∈ activity.inits,
    (StepRun.run step s early).all
      (fun t => t.manager.isActive handle .idle) = true

instance (handle : NativeHandle) (s : ManagedLoop α)
    (activity : List (ManagedStep α)) :
    Decidable (StaysActive handle s activity) :=
  inferInstanceAs (Decidable (∀ early ∈ activity.inits,
    (StepRun.run step s early).all
      (fun t => t.manager.isActive handle .idle) = true))

theorem callsFor_congr {manager manager' : TimeoutManager α}
    (hcalls : manager'.invocations = manager.invocations) :
    callsFor handle type manager' = callsFor handle type manager := by
  rw [callsFor, hcalls, callsFor]

theorem isActive_of_find {manager : TimeoutManager α}
    (hfind : manager.entries.find? (makeKey handle type) = some entry) :
    manager.isActive handle type = entry.active := by
  simp [TimeoutManager.isActive, hfind]

theorem step_registered (hsound : s.Sound) {event : ManagedStep α}
    {callback : TimeoutCallback α}
    (hregistered : Registered handle .idle callback s)
    (hkept : event.keepsIdle handle = true)
    (hactive : s'.manager.isActive handle .idle = true)
    (hstep : s.step event = some s') :
    Registered handle .idle
        (if event.resetsIdle handle then .noop else callback) s' ∧
      callsFor handle .idle s'.manager = callsFor handle .idle s.manager := by
  obtain ⟨entry, hfind, hentry, rfl⟩ := hregistered
  cases event with
  | op action =>
      cases hreset : (ManagedStep.op action).resetsIdle handle with
      | true =>
          cases action with
          | resetIdle now handle' duration =>
              obtain rfl : handle' = handle := by
                simpa [ManagedStep.resetsIdle] using hreset
              obtain ⟨hnoop, hcalls⟩ := registered_of_reset hstep
              exact ⟨hnoop, callsFor_congr hcalls⟩
          | start => simp [ManagedStep.resetsIdle] at hreset
          | cancel => simp [ManagedStep.resetsIdle] at hreset
          | cancelAll => simp [ManagedStep.resetsIdle] at hreset
      | false =>
          have hends : action.ends handle .idle = false := by
            simpa [ManagedStep.keepsIdle, hreset] using hkept
          obtain ⟨hsame, hcalls⟩ := find_of_kept hsound.in_step hstep hends
          exact ⟨⟨entry, hsame.trans hfind, hentry, rfl⟩,
            callsFor_congr hcalls⟩
  | schedule now delay interval repeating =>
      rw [step, Option.some.injEq] at hstep
      subst hstep
      exact ⟨⟨entry, hfind, hentry, rfl⟩, rfl⟩
  | processTimers now =>
      rcases called_pass hsound hentry hfind hstep with
        ⟨hsame, hcalls⟩ | ⟨hover, _⟩
      · exact ⟨⟨entry, hsame, hentry, rfl⟩, hcalls⟩
      · rw [isActive_of_find hover] at hactive
        simp at hactive

theorem StaysActive.tail {event : ManagedStep α}
    {activity : List (ManagedStep α)} {next : ManagedLoop α}
    (hactive : StaysActive handle s (event :: activity))
    (hstep : s.step event = some next) :
    next.manager.isActive handle .idle = true ∧
      StaysActive handle next activity := by
  have hlater : StaysActive handle next activity := by
    intro early hearly
    have hnow := hactive (event :: early) (by simpa using hearly)
    rw [StepRun.run_cons_of_eq hstep] at hnow
    exact hnow
  exact ⟨hlater [] (by simp), hlater⟩

/-- An idle timeout which stays active calls nothing, and forgets its callback
in a `reset_idle`. -/
theorem run_registered (hsound : s.Sound)
    {activity : List (ManagedStep α)} {callback : TimeoutCallback α}
    (hregistered : Registered handle .idle callback s)
    (hkept : ∀ event ∈ activity, event.keepsIdle handle = true)
    (hactive : StaysActive handle s activity)
    (hrun : StepRun.run step s activity = some s') :
    s'.Sound ∧
      Registered handle .idle (idleCallback handle callback activity) s' ∧
      callsFor handle .idle s'.manager = callsFor handle .idle s.manager := by
  induction activity generalizing s callback with
  | nil =>
      rw [StepRun.run_nil, Option.some.injEq] at hrun
      subst hrun
      exact ⟨hsound, hregistered, rfl⟩
  | cons event activity ih =>
      obtain ⟨next, hstep, hlater⟩ := StepRun.run_cons_eq_some.mp hrun
      obtain ⟨next', hstep', hsound'⟩ := exists_step hsound event
      rw [hstep, Option.some.injEq] at hstep'
      subst hstep'
      obtain ⟨hnow, hafter⟩ := hactive.tail hstep
      obtain ⟨hregistered', hcalls⟩ := step_registered hsound hregistered
        (hkept event (List.mem_cons_self ..)) hnow hstep
      obtain ⟨hfinal, hregistered'', hcalls'⟩ := ih hsound' hregistered'
        (fun other hmem => hkept other (List.mem_cons_of_mem _ hmem))
        hafter hlater
      refine ⟨hfinal, ?_, hcalls'.trans hcalls⟩
      have hcallback : idleCallback handle callback (event :: activity) =
          idleCallback handle
            (if event.resetsIdle handle then .noop else callback)
            activity := by
        cases hreset : event.resetsIdle handle <;>
          simp [idleCallback, hreset]
      rw [hcallback]
      exact hregistered''

theorem calls_of_expiry (hsound : s.Sound) {callback : TimeoutCallback α}
    (hregistered : Registered handle .idle callback s)
    (hpass : s.step (.processTimers now) = some s')
    (hexpired : s'.manager.isActive handle .idle = false) :
    ∃ timer, callsFor handle .idle s'.manager =
      callsOf now timer ⟨handle, .idle, callback⟩ ++
        callsFor handle .idle s.manager := by
  obtain ⟨entry, hfind, hentry, rfl⟩ := hregistered
  rcases called_pass hsound hentry hfind hpass with
    ⟨hsame, _⟩ | ⟨_, hcalls⟩
  · rw [isActive_of_find hsame, hentry] at hexpired
    simp at hexpired
  · exact ⟨entry.timer, hcalls⟩

/-- The callback of an idle timeout is called at the expiry, once, exactly when
the handle has not been reset. -/
theorem idle_callback_kept_iff [DecidableEq α] (growth : ℕ → ℕ)
    (before : List (ManagedStep α)) (start duration : ℤ)
    (handle : NativeHandle) (callback : α)
    (activity : List (ManagedStep α)) (expiry : ℤ)
    (hkept : ∀ event ∈ activity, event.keepsIdle handle = true)
    (s s' s'' : ManagedLoop α)
    (hstart : StepRun.run step ⟨{}, create growth⟩
      (before ++ [.op (.start start handle .idle duration
        (.call callback))]) = some s)
    (hactive : StaysActive handle s activity)
    (hrun : StepRun.run step s activity = some s')
    (hpass : s'.step (.processTimers expiry) = some s'')
    (hexpired : s''.manager.isActive handle .idle = false) :
    idleCalls callback handle s''.manager =
        idleCalls callback handle s.manager + 1 ↔
      ∀ event ∈ activity, event.resetsIdle handle = false := by
  obtain ⟨first, hfirst, hlast⟩ := StepRun.run_append_eq_some.mp hstart
  rw [StepRun.run_singleton] at hlast
  obtain ⟨first', hfirst', hsound⟩ := exists_run (sound_create growth) before
  rw [hfirst, Option.some.injEq] at hfirst'
  subst hfirst'
  obtain ⟨started, hstarted, hsound'⟩ := exists_step hsound
    (.op (.start start handle .idle duration (.call callback)))
  rw [hlast, Option.some.injEq] at hstarted
  subst hstarted
  obtain ⟨hregistered, _⟩ := registered_of_start hlast
  obtain ⟨hsound'', hregistered', hcalls⟩ :=
    run_registered hsound' hregistered hkept hactive hrun
  obtain ⟨timer, hcalled⟩ :=
    calls_of_expiry hsound'' hregistered' hpass hexpired
  rw [idleCalls, hcalled, hcalls, List.countP_append, idleCalls,
    idleCallback]
  cases hreset : activity.any (ManagedStep.resetsIdle handle) with
  | true =>
      obtain ⟨event, hmem, hevent⟩ := List.any_eq_true.mp hreset
      simp only [callsOf, ↓reduceIte]
      constructor
      · intro hcount
        simp at hcount
      · intro hnone
        rw [hnone event hmem] at hevent
        simp at hevent
  | false =>
      rw [List.any_eq_false] at hreset
      constructor
      · intro _ event hmem
        simpa using hreset event hmem
      · intro _
        simp [callsOf, Nat.add_comm]

/-- Activity on another handle, which is reset. -/
def besideReset : List (ManagedStep ℕ) :=
  [.op (.start 1000000 4 .idle 5 (.call 8)),
    .op (.resetIdle 2000000 4 5), .processTimers 3000000]

theorem idle_callback_kept_beside_reset :
    ∃ s s' s'' : ManagedLoop ℕ,
      StepRun.run step ⟨{}, create fun size => 2 * size⟩
        [.op (.start 0 3 .idle 5 (.call 7))] = some s ∧
      StepRun.run step s besideReset = some s' ∧
      s'.step (.processTimers 6000000) = some s'' ∧
      (idleCalls 7 3 s''.manager = idleCalls 7 3 s.manager + 1 ↔
        ∀ event ∈ besideReset, event.resetsIdle 3 = false) := by
  have hsound := sound_create (α := ℕ) fun size => 2 * size
  obtain ⟨s, hstart, hsound'⟩ :=
    exists_run hsound [.op (.start 0 3 .idle 5 (.call 7))]
  obtain ⟨s', hrun, hsound''⟩ := exists_run hsound' besideReset
  obtain ⟨s'', hpass, _⟩ := exists_step hsound'' (.processTimers 6000000)
  have hkept : ∀ event ∈ besideReset, event.keepsIdle 3 = true := by decide
  have hactive : StaysActive 3 s besideReset := by
    have hall : (StepRun.run step
        (⟨{}, create fun size => 2 * size⟩ : ManagedLoop ℕ)
        [.op (.start 0 3 .idle 5 (.call 7))]).all
        (fun s => decide (StaysActive 3 s besideReset)) = true := by
      decide +kernel
    rw [hstart] at hall
    exact of_decide_eq_true hall
  have hexpired : s''.manager.isActive 3 .idle = false := by
    have hall : (((StepRun.run step
        (⟨{}, create fun size => 2 * size⟩ : ManagedLoop ℕ)
        [.op (.start 0 3 .idle 5 (.call 7))]).bind
        fun s => StepRun.run step s besideReset).bind
        fun s' => s'.step (.processTimers 6000000)).all
        (fun s'' => !s''.manager.isActive 3 .idle) = true := by
      decide +kernel
    rw [hstart, Option.bind_some, hrun, Option.bind_some, hpass] at hall
    simpa using hall
  exact ⟨s, s', s'', hstart, hrun, hpass,
    idle_callback_kept_iff _ [] 0 5 3 7 besideReset 6000000 hkept s s' s''
      hstart hactive hrun hpass hexpired⟩

/-- An idle timeout of five milliseconds, reset after three, and a pass after
ten. -/
theorem reset_idle_loses_callback :
    ∃ s s' s'' : ManagedLoop ℕ,
      StepRun.run step ⟨{}, create fun size => 2 * size⟩
        [.op (.start 0 3 .idle 5 (.call 7))] = some s ∧
      s.step (.op (.resetIdle 3000000 3 5)) = some s' ∧
      s'.manager.isActive 3 .idle = true ∧
      s'.step (.processTimers 10000000) = some s'' ∧
      s''.manager.isActive 3 .idle = false ∧
      idleCalls 7 3 s''.manager ≠ idleCalls 7 3 s.manager + 1 := by
  have hsound := sound_create (α := ℕ) fun size => 2 * size
  obtain ⟨s, hstart, hsound'⟩ :=
    exists_run hsound [.op (.start 0 3 .idle 5 (.call 7))]
  obtain ⟨s', hreset, hsound''⟩ :=
    exists_step hsound' (.op (.resetIdle 3000000 3 5))
  obtain ⟨s'', hpass, _⟩ := exists_step hsound'' (.processTimers 10000000)
  have hall : ((StepRun.run step
      (⟨{}, create fun size => 2 * size⟩ : ManagedLoop ℕ)
      [.op (.start 0 3 .idle 5 (.call 7))]).bind
      fun s => (s.step (.op (.resetIdle 3000000 3 5))).bind
      fun s' => (s'.step (.processTimers 10000000)).map
      fun s'' => s'.manager.isActive 3 .idle &&
        !s''.manager.isActive 3 .idle &&
        decide (idleCalls 7 3 s''.manager ≠
          idleCalls 7 3 s.manager + 1)) = some true := by
    decide +kernel
  rw [hstart, Option.bind_some, hreset, Option.bind_some, hpass,
    Option.map_some, Option.some.injEq, Bool.and_eq_true,
    Bool.and_eq_true] at hall
  exact ⟨s, s', s'', hstart, hreset, hall.1.1, hpass,
    by simpa using hall.1.2, of_decide_eq_true hall.2⟩

end ManagedLoop

end VynxHttp
