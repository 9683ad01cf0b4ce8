import VynxHttp.LoopSwitches

/-!
# Timers and the objects which they call back

The lambda of a timer uses the `impl_` of the object for which it was
scheduled.  Neither the destructor nor a move of a manager cancels timers, so
a timer may be left with an object which is not there or has no `impl_` any
more.
-/

namespace VynxHttp

open LoopTimers TimeoutManager

variable {α : Type*}

/-- The active timeouts with timers have them in the current loop. -/
def ManagerImpl.Settled (impl : ManagerImpl α) : Prop :=
  ∀ key timer, impl.manager.RunsAt key timer → timer ≠ invalidTimerId →
    (impl.origins key).loop = impl.loop

theorem ManagerImpl.Settled.endsOwn {impl : ManagerImpl α}
    (hsettled : impl.Settled) (op : TimeoutOp α) : impl.EndsOwn op := by
  rintro ⟨key, entry⟩ hrow hactive hvalid _
  have hfind := KeyedTable.find?_eq_some_iff.mpr hrow
  exact hsettled key entry.timer ⟨entry, hfind, hactive, rfl⟩ hvalid

theorem ManagerImpl.Idle.settled {impl : ManagerImpl α}
    (hidle : impl.Idle) : impl.Settled :=
  fun _ _ hruns hvalid => absurd (hidle.timer_eq hruns) hvalid

namespace ManagerWorld

variable {world next : ManagerWorld α}

/-- Every timer which has not been cancelled calls back an object with its
`impl_`. -/
def Owned (world : ManagerWorld α) : Prop :=
  ∀ index id capture key, world.Pending index id capture key →
    ∃ impl, world.objects capture.object = .live impl

/-- No pass uses an `impl_` which is missing. -/
def PassesDefined (world : ManagerWorld α) : Prop :=
  ∀ index now, (world.step (.processTimers index now)).isSome

theorem Tracked.owned (htracked : world.Tracked) : world.Owned := by
  intro index id capture key hpending
  rcases (htracked.pending_iff _ _ _ _).mp hpending with ⟨impl, hlive, _⟩
  exact ⟨impl, hlive⟩

theorem Tracked.passesDefined (htracked : world.Tracked) :
    world.PassesDefined := by
  intro index now
  rcases exists_pass htracked index now with ⟨next, hpass, _⟩
  rw [hpass]
  rfl

/-! ## Managers which are idle when they change -/

/-- A manager is destroyed, moved, assigned over or given another loop only
while it has no active timeout with a timer. -/
def ChangesIdle (world : ManagerWorld α) : ManagerStep α → Prop
  | .setEventLoop object loop => ∀ impl,
      world.objects object = .live impl → impl.loop = loop ∨ impl.Idle
  | .moveConstruct _ other => world.IdleAt other
  | .moveAssign object other => object ≠ other →
      world.IdleAt object ∧ world.IdleAt other
  | .destroy object => world.IdleAt object
  | .create _ | .op .. | .schedule .. | .processTimers .. => True

def Settled (world : ManagerWorld α) : Prop :=
  ∀ object impl, world.objects object = .live impl → impl.Settled

theorem Settled.setObject (hsettled : world.Settled) {object : ℕ}
    {value : ManagerObject α}
    (hvalue : ∀ impl, value = .live impl → impl.Settled) :
    (world.setObject object value).Settled := by
  intro object' impl hlive
  by_cases hobject : object' = object
  · rw [hobject, objects_setObject] at hlive
    exact hvalue impl hlive
  · rw [objects_setObject_of_ne hobject] at hlive
    exact hsettled object' impl hlive

theorem Settled.takeOver (hsettled : world.Settled) {object other : ℕ} :
    (world.takeOver object other).Settled := by
  refine (hsettled.setObject ?_).setObject (by simp)
  exact fun impl hlive => hsettled other impl hlive

theorem Settled.serve (hsettled : world.Settled) (hkept : world.WellKept)
    {object : ℕ} {impl : ManagerImpl α}
    (hlive : world.objects object = .live impl) (op : TimeoutOp α) :
    (world.serve object impl op).Settled := by
  rcases serve_spec hkept hlive op with ⟨new, ids, hserved⟩
  intro object' impl' hlive' key timer hruns hvalid
  have hafter := hlive'
  rw [objects_serve] at hafter
  by_cases hobject : object' = object
  · subst hobject
    rw [Function.update_self] at hafter
    rcases (hserved.running_iff object' key timer (impl'.origins key)).mp
      ⟨impl', hlive', hruns, rfl⟩ with ⟨_, _, _, horigin⟩ | ⟨hold, _⟩
    · cases hafter
      rw [horigin]
      rfl
    · rcases hold.of_live hlive with ⟨hruns', horigin⟩
      cases hafter
      rw [← horigin]
      exact hsettled object' impl hlive key timer hruns' hvalid
  · rw [Function.update_of_ne hobject] at hafter
    exact hsettled object' impl' hafter key timer hruns hvalid

theorem Settled.firedSet (hsettled : world.Settled) {object : ℕ}
    {impl : ManagerImpl α} (hlive : world.objects object = .live impl)
    {now : ℤ} {lambda : TimeoutLambda α} {id start : ℕ} {object' : ℕ}
    {impl' : ManagerImpl α}
    (hlive' : (world.firedSet object impl now lambda id start).objects
      object' = .live impl') : impl'.Settled := by
  unfold ManagerWorld.firedSet at hlive'
  dsimp only at hlive'
  by_cases hobject : object' = object
  · rw [hobject, Function.update_self] at hlive'
    cases hlive'
    intro key timer hruns hvalid
    exact hsettled object impl hlive key timer
      (runsAt_runLambda now id |>.mp hruns).1 hvalid
  · rw [Function.update_of_ne hobject] at hlive'
    exact hsettled object' impl' hlive'

/-- What a callback of a timer has made of the objects. -/
theorem eq_of_fire {captures : ℕ → Capture} {now : ℤ}
    {callback : LoopCallback α} {id : ℕ} {s : ManagerSet α}
    (hfire : fire captures now callback id world.toManagerSet = some s) :
    s = world.toManagerSet ∨
      ∃ lambda impl, callback = .timeout lambda ∧
        world.objects (captures id).object = .live impl ∧
        s = world.firedSet (captures id).object impl now lambda id
          (captures id).start := by
  cases callback with
  | other =>
      unfold fire at hfire
      exact .inl (Option.some.inj hfire).symm
  | timeout lambda =>
      cases hobject : world.objects (captures id).object with
      | absent => simp [fire, hobject] at hfire
      | empty => simp [fire, hobject] at hfire
      | live impl =>
          rw [fire_eq hobject, Option.some.injEq] at hfire
          exact .inr ⟨lambda, impl, rfl, rfl, hfire.symm⟩

theorem withstands_settled (index : ℕ) (now : ℤ) :
    Withstands (fun world : ManagerWorld α =>
      world.Tracked ∧ world.Settled) index now where
  record := fun world event hinv =>
    ⟨(withstands_tracked index now).record world event hinv.1, hinv.2⟩
  fire := by
    intro world position timer hinv hposition hdue
    rcases (withstands_tracked index now).fire world position timer hinv.1
      hposition hdue with ⟨s, hfire, hafter⟩
    refine ⟨s, hfire, hafter, ?_⟩
    rcases eq_of_fire hfire with rfl | ⟨lambda, impl, _, hlive, rfl⟩
    · exact hinv.2
    · exact fun _ _ hlive' => hinv.2.firedSet hlive hlive'
  remove := fun world hinv =>
    ⟨(withstands_tracked index now).remove world hinv.1, hinv.2⟩

/-- Managers which only change while they are idle stay in order. -/
theorem Settled.orderly (hsettled : world.Settled) {event : ManagerStep α}
    (hidle : world.ChangesIdle event) : world.Orderly event := by
  cases event with
  | op object op =>
      exact fun impl hlive => (hsettled object impl hlive).endsOwn op
  | moveConstruct object other => exact hidle
  | moveAssign object other => exact hidle
  | destroy object => exact hidle
  | create object => trivial
  | setEventLoop object loop => trivial
  | schedule index now delay interval repeating => trivial
  | processTimers index now => trivial

theorem Settled.step (hsettled : world.Settled) (htracked : world.Tracked)
    {event : ManagerStep α} (hidle : world.ChangesIdle event)
    (hstep : world.step event = some next) : next.Settled := by
  cases takes_of_step hstep with
  | created =>
      refine hsettled.setObject fun impl hlive => ?_
      cases hlive
      exact fun _ _ hruns => absurd hruns not_runsAt_empty
  | refused => exact hsettled
  | served op hlive => exact hsettled.serve htracked.kept hlive op
  | ignored => exact hsettled
  | switched loop hlive =>
      refine hsettled.setObject fun impl' hlive' => ?_
      cases hlive'
      rcases hidle _ hlive with hsame | hnone
      · rw [← hsame]
        exact hsettled _ _ hlive
      · exact fun key timer hruns hvalid =>
          absurd (hnone.timer_eq hruns) hvalid
  | scheduled => exact hsettled
  | passed =>
      rcases pass_meets (withstands_settled _ _) ⟨htracked, hsettled⟩ with
        ⟨other, hother, hafter⟩
      have hsame : some next = some other := hstep.symm.trans hother
      cases hsame
      exact hafter.2
  | constructed => exact hsettled.takeOver
  | unchanged => exact hsettled
  | assigned => exact hsettled.takeOver
  | destroyed => exact hsettled.setObject (by simp)

theorem tracked_of_idle {growth : ℕ → ℕ → ℕ}
    {steps : List (ManagerStep α)}
    (hidle : StepRun.Along step ChangesIdle (created growth) steps)
    (hrun : StepRun.run step (created growth) steps = some world) :
    world.Tracked := by
  refine (StepRun.run_invariant_along
    (fun world => world.Tracked ∧ world.Settled) ChangesIdle ?_
    ⟨tracked_created growth, ?_⟩ hidle hrun).1
  · intro s event next hinv hidle hstep
    exact ⟨hinv.1.step (hinv.2.orderly hidle) hstep,
      hinv.2.step hinv.1 hidle hstep⟩
  · intro object impl hlive
    cases hlive

/-! ## Objects which no timer knows -/

/-- The step takes the `impl_` of the object away. -/
def Strips (world : ManagerWorld α) (event : ManagerStep α)
    (object : ℕ) : Prop :=
  match event with
  | .destroy target => object = target
  | .moveConstruct _ other => object = other
  | .moveAssign target other => target ≠ other ∧
      (object = other ∨
        object = target ∧ world.objects other = .empty)
  | .create _ | .op .. | .setEventLoop .. | .schedule ..
  | .processTimers .. => False

/-- No timer which has not been cancelled calls back an object whose `impl_` a
step takes away. -/
def Unreferenced (world : ManagerWorld α) (event : ManagerStep α) : Prop :=
  (world.step event).isSome → ∀ object, Strips world event object →
    ∀ index id capture key, world.Pending index id capture key →
      capture.object ≠ object

theorem Owned.putPass (howned : world.Owned) {index : ℕ}
    {loop : TimeoutLoop α} {s : ManagerSet α}
    (hpending : ∀ id capture key,
      PendingIn loop (world.captures index) id capture key →
        world.Pending index id capture key)
    (hlive : ∀ object, (∃ impl, world.objects object = .live impl) →
      ∃ impl, s.objects object = .live impl) :
    (world.putPass index loop s).Owned := by
  intro other id capture key hnext
  rw [pending_putPass] at hnext
  split at hnext
  next => exact hlive _ (howned _ _ _ _ (hpending _ _ _ hnext))
  next => exact hlive _ (howned _ _ _ _ hnext)

theorem live_firedSet {object : ℕ} {impl : ManagerImpl α} {now : ℤ}
    {lambda : TimeoutLambda α} {id start : ℕ} (object' : ℕ)
    (hlive : ∃ impl, world.objects object' = .live impl) :
    ∃ impl', (world.firedSet object impl now lambda id start).objects
      object' = .live impl' := by
  unfold firedSet
  dsimp only
  by_cases hobject : object' = object
  · rw [hobject, Function.update_self]
    exact ⟨_, rfl⟩
  · rw [Function.update_of_ne hobject]
    exact hlive

theorem Owned.serve (howned : world.Owned) (hkept : world.WellKept)
    {object : ℕ} {impl : ManagerImpl α}
    (hlive : world.objects object = .live impl) (op : TimeoutOp α) :
    (world.serve object impl op).WellKept ∧
      (world.serve object impl op).Owned := by
  rcases serve_spec hkept hlive op with ⟨new, ids, hserved⟩
  refine ⟨hserved.kept, fun index id capture key hpending => ?_⟩
  rcases (hserved.pending_iff _ _ _ _).mp hpending with
    ⟨_, _, _, rfl⟩ | ⟨hold, _⟩
  · exact hserved.live object ⟨impl, hlive⟩
  · exact hserved.live _ (howned _ _ _ _ hold)

/-- A due timer of a manager finds the object which it has captured. -/
theorem Owned.fired (howned : world.Owned) (hkept : world.WellKept)
    {index position : ℕ} {now : ℤ} {timer : TimerEntry (LoopCallback α)}
    (hposition : (world.loops index).timers.elems[position]? = some timer)
    (hdue : isDue now timer = true) :
    ∃ s, fire (world.captures index) now timer.callback timer.id
        world.toManagerSet = some s ∧
      (world.putPass index
        ((world.loops index).settleAt now position timer) s).WellKept ∧
      (world.putPass index
        ((world.loops index).settleAt now position timer) s).Owned := by
  have hordered := hkept.ordered index
  have hmem := List.mem_of_getElem? hposition
  have hsettled := Ordered.settleAt hordered now position hposition
  have hshot := oneShot_settleAt now (hkept.oneShot index) hordered
    hposition
  cases hcallback : timer.callback with
  | other =>
      refine ⟨world.toManagerSet, rfl,
        hkept.of_loop hsettled hshot hkept.keyed,
        howned.putPass (fun _ _ _ => ?_) fun _ hlive => hlive⟩
      exact (pendingIn_settleAt_other hordered hposition hcallback).mp
  | timeout lambda =>
      have hretires := retires_settleAt now hordered hposition
        (hkept.oneShot index timer hmem lambda hcallback)
      rcases howned index timer.id (world.captures index timer.id)
        (makeKey lambda.handle lambda.type)
        ⟨timer, hmem, rfl, (isDue_iff.mp hdue).1, rfl, lambda, hcallback,
          rfl⟩ with ⟨impl, hlive⟩
      refine ⟨_, fire_eq hlive, hkept.of_loop hsettled hshot
        (keyed_firedSet hkept hlive),
        howned.putPass (fun _ _ _ hpending => ?_) live_firedSet⟩
      exact ((pendingIn_retires hretires).mp hpending).1

theorem withstands_owned (index : ℕ) (now : ℤ) :
    Withstands (fun world : ManagerWorld α =>
      world.WellKept ∧ world.Owned) index now where
  record := fun _ event hinv =>
    ⟨hinv.1.of_loop ((hinv.1.ordered index).record event)
      (hinv.1.oneShot index) hinv.1.keyed,
      hinv.2.putPass (fun _ _ _ hpending => hpending) fun _ hlive => hlive⟩
  fire := fun _ _ _ hinv hposition hdue =>
    hinv.2.fired hinv.1 hposition hdue
  remove := fun _ hinv =>
    ⟨hinv.1.of_loop (hinv.1.ordered index).removeCancelled
      (oneShot_removeCancelled (hinv.1.oneShot index)) hinv.1.keyed,
      hinv.2.putPass (fun _ _ _ => pendingIn_removeCancelled.mp)
        fun _ hlive => hlive⟩

/-- What a step takes the `impl_` from has none after it, and the timers are
left as they are. -/
theorem stripped_of_step {event : ManagerStep α}
    (hstep : world.step event = some next) {object : ℕ}
    (hstrips : Strips world event object) :
    (∀ impl, next.objects object ≠ .live impl) ∧
      ∀ index id capture key, world.Pending index id capture key →
        next.Pending index id capture key := by
  cases takes_of_step hstep with
  | created => exact hstrips.elim
  | refused => exact hstrips.elim
  | served => exact hstrips.elim
  | ignored => exact hstrips.elim
  | switched => exact hstrips.elim
  | scheduled => exact hstrips.elim
  | passed => exact hstrips.elim
  | constructed =>
      cases hstrips
      rw [objects_takeOver_self]
      exact ⟨by simp, fun _ _ _ _ hpending => hpending⟩
  | unchanged => exact absurd rfl hstrips.1
  | assigned hne =>
      refine ⟨?_, fun _ _ _ _ hpending => hpending⟩
      rcases hstrips.2 with rfl | ⟨rfl, hempty⟩
      · rw [objects_takeOver_self]
        simp
      · rw [objects_takeOver hne, hempty]
        simp
  | destroyed =>
      cases hstrips
      rw [objects_setObject]
      exact ⟨by simp, fun _ _ _ _ hpending => hpending⟩

/-- An object changes which no timer calls back, or which keeps an
`impl_`. -/
theorem Owned.setObject (howned : world.Owned) {object : ℕ}
    {value : ManagerObject α}
    (hvalue : (∃ impl, value = .live impl) ∨
      ∀ index id capture key, world.Pending index id capture key →
        capture.object ≠ object) :
    (world.setObject object value).Owned := by
  intro index id capture key hpending
  have hbefore : world.Pending index id capture key := hpending
  by_cases hobject : capture.object = object
  · rcases hvalue with hlive | hfree
    · rw [hobject, objects_setObject]
      exact hlive
    · exact absurd hobject (hfree _ _ _ _ hbefore)
  · rw [objects_setObject_of_ne hobject]
    exact howned _ _ _ _ hbefore

theorem Owned.step (howned : world.Owned) (hkept : world.WellKept)
    {event : ManagerStep α} (hfree : world.Unreferenced event)
    (hstep : world.step event = some next) :
    next.WellKept ∧ next.Owned := by
  have hsome : (world.step event).isSome := by
    rw [hstep]
    rfl
  have hstripped := hfree hsome
  cases takes_of_step hstep with
  | created =>
      refine ⟨hkept.setObject ?_, howned.setObject (.inl ⟨_, rfl⟩)⟩
      intro impl hlive
      cases hlive
      exact keyed_empty
  | refused => exact ⟨hkept, howned⟩
  | served op hlive => exact howned.serve hkept hlive op
  | ignored => exact ⟨hkept, howned⟩
  | switched loop hlive =>
      have hkeyed := hkept.keyed _ _ hlive
      refine ⟨hkept.setObject ?_, howned.setObject (.inl ⟨_, rfl⟩)⟩
      intro impl hlive'
      cases hlive'
      exact hkeyed
  | scheduled index now delay interval repeating =>
      refine ⟨hkept.of_loop ((hkept.ordered index).addTimer _)
        (oneShot_addTimer (by simp) (hkept.oneShot index)) hkept.keyed,
        howned.putPass (fun _ _ _ => ?_) fun _ hlive => hlive⟩
      exact (pendingIn_other now delay interval repeating).mp
  | passed =>
      rcases pass_meets (withstands_owned _ _) ⟨hkept, howned⟩ with
        ⟨other, hother, hafter⟩
      have hsame : some next = some other := hstep.symm.trans hother
      cases hsame
      exact hafter
  | constructed habsent =>
      refine ⟨hkept.takeOver, (howned.setObject (.inr ?_)).setObject
        (.inr (hstripped _ rfl))⟩
      -- No timer calls back an object which is not there yet.
      rintro index id capture key hpending rfl
      rcases howned _ _ _ _ hpending with ⟨impl, hlive⟩
      rw [habsent] at hlive
      cases hlive
  | unchanged => exact ⟨hkept, howned⟩
  | @assigned object other hne _ hother =>
      refine ⟨hkept.takeOver, (howned.setObject ?_).setObject
        (.inr (hstripped other ⟨hne, .inl rfl⟩))⟩
      cases hvalue : world.objects other with
      | absent => exact absurd hvalue hother
      | empty => exact .inr (hstripped object ⟨hne, .inr ⟨rfl, hvalue⟩⟩)
      | live impl => exact .inl ⟨impl, rfl⟩
  | destroyed =>
      exact ⟨hkept.setObject (by simp),
        howned.setObject (.inr (hstripped _ rfl))⟩

theorem passesDefined_of_owned (hkept : world.WellKept)
    (howned : world.Owned) : world.PassesDefined := by
  intro index now
  rcases pass_meets (withstands_owned index now) ⟨hkept, howned⟩ with
    ⟨next, hpass, _⟩
  exact Option.isSome_iff_exists.mpr ⟨next, hpass⟩

/-! ## Runs -/

/-- In every state which the steps come to, the timers find the objects which
they call back. -/
def TimersOwned (growth : ℕ → ℕ → ℕ) (steps : List (ManagerStep α)) :
    Prop :=
  ∀ before world, before <+: steps →
    StepRun.run step (created growth) before = some world →
      world.Owned ∧ world.PassesDefined

theorem timersOwned_iff_unreferenced {growth : ℕ → ℕ → ℕ}
    {steps : List (ManagerStep α)} :
    TimersOwned growth steps ↔
      StepRun.Along step Unreferenced (created growth) steps := by
  constructor
  · intro howned
    rw [StepRun.along_iff_prefix]
    intro before event middle hprefix hrun hsome object hstrips index id
      capture key hpending hobject
    rcases Option.isSome_iff_exists.mp hsome with ⟨next, hstep⟩
    have hnext : StepRun.run step (created growth) (before ++ [event]) =
        some next :=
      StepRun.run_append_eq_some.mpr
        ⟨middle, hrun, (StepRun.run_singleton _ _).trans hstep⟩
    rcases stripped_of_step hstep hstrips with ⟨hgone, hkept⟩
    rcases (howned _ next hprefix hnext).1 _ _ _ _
      (hkept _ _ _ _ hpending) with ⟨impl, hlive⟩
    rw [hobject] at hlive
    exact hgone impl hlive
  · rintro halong before world ⟨after, rfl⟩ hrun
    have hinv := StepRun.run_invariant_along
      (fun world => world.WellKept ∧ world.Owned) Unreferenced
      (fun _ _ _ hinv hfree hstep => hinv.2.step hinv.1 hfree hstep)
      ⟨(tracked_created growth).kept, (tracked_created growth).owned⟩
      halong.append.1 hrun
    exact ⟨hinv.2, passesDefined_of_owned hinv.1 hinv.2⟩

/-- No timer is left with an object which has gone, exactly when no object is
destroyed or moved from while a timer calls it back; so not when managers
change only while they have no active timeout with a timer. -/
theorem timersOwned_iff (growth : ℕ → ℕ → ℕ)
    (steps : List (ManagerStep α)) :
    (TimersOwned growth steps ↔
        StepRun.Along step Unreferenced (created growth) steps) ∧
      (StepRun.Along step ChangesIdle (created growth) steps →
        TimersOwned growth steps) := by
  refine ⟨timersOwned_iff_unreferenced, ?_⟩
  rintro hidle before world ⟨after, rfl⟩ hrun
  have htracked := tracked_of_idle hidle.append.1 hrun
  exact ⟨htracked.owned, htracked.passesDefined⟩

theorem not_timersOwned {growth : ℕ → ℕ → ℕ} {steps : List (ManagerStep α)}
    {index : ℕ} {now : ℤ}
    (hrun : (StepRun.run step (created growth) steps).isSome)
    (hpass : (StepRun.run step (created growth)
      (steps ++ [.processTimers index now])).isNone) :
    ¬TimersOwned growth steps := by
  intro howned
  rcases Option.isSome_iff_exists.mp hrun with ⟨world, hworld⟩
  have hdefined := (howned steps world (List.prefix_refl _) hworld).2 index
    now
  rcases Option.isSome_iff_exists.mp hdefined with ⟨next, hnext⟩
  have hboth : StepRun.run step (created growth)
      (steps ++ [.processTimers index now]) = some next :=
    StepRun.run_append_eq_some.mpr
      ⟨world, hworld, (StepRun.run_singleton _ _).trans hnext⟩
  rw [hboth] at hpass
  cases hpass

/-- A timeout with a timer in a loop, and a step after it. -/
def startedThen (step : ManagerStep ℕ) : List (ManagerStep ℕ) :=
  [.create 0, .setEventLoop 0 (some 0),
    .op 0 (.start 0 7 .read 1 (.call 0)), step]

/-- The timer fires after its manager has been destroyed, or has been moved
to another object. -/
theorem not_timersOwned_started :
    ¬TimersOwned (fun _ size => 2 * size) (startedThen (.destroy 0)) ∧
      ¬TimersOwned (fun _ size => 2 * size)
        (startedThen (.moveConstruct 1 0)) := by
  have hdestroyed : (StepRun.run step (created fun _ size => 2 * size)
      (startedThen (.destroy 0))).isSome := by decide +kernel
  have hmoved : (StepRun.run step (created fun _ size => 2 * size)
      (startedThen (.moveConstruct 1 0))).isSome := by decide +kernel
  have hundefined : (StepRun.run step (created fun _ size => 2 * size)
      (startedThen (.destroy 0) ++ [.processTimers 0 1000000])).isNone := by
    decide +kernel
  have hundefined' : (StepRun.run step (created fun _ size => 2 * size)
      (startedThen (.moveConstruct 1 0) ++
        [.processTimers 0 1000000])).isNone := by
    decide +kernel
  exact ⟨not_timersOwned hdestroyed hundefined,
    not_timersOwned hmoved hundefined'⟩

end ManagerWorld

end VynxHttp
