import VynxHttp.ManagerWorld

/-!
# Pending timers and running timeouts

What the steps of a world do to the timers which have not been cancelled and to
the active entries of the managers.  The two are described with the same data:
a loop and a timer, an object and a start, and a key.
-/

namespace VynxHttp

open LoopTimers TimeoutManager

variable {α : Type*}

/-- A timer which has not been cancelled will call back an object. -/
def PendingIn (loop : TimeoutLoop α) (captures : ℕ → Capture) (id : ℕ)
    (capture : Capture) (key : UInt64) : Prop :=
  ∃ timer ∈ loop.timers.elems, timer.id = id ∧ timer.cancelled = false ∧
    captures id = capture ∧
    ∃ lambda, timer.callback = .timeout lambda ∧
      makeKey lambda.handle lambda.type = key

/-- The timers of managers do not repeat. -/
def OneShot (loop : TimeoutLoop α) : Prop :=
  ∀ timer ∈ loop.timers.elems, ∀ lambda, timer.callback = .timeout lambda →
    timer.repeating = false

/-! ## The timers of one loop -/

section

variable {loop loop' : TimeoutLoop α} {captures captures' : ℕ → Capture}
  {id : ℕ} {capture : Capture} {key : UInt64}

theorem PendingIn.valid (hpending : PendingIn loop captures id capture key)
    (hordered : loop.Ordered) : id ≠ invalidTimerId := by
  rcases hpending with ⟨timer, hmem, rfl, _⟩
  exact hordered.valid timer hmem

/-- A timer is in a list once. -/
theorem PendingIn.eq {capture' : Capture} {key' : UInt64}
    (hpending : PendingIn loop captures id capture key)
    (hpending' : PendingIn loop captures id capture' key')
    (hordered : loop.Ordered) : capture = capture' ∧ key = key' := by
  rcases hpending with ⟨timer, hmem, hid, _, hcapture, lambda, hlambda, hkey⟩
  rcases hpending' with
    ⟨other, hother, hid', _, hcapture', lambda', hlambda', hkey'⟩
  have hsame := hordered.eq_of_id hmem hother (hid.trans hid'.symm)
  subst hsame
  rw [hlambda, LoopCallback.timeout.injEq] at hlambda'
  subst hlambda'
  exact ⟨hcapture.symm.trans hcapture', hkey.symm.trans hkey'⟩

theorem pendingIn_congr
    (helems : loop'.timers.elems = loop.timers.elems)
    (hordered : loop.Ordered)
    (hcaptures : ∀ id < loop.nextTimerId, captures' id = captures id) :
    PendingIn loop' captures' id capture key ↔
      PendingIn loop captures id capture key := by
  unfold PendingIn
  rw [helems]
  refine exists_congr fun timer => and_congr_right fun hmem =>
    and_congr_right fun hid => and_congr_right fun _ => ?_
  rw [hcaptures id (hid ▸ hordered.below timer hmem)]

theorem pendingIn_retires {ids : List ℕ}
    (hretires : Retires ids loop loop') :
    PendingIn loop' captures id capture key ↔
      PendingIn loop captures id capture key ∧ id ∉ ids := by
  unfold PendingIn
  rw [hretires.elems]
  constructor
  · rintro ⟨timer', hmem', hid, hactive, hrest⟩
    rcases List.mem_map.mp hmem' with ⟨timer, hmem, rfl⟩
    rw [cancelIn_id] at hid
    by_cases hin : timer.id ∈ ids
    · simp [cancelIn, hin] at hactive
    · have hsame : cancelIn ids timer = timer := if_neg hin
      rw [hsame] at hactive hrest
      exact ⟨⟨timer, hmem, hid, hactive, hrest⟩, hid ▸ hin⟩
  · rintro ⟨⟨timer, hmem, hid, hrest⟩, hout⟩
    have hsame : cancelIn ids timer = timer := if_neg (hid ▸ hout)
    exact ⟨timer, List.mem_map.mpr ⟨timer, hmem, hsame⟩, hid, hrest⟩

theorem pendingIn_schedule (hordered : loop.Ordered) (now duration : ℤ)
    (lambda : TimeoutLambda α) (latest : Capture) :
    PendingIn (loop.scheduleTimer now duration (.timeout lambda) false).1
        (Function.update captures loop.nextTimerId latest) id capture key ↔
      (id = loop.nextTimerId ∧ capture = latest ∧
          makeKey lambda.handle lambda.type = key) ∨
        PendingIn loop captures id capture key := by
  unfold PendingIn scheduleTimer
  rw [elems_addTimer]
  constructor
  · rintro ⟨timer, hmem, hid, hactive, hcapture, other, hcallback, hkey⟩
    rw [List.mem_append, List.mem_singleton] at hmem
    rcases hmem with hold | rfl
    · have hlt := hordered.below timer hold
      rw [Function.update_of_ne (by omega)] at hcapture
      exact .inr
        ⟨timer, hold, hid, hactive, hcapture, other, hcallback, hkey⟩
    · have hnew : loop.nextTimerId = id := hid
      have hsame : lambda = other := by
        simpa [TimerRequest.entry] using hcallback
      subst hsame
      rw [← hnew, Function.update_self] at hcapture
      exact .inl ⟨hnew.symm, hcapture.symm, hkey⟩
  · rintro (⟨rfl, rfl, rfl⟩ | ⟨timer, hold, hid, hactive, hcapture, hrest⟩)
    · exact ⟨_, List.mem_append_right _ (List.mem_singleton_self _), rfl,
        rfl, Function.update_self .., lambda, rfl, rfl⟩
    · have hlt := hordered.below timer hold
      refine ⟨timer, List.mem_append_left _ hold, hid, hactive, ?_, hrest⟩
      rw [Function.update_of_ne (by omega)]
      exact hcapture

theorem pendingIn_other (now delay interval : ℤ) (repeating : Bool) :
    PendingIn (loop.addTimer ⟨now, delay, interval, .other, repeating⟩).1
        captures id capture key ↔
      PendingIn loop captures id capture key := by
  unfold PendingIn
  rw [elems_addTimer]
  constructor
  · rintro ⟨timer, hmem, hid, hactive, hcapture, lambda, hcallback, hkey⟩
    rw [List.mem_append, List.mem_singleton] at hmem
    rcases hmem with hold | rfl
    · exact ⟨timer, hold, hid, hactive, hcapture, lambda, hcallback, hkey⟩
    · simp [TimerRequest.entry] at hcallback
  · rintro ⟨timer, hold, hrest⟩
    exact ⟨timer, List.mem_append_left _ hold, hrest⟩

theorem pendingIn_removeCancelled :
    PendingIn loop.removeCancelled captures id capture key ↔
      PendingIn loop captures id capture key := by
  unfold PendingIn removeCancelled
  constructor
  · rintro ⟨timer, hmem, hrest⟩
    exact ⟨timer, (List.mem_filter.mp hmem).1, hrest⟩
  · rintro ⟨timer, hmem, hid, hactive, hrest⟩
    exact ⟨timer, List.mem_filter.mpr ⟨hmem, by simp [hactive]⟩, hid, hactive,
      hrest⟩

theorem oneShot_retires {ids : List ℕ} (hretires : Retires ids loop loop')
    (hshot : OneShot loop) : OneShot loop' := by
  intro timer' hmem' lambda hlambda
  rw [hretires.elems] at hmem'
  rcases List.mem_map.mp hmem' with ⟨timer, hmem, rfl⟩
  unfold cancelIn at hlambda ⊢
  split at hlambda
  next hin =>
    rw [if_pos hin]
    exact hshot timer hmem lambda hlambda
  next hout =>
    rw [if_neg hout]
    exact hshot timer hmem lambda hlambda

theorem oneShot_addTimer {request : TimerRequest (LoopCallback α)}
    (hrequest : ∀ lambda, request.callback = .timeout lambda →
      request.repeating = false) (hshot : OneShot loop) :
    OneShot (loop.addTimer request).1 := by
  intro timer hmem lambda hlambda
  rw [elems_addTimer, List.mem_append, List.mem_singleton] at hmem
  rcases hmem with hold | rfl
  · exact hshot timer hold lambda hlambda
  · exact hrequest lambda hlambda

theorem oneShot_removeCancelled (hshot : OneShot loop) :
    OneShot loop.removeCancelled :=
  fun timer hmem => hshot timer (List.mem_filter.mp hmem).1

end

namespace ManagerWorld

variable {world next : ManagerWorld α}

def Pending (world : ManagerWorld α) (index id : ℕ) (capture : Capture)
    (key : UInt64) : Prop :=
  PendingIn (world.loops index) (world.captures index) id capture key

/-- The object has an active entry at the key, with a timer and an origin. -/
def Running (world : ManagerWorld α) (object : ℕ) (key : UInt64) (timer : ℕ)
    (origin : TimeoutOrigin) : Prop :=
  ∃ impl, world.objects object = .live impl ∧
    impl.manager.RunsAt key timer ∧ impl.origins key = origin

/-- What holds in every world, however its managers are used. -/
structure WellKept (world : ManagerWorld α) : Prop where
  ordered : ∀ index, (world.loops index).Ordered
  oneShot : ∀ index, OneShot (world.loops index)
  keyed : ∀ object impl, world.objects object = .live impl →
    impl.manager.Keyed

theorem Running.of_live {object : ℕ} {impl : ManagerImpl α} {key : UInt64}
    {timer : ℕ} {origin : TimeoutOrigin}
    (hrunning : world.Running object key timer origin)
    (hlive : world.objects object = .live impl) :
    impl.manager.RunsAt key timer ∧ impl.origins key = origin := by
  rcases hrunning with ⟨other, hother, hruns, horigin⟩
  rw [hlive, ManagerObject.live.injEq] at hother
  subst hother
  exact ⟨hruns, horigin⟩

/-! ## Objects -/

section

variable {object other object' : ℕ} {value : ManagerObject α}
  {impl : ManagerImpl α} {key : UInt64} {timer : ℕ}
  {origin : TimeoutOrigin}

theorem objects_setObject :
    (world.setObject object value).objects object = value :=
  Function.update_self ..

theorem objects_setObject_of_ne (hne : object' ≠ object) :
    (world.setObject object value).objects object' =
      world.objects object' :=
  Function.update_of_ne hne ..

theorem running_setObject_of_ne (hne : object' ≠ object) :
    (world.setObject object value).Running object' key timer origin ↔
      world.Running object' key timer origin := by
  unfold Running
  rw [objects_setObject_of_ne hne]

theorem running_setObject_live :
    (world.setObject object (.live impl)).Running object key timer origin ↔
      impl.manager.RunsAt key timer ∧ impl.origins key = origin := by
  unfold Running
  rw [objects_setObject]
  constructor
  · rintro ⟨_, hlive, hrest⟩
    cases hlive
    exact hrest
  · exact fun hrest => ⟨impl, rfl, hrest⟩

theorem not_running_of_objects
    (hnone : ∀ impl, world.objects object ≠ .live impl) :
    ¬world.Running object key timer origin :=
  fun ⟨impl, hlive, _⟩ => hnone impl hlive

theorem objects_takeOver_self :
    (world.takeOver object other).objects other = .empty :=
  objects_setObject

theorem objects_takeOver (hne : object ≠ other) :
    (world.takeOver object other).objects object = world.objects other :=
  (objects_setObject_of_ne hne).trans objects_setObject

theorem objects_takeOver_of_ne (hne : object' ≠ object)
    (hne' : object' ≠ other) :
    (world.takeOver object other).objects object' = world.objects object' :=
  (objects_setObject_of_ne hne').trans (objects_setObject_of_ne hne)

end

end ManagerWorld

end VynxHttp
