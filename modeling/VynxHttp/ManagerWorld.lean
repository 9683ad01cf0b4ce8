import VynxHttp.TimeoutEffects

/-!
# Managers among event loops

`timeout_manager` objects, which are created, moved and destroyed, and the
loops to which they may be pointed.  A manager is kept by its object, so a move
takes it to another one, whereas the lambda of a timer keeps the object for
which it was scheduled: `this`.
-/

namespace VynxHttp

open LoopTimers

/-- The object which a lambda has captured, and the start which has scheduled
it.  Starts are numbered as they come. -/
structure Capture where
  object : ℕ
  start : ℕ
  deriving DecidableEq, Repr

/-- The start of an entry, and the loop to which the manager was pointed
then. -/
structure TimeoutOrigin where
  start : ℕ
  loop : Option ℕ
  deriving DecidableEq, Repr

/-- `timeout_manager::impl`, with the origins of its entries. -/
structure ManagerImpl (α : Type*) where
  manager : TimeoutManager α := {}
  loop : Option ℕ := none
  origins : UInt64 → TimeoutOrigin := fun _ => ⟨0, none⟩

/-- An object which has been moved from has no `impl_` any more. -/
inductive ManagerObject (α : Type*) where
  | absent
  | empty
  | live (impl : ManagerImpl α)

/-- An operation ends some starts, and cancels the timers of some starts and of
other owners; the timer of a start deactivates the entry of a start, and may
run its callback. -/
inductive ManagerEvent where
  | served (ended : List ℕ) (cancelled : List (Option ℕ))
  | fired (timer entry : ℕ) (called : Bool)
  deriving DecidableEq, Repr

/-- The objects and what has happened, the latest first. -/
structure ManagerSet (α : Type*) where
  objects : ℕ → ManagerObject α := fun _ => .absent
  log : List ManagerEvent := []

structure ManagerWorld (α : Type*) extends ManagerSet α where
  loops : ℕ → TimeoutLoop α
  captures : ℕ → ℕ → Capture := fun _ _ => ⟨0, 0⟩
  starts : ℕ := 0

inductive ManagerStep (α : Type*) where
  | create (object : ℕ)
  | op (object : ℕ) (op : TimeoutOp α)
  | setEventLoop (object : ℕ) (loop : Option ℕ)
  | schedule (loop : ℕ) (now delay interval : ℤ) (repeating : Bool)
  | processTimers (loop : ℕ) (now : ℤ)
  | moveConstruct (object other : ℕ)
  | moveAssign (object other : ℕ)
  | destroy (object : ℕ)

variable {α : Type*}

def TimeoutLambda.hasCallback (lambda : TimeoutLambda α) : Bool :=
  match lambda.callback with
  | .empty => false
  | .noop | .call _ => true

/-! ## Operations -/

namespace ManagerImpl

/-- The starts whose timeouts an operation cancels or replaces. -/
def endedBy (impl : ManagerImpl α) (op : TimeoutOp α) : List ℕ :=
  (impl.manager.entries.rows.filter fun row =>
    row.2.active && op.ends row.2.handle row.2.type).map fun row =>
      (impl.origins row.1).start

/-- The manager after an operation which is the start of a number, if it is a
start. -/
def serve (impl : ManagerImpl α) (manager : TimeoutManager α)
    (op : TimeoutOp α) (start : ℕ) : ManagerImpl α where
  manager := manager
  loop := impl.loop
  origins :=
    match op.startedKey with
    | none => impl.origins
    | some key => Function.update impl.origins key ⟨start, impl.loop⟩

end ManagerImpl

namespace ManagerWorld

/-- The timers which are cancelled only after an operation. -/
def newlyCancelled (before after : TimeoutLoop α) :
    List (TimerEntry (LoopCallback α)) :=
  before.timers.elems.filter fun timer =>
    !timer.cancelled && after.timers.elems.any fun other =>
      other.id == timer.id && other.cancelled

def startOf (captures : ℕ → Capture)
    (timer : TimerEntry (LoopCallback α)) : Option ℕ :=
  match timer.callback with
  | .timeout _ => some (captures timer.id).start
  | .other => none

def applied (world : ManagerWorld α) (impl : ManagerImpl α)
    (op : TimeoutOp α) :
    TimeoutManager α × Option (TimeoutLoop α) × Result Unit :=
  impl.manager.apply (impl.loop.map world.loops) op

/-- An operation of a live object.  If it schedules a timer, then the next
one. -/
def serve (world : ManagerWorld α) (object : ℕ) (impl : ManagerImpl α)
    (op : TimeoutOp α) : ManagerWorld α :=
  let applied := world.applied impl op
  let objects := Function.update world.objects object
    (.live (impl.serve applied.1 op world.starts))
  let starts := world.starts + op.starts applied.2.2
  match impl.loop, applied.2.1 with
  | some index, some loop =>
      { objects := objects
        log := .served (impl.endedBy op)
          ((newlyCancelled (world.loops index) loop).map
            (startOf (world.captures index))) :: world.log
        loops := Function.update world.loops index loop
        captures := Function.update world.captures index
          (Function.update (world.captures index)
            (world.loops index).nextTimerId ⟨object, world.starts⟩)
        starts := starts }
  | _, _ =>
      { world with
        objects := objects
        log := .served (impl.endedBy op) [] :: world.log
        starts := starts }

/-! ## Passes -/

/-- What the lambda of a start deactivates. -/
def firedBy (impl : ManagerImpl α) (lambda : TimeoutLambda α)
    (start : ℕ) : List ManagerEvent :=
  let key := makeKey lambda.handle lambda.type
  match impl.manager.entries.find? key with
  | none => []
  | some entry =>
      if entry.active then
        [.fired start (impl.origins key).start lambda.hasCallback]
      else []

/-- A callback of the timers of a loop.  It is undefined when `impl_` is
missing. -/
def fire (captures : ℕ → Capture) (now : ℤ) (callback : LoopCallback α)
    (timer : ℕ) (s : ManagerSet α) : Option (ManagerSet α) :=
  match callback with
  | .other => some s
  | .timeout lambda =>
      match s.objects (captures timer).object with
      | .absent | .empty => none
      | .live impl =>
          some
            { objects := Function.update s.objects (captures timer).object
                (.live { impl with
                  manager := impl.manager.runLambda now lambda timer })
              log := firedBy impl lambda (captures timer).start ++ s.log }

def calling (captures : ℕ → Capture) (now : ℤ) (callback : LoopCallback α)
    (timer : ℕ) (t : TimeoutLoop α × Option (ManagerSet α)) :
    TimeoutLoop α × Option (ManagerSet α) :=
  (t.1, t.2.bind (fire captures now callback timer))

/-- The world with what a pass has made of a loop and of the managers. -/
def putPass (world : ManagerWorld α) (index : ℕ) (loop : TimeoutLoop α)
    (s : ManagerSet α) : ManagerWorld α :=
  { world with
    toManagerSet := s
    loops := Function.update world.loops index loop }

def pass (world : ManagerWorld α) (index : ℕ) (now : ℤ) :
    Option (ManagerWorld α) :=
  (processTimers (calling (world.captures index) now) now
    (world.loops index, some world.toManagerSet)).bind fun t =>
      t.2.map (world.putPass index t.1)

/-! ## Steps -/

def setObject (world : ManagerWorld α) (object : ℕ)
    (value : ManagerObject α) : ManagerWorld α :=
  { world with objects := Function.update world.objects object value }

/-- The object gets the `impl_` of another one, which keeps none. -/
def takeOver (world : ManagerWorld α) (object other : ℕ) : ManagerWorld α :=
  (world.setObject object (world.objects other)).setObject other .empty

/-- A step is undefined when it is about an object which is not there, when it
creates one which is, and when a callback is undefined.  Without `impl_` an
operation is refused. -/
def step (world : ManagerWorld α) : ManagerStep α → Option (ManagerWorld α)
  | .create object =>
      match world.objects object with
      | .absent => some (world.setObject object (.live {}))
      | .empty | .live _ => none
  | .op object op =>
      match world.objects object with
      | .absent => none
      | .empty => some world
      | .live impl => some (world.serve object impl op)
  | .setEventLoop object loop =>
      match world.objects object with
      | .absent => none
      | .empty => some world
      | .live impl => some (world.setObject object (.live { impl with loop }))
  | .schedule index now delay interval repeating =>
      some { world with
        loops := Function.update world.loops index ((world.loops
          index).addTimer ⟨now, delay, interval, .other, repeating⟩).1 }
  | .processTimers index now => world.pass index now
  | .moveConstruct object other =>
      match world.objects object, world.objects other with
      | .absent, .empty | .absent, .live _ =>
          some (world.takeOver object other)
      | _, _ => none
  | .moveAssign object other =>
      match world.objects object, world.objects other with
      | .absent, _ | _, .absent => none
      | _, _ => some (if object = other then world
          else world.takeOver object other)
  | .destroy object =>
      match world.objects object with
      | .absent => none
      | .empty | .live _ => some (world.setObject object .absent)

/-- Loops without timers, and no manager yet. -/
def created (growth : ℕ → ℕ → ℕ) : ManagerWorld α where
  loops := fun index => LoopTimers.create (growth index)

/-! ## What a step can do -/

inductive Takes (world : ManagerWorld α) :
    ManagerStep α → ManagerWorld α → Prop where
  | created {object : ℕ} (habsent : world.objects object = .absent) :
      Takes world (.create object) (world.setObject object (.live {}))
  | refused {object : ℕ} (op : TimeoutOp α)
      (hempty : world.objects object = .empty) :
      Takes world (.op object op) world
  | served {object : ℕ} {impl : ManagerImpl α} (op : TimeoutOp α)
      (hlive : world.objects object = .live impl) :
      Takes world (.op object op) (world.serve object impl op)
  | ignored {object : ℕ} (loop : Option ℕ)
      (hempty : world.objects object = .empty) :
      Takes world (.setEventLoop object loop) world
  | switched {object : ℕ} {impl : ManagerImpl α} (loop : Option ℕ)
      (hlive : world.objects object = .live impl) :
      Takes world (.setEventLoop object loop)
        (world.setObject object (.live { impl with loop }))
  | scheduled (index : ℕ) (now delay interval : ℤ) (repeating : Bool) :
      Takes world (.schedule index now delay interval repeating)
        (world.putPass index ((world.loops index).addTimer
          ⟨now, delay, interval, .other, repeating⟩).1 world.toManagerSet)
  | passed {index : ℕ} {now : ℤ} {next : ManagerWorld α}
      (hpass : world.pass index now = some next) :
      Takes world (.processTimers index now) next
  | constructed {object other : ℕ}
      (habsent : world.objects object = .absent)
      (hother : world.objects other ≠ .absent) :
      Takes world (.moveConstruct object other) (world.takeOver object other)
  | unchanged {object : ℕ} :
      Takes world (.moveAssign object object) world
  | assigned {object other : ℕ} (hne : object ≠ other)
      (hobject : world.objects object ≠ .absent)
      (hother : world.objects other ≠ .absent) :
      Takes world (.moveAssign object other) (world.takeOver object other)
  | destroyed {object : ℕ} (hobject : world.objects object ≠ .absent) :
      Takes world (.destroy object) (world.setObject object .absent)

theorem takes_of_step {world next : ManagerWorld α} {event : ManagerStep α}
    (hstep : world.step event = some next) : Takes world event next := by
  cases event with
  | create object =>
      cases hobject : world.objects object <;>
        simp only [step, hobject, reduceCtorEq, Option.some.injEq] at hstep
      subst hstep
      exact .created hobject
  | op object op =>
      cases hobject : world.objects object <;>
        simp only [step, hobject, reduceCtorEq, Option.some.injEq] at hstep
      · subst hstep
        exact .refused op hobject
      · subst hstep
        exact .served op hobject
  | setEventLoop object loop =>
      cases hobject : world.objects object <;>
        simp only [step, hobject, reduceCtorEq, Option.some.injEq] at hstep
      · subst hstep
        exact .ignored loop hobject
      · subst hstep
        exact .switched loop hobject
  | schedule index now delay interval repeating =>
      simp only [step, Option.some.injEq] at hstep
      subst hstep
      exact .scheduled index now delay interval repeating
  | processTimers index now => exact .passed hstep
  | moveConstruct object other =>
      cases hobject : world.objects object <;>
        cases hother : world.objects other <;>
        simp only [step, hobject, hother, reduceCtorEq,
          Option.some.injEq] at hstep
      all_goals
        subst hstep
        exact .constructed hobject (by simp [hother])
  | moveAssign object other =>
      by_cases hne : object = other
      · subst hne
        cases hobject : world.objects object <;>
          simp only [step, hobject, reduceCtorEq, ↓reduceIte,
            Option.some.injEq] at hstep
        all_goals
          subst hstep
          exact .unchanged
      · cases hobject : world.objects object <;>
          cases hother : world.objects other <;>
          simp only [step, hobject, hother, hne, reduceCtorEq, ↓reduceIte,
            Option.some.injEq] at hstep
        all_goals
          subst hstep
          exact .assigned hne (by simp [hobject]) (by simp [hother])
  | destroy object =>
      cases hobject : world.objects object <;>
        simp only [step, hobject, reduceCtorEq, Option.some.injEq] at hstep
      all_goals
        subst hstep
        exact .destroyed (by simp [hobject])

end ManagerWorld

end VynxHttp
