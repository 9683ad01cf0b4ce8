import Mathlib.Algebra.Ring.Nat
import VynxHttp.KeyedTable
import VynxHttp.LoopTimers
import VynxHttp.Poller

/-!
# The timeout manager

`timeout_manager` keeps an entry for each pair of a handle and a type, and has
the event loop call it back through a timer.  The operations take the loop to
which the manager points, if there is one, and hand it back.
-/

namespace VynxHttp

inductive TimeoutType where
  | connect
  | read
  | write
  | idle
  deriving DecidableEq, Repr

def TimeoutType.value : TimeoutType → UInt32
  | .connect => 0
  | .read => 1
  | .write => 2
  | .idle => 3

/-- A `timeout_callback`.  `noop` is the one which `reset_idle` passes on. -/
inductive TimeoutCallback (α : Type*) where
  | empty
  | noop
  | call (callback : α)
  deriving DecidableEq, Repr

structure TimeoutEntry (α : Type*) where
  timer : ℕ
  handle : NativeHandle
  type : TimeoutType
  callback : TimeoutCallback α
  active : Bool
  deriving DecidableEq, Repr

/-- What the lambda captures which `start_timeout` schedules. -/
structure TimeoutLambda (α : Type*) where
  handle : NativeHandle
  type : TimeoutType
  callback : TimeoutCallback α
  deriving DecidableEq, Repr

/-- The callbacks of the timers of a loop: the manager's, and those of other
owners, which do not know the manager. -/
inductive LoopCallback (α : Type*) where
  | timeout (lambda : TimeoutLambda α)
  | other
  deriving DecidableEq, Repr

structure TimeoutStats where
  timeoutsFired : ℕ := 0
  timeoutsCancelled : ℕ := 0
  activeTimeouts : ℕ := 0
  deriving DecidableEq, Repr

/-- A call of a `timeout_callback`, made by a timer in a pass. -/
structure Invocation (α : Type*) where
  timer : ℕ
  now : ℤ
  handle : NativeHandle
  type : TimeoutType
  callback : TimeoutCallback α
  deriving DecidableEq, Repr

structure TimeoutManager (α : Type*) where
  entries : KeyedTable UInt64 (TimeoutEntry α) := .empty
  stats : TimeoutStats := {}
  invocations : List (Invocation α) := []

abbrev TimeoutLoop (α : Type*) := LoopTimers (LoopCallback α)

inductive TimeoutOp (α : Type*) where
  | start (now : ℤ) (handle : NativeHandle) (type : TimeoutType)
      (duration : ℤ) (callback : TimeoutCallback α)
  | cancel (handle : NativeHandle) (type : TimeoutType)
  | cancelAll (handle : NativeHandle)
  | resetIdle (now : ℤ) (handle : NativeHandle) (duration : ℤ)

def makeKey (handle : NativeHandle) (type : TimeoutType) : UInt64 :=
  handle.toInt64.toUInt64 * 10 + type.value.toUInt64

/-! ## Keys -/

theorem TimeoutType.value_lt (type : TimeoutType) : type.value.toNat < 4 := by
  cases type <;> decide

theorem TimeoutType.value_injective {type type' : TimeoutType}
    (hvalue : type.value.toNat = type'.value.toNat) : type = type' := by
  cases type <;> cases type' <;>
    first
    | rfl
    | simp [TimeoutType.value] at hvalue

/-- The arithmetic of keys, for the two signs of a handle. -/
theorem key_mod (bits value : ℕ) (hbits : bits < 2 ^ 32)
    (hvalue : value < 4) :
    (bits * 10 + value) % 2 ^ 64 = bits * 10 + value ∧
      ((bits + (2 ^ 64 - 2 ^ 32)) * 10 + value) % 2 ^ 64 =
        (2 ^ 64 - 10 * 2 ^ 32) + (bits * 10 + value) := by
  constructor
  · omega
  · omega

theorem toNat_makeKey (handle : NativeHandle) (type : TimeoutType) :
    (makeKey handle type).toNat =
      (if handle.toBitVec.msb then 2 ^ 64 - 10 * 2 ^ 32 else 0) +
        (handle.toBitVec.toNat * 10 + type.value.toNat) := by
  have hbits := handle.toBitVec.isLt
  have hkey := key_mod handle.toBitVec.toNat type.value.toNat hbits
    type.value_lt
  have hext : (makeKey handle type).toNat =
      ((handle.toBitVec.signExtend 64).toNat * 10 + type.value.toNat) %
        2 ^ 64 := by
    have hhandle : handle.toInt64.toUInt64.toNat =
        (handle.toBitVec.signExtend 64).toNat := rfl
    simp [makeKey, hhandle]
  have hsmall : handle.toBitVec.toNat % 2 ^ 64 = handle.toBitVec.toNat := by
    omega
  rw [hext, BitVec.toNat_signExtend, BitVec.toNat_setWidth, hsmall]
  split
  next => exact hkey.2
  next => rw [Nat.add_zero, hkey.1, Nat.zero_add]

theorem makeKey_injective {handle handle' : NativeHandle}
    {type type' : TimeoutType}
    (hkey : makeKey handle type = makeKey handle' type') :
    handle = handle' ∧ type = type' := by
  have hnat := congrArg UInt64.toNat hkey
  rw [toNat_makeKey, toNat_makeKey] at hnat
  have hbits := handle.toBitVec.isLt
  have hbits' := handle'.toBitVec.isLt
  have hvalue := type.value_lt
  have hvalue' := type'.value_lt
  have hsame : handle.toBitVec.toNat = handle'.toBitVec.toNat ∧
      type.value.toNat = type'.value.toNat := by
    split at hnat <;> split at hnat <;> omega
  exact ⟨Int32.toBitVec_inj.mp (BitVec.eq_of_toNat_eq hsame.1),
    TimeoutType.value_injective hsame.2⟩
/-! ## Operations -/

namespace TimeoutManager

variable {α : Type*}

def activeCount (manager : TimeoutManager α) : ℕ :=
  manager.entries.count fun entry => entry.active

def isActive (manager : TimeoutManager α) (handle : NativeHandle)
    (type : TimeoutType) : Bool :=
  (manager.entries.find? (makeKey handle type)).any fun entry =>
    entry.active

/-- `stats_.active_timeouts = count_active_in_map(entries)`. -/
def countActive (manager : TimeoutManager α) : TimeoutManager α :=
  { manager with
    stats := { manager.stats with activeTimeouts := manager.activeCount } }

/-- `cancel_timer` on the loop, if there is one and the entry has a timer. -/
def cancelLoopTimer (loop : Option (TimeoutLoop α)) (timer : ℕ) :
    Option (TimeoutLoop α) :=
  if timer = invalidTimerId then loop
  else loop.map fun loop => (loop.cancelTimer timer).1

/-- What is left of the active entry which a new timeout replaces. -/
def supersede (manager : TimeoutManager α) (loop : Option (TimeoutLoop α))
    (key : UInt64) : TimeoutManager α × Option (TimeoutLoop α) :=
  match manager.entries.find? key with
  | none => (manager, loop)
  | some entry =>
      if entry.active then
        ({ manager with
          stats := { manager.stats with
            timeoutsCancelled := manager.stats.timeoutsCancelled + 1 } },
          cancelLoopTimer loop entry.timer)
      else (manager, loop)

def scheduleLoopTimer (loop : Option (TimeoutLoop α)) (now duration : ℤ)
    (lambda : TimeoutLambda α) : Option (TimeoutLoop α) × ℕ :=
  match loop with
  | none => (none, invalidTimerId)
  | some loop =>
      let scheduled := loop.scheduleTimer now duration (.timeout lambda) false
      (some scheduled.1, scheduled.2)

def startTimeout (manager : TimeoutManager α)
    (loop : Option (TimeoutLoop α)) (now : ℤ) (handle : NativeHandle)
    (type : TimeoutType) (duration : ℤ) (callback : TimeoutCallback α) :
    TimeoutManager α × Option (TimeoutLoop α) × Result Unit :=
  let key := makeKey handle type
  let (manager, loop) := manager.supersede loop key
  let (loop, timer) := scheduleLoopTimer loop now duration
    ⟨handle, type, callback⟩
  let entry : TimeoutEntry α := ⟨timer, handle, type, callback, true⟩
  ({ manager with entries := manager.entries.set key entry }.countActive,
    loop, success)

def cancelTimeout (manager : TimeoutManager α)
    (loop : Option (TimeoutLoop α)) (handle : NativeHandle)
    (type : TimeoutType) :
    TimeoutManager α × Option (TimeoutLoop α) × Result Unit :=
  let key := makeKey handle type
  match manager.entries.find? key with
  | none => (manager, loop, .error .invalidArgument)
  | some entry =>
      if entry.active then
        ({ manager with
          entries := manager.entries.set key { entry with active := false }
          stats := { manager.stats with
            timeoutsCancelled :=
              manager.stats.timeoutsCancelled + 1 } }.countActive,
          cancelLoopTimer loop entry.timer, success)
      else (manager, loop, .error .invalidArgument)

/-- The test of the loop in `cancel_all`. -/
def cancels (handle : NativeHandle) (entry : TimeoutEntry α) : Bool :=
  entry.active && entry.handle == handle

def deactivate (handle : NativeHandle) (entry : TimeoutEntry α) :
    TimeoutEntry α :=
  if cancels handle entry then { entry with active := false } else entry

def cancelAll (manager : TimeoutManager α)
    (loop : Option (TimeoutLoop α)) (handle : NativeHandle) :
    TimeoutManager α × Option (TimeoutLoop α) × Result Unit :=
  let cancelled := manager.entries.values.filter (cancels handle)
  let loop := cancelled.foldl
    (fun loop entry => cancelLoopTimer loop entry.timer) loop
  ({ manager with
    entries := manager.entries.mapValues (deactivate handle)
    stats := { manager.stats with
      timeoutsCancelled :=
        manager.stats.timeoutsCancelled + cancelled.length } }.countActive,
    loop, success)

/-- The new timeout has a callback which does nothing. -/
def resetIdle (manager : TimeoutManager α)
    (loop : Option (TimeoutLoop α)) (now : ℤ) (handle : NativeHandle)
    (duration : ℤ) :
    TimeoutManager α × Option (TimeoutLoop α) × Result Unit :=
  let (manager, loop, result) := manager.cancelTimeout loop handle .idle
  match result with
  | .ok () => manager.startTimeout loop now handle .idle duration .noop
  | .error code =>
      if code = .invalidArgument then
        manager.startTimeout loop now handle .idle duration .noop
      else (manager, loop, .error code)

def apply (manager : TimeoutManager α) (loop : Option (TimeoutLoop α)) :
    TimeoutOp α → TimeoutManager α × Option (TimeoutLoop α) × Result Unit
  | .start now handle type duration callback =>
      manager.startTimeout loop now handle type duration callback
  | .cancel handle type => manager.cancelTimeout loop handle type
  | .cancelAll handle => manager.cancelAll loop handle
  | .resetIdle now handle duration =>
      manager.resetIdle loop now handle duration

/-! ## Timers which fire -/

def invoke (manager : TimeoutManager α) (now : ℤ) (timer : ℕ)
    (lambda : TimeoutLambda α) : TimeoutManager α :=
  match lambda.callback with
  | .empty => manager
  | .noop | .call _ =>
      { manager with
        invocations :=
          ⟨timer, now, lambda.handle, lambda.type, lambda.callback⟩ ::
            manager.invocations }

/-- The lambda which `start_timeout` schedules. -/
def runLambda (now : ℤ) (lambda : TimeoutLambda α) (timer : ℕ)
    (manager : TimeoutManager α) : TimeoutManager α :=
  let key := makeKey lambda.handle lambda.type
  match manager.entries.find? key with
  | none => manager.countActive
  | some entry =>
      if entry.active then
        ({ manager with
          entries := manager.entries.set key { entry with active := false }
          stats := { manager.stats with
            timeoutsFired := manager.stats.timeoutsFired + 1 } }.invoke
              now timer lambda).countActive
      else manager.countActive

def fire (now : ℤ) (callback : LoopCallback α) (timer : ℕ)
    (manager : TimeoutManager α) : TimeoutManager α :=
  match callback with
  | .timeout lambda => runLambda now lambda timer manager
  | .other => manager

end TimeoutManager

end VynxHttp
