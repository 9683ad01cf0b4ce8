import Mathlib.Logic.Function.Basic
import VynxHttp.Poller

/-!
# The event loop

`runOnce` follows `event_loop::run_once`.  Tasks, handlers and timers are code
of the owner of the loop; what matters of them here is what they do to the
registered sockets.
-/

namespace VynxHttp

/-- `handlers` maps the handles of registered sockets to their handlers. -/
structure EventLoop where
  handlers : NativeHandle → Option HandlerId := fun _ => none
  eventsProcessed : ℕ := 0

structure Delivery where
  handler : HandlerId
  handle : NativeHandle
  events : EventType
  deriving DecidableEq, Repr

/-- An operation on the socket with this descriptor, and whether the operating
system accepts what the poller asks of it. -/
inductive SocketOp where
  | register (fd : NativeHandle) (handler : HandlerId) (accepted : Bool)
  | modify (fd : NativeHandle) (accepted : Bool)
  | unregister (fd : NativeHandle) (accepted : Bool)

/-- One iteration: what the tasks do, the wait, what the handlers do after the
calls so far, and what the timers do. -/
structure Iteration (poller : Poller) where
  tasks : List SocketOp := []
  wait : WaitOutcome poller
  react : List Delivery → List SocketOp := fun _ => []
  timers : List SocketOp := []

namespace EventLoop

/-! ## Registration -/

def registerSocket (loop : EventLoop) (poller : Poller) (fd : NativeHandle)
    (handler : HandlerId) (accepted : Bool) : EventLoop × Result Unit :=
  if fd = invalidHandle then (loop, .error .invalidState)
  else
    match poller.add accepted with
    | .error code => (loop, .error code)
    | .ok () =>
        ({ loop with
          handlers := Function.update loop.handlers fd (some handler) },
          success)

def modifySocket (loop : EventLoop) (poller : Poller) (fd : NativeHandle)
    (accepted : Bool) : EventLoop × Result Unit :=
  if fd = invalidHandle then (loop, .error .invalidState)
  else
    match loop.handlers fd with
    | none => (loop, .error .invalidArgument)
    | some _ => (loop, poller.modify accepted)

def unregisterSocket (loop : EventLoop) (poller : Poller) (fd : NativeHandle)
    (accepted : Bool) : EventLoop × Result Unit :=
  if fd = invalidHandle then (loop, .error .invalidState)
  else
    match poller.remove accepted with
    | .error code => (loop, .error code)
    | .ok () =>
        ({ loop with handlers := Function.update loop.handlers fd none },
          success)

def apply (loop : EventLoop) (poller : Poller) : SocketOp → EventLoop
  | .register fd handler accepted =>
      (loop.registerSocket poller fd handler accepted).1
  | .modify fd accepted => (loop.modifySocket poller fd accepted).1
  | .unregister fd accepted => (loop.unregisterSocket poller fd accepted).1

def applyAll (loop : EventLoop) (poller : Poller) (ops : List SocketOp) :
    EventLoop :=
  ops.foldl (fun loop op => loop.apply poller op) loop

/-! ## Iterations -/

/-- A call of `on_event`, with what the handler does in it. -/
def call (loop : EventLoop) (poller : Poller) (ops : List SocketOp) :
    EventLoop :=
  let loop := loop.applyAll poller ops
  { loop with eventsProcessed := loop.eventsProcessed + 1 }

/-- The loop of `run_once` over the events of a wait, after the calls so
far. -/
def dispatch (poller : Poller) (react : List Delivery → List SocketOp)
    (loop : EventLoop) (calls : List Delivery) :
    List EventData → EventLoop × List Delivery
  | [] => (loop, calls)
  | event :: events =>
      match loop.handlers event.handle with
      | none => dispatch poller react loop calls events
      | some handler =>
          let calls := calls ++ [⟨handler, event.handle, event.events⟩]
          dispatch poller react (loop.call poller (react calls)) calls events

def runOnce {poller : Poller} (loop : EventLoop)
    (iteration : Iteration poller) :
    EventLoop × List Delivery × Result Unit :=
  let loop := loop.applyAll poller iteration.tasks
  match poller.wait iteration.wait with
  | .error code => (loop, [], .error code)
  | .ok events =>
      let (loop, calls) :=
        dispatch poller iteration.react loop [] events
      (loop.applyAll poller iteration.timers, calls, success)

/-- What the owner of a loop does with it. -/
inductive Action (poller : Poller) where
  | socket (op : SocketOp)
  | runOnce (iteration : Iteration poller)

def act {poller : Poller} (loop : EventLoop) :
    Action poller → EventLoop
  | .socket op => loop.apply poller op
  | .runOnce iteration => (loop.runOnce iteration).1

def actAll {poller : Poller} (loop : EventLoop)
    (actions : List (Action poller)) : EventLoop :=
  actions.foldl act loop

/-! ## The invalid handle is never registered -/

variable {poller : Poller} {loop : EventLoop}

theorem apply_invalidHandle (op : SocketOp)
    (hloop : loop.handlers invalidHandle = none) :
    (loop.apply poller op).handlers invalidHandle = none := by
  cases op with
  | register fd handler accepted =>
      simp only [apply, registerSocket]
      split
      next => exact hloop
      next hfd =>
        split
        next => exact hloop
        next => simpa [Function.update_of_ne (Ne.symm hfd)] using hloop
  | modify fd accepted =>
      simp only [apply, modifySocket]
      split
      next => exact hloop
      next => split <;> exact hloop
  | unregister fd accepted =>
      simp only [apply, unregisterSocket]
      split
      next => exact hloop
      next hfd =>
        split
        next => exact hloop
        next => simpa [Function.update_of_ne (Ne.symm hfd)] using hloop

theorem applyAll_invalidHandle (ops : List SocketOp)
    (hloop : loop.handlers invalidHandle = none) :
    (loop.applyAll poller ops).handlers invalidHandle = none := by
  induction ops generalizing loop with
  | nil => exact hloop
  | cons op ops ih => exact ih (apply_invalidHandle op hloop)

theorem dispatch_invalidHandle (react : List Delivery → List SocketOp)
    (calls : List Delivery) (events : List EventData)
    (hloop : loop.handlers invalidHandle = none) :
    (dispatch poller react loop calls events).1.handlers invalidHandle =
      none := by
  induction events generalizing loop calls with
  | nil => exact hloop
  | cons event events ih =>
      rw [dispatch]
      split
      next => exact ih calls hloop
      next => exact ih _ (applyAll_invalidHandle _ hloop)

theorem runOnce_invalidHandle (iteration : Iteration poller)
    (hloop : loop.handlers invalidHandle = none) :
    (loop.runOnce iteration).1.handlers invalidHandle = none := by
  have htasks : (loop.applyAll poller iteration.tasks).handlers
      invalidHandle = none := applyAll_invalidHandle _ hloop
  unfold runOnce
  simp only
  split
  next => exact htasks
  next =>
    exact applyAll_invalidHandle _ (dispatch_invalidHandle _ _ _ htasks)

theorem actAll_invalidHandle (actions : List (Action poller))
    (hloop : loop.handlers invalidHandle = none) :
    (loop.actAll actions).handlers invalidHandle = none := by
  induction actions generalizing loop with
  | nil => exact hloop
  | cons action actions ih =>
      refine ih ?_
      cases action with
      | socket op => exact apply_invalidHandle op hloop
      | runOnce iteration => exact runOnce_invalidHandle iteration hloop

end EventLoop

end VynxHttp
