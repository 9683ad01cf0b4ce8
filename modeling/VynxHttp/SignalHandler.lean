import VynxHttp.Ownership
import VynxHttp.StepRun

/-!
# The signal handlers

The handlers of a process, each with the `impl` which it owns, and the pointer
`g_signal_state`.  A handler whose `impl` was moved away has none.  What the
handlers register with the system, and the callbacks, are left out.
-/

namespace VynxHttp

/-- `signalState` is the address of a `signal_state`, or null.  `latest` is
where the state of the handler which `create` made last was allocated. -/
structure SignalHandlers where
  handlers : KeyedTable ℕ (Option ℕ) := .empty
  signalState : Option ℕ := none
  latest : Option ℕ := none

inductive SignalEvent where
  | create (handler state : ℕ)
  | createFails
  | destroy (handler : ℕ)
  | moveConstruct (handler source : ℕ)
  | moveAssign (handler source : ℕ)
  deriving DecidableEq, Repr

namespace SignalHandlers

open Ownership

/-- The state at this address has an owner. -/
def Alive (world : SignalHandlers) (state : ℕ) : Prop :=
  Owned world.handlers state

instance (world : SignalHandlers) (state : ℕ) :
    Decidable (world.Alive state) :=
  inferInstanceAs (Decidable (Owned world.handlers state))

/-- `create`: a handler and a state are allocated where there are none. -/
def create (world : SignalHandlers) (handler state : ℕ) :
    Option SignalHandlers :=
  if world.handlers.find? handler = none ∧ ¬world.Alive state then
    some ⟨world.handlers.set handler (some state), some state, some state⟩
  else none

/-- The destructor.  The `impl` goes with the handler. -/
def destroy (world : SignalHandlers) (handler : ℕ) : Option SignalHandlers :=
  (world.handlers.find? handler).map fun impl =>
    { world with
      handlers := world.handlers.erase handler
      signalState := if impl.isSome then none else world.signalState }

/-- The move constructor, which is defaulted. -/
def moveConstruct (world : SignalHandlers) (handler source : ℕ) :
    Option SignalHandlers :=
  if world.handlers.find? handler = none then
    (world.handlers.find? source).map fun impl =>
      { world with handlers := transfer world.handlers source handler impl }
  else none

/-- The move assignment, which is defaulted: the `impl` which the handler had
goes, unless the handler is the source. -/
def moveAssign (world : SignalHandlers) (handler source : ℕ) :
    Option SignalHandlers :=
  (world.handlers.find? handler).bind fun _ =>
    (world.handlers.find? source).map fun impl =>
      { world with handlers := transfer world.handlers source handler impl }

/-- A step is undefined for a handler which is not there. -/
def step (world : SignalHandlers) : SignalEvent → Option SignalHandlers
  | .create handler state => world.create handler state
  | .createFails => some world
  | .destroy handler => world.destroy handler
  | .moveConstruct handler source => world.moveConstruct handler source
  | .moveAssign handler source => world.moveAssign handler source

/-! ## What a step can do -/

variable {world next : SignalHandlers} {handler source state : ℕ}

theorem create_eq_some_iff :
    world.create handler state = some next ↔
      world.handlers.find? handler = none ∧ ¬world.Alive state ∧
        next = ⟨world.handlers.set handler (some state), some state,
          some state⟩ := by
  rw [create, Option.ite_none_right_eq_some, Option.some.injEq, and_assoc,
    eq_comm (b := next)]

theorem destroy_eq_some_iff :
    world.destroy handler = some next ↔
      ∃ impl, world.handlers.find? handler = some impl ∧
        next = ⟨world.handlers.erase handler,
          if impl.isSome then none else world.signalState, world.latest⟩ := by
  simp only [destroy, Option.map_eq_some_iff, eq_comm (b := next)]

theorem moveConstruct_eq_some_iff :
    world.moveConstruct handler source = some next ↔
      world.handlers.find? handler = none ∧
        ∃ impl, world.handlers.find? source = some impl ∧
          next = { world with
            handlers := transfer world.handlers source handler impl } := by
  simp only [moveConstruct, Option.ite_none_right_eq_some,
    Option.map_eq_some_iff, eq_comm (b := next)]

theorem moveAssign_eq_some_iff :
    world.moveAssign handler source = some next ↔
      (∃ old, world.handlers.find? handler = some old) ∧
        ∃ impl, world.handlers.find? source = some impl ∧
          next = { world with
            handlers := transfer world.handlers source handler impl } := by
  simp only [moveAssign, Option.bind_eq_some_iff, Option.map_eq_some_iff,
    exists_and_right, eq_comm (b := next)]

end SignalHandlers

end VynxHttp
