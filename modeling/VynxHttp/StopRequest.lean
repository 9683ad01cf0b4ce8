import VynxHttp.Result
import VynxHttp.StepRun

/-!
# Stopping a loop from another thread

One thread executes `event_loop::run`, and others call `is_running` and
`stop`.  The flags are atomic, so the threads interleave in their loads and
stores.  `run` clears the flag `stopped` after it has set `running`, and a
request which arrives between the two is lost.
-/

namespace VynxHttp

/-- What the thread in `run` does next. -/
inductive RunPc where
  | testRunning
  | setRunning
  | clearStopped
  | testStopped
  | beginIteration
  | endIteration
  | clearRunning (result : Result Unit)
  | returned (result : Result Unit)

structure RunState where
  running : Bool
  stopped : Bool
  pc : RunPc

/-- The atomic steps: those of `run`, whose iterations end with the result of
`run_once`, and those of the other threads. -/
inductive RunEvent where
  | testRunning
  | setRunning
  | clearStopped
  | testStopped
  | beginIteration
  | endIteration (result : Result Unit)
  | clearRunning
  | isRunning (answer : Bool)
  | stop

namespace RunState

/-- A call of `run` begins, whatever earlier calls have left in the flags. -/
def called (running stopped : Bool) : RunState :=
  ⟨running, stopped, .testRunning⟩

def afterIteration : Result Unit → RunPc
  | .ok () => .testStopped
  | .error code => .clearRunning (.error code)

def step (s : RunState) : RunEvent → Option RunState
  | .testRunning =>
      match s.pc with
      | .testRunning =>
          if s.running then
            some { s with pc := .returned (.error .invalidState) }
          else some { s with pc := .setRunning }
      | _ => none
  | .setRunning =>
      match s.pc with
      | .setRunning => some { s with running := true, pc := .clearStopped }
      | _ => none
  | .clearStopped =>
      match s.pc with
      | .clearStopped => some { s with stopped := false, pc := .testStopped }
      | _ => none
  | .testStopped =>
      match s.pc with
      | .testStopped =>
          if s.stopped then some { s with pc := .clearRunning success }
          else some { s with pc := .beginIteration }
      | _ => none
  | .beginIteration =>
      match s.pc with
      | .beginIteration => some { s with pc := .endIteration }
      | _ => none
  | .endIteration result =>
      match s.pc with
      | .endIteration => some { s with pc := afterIteration result }
      | _ => none
  | .clearRunning =>
      match s.pc with
      | .clearRunning result =>
          some { s with running := false, pc := .returned result }
      | _ => none
  | .isRunning answer => if answer = s.running then some s else none
  | .stop => some { s with stopped := true }

variable {s s' : RunState} {event : RunEvent}

theorem afterIteration_cases (result : Result Unit) :
    afterIteration result = .testStopped ∨
      ∃ outcome, afterIteration result = .clearRunning outcome := by
  cases result with
  | ok => exact .inl rfl
  | error code => exact .inr ⟨.error code, rfl⟩

/-! ## Threads which have seen the loop run -/

/-- The flag `running` is not set when the thread in `run` sets it. -/
def Unset (s : RunState) : Prop :=
  s.pc = .setRunning → s.running = false

/-- The thread in `run` is past the store of `running`, or it will not come
to it. -/
def Entered (s : RunState) : Prop :=
  (s.pc = .testRunning → s.running = true) ∧ s.pc ≠ .setRunning

theorem Unset.step (hunset : Unset s) (hstep : s.step event = some s') :
    Unset s' := by
  unfold Unset at *
  cases event with
  | endIteration result =>
      have hafter := afterIteration_cases result
      grind [RunState.step]
  | _ => grind [RunState.step]

theorem Entered.step (hentered : Entered s)
    (hstep : s.step event = some s') : Entered s' := by
  unfold Entered at *
  cases event with
  | endIteration result =>
      have hafter := afterIteration_cases result
      grind [RunState.step]
  | _ => grind [RunState.step]

/-- A thread to which `is_running` has answered true has seen the store. -/
theorem entered_of_run {running stopped : Bool} {before : List RunEvent}
    (hobserved : .isRunning true ∈ before)
    (hrun : StepRun.run step (called running stopped) before = some s) :
    Entered s := by
  obtain ⟨early, late, rfl⟩ := List.append_of_mem hobserved
  obtain ⟨seen, hearly, hrest⟩ := StepRun.run_append_eq_some.mp hrun
  obtain ⟨seen', hstep, hlate⟩ := StepRun.run_cons_eq_some.mp hrest
  have hunset : Unset seen := StepRun.run_invariant Unset (fun _ => True)
    (fun _ _ _ hinv _ hstep => hinv.step hstep)
    (s := called running stopped) (by simp [Unset, called])
    (fun _ _ => trivial) hearly
  rw [step, Option.ite_none_right_eq_some, Option.some.injEq] at hstep
  obtain ⟨hrunning, rfl⟩ := hstep
  have hentered : Entered seen := by
    refine ⟨fun _ => hrunning.symm, fun hpc => ?_⟩
    rw [hunset hpc] at hrunning
    simp at hrunning
  exact StepRun.run_invariant Entered (fun _ => True)
    (fun _ _ _ hinv _ hstep => hinv.step hstep) hentered
    (fun _ _ => trivial) hlate

/-! ## Requests -/

/-- The request is there, and nothing clears it. -/
structure Stopping (s : RunState) : Prop where
  stopped : s.stopped = true
  entered : Entered s
  past : s.pc ≠ .clearStopped

def Leaving (s : RunState) : Prop :=
  ∃ result, s.pc = .clearRunning result ∨ s.pc = .returned result

theorem Stopping.step (hstopping : Stopping s)
    (hstep : s.step event = some s') : Stopping s' := by
  refine ⟨?_, hstopping.entered.step hstep, ?_⟩
  · have hstopped := hstopping.stopped
    have hpast := hstopping.past
    cases event <;> grind [RunState.step]
  · have hpast := hstopping.past
    have hset := hstopping.entered.2
    cases event with
    | endIteration result =>
        have hafter := afterIteration_cases result
        grind [RunState.step]
    | _ => grind [RunState.step]

theorem Leaving.step (hleaving : Leaving s) (hstep : s.step event = some s') :
    Leaving s' ∧ event ≠ .beginIteration := by
  obtain ⟨result, hpc⟩ := hleaving
  unfold Leaving
  cases event <;> grind [RunState.step]

theorem Stopping.leaves (hstopping : Stopping s)
    (hstep : s.step .testStopped = some s') : Leaving s' := by
  have hstopped := hstopping.stopped
  unfold Leaving
  grind [RunState.step]

theorem Leaving.run (hleaving : Leaving s) {after : List RunEvent}
    (hrun : StepRun.run RunState.step s after = some s') :
    .beginIteration ∉ after := by
  intro hmem
  have hallowed := StepRun.forall_mem_of_run Leaving (· ≠ .beginIteration)
    (fun _ _ _ hinv hstep => (hinv.step hstep).symm) hleaving hrun
  exact hallowed _ hmem rfl

/-- No iteration begins after the first test of `stopped`. -/
def Honoured (after : List RunEvent) : Prop :=
  ∀ early late, after = early ++ .testStopped :: late →
    .beginIteration ∉ late

theorem Stopping.honoured (hstopping : Stopping s) {after : List RunEvent}
    (hrun : StepRun.run RunState.step s after = some s') :
    Honoured after := by
  rintro early late rfl
  obtain ⟨tested, hearly, hrest⟩ := StepRun.run_append_eq_some.mp hrun
  obtain ⟨left, htest, hlate⟩ := StepRun.run_cons_eq_some.mp hrest
  have hthere : Stopping tested := StepRun.run_invariant Stopping
    (fun _ => True) (fun _ _ _ hinv _ hstep => hinv.step hstep) hstopping
    (fun _ _ => trivial) hearly
  exact (hthere.leaves htest).run hlate

/-- A request of a thread which has seen the loop run is honoured, whatever
follows, unless it comes between the two stores of `run`. -/
theorem stop_honoured_iff (running stopped : Bool) (before : List RunEvent)
    (hobserved : .isRunning true ∈ before)
    (hrun : StepRun.run step (called running stopped) before = some s) :
    (∀ after final,
        StepRun.run step s (.stop :: after) = some final → Honoured after) ↔
      s.pc ≠ .clearStopped := by
  have hentered := entered_of_run hobserved hrun
  constructor
  · intro hall hpc
    obtain ⟨running, stopped, pc⟩ := s
    simp only at hpc
    subst hpc
    have hlost := hall [.clearStopped, .testStopped, .beginIteration]
      ⟨running, false, .endIteration⟩ rfl
    exact hlost [.clearStopped] [.beginIteration] rfl
      (List.mem_singleton_self _)
  · intro hpc after final hafter
    have hstopping : Stopping { s with stopped := true } :=
      ⟨rfl, hentered, hpc⟩
    exact hstopping.honoured hafter

/-- A request in the loop, before an iteration which has been decided on. -/
theorem stop_honoured_before_iteration :
    (∀ after final,
        StepRun.run step ⟨true, false, .beginIteration⟩ (.stop :: after) =
          some final → Honoured after) ↔
      (⟨true, false, .beginIteration⟩ : RunState).pc ≠ .clearStopped :=
  stop_honoured_iff false true
    [.testRunning, .setRunning, .isRunning true, .clearStopped,
      .testStopped] (by simp) rfl

/-- `stop` comes right after `is_running` has seen the first store of
`run`. -/
theorem stop_lost :
    ∃ s final,
      StepRun.run step (called false false)
        [.testRunning, .setRunning, .isRunning true] = some s ∧
      StepRun.run step s
        [.stop, .clearStopped, .testStopped, .beginIteration] = some final ∧
      ¬Honoured [.clearStopped, .testStopped, .beginIteration] :=
  ⟨⟨true, false, .clearStopped⟩, ⟨true, false, .endIteration⟩, rfl, rfl,
    fun hhonoured => hhonoured [.clearStopped] [.beginIteration] rfl
      (List.mem_singleton_self _)⟩

end RunState

end VynxHttp
