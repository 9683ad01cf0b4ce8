import VynxHttp.Fifo

/-!
# The task queue

`post` appends to the task queue under the lock, from any thread, and
`process_tasks` swaps the queue for its empty local vector under the lock and
then calls the tasks of the vector.  Between these steps of `run_once` posts
may arrive at any time, those of the running task among them.
-/

namespace VynxHttp

/-- Where a loop is in `run_once`: not in it, in `process_tasks`, or after
it. -/
inductive LoopPhase where
  | between
  | draining
  | handling
  deriving DecidableEq, Repr

structure TaskLoop (τ : Type*) where
  taskQueue : List τ := []
  /-- The local vector of `process_tasks`, from the next task to call on. -/
  tasks : List τ := []
  running : Option τ := none
  phase : LoopPhase := .between
  tasksExecuted : ℕ := 0
  executed : List τ := []
  deriving Repr

inductive Poster where
  | runningTask
  | other
  deriving DecidableEq, Repr

inductive TaskEvent (τ : Type*) where
  | post (poster : Poster) (task : τ)
  | swap
  | callTask
  | taskReturns
  | leave
  | runOnceReturns
  deriving Repr

namespace TaskLoop

variable {τ : Type*}

def post (s : TaskLoop τ) (task : τ) : TaskLoop τ :=
  { s with taskQueue := s.taskQueue ++ [task] }

def step (s : TaskLoop τ) : TaskEvent τ → Option (TaskLoop τ)
  | .post .other task => some (s.post task)
  | .post .runningTask task =>
      if s.running.isSome then some (s.post task) else none
  | .swap =>
      if s.phase = .between then
        some { s with
          tasks := s.taskQueue
          taskQueue := []
          phase := .draining }
      else none
  | .callTask =>
      match s.phase, s.running, s.tasks with
      | .draining, none, task :: tasks =>
          some { s with tasks := tasks, running := some task }
      | _, _, _ => none
  | .taskReturns =>
      match s.running with
      | some task =>
          some { s with
            running := none
            tasksExecuted := s.tasksExecuted + 1
            executed := s.executed ++ [task] }
      | none => none
  | .leave =>
      match s.phase, s.running, s.tasks with
      | .draining, none, [] => some { s with phase := .handling }
      | _, _, _ => none
  | .runOnceReturns =>
      if s.phase = .handling then some { s with phase := .between } else none

def posts (events : List (TaskEvent τ)) : List τ :=
  events.flatMap fun event =>
    match event with
    | .post _ task => [task]
    | _ => []

/-! ## What a step can do -/

section

variable {s s' : TaskLoop τ}

theorem step_post {poster : Poster} {task : τ}
    (hstep : s.step (.post poster task) = some s') : s' = s.post task := by
  cases poster with
  | other =>
      rw [TaskLoop.step, Option.some.injEq] at hstep
      exact hstep.symm
  | runningTask =>
      rw [TaskLoop.step, Option.ite_none_right_eq_some,
        Option.some.injEq] at hstep
      exact hstep.2.symm

theorem step_swap (hstep : s.step .swap = some s') :
    s.phase = .between ∧
      s' = { s with
        tasks := s.taskQueue, taskQueue := [], phase := .draining } := by
  rw [TaskLoop.step, Option.ite_none_right_eq_some,
    Option.some.injEq] at hstep
  exact ⟨hstep.1, hstep.2.symm⟩

theorem step_callTask (hstep : s.step .callTask = some s') :
    s.phase = .draining ∧ s.running = none ∧ ∃ task tasks,
      s.tasks = task :: tasks ∧
        s' = { s with tasks := tasks, running := some task } := by
  simp only [TaskLoop.step] at hstep
  split at hstep
  next task tasks hphase hrunning htasks =>
    rw [Option.some.injEq] at hstep
    exact ⟨hphase, hrunning, task, tasks, htasks, hstep.symm⟩
  next => simp at hstep

theorem step_taskReturns (hstep : s.step .taskReturns = some s') :
    ∃ task, s.running = some task ∧
      s' = { s with
        running := none
        tasksExecuted := s.tasksExecuted + 1
        executed := s.executed ++ [task] } := by
  simp only [TaskLoop.step] at hstep
  split at hstep
  next task hrunning =>
    rw [Option.some.injEq] at hstep
    exact ⟨task, hrunning, hstep.symm⟩
  next => simp at hstep

theorem step_leave (hstep : s.step .leave = some s') :
    s.running = none ∧ s.tasks = [] ∧ s' = { s with phase := .handling } := by
  simp only [TaskLoop.step] at hstep
  split at hstep
  next hphase hrunning htasks =>
    rw [Option.some.injEq] at hstep
    exact ⟨hrunning, htasks, hstep.symm⟩
  next => simp at hstep

theorem step_runOnceReturns (hstep : s.step .runOnceReturns = some s') :
    s.phase = .handling ∧ s' = { s with phase := .between } := by
  rw [TaskLoop.step, Option.ite_none_right_eq_some,
    Option.some.injEq] at hstep
  exact ⟨hstep.1, hstep.2.symm⟩

end

/-! ## The queue which a loop refines -/

/-- A task leaves the queue when it is called. -/
def fifoOps : TaskEvent τ → List (FifoOp τ)
  | .post _ task => [.enqueue [task]]
  | .callTask => [.dequeue 1]
  | _ => []

structure Refines (s : TaskLoop τ) (queue : Fifo τ) : Prop where
  contents : queue.contents = s.tasks ++ s.taskQueue
  left : queue.left = s.executed ++ s.running.toList
  counted : s.tasksExecuted = s.executed.length
  drained : s.phase ≠ .draining → s.tasks = [] ∧ s.running = none

variable {s s' : TaskLoop τ} {queue : Fifo τ}

theorem Refines.post (hrefines : Refines s queue) (task : τ) :
    Refines (s.post task) (queue.enqueue [task]) where
  contents := by
    rw [Fifo.contents_enqueue, hrefines.contents, List.append_assoc]
    rfl
  left := hrefines.left
  counted := hrefines.counted
  drained := hrefines.drained

theorem Refines.step (hrefines : Refines s queue) {event : TaskEvent τ}
    (hstep : s.step event = some s') :
    Refines s' (queue.applyAll (fifoOps event)) := by
  cases event with
  | post poster task =>
      rw [step_post hstep]
      exact hrefines.post task
  | swap =>
      obtain ⟨hphase, rfl⟩ := step_swap hstep
      obtain ⟨htasks, _⟩ := hrefines.drained (by simp [hphase])
      refine ⟨?_, hrefines.left, hrefines.counted, by simp⟩
      simpa [fifoOps, htasks] using hrefines.contents
  | callTask =>
      obtain ⟨hphase, hrunning, task, tasks, htasks, rfl⟩ :=
        step_callTask hstep
      have hcontents := hrefines.contents
      have hleft := hrefines.left
      rw [htasks] at hcontents
      rw [hrunning] at hleft
      refine ⟨?_, ?_, hrefines.counted, ?_⟩
      · simp [fifoOps, Fifo.apply, hcontents]
      · simp [fifoOps, Fifo.apply, hcontents, hleft]
      · exact fun hout => absurd hphase hout
  | taskReturns =>
      obtain ⟨task, hrunning, rfl⟩ := step_taskReturns hstep
      refine ⟨hrefines.contents, ?_, ?_, ?_⟩
      · simpa [fifoOps, hrunning] using hrefines.left
      · simp [hrefines.counted]
      · exact fun hout => ⟨(hrefines.drained hout).1, rfl⟩
  | leave =>
      obtain ⟨hrunning, htasks, rfl⟩ := step_leave hstep
      exact ⟨hrefines.contents, hrefines.left, hrefines.counted,
        fun _ => ⟨htasks, hrunning⟩⟩
  | runOnceReturns =>
      obtain ⟨hphase, rfl⟩ := step_runOnceReturns hstep
      have hdrained := hrefines.drained (by simp [hphase])
      exact ⟨hrefines.contents, hrefines.left, hrefines.counted,
        fun _ => hdrained⟩

/-! ## Iterations -/

theorem taskQueue_step {event : TaskEvent τ} (hstep : s.step event = some s')
    (hswap : event ≠ .swap) :
    s'.taskQueue = s.taskQueue ++ posts [event] := by
  cases event with
  | post poster task =>
      rw [step_post hstep]
      rfl
  | swap => exact absurd rfl hswap
  | callTask =>
      obtain ⟨_, _, _, _, _, rfl⟩ := step_callTask hstep
      exact (List.append_nil _).symm
  | taskReturns =>
      obtain ⟨_, _, rfl⟩ := step_taskReturns hstep
      exact (List.append_nil _).symm
  | leave =>
      obtain ⟨_, _, rfl⟩ := step_leave hstep
      exact (List.append_nil _).symm
  | runOnceReturns =>
      obtain ⟨_, rfl⟩ := step_runOnceReturns hstep
      exact (List.append_nil _).symm

theorem posts_append (first second : List (TaskEvent τ)) :
    posts (first ++ second) = posts first ++ posts second :=
  List.flatMap_append

theorem taskQueue_run {events : List (TaskEvent τ)}
    (hswap : TaskEvent.swap ∉ events)
    (hrun : StepRun.run step s events = some s') :
    s'.taskQueue = s.taskQueue ++ posts events := by
  induction events generalizing s with
  | nil =>
      rw [StepRun.run_nil, Option.some.injEq] at hrun
      subst hrun
      exact (List.append_nil _).symm
  | cons event events ih =>
      obtain ⟨next, hnext, hlater⟩ := StepRun.run_cons_eq_some.mp hrun
      rw [List.mem_cons, not_or] at hswap
      rw [ih hswap.2 hlater, taskQueue_step hnext (Ne.symm hswap.1),
        List.append_assoc, ← posts_append]
      rfl

theorem entering_fifoOps (events : List (TaskEvent τ)) :
    (events.flatMap fifoOps).flatMap Fifo.entering = posts events := by
  induction events with
  | nil => rfl
  | cons event events ih =>
      rw [List.flatMap_cons, List.flatMap_append, ih]
      cases event <;> rfl

/-- A loop refines the queue of what has been posted to it. -/
theorem refines_of_run {events : List (TaskEvent τ)}
    (hrun : StepRun.run step {} events = some s) :
    ∃ queue, Refines s queue ∧ queue.entered = posts events := by
  have hstart : Refines ({} : TaskLoop τ) (Fifo.starting []) :=
    ⟨rfl, rfl, rfl, fun _ => ⟨rfl, rfl⟩⟩
  refine ⟨_, Fifo.run_refines Refines fifoOps
    (fun _ _ _ _ hrefines hstep => hrefines.step hstep) hstart hrun, ?_⟩
  rw [Fifo.entered_applyAll, entering_fifoOps]
  rfl

theorem Refines.posted (hrefines : Refines s queue) :
    queue.entered =
      s.executed ++ s.running.toList ++ (s.tasks ++ s.taskQueue) := by
  rw [queue.conserved, hrefines.left, hrefines.contents]

theorem posts_of_drained {events : List (TaskEvent τ)}
    (hrun : StepRun.run step {} events = some s)
    (hphase : s.phase ≠ .draining) :
    posts events = s.executed ++ s.taskQueue := by
  obtain ⟨queue, hrefines, hposts⟩ := refines_of_run hrun
  obtain ⟨htasks, hrunning⟩ := hrefines.drained hphase
  rw [← hposts, hrefines.posted, htasks, hrunning]
  simp

/-- What an iteration does, from its swap to the end of `process_tasks`. -/
structure Drained (before during : List (TaskEvent τ))
    (started drained : TaskLoop τ) : Prop where
  executes : drained.executed = started.executed ++ started.taskQueue
  posted_before : drained.executed = posts before
  posted_during : drained.taskQueue = posts during

theorem drained_of_run {before during : List (TaskEvent τ)}
    (hswap : TaskEvent.swap ∉ during) {started drained : TaskLoop τ}
    (hbefore : StepRun.run step {} before = some started)
    (hiteration : StepRun.run step started
      (.swap :: (during ++ [.leave])) = some drained) :
    Drained before during started drained := by
  have hall : StepRun.run step {}
      (before ++ .swap :: (during ++ [.leave])) = some drained :=
    StepRun.run_append_eq_some.mpr ⟨started, hbefore, hiteration⟩
  obtain ⟨swapped, hfirst, hrest⟩ := StepRun.run_cons_eq_some.mp hiteration
  obtain ⟨hphase, rfl⟩ := step_swap hfirst
  have hqueue : drained.taskQueue = posts during := by
    have hnone : TaskEvent.swap ∉ during ++ [.leave] := by simpa using hswap
    rw [taskQueue_run hnone hrest, posts_append]
    simp [posts]
  obtain ⟨last, hduring, hleave⟩ := StepRun.run_append_eq_some.mp hrest
  rw [StepRun.run_singleton] at hleave
  have hleft : drained.phase = .handling := by
    rw [(step_leave hleave).2.2]
  have hposts := posts_of_drained hall (by simp [hleft])
  have hexecuted : posts before = drained.executed := by
    rw [hqueue, posts_append] at hposts
    simpa [posts] using hposts
  refine ⟨?_, hexecuted.symm, hqueue⟩
  rw [← hexecuted]
  exact posts_of_drained hbefore (by simp [hphase])

/-! ## Progress -/

theorem exists_leave (hphase : s.phase = .draining) :
    ∃ rest drained, posts rest = [] ∧
      StepRun.run step s rest = some drained ∧
      drained.phase = .handling ∧
      drained.taskQueue = s.taskQueue := by
  obtain ⟨taskQueue, tasks, running, phase, tasksExecuted, executed⟩ := s
  simp only at hphase
  subst hphase
  have hidle : ∀ (tasks : List τ) (count : ℕ) (executed : List τ),
      ∃ rest drained, posts rest = [] ∧
        StepRun.run step
          ⟨taskQueue, tasks, none, .draining, count, executed⟩ rest =
            some drained ∧
        drained.phase = .handling ∧ drained.taskQueue = taskQueue := by
    intro tasks
    induction tasks with
    | nil => exact fun _ _ => ⟨[.leave], _, rfl, rfl, rfl, rfl⟩
    | cons task tasks ih =>
        intro count executed
        obtain ⟨rest, drained, hposts, hrun, hdrained⟩ :=
          ih (count + 1) (executed ++ [task])
        exact ⟨.callTask :: .taskReturns :: rest, drained, hposts, hrun,
          hdrained⟩
  cases running with
  | none => exact hidle tasks tasksExecuted executed
  | some task =>
      obtain ⟨rest, drained, hposts, hrun, hdrained⟩ :=
        hidle tasks (tasksExecuted + 1) (executed ++ [task])
      exact ⟨.taskReturns :: rest, drained, hposts, hrun, hdrained⟩

theorem exists_between (s : TaskLoop τ) :
    ∃ rest idle, posts rest = [] ∧ StepRun.run step s rest = some idle ∧
      idle.phase = .between := by
  have hhandling : ∀ drained : TaskLoop τ, drained.phase = .handling →
      StepRun.run step drained [.runOnceReturns] =
        some { drained with phase := .between } := by
    intro drained hphase
    rw [StepRun.run_singleton]
    exact if_pos hphase
  cases hphase : s.phase with
  | between => exact ⟨[], s, rfl, rfl, hphase⟩
  | handling => exact ⟨_, _, rfl, hhandling s hphase, rfl⟩
  | draining =>
      obtain ⟨rest, drained, hposts, hrun, hdrained, _⟩ :=
        exists_leave hphase
      refine ⟨rest ++ [.runOnceReturns], _, ?_,
        StepRun.run_append_eq_some.mpr
          ⟨drained, hrun, hhandling drained hdrained⟩, rfl⟩
      rw [posts_append, hposts]
      rfl

/-- One more iteration empties the queue when nothing is posted. -/
theorem exists_emptied (s : TaskLoop τ) :
    ∃ rest final, posts rest = [] ∧ StepRun.run step s rest = some final ∧
      final.phase = .handling ∧ final.taskQueue = [] := by
  obtain ⟨first, idle, hposts, hfirst, hphase⟩ := exists_between s
  obtain ⟨second, final, hposts', hsecond, hdrained, hqueue⟩ :=
    exists_leave (s := { idle with
      tasks := idle.taskQueue
      taskQueue := []
      phase := .draining }) rfl
  have hswap : StepRun.run step idle (.swap :: second) = some final := by
    rw [StepRun.run_cons_of_eq (if_pos hphase), hsecond]
  refine ⟨first ++ .swap :: second, final, ?_,
    StepRun.run_append_eq_some.mpr ⟨idle, hfirst, hswap⟩, hdrained, hqueue⟩
  rw [posts_append, hposts]
  exact hposts'

/-- What holds after a run: the posted tasks have been executed in their
order or still wait in it, each iteration has executed the tasks posted before
its swap, and no task is lost. -/
structure RunsInOrder (events : List (TaskEvent τ)) (s : TaskLoop τ) :
    Prop where
  posted : posts events =
    s.executed ++ s.running.toList ++ (s.tasks ++ s.taskQueue)
  counted : s.tasksExecuted = s.executed.length
  iterations : ∀ before during after,
    events = before ++ .swap :: (during ++ .leave :: after) →
    TaskEvent.swap ∉ during →
    ∃ started drained, StepRun.run step {} before = some started ∧
      StepRun.run step started (.swap :: (during ++ [.leave])) =
        some drained ∧
      Drained before during started drained
  completes : ∃ rest final, posts rest = [] ∧
    StepRun.run step s rest = some final ∧ final.executed = posts events

theorem tasks_run_in_order {events : List (TaskEvent τ)}
    (hrun : StepRun.run step {} events = some s) : RunsInOrder events s := by
  obtain ⟨queue, hrefines, hposts⟩ := refines_of_run hrun
  refine ⟨hposts ▸ hrefines.posted, hrefines.counted, ?_, ?_⟩
  · rintro before during after rfl hswap
    have hparts : before ++ .swap :: (during ++ .leave :: after) =
        before ++ (.swap :: (during ++ [.leave]) ++ after) := by
      simp
    rw [hparts] at hrun
    obtain ⟨started, hbefore, hrest⟩ := StepRun.run_append_eq_some.mp hrun
    obtain ⟨drained, hiteration, _⟩ := StepRun.run_append_eq_some.mp hrest
    exact ⟨started, drained, hbefore, hiteration,
      drained_of_run hswap hbefore hiteration⟩
  · obtain ⟨rest, final, hnone, hrest, hphase, hqueue⟩ := exists_emptied s
    refine ⟨rest, final, hnone, hrest, ?_⟩
    have hall := posts_of_drained
      (StepRun.run_append_eq_some.mpr ⟨s, hrun, hrest⟩) (by simp [hphase])
    rw [posts_append, hnone, hqueue] at hall
    simpa using hall.symm

/-- A task which posts another one while a third arrives from outside. -/
def reposting : List (TaskEvent ℕ) :=
  [.post .other 1, .swap, .post .other 2, .callTask, .post .runningTask 3,
    .taskReturns, .leave]

theorem tasks_run_in_order_reposting :
    RunsInOrder reposting
      { taskQueue := [2, 3], phase := .handling, tasksExecuted := 1,
        executed := [1] } :=
  tasks_run_in_order (by rfl)

end TaskLoop

end VynxHttp
