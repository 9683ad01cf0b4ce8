import Mathlib.Order.Bounds.Basic
import Mathlib.Algebra.Order.Ring.Int
import VynxHttp.LoopTimers

/-!
# How long the loop waits

An iteration of `event_loop::run` computes the timeout from the timers, runs
the tasks, and only then waits.  The timeout is right at the wait when it has
been right at the computation and neither the clock nor the tasks have made it
wrong since.
-/

namespace VynxHttp

variable {α : Type*}

/-- `steady_clock::time_point::max()`. -/
def timePointMax : ℤ := 2 ^ 63 - 1

/-- `duration_cast<milliseconds>`, which rounds towards zero. -/
def wholeMilliseconds (ticks : ℤ) : ℤ := ticks.tdiv 1000000

/-- `static_cast<int>`. -/
def castInt (n : ℤ) : ℤ := n.bmod (2 ^ 32)

/-- An iteration of `run`: the three readings of the clock, and what the tasks,
the handlers and the callbacks of the timers do to the timers. -/
structure LoopIteration (α : Type*) where
  calculated : ℤ
  tasks : List (TimerOp α)
  waited : ℤ
  handlers : List (TimerOp α)
  processed : ℤ
  callbacks : ℕ → List (TimerOp α)

namespace LoopTimers

/-- The loop of `calculate_timeout` over the timers. -/
def minExpiry (timers : List (TimerEntry α)) : ℤ :=
  timers.foldl
    (fun least timer =>
      if !timer.cancelled && timer.expiry < least then timer.expiry
      else least)
    timePointMax

def calculateTimeout (loop : LoopTimers α) (defaultTimeoutMs now : ℤ) : ℤ :=
  if loop.timers.elems.isEmpty then defaultTimeoutMs
  else max 0 (castInt (wholeMilliseconds
    (minExpiry loop.timers.elems - now)))

def atWait (loop : LoopTimers α) (iteration : LoopIteration α) :
    LoopTimers α :=
  loop.applyAll iteration.tasks

/-- What is left of the timers after an iteration whose wait succeeds. -/
def iterate (loop : LoopTimers α) (iteration : LoopIteration α) :
    Option (LoopTimers α) :=
  ((loop.atWait iteration).applyAll iteration.handlers).step
    (fun op : TimerOp α => op)
    (.processTimers iteration.processed iteration.callbacks)

def timeLeft (now : ℤ) (timer : TimerEntry α) : ℤ :=
  max 0 (timer.expiry - now)

/-- The timeout which is handed to `poller::wait` does not go past a timer
which is active at the wait. -/
def Prompt (defaultTimeoutMs : ℤ) (loop : LoopTimers α)
    (iteration : LoopIteration α) : Prop :=
  ∀ timer ∈ (loop.atWait iteration).timers.elems, timer.cancelled = false →
    0 ≤ loop.calculateTimeout defaultTimeoutMs iteration.calculated ∧
      milliseconds
          (loop.calculateTimeout defaultTimeoutMs iteration.calculated) ≤
        timeLeft iteration.waited timer

/-! ## The earliest timer -/

def expiries (timers : List (TimerEntry α)) : Set ℤ :=
  {expiry | ∃ timer ∈ timers, timer.cancelled = false ∧
    timer.expiry = expiry}

theorem expiries_cons_of_cancelled {timer : TimerEntry α}
    (hcancelled : timer.cancelled = true) (timers : List (TimerEntry α)) :
    expiries (timer :: timers) = expiries timers := by
  ext expiry
  simp [expiries, hcancelled]

theorem expiries_cons_of_active {timer : TimerEntry α}
    (hactive : timer.cancelled = false) (timers : List (TimerEntry α)) :
    expiries (timer :: timers) = insert timer.expiry (expiries timers) := by
  ext expiry
  constructor
  · rintro ⟨other, hmem, hother, rfl⟩
    rcases List.mem_cons.mp hmem with rfl | hlater
    · exact Set.mem_insert _ _
    · exact Set.mem_insert_of_mem _ ⟨other, hlater, hother, rfl⟩
  · rintro (rfl | ⟨other, hlater, hother, rfl⟩)
    · exact ⟨timer, List.mem_cons_self .., hactive, rfl⟩
    · exact ⟨other, List.mem_cons_of_mem _ hlater, hother, rfl⟩

theorem isLeast_foldl (timers : List (TimerEntry α)) (least : ℤ) :
    IsLeast (insert least (expiries timers))
      (timers.foldl
        (fun least timer =>
          if !timer.cancelled && timer.expiry < least then timer.expiry
          else least)
        least) := by
  induction timers generalizing least with
  | nil =>
      have hnone : expiries ([] : List (TimerEntry α)) = ∅ := by
        simp [expiries]
      rw [hnone, insert_empty_eq]
      exact isLeast_singleton
  | cons timer timers ih =>
      rw [List.foldl_cons]
      cases hcancelled : timer.cancelled with
      | true =>
          rw [expiries_cons_of_cancelled hcancelled]
          exact ih least
      | false =>
          rw [expiries_cons_of_active hcancelled]
          by_cases hlt : timer.expiry < least
          · have hleast := ih timer.expiry
            simp only [hlt, Bool.not_false, decide_true, Bool.and_self,
              ↓reduceIte]
            refine ⟨Set.mem_insert_of_mem _ hleast.1, ?_⟩
            rintro expiry (rfl | hmem)
            · exact (hleast.2 (Set.mem_insert _ _)).trans hlt.le
            · exact hleast.2 hmem
          · have hleast := ih least
            simp only [hlt, Bool.not_false, decide_false, Bool.and_false]
            refine ⟨?_, ?_⟩
            · rcases hleast.1 with hsame | hmem
              · exact .inl hsame
              · exact .inr (.inr hmem)
            · rintro expiry (rfl | rfl | hmem)
              · exact hleast.2 (Set.mem_insert _ _)
              · exact (hleast.2 (Set.mem_insert _ _)).trans (not_lt.mp hlt)
              · exact hleast.2 (Set.mem_insert_of_mem _ hmem)

theorem isLeast_minExpiry (timers : List (TimerEntry α)) :
    IsLeast (insert timePointMax (expiries timers)) (minExpiry timers) :=
  isLeast_foldl timers timePointMax

/-! ## When the timeout is right -/

/-- Each timer which is active at the wait has at least as long to go as the
earliest timer had at the computation, in whole milliseconds, or as the default
timeout where there was no timer then. -/
def Covered (defaultTimeoutMs : ℤ) (loop : LoopTimers α)
    (iteration : LoopIteration α) : Prop :=
  ∀ timer ∈ (loop.atWait iteration).timers.elems, timer.cancelled = false →
    (loop.timers.elems = [] →
      0 ≤ defaultTimeoutMs ∧
        milliseconds defaultTimeoutMs ≤ timeLeft iteration.waited timer) ∧
    (loop.timers.elems ≠ [] → ∀ earliest,
      IsLeast (insert timePointMax (expiries loop.timers.elems)) earliest →
      milliseconds
          (castInt (wholeMilliseconds (earliest - iteration.calculated))) ≤
        timeLeft iteration.waited timer)

theorem wholeMilliseconds_of_nonneg {ticks : ℤ} (hpos : 0 ≤ ticks) :
    wholeMilliseconds ticks = ticks / 1000000 :=
  Int.tdiv_eq_ediv_of_nonneg hpos

theorem wholeMilliseconds_of_nonpos {ticks : ℤ} (hneg : ticks ≤ 0) :
    wholeMilliseconds ticks = -((-ticks) / 1000000) := by
  unfold wholeMilliseconds
  rw [← Int.tdiv_eq_ediv_of_nonneg (by omega), Int.neg_tdiv, Int.neg_neg]

theorem milliseconds_max_le {n : ℤ} {now : ℤ} {timer : TimerEntry α} :
    milliseconds (max 0 n) ≤ timeLeft now timer ↔
      milliseconds n ≤ timeLeft now timer := by
  unfold milliseconds timeLeft
  omega

theorem prompt_iff_covered (defaultTimeoutMs : ℤ) (loop : LoopTimers α)
    (iteration : LoopIteration α) :
    Prompt defaultTimeoutMs loop iteration ↔
      Covered defaultTimeoutMs loop iteration := by
  unfold Prompt Covered
  refine forall₃_congr fun timer _ _ => ?_
  by_cases hempty : loop.timers.elems = []
  · simp [calculateTimeout, hempty]
  · have hleast := isLeast_minExpiry loop.timers.elems
    have htimeout :
        loop.calculateTimeout defaultTimeoutMs iteration.calculated =
          max 0 (castInt (wholeMilliseconds
            (minExpiry loop.timers.elems - iteration.calculated))) := by
      simp [calculateTimeout, hempty]
    rw [htimeout, milliseconds_max_le]
    constructor
    · rintro ⟨_, hle⟩
      refine ⟨fun hnone => absurd hnone hempty, ?_⟩
      intro _ earliest hearliest
      rw [hearliest.unique hleast]
      exact hle
    · rintro ⟨_, hall⟩
      exact ⟨le_max_left _ _, hall hempty _ hleast⟩

theorem mem_of_active {timers : List (TimerEntry α)} {timer : TimerEntry α}
    (hmem : timer ∈ timers) (hactive : timer.cancelled = false) :
    timer.expiry ∈ expiries timers :=
  ⟨timer, hmem, hactive, rfl⟩

/-- A duration which has not run out by more than an `int` can hold is not
lengthened on its way to `poller::wait`. -/
theorem milliseconds_cast_le {ticks : ℤ}
    (hbound : -(2 ^ 31 * 1000000) ≤ ticks) :
    milliseconds (castInt (wholeMilliseconds ticks)) ≤ max 0 ticks := by
  have hdiv : wholeMilliseconds ticks * 1000000 ≤ max 0 ticks ∧
      -(2 ^ 31) ≤ wholeMilliseconds ticks ∧
      (ticks ≤ 0 → wholeMilliseconds ticks ≤ 0) := by
    rcases le_total 0 ticks with hpos | hneg
    · rw [wholeMilliseconds_of_nonneg hpos]
      omega
    · rw [wholeMilliseconds_of_nonpos hneg]
      omega
  obtain ⟨hle, hlow, hnonpos⟩ := hdiv
  have hcast : castInt (wholeMilliseconds ticks) ≤
      max 0 (wholeMilliseconds ticks) := by
    unfold castInt
    rw [Int.bmod_def]
    omega
  unfold milliseconds
  omega

/-- Rounding to whole milliseconds gives away what does not fill one. -/
theorem milliseconds_cast_le_whole {ticks : ℤ} (hpos : 0 ≤ ticks) :
    milliseconds (castInt (wholeMilliseconds ticks)) ≤
      ticks - ticks % 1000000 := by
  have hdiv : ticks / 1000000 * 1000000 = ticks - ticks % 1000000 := by
    omega
  have hcast : castInt (ticks / 1000000) ≤ ticks / 1000000 := by
    unfold castInt
    rw [Int.bmod_def]
    omega
  rw [wholeMilliseconds_of_nonneg hpos, milliseconds, ← hdiv]
  omega

/-- What the tasks and the clock may do between the computation and the wait.
The tasks leave no timer which expires before all of those that there were, and
if the earliest of these is not due yet, they take no longer than what the
rounding to milliseconds has given away.  No timer is overdue by more
milliseconds than an `int` can hold. -/
structure Steady (loop : LoopTimers α) (iteration : LoopIteration α) :
    Prop where
  kept : ∀ timer ∈ (loop.atWait iteration).timers.elems,
    timer.cancelled = false →
    ∃ earlier ∈ loop.timers.elems, earlier.cancelled = false ∧
      earlier.expiry ≤ timer.expiry
  brief : ∀ earliest,
    IsLeast (insert timePointMax (expiries loop.timers.elems)) earliest →
    iteration.calculated < earliest →
    iteration.waited - iteration.calculated ≤
      (earliest - iteration.calculated) % 1000000
  calculated_le : iteration.calculated ≤ timePointMax
  overdue : ∀ expiry ∈ expiries loop.timers.elems,
    -(2 ^ 31 * 1000000) ≤ expiry - iteration.calculated

theorem Steady.covered {loop : LoopTimers α} {iteration : LoopIteration α}
    (hsteady : Steady loop iteration) (defaultTimeoutMs : ℤ) :
    Covered defaultTimeoutMs loop iteration := by
  intro timer hmem hactive
  obtain ⟨earlier, hearlier, hwas, hle⟩ := hsteady.kept timer hmem hactive
  refine ⟨fun hnone => absurd hearlier (by simp [hnone]), ?_⟩
  intro _ earliest hearliest
  have hfirst : earliest ≤ earlier.expiry :=
    hearliest.2 (Set.mem_insert_of_mem _ (mem_of_active hearlier hwas))
  unfold timeLeft
  by_cases hahead : iteration.calculated < earliest
  · have hbrief := hsteady.brief earliest hearliest hahead
    have hwhole := milliseconds_cast_le_whole
      (show 0 ≤ earliest - iteration.calculated by omega)
    omega
  · have hlow : -(2 ^ 31 * 1000000) ≤ earliest - iteration.calculated := by
      rcases hearliest.1 with rfl | hin
      · have hnow := hsteady.calculated_le
        omega
      · exact hsteady.overdue earliest hin
    have hcast := milliseconds_cast_le hlow
    omega

/-- The loop sleeps past no timer in a run exactly when every iteration of the
run is covered.  It is where every iteration is steady. -/
theorem prompt_run_iff (defaultTimeoutMs : ℤ) (loop : LoopTimers α)
    (iterations : List (LoopIteration α)) :
    (StepRun.Along iterate (Prompt defaultTimeoutMs) loop iterations ↔
        StepRun.Along iterate (Covered defaultTimeoutMs) loop iterations) ∧
      (StepRun.Along iterate Steady loop iterations →
        StepRun.Along iterate (Prompt defaultTimeoutMs) loop
          iterations) := by
  have hiff : ∀ loop (iteration : LoopIteration α),
      Prompt defaultTimeoutMs loop iteration ↔
        Covered defaultTimeoutMs loop iteration :=
    prompt_iff_covered defaultTimeoutMs
  constructor
  · exact StepRun.along_congr (fun _ => True)
      (fun loop iteration _ => hiff loop iteration)
      (fun _ _ _ _ _ _ => trivial) trivial iterations
  · exact StepRun.Along.mono fun loop iteration hsteady =>
      (hiff loop iteration).mpr (hsteady.covered defaultTimeoutMs)

/-- A timer with four and a half milliseconds to go, and a task of less than
half a millisecond which schedules a later one. -/
def fiveMilliseconds : LoopTimers Unit :=
  (create fun size => 2 * size).applyAll [.schedule ⟨0, 5, 5, (), false⟩]

def briefTask : LoopIteration Unit :=
  ⟨500000, [.schedule ⟨500000, 10, 10, (), false⟩], 900000, [], 20000000,
    fun _ => []⟩

theorem prompt_run_iff_brief :
    StepRun.Along iterate (Prompt 100) fiveMilliseconds [briefTask] := by
  have hleast := isLeast_minExpiry fiveMilliseconds.timers.elems
  have hearliest : minExpiry fiveMilliseconds.timers.elems = 5000000 := by
    decide +kernel
  have hsteady : Steady fiveMilliseconds briefTask := by
    refine ⟨by decide +kernel, ?_, by decide, ?_⟩
    · intro earliest hother _
      rw [hother.unique hleast, hearliest]
      decide
    · intro expiry hexpiry
      have hle := hleast.2 (Set.mem_insert_of_mem _ hexpiry)
      rw [hearliest] at hle
      have hnow : briefTask.calculated = 500000 := rfl
      omega
  exact (prompt_run_iff 100 fiveMilliseconds [briefTask]).2
    ⟨hsteady, fun _ _ => trivial⟩

/-- A task schedules a timer of one millisecond after the default timeout has
been decided on. -/
def scheduling : List (LoopIteration Unit) :=
  [⟨0, [.schedule ⟨0, 1, 1, (), false⟩], 0, [], 100000000, fun _ => []⟩]

theorem sleeps_past_scheduled_timer :
    ¬StepRun.Along iterate (Prompt 100)
      (create fun size => 2 * size) scheduling := by
  rintro ⟨hprompt, _⟩
  obtain ⟨_, hle⟩ := hprompt ⟨1, 1000000, 1000000, (), false, false⟩
    (by decide +kernel) rfl
  exact absurd hle (by decide +kernel)

end LoopTimers

end VynxHttp
