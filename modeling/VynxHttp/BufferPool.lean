import Mathlib.Data.List.Infix
import Mathlib.Logic.Function.Basic
import VynxHttp.ByteBuffer
import VynxHttp.StepRun

/-!
# The buffer pool

`buffer_pool` keeps the buffers which have been given back, up to a maximum,
and hands them out again.  Its calls are also followed from thread to thread:
a call takes the lock, tests what it finds, acts on the test and gives the
lock back, and between these steps other threads go on.
-/

namespace VynxHttp

structure PoolConfig where
  initialSize : ℕ := 16
  maxSize : ℕ := 256
  bufferCapacity : ℕ := 4096
  deriving DecidableEq, Repr

/-- The buffers stand in the order of the vector, with its back at the end. -/
structure BufferPool where
  config : PoolConfig
  pool : List ByteBuffer

/-- The calls which take the lock.  `none` stands for a null pointer. -/
inductive PoolCall where
  | acquire
  | release (buffer : Option ByteBuffer)
  | size
  | clear

namespace BufferPool

/-- `buffer_pool(cfg)`, which fills the pool without looking at the
maximum. -/
def create (config : PoolConfig) : BufferPool where
  config := config
  pool := List.replicate config.initialSize (.create config.bufferCapacity)

def size (pool : BufferPool) : ℕ := pool.pool.length

def acquire (pool : BufferPool) : BufferPool × ByteBuffer :=
  match pool.pool.getLast? with
  | some buffer => ({ pool with pool := pool.pool.dropLast }, buffer.reset)
  | none => (pool, .create pool.config.bufferCapacity)

def release (pool : BufferPool) (buffer : Option ByteBuffer) : BufferPool :=
  match buffer with
  | none => pool
  | some buffer =>
      if pool.size < pool.config.maxSize then
        { pool with pool := pool.pool ++ [buffer.reset] }
      else pool

def clear (pool : BufferPool) : BufferPool := { pool with pool := [] }

def apply (pool : BufferPool) : PoolCall → BufferPool
  | .acquire => pool.acquire.1
  | .release buffer => pool.release buffer
  | .size => pool
  | .clear => pool.clear

/-! ## A call in two steps -/

/-- What a call tests under the lock. -/
def passes (pool : BufferPool) : PoolCall → Bool
  | .acquire => !pool.pool.isEmpty
  | .release _ => pool.size < pool.config.maxSize
  | .size => true
  | .clear => true

/-- What a call does under the lock when it knows the test. -/
def perform (pool : BufferPool) : PoolCall → Bool → BufferPool
  | .acquire, true => { pool with pool := pool.pool.dropLast }
  | .release (some buffer), true =>
      { pool with pool := pool.pool ++ [buffer.reset] }
  | .clear, _ => pool.clear
  | _, _ => pool

theorem perform_acquire_true (pool : BufferPool) :
    pool.perform .acquire true =
      { pool with pool := pool.pool.dropLast } := rfl

theorem perform_passes (pool : BufferPool) (call : PoolCall) :
    pool.perform call (pool.passes call) = pool.apply call := by
  cases call with
  | acquire =>
      rcases List.eq_nil_or_concat pool.pool with hnil | ⟨front, last, hpool⟩
      · simp [passes, perform, apply, acquire, hnil]
      · have hpasses : pool.passes .acquire = true := by
          simp [passes, hpool]
        rw [hpasses, perform_acquire_true]
        simp [apply, acquire, hpool]
  | release buffer =>
      cases buffer with
      | none =>
          unfold perform apply release
          cases pool.passes (.release none) <;> rfl
      | some buffer =>
          by_cases hroom : pool.size < pool.config.maxSize
          · simp [passes, perform, apply, release, hroom]
          · simp [passes, perform, apply, release, hroom]
  | size => rfl
  | clear => rfl

theorem config_perform (pool : BufferPool) (call : PoolCall)
    (passed : Bool) : (pool.perform call passed).config = pool.config := by
  unfold perform
  split <;> rfl

/-- Only a release after a test which it has passed adds a buffer. -/
theorem size_perform_le (pool : BufferPool) (call : PoolCall)
    (passed : Bool)
    (hroom : passed = true → ∀ buffer, call = .release (some buffer) →
      pool.size < pool.config.maxSize)
    (hbounded : pool.size ≤ pool.config.maxSize) :
    (pool.perform call passed).size ≤ pool.config.maxSize := by
  unfold perform
  split
  next =>
    have hdrop := pool.pool.length_dropLast
    unfold size at hbounded ⊢
    simp only [hdrop]
    omega
  next buffer =>
    have hlt := hroom rfl buffer rfl
    unfold size at hlt ⊢
    rw [List.length_append, List.length_singleton]
    omega
  next => exact Nat.zero_le _
  next => exact hbounded

end BufferPool

/-! ## Threads -/

/-- Where a thread is in a call. -/
inductive CallPhase where
  | outside
  | waiting (call : PoolCall)
  | locked (call : PoolCall)
  | tested (call : PoolCall) (passed : Bool)
  | leaving

def CallPhase.holds : CallPhase → Bool
  | .locked _ | .tested _ _ | .leaving => true
  | .outside | .waiting _ => false

inductive ThreadEvent where
  | call (call : PoolCall)
  | lock
  | test
  | perform
  | unlock

structure PoolThreads where
  pool : BufferPool
  owner : Option ℕ := none
  phases : ℕ → CallPhase := fun _ => .outside

namespace PoolThreads

def goTo (s : PoolThreads) (thread : ℕ) (phase : CallPhase) : PoolThreads :=
  { s with phases := Function.update s.phases thread phase }

/-- A null pointer is given back without the lock. -/
def step (s : PoolThreads) : ℕ × ThreadEvent → Option PoolThreads
  | (thread, event) =>
      match s.phases thread, event with
      | .outside, .call (.release none) => some s
      | .outside, .call call => some (s.goTo thread (.waiting call))
      | .waiting call, .lock =>
          if s.owner = none then
            some { s.goTo thread (.locked call) with owner := some thread }
          else none
      | .locked call, .test =>
          some (s.goTo thread (.tested call (s.pool.passes call)))
      | .tested call passed, .perform =>
          some { s.goTo thread .leaving with
            pool := s.pool.perform call passed }
      | .leaving, .unlock =>
          some { s.goTo thread .outside with owner := none }
      | _, _ => none

def starting (config : PoolConfig) : PoolThreads where
  pool := .create config

/-- A thread which is in a call has the lock, and what it has tested still
holds. -/
structure Sound (config : PoolConfig) (s : PoolThreads) : Prop where
  config_eq : s.pool.config = config
  bounded : s.pool.size ≤ config.maxSize
  owned : ∀ thread, (s.phases thread).holds = true → s.owner = some thread
  room : ∀ thread buffer,
    s.phases thread = .tested (.release (some buffer)) true →
      s.pool.size < config.maxSize

variable {config : PoolConfig} {s s' : PoolThreads} {thread : ℕ}
  {event : ThreadEvent}

@[simp] theorem phases_goTo_self (phase : CallPhase) :
    (s.goTo thread phase).phases thread = phase :=
  Function.update_self ..

theorem phases_goTo_of_ne {other : ℕ} (hne : other ≠ thread)
    (phase : CallPhase) :
    (s.goTo thread phase).phases other = s.phases other :=
  Function.update_of_ne hne ..

/-- The other threads are where they were. -/
theorem Sound.other_not_holding (hsound : Sound config s)
    (howner : s.owner = some thread ∨ s.owner = none) {other : ℕ}
    (hne : other ≠ thread) : (s.phases other).holds = false := by
  by_contra hholds
  rw [Bool.not_eq_false] at hholds
  have howned := hsound.owned other hholds
  rcases howner with hthread | hnone
  · rw [hthread, Option.some.injEq] at howned
    exact hne howned.symm
  · rw [hnone] at howned
    cases howned

/-- A thread goes on while the pool stays as it is. -/
theorem Sound.goTo (hsound : Sound config s) (phase : CallPhase)
    (owner : Option ℕ)
    (howner : s.owner = some thread ∨ s.owner = none ∨
      phase.holds = false ∧ owner = s.owner)
    (hholds : phase.holds = true → owner = some thread)
    (htested : ∀ buffer, phase = .tested (.release (some buffer)) true →
      s.pool.size < config.maxSize) :
    Sound config { s.goTo thread phase with owner } where
  config_eq := hsound.config_eq
  bounded := hsound.bounded
  owned := by
    intro other hother
    by_cases hsame : other = thread
    · subst hsame
      exact hholds (by simpa using hother)
    · have hphase : (s.phases other).holds = true := by
        simpa [phases_goTo_of_ne hsame] using hother
      rcases howner with hthread | hnone | ⟨_, rfl⟩
      · rw [hsound.other_not_holding (.inl hthread) hsame] at hphase
        cases hphase
      · rw [hsound.other_not_holding (.inr hnone) hsame] at hphase
        cases hphase
      · exact hsound.owned other hphase
  room := by
    intro other buffer hphase
    by_cases hsame : other = thread
    · subst hsame
      exact htested buffer (by simpa using hphase)
    · exact hsound.room other buffer
        (by simpa [phases_goTo_of_ne hsame] using hphase)

theorem Sound.performs (hsound : Sound config s) {call : PoolCall}
    {passed : Bool} (hphase : s.phases thread = .tested call passed) :
    Sound config { s.goTo thread .leaving with
      pool := s.pool.perform call passed } := by
  have howner : s.owner = some thread :=
    hsound.owned thread (by rw [hphase]; rfl)
  have hconfig := s.pool.config_perform call passed
  rw [hsound.config_eq] at hconfig
  have hothers : ∀ other, other ≠ thread →
      (s.phases other).holds = false :=
    fun other hne => hsound.other_not_holding (.inl howner) hne
  constructor
  · exact hconfig
  · have hroom : passed = true → ∀ buffer,
        call = .release (some buffer) →
          s.pool.size < s.pool.config.maxSize := by
      rintro rfl buffer rfl
      rw [hsound.config_eq]
      exact hsound.room thread buffer hphase
    have hbounded := hsound.bounded
    rw [← hsound.config_eq] at hbounded ⊢
    exact s.pool.size_perform_le call passed hroom hbounded
  · intro other hother
    by_cases hsame : other = thread
    · rw [hsame]
      exact howner
    · rw [show ({ s.goTo thread .leaving with
          pool := s.pool.perform call passed } : PoolThreads).phases other =
            s.phases other from phases_goTo_of_ne hsame _,
        hothers other hsame] at hother
      cases hother
  · intro other buffer hother
    by_cases hsame : other = thread
    · rw [hsame] at hother
      simp at hother
    · have hholding : (s.phases other).holds = true := by
        rw [show s.phases other = .tested (.release (some buffer)) true from
          (phases_goTo_of_ne hsame _).symm.trans hother]
        rfl
      rw [hothers other hsame] at hholding
      cases hholding

theorem Sound.step (hsound : Sound config s)
    (hstep : s.step (thread, event) = some s') : Sound config s' := by
  unfold PoolThreads.step at hstep
  simp only at hstep
  split at hstep
  next =>
    rw [Option.some.injEq] at hstep
    exact hstep ▸ hsound
  next hphase _ =>
    rw [Option.some.injEq] at hstep
    rw [← hstep]
    exact hsound.goTo _ s.owner (.inr (.inr ⟨rfl, rfl⟩))
      (by simp [CallPhase.holds])
      (by simp)
  next call hphase =>
    rw [Option.ite_none_right_eq_some, Option.some.injEq] at hstep
    rw [← hstep.2]
    exact hsound.goTo _ _ (.inr (.inl hstep.1)) (fun _ => rfl) (by simp)
  next call hphase =>
    have howner := hsound.owned thread (by rw [hphase]; rfl)
    rw [Option.some.injEq] at hstep
    rw [← hstep]
    refine hsound.goTo _ s.owner (.inl howner) (fun _ => howner) ?_
    intro buffer htested
    rw [CallPhase.tested.injEq] at htested
    have hpasses := htested.2
    rw [htested.1] at hpasses
    have hlt : s.pool.size < s.pool.config.maxSize := by
      simpa [BufferPool.passes] using hpasses
    rwa [hsound.config_eq] at hlt
  next call passed hphase =>
    rw [Option.some.injEq] at hstep
    rw [← hstep]
    exact hsound.performs hphase
  next hphase =>
    have howner := hsound.owned thread (by rw [hphase]; rfl)
    rw [Option.some.injEq] at hstep
    rw [← hstep]
    exact hsound.goTo _ none (.inl howner) (by simp [CallPhase.holds]) (by simp)
  next => cases hstep

theorem sound_starting (hinitial : config.initialSize ≤ config.maxSize) :
    Sound config (starting config) where
  config_eq := rfl
  bounded := by
    simpa [starting, BufferPool.create, BufferPool.size] using hinitial
  owned := by
    intro thread hholds
    cases hholds
  room := by
    intro thread buffer hphase
    cases hphase

/-- The pool stays within its maximum, whatever the threads call and however
their calls interleave, exactly when it has been created within it. -/
theorem size_le_maxSize_iff (config : PoolConfig)
    (events : List (ℕ × ThreadEvent)) :
    (∀ before s, before <+: events →
        StepRun.run PoolThreads.step (starting config) before = some s →
        s.pool.size ≤ config.maxSize) ↔
      config.initialSize ≤ config.maxSize := by
  constructor
  · intro hbounded
    have hstart := hbounded [] _ (List.nil_prefix) (StepRun.run_nil _)
    simpa [starting, BufferPool.create, BufferPool.size] using hstart
  · intro hinitial before s _ hrun
    have hsound : Sound config s :=
      StepRun.run_invariant (Sound config) (fun _ => True)
        (fun _ _ _ hsound _ hstep => hsound.step hstep)
        (sound_starting hinitial) (fun _ _ => trivial) hrun
    exact hsound.bounded

/-- Three buffers are created for a pool of two. -/
theorem size_not_le_maxSize :
    ¬∀ before s, before <+: [] →
      StepRun.run PoolThreads.step
          (starting { initialSize := 3, maxSize := 2 }) before = some s →
        s.pool.size ≤ 2 := by
  intro hbounded
  have hstart := hbounded [] _ (List.nil_prefix) (StepRun.run_nil _)
  simp [starting, BufferPool.create, BufferPool.size] at hstart

/-! ## A call without interruption -/

/-- What a thread does to the pool in a call is what the call does. -/
theorem run_call (s : PoolThreads) (houtside : s.phases thread = .outside)
    (hfree : s.owner = none) {call : PoolCall}
    (hcall : call ≠ .release none) :
    ∃ s', StepRun.run PoolThreads.step s
        [(thread, .call call), (thread, .lock), (thread, .test),
          (thread, .perform), (thread, .unlock)] = some s' ∧
      s'.pool = s.pool.apply call ∧ s'.owner = none ∧
      s'.phases thread = .outside := by
  have hwaiting : s.step (thread, .call call) =
      some (s.goTo thread (.waiting call)) := by
    cases call with
    | acquire => simp only [PoolThreads.step, houtside]
    | release buffer =>
        cases buffer with
        | none => exact absurd rfl hcall
        | some buffer => simp only [PoolThreads.step, houtside]
    | size => simp only [PoolThreads.step, houtside]
    | clear => simp only [PoolThreads.step, houtside]
  rw [StepRun.run_cons_of_eq hwaiting]
  simp [StepRun.run, PoolThreads.step, goTo, hfree, s.pool.perform_passes]

end PoolThreads

end VynxHttp
