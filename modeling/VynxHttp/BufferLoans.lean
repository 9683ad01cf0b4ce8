import VynxHttp.BufferGrowth
import VynxHttp.BufferPool

/-!
# Buffers on loan

Pools and the buffers which they have handed out.  A borrower writes, reads and
grows its buffer or moves the contents away before it gives the buffer back, to
this pool or to another one.
-/

namespace VynxHttp

/-- The loans are numbered; `none` stands for a pointer which is null since
its buffer has been given back.  `origins` are the pools of the loans. -/
structure BufferLoans where
  pools : ℕ → BufferPool
  lent : List (Option ByteBuffer) := []
  origins : List ℕ := []

inductive LoanEvent where
  | acquire (pool : ℕ)
  | use (loan : ℕ) (op : BufferOp)
  | moveOut (loan : ℕ)
  | release (loan pool : ℕ)

namespace BufferLoans

def starting (configs : ℕ → PoolConfig) : BufferLoans where
  pools := fun pool => .create (configs pool)

/-- What a borrower makes of the buffer of a loan. -/
def change (s : BufferLoans) (loan : ℕ) (buffer : ByteBuffer) : BufferLoans :=
  { s with lent := s.lent.set loan (some buffer) }

def step (s : BufferLoans) : LoanEvent → Option BufferLoans
  | .acquire pool =>
      let acquired := (s.pools pool).acquire
      some
        { pools := Function.update s.pools pool acquired.1
          lent := s.lent ++ [some acquired.2]
          origins := s.origins ++ [pool] }
  | .use loan op =>
      s.lent[loan]?.join.bind fun buffer =>
        if buffer.Allowed op then
          (buffer.apply64 op).map fun applied => s.change loan applied.1
        else none
  | .moveOut loan =>
      s.lent[loan]?.join.map fun buffer =>
        s.change loan buffer.moveConstruct.2
  | .release loan pool =>
      s.lent[loan]?.map fun buffer =>
        { s with
          pools := Function.update s.pools pool
            ((s.pools pool).release buffer)
          lent := s.lent.set loan none }

end BufferLoans

/-- The buffer which `acquire` would return is empty and large enough. -/
def BufferPool.HandsOutFit (pool : BufferPool) : Prop :=
  pool.acquire.2.size = 0 ∧
    pool.config.bufferCapacity ≤ pool.acquire.2.capacity

/-- The buffers in the pool are large enough. -/
def BufferPool.Stocked (pool : BufferPool) : Prop :=
  ∀ buffer ∈ pool.pool, pool.config.bufferCapacity ≤ buffer.capacity

theorem getElem?_concat_eq_some {β : Type*} {l : List β} {x y : β} {i : ℕ} :
    (l ++ [x])[i]? = some y ↔ l[i]? = some y ∨ i = l.length ∧ x = y := by
  rcases Nat.lt_trichotomy i l.length with hlt | heq | hgt
  · rw [List.getElem?_append_left hlt]
    simp [Nat.ne_of_lt hlt]
  · rw [heq, List.getElem?_concat_length, List.getElem?_eq_none le_rfl]
    simp
  · rw [List.getElem?_eq_none hgt.le,
      List.getElem?_eq_none (by simpa using hgt)]
    simp [Nat.ne_of_gt hgt]

/-! ## What the pool hands out -/

namespace BufferPool

variable {pool : BufferPool} {buffer : ByteBuffer}

theorem size_acquire (pool : BufferPool) : pool.acquire.2.size = 0 := by
  unfold acquire
  split <;> rfl

theorem config_acquire (pool : BufferPool) :
    pool.acquire.1.config = pool.config := by
  unfold acquire
  split <;> rfl

theorem config_release (pool : BufferPool) (buffer : Option ByteBuffer) :
    (pool.release buffer).config = pool.config := by
  unfold release
  split
  next => rfl
  next => split <;> rfl

theorem Stocked.handsOutFit (hstocked : pool.Stocked) :
    pool.HandsOutFit := by
  refine ⟨pool.size_acquire, ?_⟩
  unfold acquire
  split
  next buffer hlast => exact hstocked buffer (List.mem_of_getLast? hlast)
  next => exact (ByteBuffer.capacity_create _).ge

theorem Stocked.acquire (hstocked : pool.Stocked) :
    pool.acquire.1.Stocked := by
  intro buffer hbuffer
  rw [config_acquire]
  unfold BufferPool.acquire at hbuffer
  split at hbuffer
  next => exact hstocked buffer (List.mem_of_mem_dropLast hbuffer)
  next => exact hstocked buffer hbuffer

theorem stocked_create (config : PoolConfig) : (create config).Stocked := by
  intro buffer hbuffer
  rw [List.eq_of_mem_replicate hbuffer]
  exact (ByteBuffer.capacity_create _).ge

/-- A buffer which is given back lies on top. -/
theorem pool_release_of_room (hroom : pool.size < pool.config.maxSize)
    (buffer : ByteBuffer) :
    (pool.release (some buffer)).pool = pool.pool ++ [buffer.reset] := by
  simp [release, hroom]

theorem Stocked.release (hstocked : pool.Stocked) {held : Option ByteBuffer}
    (hlarge : ∀ buffer, held = some buffer →
      pool.size < pool.config.maxSize →
        pool.config.bufferCapacity ≤ buffer.capacity) :
    (pool.release held).Stocked := by
  cases held with
  | none => exact hstocked
  | some buffer =>
      by_cases hroom : pool.size < pool.config.maxSize
      · intro other hother
        rw [config_release]
        rw [pool_release_of_room hroom, List.mem_append,
          List.mem_singleton] at hother
        rcases hother with hold | rfl
        · exact hstocked other hold
        · exact hlarge buffer rfl hroom
      · have hfull : pool.release (some buffer) = pool := by
          simp [BufferPool.release, hroom]
        rw [hfull]
        exact hstocked

theorem capacity_of_handsOutFit_release
    (hroom : pool.size < pool.config.maxSize)
    (hfit : (pool.release (some buffer)).HandsOutFit) :
    pool.config.bufferCapacity ≤ buffer.capacity := by
  have hlarge := hfit.2
  rw [config_release] at hlarge
  have hpool := pool_release_of_room hroom buffer
  have hlast : (pool.release (some buffer)).acquire.2 = buffer.reset := by
    simp [acquire, hpool]
    rfl
  rw [hlast] at hlarge
  exact hlarge

end BufferPool

namespace BufferLoans

variable {s s' : BufferLoans} {event : LoanEvent}

/-- A buffer which goes back into a pool is as large as the pool's new ones. -/
def ReturnsLarge (s : BufferLoans) (event : LoanEvent) : Prop :=
  ∀ loan pool buffer, event = .release loan pool →
    s.lent[loan]? = some (some buffer) →
    (s.pools pool).size < (s.pools pool).config.maxSize →
      (s.pools pool).config.bufferCapacity ≤ buffer.capacity

def Stocked (s : BufferLoans) : Prop := ∀ pool, (s.pools pool).Stocked

theorem stocked_starting (configs : ℕ → PoolConfig) :
    (starting configs).Stocked :=
  fun pool => BufferPool.stocked_create (configs pool)

theorem forall_update {P : BufferPool → Prop} {pools : ℕ → BufferPool}
    {index : ℕ} {changed : BufferPool} (hall : ∀ pool, P (pools pool))
    (hchanged : P changed) (pool : ℕ) :
    P (Function.update pools index changed pool) := by
  by_cases hsame : pool = index
  · rw [hsame, Function.update_self]
    exact hchanged
  · rw [Function.update_of_ne hsame]
    exact hall pool

theorem Stocked.step (hstocked : s.Stocked) (hreturns : s.ReturnsLarge event)
    (hstep : s.step event = some s') : s'.Stocked := by
  cases event with
  | acquire pool =>
      rw [BufferLoans.step, Option.some.injEq] at hstep
      rw [← hstep]
      exact forall_update hstocked (hstocked pool).acquire
  | use loan op =>
      rw [BufferLoans.step, Option.bind_eq_some_iff] at hstep
      rcases hstep with ⟨buffer, _, hchange⟩
      rw [Option.ite_none_right_eq_some, Option.map_eq_some_iff] at hchange
      rcases hchange.2 with ⟨applied, _, rfl⟩
      exact hstocked
  | moveOut loan =>
      rw [BufferLoans.step, Option.map_eq_some_iff] at hstep
      rcases hstep with ⟨buffer, _, rfl⟩
      exact hstocked
  | release loan pool =>
      rw [BufferLoans.step, Option.map_eq_some_iff] at hstep
      rcases hstep with ⟨held, hheld, rfl⟩
      refine forall_update hstocked ((hstocked pool).release ?_)
      intro buffer hbuffer
      exact hreturns loan pool buffer rfl (hbuffer ▸ hheld)

/-- In every state of a run `acquire` returns a buffer which is fit for use
exactly when the buffers which have gone back into a pool are large enough. -/
theorem handsOutFit_iff (configs : ℕ → PoolConfig)
    (events : List LoanEvent) :
    (∀ before s, before <+: events →
        StepRun.run step (starting configs) before = some s →
        ∀ pool, (s.pools pool).HandsOutFit) ↔
      StepRun.Along step ReturnsLarge (starting configs) events := by
  constructor
  · intro hfit
    rw [StepRun.along_iff_prefix]
    rintro before event s hprefix hrun loan pool buffer rfl hlent hroom
    have hstep : s.step (.release loan pool) = some
        { s with
          pools := Function.update s.pools pool
            ((s.pools pool).release (some buffer))
          lent := s.lent.set loan none } := by
      rw [step, hlent, Option.map_some]
    have hone : StepRun.run step s [.release loan pool] =
        s.step (.release loan pool) := StepRun.run_singleton s _
    have hafter := StepRun.run_append_eq_some.mpr
      ⟨s, hrun, hone.trans hstep⟩
    have hreleased := hfit _ _ hprefix hafter pool
    dsimp only at hreleased
    rw [Function.update_self] at hreleased
    exact BufferPool.capacity_of_handsOutFit_release hroom hreleased
  · rintro halong before s ⟨after, rfl⟩ hrun pool
    have hstocked : s.Stocked :=
      StepRun.run_invariant_along Stocked ReturnsLarge
        (fun _ _ _ hstocked hreturns hstep => hstocked.step hreturns hstep)
        (stocked_starting configs) halong.append.1 hrun
    exact (hstocked pool).handsOutFit

/-- The contents of a buffer are moved out before it is given back. -/
theorem not_handsOutFit_moved :
    ¬∀ before s, before <+: [.acquire 0, .moveOut 0, .release 0 0] →
      StepRun.run step (starting fun _ => {}) before = some s →
        ∀ pool, (s.pools pool).HandsOutFit := by
  intro hfit
  have hsome : (StepRun.run step (starting fun _ => {})
      [.acquire 0, .moveOut 0, .release 0 0]).isSome = true := rfl
  rcases Option.isSome_iff_exists.mp hsome with ⟨s, hrun⟩
  have hlarge := (hfit _ s (List.prefix_refl _) hrun 0).2
  have hcapacity : (StepRun.run step (starting fun _ => {})
      [.acquire 0, .moveOut 0, .release 0 0]).map
        (fun s => (s.pools 0).acquire.2.capacity) = some 0 := rfl
  have hconfig : (StepRun.run step (starting fun _ => {})
      [.acquire 0, .moveOut 0, .release 0 0]).map
        (fun s => (s.pools 0).config.bufferCapacity) = some 4096 := rfl
  rw [hrun, Option.map_some, Option.some.injEq] at hcapacity hconfig
  omega

/-! ## Buffers which go home with their storage -/

/-- The contents stay in their buffer, and the buffer goes back to the pool
from which it has been acquired. -/
def GoesHome (s : BufferLoans) (event : LoanEvent) : Prop :=
  (∀ loan, event ≠ .moveOut loan) ∧
    ∀ loan pool, event = .release loan pool → s.origins[loan]? = some pool

structure Large (s : BufferLoans) : Prop where
  stocked : s.Stocked
  length : s.lent.length = s.origins.length
  lent : ∀ (loan pool : ℕ) (buffer : ByteBuffer),
    s.lent[loan]? = some (some buffer) →
    s.origins[loan]? = some pool →
      (s.pools pool).config.bufferCapacity ≤ buffer.capacity

theorem Large.returnsLarge (hlarge : s.Large) (hhome : s.GoesHome event) :
    s.ReturnsLarge event := by
  intro loan pool buffer hevent hlent _
  exact hlarge.lent loan pool buffer hlent (hhome.2 loan pool hevent)

theorem config_update {pools : ℕ → BufferPool} {index : ℕ}
    {changed : BufferPool} (hconfig : changed.config = (pools index).config)
    (pool : ℕ) :
    (Function.update pools index changed pool).config =
      (pools pool).config := by
  by_cases hsame : pool = index
  · rw [hsame, Function.update_self, hconfig]
  · rw [Function.update_of_ne hsame]

theorem Large.step (hlarge : s.Large) (hhome : s.GoesHome event)
    (hstep : s.step event = some s') : s'.Large := by
  have hstocked := hlarge.stocked.step (hlarge.returnsLarge hhome) hstep
  cases event with
  | acquire pool =>
      rw [BufferLoans.step, Option.some.injEq] at hstep
      rw [← hstep] at hstocked ⊢
      refine ⟨hstocked, by simp [hlarge.length], ?_⟩
      intro loan origin buffer hlent horigin
      dsimp only at hlent horigin ⊢
      rw [config_update (BufferPool.config_acquire _)]
      have hlength := hlarge.length
      rcases getElem?_concat_eq_some.mp hlent with hold | ⟨hlast, hnew⟩
      · have hlt := (List.getElem?_eq_some_iff.mp hold).1
        rcases getElem?_concat_eq_some.mp horigin with hbefore | ⟨hlast, _⟩
        · exact hlarge.lent loan origin buffer hold hbefore
        · omega
      · rcases getElem?_concat_eq_some.mp horigin with hbefore | ⟨_, rfl⟩
        · have hlt := (List.getElem?_eq_some_iff.mp hbefore).1
          omega
        · rw [← Option.some.inj hnew]
          exact (hlarge.stocked pool).handsOutFit.2
  | use loan op =>
      rw [BufferLoans.step, Option.bind_eq_some_iff] at hstep
      rcases hstep with ⟨buffer, hjoin, hchange⟩
      rw [Option.ite_none_right_eq_some, Option.map_eq_some_iff] at hchange
      rcases hchange.2 with ⟨applied, happly, rfl⟩
      have hlent : s.lent[loan]? = some (some buffer) :=
        Option.join_eq_some_iff.mp hjoin
      refine ⟨hstocked, by simp [change, hlarge.length], ?_⟩
      intro other origin changed hother horigin
      rw [change, List.getElem?_set] at hother
      split at hother
      next hsame =>
        rw [Option.ite_none_right_eq_some] at hother
        have hbuffer := Option.some.inj (Option.some.inj hother.2)
        rw [← hsame] at horigin
        rw [← hbuffer]
        exact (hlarge.lent loan origin buffer hlent horigin).trans
          (ByteBuffer.capacity_le_apply64 happly)
      next => exact hlarge.lent other origin changed hother horigin
  | moveOut loan => exact absurd rfl (hhome.1 loan)
  | release loan pool =>
      rw [BufferLoans.step, Option.map_eq_some_iff] at hstep
      rcases hstep with ⟨held, _, rfl⟩
      refine ⟨hstocked, by simp [hlarge.length], ?_⟩
      intro other origin buffer hother horigin
      dsimp only at hother horigin ⊢
      rw [config_update (BufferPool.config_release _ _)]
      rw [List.getElem?_set] at hother
      split at hother
      next =>
        rw [Option.ite_none_right_eq_some] at hother
        cases hother.2
      next => exact hlarge.lent other origin buffer hother horigin

/-- Buffers which go home with their storage are large when they do. -/
theorem returnsLarge_of_goesHome (configs : ℕ → PoolConfig)
    {events : List LoanEvent}
    (hhome : StepRun.Along step GoesHome (starting configs) events) :
    StepRun.Along step ReturnsLarge (starting configs) events := by
  have hstart : (starting configs).Large :=
    ⟨stocked_starting configs, rfl, by simp [starting]⟩
  rw [StepRun.along_iff_prefix] at hhome ⊢
  intro before event s hprefix hrun
  have hlarge : s.Large := by
    refine StepRun.run_invariant_along Large GoesHome
      (fun _ _ _ hlarge hhome hstep => hlarge.step hhome hstep) hstart
      ?_ hrun
    rw [StepRun.along_iff_prefix]
    intro earlier other t hearlier
    exact hhome earlier other t
      (hearlier.trans ((List.prefix_append before _).trans hprefix))
  exact hlarge.returnsLarge (hhome before event s hprefix hrun)

end BufferLoans

end VynxHttp
