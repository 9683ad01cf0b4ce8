import VynxHttp.SignalHandler

/-!
# Who `g_signal_state` points to

Only `create` lets the pointer point to a state, and only the destructor takes
it back.  So it is null or points to where the latest state was allocated, and
two things can go wrong: a handler which owns an older state is destroyed while
the latest state is still alive, and a handler which owns the latest state is
assigned to.
-/

namespace VynxHttp.SignalHandlers

open Ownership

variable {world next : SignalHandlers} {event : SignalEvent}

/-- The pointer does not dangle, and it points to the latest state as long as
this is alive. -/
structure Registered (world : SignalHandlers) : Prop where
  alive : ∀ state, world.signalState = some state → world.Alive state
  current : ∀ state, world.latest = some state → world.Alive state →
    world.signalState = some state

/-- After the step, the pointer is as it should be. -/
def Registers (world : SignalHandlers) (event : SignalEvent) : Prop :=
  ∀ next, world.step event = some next → next.Registered

/-- No handler of an older state is destroyed while the latest one is alive,
and no handler of the latest state is assigned to. -/
def Orderly (world : SignalHandlers) : SignalEvent → Prop
  | .destroy handler => ∀ state latest,
      world.handlers.find? handler = some (some state) →
        world.latest = some latest → world.Alive latest → state = latest
  | .moveAssign handler source => handler ≠ source →
      (world.handlers.find? source).isSome →
        ∀ state, world.handlers.find? handler = some (some state) →
          world.latest ≠ some state
  | _ => True

/-- What holds whatever is done with the handlers. -/
structure WellOwned (world : SignalHandlers) : Prop where
  exclusive : Exclusive world.handlers
  pointsToLatest : world.signalState = none ∨ world.signalState = world.latest

/-! ## Steps -/

theorem WellOwned.step (howned : world.WellOwned)
    (hstep : world.step event = some next) : next.WellOwned := by
  cases event with
  | create handler state =>
      obtain ⟨_, hfresh, rfl⟩ := create_eq_some_iff.mp hstep
      exact ⟨howned.exclusive.set hfresh, .inr rfl⟩
  | createFails =>
      cases hstep
      exact howned
  | destroy handler =>
      obtain ⟨impl, _, rfl⟩ := destroy_eq_some_iff.mp hstep
      refine ⟨howned.exclusive.erase handler, ?_⟩
      dsimp only
      split
      · exact .inl rfl
      · exact howned.pointsToLatest
  | moveConstruct handler source =>
      obtain ⟨_, impl, hsource, rfl⟩ := moveConstruct_eq_some_iff.mp hstep
      exact ⟨howned.exclusive.transfer hsource handler, howned.pointsToLatest⟩
  | moveAssign handler source =>
      obtain ⟨_, impl, hsource, rfl⟩ := moveAssign_eq_some_iff.mp hstep
      exact ⟨howned.exclusive.transfer hsource handler, howned.pointsToLatest⟩

theorem registers_create (handler state : ℕ) :
    world.Registers (.create handler state) := by
  intro next hstep
  obtain ⟨hnew, _, rfl⟩ := create_eq_some_iff.mp hstep
  constructor
  · rintro _ ⟨⟩
    exact (owned_set hnew).mpr (.inl rfl)
  · exact fun _ hlatest _ => hlatest

/-- States which stay alive keep the pointer as it should be. -/
theorem Registered.of_alive_iff (hregistered : world.Registered)
    {handlers : KeyedTable ℕ (Option ℕ)}
    (halive : ∀ state, Owned handlers state ↔ world.Alive state) :
    Registered { world with handlers } where
  alive := fun state hstate =>
    (halive state).mpr (hregistered.alive state hstate)
  current := fun state hlatest howned =>
    hregistered.current state hlatest ((halive state).mp howned)

/-- The destructor of an owner takes the pointer back, whoever it is for. -/
theorem registers_destroy_owner_iff {handler state : ℕ}
    (howned : world.WellOwned)
    (hhandler : world.handlers.find? handler = some (some state)) :
    world.Registers (.destroy handler) ↔
      ∀ latest, world.latest = some latest → world.Alive latest →
        state = latest := by
  have hstep : world.step (.destroy handler) =
      some ⟨world.handlers.erase handler, none, world.latest⟩ :=
    destroy_eq_some_iff.mpr ⟨_, hhandler, rfl⟩
  have halive : ∀ other, Owned (world.handlers.erase handler) other ↔
      world.Alive other ∧ other ≠ state := by
    intro other
    rw [owned_erase howned.exclusive, hhandler]
    simp [Alive, eq_comm]
  constructor
  · intro hregisters latest hlatest hlive
    by_contra hne
    have hafter : Owned (world.handlers.erase handler) latest :=
      (halive latest).mpr ⟨hlive, Ne.symm hne⟩
    have hnull := (hregisters _ hstep).current latest hlatest hafter
    cases hnull
  · intro hlast next hnext
    rw [hstep, Option.some.injEq] at hnext
    subst hnext
    constructor
    · intro other hother
      cases hother
    · intro latest hlatest hafter
      obtain ⟨hlive, hother⟩ := (halive latest).mp hafter
      exact absurd (hlast latest hlatest hlive).symm hother

theorem registers_destroy_iff {handler : ℕ} (howned : world.WellOwned)
    (hregistered : world.Registered) :
    world.Registers (.destroy handler) ↔ world.Orderly (.destroy handler) := by
  cases hhandler : world.handlers.find? handler with
  | none =>
      refine iff_of_true ?_ ?_
      · intro next hstep
        obtain ⟨impl, himpl, _⟩ := destroy_eq_some_iff.mp hstep
        rw [hhandler] at himpl
        cases himpl
      · intro state latest hstate
        rw [hhandler] at hstate
        cases hstate
  | some impl =>
      cases impl with
      | none =>
          refine iff_of_true ?_ ?_
          · intro next hstep
            obtain ⟨impl, himpl, rfl⟩ := destroy_eq_some_iff.mp hstep
            rw [hhandler, Option.some.injEq] at himpl
            subst himpl
            refine hregistered.of_alive_iff fun state => ?_
            rw [owned_erase howned.exclusive, hhandler]
            simp [Alive]
          · intro state latest hstate
            rw [hhandler] at hstate
            cases hstate
      | some state =>
          rw [registers_destroy_owner_iff howned hhandler]
          simp only [Orderly, hhandler, Option.some.injEq]
          constructor
          · rintro hlast _ latest rfl
            exact hlast latest
          · exact fun hlast latest => hlast state latest rfl

theorem registers_moveConstruct {handler source : ℕ}
    (howned : world.WellOwned) (hregistered : world.Registered) :
    world.Registers (.moveConstruct handler source) := by
  intro next hstep
  obtain ⟨hnew, impl, hsource, rfl⟩ := moveConstruct_eq_some_iff.mp hstep
  have hne : source ≠ handler := by
    rintro rfl
    rw [hnew] at hsource
    cases hsource
  refine hregistered.of_alive_iff fun state => ?_
  rw [owned_transfer howned.exclusive hne hsource, hnew]
  simp [Alive]

theorem registers_moveAssign_iff {handler source : ℕ}
    (howned : world.WellOwned) (hregistered : world.Registered) :
    world.Registers (.moveAssign handler source) ↔
      world.Orderly (.moveAssign handler source) := by
  constructor
  · intro hregisters hne hsome state hhandler hlatest
    obtain ⟨impl, hsource⟩ := Option.isSome_iff_exists.mp hsome
    have hstep : world.step (.moveAssign handler source) = some { world with
        handlers := transfer world.handlers source handler impl } :=
      moveAssign_eq_some_iff.mpr ⟨⟨_, hhandler⟩, impl, hsource, rfl⟩
    have hpoints := hregistered.current state hlatest
      (owned_iff.mpr ⟨handler, hhandler⟩)
    have hafter := (hregisters _ hstep).alive state hpoints
    exact ((owned_transfer howned.exclusive (Ne.symm hne) hsource).mp
      hafter).2 hhandler
  · intro horderly next hstep
    obtain ⟨⟨old, hhandler⟩, impl, hsource, rfl⟩ :=
      moveAssign_eq_some_iff.mp hstep
    by_cases hne : handler = source
    · subst hne
      exact hregistered.of_alive_iff fun state => owned_transfer_self hsource
    · have halive : ∀ state,
          Owned (transfer world.handlers source handler impl) state ↔
            world.Alive state ∧
              world.handlers.find? handler ≠ some (some state) :=
        fun _ => owned_transfer howned.exclusive (Ne.symm hne) hsource
      constructor
      · intro state hpoints
        refine (halive state).mpr
          ⟨hregistered.alive state hpoints, fun hstate => ?_⟩
        -- The pointer is not null, so this is the latest state.
        have hlatest : world.latest = some state := by
          rcases howned.pointsToLatest with hnull | hsame
          · dsimp only at hpoints
            rw [hnull] at hpoints
            cases hpoints
          · exact hsame.symm.trans hpoints
        exact horderly hne (by rw [hsource]; rfl) state hstate hlatest
      · intro state hlatest hafter
        exact hregistered.current state hlatest ((halive state).mp hafter).1

theorem registers_iff (howned : world.WellOwned)
    (hregistered : world.Registered) :
    world.Registers event ↔ world.Orderly event := by
  cases event with
  | create handler state => exact iff_of_true (registers_create _ _) trivial
  | createFails =>
      refine iff_of_true (fun next hstep => ?_) trivial
      cases hstep
      exact hregistered
  | destroy handler => exact registers_destroy_iff howned hregistered
  | moveConstruct handler source =>
      exact iff_of_true (registers_moveConstruct howned hregistered) trivial
  | moveAssign handler source =>
      exact registers_moveAssign_iff howned hregistered

/-! ## Runs -/

theorem wellOwned_initial : WellOwned {} where
  exclusive := exclusive_empty
  pointsToLatest := .inl rfl

theorem registered_initial : Registered {} where
  alive := by
    intro state hstate
    cases hstate
  current := by
    intro state hlatest
    cases hlatest

/-- The pointer is as it should be throughout a run exactly when every step of
the run is orderly. -/
theorem registers_along_iff (events : List SignalEvent) :
    StepRun.Along step Registers {} events ↔
      StepRun.Along step Orderly {} events :=
  StepRun.along_congr (fun world => world.WellOwned ∧ world.Registered)
    (fun _ _ hinv => registers_iff hinv.1 hinv.2)
    (fun _ _ next hinv hregisters hstep =>
      ⟨hinv.1.step hstep, hregisters next hstep⟩)
    (s := {}) ⟨wellOwned_initial, registered_initial⟩ events

def twoHandlers : List SignalEvent := [.create 1 100, .create 2 200]

/-- The pointer is null when the first of two handlers is destroyed, and
dangles when the first one is assigned to the second. -/
theorem not_registers_twoHandlers :
    ¬StepRun.Along step Registers {} (twoHandlers ++ [.destroy 1]) ∧
      ¬StepRun.Along step Registers {} (twoHandlers ++ [.moveAssign 2 1]) := by
  constructor
  · intro halong
    have hnull : (StepRun.run step {} twoHandlers).any
        fun before => (before.step (.destroy 1)).any fun next =>
          next.signalState = none ∧ next.latest = some 200 ∧
            next.Alive 200 := by decide
    obtain ⟨before, hbefore, hafter⟩ := (Option.any_eq_true _ _).mp hnull
    obtain ⟨next, hstep, hnext⟩ := (Option.any_eq_true _ _).mp hafter
    obtain ⟨hpoints, hlatest, halive⟩ := of_decide_eq_true hnext
    have hregistered := halong.last hbefore next hstep
    rw [hregistered.current 200 hlatest halive] at hpoints
    cases hpoints
  · intro halong
    have hdangles : (StepRun.run step {} twoHandlers).any
        fun before => (before.step (.moveAssign 2 1)).any fun next =>
          next.signalState = some 200 ∧ ¬next.Alive 200 := by decide
    obtain ⟨before, hbefore, hafter⟩ := (Option.any_eq_true _ _).mp hdangles
    obtain ⟨next, hstep, hnext⟩ := (Option.any_eq_true _ _).mp hafter
    obtain ⟨hpoints, hfreed⟩ := of_decide_eq_true hnext
    have hregistered := halong.last hbefore next hstep
    exact hfreed (hregistered.alive 200 hpoints)

end VynxHttp.SignalHandlers
