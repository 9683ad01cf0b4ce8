import VynxHttp.ManagerTracking

/-!
# Managers which change their loops

`set_event_loop` leaves the timers of the active timeouts where they are.  They
stay effective there, and do no harm until one of the timeouts is cancelled or
replaced: the identifier of its timer is then looked up in the other loop.
-/

namespace VynxHttp

open LoopTimers TimeoutManager

variable {α : Type*}

namespace ManagerWorld

variable {world next : ManagerWorld α}

/-- Operations end timeouts which were started with the loop to which the
manager is pointed, and objects go away or hand over their managers without
timers. -/
def Orderly (world : ManagerWorld α) : ManagerStep α → Prop
  | .op object op => ∀ impl, world.objects object = .live impl →
      impl.EndsOwn op
  | .moveConstruct _ other => world.IdleAt other
  | .moveAssign object other => object ≠ other →
      world.IdleAt object ∧ world.IdleAt other
  | .destroy object => world.IdleAt object
  | .create _ | .setEventLoop .. | .schedule .. | .processTimers .. => True

theorem idleAt_of_absent {object : ℕ}
    (habsent : world.objects object = .absent) : world.IdleAt object := by
  intro impl hlive
  rw [habsent] at hlive
  cases hlive

theorem exists_pass (htracked : world.Tracked) (index : ℕ) (now : ℤ) :
    ∃ next, world.step (.processTimers index now) = some next ∧
      next.Tracked :=
  pass_meets (withstands_tracked index now) htracked

theorem Tracked.step (htracked : world.Tracked) {event : ManagerStep α}
    (horderly : world.Orderly event) (hstep : world.step event = some next) :
    next.Tracked := by
  cases takes_of_step hstep with
  | created habsent => exact htracked.create habsent
  | refused => exact htracked
  | served op hlive =>
      rcases serve_spec htracked.kept hlive op with ⟨timer, ids, hserved⟩
      exact htracked.served hlive (horderly _ hlive) hserved
  | ignored => exact htracked
  | switched loop hlive => exact htracked.setEventLoop hlive loop
  | scheduled index now delay interval repeating =>
      exact htracked.schedule index now delay interval repeating
  | passed =>
      rcases exists_pass htracked _ _ with ⟨other, hother, hafter⟩
      rw [hstep, Option.some.injEq] at hother
      rw [hother]
      exact hafter
  | constructed habsent hother =>
      refine htracked.takeOver ?_ (idleAt_of_absent habsent) horderly
      rintro rfl
      exact hother habsent
  | unchanged => exact htracked
  | assigned hne =>
      rcases horderly hne with ⟨hidle, hidle'⟩
      exact htracked.takeOver hne hidle hidle'
  | destroyed => exact htracked.destroy horderly

theorem tracked_created (growth : ℕ → ℕ → ℕ) :
    (created growth : ManagerWorld α).Tracked := by
  have hnone : ∀ object key timer origin,
      ¬(created growth : ManagerWorld α).Running object key timer origin :=
    fun _ _ _ _ => not_running_of_objects (by simp [created])
  refine ⟨⟨fun index => ordered_create (growth index), ?_, ?_⟩, ?_, ?_, ?_,
    ?_, ?_, undisturbed_nil⟩
  · intro index timer hmem
    simp [created, LoopTimers.create] at hmem
  · intro object impl hlive
    cases hlive
  · intro index id capture key
    refine iff_of_false ?_ (hnone _ _ _ _)
    rintro ⟨timer, hmem, _⟩
    simp [created, LoopTimers.create] at hmem
  · exact fun _ _ _ _ hrunning => absurd hrunning (hnone _ _ _ _)
  · exact fun _ _ _ _ hrunning => absurd hrunning (hnone _ _ _ _)
  · exact fun _ _ _ _ _ _ _ _ hrunning => absurd hrunning (hnone _ _ _ _)
  · intro ended cancelled hserved
    simp [created] at hserved

theorem tracked_of_run {growth : ℕ → ℕ → ℕ} {steps : List (ManagerStep α)}
    (horderly : StepRun.Along step Orderly (created growth) steps)
    (hrun : StepRun.run step (created growth) steps = some world) :
    world.Tracked :=
  StepRun.run_invariant_along Tracked Orderly
    (fun _ _ _ htracked horderly hstep => htracked.step horderly hstep)
    (tracked_created growth) horderly hrun

/-- A timeout which is ended with another loop leaves its timer behind. -/
theorem Tracked.stale_of_ends_other (htracked : world.Tracked)
    {object : ℕ} {impl : ManagerImpl α} {op : TimeoutOp α}
    (hlive : world.objects object = .live impl) {key : UInt64} {timer : ℕ}
    (hruns : impl.manager.RunsAt key timer)
    (hvalid : timer ≠ invalidTimerId) (hends : op.EndsKey key)
    (hother : (impl.origins key).loop ≠ impl.loop) :
    ∃ index capture,
      (world.serve object impl op).Pending index timer capture key ∧
        ¬(world.serve object impl op).Running capture.object key timer
          ⟨capture.start, some index⟩ := by
  rcases horigin : impl.origins key with ⟨start, _ | index⟩
  · have hrunning : world.Running object key timer ⟨start, none⟩ :=
      ⟨impl, hlive, hruns, horigin⟩
    exact absurd (htracked.unattached _ _ _ _ hrunning) hvalid
  · have hrunning : world.Running object key timer ⟨start, some index⟩ :=
      ⟨impl, hlive, hruns, horigin⟩
    have hpending := (htracked.pending_iff index timer ⟨object, start⟩
      key).mpr hrunning
    have hlt := htracked.below _ _ _ _ hrunning
    rw [horigin] at hother
    rcases serve_spec htracked.kept hlive op with ⟨new, ids, hserved⟩
    refine ⟨index, ⟨object, start⟩, ?_, ?_⟩
    · exact (hserved.pending_iff _ _ _ _).mpr
        (.inr ⟨hpending, fun hcancelled => hother hcancelled.1.symm⟩)
    · intro hafter
      rcases (hserved.running_iff _ _ _ _).mp hafter with
        ⟨_, _, _, hnew⟩ | ⟨_, hkept⟩
      · rw [TimeoutOrigin.mk.injEq] at hnew
        exact hlt.ne hnew.1
      · exact hkept ⟨rfl, hends⟩

/-- After an operation the managers know their timers exactly when it ends
timeouts of the current loop only. -/
theorem Tracked.serve_iff (htracked : world.Tracked) {object : ℕ}
    {impl : ManagerImpl α} {op : TimeoutOp α}
    (hlive : world.objects object = .live impl) :
    (world.serve object impl op).Tracked ↔ impl.EndsOwn op := by
  constructor
  · rintro hafter ⟨key, entry⟩ hrow hactive hvalid hends
    by_contra hother
    have hfind := KeyedTable.find?_eq_some_iff.mpr hrow
    have hkey := htracked.kept.keyed object impl hlive key entry hfind
    rcases htracked.stale_of_ends_other hlive
      ⟨entry, hfind, hactive, rfl⟩ hvalid
      ⟨entry.handle, entry.type, hkey, hends⟩ hother with
      ⟨index, capture, hpending, hstale⟩
    exact hstale ((hafter.pending_iff _ _ _ _).mp hpending)
  · intro hown
    rcases serve_spec htracked.kept hlive op with ⟨timer, ids, hserved⟩
    exact htracked.served hlive hown hserved

/-- Where operations end only timeouts of the current loop, no timer disturbs
another start, whatever the changes of loops and the passes are. -/
theorem undisturbed_of_run {growth : ℕ → ℕ → ℕ}
    {steps : List (ManagerStep α)}
    (horderly : StepRun.Along step Orderly (created growth) steps)
    (hrun : StepRun.run step (created growth) steps = some world) :
    Undisturbed world.log :=
  (tracked_of_run horderly hrun).undisturbed

/-- A timeout which is left in the first loop and fires there. -/
def leftBehind : List (ManagerStep ℕ) :=
  [.create 0, .setEventLoop 0 (some 0),
    .op 0 (.start 0 7 .read 1 (.call 0)), .setEventLoop 0 (some 1),
    .processTimers 0 1000000]

theorem orderly_leftBehind :
    StepRun.Along step Orderly (created fun _ size => 2 * size)
      leftBehind := by
  refine ⟨trivial, fun _ hcreate => ⟨trivial, fun _ hset => ⟨?_, ?_⟩⟩⟩
  · cases hcreate
    cases hset
    intro impl hlive
    cases hlive
    simp [ManagerImpl.EndsOwn, KeyedTable.empty]
  · exact fun _ _ => ⟨trivial, fun _ _ => ⟨trivial, fun _ _ => trivial⟩⟩

theorem undisturbed_leftBehind :
    ∃ world, StepRun.run step (created fun _ size => 2 * size) leftBehind =
      some world ∧ Undisturbed world.log := by
  have hdefined : (StepRun.run step (created fun _ size => 2 * size)
      leftBehind).isSome = true := by decide +kernel
  rcases Option.isSome_iff_exists.mp hdefined with ⟨world, hrun⟩
  exact ⟨world, hrun, undisturbed_of_run orderly_leftBehind hrun⟩

/-- The timeout is cancelled and started again with the second loop. -/
def cancelledThere : List (ManagerStep ℕ) :=
  [.create 0, .setEventLoop 0 (some 0),
    .op 0 (.start 0 7 .read 1 (.call 0)), .setEventLoop 0 (some 1),
    .schedule 1 0 5 5 false, .op 0 (.cancel 7 .read),
    .op 0 (.start 0 7 .read 9 (.call 1)), .processTimers 0 1000000]

/-- The cancellation takes the timer of another owner, and the timer of the
first start ends the timeout of the second one and calls its own callback. -/
theorem not_undisturbed_cancelledThere :
    ∃ world, StepRun.run step (created fun _ size => 2 * size)
        cancelledThere = some world ∧
      (∃ timer entry, .fired timer entry true ∈ world.log ∧ timer < entry) ∧
      (∃ later earlier ended cancelled timer entry,
        world.log = later ++ .served ended cancelled :: earlier ∧
          .fired timer entry true ∈ later ∧ timer ∈ ended) ∧
      ∃ ended cancelled, .served ended cancelled ∈ world.log ∧
        none ∈ cancelled := by
  have hlog : (StepRun.run step (created fun _ size => 2 * size)
      cancelledThere).map (fun world => world.log) =
        some [.fired 0 1 true, .served [] [], .served [0] [none],
          .served [] []] := by
    decide +kernel
  rcases Option.map_eq_some_iff.mp hlog with ⟨world, hrun, hworld⟩
  refine ⟨world, hrun, ?_⟩
  rw [hworld]
  refine ⟨⟨0, 1, by simp, by omega⟩, ?_, [0], [none], by simp, by simp⟩
  exact ⟨[.fired 0 1 true, .served [] []], [.served [] []], [0], [none], 0, 1,
    rfl, by simp, by simp⟩

end ManagerWorld

end VynxHttp
