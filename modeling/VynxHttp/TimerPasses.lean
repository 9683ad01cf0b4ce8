import VynxHttp.LoopTimers

/-!
# Turns and passes

What one turn of `process_timers` can do, and the two rules for a whole pass:
an invariant which holds before each turn holds after the last one, and a pass
is defined when all its turns are.
-/

namespace VynxHttp

namespace LoopTimers

variable {α β σ : Type*}
  {call : α → ℕ → LoopTimers α × σ → LoopTimers α × σ}

/-- The test of a turn. -/
def isDue (now : ℤ) (timer : TimerEntry α) : Bool :=
  !timer.cancelled && decide (timer.expiry ≤ now)

@[simp] theorem isDue_iff {now : ℤ} {timer : TimerEntry α} :
    isDue now timer = true ↔
      timer.cancelled = false ∧ timer.expiry ≤ now := by
  simp [isDue]

/-! ## Turns -/

theorem elems_settleAt {loop : LoopTimers α} (hordered : loop.Ordered)
    (now : ℤ) {index : ℕ} {timer : TimerEntry α}
    (hindex : loop.timers.elems[index]? = some timer) :
    (loop.settleAt now index timer).timers.elems =
      loop.timers.elems.map fun other =>
        if other.id = timer.id then settle now other else other :=
  modify_eq_map TimerEntry.id (settle now) hordered.sorted hindex

theorem Ordered.settleAt {loop : LoopTimers α} (hordered : loop.Ordered)
    (now : ℤ) (index : ℕ) {timer : TimerEntry α}
    (hindex : loop.timers.elems[index]? = some timer) :
    (loop.settleAt now index timer).Ordered := by
  refine Ordered.of_ids hordered ?_ rfl
  rw [elems_settleAt hordered now hindex, List.map_map]
  have hids : (fun other : TimerEntry α => other.id) ∘
      (fun other => if other.id = timer.id then settle now other else other) =
      fun other => other.id := by
    funext other
    simp only [Function.comp_apply]
    split
    next => exact settle_id now other
    next => rfl
  simpa only [hids] using List.Sublist.refl _

/-- A turn passes over a timer which is not due. -/
theorem timerTurn_of_idle {now : ℤ} {s : LoopTimers α × σ} {index : ℕ}
    {timer : TimerEntry α} (hindex : s.1.timers.elems[index]? = some timer)
    (hidle : isDue now timer = false) :
    timerTurn call now s ⟨s.1.timers.storage, index⟩ = some s := by
  simp only [timerTurn, StdVector.read_of_eq, hindex]
  split
  next => rfl
  next hactive =>
    have hlater : now < timer.expiry := by
      simpa [isDue, hactive] using hidle
    rw [if_pos hlater]

/-- A due timer is settled after its callback, when the callback has left the
storage in place. -/
theorem timerTurn_of_due {now : ℤ} {s called : LoopTimers α × σ}
    {index : ℕ} {timer settled : TimerEntry α}
    (hindex : s.1.timers.elems[index]? = some timer)
    (hdue : isDue now timer = true)
    (hcall : call timer.callback timer.id
      (s.1.record (.fired timer.id now), s.2) = called)
    (hstorage : called.1.timers.storage = s.1.timers.storage)
    (hsettled : called.1.timers.elems[index]? = some settled) :
    timerTurn call now s ⟨s.1.timers.storage, index⟩ =
      some (called.1.settleAt now index settled, called.2) := by
  obtain ⟨hactive, hexpired⟩ := isDue_iff.mp hdue
  simp only [timerTurn, StdVector.read_of_eq, hindex, hactive, hcall]
  rw [if_neg (by simp), if_neg (not_lt.mpr hexpired)]
  simp [finishTurn, StdVector.read_of_eq _ hstorage.symm index, hsettled]

/-- A turn passes over the timer or calls it back and settles it. -/
theorem timerTurn_cases {now : ℤ} {s s' : LoopTimers α × σ}
    {storage index : ℕ}
    (hturn : timerTurn call now s ⟨storage, index⟩ = some s') :
    storage = s.1.timers.storage ∧
      ∃ timer, s.1.timers.elems[index]? = some timer ∧
        (isDue now timer = false ∧ s' = s ∨
          isDue now timer = true ∧ ∃ called settled,
            call timer.callback timer.id
              (s.1.record (.fired timer.id now), s.2) = called ∧
            called.1.timers.storage = storage ∧
            called.1.timers.elems[index]? = some settled ∧
            s' = (called.1.settleAt now index settled, called.2)) := by
  have hstorage : storage = s.1.timers.storage := by
    by_contra hne
    rw [timerTurn, StdVector.read_of_ne _ hne index] at hturn
    simp at hturn
  subst hstorage
  cases hindex : s.1.timers.elems[index]? with
  | none => simp [timerTurn, StdVector.read_of_eq, hindex] at hturn
  | some timer =>
      refine ⟨rfl, timer, rfl, ?_⟩
      cases hdue : isDue now timer with
      | false =>
          rw [timerTurn_of_idle hindex hdue, Option.some.injEq] at hturn
          exact .inl ⟨rfl, hturn.symm⟩
      | true =>
          obtain ⟨hactive, hexpired⟩ := isDue_iff.mp hdue
          simp only [timerTurn, StdVector.read_of_eq, hindex, hactive]
            at hturn
          rw [if_neg (by simp), if_neg (not_lt.mpr hexpired),
            Option.map_eq_some_iff] at hturn
          obtain ⟨loop, hfinish, hloop⟩ := hturn
          obtain ⟨settled, hread, hsettle⟩ :=
            Option.map_eq_some_iff.mp hfinish
          have hstays : (call timer.callback timer.id
              (s.1.record (.fired timer.id now), s.2)).1.timers.storage =
              s.1.timers.storage := by
            by_contra hne
            rw [StdVector.read_of_ne _ (Ne.symm hne) index] at hread
            simp at hread
          rw [StdVector.read_of_eq _ hstays.symm index] at hread
          refine .inr ⟨rfl, _, settled, rfl, hstays, hread, ?_⟩
          rw [← hloop, ← hsettle]

/-! ## Passes -/

theorem processTimers_invariant {now : ℤ} {s s' : LoopTimers α × σ}
    (Inv : ℕ → LoopTimers α × σ → Prop)
    (hinit : Inv 0 (s.1.record (.pass now), s.2))
    (hturn : ∀ index t t', index < s.1.timers.size → Inv index t →
      timerTurn call now t ⟨s.1.timers.storage, index⟩ = some t' →
      Inv (index + 1) t')
    (hpass : processTimers call now s = some s') :
    ∃ last, Inv s.1.timers.size (last, s'.2) ∧
      s'.1 = last.removeCancelled := by
  obtain ⟨t, hrun, hlast⟩ := Option.map_eq_some_iff.mp hpass
  refine ⟨t.1, ?_, by rw [← hlast]⟩
  rw [← hlast]
  exact StepRun.run_range_invariant Inv _ hturn hinit hrun

theorem processTimers_meets {now : ℤ} {s : LoopTimers α × σ}
    (Inv : ℕ → LoopTimers α × σ → Prop)
    (hinit : Inv 0 (s.1.record (.pass now), s.2))
    (hturn : ∀ index t, index < s.1.timers.size → Inv index t →
      ∃ t', timerTurn call now t ⟨s.1.timers.storage, index⟩ = some t' ∧
        Inv (index + 1) t') :
    ∃ last world, processTimers call now s =
        some (last.removeCancelled, world) ∧
      Inv s.1.timers.size (last, world) := by
  obtain ⟨t, hrun, hlast⟩ := StepRun.run_range_meets Inv
    (fun index => (⟨s.1.timers.storage, index⟩ : StdVector.Ref)) hturn hinit
  exact ⟨t.1, t.2, Option.map_eq_some_iff.mpr ⟨t, hrun, rfl⟩, hlast⟩

end LoopTimers

end VynxHttp
