import VynxHttp.ManagerService
import VynxHttp.TimerPasses

/-!
# Passes among managers

The rule for passes: a pass is defined and keeps an invariant, when the turns
of its due timers are and do.  The lambdas of managers leave the list of timers
alone.
-/

namespace VynxHttp

open LoopTimers TimeoutManager

variable {α : Type*}

/-! ## What a lambda does to its manager -/

theorem TimeoutManager.runsAt_runLambda {manager : TimeoutManager α}
    {lambda : TimeoutLambda α} (now : ℤ) (timer : ℕ) {key : UInt64}
    {id : ℕ} :
    (manager.runLambda now lambda timer).RunsAt key id ↔
      manager.RunsAt key id ∧
        key ≠ makeKey lambda.handle lambda.type := by
  unfold runLambda
  dsimp only
  split
  next hmissing =>
    have hother : manager.RunsAt key id →
        key ≠ makeKey lambda.handle lambda.type := by
      rintro ⟨entry, hfind, _⟩ rfl
      rw [hmissing] at hfind
      cases hfind
    exact (and_iff_left_of_imp hother).symm
  next entry hfind =>
    split
    next hactive =>
      exact runsAt_of_inactive { entry with active := false }
        (entries_invoke _ _ _ _) rfl
    next hinactive =>
      have hother : manager.RunsAt key id →
          key ≠ makeKey lambda.handle lambda.type := by
        rintro ⟨other, hfound, hactive, _⟩ rfl
        rw [hfind, Option.some.injEq] at hfound
        rw [hfound] at hinactive
        exact hinactive hactive
      exact (and_iff_left_of_imp hother).symm

namespace ManagerWorld

variable {world : ManagerWorld α} {index : ℕ} {now : ℤ}

theorem putPass_putPass (loop loop' : TimeoutLoop α) (s s' : ManagerSet α) :
    (world.putPass index loop s).putPass index loop' s' =
      world.putPass index loop' s' := by
  unfold putPass
  rw [Function.update_idem]

theorem loops_putPass (loop : TimeoutLoop α) (s : ManagerSet α) :
    (world.putPass index loop s).loops index = loop :=
  Function.update_self ..

theorem loops_putPass_of_ne {other : ℕ} (hother : other ≠ index)
    (loop : TimeoutLoop α) (s : ManagerSet α) :
    (world.putPass index loop s).loops other = world.loops other :=
  Function.update_of_ne hother ..

/-! ## The rule -/

/-- What an invariant has to stand in a pass over a loop. -/
structure Withstands (Inv : ManagerWorld α → Prop) (index : ℕ) (now : ℤ) :
    Prop where
  record : ∀ world event, Inv world →
    Inv (world.putPass index ((world.loops index).record event)
      world.toManagerSet)
  fire : ∀ world position timer, Inv world →
    (world.loops index).timers.elems[position]? = some timer →
    isDue now timer = true →
    ∃ s, fire (world.captures index) now timer.callback timer.id
        world.toManagerSet = some s ∧
      Inv (world.putPass index
        ((world.loops index).settleAt now position timer) s)
  remove : ∀ world, Inv world →
    Inv (world.putPass index (world.loops index).removeCancelled
      world.toManagerSet)

/-- What holds before the turn at a position. -/
structure PassInvariant (Inv : ManagerWorld α → Prop) (world : ManagerWorld α)
    (index : ℕ) (t : TimeoutLoop α × Option (ManagerSet α)) : Prop where
  storage : t.1.timers.storage = (world.loops index).timers.storage
  size : t.1.timers.size = (world.loops index).timers.size
  inv : ∃ s, t.2 = some s ∧ Inv (world.putPass index t.1 s)

theorem PassInvariant.turn {Inv : ManagerWorld α → Prop}
    (hstands : Withstands Inv index now) {position : ℕ}
    {t : TimeoutLoop α × Option (ManagerSet α)}
    (hpassing : PassInvariant Inv world index t)
    (hlt : position < (world.loops index).timers.size) :
    ∃ t', timerTurn (calling (world.captures index) now) now t
        ⟨(world.loops index).timers.storage, position⟩ = some t' ∧
      PassInvariant Inv world index t' := by
  rcases t with ⟨loop, state⟩
  rcases hpassing with ⟨hstorage, hsize, s, rfl, hinv⟩
  have hlength : position < loop.timers.elems.length := by
    simp only [StdVector.size] at hsize hlt
    omega
  have hposition := List.getElem?_eq_getElem hlength
  rw [← hstorage]
  cases hdue : isDue now loop.timers.elems[position] with
  | false =>
      exact ⟨_, timerTurn_of_idle hposition hdue, hstorage, hsize, s, rfl,
        hinv⟩
  | true =>
      generalize htimer : loop.timers.elems[position] = timer at *
      have hrecorded := hstands.record _ (.fired timer.id now) hinv
      rw [loops_putPass, putPass_putPass] at hrecorded
      have hfound : ((world.putPass index (loop.record (.fired timer.id now))
          s).loops index).timers.elems[position]? = some timer := by
        rw [loops_putPass]
        exact hposition
      rcases hstands.fire _ position timer hrecorded hfound hdue with
        ⟨s', hfire, hafter⟩
      rw [loops_putPass, putPass_putPass] at hafter
      have hcalled : calling (world.captures index) now timer.callback
          timer.id (loop.record (.fired timer.id now), some s) =
            (loop.record (.fired timer.id now), some s') := by
        unfold calling
        rw [Option.bind_some]
        exact congrArg (Prod.mk _) hfire
      exact ⟨_, timerTurn_of_due hposition hdue hcalled rfl hposition,
        hstorage, (StdVector.size_modify _ _ _).trans hsize, s', rfl, hafter⟩

theorem pass_meets {Inv : ManagerWorld α → Prop}
    (hstands : Withstands Inv index now) (hinv : Inv world) :
    ∃ next, world.pass index now = some next ∧ Inv next := by
  have hmeets : ∃ last state,
      processTimers (calling (world.captures index) now) now
        (world.loops index, some world.toManagerSet) =
          some (last.removeCancelled, state) ∧
        PassInvariant Inv world index (last, state) :=
    processTimers_meets (fun _ => PassInvariant Inv world index)
      ⟨rfl, rfl, _, rfl, hstands.record world _ hinv⟩
      (fun _ _ hlt hpassing => hpassing.turn hstands hlt)
  rcases hmeets with ⟨last, state, hpass, _, _, s, hs, hlast⟩
  dsimp only at hs hlast
  subst hs
  have hremoved := hstands.remove _ hlast
  rw [loops_putPass, putPass_putPass] at hremoved
  refine ⟨_, ?_, hremoved⟩
  unfold pass
  rw [hpass]
  rfl

end ManagerWorld

end VynxHttp
