import Mathlib.Data.List.Pairwise
import VynxHttp.EventLog
import VynxHttp.Result
import VynxHttp.StdVector
import VynxHttp.StepRun

/-!
# The timers of an event loop

`scheduleTimer`, `cancelTimer` and `processTimers` follow
`event_loop::schedule_timer`, `event_loop::cancel_timer` and
`event_loop::impl::process_timers`.  Clock readings are numbers of ticks of the
steady clock, identifiers are taken to be unbounded, and a log tells, latest
event first, what has happened to the timers.
-/

namespace VynxHttp

/-- The identifiers of timers are counted from one. -/
def invalidTimerId : ℕ := 0

/-- `std::chrono::milliseconds` in ticks of the clock. -/
def milliseconds (n : ℤ) : ℤ := n * 1000000

structure TimerEntry (α : Type*) where
  id : ℕ
  expiry : ℤ
  interval : ℤ
  callback : α
  repeating : Bool
  cancelled : Bool
  deriving DecidableEq, Repr

/-- `cancelled` and `refused` are the two results of `cancel_timer`, and `pass`
is the start of `process_timers`. -/
inductive TimerEvent where
  | scheduled (id : ℕ) (expiry : ℤ)
  | cancelled (id : ℕ)
  | refused (id : ℕ)
  | pass (now : ℤ)
  | fired (id : ℕ) (now : ℤ)
  | rearmed (id : ℕ) (expiry : ℤ)
  deriving DecidableEq, Repr

structure LoopTimers (α : Type*) where
  timers : StdVector (TimerEntry α)
  nextTimerId : ℕ := 1
  timersFired : ℕ := 0
  log : List TimerEvent := []

/-- The arguments of `schedule_timer`, and the clock it reads. -/
structure TimerRequest (α : Type*) where
  now : ℤ
  delay : ℤ
  interval : ℤ
  callback : α
  repeating : Bool

inductive TimerOp (α : Type*) where
  | schedule (request : TimerRequest α)
  | cancel (id : ℕ)

variable {α β σ : Type*}

def TimerRequest.entry (request : TimerRequest α) (id : ℕ) :
    TimerEntry α where
  id := id
  expiry := request.now + milliseconds request.delay
  interval := milliseconds request.interval
  callback := request.callback
  repeating := request.repeating
  cancelled := false

namespace LoopTimers

/-- The timers of a new loop. -/
def create (growth : ℕ → ℕ) : LoopTimers α where
  timers := .empty growth

def record (loop : LoopTimers α) (event : TimerEvent) : LoopTimers α :=
  { loop with log := event :: loop.log }

/-! ## Operations -/

def addTimer (loop : LoopTimers α) (request : TimerRequest α) :
    LoopTimers α × ℕ :=
  let entry := request.entry loop.nextTimerId
  ({ loop with
    timers := loop.timers.pushBack entry
    nextTimerId := loop.nextTimerId + 1
    log := .scheduled entry.id entry.expiry :: loop.log }, entry.id)

/-- `schedule_timer(delay, callback, repeating)`. -/
def scheduleTimer (loop : LoopTimers α) (now delay : ℤ) (callback : α)
    (repeating : Bool) : LoopTimers α × ℕ :=
  loop.addTimer ⟨now, delay, delay, callback, repeating⟩

/-- `schedule_timer(delay, interval, callback)`. -/
def scheduleTimerEvery (loop : LoopTimers α) (now delay interval : ℤ)
    (callback : α) : LoopTimers α × ℕ :=
  loop.addTimer ⟨now, delay, interval, callback, true⟩

def cancelTimer (loop : LoopTimers α) (id : ℕ) :
    LoopTimers α × Result Unit :=
  match loop.timers.elems.findIdx? fun timer => timer.id == id with
  | none => (loop.record (.refused id), .error .invalidArgument)
  | some index =>
      ({ loop with
        timers := loop.timers.modify index fun timer =>
          { timer with cancelled := true }
        log := .cancelled id :: loop.log }, success)

def apply (loop : LoopTimers α) : TimerOp α → LoopTimers α
  | .schedule request => (loop.addTimer request).1
  | .cancel id => (loop.cancelTimer id).1

def applyAll (loop : LoopTimers α) (ops : List (TimerOp α)) :
    LoopTimers α :=
  ops.foldl apply loop

/-! ## Passes over the timers -/

/-- What is left of a timer after its callback. -/
def settle (now : ℤ) (timer : TimerEntry α) : TimerEntry α :=
  if timer.repeating then { timer with expiry := now + timer.interval }
  else { timer with cancelled := true }

/-- What the end of a turn does to the timer at an index. -/
def settleAt (now : ℤ) (index : ℕ) (timer : TimerEntry α)
    (loop : LoopTimers α) : LoopTimers α :=
  { loop with
    timers := loop.timers.modify index (settle now)
    timersFired := loop.timersFired + 1
    log :=
      if timer.repeating then
        .rearmed timer.id (now + timer.interval) :: loop.log
      else loop.log }

/-- The end of a turn, where the reference is used once more after the
callback. -/
def finishTurn (now : ℤ) (ref : StdVector.Ref) (loop : LoopTimers α) :
    Option (LoopTimers α) :=
  (loop.timers.read ref).map fun timer =>
    loop.settleAt now ref.index timer

/-- A turn of the loop in `process_timers`.  A callback may do anything to the
timers and to the rest of the world; `none` stands for the use of a reference
which denotes nothing any more. -/
def timerTurn
    (call : α → ℕ → LoopTimers α × σ → LoopTimers α × σ) (now : ℤ)
    (s : LoopTimers α × σ) (ref : StdVector.Ref) :
    Option (LoopTimers α × σ) :=
  match s.1.timers.read ref with
  | none => none
  | some timer =>
      if timer.cancelled then some s
      else if now < timer.expiry then some s
      else
        let called := call timer.callback timer.id
          (s.1.record (.fired timer.id now), s.2)
        (called.1.finishTurn now ref).map fun loop => (loop, called.2)

def removeCancelled (loop : LoopTimers α) : LoopTimers α :=
  { loop with
    timers := loop.timers.removeIf fun timer => timer.cancelled }

def processTimers
    (call : α → ℕ → LoopTimers α × σ → LoopTimers α × σ) (now : ℤ)
    (s : LoopTimers α × σ) : Option (LoopTimers α × σ) :=
  (StepRun.run (timerTurn call now) (s.1.record (.pass now), s.2)
    s.1.timers.refs).map fun s => (s.1.removeCancelled, s.2)

/-- What happens to the timers of a loop: operations from outside, and passes
in which the callback of a timer goes through a list of actions. -/
inductive Step (α β : Type*) where
  | op (op : TimerOp α)
  | processTimers (now : ℤ) (acts : ℕ → List β)

/-- The callbacks of a pass which do to the timers what their actions stand
for. -/
def acting (does : β → TimerOp α) (acts : ℕ → List β) (_ : α)
    (id : ℕ) (s : LoopTimers α × σ) : LoopTimers α × σ :=
  (s.1.applyAll ((acts id).map does), s.2)

def step (does : β → TimerOp α) (loop : LoopTimers α) :
    Step α β → Option (LoopTimers α)
  | .op op => some (loop.apply op)
  | .processTimers now acts =>
      (processTimers (acting does acts) now (loop, ())).map Prod.fst

/-- What a sequence of steps makes of the timers; `none` when one of them is
undefined. -/
abbrev run (does : β → TimerOp α) (loop : LoopTimers α)
    (steps : List (Step α β)) : Option (LoopTimers α) :=
  StepRun.run (step does) loop steps

/-! ## Identifiers -/

variable {loop : LoopTimers α}

/-- The identifiers in the list increase. -/
structure Ordered (loop : LoopTimers α) : Prop where
  sorted : loop.timers.elems.Pairwise fun s t => s.id < t.id
  below : ∀ timer ∈ loop.timers.elems, timer.id < loop.nextTimerId
  valid : ∀ timer ∈ loop.timers.elems, timer.id ≠ invalidTimerId
  next_pos : 0 < loop.nextTimerId

theorem ordered_create (growth : ℕ → ℕ) :
    (create growth : LoopTimers α).Ordered where
  sorted := List.Pairwise.nil
  below := by simp [create]
  valid := by simp [create]
  next_pos := Nat.one_pos

theorem Ordered.eq_of_id (hordered : loop.Ordered) {s t : TimerEntry α}
    (hs : s ∈ loop.timers.elems) (ht : t ∈ loop.timers.elems)
    (hid : s.id = t.id) : s = t := by
  have hinjective : loop.timers.elems.Pairwise fun s t => s.id ≠ t.id :=
    hordered.sorted.imp fun hlt => ne_of_lt hlt
  have hsymm : Std.Symm fun s t : TimerEntry α => s.id ≠ t.id :=
    ⟨fun _ _ => Ne.symm⟩
  by_contra hne
  exact hinjective.forall hs ht hne hid

theorem Ordered.record (hordered : loop.Ordered) (event : TimerEvent) :
    (loop.record event).Ordered :=
  ⟨hordered.sorted, hordered.below, hordered.valid, hordered.next_pos⟩

/-- Two lists of timers with the same identifiers. -/
theorem Ordered.of_ids {loop' : LoopTimers α} (hordered : loop.Ordered)
    (hids : (loop'.timers.elems.map (·.id)).Sublist
      (loop.timers.elems.map (·.id)))
    (hnext : loop'.nextTimerId = loop.nextTimerId) : loop'.Ordered := by
  have hmem : ∀ timer ∈ loop'.timers.elems,
      ∃ timer' ∈ loop.timers.elems, timer'.id = timer.id := by
    intro timer htimer
    have hid : timer.id ∈ loop'.timers.elems.map (·.id) :=
      List.mem_map_of_mem htimer
    exact List.mem_map.mp (hids.subset hid)
  refine ⟨?_, ?_, ?_, by rw [hnext]; exact hordered.next_pos⟩
  · have hsorted : (loop.timers.elems.map (·.id)).Pairwise (· < ·) :=
      List.pairwise_map.mpr hordered.sorted
    exact List.pairwise_map.mp (hsorted.sublist hids)
  · intro timer htimer
    obtain ⟨timer', htimer', hid⟩ := hmem timer htimer
    rw [hnext, ← hid]
    exact hordered.below timer' htimer'
  · intro timer htimer
    obtain ⟨timer', htimer', hid⟩ := hmem timer htimer
    rw [← hid]
    exact hordered.valid timer' htimer'

/-! ## What the operations do -/

def markCancelled (id : ℕ) (timer : TimerEntry α) : TimerEntry α :=
  if timer.id = id then { timer with cancelled := true } else timer

@[simp] theorem markCancelled_id (id : ℕ) (timer : TimerEntry α) :
    (markCancelled id timer).id = timer.id := by
  unfold markCancelled
  split <;> rfl

@[simp] theorem settle_id (now : ℤ) (timer : TimerEntry α) :
    (settle now timer).id = timer.id := by
  unfold settle
  split <;> rfl

@[simp] theorem elems_addTimer (loop : LoopTimers α)
    (request : TimerRequest α) :
    (loop.addTimer request).1.timers.elems =
      loop.timers.elems ++ [request.entry loop.nextTimerId] :=
  StdVector.elems_pushBack _ _

@[simp] theorem log_addTimer (loop : LoopTimers α)
    (request : TimerRequest α) :
    (loop.addTimer request).1.log =
      .scheduled loop.nextTimerId
        (request.now + milliseconds request.delay) :: loop.log := rfl

/-- In a list without repeated keys an index is as good as a key. -/
theorem modify_eq_map {γ : Type*} (key : γ → ℕ) (f : γ → γ) {xs : List γ}
    {index : ℕ} {x : γ} (hsorted : xs.Pairwise fun x y => key x < key y)
    (hindex : xs[index]? = some x) :
    xs.modify index f = xs.map fun y => if key y = key x then f y else y := by
  induction xs generalizing index with
  | nil => simp at hindex
  | cons y ys ih =>
      rw [List.pairwise_cons] at hsorted
      cases index with
      | zero =>
          have hx : y = x := by simpa using hindex
          subst hx
          have hrest : ys.map (fun z => if key z = key y then f z else z) =
              ys.map fun z => z := by
            apply List.map_congr_left
            intro z hz
            have hlt : key y < key z := hsorted.1 z hz
            rw [if_neg (by omega)]
          simp [hrest]
      | succ index =>
          have hx : ys[index]? = some x := by simpa using hindex
          have hlt : key y < key x :=
            hsorted.1 x (List.mem_of_getElem? hx)
          have hne : key y ≠ key x := by omega
          simp [hne, ih hsorted.2 hx]

/-- `cancel_timer` is refused exactly for the identifiers which are not in the
list. -/
theorem cancelTimer_error_iff (id : ℕ) :
    (loop.cancelTimer id).2 = .error .invalidArgument ↔
      ∀ timer ∈ loop.timers.elems, timer.id ≠ id := by
  unfold cancelTimer
  split
  next hnone => simpa using hnone
  next index hsome =>
    obtain ⟨hlt, hid, _⟩ := List.findIdx?_eq_some_iff_getElem.mp hsome
    refine iff_of_false (by simp [success]) fun hall => ?_
    exact hall _ (List.getElem_mem hlt) (by simpa using hid)

theorem elems_cancelTimer (hordered : loop.Ordered) (id : ℕ) :
    (loop.cancelTimer id).1.timers.elems =
      loop.timers.elems.map (markCancelled id) := by
  unfold cancelTimer
  split
  next hnone =>
    have habsent : ∀ timer ∈ loop.timers.elems, timer.id ≠ id := by
      simpa using hnone
    calc loop.timers.elems
        = loop.timers.elems.map fun timer => timer :=
          (List.map_id' _).symm
      _ = loop.timers.elems.map (markCancelled id) :=
          List.map_congr_left fun timer htimer =>
            (if_neg (habsent timer htimer)).symm
  next index hsome =>
    obtain ⟨hlt, hid, _⟩ := List.findIdx?_eq_some_iff_getElem.mp hsome
    have hid : (loop.timers.elems[index]).id = id := by simpa using hid
    rw [StdVector.elems_modify, modify_eq_map TimerEntry.id _
      hordered.sorted (List.getElem?_eq_getElem hlt), hid]
    rfl

theorem nextTimerId_cancelTimer (loop : LoopTimers α) (id : ℕ) :
    (loop.cancelTimer id).1.nextTimerId = loop.nextTimerId := by
  unfold cancelTimer
  split <;> rfl

theorem Ordered.addTimer (hordered : loop.Ordered)
    (request : TimerRequest α) : (loop.addTimer request).1.Ordered where
  sorted := by
    rw [elems_addTimer, List.pairwise_append]
    refine ⟨hordered.sorted, List.pairwise_singleton _ _, ?_⟩
    intro timer htimer new hnew
    rw [List.mem_singleton] at hnew
    subst hnew
    exact hordered.below timer htimer
  below := by
    intro timer htimer
    rw [elems_addTimer, List.mem_append, List.mem_singleton] at htimer
    cases htimer with
    | inl hold => exact Nat.lt_succ_of_lt (hordered.below timer hold)
    | inr hnew => exact hnew ▸ Nat.lt_succ_self _
  valid := by
    intro timer htimer
    rw [elems_addTimer, List.mem_append, List.mem_singleton] at htimer
    cases htimer with
    | inl hold => exact hordered.valid timer hold
    | inr hnew => exact hnew ▸ hordered.next_pos.ne'
  next_pos := Nat.succ_pos _

theorem Ordered.cancelTimer (hordered : loop.Ordered) (id : ℕ) :
    (loop.cancelTimer id).1.Ordered := by
  apply hordered.of_ids _ (nextTimerId_cancelTimer loop id)
  rw [elems_cancelTimer hordered, List.map_map]
  have hids : (fun timer : TimerEntry α => timer.id) ∘ markCancelled id =
      fun timer => timer.id := funext fun timer => markCancelled_id id timer
  simpa only [hids] using List.Sublist.refl _

theorem Ordered.apply (hordered : loop.Ordered) (op : TimerOp α) :
    (loop.apply op).Ordered := by
  cases op with
  | schedule request => exact hordered.addTimer request
  | cancel id => exact hordered.cancelTimer id

theorem Ordered.applyAll (hordered : loop.Ordered)
    (ops : List (TimerOp α)) : (loop.applyAll ops).Ordered := by
  induction ops generalizing loop with
  | nil => exact hordered
  | cons op ops ih => exact ih (hordered.apply op)

theorem Ordered.removeCancelled (hordered : loop.Ordered) :
    loop.removeCancelled.Ordered :=
  hordered.of_ids (List.Sublist.map _ (List.filter_sublist)) rfl

end LoopTimers

end VynxHttp
