import VynxHttp.HandleIndependence

/-!
# What an operation ends and what it starts

The effect of an operation on a manager and on the loop to which that is
pointed, if any.  Nothing is asked of the loop but that its identifiers
increase: the timers of the entries may well be timers of another loop.
-/

namespace VynxHttp

open LoopTimers

variable {α : Type*}

namespace TimeoutOp

/-- The key at which the operation starts a timeout. -/
def startedKey : TimeoutOp α → Option UInt64
  | .start _ handle type _ _ => some (makeKey handle type)
  | .resetIdle _ handle _ => some (makeKey handle .idle)
  | .cancel .. | .cancelAll .. => none

/-- The operation cancels or replaces the timeout at the key. -/
def EndsKey (op : TimeoutOp α) (key : UInt64) : Prop :=
  ∃ handle type, key = makeKey handle type ∧ op.ends handle type = true

theorem endsKey_of_startedKey {op : TimeoutOp α} {key : UInt64}
    (hstarted : op.startedKey = some key) : op.EndsKey key := by
  cases op with
  | start now handle type duration callback =>
      rw [startedKey, Option.some.injEq] at hstarted
      exact ⟨handle, type, hstarted.symm, only_iff.mpr rfl⟩
  | resetIdle now handle duration =>
      rw [startedKey, Option.some.injEq] at hstarted
      exact ⟨handle, .idle, hstarted.symm, only_iff.mpr rfl⟩
  | cancel handle type => cases hstarted
  | cancelAll handle => cases hstarted

end TimeoutOp

namespace TimeoutManager

variable {manager manager' manager'' : TimeoutManager α}
  {loop loop' loop'' : Option (TimeoutLoop α)}

/-- There is an active entry at the key, and it has the timer. -/
def RunsAt (manager : TimeoutManager α) (key : UInt64) (timer : ℕ) : Prop :=
  ∃ entry, manager.entries.find? key = some entry ∧
    entry.active = true ∧ entry.timer = timer

theorem RunsAt.timer_eq {key : UInt64} {timer timer' : ℕ}
    (hruns : manager.RunsAt key timer) (hruns' : manager.RunsAt key timer') :
    timer = timer' := by
  rcases hruns with ⟨entry, hfind, _, rfl⟩
  rcases hruns' with ⟨entry', hfind', _, rfl⟩
  rw [hfind, Option.some.injEq] at hfind'
  rw [hfind']

/-- The timers which an operation on a manager cancels in its loop. -/
def Cancelled (ended : UInt64 → Prop) (manager : TimeoutManager α)
    (ids : List ℕ) : Prop :=
  ∀ id, id ∈ ids ↔
    id ≠ invalidTimerId ∧ ∃ key, manager.RunsAt key id ∧ ended key

/-- Timeouts end, and their timers are cancelled in the loop. -/
structure Ends (ended : UInt64 → Prop) (manager manager' : TimeoutManager α)
    (loop loop' : Option (TimeoutLoop α)) : Prop where
  keyed : manager'.Keyed
  runsAt_iff : ∀ key timer, manager'.RunsAt key timer ↔
    manager.RunsAt key timer ∧ ¬ended key
  loop : ∃ ids, Cancelled ended manager ids ∧
    Option.Rel (Retires ids) loop loop'

/-! ## Timers of a loop -/

theorem rel_retires_nil (hordered : ∀ inner ∈ loop, inner.Ordered) :
    Option.Rel (Retires []) loop loop := by
  cases loop with
  | none => exact .none
  | some inner => exact .some (retires_nil (hordered inner rfl))

theorem rel_retires_trans {ids ids' : List ℕ}
    (hfirst : Option.Rel (Retires ids) loop loop')
    (hsecond : Option.Rel (Retires ids') loop' loop'') :
    Option.Rel (Retires (ids ++ ids')) loop loop'' := by
  cases hfirst with
  | none =>
      cases hsecond with
      | none => exact .none
  | some hretires =>
      cases hsecond with
      | some hretires' => exact .some (hretires.trans hretires')

theorem ordered_of_rel {ids : List ℕ}
    (hrel : Option.Rel (Retires ids) loop loop') :
    ∀ inner ∈ loop', inner.Ordered := by
  cases hrel with
  | none => simp
  | some hretires =>
      intro inner hinner
      cases hinner
      exact hretires.ordered

/-- The identifiers which are given to `cancel_timer`. -/
def validIds (timers : List ℕ) : List ℕ :=
  timers.filter fun timer => timer ≠ invalidTimerId

theorem mem_validIds {timers : List ℕ} {id : ℕ} :
    id ∈ validIds timers ↔ id ≠ invalidTimerId ∧ id ∈ timers := by
  unfold validIds
  rw [List.mem_filter, decide_eq_true_iff, and_comm]

theorem rel_cancelLoopTimer (hordered : ∀ inner ∈ loop, inner.Ordered)
    (timer : ℕ) :
    Option.Rel (Retires (validIds [timer])) loop
      (cancelLoopTimer loop timer) := by
  unfold cancelLoopTimer
  split
  next hinvalid =>
    have hnone : validIds [timer] = [] := by simp [validIds, hinvalid]
    rw [hnone]
    exact rel_retires_nil hordered
  next hvalid =>
    have hone : validIds [timer] = [timer] := by simp [validIds, hvalid]
    rw [hone]
    cases loop with
    | none => exact .none
    | some inner =>
        exact .some (retires_cancelTimer (hordered inner rfl) timer)

theorem rel_cancelLoopTimers (hordered : ∀ inner ∈ loop, inner.Ordered)
    (entries : List (TimeoutEntry α)) :
    Option.Rel (Retires (validIds (entries.map fun entry => entry.timer)))
      loop (entries.foldl
        (fun loop entry => cancelLoopTimer loop entry.timer) loop) := by
  induction entries generalizing loop with
  | nil => exact rel_retires_nil hordered
  | cons entry entries ih =>
      have hfirst := rel_cancelLoopTimer hordered entry.timer
      have hlater := ih (ordered_of_rel hfirst)
      have hids : validIds ((entry :: entries).map fun entry => entry.timer) =
          validIds [entry.timer] ++
            validIds (entries.map fun entry => entry.timer) := by
        unfold validIds
        rw [← List.filter_append]
        rfl
      rw [hids]
      exact rel_retires_trans hfirst hlater

/-! ## Cancellations -/

theorem runsAt_set {key key' : UInt64} {entry : TimeoutEntry α} {timer : ℕ}
    (hset : manager'.entries = manager.entries.set key entry) :
    manager'.RunsAt key' timer ↔
      key' = key ∧ entry.active = true ∧ entry.timer = timer ∨
        key' ≠ key ∧ manager.RunsAt key' timer := by
  unfold RunsAt
  rw [hset]
  by_cases hkey : key' = key
  · subst hkey
    simp [KeyedTable.find?_set]
  · simp [hkey, KeyedTable.find?_set_of_ne hkey]

theorem runsAt_of_inactive {key key' : UInt64} (entry : TimeoutEntry α)
    {timer : ℕ} (hset : manager'.entries = manager.entries.set key entry)
    (hinactive : entry.active = false) :
    manager'.RunsAt key' timer ↔ manager.RunsAt key' timer ∧ key' ≠ key := by
  rw [runsAt_set hset, hinactive]
  simp [and_comm]

theorem cancelled_of_runsAt {key : UInt64} {timer : ℕ}
    (hruns : manager.RunsAt key timer) :
    Cancelled (· = key) manager (validIds [timer]) := by
  intro id
  rw [mem_validIds, List.mem_singleton]
  refine and_congr_right fun _ => ⟨?_, ?_⟩
  · rintro rfl
    exact ⟨key, hruns, rfl⟩
  · rintro ⟨_, hother, rfl⟩
    exact hother.timer_eq hruns

theorem ends_unchanged (hkeyed : manager.Keyed)
    (hordered : ∀ inner ∈ loop, inner.Ordered) {ended : UInt64 → Prop}
    (hnone : ∀ key timer, manager.RunsAt key timer → ¬ended key) :
    Ends ended manager manager loop loop where
  keyed := hkeyed
  runsAt_iff := fun key timer =>
    ⟨fun hruns => ⟨hruns, hnone key timer hruns⟩, And.left⟩
  loop := by
    refine ⟨[], fun id => ?_, rel_retires_nil hordered⟩
    refine iff_of_false (by simp) ?_
    rintro ⟨_, key, hruns, hended⟩
    exact hnone key id hruns hended

theorem cancelTimeout_ends (hkeyed : manager.Keyed)
    (hordered : ∀ inner ∈ loop, inner.Ordered) (handle : NativeHandle)
    (type : TimeoutType) :
    Ends (· = makeKey handle type) manager
      (manager.cancelTimeout loop handle type).1 loop
      (manager.cancelTimeout loop handle type).2.1 := by
  have hafter : (manager.cancelTimeout loop handle type).1.Keyed :=
    (cancelTimeout_puts handle type).keyed hkeyed
  revert hafter
  unfold cancelTimeout
  dsimp only
  split
  next hmissing =>
    intro _
    refine ends_unchanged hkeyed hordered ?_
    rintro key timer ⟨entry, hfind, _⟩ rfl
    rw [hmissing] at hfind
    cases hfind
  next entry hfind =>
    split
    next hactive =>
      intro hafter
      refine ⟨hafter, ?_, validIds [entry.timer],
        cancelled_of_runsAt ⟨entry, hfind, hactive, rfl⟩,
        rel_cancelLoopTimer hordered entry.timer⟩
      intro key timer
      exact runsAt_of_inactive { entry with active := false } rfl rfl
    next hinactive =>
      intro _
      refine ends_unchanged hkeyed hordered ?_
      rintro key timer ⟨other, hother, hactive, _⟩ rfl
      rw [hfind, Option.some.injEq] at hother
      rw [hother] at hinactive
      exact hinactive hactive

theorem runsAt_cancelAll (hkeyed : manager.Keyed) (handle : NativeHandle)
    {key : UInt64} {timer : ℕ} :
    (manager.cancelAll loop handle).1.RunsAt key timer ↔
      manager.RunsAt key timer ∧ ¬∃ type, key = makeKey handle type := by
  unfold RunsAt
  rw [find?_cancelAll]
  constructor
  · rintro ⟨entry', hfind', hactive', rfl⟩
    rcases Option.map_eq_some_iff.mp hfind' with ⟨entry, hfind, rfl⟩
    unfold deactivate at hactive' ⊢
    split at hactive'
    next => cases hactive'
    next hkept =>
      rw [if_neg hkept]
      refine ⟨⟨entry, hfind, hactive', rfl⟩, ?_⟩
      rintro ⟨type, rfl⟩
      have hhandle := (makeKey_injective (hkeyed _ entry hfind)).1
      simp [cancels, hactive', hhandle] at hkept
  · rintro ⟨⟨entry, hfind, hactive, rfl⟩, hother⟩
    have hkept : cancels handle entry = false := by
      by_contra hcancels
      rw [Bool.not_eq_false] at hcancels
      have hhandle : entry.handle = handle := by
        simpa [cancels, hactive] using hcancels
      exact hother ⟨entry.type, by rw [← hhandle, ← hkeyed _ entry hfind]⟩
    refine ⟨entry, ?_, hactive, rfl⟩
    rw [hfind, Option.map_some, deactivate, hkept]
    rfl

theorem cancelAll_ends (hkeyed : manager.Keyed)
    (hordered : ∀ inner ∈ loop, inner.Ordered) (handle : NativeHandle) :
    Ends (fun key => ∃ type, key = makeKey handle type) manager
      (manager.cancelAll loop handle).1 loop
      (manager.cancelAll loop handle).2.1 where
  keyed := cancelAll_keyed hkeyed handle
  runsAt_iff := fun _ _ => runsAt_cancelAll hkeyed handle
  loop := by
    refine ⟨_, ?_, rel_cancelLoopTimers hordered
      (manager.entries.values.filter (cancels handle))⟩
    intro id
    rw [mem_validIds, List.mem_map]
    refine and_congr_right fun _ => ⟨?_, ?_⟩
    · rintro ⟨entry, hentry, rfl⟩
      rw [List.mem_filter, KeyedTable.mem_values] at hentry
      rcases hentry with ⟨⟨key, hfind⟩, hcancels⟩
      have hboth : entry.active = true ∧ entry.handle = handle := by
        simpa [cancels] using hcancels
      refine ⟨key, ⟨entry, hfind, hboth.1, rfl⟩, entry.type, ?_⟩
      rw [← hboth.2]
      exact hkeyed key entry hfind
    · rintro ⟨_, ⟨entry, hfind, hactive, htimer⟩, type, rfl⟩
      have hhandle := (makeKey_injective (hkeyed _ entry hfind)).1
      refine ⟨entry, ?_, htimer⟩
      rw [List.mem_filter, KeyedTable.mem_values]
      exact ⟨⟨_, hfind⟩, by simp [cancels, hactive, hhandle]⟩

/-! ## Starts -/

/-- What an operation does to the loop after its cancellations. -/
inductive Begins (op : TimeoutOp α) :
    Option (TimeoutLoop α) → Option (TimeoutLoop α) → ℕ → Prop where
  | nothing (loop : Option (TimeoutLoop α)) (timer : ℕ)
      (hnone : op.startedKey = none) : Begins op loop loop timer
  | unattached (hstarted : op.startedKey ≠ none) :
      Begins op none none invalidTimerId
  | scheduled (inner : TimeoutLoop α) (now duration : ℤ)
      (lambda : TimeoutLambda α)
      (hstarted : op.startedKey =
        some (makeKey lambda.handle lambda.type)) :
      Begins op (some inner)
        (some (inner.scheduleTimer now duration (.timeout lambda) false).1)
        inner.nextTimerId

/-- What an operation comes to: what it cancels or replaces ends, and what it
starts has the timer. -/
structure Serves (op : TimeoutOp α) (timer : ℕ)
    (manager manager' : TimeoutManager α)
    (loop loop' : Option (TimeoutLoop α)) : Prop where
  keyed : manager'.Keyed
  runsAt_iff : ∀ key id, manager'.RunsAt key id ↔
    op.startedKey = some key ∧ id = timer ∨
      manager.RunsAt key id ∧ ¬op.EndsKey key
  loop : ∃ ids middle, Cancelled op.EndsKey manager ids ∧
    Option.Rel (Retires ids) loop middle ∧ Begins op middle loop' timer

theorem Ends.serves {ended : UInt64 → Prop} {op : TimeoutOp α}
    (hends : Ends ended manager manager' loop loop')
    (hsame : ∀ key, ended key ↔ op.EndsKey key)
    (hnone : op.startedKey = none) :
    Serves op invalidTimerId manager manager' loop loop' where
  keyed := hends.keyed
  runsAt_iff := fun key id => by
    rw [hends.runsAt_iff, hsame, hnone]
    simp
  loop := by
    rcases hends.loop with ⟨ids, hids, hrel⟩
    refine ⟨ids, loop', fun id => ?_, hrel, .nothing _ _ hnone⟩
    rw [hids id]
    simp only [hsame]

theorem supersede_ends (hkeyed : manager.Keyed)
    (hordered : ∀ inner ∈ loop, inner.Ordered) (key : UInt64) :
    ∃ ids, Cancelled (· = key) manager ids ∧
      Option.Rel (Retires ids) loop (manager.supersede loop key).2 := by
  unfold supersede
  split
  next hmissing =>
    refine (ends_unchanged hkeyed hordered ?_).loop
    rintro _ timer ⟨entry, hfind, _⟩ rfl
    rw [hmissing] at hfind
    cases hfind
  next entry hfind =>
    split
    next hactive =>
      exact ⟨_, cancelled_of_runsAt ⟨entry, hfind, hactive, rfl⟩,
        rel_cancelLoopTimer hordered entry.timer⟩
    next hinactive =>
      refine (ends_unchanged hkeyed hordered ?_).loop
      rintro _ timer ⟨other, hother, hactive, _⟩ rfl
      rw [hfind, Option.some.injEq] at hother
      rw [hother] at hinactive
      exact hinactive hactive

theorem begins_scheduleLoopTimer {op : TimeoutOp α}
    (now duration : ℤ) (lambda : TimeoutLambda α)
    (hstarted : op.startedKey =
      some (makeKey lambda.handle lambda.type)) :
    Begins op loop (scheduleLoopTimer loop now duration lambda).1
      (scheduleLoopTimer loop now duration lambda).2 := by
  cases loop with
  | none => exact .unattached (by simp [hstarted])
  | some inner => exact .scheduled inner now duration lambda hstarted

/-- A start, also as the last part of another operation. -/
theorem startTimeout_serves (hkeyed : manager.Keyed)
    (hordered : ∀ inner ∈ loop, inner.Ordered) (op : TimeoutOp α) (now : ℤ)
    (handle : NativeHandle) (type : TimeoutType) (duration : ℤ)
    (callback : TimeoutCallback α)
    (hstarted : op.startedKey = some (makeKey handle type))
    (hsame : ∀ key, op.EndsKey key ↔ key = makeKey handle type) :
    ∃ timer, Serves op timer manager
      (manager.startTimeout loop now handle type duration callback).1 loop
      (manager.startTimeout loop now handle type duration
        callback).2.1 := by
  refine ⟨(scheduleLoopTimer (manager.supersede loop
    (makeKey handle type)).2 now duration ⟨handle, type, callback⟩).2,
    (startTimeout_puts now handle type duration callback).keyed hkeyed,
    ?_, ?_⟩
  · intro key id
    rw [runsAt_set (entries_startTimeout now handle type duration callback),
      hstarted, hsame, Option.some.injEq]
    constructor
    · rintro (⟨rfl, _, rfl⟩ | ⟨hother, hruns⟩)
      · exact .inl ⟨rfl, rfl⟩
      · exact .inr ⟨hruns, hother⟩
    · rintro (⟨rfl, rfl⟩ | ⟨hruns, hother⟩)
      · exact .inl ⟨rfl, rfl, rfl⟩
      · exact .inr ⟨hother, hruns⟩
  · rcases supersede_ends hkeyed hordered (makeKey handle type) with
      ⟨ids, hids, hrel⟩
    refine ⟨ids, _, fun id => ?_, hrel,
      begins_scheduleLoopTimer now duration ⟨handle, type, callback⟩
        hstarted⟩
    rw [hids id]
    simp only [hsame]

theorem endsKey_iff (op : TimeoutOp α) {handle : NativeHandle}
    {type : TimeoutType}
    (hends : ∀ handle' type', op.ends handle' type' =
      only handle type handle' type') (key : UInt64) :
    op.EndsKey key ↔ key = makeKey handle type := by
  unfold TimeoutOp.EndsKey
  constructor
  · rintro ⟨handle', type', rfl, hended⟩
    rw [hends] at hended
    exact only_iff.mp hended
  · rintro rfl
    exact ⟨handle, type, rfl, by rw [hends]; exact only_iff.mpr rfl⟩

theorem apply_serves (hkeyed : manager.Keyed)
    (hordered : ∀ inner ∈ loop, inner.Ordered) (op : TimeoutOp α) :
    ∃ timer, Serves op timer manager (manager.apply loop op).1 loop
      (manager.apply loop op).2.1 := by
  cases op with
  | start now handle type duration callback =>
      exact startTimeout_serves hkeyed hordered _ now handle type duration
        callback rfl (endsKey_iff _ fun _ _ => rfl)
  | cancel handle type =>
      have hsame := endsKey_iff (.cancel handle type : TimeoutOp α)
        fun _ _ => rfl
      exact ⟨_, (cancelTimeout_ends hkeyed hordered handle type).serves
        (fun key => (hsame key).symm) rfl⟩
  | cancelAll handle =>
      refine ⟨_, (cancelAll_ends hkeyed hordered handle).serves ?_ rfl⟩
      intro key
      unfold TimeoutOp.EndsKey TimeoutOp.ends
      constructor
      · rintro ⟨type, rfl⟩
        exact ⟨handle, type, rfl, beq_self_eq_true handle⟩
      · rintro ⟨handle', type, rfl, hended⟩
        exact ⟨type, by rw [beq_iff_eq.mp hended]⟩
  | resetIdle now handle duration =>
      -- The start finds nothing which it would have to replace.
      have hsame := endsKey_iff
        (.resetIdle now handle duration : TimeoutOp α) fun _ _ => rfl
      have hends := cancelTimeout_ends hkeyed hordered handle .idle
      rcases hends.loop with ⟨ids, hids, hrel⟩
      rcases startTimeout_serves hends.keyed (ordered_of_rel hrel)
        (.resetIdle now handle duration : TimeoutOp α) now handle .idle
        duration .noop rfl hsame with ⟨timer, hserves⟩
      rcases hserves.loop with ⟨ids', middle, hids', hrel', hbegins⟩
      have hnone : ids' = [] := by
        rw [List.eq_nil_iff_forall_not_mem]
        intro id hid
        rcases (hids' id).mp hid with ⟨_, key, hruns, hended⟩
        exact ((hends.runsAt_iff key id).mp hruns).2 ((hsame key).mp hended)
      refine ⟨timer, ?_⟩
      have hresets := ManagedLoop.resetIdle_eq manager loop now handle duration
      change Serves _ timer manager
        (manager.resetIdle loop now handle duration).1 loop
        (manager.resetIdle loop now handle duration).2.1
      rw [hresets]
      refine ⟨hserves.keyed, ?_, ids ++ ids', middle, ?_,
        rel_retires_trans hrel hrel', hbegins⟩
      · intro key id
        rw [hserves.runsAt_iff, hends.runsAt_iff, hsame]
        refine or_congr_right ?_
        rw [and_assoc, and_self_iff]
      · intro id
        rw [hnone, List.append_nil, hids id]
        simp only [hsame]

end TimeoutManager

end VynxHttp
