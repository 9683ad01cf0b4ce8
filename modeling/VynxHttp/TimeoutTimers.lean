import Mathlib.Data.Set.Function
import VynxHttp.TimeoutManager
import VynxHttp.TimerSilence

/-!
# Timeouts and their timers

With one event loop from the first timeout on, an active entry of the manager
has a pending timer, and a pending timer of the manager has an active entry.
Every operation keeps the two in step: what it takes from one side it cancels
on the other.
-/

namespace VynxHttp

open LoopTimers

variable {α : Type*}

/-- A manager and the loop to which it is pointed. -/
structure ManagedLoop (α : Type*) where
  manager : TimeoutManager α := {}
  loop : TimeoutLoop α

/-- The operations of the manager, timers of other owners of the loop, and
passes. -/
inductive ManagedStep (α : Type*) where
  | op (op : TimeoutOp α)
  | schedule (now delay interval : ℤ) (repeating : Bool)
  | processTimers (now : ℤ)

/-- Callbacks which leave the timers alone. -/
def inert (now : ℤ) (callback : LoopCallback α) (timer : ℕ)
    (s : TimeoutLoop α × TimeoutManager α) :
    TimeoutLoop α × TimeoutManager α :=
  (s.1, s.2.fire now callback timer)

namespace ManagedLoop

def step (s : ManagedLoop α) : ManagedStep α → Option (ManagedLoop α)
  | .op op =>
      let applied := s.manager.apply (some s.loop) op
      applied.2.1.map fun loop => ⟨applied.1, loop⟩
  | .schedule now delay interval repeating =>
      some ⟨s.manager,
        (s.loop.addTimer ⟨now, delay, interval, .other, repeating⟩).1⟩
  | .processTimers now =>
      (LoopTimers.processTimers (inert now) now (s.loop, s.manager)).map
        fun t => ⟨t.2, t.1⟩

end ManagedLoop

/-! ## Entries and pending timers -/

/-- The entry has a pending timer whose lambda carries the same data. -/
def Pending (loop : TimeoutLoop α) (entry : TimeoutEntry α) : Prop :=
  ∃ timer ∈ loop.timers.elems, timer.id = entry.timer ∧
    timer.cancelled = false ∧ timer.repeating = false ∧
    timer.callback =
      .timeout ⟨entry.handle, entry.type, entry.callback⟩

structure Corresponds (find : UInt64 → Option (TimeoutEntry α))
    (loop : TimeoutLoop α) : Prop where
  ordered : loop.Ordered
  keyed : ∀ key entry, find key = some entry →
    key = makeKey entry.handle entry.type
  pending : ∀ key entry, find key = some entry → entry.active = true →
    Pending loop entry
  tracked : ∀ timer ∈ loop.timers.elems, timer.cancelled = false →
    ∀ lambda, timer.callback = .timeout lambda →
      ∃ entry, find (makeKey lambda.handle lambda.type) = some entry ∧
        entry.active = true ∧ entry.timer = timer.id

namespace Corresponds

variable {find find' : UInt64 → Option (TimeoutEntry α)}
  {loop loop' : TimeoutLoop α}

theorem lambda_eq (hcorresponds : Corresponds find loop) {key : UInt64}
    {entry : TimeoutEntry α} (hfind : find key = some entry)
    (hactive : entry.active = true) {timer : TimerEntry (LoopCallback α)}
    (htimer : timer ∈ loop.timers.elems) (hid : timer.id = entry.timer) :
    timer.cancelled = false ∧ timer.repeating = false ∧
      timer.callback =
        .timeout ⟨entry.handle, entry.type, entry.callback⟩ := by
  obtain ⟨other, hother, hother_id, hrest⟩ :=
    hcorresponds.pending key entry hfind hactive
  have hsame : timer = other :=
    hcorresponds.ordered.eq_of_id htimer hother (hid.trans hother_id.symm)
  exact hsame ▸ hrest

theorem key_eq_of_timer (hcorresponds : Corresponds find loop)
    {key key' : UInt64} {entry entry' : TimeoutEntry α}
    (hfind : find key = some entry) (hactive : entry.active = true)
    (hfind' : find key' = some entry') (hactive' : entry'.active = true)
    (htimer : entry.timer = entry'.timer) : key = key' := by
  obtain ⟨timer, hmem, hid, _, _, hcallback⟩ :=
    hcorresponds.pending key entry hfind hactive
  obtain ⟨_, _, hcallback'⟩ :=
    hcorresponds.lambda_eq hfind' hactive' hmem (hid.trans htimer)
  have hsame := hcallback.symm.trans hcallback'
  simp only [LoopCallback.timeout.injEq, TimeoutLambda.mk.injEq] at hsame
  rw [hcorresponds.keyed key entry hfind,
    hcorresponds.keyed key' entry' hfind', hsame.1, hsame.2.1]

theorem timer_valid (hcorresponds : Corresponds find loop) {key : UInt64}
    {entry : TimeoutEntry α} (hfind : find key = some entry)
    (hactive : entry.active = true) : entry.timer ≠ invalidTimerId := by
  obtain ⟨timer, hmem, hid, _⟩ :=
    hcorresponds.pending key entry hfind hactive
  rw [← hid]
  exact hcorresponds.ordered.valid timer hmem

/-- Entries become inactive together with their timers. -/
theorem retire (hcorresponds : Corresponds find loop) {ids : List ℕ}
    (hordered : loop'.Ordered)
    (helems : loop'.timers.elems = loop.timers.elems.map (cancelIn ids))
    (hsome : ∀ key entry', find' key = some entry' →
      ∃ entry, find key = some entry ∧ entry'.handle = entry.handle ∧
        entry'.type = entry.type ∧
        (entry'.active = true → entry' = entry ∧ entry.timer ∉ ids))
    (hkept : ∀ key entry, find key = some entry → entry.active = true →
      entry.timer ∉ ids → find' key = some entry) :
    Corresponds find' loop' where
  ordered := hordered
  keyed := by
    intro key entry' hfind'
    obtain ⟨entry, hfind, hhandle, htype, _⟩ := hsome key entry' hfind'
    rw [hhandle, htype]
    exact hcorresponds.keyed key entry hfind
  pending := by
    intro key entry' hfind' hactive'
    obtain ⟨entry, hfind, _, _, hsame⟩ := hsome key entry' hfind'
    obtain ⟨rfl, hout⟩ := hsame hactive'
    obtain ⟨timer, htimer, hid, hrest⟩ :=
      hcorresponds.pending key entry' hfind hactive'
    refine ⟨timer, ?_, hid, hrest⟩
    rw [helems]
    refine List.mem_map.mpr ⟨timer, htimer, if_neg ?_⟩
    rw [hid]
    exact hout
  tracked := by
    intro timer' htimer' hactive' lambda hlambda
    rw [helems] at htimer'
    obtain ⟨timer, htimer, rfl⟩ := List.mem_map.mp htimer'
    have hout : timer.id ∉ ids := by
      intro hin
      simp [cancelIn, hin] at hactive'
    have hsame : cancelIn ids timer = timer := if_neg hout
    rw [hsame] at hactive' hlambda ⊢
    obtain ⟨entry, hfind, hactive, hid⟩ :=
      hcorresponds.tracked timer htimer hactive' lambda hlambda
    refine ⟨entry, hkept _ entry hfind hactive ?_, hactive, hid⟩
    rw [hid]
    exact hout

theorem add (hcorresponds : Corresponds find loop) (now duration : ℤ)
    (lambda : TimeoutLambda α)
    (hfree : ∀ entry,
      find (makeKey lambda.handle lambda.type) = some entry →
      entry.active = false)
    (hnew : find' (makeKey lambda.handle lambda.type) =
      some ⟨loop.nextTimerId, lambda.handle, lambda.type, lambda.callback,
        true⟩)
    (hother : ∀ key, key ≠ makeKey lambda.handle lambda.type →
      find' key = find key) :
    Corresponds find'
      (loop.scheduleTimer now duration (.timeout lambda) false).1 := by
  have helems := elems_addTimer loop
    ⟨now, duration, duration, .timeout lambda, false⟩
  refine ⟨hcorresponds.ordered.addTimer _, ?_, ?_, ?_⟩
  · intro key entry hfind
    by_cases hkey : key = makeKey lambda.handle lambda.type
    · subst hkey
      rw [hnew, Option.some.injEq] at hfind
      rw [← hfind]
    · rw [hother key hkey] at hfind
      exact hcorresponds.keyed key entry hfind
  · intro key entry hfind hactive
    unfold Pending scheduleTimer
    rw [helems]
    by_cases hkey : key = makeKey lambda.handle lambda.type
    · subst hkey
      rw [hnew, Option.some.injEq] at hfind
      subst hfind
      exact ⟨_, List.mem_append_right _ (List.mem_singleton_self _),
        rfl, rfl, rfl, rfl⟩
    · rw [hother key hkey] at hfind
      obtain ⟨timer, htimer, hrest⟩ :=
        hcorresponds.pending key entry hfind hactive
      exact ⟨timer, List.mem_append_left _ htimer, hrest⟩
  · intro timer htimer hactive other hcallback
    unfold scheduleTimer at htimer
    rw [helems, List.mem_append, List.mem_singleton] at htimer
    rcases htimer with hold | rfl
    · obtain ⟨entry, hfind, hentry, hid⟩ :=
        hcorresponds.tracked timer hold hactive other hcallback
      have hkey : makeKey other.handle other.type ≠
          makeKey lambda.handle lambda.type := by
        intro hkey
        rw [hkey] at hfind
        rw [hfree entry hfind] at hentry
        simp at hentry
      exact ⟨entry, (hother _ hkey).trans hfind, hentry, hid⟩
    · have hsame : lambda = other := by
        simpa [TimerRequest.entry] using hcallback
      subst hsame
      exact ⟨_, hnew, rfl, rfl⟩

end Corresponds

/-! ## What the operations do to the two sides -/

/-- Timers are cancelled and nothing else. -/
structure Retires (ids : List ℕ) (loop loop' : TimeoutLoop α) : Prop where
  ordered : loop'.Ordered
  elems : loop'.timers.elems = loop.timers.elems.map (cancelIn ids)
  next : loop'.nextTimerId = loop.nextTimerId

section Retires

variable {loop loop' loop'' : TimeoutLoop α}

theorem cancelIn_nil (timer : TimerEntry (LoopCallback α)) :
    cancelIn [] timer = timer := by
  simp [cancelIn]

theorem retires_nil (hordered : loop.Ordered) : Retires [] loop loop where
  ordered := hordered
  elems := by
    rw [List.map_congr_left fun timer _ => cancelIn_nil timer, List.map_id']
  next := rfl

theorem retires_cancelTimer (hordered : loop.Ordered) (id : ℕ) :
    Retires [id] loop (loop.cancelTimer id).1 where
  ordered := hordered.cancelTimer id
  elems := by
    rw [elems_cancelTimer hordered]
    simp [markCancelled, cancelIn]
  next := nextTimerId_cancelTimer loop id

theorem Retires.trans {ids ids' : List ℕ} (hfirst : Retires ids loop loop')
    (hsecond : Retires ids' loop' loop'') :
    Retires (ids ++ ids') loop loop'' where
  ordered := hsecond.ordered
  elems := by
    rw [hsecond.elems, hfirst.elems, List.map_map]
    refine List.map_congr_left fun timer _ => ?_
    by_cases hin : timer.id ∈ ids <;> by_cases hin' : timer.id ∈ ids' <;>
      simp [cancelIn, hin, hin']
  next := hsecond.next.trans hfirst.next

theorem retires_cancelLoopTimer (hordered : loop.Ordered) {id : ℕ}
    (hvalid : id ≠ invalidTimerId) :
    ∃ loop', TimeoutManager.cancelLoopTimer (some loop) id = some loop' ∧
      Retires [id] loop loop' :=
  ⟨_, if_neg hvalid, retires_cancelTimer hordered id⟩

/-- The loop of `cancel_all` over the entries. -/
theorem retires_cancelLoopTimers (hordered : loop.Ordered)
    (entries : List (TimeoutEntry α))
    (hvalid : ∀ entry ∈ entries, entry.timer ≠ invalidTimerId) :
    ∃ loop', entries.foldl (fun loop entry =>
        TimeoutManager.cancelLoopTimer loop entry.timer) (some loop) =
          some loop' ∧
      Retires (entries.map fun entry => entry.timer) loop loop' := by
  induction entries generalizing loop with
  | nil => exact ⟨loop, rfl, retires_nil hordered⟩
  | cons entry entries ih =>
      obtain ⟨next, hnext, hfirst⟩ := retires_cancelLoopTimer hordered
        (hvalid entry (List.mem_cons_self ..))
      obtain ⟨last, hlast, hlater⟩ := ih hfirst.ordered fun other hother =>
        hvalid other (List.mem_cons_of_mem _ hother)
      exact ⟨last, by rw [List.foldl_cons, hnext, hlast],
        hfirst.trans hlater⟩

end Retires

/-- What an operation comes to: the timers of the entries which it ends are
cancelled, and those in `added` are new. -/
structure Served (ended : NativeHandle → TimeoutType → Bool)
    (added : List (TimerEntry (LoopCallback α)))
    (s s' : ManagedLoop α) : Prop where
  corresponds : Corresponds s'.manager.entries.find? s'.loop
  invocations : s'.manager.invocations = s.manager.invocations
  elems : ∃ ids, s'.loop.timers.elems =
      s.loop.timers.elems.map (cancelIn ids) ++ added ∧
    ∀ key entry, s.manager.entries.find? key = some entry →
      entry.active = true →
      (entry.timer ∈ ids ↔ ended entry.handle entry.type = true)
  fresh : ∀ timer ∈ added, s.loop.nextTimerId ≤ timer.id
  next : s'.loop.nextTimerId = s.loop.nextTimerId + added.length

def only (handle : NativeHandle) (type : TimeoutType)
    (handle' : NativeHandle) (type' : TimeoutType) : Bool :=
  handle' == handle && type' == type

theorem only_iff {handle handle' : NativeHandle}
    {type type' : TimeoutType} :
    only handle type handle' type' = true ↔
      makeKey handle' type' = makeKey handle type := by
  unfold only
  rw [Bool.and_eq_true, beq_iff_eq, beq_iff_eq]
  constructor
  · rintro ⟨rfl, rfl⟩
    rfl
  · exact makeKey_injective

namespace ManagedLoop

variable {s : ManagedLoop α}

def InStep (s : ManagedLoop α) : Prop :=
  Corresponds s.manager.entries.find? s.loop

theorem InStep.find_of_only (hin : s.InStep) {handle : NativeHandle}
    {type : TimeoutType} {key : UInt64} {entry : TimeoutEntry α}
    (hfind : s.manager.entries.find? key = some entry)
    (honly : only handle type entry.handle entry.type = true) :
    s.manager.entries.find? (makeKey handle type) = some entry := by
  rw [only_iff, ← hin.keyed key entry hfind] at honly
  exact honly ▸ hfind

theorem InStep.timer_mem_iff (hin : s.InStep) {handle : NativeHandle}
    {type : TimeoutType} {entry : TimeoutEntry α}
    (hfind : s.manager.entries.find? (makeKey handle type) = some entry)
    (hactive : entry.active = true) {key' : UInt64}
    {entry' : TimeoutEntry α}
    (hfind' : s.manager.entries.find? key' = some entry')
    (hactive' : entry'.active = true) :
    entry'.timer ∈ [entry.timer] ↔
      only handle type entry'.handle entry'.type = true := by
  rw [List.mem_singleton, only_iff, ← hin.keyed key' entry' hfind']
  constructor
  · exact fun htimer => hin.key_eq_of_timer hfind' hactive' hfind hactive htimer
  · intro hkey
    rw [hkey, hfind, Option.some.injEq] at hfind'
    rw [hfind']

theorem served_unchanged (hin : s.InStep)
    {ended : NativeHandle → TimeoutType → Bool}
    (hnone : ∀ key entry, s.manager.entries.find? key = some entry →
      entry.active = true → ended entry.handle entry.type = false) :
    Served ended [] s s where
  corresponds := hin
  invocations := rfl
  elems := by
    refine ⟨[], ?_, ?_⟩
    · rw [List.append_nil]
      exact (retires_nil hin.ordered).elems
    · intro key entry hfind hactive
      simp [hnone key entry hfind hactive]
  fresh := by simp
  next := rfl

theorem InStep.deactivate (hin : s.InStep) {key : UInt64}
    {entry : TimeoutEntry α}
    (hfind : s.manager.entries.find? key = some entry)
    (hactive : entry.active = true) {loop' : TimeoutLoop α}
    (hordered : loop'.Ordered)
    (helems : loop'.timers.elems =
      s.loop.timers.elems.map (cancelIn [entry.timer])) :
    Corresponds
      (s.manager.entries.set key { entry with active := false }).find?
      loop' := by
  refine Corresponds.retire hin hordered helems ?_ ?_
  · intro key' entry' hfind'
    rcases KeyedTable.find?_set_eq_some_iff.mp hfind' with
      ⟨rfl, rfl⟩ | ⟨hkey, hfind'⟩
    · exact ⟨entry, hfind, rfl, rfl, by simp⟩
    · refine ⟨entry', hfind', rfl, rfl, fun hactive' => ⟨rfl, ?_⟩⟩
      rw [List.mem_singleton]
      exact fun htimer =>
        hkey (hin.key_eq_of_timer hfind' hactive' hfind hactive htimer)
  · intro key' entry' hfind' _ hout
    have hkey : key' ≠ key := by
      rintro rfl
      rw [hfind, Option.some.injEq] at hfind'
      exact hout (by rw [hfind']; exact List.mem_singleton_self _)
    rw [KeyedTable.find?_set_of_ne hkey]
    exact hfind'

theorem cancelTimeout_served (hin : s.InStep) (handle : NativeHandle)
    (type : TimeoutType) :
    ∃ loop', (s.manager.cancelTimeout (some s.loop) handle type).2.1 =
        some loop' ∧
      Served (only handle type) [] s
        ⟨(s.manager.cancelTimeout (some s.loop) handle type).1, loop'⟩ := by
  unfold TimeoutManager.cancelTimeout
  simp only
  split
  next hnone =>
    refine ⟨s.loop, rfl, served_unchanged hin ?_⟩
    intro key entry hfind _
    by_contra honly
    rw [Bool.not_eq_false] at honly
    rw [hin.find_of_only hfind honly] at hnone
    simp at hnone
  next entry hfind =>
    split
    next hactive =>
      obtain ⟨loop', hcancel, hretires⟩ := retires_cancelLoopTimer
        hin.ordered (hin.timer_valid hfind hactive)
      refine ⟨loop', hcancel, ?_, rfl, ⟨[entry.timer], ?_, ?_⟩, by simp, ?_⟩
      · exact hin.deactivate hfind hactive hretires.ordered hretires.elems
      · rw [List.append_nil]
        exact hretires.elems
      · intro key' entry' hfind' hactive'
        exact hin.timer_mem_iff hfind hactive hfind' hactive'
      · exact hretires.next
    next hinactive =>
      refine ⟨s.loop, rfl, served_unchanged hin ?_⟩
      intro key' entry' hfind' hactive'
      by_contra honly
      rw [Bool.not_eq_false] at honly
      have hsame := (hin.find_of_only hfind' honly).symm.trans hfind
      rw [Option.some.injEq] at hsame
      exact hinactive (hsame ▸ hactive')

theorem cancelAll_served (hin : s.InStep) (handle : NativeHandle) :
    ∃ loop', (s.manager.cancelAll (some s.loop) handle).2.1 = some loop' ∧
      Served (fun handle' _ => handle' == handle) [] s
        ⟨(s.manager.cancelAll (some s.loop) handle).1, loop'⟩ := by
  have hmem : ∀ entry,
      entry ∈ s.manager.entries.values.filter
          (TimeoutManager.cancels handle) ↔
        (∃ key, s.manager.entries.find? key = some entry) ∧
          entry.active = true ∧ entry.handle = handle := by
    intro entry
    rw [List.mem_filter, KeyedTable.mem_values]
    simp [TimeoutManager.cancels]
  obtain ⟨loop', hcancel, hretires⟩ := retires_cancelLoopTimers hin.ordered
    (s.manager.entries.values.filter (TimeoutManager.cancels handle))
    (by
      intro entry hentry
      obtain ⟨⟨key, hfind⟩, hactive, _⟩ := (hmem entry).mp hentry
      exact hin.timer_valid hfind hactive)
  have hids : ∀ key entry, s.manager.entries.find? key = some entry →
      entry.active = true →
      (entry.timer ∈ (s.manager.entries.values.filter
          (TimeoutManager.cancels handle)).map (fun entry => entry.timer) ↔
        (entry.handle == handle) = true) := by
    intro key entry hfind hactive
    rw [List.mem_map, beq_iff_eq]
    constructor
    · rintro ⟨other, hother, htimer⟩
      obtain ⟨⟨key', hfind'⟩, hactive', hhandle⟩ := (hmem other).mp hother
      have hkey := hin.key_eq_of_timer hfind hactive hfind' hactive'
        htimer.symm
      rw [hkey, hfind', Option.some.injEq] at hfind
      rw [← hfind]
      exact hhandle
    · intro hhandle
      exact ⟨entry, (hmem entry).mpr ⟨⟨key, hfind⟩, hactive, hhandle⟩, rfl⟩
  have hdeactivate : ∀ entry : TimeoutEntry α,
      TimeoutManager.cancels handle entry = false →
      TimeoutManager.deactivate handle entry = entry := by
    intro entry hcancels
    simp [TimeoutManager.deactivate, hcancels]
  refine ⟨loop', hcancel, ?_, rfl, ⟨_, ?_, hids⟩, by simp,
    hretires.next⟩
  · refine Corresponds.retire hin hretires.ordered hretires.elems ?_ ?_
    · intro key entry' hfind'
      have hmapped : (s.manager.entries.mapValues
          (TimeoutManager.deactivate handle)).find? key = some entry' := hfind'
      rw [KeyedTable.find?_mapValues, Option.map_eq_some_iff] at hmapped
      obtain ⟨entry, hfind, rfl⟩ := hmapped
      cases hcancels : TimeoutManager.cancels handle entry with
      | true =>
          refine ⟨entry, hfind, ?_, ?_, ?_⟩ <;>
            simp [TimeoutManager.deactivate, hcancels]
      | false =>
          rw [hdeactivate entry hcancels]
          refine ⟨entry, hfind, rfl, rfl, fun hactive => ⟨rfl, ?_⟩⟩
          rw [hids key entry hfind hactive]
          simpa [TimeoutManager.cancels, hactive] using hcancels
    · intro key entry hfind hactive hout
      have hmapped : (s.manager.entries.mapValues
          (TimeoutManager.deactivate handle)).find? key = some entry := by
        rw [hids key entry hfind hactive] at hout
        rw [KeyedTable.find?_mapValues, hfind, Option.map_some,
          hdeactivate entry (by simpa [TimeoutManager.cancels, hactive]
            using hout)]
      exact hmapped
  · rw [List.append_nil]
    exact hretires.elems

theorem supersede_served (hin : s.InStep) (handle : NativeHandle)
    (type : TimeoutType) :
    ∃ loop' ids, (s.manager.supersede (some s.loop)
          (makeKey handle type)).2 = some loop' ∧
      (s.manager.supersede (some s.loop) (makeKey handle type)).1.entries =
        s.manager.entries ∧
      (s.manager.supersede (some s.loop)
          (makeKey handle type)).1.invocations = s.manager.invocations ∧
      Retires ids s.loop loop' ∧
      (∀ key entry, s.manager.entries.find? key = some entry →
        entry.active = true →
        (entry.timer ∈ ids ↔
          only handle type entry.handle entry.type = true)) ∧
      ∃ find, Corresponds find loop' ∧
        (∀ key, key ≠ makeKey handle type →
          find key = s.manager.entries.find? key) ∧
        ∀ entry, find (makeKey handle type) = some entry →
          entry.active = false := by
  unfold TimeoutManager.supersede
  split
  next hnone =>
    refine ⟨s.loop, [], rfl, rfl, rfl, retires_nil hin.ordered, ?_,
      s.manager.entries.find?, hin, fun _ _ => rfl, by simp [hnone]⟩
    intro key entry hfind _
    refine iff_of_false (by simp) fun honly => ?_
    rw [hin.find_of_only hfind honly] at hnone
    simp at hnone
  next entry hfind =>
    split
    next hactive =>
      obtain ⟨loop', hcancel, hretires⟩ := retires_cancelLoopTimer
        hin.ordered (hin.timer_valid hfind hactive)
      refine ⟨loop', [entry.timer], hcancel, rfl, rfl, hretires, ?_, _,
        hin.deactivate hfind hactive hretires.ordered hretires.elems, ?_, ?_⟩
      · intro key' entry' hfind' hactive'
        exact hin.timer_mem_iff hfind hactive hfind' hactive'
      · exact fun key hkey => KeyedTable.find?_set_of_ne hkey _
      · intro entry' hfind'
        rw [KeyedTable.find?_set, Option.some.injEq] at hfind'
        rw [← hfind']
    next hinactive =>
      rw [Bool.not_eq_true] at hinactive
      refine ⟨s.loop, [], rfl, rfl, rfl, retires_nil hin.ordered, ?_,
        s.manager.entries.find?, hin, fun _ _ => rfl, ?_⟩
      · intro key' entry' hfind' hactive'
        refine iff_of_false (by simp) fun honly => ?_
        have hsame := (hin.find_of_only hfind' honly).symm.trans hfind
        rw [Option.some.injEq] at hsame
        rw [hsame, hinactive] at hactive'
        simp at hactive'
      · intro entry' hfind'
        rw [hfind, Option.some.injEq] at hfind'
        rw [← hfind']
        exact hinactive

theorem startTimeout_served (hin : s.InStep) (now : ℤ)
    (handle : NativeHandle) (type : TimeoutType) (duration : ℤ)
    (callback : TimeoutCallback α) :
    ∃ loop', (s.manager.startTimeout (some s.loop) now handle type duration
          callback).2.1 = some loop' ∧
      Served (only handle type)
        [(TimerRequest.mk now duration duration
          (.timeout ⟨handle, type, callback⟩) false).entry
            s.loop.nextTimerId] s
        ⟨(s.manager.startTimeout (some s.loop) now handle type duration
          callback).1, loop'⟩ := by
  obtain ⟨loop', ids, hloop, hentries, hinvocations, hretires, hids, find,
    hfind, hother, hfree⟩ := supersede_served hin handle type
  have hnext := hretires.next
  simp only [TimeoutManager.startTimeout, hloop,
    TimeoutManager.scheduleLoopTimer]
  refine ⟨_, rfl, ?_, hinvocations, ⟨ids, ?_, hids⟩, ?_, ?_⟩
  · refine Corresponds.add hfind now duration ⟨handle, type, callback⟩ hfree
      ?_ ?_
    · simp only [TimeoutManager.countActive, KeyedTable.find?_set]
      rfl
    · intro key hkey
      simp only [TimeoutManager.countActive, hentries]
      rw [KeyedTable.find?_set_of_ne hkey, hother key hkey]
  · simp only [scheduleTimer, elems_addTimer, hretires.elems, hnext]
  · intro timer htimer
    rw [List.mem_singleton] at htimer
    exact htimer ▸ le_rfl
  · simp only [scheduleTimer, addTimer, hnext]
    rfl

theorem result_cancelTimeout (manager : TimeoutManager α)
    (loop : Option (TimeoutLoop α)) (handle : NativeHandle)
    (type : TimeoutType) :
    (manager.cancelTimeout loop handle type).2.2 = .ok () ∨
      (manager.cancelTimeout loop handle type).2.2 =
        .error .invalidArgument := by
  unfold TimeoutManager.cancelTimeout
  simp only
  split
  next => exact .inr rfl
  next =>
    split
    next => exact .inl rfl
    next => exact .inr rfl

/-- `reset_idle` cancels and starts again, whatever the cancellation says. -/
theorem resetIdle_eq (manager : TimeoutManager α)
    (loop : Option (TimeoutLoop α)) (now : ℤ) (handle : NativeHandle)
    (duration : ℤ) :
    manager.resetIdle loop now handle duration =
      (manager.cancelTimeout loop handle .idle).1.startTimeout
        (manager.cancelTimeout loop handle .idle).2.1 now handle .idle
        duration .noop := by
  rcases result_cancelTimeout manager loop handle .idle with hok | herror
  · simp [TimeoutManager.resetIdle, hok]
  · simp [TimeoutManager.resetIdle, herror]

/-! ## Passes -/

def fireTurn (now : ℤ) (index : ℕ) (timer : TimerEntry (LoopCallback α))
    (s : ManagedLoop α) : ManagedLoop α :=
  ⟨s.manager.fire now timer.callback timer.id,
    (s.loop.record (.fired timer.id now)).settleAt now index timer⟩

variable {now : ℤ} {index : ℕ} {timer : TimerEntry (LoopCallback α)}

theorem elems_fireTurn (hordered : s.loop.Ordered) (now : ℤ)
    (hindex : s.loop.timers.elems[index]? = some timer) :
    (fireTurn now index timer s).loop.timers.elems =
      s.loop.timers.elems.map fun other =>
        if other.id = timer.id then settle now other else other :=
  elems_settleAt (hordered.record _) now hindex

theorem InStep.entry_of_due (hin : s.InStep)
    (hmem : timer ∈ s.loop.timers.elems) (hactive : timer.cancelled = false)
    {lambda : TimeoutLambda α} (hlambda : timer.callback = .timeout lambda) :
    ∃ entry, s.manager.entries.find?
          (makeKey lambda.handle lambda.type) = some entry ∧
      entry.active = true ∧ entry.timer = timer.id ∧
      timer.repeating = false := by
  obtain ⟨entry, hfind, hentry, hid⟩ :=
    hin.tracked timer hmem hactive lambda hlambda
  obtain ⟨_, hshot, _⟩ := hin.lambda_eq hfind hentry hmem hid.symm
  exact ⟨entry, hfind, hentry, hid, hshot⟩

def callsOf (now : ℤ) (id : ℕ) (lambda : TimeoutLambda α) :
    List (Invocation α) :=
  match lambda.callback with
  | .empty => []
  | .noop | .call _ =>
      [⟨id, now, lambda.handle, lambda.type, lambda.callback⟩]

theorem fire_timeout {manager : TimeoutManager α} {lambda : TimeoutLambda α}
    {entry : TimeoutEntry α} (now : ℤ)
    (hfind : manager.entries.find? (makeKey lambda.handle lambda.type) =
      some entry)
    (hactive : entry.active = true) (id : ℕ) :
    (manager.fire now (.timeout lambda) id).entries =
        manager.entries.set (makeKey lambda.handle lambda.type)
          { entry with active := false } ∧
      (manager.fire now (.timeout lambda) id).invocations =
        callsOf now id lambda ++ manager.invocations := by
  simp only [TimeoutManager.fire, TimeoutManager.runLambda, hfind, hactive,
    TimeoutManager.countActive, ↓reduceIte]
  unfold TimeoutManager.invoke callsOf
  cases hcallback : lambda.callback with
  | empty => simp
  | noop => simp
  | call callback => simp

theorem InStep.fireTurn (hin : s.InStep)
    (hindex : s.loop.timers.elems[index]? = some timer)
    (hdue : isDue now timer = true) :
    (fireTurn now index timer s).InStep := by
  have hordered := hin.ordered
  have hmem : timer ∈ s.loop.timers.elems := List.mem_of_getElem? hindex
  have helems := elems_fireTurn hordered now hindex
  have hordered' : (ManagedLoop.fireTurn now index timer s).loop.Ordered :=
    Ordered.settleAt (hordered.record _) now index hindex
  obtain ⟨hactive, _⟩ := isDue_iff.mp hdue
  cases hcallback : timer.callback with
  | timeout lambda =>
      obtain ⟨entry, hfind, hentry, hid, hshot⟩ :=
        hin.entry_of_due hmem hactive hcallback
      have hentries := (fire_timeout now hfind hentry timer.id).1
      have hretired : (ManagedLoop.fireTurn now index timer
          s).loop.timers.elems =
          s.loop.timers.elems.map (cancelIn [entry.timer]) := by
        rw [helems, hid]
        refine List.map_congr_left fun other hother => ?_
        by_cases hsame : other.id = timer.id
        · have heq := hordered.eq_of_id hother hmem hsame
          subst heq
          simp [settle, cancelIn, hshot]
        · simp [cancelIn, hsame]
      have hafter := hin.deactivate hfind hentry hordered' hretired
      rw [← hentries] at hafter
      unfold InStep ManagedLoop.fireTurn
      rw [hcallback]
      exact hafter
  | other =>
      have hkept : ∀ other ∈ s.loop.timers.elems, ∀ lambda,
          other.callback = .timeout lambda → other.id ≠ timer.id := by
        intro other hother lambda hlambda hsame
        rw [hordered.eq_of_id hother hmem hsame, hcallback] at hlambda
        simp at hlambda
      have hmanager : (ManagedLoop.fireTurn now index timer s).manager =
          s.manager := by
        unfold ManagedLoop.fireTurn
        rw [hcallback]
        rfl
      unfold InStep
      rw [hmanager]
      refine ⟨hordered', hin.keyed, ?_, ?_⟩
      · intro key entry hfind hentry
        obtain ⟨other, hother, hid, hactive', hshot, hlambda⟩ :=
          hin.pending key entry hfind hentry
        refine ⟨other, ?_, hid, hactive', hshot, hlambda⟩
        rw [helems]
        exact List.mem_map.mpr
          ⟨other, hother, if_neg (hkept other hother _ hlambda)⟩
      · intro other' hother' hactive' lambda hlambda
        rw [helems] at hother'
        obtain ⟨other, hother, rfl⟩ := List.mem_map.mp hother'
        by_cases hsame : other.id = timer.id
        · have heq := hordered.eq_of_id hother hmem hsame
          subst heq
          simp only [↓reduceIte] at hlambda
          unfold settle at hlambda
          split at hlambda <;> simp [hcallback] at hlambda
        · rw [if_neg hsame] at hactive' hlambda ⊢
          exact hin.tracked other hother hactive' lambda hlambda

end ManagedLoop

end VynxHttp
