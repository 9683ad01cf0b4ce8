import VynxHttp.ManagerTimers

/-!
# Operations among other managers

An operation of one manager ends timeouts of its object and may start one.  In
its loop it cancels the timers which the ended timeouts have, whatever timers
those are.
-/

namespace VynxHttp

open LoopTimers TimeoutManager

variable {α : Type*}

namespace ManagerWorld

variable {world : ManagerWorld α} {object : ℕ} {impl : ManagerImpl α}
  {op : TimeoutOp α}

/-! ## The manager -/

section

variable (world : ManagerWorld α) (object : ℕ) (impl : ManagerImpl α)
  (op : TimeoutOp α)

theorem objects_serve :
    (world.serve object impl op).objects =
      Function.update world.objects object
        (.live (impl.serve (world.applied impl op).1 op world.starts)) := by
  unfold serve
  dsimp only
  split <;> rfl

theorem starts_serve :
    (world.serve object impl op).starts =
      world.starts + op.starts (world.applied impl op).2.2 := by
  unfold serve
  dsimp only
  split <;> rfl

end

theorem origins_serve (manager : TimeoutManager α) (start : ℕ)
    (key : UInt64) :
    (impl.serve manager op start).origins key =
      if op.startedKey = some key then ⟨start, impl.loop⟩
      else impl.origins key := by
  unfold ManagerImpl.serve
  dsimp only
  cases hstarted : op.startedKey with
  | none => rfl
  | some other =>
      by_cases hkey : key = other
      · subst hkey
        exact (Function.update_self ..).trans (if_pos rfl).symm
      · have hne : some other ≠ some key := fun hsame =>
          hkey (Option.some.inj hsame).symm
        exact (Function.update_of_ne hkey ..).trans (if_neg hne).symm

theorem starts_of_startedKey (manager : TimeoutManager α)
    (loop : Option (TimeoutLoop α)) (hstarted : op.startedKey ≠ none) :
    op.starts (manager.apply loop op).2.2 = 1 := by
  cases op with
  | start now handle type duration callback => rfl
  | cancel handle type => exact absurd rfl hstarted
  | cancelAll handle => exact absurd rfl hstarted
  | resetIdle now handle duration =>
      have hresult : (manager.apply loop
          (.resetIdle now handle duration)).2.2 = .ok () := by
        change (manager.resetIdle loop now handle duration).2.2 = .ok ()
        rw [ManagedLoop.resetIdle_eq]
        rfl
      rw [hresult]
      rfl

theorem running_serve {timer : ℕ}
    {loop loop' : Option (TimeoutLoop α)}
    (hserves : Serves op timer impl.manager (world.applied impl op).1
      loop loop')
    (hlive : world.objects object = .live impl) (object' : ℕ)
    (key : UInt64) (id : ℕ) (origin : TimeoutOrigin) :
    (world.serve object impl op).Running object' key id origin ↔
      (object' = object ∧ op.startedKey = some key ∧ id = timer ∧
          origin = ⟨world.starts, impl.loop⟩) ∨
        world.Running object' key id origin ∧
          ¬(object' = object ∧ op.EndsKey key) := by
  unfold Running
  rw [objects_serve]
  by_cases hobject : object' = object
  · subst hobject
    rw [Function.update_self, hlive]
    constructor
    · rintro ⟨_, hsame, hruns, horigin⟩
      cases hsame
      rw [origins_serve] at horigin
      rcases (hserves.runsAt_iff key id).mp hruns with
        ⟨hstarted, hid⟩ | ⟨hold, hother⟩
      · rw [if_pos hstarted] at horigin
        exact .inl ⟨rfl, hstarted, hid, horigin.symm⟩
      · have hnot : op.startedKey ≠ some key := fun hstarted =>
          hother (TimeoutOp.endsKey_of_startedKey hstarted)
        rw [if_neg hnot] at horigin
        exact .inr ⟨⟨impl, rfl, hold, horigin⟩, fun hended =>
          hother hended.2⟩
    · rintro (⟨_, hstarted, hid, horigin⟩ |
        ⟨⟨_, hsame, hold, horigin⟩, hother⟩)
      · refine ⟨_, rfl, (hserves.runsAt_iff key id).mpr
          (.inl ⟨hstarted, hid⟩), ?_⟩
        rw [origins_serve, if_pos hstarted]
        exact horigin.symm
      · cases hsame
        have hkept : ¬op.EndsKey key := fun hended => hother ⟨rfl, hended⟩
        have hnot : op.startedKey ≠ some key := fun hstarted =>
          hkept (TimeoutOp.endsKey_of_startedKey hstarted)
        refine ⟨_, rfl, (hserves.runsAt_iff key id).mpr
          (.inr ⟨hold, hkept⟩), ?_⟩
        rw [origins_serve, if_neg hnot]
        exact horigin
  · rw [Function.update_of_ne hobject]
    simp [hobject]

/-! ## The loop -/

theorem loops_serve_of_none (world : ManagerWorld α) (object : ℕ)
    (op : TimeoutOp α) (hloop : impl.loop = none) :
    (world.serve object impl op).loops = world.loops ∧
      (world.serve object impl op).captures = world.captures ∧
      (world.serve object impl op).log =
        .served (impl.endedBy op) [] :: world.log := by
  unfold serve
  rw [hloop]
  exact ⟨rfl, rfl, rfl⟩

theorem serve_of_some (object : ℕ) {index : ℕ} {loop : TimeoutLoop α}
    (hloop : impl.loop = some index)
    (happlied : (world.applied impl op).2.1 = some loop) :
    (world.serve object impl op).loops =
        Function.update world.loops index loop ∧
      (world.serve object impl op).captures =
        Function.update world.captures index
          (Function.update (world.captures index)
            (world.loops index).nextTimerId ⟨object, world.starts⟩) ∧
      (world.serve object impl op).log =
        .served (impl.endedBy op)
          ((newlyCancelled (world.loops index) loop).map
            (startOf (world.captures index))) :: world.log := by
  unfold serve
  dsimp only
  rw [happlied, hloop]
  exact ⟨rfl, rfl, rfl⟩

/-- The timers of a loop in which timers have been cancelled and one may have
been scheduled. -/
theorem pendingIn_begins {before middle loop' : TimeoutLoop α}
    {captures : ℕ → Capture} {ids : List ℕ} {timer : ℕ} {latest : Capture}
    (hretires : Retires ids before middle)
    (hbegins : Begins op (some middle) (some loop') timer) {id : ℕ}
    {capture : Capture} {key : UInt64} :
    PendingIn loop'
        (Function.update captures before.nextTimerId latest) id capture key ↔
      (op.startedKey = some key ∧ id = timer ∧ capture = latest) ∨
        PendingIn before captures id capture key ∧ id ∉ ids := by
  rw [← pendingIn_retires hretires, ← hretires.next]
  cases hbegins with
  | nothing _ _ hnone =>
      rw [pendingIn_congr rfl hretires.ordered fun other hother =>
        Function.update_of_ne (by omega) ..]
      simp [hnone]
  | scheduled _ now duration lambda hstarted =>
      rw [pendingIn_schedule hretires.ordered, hstarted, Option.some.injEq]
      refine or_congr_left ?_
      tauto

theorem exists_of_begins {middle : TimeoutLoop α}
    {loop' : Option (TimeoutLoop α)} {timer : ℕ}
    (hbegins : Begins op (some middle) loop' timer) :
    ∃ inner, loop' = some inner := by
  cases hbegins with
  | nothing => exact ⟨middle, rfl⟩
  | scheduled => exact ⟨_, rfl⟩

theorem ordered_begins {middle loop' : TimeoutLoop α} {timer : ℕ}
    (hbegins : Begins op (some middle) (some loop') timer)
    (hordered : middle.Ordered) : loop'.Ordered := by
  cases hbegins with
  | nothing => exact hordered
  | scheduled _ now duration lambda _ => exact hordered.addTimer _

theorem oneShot_begins {middle loop' : TimeoutLoop α} {timer : ℕ}
    (hbegins : Begins op (some middle) (some loop') timer)
    (hshot : OneShot middle) : OneShot loop' := by
  cases hbegins with
  | nothing => exact hshot
  | scheduled _ now duration lambda _ =>
      exact oneShot_addTimer (fun _ _ => rfl) hshot

/-- Only the timers which the operation cancels are cancelled after it. -/
theorem mem_of_newlyCancelled {before middle loop' : TimeoutLoop α}
    {ids : List ℕ} {timer : ℕ} (hretires : Retires ids before middle)
    (hbegins : Begins op (some middle) (some loop') timer)
    (hordered : before.Ordered) {entry : TimerEntry (LoopCallback α)}
    (hentry : entry ∈ newlyCancelled before loop') :
    entry ∈ before.timers.elems ∧ entry.cancelled = false ∧
      entry.id ∈ ids := by
  unfold newlyCancelled at hentry
  rw [List.mem_filter, Bool.and_eq_true, Bool.not_eq_true', List.any_eq_true]
    at hentry
  rcases hentry with ⟨hmem, hactive, other, hother, hboth⟩
  rw [Bool.and_eq_true, beq_iff_eq] at hboth
  have hmiddle : other ∈ middle.timers.elems := by
    cases hbegins with
    | nothing => exact hother
    | scheduled _ now duration lambda _ =>
        unfold scheduleTimer at hother
        rw [elems_addTimer, List.mem_append, List.mem_singleton] at hother
        rcases hother with hold | rfl
        · exact hold
        · cases hboth.2
  rw [hretires.elems] at hmiddle
  rcases List.mem_map.mp hmiddle with ⟨old, hold, rfl⟩
  rw [cancelIn_id] at hboth
  refine ⟨hmem, hactive, ?_⟩
  have hsame := hordered.eq_of_id hold hmem hboth.1
  subst hsame
  by_contra hout
  rw [cancelIn, if_neg hout, hactive] at hboth
  cases hboth.2

/-! ## The world -/

/-- What an operation of a live object comes to. -/
structure ServedBy (object : ℕ) (impl : ManagerImpl α) (op : TimeoutOp α)
    (timer : ℕ) (ids : List ℕ) (world next : ManagerWorld α) : Prop where
  kept : next.WellKept
  cancelled : Cancelled op.EndsKey impl.manager ids
  running_iff : ∀ object' key id origin,
    next.Running object' key id origin ↔
      (object' = object ∧ op.startedKey = some key ∧ id = timer ∧
          origin = ⟨world.starts, impl.loop⟩) ∨
        world.Running object' key id origin ∧
          ¬(object' = object ∧ op.EndsKey key)
  pending_iff : ∀ index id capture key,
    next.Pending index id capture key ↔
      (impl.loop = some index ∧ op.startedKey = some key ∧ id = timer ∧
          capture = ⟨object, world.starts⟩) ∨
        world.Pending index id capture key ∧
          ¬(impl.loop = some index ∧ id ∈ ids)
  unattached : impl.loop = none → op.startedKey ≠ none →
    timer = invalidTimerId
  starts_le : world.starts ≤ next.starts
  starts_lt : op.startedKey ≠ none → world.starts < next.starts
  live : ∀ object', (∃ impl, world.objects object' = .live impl) →
    ∃ impl, next.objects object' = .live impl
  log : ∃ cancelled, next.log =
      .served (impl.endedBy op) cancelled :: world.log ∧
    ∀ start ∈ cancelled, ∃ index, impl.loop = some index ∧
      ∃ entry ∈ (world.loops index).timers.elems,
        entry.cancelled = false ∧ entry.id ∈ ids ∧
          start = startOf (world.captures index) entry

theorem keyed_serve (hkept : world.WellKept)
    (hkeyed : (world.applied impl op).1.Keyed) (object' : ℕ)
    (impl' : ManagerImpl α)
    (hlive : (world.serve object impl op).objects object' = .live impl') :
    impl'.manager.Keyed := by
  rw [objects_serve] at hlive
  by_cases hobject : object' = object
  · rw [hobject, Function.update_self] at hlive
    cases hlive
    exact hkeyed
  · rw [Function.update_of_ne hobject] at hlive
    exact hkept.keyed object' impl' hlive

theorem live_serve {object' : ℕ}
    (hlive : ∃ impl, world.objects object' = .live impl) :
    ∃ impl', (world.serve object impl op).objects object' =
      .live impl' := by
  rw [objects_serve]
  by_cases hobject : object' = object
  · rw [hobject, Function.update_self]
    exact ⟨_, rfl⟩
  · rw [Function.update_of_ne hobject]
    exact hlive

theorem starts_lt_serve (hstarted : op.startedKey ≠ none) :
    world.starts < (world.serve object impl op).starts := by
  have hone := starts_of_startedKey impl.manager
    (impl.loop.map world.loops) hstarted
  rw [starts_serve, applied, hone]
  exact Nat.lt_succ_self _

/-- Without a loop there are only the entries. -/
theorem serve_spec_of_none (hkept : world.WellKept)
    (hlive : world.objects object = .live impl) (hloop : impl.loop = none)
    {timer : ℕ} {ids : List ℕ} {loop loop' : Option (TimeoutLoop α)}
    (hserves : Serves op timer impl.manager (world.applied impl op).1 loop
      loop')
    (hids : Cancelled op.EndsKey impl.manager ids)
    (hbegins : Begins op none loop' timer) :
    ServedBy object impl op timer ids world
      (world.serve object impl op) := by
  rcases loops_serve_of_none world object op hloop with
    ⟨hloops, hcaptures, hlog⟩
  refine ⟨⟨?_, ?_, keyed_serve hkept hserves.keyed⟩, hids,
    running_serve hserves hlive, ?_, ?_, ?_, starts_lt_serve,
    fun _ => live_serve, [], hlog, by simp⟩
  · rw [hloops]
    exact hkept.ordered
  · rw [hloops]
    exact hkept.oneShot
  · intro index id capture key
    unfold Pending
    rw [hloops, hcaptures, hloop]
    simp
  · intro _ hstarted
    cases hbegins with
    | nothing _ _ hnone => exact absurd hnone hstarted
    | unattached => rfl
  · rw [starts_serve]
    exact Nat.le_add_right _ _

theorem serve_spec_of_some (hkept : world.WellKept)
    (hlive : world.objects object = .live impl) {index : ℕ}
    (hloop : impl.loop = some index) {timer : ℕ} {ids : List ℕ}
    {before after : Option (TimeoutLoop α)}
    {middle loop' : TimeoutLoop α}
    (hserves : Serves op timer impl.manager (world.applied impl op).1
      before after)
    (happlied : (world.applied impl op).2.1 = some loop')
    (hids : Cancelled op.EndsKey impl.manager ids)
    (hretires : Retires ids (world.loops index) middle)
    (hbegins : Begins op (some middle) (some loop') timer) :
    ServedBy object impl op timer ids world
      (world.serve object impl op) := by
  rcases serve_of_some object hloop happlied with
    ⟨hloops, hcaptures, hlog⟩
  refine ⟨⟨?_, ?_, keyed_serve hkept hserves.keyed⟩, hids,
    running_serve hserves hlive, ?_, ?_, ?_, starts_lt_serve,
    fun _ => live_serve, _, hlog, ?_⟩
  · intro other
    rw [hloops]
    by_cases hother : other = index
    · rw [hother, Function.update_self]
      exact ordered_begins hbegins hretires.ordered
    · rw [Function.update_of_ne hother]
      exact hkept.ordered other
  · intro other
    rw [hloops]
    by_cases hother : other = index
    · rw [hother, Function.update_self]
      exact oneShot_begins hbegins
        (oneShot_retires hretires (hkept.oneShot index))
    · rw [Function.update_of_ne hother]
      exact hkept.oneShot other
  · intro other id capture key
    unfold Pending
    rw [hloops, hcaptures, hloop, Option.some.injEq]
    by_cases hother : other = index
    · subst hother
      rw [Function.update_self, Function.update_self,
        pendingIn_begins hretires hbegins]
      simp
    · rw [Function.update_of_ne hother, Function.update_of_ne hother]
      simp [Ne.symm hother]
  · intro hnone
    rw [hloop] at hnone
    cases hnone
  · rw [starts_serve]
    exact Nat.le_add_right _ _
  · intro start hstart
    rcases List.mem_map.mp hstart with ⟨entry, hentry, rfl⟩
    rcases mem_of_newlyCancelled hretires hbegins (hkept.ordered index)
      hentry with ⟨hmem, hactive, hid⟩
    exact ⟨index, hloop, entry, hmem, hactive, hid, rfl⟩

theorem serve_spec (hkept : world.WellKept)
    (hlive : world.objects object = .live impl) (op : TimeoutOp α) :
    ∃ timer ids,
      ServedBy object impl op timer ids world
        (world.serve object impl op) := by
  have hordered : ∀ inner ∈ impl.loop.map world.loops, inner.Ordered := by
    intro inner hinner
    rcases Option.map_eq_some_iff.mp hinner with ⟨index, _, rfl⟩
    exact hkept.ordered index
  rcases apply_serves (hkept.keyed object impl hlive) hordered op with
    ⟨timer, hserves⟩
  rcases hserves.loop with ⟨ids, middle, hids, hrel, hbegins⟩
  refine ⟨timer, ids, ?_⟩
  cases hloop : impl.loop with
  | none =>
      rw [hloop, Option.map_none] at hrel
      cases hrel
      exact serve_spec_of_none hkept hlive hloop hserves hids hbegins
  | some index =>
      rw [hloop, Option.map_some] at hrel
      generalize hinner : world.loops index = inner at hrel
      cases hrel with
      | some hretires =>
          subst hinner
          rcases exists_of_begins hbegins with ⟨loop', happlied⟩
          rw [happlied] at hbegins
          exact serve_spec_of_some hkept hlive hloop hserves happlied hids
            hretires hbegins

end ManagerWorld

end VynxHttp
