import VynxHttp.ManagerPasses

/-!
# Managers which know their timers

As long as no timeout is ended with the loop of another one, and no object goes
away from its timers, the pending timers are those which the active entries
have.  Then a timer deactivates the entry of its own start.
-/

namespace VynxHttp

open LoopTimers TimeoutManager

variable {α : Type*}

/-! ## Logs -/

/-- No timer deactivates the entry of a later start or calls the callback of a
timeout which has been cancelled or replaced, and no operation cancels the
timer of anything but the timeouts which it ends. -/
structure Undisturbed (log : List ManagerEvent) : Prop where
  replaced : ∀ timer entry called,
    .fired timer entry called ∈ log → ¬timer < entry
  silent : ∀ later earlier ended cancelled,
    log = later ++ .served ended cancelled :: earlier →
      ∀ timer entry, .fired timer entry true ∈ later → timer ∉ ended
  own : ∀ ended cancelled, .served ended cancelled ∈ log →
    ∀ timer ∈ cancelled, ∃ start ∈ ended, timer = some start

section

variable {log : List ManagerEvent} {ended : List ℕ}
  {cancelled : List (Option ℕ)}

theorem undisturbed_nil : Undisturbed [] := by
  refine ⟨by simp, ?_, by simp⟩
  intro later earlier ended cancelled hsplit
  cases later <;> cases hsplit

/-- The part of it which is about the order of the events, for one more. -/
theorem Undisturbed.silent_cons (hundisturbed : Undisturbed log)
    {event : ManagerEvent}
    (hnew : ∀ timer entry, event = .fired timer entry true →
      ∀ ended cancelled, .served ended cancelled ∈ log → timer ∉ ended)
    {later earlier : List ManagerEvent} {ended' : List ℕ}
    {cancelled' : List (Option ℕ)}
    (hsplit : event :: log = later ++ .served ended' cancelled' :: earlier)
    {timer entry : ℕ} (hfired : .fired timer entry true ∈ later) :
    timer ∉ ended' := by
  rcases List.cons_eq_append_iff.mp hsplit with
    ⟨rfl, _⟩ | ⟨rest, rfl, hrest⟩
  · cases hfired
  · rcases List.mem_cons.mp hfired with hsame | hold
    · refine hnew timer entry hsame.symm ended' cancelled' ?_
      rw [hrest]
      exact List.mem_append_right _ (List.mem_cons_self ..)
    · exact hundisturbed.silent rest earlier ended' cancelled' hrest timer
        entry hold

theorem Undisturbed.served (hundisturbed : Undisturbed log)
    (hown : ∀ timer ∈ cancelled, ∃ start ∈ ended, timer = some start) :
    Undisturbed (.served ended cancelled :: log) := by
  refine ⟨?_, ?_, ?_⟩
  · intro timer entry called hfired
    rcases List.mem_cons.mp hfired with hsame | hold
    · cases hsame
    · exact hundisturbed.replaced timer entry called hold
  · intro later earlier ended' cancelled' hsplit timer entry hfired
    refine hundisturbed.silent_cons (fun _ _ hsame => ?_) hsplit hfired
    cases hsame
  · intro ended' cancelled' hserved
    rcases List.mem_cons.mp hserved with hsame | hold
    · cases hsame
      exact hown
    · exact hundisturbed.own ended' cancelled' hold

theorem Undisturbed.fired (hundisturbed : Undisturbed log) {start : ℕ}
    (hspent : ∀ ended cancelled, .served ended cancelled ∈ log →
      start ∉ ended) (called : Bool) :
    Undisturbed (.fired start start called :: log) := by
  refine ⟨?_, ?_, ?_⟩
  · intro timer entry called' hfired
    rcases List.mem_cons.mp hfired with hsame | hold
    · cases hsame
      exact lt_irrefl _
    · exact hundisturbed.replaced timer entry called' hold
  · intro later earlier ended' cancelled' hsplit timer entry hfired
    refine hundisturbed.silent_cons (fun _ _ hsame => ?_) hsplit hfired
    cases hsame
    exact hspent
  · intro ended' cancelled' hserved
    rcases List.mem_cons.mp hserved with hsame | hold
    · cases hsame
    · exact hundisturbed.own ended' cancelled' hold

end

/-- The manager has no active timeout with a timer. -/
def ManagerImpl.Idle (impl : ManagerImpl α) : Prop :=
  ∀ row ∈ impl.manager.entries.rows, row.2.active = true →
    row.2.timer = invalidTimerId

/-- Every timeout which the operation ends has its timer, if any, in the loop
to which the manager is pointed. -/
def ManagerImpl.EndsOwn (impl : ManagerImpl α) (op : TimeoutOp α) : Prop :=
  ∀ row ∈ impl.manager.entries.rows, row.2.active = true →
    row.2.timer ≠ invalidTimerId →
    op.ends row.2.handle row.2.type = true →
    (impl.origins row.1).loop = impl.loop

theorem ManagerImpl.Idle.timer_eq {impl : ManagerImpl α} (hidle : impl.Idle)
    {key : UInt64} {timer : ℕ} (hruns : impl.manager.RunsAt key timer) :
    timer = invalidTimerId := by
  rcases hruns with ⟨entry, hfind, hactive, rfl⟩
  exact hidle (key, entry) (KeyedTable.find?_eq_some_iff.mp hfind) hactive

theorem ManagerImpl.EndsOwn.loop_eq {impl : ManagerImpl α}
    {op : TimeoutOp α} (hown : impl.EndsOwn op)
    (hkeyed : impl.manager.Keyed) {key : UInt64} {timer : ℕ}
    (hruns : impl.manager.RunsAt key timer)
    (hvalid : timer ≠ invalidTimerId) (hends : op.EndsKey key) :
    (impl.origins key).loop = impl.loop := by
  rcases hruns with ⟨entry, hfind, hactive, rfl⟩
  rcases hends with ⟨handle, type, rfl, hends⟩
  have hdata := makeKey_injective (hkeyed _ entry hfind)
  rw [hdata.1, hdata.2] at hends
  exact hown (_, entry) (KeyedTable.find?_eq_some_iff.mp hfind) hactive
    hvalid hends

theorem mem_endedBy {impl : ManagerImpl α} (hkeyed : impl.manager.Keyed)
    {op : TimeoutOp α} {start : ℕ} :
    start ∈ impl.endedBy op ↔ ∃ key timer, impl.manager.RunsAt key timer ∧
      op.EndsKey key ∧ (impl.origins key).start = start := by
  unfold ManagerImpl.endedBy
  rw [List.mem_map]
  constructor
  · rintro ⟨⟨key, entry⟩, hrow, hstart⟩
    rw [List.mem_filter, Bool.and_eq_true] at hrow
    have hfind := KeyedTable.find?_eq_some_iff.mpr hrow.1
    exact ⟨key, entry.timer, ⟨entry, hfind, hrow.2.1, rfl⟩,
      ⟨entry.handle, entry.type, hkeyed key entry hfind, hrow.2.2⟩, hstart⟩
  · rintro ⟨_, timer, ⟨entry, hfind, hactive, _⟩,
      ⟨handle, type, rfl, hends⟩, hstart⟩
    have hdata := makeKey_injective (hkeyed _ entry hfind)
    refine ⟨(_, entry), List.mem_filter.mpr
      ⟨KeyedTable.find?_eq_some_iff.mp hfind, ?_⟩, hstart⟩
    rw [Bool.and_eq_true, ← hdata.1, ← hdata.2]
    exact ⟨hactive, hends⟩

namespace ManagerWorld

variable {world next : ManagerWorld α}

/-! ## The invariant -/

structure Tracked (world : ManagerWorld α) : Prop where
  kept : world.WellKept
  pending_iff : ∀ index id capture key,
    world.Pending index id capture key ↔
      world.Running capture.object key id ⟨capture.start, some index⟩
  unattached : ∀ object key timer start,
    world.Running object key timer ⟨start, none⟩ → timer = invalidTimerId
  below : ∀ object key timer origin,
    world.Running object key timer origin → origin.start < world.starts
  distinct : ∀ object key timer origin object' key' timer' origin',
    world.Running object key timer origin →
      world.Running object' key' timer' origin' →
      origin.start = origin'.start → object = object' ∧ key = key'
  spent : ∀ ended cancelled, .served ended cancelled ∈ world.log →
    ∀ start ∈ ended, start < world.starts ∧
      ∀ object key timer origin, world.Running object key timer origin →
        origin.start ≠ start
  undisturbed : Undisturbed world.log

def IdleAt (world : ManagerWorld α) (object : ℕ) : Prop :=
  ∀ impl, world.objects object = .live impl → impl.Idle

theorem Tracked.valid (htracked : world.Tracked) {object : ℕ}
    {key : UInt64} {timer start index : ℕ}
    (hrunning : world.Running object key timer ⟨start, some index⟩) :
    timer ≠ invalidTimerId :=
  ((htracked.pending_iff index timer ⟨object, start⟩ key).mpr
    hrunning).valid (htracked.kept.ordered index)

theorem Tracked.not_attached (htracked : world.Tracked) {object : ℕ}
    (hidle : world.IdleAt object) {key : UInt64} {timer start index : ℕ} :
    ¬world.Running object key timer ⟨start, some index⟩ := by
  intro hrunning
  have hvalid := htracked.valid hrunning
  rcases hrunning with ⟨impl, hlive, hruns, _⟩
  exact hvalid ((hidle impl hlive).timer_eq hruns)

/-! ## Operations -/

section

variable {object : ℕ} {impl : ManagerImpl α} {op : TimeoutOp α} {timer : ℕ}
  {ids : List ℕ}

/-- The timers which the operation cancels are those which its timeouts
have. -/
theorem Tracked.cancels_iff (htracked : world.Tracked)
    (hlive : world.objects object = .live impl) (hown : impl.EndsOwn op)
    (hcancelled : Cancelled op.EndsKey impl.manager ids) {index id : ℕ}
    {capture : Capture} {key : UInt64}
    (hpending : world.Pending index id capture key) :
    impl.loop = some index ∧ id ∈ ids ↔
      capture.object = object ∧ op.EndsKey key := by
  have hordered := htracked.kept.ordered index
  have hkeyed := htracked.kept.keyed object impl hlive
  constructor
  · rintro ⟨hloop, hid⟩
    rcases (hcancelled id).mp hid with ⟨hvalid, key', hruns, hends⟩
    have horigin : (impl.origins key').loop = some index :=
      (hown.loop_eq hkeyed hruns hvalid hends).trans hloop
    have hrunning : world.Running object key' id
        ⟨(impl.origins key').start, some index⟩ := by
      refine ⟨impl, hlive, hruns, ?_⟩
      rw [← horigin]
    have hother := (htracked.pending_iff index id
      ⟨object, (impl.origins key').start⟩ key').mpr hrunning
    rcases hpending.eq hother hordered with ⟨rfl, rfl⟩
    exact ⟨rfl, hends⟩
  · rintro ⟨rfl, hends⟩
    have hvalid : id ≠ invalidTimerId := hpending.valid hordered
    rcases ((htracked.pending_iff index id capture key).mp
      hpending).of_live hlive with ⟨hruns, horigin⟩
    have hloop := hown.loop_eq hkeyed hruns hvalid hends
    rw [horigin] at hloop
    exact ⟨hloop.symm, (hcancelled id).mpr ⟨hvalid, key, hruns, hends⟩⟩

/-- What an operation cancels in the loop was scheduled by a start which it
ends. -/
theorem Tracked.own_cancelled (htracked : world.Tracked)
    (hlive : world.objects object = .live impl) (hown : impl.EndsOwn op)
    (hcancelled : Cancelled op.EndsKey impl.manager ids) {index : ℕ}
    (hloop : impl.loop = some index)
    {entry : TimerEntry (LoopCallback α)}
    (hentry : entry ∈ (world.loops index).timers.elems)
    (hid : entry.id ∈ ids) :
    ∃ start ∈ impl.endedBy op,
      startOf (world.captures index) entry = some start := by
  rcases (hcancelled entry.id).mp hid with ⟨hvalid, key, hruns, hends⟩
  have hkeyed := htracked.kept.keyed object impl hlive
  have horigin : (impl.origins key).loop = some index :=
    (hown.loop_eq hkeyed hruns hvalid hends).trans hloop
  have hrunning : world.Running object key entry.id
      ⟨(impl.origins key).start, some index⟩ := by
    refine ⟨impl, hlive, hruns, ?_⟩
    rw [← horigin]
  rcases (htracked.pending_iff index entry.id
    ⟨object, (impl.origins key).start⟩ key).mpr hrunning with
    ⟨other, hother, hsame, _, hcapture, lambda, hlambda, _⟩
  have heq := (htracked.kept.ordered index).eq_of_id hother hentry hsame
  subst heq
  refine ⟨(impl.origins key).start, (mem_endedBy hkeyed).mpr
    ⟨key, other.id, hruns, hends, rfl⟩, ?_⟩
  unfold startOf
  rw [hlambda]
  dsimp only
  rw [hcapture]

theorem Tracked.below_served (htracked : world.Tracked)
    (hserved : ServedBy object impl op timer ids world next)
    {object' : ℕ} {key : UInt64} {id : ℕ} {origin : TimeoutOrigin}
    (hrunning : next.Running object' key id origin) :
    origin.start < next.starts := by
  rcases (hserved.running_iff object' key id origin).mp hrunning with
    ⟨_, hstarted, _, rfl⟩ | ⟨hold, _⟩
  · exact hserved.starts_lt (by simp [hstarted])
  · exact (htracked.below _ _ _ _ hold).trans_le hserved.starts_le

theorem Tracked.distinct_served (htracked : world.Tracked)
    (hserved : ServedBy object impl op timer ids world next)
    {object₁ object₂ : ℕ} {key₁ key₂ : UInt64} {id₁ id₂ : ℕ}
    {origin₁ origin₂ : TimeoutOrigin}
    (hrunning₁ : next.Running object₁ key₁ id₁ origin₁)
    (hrunning₂ : next.Running object₂ key₂ id₂ origin₂)
    (hstart : origin₁.start = origin₂.start) :
    object₁ = object₂ ∧ key₁ = key₂ := by
  -- The number of a new start is the one of no earlier start.
  rcases (hserved.running_iff _ _ _ _).mp hrunning₁ with
    ⟨rfl, hstarted₁, _, rfl⟩ | ⟨hold₁, _⟩
  · rcases (hserved.running_iff _ _ _ _).mp hrunning₂ with
      ⟨rfl, hstarted₂, _, rfl⟩ | ⟨hold₂, _⟩
    · rw [hstarted₁, Option.some.injEq] at hstarted₂
      exact ⟨rfl, hstarted₂⟩
    · have hlt := htracked.below _ _ _ _ hold₂
      dsimp only at hstart
      omega
  · rcases (hserved.running_iff _ _ _ _).mp hrunning₂ with
      ⟨rfl, _, _, rfl⟩ | ⟨hold₂, _⟩
    · have hlt := htracked.below _ _ _ _ hold₁
      dsimp only at hstart
      omega
    · exact htracked.distinct _ _ _ _ _ _ _ _ hold₁ hold₂ hstart

/-- The timeouts which the operation ends do not run any more. -/
theorem Tracked.spent_served (htracked : world.Tracked)
    (hlive : world.objects object = .live impl)
    (hserved : ServedBy object impl op timer ids world next) {start : ℕ}
    (hended : start ∈ impl.endedBy op) :
    start < next.starts ∧
      ∀ object' key id origin, next.Running object' key id origin →
        origin.start ≠ start := by
  rcases (mem_endedBy (htracked.kept.keyed object impl hlive)).mp hended with
    ⟨key, id, hruns, hends, rfl⟩
  have hrunning : world.Running object key id (impl.origins key) :=
    ⟨impl, hlive, hruns, rfl⟩
  have hlt := htracked.below _ _ _ _ hrunning
  refine ⟨hlt.trans_le hserved.starts_le, ?_⟩
  intro object' key' id' origin' hrunning' hstart
  rcases (hserved.running_iff _ _ _ _).mp hrunning' with
    ⟨_, _, _, rfl⟩ | ⟨hold, hkept⟩
  · dsimp only at hstart
    omega
  · rcases htracked.distinct _ _ _ _ _ _ _ _ hold hrunning hstart with
      ⟨rfl, rfl⟩
    exact hkept ⟨rfl, hends⟩

theorem Tracked.served (htracked : world.Tracked)
    (hlive : world.objects object = .live impl) (hown : impl.EndsOwn op)
    (hserved : ServedBy object impl op timer ids world next) :
    next.Tracked := by
  rcases hserved.log with ⟨cancelled, hlog, hcancelled⟩
  refine ⟨hserved.kept, ?_, ?_,
    fun _ _ _ _ => htracked.below_served hserved,
    fun _ _ _ _ _ _ _ _ => htracked.distinct_served hserved, ?_, ?_⟩
  · intro index id capture key
    rw [hserved.pending_iff, hserved.running_iff]
    refine or_congr ?_ ?_
    · rcases capture with ⟨captured, start⟩
      simp only [Capture.mk.injEq, TimeoutOrigin.mk.injEq]
      constructor
      · rintro ⟨hloop, hstarted, hid, hobject, hstart⟩
        exact ⟨hobject, hstarted, hid, hstart, hloop.symm⟩
      · rintro ⟨hobject, hstarted, hid, hstart, hloop⟩
        exact ⟨hloop.symm, hstarted, hid, hobject, hstart⟩
    · rw [htracked.pending_iff]
      refine and_congr_right fun hrunning => not_congr ?_
      exact htracked.cancels_iff hlive hown hserved.cancelled
        ((htracked.pending_iff _ _ _ _).mpr hrunning)
  · intro object' key id start hrunning
    rcases (hserved.running_iff _ _ _ _).mp hrunning with
      ⟨_, hstarted, rfl, horigin⟩ | ⟨hold, _⟩
    · rw [TimeoutOrigin.mk.injEq] at horigin
      exact hserved.unattached horigin.2.symm (by simp [hstarted])
    · exact htracked.unattached _ _ _ _ hold
  · intro ended cancelled' hmem start hstart
    rw [hlog] at hmem
    rcases List.mem_cons.mp hmem with hsame | hold
    · cases hsame
      exact htracked.spent_served hlive hserved hstart
    · rcases htracked.spent _ _ hold start hstart with ⟨hlt, hover⟩
      refine ⟨hlt.trans_le hserved.starts_le, ?_⟩
      intro object' key id origin hrunning
      rcases (hserved.running_iff _ _ _ _).mp hrunning with
        ⟨_, _, _, rfl⟩ | ⟨hbefore, _⟩
      · exact hlt.ne'
      · exact hover _ _ _ _ hbefore
  · rw [hlog]
    refine htracked.undisturbed.served fun start hstart => ?_
    rcases hcancelled start hstart with
      ⟨index, hloop, entry, hentry, _, hid, rfl⟩
    exact htracked.own_cancelled hlive hown hserved.cancelled hloop hentry
      hid

end

/-! ## Objects -/

/-- Objects take the managers of others, or lose their own, but only those
without timers. -/
theorem Tracked.relabel (htracked : world.Tracked) (hkept : next.WellKept)
    (hloops : next.loops = world.loops)
    (hcaptures : next.captures = world.captures)
    (hstarts : next.starts = world.starts) (hlog : next.log = world.log)
    (source : ℕ → ℕ)
    (hsource : ∀ object key timer origin,
      next.Running object key timer origin →
        world.Running (source object) key timer origin)
    (hinjective : ∀ object key timer origin object' key' timer' origin',
      next.Running object key timer origin →
        next.Running object' key' timer' origin' →
        source object = source object' → object = object')
    (hattached : ∀ object key timer start index,
      next.Running object key timer ⟨start, some index⟩ ↔
        world.Running object key timer ⟨start, some index⟩) :
    next.Tracked := by
  refine ⟨hkept, ?_, ?_, ?_, ?_, ?_, ?_⟩
  · intro index id capture key
    rw [hattached, ← htracked.pending_iff]
    unfold Pending
    rw [hloops, hcaptures]
  · exact fun _ _ _ _ hrunning =>
      htracked.unattached _ _ _ _ (hsource _ _ _ _ hrunning)
  · intro object key timer origin hrunning
    rw [hstarts]
    exact htracked.below _ _ _ _ (hsource _ _ _ _ hrunning)
  · intro object key timer origin object' key' timer' origin' hrunning
      hrunning' hstart
    rcases htracked.distinct _ _ _ _ _ _ _ _ (hsource _ _ _ _ hrunning)
      (hsource _ _ _ _ hrunning') hstart with ⟨hsame, hkey⟩
    exact ⟨hinjective _ _ _ _ _ _ _ _ hrunning hrunning' hsame, hkey⟩
  · intro ended cancelled hserved start hended
    rw [hlog] at hserved
    rcases htracked.spent _ _ hserved start hended with ⟨hlt, hover⟩
    refine ⟨by rw [hstarts]; exact hlt, ?_⟩
    exact fun _ _ _ _ hrunning => hover _ _ _ _ (hsource _ _ _ _ hrunning)
  · rw [hlog]
    exact htracked.undisturbed

/-- The same timeouts run. -/
theorem Tracked.same_running (htracked : world.Tracked)
    (hkept : next.WellKept) (hloops : next.loops = world.loops)
    (hcaptures : next.captures = world.captures)
    (hstarts : next.starts = world.starts) (hlog : next.log = world.log)
    (hrunning : ∀ object key timer origin,
      next.Running object key timer origin ↔
        world.Running object key timer origin) : next.Tracked :=
  htracked.relabel hkept hloops hcaptures hstarts hlog id
    (fun _ _ _ _ => (hrunning _ _ _ _).mp) (fun _ _ _ _ _ _ _ _ _ _ h => h)
    (fun _ _ _ _ _ => hrunning _ _ _ _)

section

variable {object other : ℕ} {value : ManagerObject α}

theorem WellKept.setObject (hkept : world.WellKept)
    (hvalue : ∀ impl, value = .live impl → impl.manager.Keyed) :
    (world.setObject object value).WellKept := by
  refine ⟨hkept.ordered, hkept.oneShot, ?_⟩
  intro object' impl hlive
  by_cases hobject : object' = object
  · rw [hobject, objects_setObject] at hlive
    exact hvalue impl hlive
  · rw [objects_setObject_of_ne hobject] at hlive
    exact hkept.keyed object' impl hlive

theorem WellKept.takeOver (hkept : world.WellKept) :
    (world.takeOver object other).WellKept := by
  refine (hkept.setObject ?_).setObject (by simp)
  exact fun impl hlive => hkept.keyed other impl hlive

theorem keyed_empty : (({} : ManagerImpl α)).manager.Keyed := by
  intro key entry hfind
  simp [KeyedTable.find?, KeyedTable.empty] at hfind

theorem not_runsAt_empty {key : UInt64} {timer : ℕ} :
    ¬({} : ManagerImpl α).manager.RunsAt key timer := by
  rintro ⟨entry, hfind, _⟩
  simp [KeyedTable.find?, KeyedTable.empty] at hfind

theorem Tracked.create (htracked : world.Tracked)
    (habsent : world.objects object = .absent) :
    (world.setObject object (.live {})).Tracked := by
  refine htracked.same_running (htracked.kept.setObject ?_) rfl rfl rfl rfl ?_
  · intro impl hlive
    cases hlive
    exact keyed_empty
  · intro object' key timer origin
    by_cases hobject : object' = object
    · subst hobject
      rw [running_setObject_live]
      refine iff_of_false (fun hruns => not_runsAt_empty hruns.1) ?_
      exact not_running_of_objects (by simp [habsent])
    · exact running_setObject_of_ne hobject

theorem Tracked.setEventLoop (htracked : world.Tracked)
    {impl : ManagerImpl α} (hlive : world.objects object = .live impl)
    (loop : Option ℕ) :
    (world.setObject object (.live { impl with loop })).Tracked := by
  have hkeyed := htracked.kept.keyed object impl hlive
  refine htracked.same_running (htracked.kept.setObject ?_) rfl rfl rfl rfl ?_
  · intro impl' hlive'
    cases hlive'
    exact hkeyed
  · intro object' key timer origin
    by_cases hobject : object' = object
    · subst hobject
      rw [running_setObject_live]
      constructor
      · exact fun hruns => ⟨impl, hlive, hruns⟩
      · intro hrunning
        have hruns := hrunning.of_live hlive
        exact hruns
    · exact running_setObject_of_ne hobject

theorem running_destroy {object' : ℕ} {key : UInt64} {timer : ℕ}
    {origin : TimeoutOrigin} :
    (world.setObject object .absent).Running object' key timer origin ↔
      world.Running object' key timer origin ∧ object' ≠ object := by
  by_cases hobject : object' = object
  · subst hobject
    refine iff_of_false (not_running_of_objects ?_) (by simp)
    rw [objects_setObject]
    simp
  · rw [running_setObject_of_ne hobject]
    simp [hobject]

theorem Tracked.destroy (htracked : world.Tracked)
    (hidle : world.IdleAt object) :
    (world.setObject object .absent).Tracked := by
  refine htracked.relabel (htracked.kept.setObject (by simp)) rfl rfl rfl rfl
    id (fun _ _ _ _ hrunning => (running_destroy.mp hrunning).1)
    (fun _ _ _ _ _ _ _ _ _ _ hsame => hsame) ?_
  intro object' key timer start index
  rw [running_destroy]
  refine and_iff_left_of_imp ?_
  rintro hrunning rfl
  exact htracked.not_attached hidle hrunning

theorem running_takeOver (hne : object ≠ other) {object' : ℕ}
    {key : UInt64} {timer : ℕ} {origin : TimeoutOrigin} :
    (world.takeOver object other).Running object' key timer origin ↔
      object' ≠ other ∧
        world.Running (if object' = object then other else object') key timer
          origin := by
  by_cases hother : object' = other
  · subst hother
    refine iff_of_false (not_running_of_objects ?_) (by simp)
    rw [objects_takeOver_self]
    simp
  · by_cases hobject : object' = object
    · subst hobject
      unfold Running
      rw [objects_takeOver hne, if_pos rfl]
      simp [hother]
    · unfold Running
      rw [objects_takeOver_of_ne hobject hother, if_neg hobject]
      simp [hother]

theorem Tracked.takeOver (htracked : world.Tracked) (hne : object ≠ other)
    (hidle : world.IdleAt object) (hidle' : world.IdleAt other) :
    (world.takeOver object other).Tracked := by
  refine htracked.relabel htracked.kept.takeOver rfl rfl rfl rfl
    (fun object' => if object' = object then other else object')
    (fun _ _ _ _ hrunning => ((running_takeOver hne).mp hrunning).2) ?_ ?_
  · intro object₁ _ _ _ object₂ _ _ _ hrunning₁ hrunning₂ hsame
    have hne₁ := ((running_takeOver hne).mp hrunning₁).1
    have hne₂ := ((running_takeOver hne).mp hrunning₂).1
    split at hsame <;> split at hsame <;> simp_all
  · intro object' key timer start index
    rw [running_takeOver hne]
    by_cases hobject : object' = object
    · subst hobject
      rw [if_pos rfl]
      exact iff_of_false
        (fun hrunning => htracked.not_attached hidle' hrunning.2)
        (htracked.not_attached hidle)
    · rw [if_neg hobject]
      refine and_iff_right_of_imp ?_
      rintro hrunning rfl
      exact htracked.not_attached hidle' hrunning

end

/-! ## Timers of other owners -/

theorem WellKept.of_loop (hkept : world.WellKept) {index : ℕ}
    {loop : TimeoutLoop α} (hordered : loop.Ordered) (hshot : OneShot loop)
    {s : ManagerSet α}
    (hkeyed : ∀ object impl, s.objects object = .live impl →
      impl.manager.Keyed) :
    (world.putPass index loop s).WellKept := by
  refine ⟨?_, ?_, hkeyed⟩
  · intro other
    by_cases hother : other = index
    · rw [hother, loops_putPass]
      exact hordered
    · rw [loops_putPass_of_ne hother]
      exact hkept.ordered other
  · intro other
    by_cases hother : other = index
    · rw [hother, loops_putPass]
      exact hshot
    · rw [loops_putPass_of_ne hother]
      exact hkept.oneShot other

theorem pending_putPass {index : ℕ} {loop : TimeoutLoop α}
    {s : ManagerSet α} {other id : ℕ} {capture : Capture} {key : UInt64} :
    (world.putPass index loop s).Pending other id capture key ↔
      if other = index then
        PendingIn loop (world.captures index) id capture key
      else world.Pending other id capture key := by
  unfold Pending
  by_cases hother : other = index
  · rw [if_pos hother, hother, loops_putPass]
    rfl
  · rw [if_neg hother, loops_putPass_of_ne hother]
    rfl

theorem Tracked.of_loop (htracked : world.Tracked) {index : ℕ}
    {loop : TimeoutLoop α} (hordered : loop.Ordered) (hshot : OneShot loop)
    (hpending : ∀ id capture key,
      PendingIn loop (world.captures index) id capture key ↔
        world.Pending index id capture key) :
    (world.putPass index loop world.toManagerSet).Tracked := by
  refine ⟨htracked.kept.of_loop hordered hshot htracked.kept.keyed, ?_,
    htracked.unattached, htracked.below, htracked.distinct, htracked.spent,
    htracked.undisturbed⟩
  intro other id capture key
  refine Iff.trans ?_ (htracked.pending_iff other id capture key)
  rw [pending_putPass]
  split
  next hother =>
    rw [hother]
    exact hpending id capture key
  next => rfl

theorem Tracked.schedule (htracked : world.Tracked) (index : ℕ)
    (now delay interval : ℤ) (repeating : Bool) :
    (world.putPass index ((world.loops index).addTimer
      ⟨now, delay, interval, .other, repeating⟩).1
        world.toManagerSet).Tracked :=
  htracked.of_loop ((htracked.kept.ordered index).addTimer _)
    (oneShot_addTimer (by simp) (htracked.kept.oneShot index))
    (fun _ _ _ => pendingIn_other now delay interval repeating)

/-! ## Passes -/

section

variable {index position : ℕ} {now : ℤ}
  {timer : TimerEntry (LoopCallback α)}

theorem oneShot_settleAt {loop : TimeoutLoop α} (now : ℤ)
    (hshot : OneShot loop) (hordered : loop.Ordered)
    (hposition : loop.timers.elems[position]? = some timer) :
    OneShot (loop.settleAt now position timer) := by
  intro settled hmem lambda hlambda
  rw [elems_settleAt hordered now hposition] at hmem
  rcases List.mem_map.mp hmem with ⟨other, hother, rfl⟩
  split at hlambda
  next hsame =>
    rw [if_pos hsame]
    unfold settle at hlambda ⊢
    split at hlambda <;> rename_i hrepeating
    · rw [hshot other hother lambda hlambda] at hrepeating
      cases hrepeating
    · rw [if_neg hrepeating]
      exact hshot other hother lambda hlambda
  next hother' =>
    rw [if_neg hother']
    exact hshot other hother lambda hlambda

/-- A timer of a manager is cancelled after its only turn. -/
theorem retires_settleAt {loop : TimeoutLoop α} (now : ℤ)
    (hordered : loop.Ordered)
    (hposition : loop.timers.elems[position]? = some timer)
    (honce : timer.repeating = false) :
    Retires [timer.id] loop (loop.settleAt now position timer) where
  ordered := Ordered.settleAt hordered now position hposition
  elems := by
    rw [elems_settleAt hordered now hposition]
    refine List.map_congr_left fun other hother => ?_
    by_cases hsame : other.id = timer.id
    · have heq := hordered.eq_of_id hother (List.mem_of_getElem? hposition)
        hsame
      subst heq
      simp [settle, cancelIn, honce]
    · simp [cancelIn, hsame]
  next := rfl

theorem pendingIn_settleAt_other {loop : TimeoutLoop α}
    {captures : ℕ → Capture} {id : ℕ} {capture : Capture} {key : UInt64}
    (hordered : loop.Ordered)
    (hposition : loop.timers.elems[position]? = some timer)
    (hother : timer.callback = .other) :
    PendingIn (loop.settleAt now position timer) captures id capture key ↔
      PendingIn loop captures id capture key := by
  have hmem := List.mem_of_getElem? hposition
  have hsettled : ∀ entry ∈ loop.timers.elems, entry.id = timer.id →
      entry.callback = .other ∧ (settle now entry).callback = .other := by
    intro entry hentry hsame
    have heq := hordered.eq_of_id hentry hmem hsame
    subst heq
    refine ⟨hother, ?_⟩
    unfold settle
    split
    · exact hother
    · exact hother
  unfold PendingIn
  rw [elems_settleAt hordered now hposition]
  constructor
  · rintro ⟨settled, hmem', hid, hactive, hcapture, lambda, hlambda, hkey⟩
    rcases List.mem_map.mp hmem' with ⟨entry, hentry, rfl⟩
    by_cases hsame : entry.id = timer.id
    · rw [if_pos hsame, (hsettled entry hentry hsame).2] at hlambda
      cases hlambda
    · rw [if_neg hsame] at hid hactive hlambda
      exact ⟨entry, hentry, hid, hactive, hcapture, lambda, hlambda, hkey⟩
  · rintro ⟨entry, hentry, hid, hactive, hcapture, lambda, hlambda, hkey⟩
    have hne : entry.id ≠ timer.id := by
      intro hsame
      rw [(hsettled entry hentry hsame).1] at hlambda
      cases hlambda
    exact ⟨entry, List.mem_map.mpr ⟨entry, hentry, if_neg hne⟩, hid, hactive,
      hcapture, lambda, hlambda, hkey⟩

theorem firedBy_of_runsAt {impl : ManagerImpl α}
    {lambda : TimeoutLambda α} {id : ℕ}
    (hruns : impl.manager.RunsAt (makeKey lambda.handle lambda.type) id)
    (start : ℕ) :
    firedBy impl lambda start =
      [.fired start (impl.origins (makeKey lambda.handle lambda.type)).start
        lambda.hasCallback] := by
  rcases hruns with ⟨entry, hfind, hactive, _⟩
  unfold firedBy
  dsimp only
  rw [hfind]
  exact if_pos hactive

/-- The manager of an object after a turn of the timer of a lambda. -/
def firedSet (world : ManagerWorld α) (object : ℕ) (impl : ManagerImpl α)
    (now : ℤ) (lambda : TimeoutLambda α) (timer start : ℕ) :
    ManagerSet α where
  objects := Function.update world.objects object
    (.live { impl with manager := impl.manager.runLambda now lambda timer })
  log := firedBy impl lambda start ++ world.log

theorem fire_eq {captures : ℕ → Capture} {lambda : TimeoutLambda α} {id : ℕ}
    {impl : ManagerImpl α}
    (hlive : world.objects (captures id).object = .live impl) :
    fire captures now (.timeout lambda) id world.toManagerSet =
      some (world.firedSet (captures id).object impl now lambda id
        (captures id).start) := by
  unfold fire
  dsimp only
  rw [hlive]
  rfl

section

variable {object : ℕ} {impl : ManagerImpl α} {lambda : TimeoutLambda α}
  {id start : ℕ} {loop : TimeoutLoop α}

theorem keyed_firedSet (hkept : world.WellKept)
    (hlive : world.objects object = .live impl) (object' : ℕ)
    (impl' : ManagerImpl α)
    (hlive' : (world.firedSet object impl now lambda id start).objects
      object' = .live impl') : impl'.manager.Keyed := by
  unfold firedSet at hlive'
  dsimp only at hlive'
  by_cases hobject : object' = object
  · rw [hobject, Function.update_self] at hlive'
    cases hlive'
    exact fire_keyed (hkept.keyed object impl hlive) now (.timeout lambda) id
  · rw [Function.update_of_ne hobject] at hlive'
    exact hkept.keyed object' impl' hlive'

theorem running_firedSet (hlive : world.objects object = .live impl)
    {object' : ℕ} {key : UInt64} {timer : ℕ} {origin : TimeoutOrigin} :
    (world.putPass index loop
        (world.firedSet object impl now lambda id start)).Running object' key
          timer origin ↔
      world.Running object' key timer origin ∧
        ¬(object' = object ∧ key = makeKey lambda.handle lambda.type) := by
  unfold Running putPass firedSet
  dsimp only
  by_cases hobject : object' = object
  · subst hobject
    rw [Function.update_self, hlive]
    constructor
    · rintro ⟨_, hsame, hruns, horigin⟩
      cases hsame
      rw [runsAt_runLambda] at hruns
      exact ⟨⟨impl, rfl, hruns.1, horigin⟩, fun hkey => hruns.2 hkey.2⟩
    · rintro ⟨⟨_, hsame, hruns, horigin⟩, hkey⟩
      cases hsame
      refine ⟨_, rfl, ?_, horigin⟩
      rw [runsAt_runLambda]
      exact ⟨hruns, fun hsame => hkey ⟨rfl, hsame⟩⟩
  · rw [Function.update_of_ne hobject]
    simp [hobject]

theorem log_firedSet (world : ManagerWorld α) (object : ℕ) (now : ℤ)
    {capture : Capture} {index : ℕ}
    (hruns : impl.manager.RunsAt (makeKey lambda.handle lambda.type) id)
    (horigin : impl.origins (makeKey lambda.handle lambda.type) =
      ⟨capture.start, some index⟩) :
    (world.firedSet object impl now lambda id capture.start).log =
      .fired capture.start capture.start lambda.hasCallback ::
        world.log := by
  unfold firedSet
  rw [firedBy_of_runsAt hruns, horigin]
  rfl

/-- A timer which has had its turn is not pending any more. -/
theorem pending_fired (hretires : Retires [timer.id] (world.loops index) loop)
    {s : ManagerSet α} {index' : ℕ} {capture : Capture} {key : UInt64} :
    (world.putPass index loop s).Pending index' id capture key ↔
      world.Pending index' id capture key ∧
        ¬(index' = index ∧ id = timer.id) := by
  rw [pending_putPass]
  split
  next hindex =>
    rw [pendingIn_retires hretires, List.mem_singleton, hindex]
    simp [Pending]
  next hindex => simp [hindex]

end

/-- The timer of a running timeout is the one which has its object and its
key. -/
theorem Tracked.turn_iff (htracked : world.Tracked) {id : ℕ}
    {capture : Capture} {key : UInt64}
    (hpending : world.Pending index id capture key) {index' id' : ℕ}
    {capture' : Capture} {key' : UInt64}
    (hpending' : world.Pending index' id' capture' key') :
    index' = index ∧ id' = id ↔
      capture'.object = capture.object ∧ key' = key := by
  constructor
  · rintro ⟨rfl, rfl⟩
    rcases hpending.eq hpending' (htracked.kept.ordered index') with
      ⟨rfl, rfl⟩
    exact ⟨rfl, rfl⟩
  · rintro ⟨hobject, rfl⟩
    rcases (htracked.pending_iff _ _ _ _).mp hpending with
      ⟨impl, hlive, hruns, horigin⟩
    have hrunning' := (htracked.pending_iff _ _ _ _).mp hpending'
    rw [hobject] at hrunning'
    rcases hrunning'.of_live hlive with ⟨hruns', horigin'⟩
    rw [horigin, TimeoutOrigin.mk.injEq, Option.some.injEq] at horigin'
    exact ⟨horigin'.2.symm, hruns'.timer_eq hruns⟩

/-- A timer which comes to its turn deactivates the entry of its own start. -/
theorem Tracked.fired (htracked : world.Tracked)
    (hposition : (world.loops index).timers.elems[position]? = some timer)
    (hdue : isDue now timer = true) {lambda : TimeoutLambda α}
    (hlambda : timer.callback = .timeout lambda) :
    ∃ s, fire (world.captures index) now timer.callback timer.id
        world.toManagerSet = some s ∧
      (world.putPass index
        ((world.loops index).settleAt now position timer) s).Tracked := by
  have hordered := htracked.kept.ordered index
  have hmem := List.mem_of_getElem? hposition
  have honce := htracked.kept.oneShot index timer hmem lambda hlambda
  have hretires := retires_settleAt now hordered hposition honce
  have hpending : world.Pending index timer.id
      (world.captures index timer.id)
      (makeKey lambda.handle lambda.type) :=
    ⟨timer, hmem, rfl, (isDue_iff.mp hdue).1, rfl, lambda, hlambda, rfl⟩
  have hrunning := (htracked.pending_iff _ _ _ _).mp hpending
  rcases hrunning with ⟨impl, hlive, hruns, horigin⟩
  have hlog := log_firedSet world
    (world.captures index timer.id).object now hruns horigin
  rw [hlambda, fire_eq hlive]
  refine ⟨_, rfl, htracked.kept.of_loop hretires.ordered
    (oneShot_settleAt now (htracked.kept.oneShot index) hordered hposition)
    (keyed_firedSet htracked.kept hlive), ?_, ?_, ?_, ?_, ?_, ?_⟩
  · intro index' id capture key
    rw [pending_fired hretires, running_firedSet hlive,
      htracked.pending_iff]
    refine and_congr_right fun hrunning' => not_congr ?_
    exact htracked.turn_iff hpending
      ((htracked.pending_iff _ _ _ _).mpr hrunning')
  · intro object key id start hrunning'
    exact htracked.unattached _ _ _ _ ((running_firedSet hlive).mp hrunning').1
  · intro object key id origin hrunning'
    exact htracked.below _ _ _ _ ((running_firedSet hlive).mp hrunning').1
  · intro object key id origin object' key' id' origin' hrunning₁ hrunning₂
    exact htracked.distinct _ _ _ _ _ _ _ _
      ((running_firedSet hlive).mp hrunning₁).1
      ((running_firedSet hlive).mp hrunning₂).1
  · intro ended cancelled hserved start hended
    have hsplit : .served ended cancelled ∈ _ :: world.log :=
      hlog ▸ hserved
    rw [List.mem_cons] at hsplit
    rcases hsplit with hfired | hold
    · cases hfired
    · rcases htracked.spent _ _ hold start hended with ⟨hlt, hover⟩
      exact ⟨hlt, fun _ _ _ _ hrunning' =>
        hover _ _ _ _ ((running_firedSet hlive).mp hrunning').1⟩
  · change Undisturbed (firedSet ..).log
    rw [hlog]
    refine htracked.undisturbed.fired ?_ _
    intro ended cancelled hserved hended
    exact (htracked.spent _ _ hserved _ hended).2 _ _ _ _
      ⟨impl, hlive, hruns, horigin⟩ rfl

theorem withstands_tracked (index : ℕ) (now : ℤ) :
    Withstands (Tracked (α := α)) index now where
  record := fun world event htracked =>
    htracked.of_loop ((htracked.kept.ordered index).record event)
      (htracked.kept.oneShot index) (fun _ _ _ => Iff.rfl)
  fire := by
    intro world position timer htracked hposition hdue
    have hordered := htracked.kept.ordered index
    cases hcallback : timer.callback with
    | timeout lambda =>
        rw [← hcallback]
        exact htracked.fired hposition hdue hcallback
    | other =>
        refine ⟨world.toManagerSet, rfl, htracked.of_loop
          (Ordered.settleAt hordered now position hposition)
          (oneShot_settleAt now (htracked.kept.oneShot index) hordered
            hposition)
          fun _ _ _ => ?_⟩
        exact pendingIn_settleAt_other hordered hposition hcallback
  remove := fun world htracked =>
    htracked.of_loop (htracked.kept.ordered index).removeCancelled
      (oneShot_removeCancelled (htracked.kept.oneShot index))
      (fun _ _ _ => pendingIn_removeCancelled)

end

end ManagerWorld

end VynxHttp
