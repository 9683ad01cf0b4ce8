import VynxHttp.TimerHistory

/-!
# Callbacks which schedule timers

A timer which a callback schedules is appended to the vector over which the
pass goes.  As long as there is room for it nothing moves, and the pass settles
the due timers and leaves the new ones for later; the first timer for which
there is no room leaves the pass with a reference to nothing.
-/

namespace VynxHttp

namespace TimerEvent

def firing : TimerEvent → Option (ℕ × ℤ)
  | fired id now => some (id, now)
  | _ => none

/-- The callbacks of a log, latest first. -/
def firings (log : List TimerEvent) : List (ℕ × ℤ) :=
  log.filterMap firing

end TimerEvent

namespace LoopTimers

open TimerEvent

variable {α σ : Type*} {loop : LoopTimers α}

/-- The entries for a list of requests, from an identifier on. -/
def number (first : ℕ) : List (TimerRequest α) → List (TimerEntry α)
  | [] => []
  | request :: requests =>
      request.entry first :: number (first + 1) requests

theorem number_append (first : ℕ) (xs ys : List (TimerRequest α)) :
    number first (xs ++ ys) =
      number first xs ++ number (first + xs.length) ys := by
  induction xs generalizing first with
  | nil => rfl
  | cons x xs ih =>
      have hlength : first + (x :: xs).length = first + 1 + xs.length := by
        rw [List.length_cons]
        omega
      rw [List.cons_append, number, ih, hlength]
      rfl

theorem of_mem_number {first : ℕ} {requests : List (TimerRequest α)}
    {timer : TimerEntry α} (hmem : timer ∈ number first requests) :
    first ≤ timer.id ∧ timer.cancelled = false := by
  induction requests generalizing first with
  | nil => simp [number] at hmem
  | cons request requests ih =>
      rw [number, List.mem_cons] at hmem
      rcases hmem with rfl | hlater
      · exact ⟨le_rfl, rfl⟩
      · obtain ⟨hle, hactive⟩ := ih hlater
        exact ⟨by omega, hactive⟩

/-! ## Lists of requests -/

def schedules (requests : List (TimerRequest α)) : List (TimerOp α) :=
  requests.map .schedule

theorem applyAll_schedules_cons (request : TimerRequest α)
    (requests : List (TimerRequest α)) :
    loop.applyAll (schedules (request :: requests)) =
      (loop.addTimer request).1.applyAll (schedules requests) := rfl

theorem elems_schedules (requests : List (TimerRequest α)) :
    (loop.applyAll (schedules requests)).timers.elems =
      loop.timers.elems ++ number loop.nextTimerId requests := by
  induction requests generalizing loop with
  | nil => simp [schedules, applyAll, number]
  | cons request requests ih =>
      rw [applyAll_schedules_cons, ih, elems_addTimer, List.append_assoc]
      rfl

theorem next_schedules (requests : List (TimerRequest α)) :
    (loop.applyAll (schedules requests)).nextTimerId =
      loop.nextTimerId + requests.length := by
  induction requests generalizing loop with
  | nil => rfl
  | cons request requests ih =>
      rw [applyAll_schedules_cons, ih, List.length_cons]
      simp only [addTimer]
      omega

theorem firings_schedules (requests : List (TimerRequest α)) :
    firings (loop.applyAll (schedules requests)).log =
      firings loop.log := by
  induction requests generalizing loop with
  | nil => rfl
  | cons request requests ih =>
      rw [applyAll_schedules_cons, ih, log_addTimer]
      rfl

theorem storage_le_schedules (loop : LoopTimers α)
    (requests : List (TimerRequest α)) :
    loop.timers.storage ≤
      (loop.applyAll (schedules requests)).timers.storage := by
  induction requests generalizing loop with
  | nil => exact le_rfl
  | cons request requests ih =>
      have hfirst := loop.timers.storage_le_pushBack
        (request.entry loop.nextTimerId)
      exact le_trans hfirst (ih (loop.addTimer request).1)

/-- The storage stays in place exactly when there is room for everything. -/
theorem storage_schedules_iff (requests : List (TimerRequest α)) :
    (loop.applyAll (schedules requests)).timers.storage =
        loop.timers.storage ↔
      requests.length ≤ loop.timers.spare := by
  induction requests generalizing loop with
  | nil => exact iff_of_true rfl (Nat.zero_le _)
  | cons request requests ih =>
      have hfirst := loop.timers.storage_pushBack_eq_iff
        (request.entry loop.nextTimerId)
      have hgrows := loop.timers.storage_le_pushBack
        (request.entry loop.nextTimerId)
      have hlater := storage_le_schedules (loop.addTimer request).1 requests
      have hloop : (loop.addTimer request).1.timers =
          loop.timers.pushBack (request.entry loop.nextTimerId) := rfl
      rw [applyAll_schedules_cons, List.length_cons]
      rw [hloop] at hlater
      by_cases hroom : 0 < loop.timers.spare
      · have hspare := loop.timers.spare_pushBack hroom
          (request.entry loop.nextTimerId)
        rw [← hfirst.mpr hroom, ← hloop, ih, hloop, hspare]
        omega
      · have hmoved := mt hfirst.mp hroom
        refine iff_of_false ?_ (by omega)
        omega

theorem spare_schedules {requests : List (TimerRequest α)}
    (hroom : requests.length ≤ loop.timers.spare) :
    (loop.applyAll (schedules requests)).timers.spare =
      loop.timers.spare - requests.length := by
  induction requests generalizing loop with
  | nil => rfl
  | cons request requests ih =>
      rw [List.length_cons] at hroom
      have hspare := loop.timers.spare_pushBack (by omega)
        (request.entry loop.nextTimerId)
      have hloop : (loop.addTimer request).1.timers =
          loop.timers.pushBack (request.entry loop.nextTimerId) := rfl
      rw [applyAll_schedules_cons, List.length_cons, ih, hloop, hspare]
      · omega
      · rw [hloop, hspare]
        omega

/-! ## Turns -/

/-- Callbacks which schedule timers and do something to the rest of the
world. -/
def requesting (requests : ℕ → List (TimerRequest α))
    (effect : α → ℕ → σ → σ) (callback : α) (id : ℕ)
    (s : LoopTimers α × σ) : LoopTimers α × σ :=
  (s.1.applyAll (schedules (requests id)), effect callback id s.2)

def settled (now : ℤ) (timer : TimerEntry α) : TimerEntry α :=
  if isDue now timer then settle now timer else timer

@[simp] theorem settled_id (now : ℤ) (timer : TimerEntry α) :
    (settled now timer).id = timer.id := by
  unfold settled
  split
  next => exact settle_id now timer
  next => rfl

/-- What the callbacks of the due timers of a list ask for. -/
def requested (requests : ℕ → List (TimerRequest α)) (now : ℤ)
    (timers : List (TimerEntry α)) : List (TimerRequest α) :=
  (timers.filter (isDue now)).flatMap fun timer => requests timer.id

/-- The callbacks of the due timers of a list, latest first. -/
def dueFirings (now : ℤ) (timers : List (TimerEntry α)) : List (ℕ × ℤ) :=
  ((timers.filter (isDue now)).map fun timer => (timer.id, now)).reverse

def effects (effect : α → ℕ → σ → σ) (now : ℤ)
    (timers : List (TimerEntry α)) (world : σ) : σ :=
  (timers.filter (isDue now)).foldl
    (fun world timer => effect timer.callback timer.id world) world

variable {requests : ℕ → List (TimerRequest α)} {effect : α → ℕ → σ → σ}
  {now : ℤ}

/-- What holds before the turn of the first timer of `rest`, in a pass which
starts from `base`. -/
structure Growing (requests : ℕ → List (TimerRequest α))
    (effect : α → ℕ → σ → σ) (now : ℤ) (base : LoopTimers α × σ)
    (done rest : List (TimerEntry α)) (s : LoopTimers α × σ) : Prop where
  split : base.1.timers.elems = done ++ rest
  ordered : s.1.Ordered
  elems : s.1.timers.elems = done.map (settled now) ++ (rest ++
    number base.1.nextTimerId (requested requests now done))
  next : s.1.nextTimerId =
    base.1.nextTimerId + (requested requests now done).length
  storage : s.1.timers.storage = base.1.timers.storage
  room : (requested requests now done).length ≤ base.1.timers.spare
  spare : s.1.timers.spare =
    base.1.timers.spare - (requested requests now done).length
  fires : firings s.1.log = dueFirings now done ++ firings base.1.log
  world : s.2 = effects effect now done base.2

theorem Growing.start (hordered : loop.Ordered) (world : σ) :
    Growing requests effect now (loop, world) [] loop.timers.elems
      (loop.record (.pass now), world) := by
  refine ⟨rfl, hordered.record _, ?_, rfl, rfl, Nat.zero_le _, rfl, rfl, rfl⟩
  simp [record, requested, number]

variable {base s : LoopTimers α × σ} {done rest : List (TimerEntry α)}
  {timer : TimerEntry α}

theorem Growing.at_index
    (hgrowing : Growing requests effect now base done (timer :: rest) s) :
    s.1.timers.elems[done.length]? = some timer := by
  rw [hgrowing.elems, List.getElem?_append_right (by simp)]
  simp

theorem Growing.idle
    (hgrowing : Growing requests effect now base done (timer :: rest) s)
    (hidle : isDue now timer = false) :
    Growing requests effect now base (done ++ [timer]) rest s := by
  have hsettled : settled now timer = timer := by
    simp [settled, hidle]
  have hrequested : requested requests now (done ++ [timer]) =
      requested requests now done := by
    simp [requested, List.filter_append, hidle]
  have hfirings : dueFirings now (done ++ [timer]) =
      dueFirings now done := by
    simp [dueFirings, List.filter_append, hidle]
  have heffects : effects effect now (done ++ [timer]) base.2 =
      effects effect now done base.2 := by
    simp [effects, List.filter_append, hidle]
  refine ⟨?_, hgrowing.ordered, ?_, ?_, hgrowing.storage, ?_, ?_, ?_, ?_⟩
  · rw [hgrowing.split]
    simp
  · rw [hgrowing.elems, hrequested]
    simp [hsettled]
  · rw [hgrowing.next, hrequested]
  · rw [hrequested]
    exact hgrowing.room
  · rw [hgrowing.spare, hrequested]
  · rw [hgrowing.fires, hfirings]
  · rw [hgrowing.world, heffects]

theorem modify_middle {γ : Type*} (f : γ → γ) (xs : List γ) (x : γ)
    (ys : List γ) :
    (xs ++ x :: ys).modify xs.length f = xs ++ f x :: ys := by
  induction xs with
  | nil => rfl
  | cons y xs ih => simp [ih]

/-- What the callback of the first timer of `rest` leaves behind. -/
def calledBack (requests : ℕ → List (TimerRequest α)) (now : ℤ)
    (loop : LoopTimers α) (timer : TimerEntry α) : LoopTimers α :=
  (loop.record (.fired timer.id now)).applyAll
    (schedules (requests timer.id))

theorem Growing.elems_calledBack
    (hgrowing : Growing requests effect now base done (timer :: rest) s)
    (hdue : isDue now timer = true) :
    (calledBack requests now s.1 timer).timers.elems =
      done.map (settled now) ++ timer :: (rest ++
        number base.1.nextTimerId
          (requested requests now (done ++ [timer]))) := by
  have hrequested : requested requests now (done ++ [timer]) =
      requested requests now done ++ requests timer.id := by
    simp [requested, List.filter_append, hdue]
  rw [calledBack, elems_schedules, hrequested, number_append]
  simp only [record, hgrowing.elems, hgrowing.next, List.append_assoc,
    List.cons_append]

theorem Growing.due
    (hgrowing : Growing requests effect now base done (timer :: rest) s)
    (hdue : isDue now timer = true)
    (hroom : (requests timer.id).length ≤ s.1.timers.spare) :
    ∃ s', timerTurn (requesting requests effect) now s
        ⟨base.1.timers.storage, done.length⟩ = some s' ∧
      Growing requests effect now base (done ++ [timer]) rest s' := by
  have hrequested : requested requests now (done ++ [timer]) =
      requested requests now done ++ requests timer.id := by
    simp [requested, List.filter_append, hdue]
  have hroom' : (requests timer.id).length ≤
      (s.1.record (.fired timer.id now)).timers.spare := hroom
  have hstorage : (calledBack requests now s.1 timer).timers.storage =
      s.1.timers.storage := (storage_schedules_iff _).mpr hroom'
  have helems := hgrowing.elems_calledBack hdue
  have hat : (calledBack requests now s.1 timer).timers.elems[done.length]? =
      some timer := by
    rw [helems, List.getElem?_append_right (by simp)]
    simp
  have hturn : timerTurn (requesting requests effect) now s
      ⟨base.1.timers.storage, done.length⟩ =
      some ((calledBack requests now s.1 timer).settleAt now done.length
        timer, effect timer.callback timer.id s.2) := by
    rw [← hgrowing.storage]
    exact timerTurn_of_due hgrowing.at_index hdue rfl hstorage hat
  have hordered : (calledBack requests now s.1 timer).Ordered :=
    (hgrowing.ordered.record _).applyAll _
  have hspare : (calledBack requests now s.1 timer).timers.spare =
      s.1.timers.spare - (requests timer.id).length :=
    spare_schedules hroom'
  have hfits := hgrowing.room
  have hleft := hgrowing.spare
  refine ⟨_, hturn, ?_, hordered.settleAt now _ hat, ?_, ?_,
    hstorage.trans hgrowing.storage, ?_, ?_, ?_, ?_⟩
  · rw [hgrowing.split]
    simp
  · have hsettled : settled now timer = settle now timer := by
      simp [settled, hdue]
    have hlength : done.length = (done.map (settled now)).length := by simp
    simp only [settleAt, StdVector.elems_modify, helems]
    rw [hlength, modify_middle]
    simp [hsettled]
  · have hnext : (calledBack requests now s.1 timer).nextTimerId =
        s.1.nextTimerId + (requests timer.id).length := next_schedules _
    rw [hrequested, List.length_append, ← Nat.add_assoc, ← hgrowing.next]
    exact hnext
  · rw [hrequested, List.length_append]
    omega
  · rw [hrequested, List.length_append]
    simp only [settleAt, StdVector.spare_modify, hspare]
    omega
  · have hfirings : firings (calledBack requests now s.1 timer).log =
        (timer.id, now) :: firings s.1.log := firings_schedules _
    have hsettle : firings ((calledBack requests now s.1 timer).settleAt
        now done.length timer).log =
        firings (calledBack requests now s.1 timer).log := by
      simp only [settleAt]
      split <;> rfl
    rw [hsettle, hfirings, hgrowing.fires]
    simp [dueFirings, List.filter_append, hdue]
  · rw [hgrowing.world]
    simp [effects, List.filter_append, hdue]

/-- A due turn which is defined had room for what its callback asked for. -/
theorem Growing.room_of_turn
    (hgrowing : Growing requests effect now base done (timer :: rest) s)
    (hdue : isDue now timer = true) {s' : LoopTimers α × σ}
    (hturn : timerTurn (requesting requests effect) now s
      ⟨base.1.timers.storage, done.length⟩ = some s') :
    (requests timer.id).length ≤ s.1.timers.spare := by
  obtain ⟨hbase, other, hindex, hcases⟩ := timerTurn_cases hturn
  have hother : other = timer := by
    rw [hgrowing.at_index, Option.some.injEq] at hindex
    exact hindex.symm
  subst hother
  rcases hcases with ⟨hidle, _⟩ | ⟨_, called, _, hcall, hstorage, _⟩
  · rw [hdue] at hidle
    simp at hidle
  · have hsame : (calledBack requests now s.1 other).timers.storage =
        s.1.timers.storage := by
      rw [← hbase, ← hstorage, ← hcall]
      rfl
    have hroom : (requests other.id).length ≤
        (s.1.record (.fired other.id now)).timers.spare :=
      (storage_schedules_iff _).mp hsame
    exact hroom

/-! ## Passes -/

/-- What a pass makes of the timers which it finds. -/
def survivors (now : ℤ) (timers : List (TimerEntry α)) :
    List (TimerEntry α) :=
  (timers.map (settled now)).filter fun timer => !timer.cancelled

/-- What a pass comes to which has room for everything. -/
structure Grown (requests : ℕ → List (TimerRequest α))
    (effect : α → ℕ → σ → σ) (now : ℤ) (base s : LoopTimers α × σ) :
    Prop where
  ordered : s.1.Ordered
  elems : s.1.timers.elems = survivors now base.1.timers.elems ++
    number base.1.nextTimerId (requested requests now base.1.timers.elems)
  next : base.1.nextTimerId ≤ s.1.nextTimerId
  fires : firings s.1.log =
    dueFirings now base.1.timers.elems ++ firings base.1.log
  world : s.2 = effects effect now base.1.timers.elems base.2

theorem Growing.finish
    (hgrowing : Growing requests effect now base done [] s) :
    Grown requests effect now base (s.1.removeCancelled, s.2) := by
  have hdone : base.1.timers.elems = done := by
    rw [hgrowing.split, List.append_nil]
  refine ⟨hgrowing.ordered.removeCancelled, ?_, ?_, ?_, ?_⟩
  · have hnew : (number base.1.nextTimerId
        (requested requests now done)).filter (fun timer =>
          !timer.cancelled) =
        number base.1.nextTimerId (requested requests now done) := by
      rw [List.filter_eq_self]
      intro timer htimer
      simp [(of_mem_number htimer).2]
    calc s.1.timers.elems.filter (fun timer => !timer.cancelled)
        = survivors now done ++ (number base.1.nextTimerId
            (requested requests now done)).filter (fun timer =>
              !timer.cancelled) := by
          rw [hgrowing.elems, List.nil_append, List.filter_append]
          rfl
      _ = _ := by rw [hnew, hdone]
  · have hnext : s.1.removeCancelled.nextTimerId = s.1.nextTimerId := rfl
    rw [hnext, hgrowing.next]
    exact Nat.le_add_right _ _
  · rw [hdone]
    exact hgrowing.fires
  · rw [hdone]
    exact hgrowing.world

theorem requested_prefix (requests : ℕ → List (TimerRequest α)) (now : ℤ)
    (done rest : List (TimerEntry α)) :
    (requested requests now done).length ≤
      (requested requests now (done ++ rest)).length := by
  simp [requested, List.filter_append]

theorem Growing.turn
    (hgrowing : Growing requests effect now base done (timer :: rest) s)
    (hroom : (requested requests now base.1.timers.elems).length ≤
      base.1.timers.spare) :
    ∃ s', timerTurn (requesting requests effect) now s
        ⟨base.1.timers.storage, done.length⟩ = some s' ∧
      Growing requests effect now base (done ++ [timer]) rest s' := by
  cases hdue : isDue now timer with
  | false =>
      refine ⟨s, ?_, hgrowing.idle hdue⟩
      rw [← hgrowing.storage]
      exact timerTurn_of_idle hgrowing.at_index hdue
  | true =>
      apply hgrowing.due hdue
      have hmore := requested_prefix requests now (done ++ [timer]) rest
      have hall : base.1.timers.elems = done ++ [timer] ++ rest := by
        rw [hgrowing.split]
        simp
      have hrequested : (requested requests now (done ++ [timer])).length =
          (requested requests now done).length +
            (requests timer.id).length := by
        simp [requested, List.filter_append, hdue]
      rw [← hall] at hmore
      rw [hgrowing.spare]
      omega

/-- The turn at an index finds the list in two parts. -/
def GrowingAt (requests : ℕ → List (TimerRequest α))
    (effect : α → ℕ → σ → σ) (now : ℤ) (base : LoopTimers α × σ)
    (index : ℕ) (s : LoopTimers α × σ) : Prop :=
  ∃ done rest, done.length = index ∧
    Growing requests effect now base done rest s

theorem GrowingAt.next_timer {index : ℕ}
    (hgrowing : GrowingAt requests effect now base index s)
    (hindex : index < base.1.timers.size) :
    ∃ done timer rest, done.length = index ∧
      Growing requests effect now base done (timer :: rest) s := by
  obtain ⟨done, rest, hlength, hgrowing⟩ := hgrowing
  cases rest with
  | nil =>
      have hsize : base.1.timers.elems.length = done.length := by
        rw [hgrowing.split, List.append_nil]
      simp only [StdVector.size] at hindex
      omega
  | cons timer rest => exact ⟨done, timer, rest, hlength, hgrowing⟩

theorem GrowingAt.finish
    (hgrowing : GrowingAt requests effect now base base.1.timers.size s) :
    Grown requests effect now base (s.1.removeCancelled, s.2) := by
  obtain ⟨done, rest, hlength, hgrowing⟩ := hgrowing
  have hsize : base.1.timers.elems.length = done.length + rest.length := by
    rw [hgrowing.split, List.length_append]
  have hrest : rest = [] := by
    apply List.eq_nil_of_length_eq_zero
    simp only [StdVector.size] at hlength
    omega
  subst hrest
  exact hgrowing.finish

/-- A pass is defined when there is room for all timers which its callbacks
schedule. -/
theorem processTimers_of_room (hordered : loop.Ordered) (world : σ)
    (hroom : (requested requests now loop.timers.elems).length ≤
      loop.timers.spare) :
    ∃ s, processTimers (requesting requests effect) now (loop, world) =
        some s ∧
      Grown requests effect now (loop, world) s := by
  have hturns : ∀ index s, index < loop.timers.size →
      GrowingAt requests effect now (loop, world) index s →
      ∃ s', timerTurn (requesting requests effect) now s
          ⟨loop.timers.storage, index⟩ = some s' ∧
        GrowingAt requests effect now (loop, world) (index + 1) s' := by
    intro index s hindex hgrowing
    obtain ⟨done, timer, rest, hlength, hgrowing⟩ :=
      hgrowing.next_timer hindex
    obtain ⟨s', hturn, hnext⟩ := hgrowing.turn hroom
    rw [hlength] at hturn
    exact ⟨s', hturn, done ++ [timer], rest, by simp [hlength], hnext⟩
  obtain ⟨last, final, hpass, hlast⟩ := processTimers_meets
    (s := (loop, world)) (GrowingAt requests effect now (loop, world))
    ⟨[], loop.timers.elems, rfl, Growing.start hordered world⟩ hturns
  exact ⟨_, hpass, hlast.finish⟩

/-- A pass which is defined had room for all timers which its callbacks
scheduled. -/
theorem room_of_processTimers (hordered : loop.Ordered) {world : σ}
    (hpass : processTimers (requesting requests effect) now (loop, world) =
      some s) :
    (requested requests now loop.timers.elems).length ≤
      loop.timers.spare := by
  have hturns : ∀ index t t', index < loop.timers.size →
      GrowingAt requests effect now (loop, world) index t →
      timerTurn (requesting requests effect) now t
          ⟨loop.timers.storage, index⟩ = some t' →
      GrowingAt requests effect now (loop, world) (index + 1) t' := by
    intro index t t' hindex hgrowing hturn
    obtain ⟨done, timer, rest, hlength, hgrowing⟩ :=
      hgrowing.next_timer hindex
    rw [← hlength] at hturn
    refine ⟨done ++ [timer], rest, by simp [hlength], ?_⟩
    cases hdue : isDue now timer with
    | false =>
        have hidle : timerTurn (requesting requests effect) now t
            ⟨t.1.timers.storage, done.length⟩ = some t :=
          timerTurn_of_idle hgrowing.at_index hdue
        rw [hgrowing.storage, hturn, Option.some.injEq] at hidle
        exact hidle ▸ hgrowing.idle hdue
    | true =>
        obtain ⟨next, hnext, hafter⟩ :=
          hgrowing.due hdue (hgrowing.room_of_turn hdue hturn)
        rw [hturn, Option.some.injEq] at hnext
        exact hnext ▸ hafter
  obtain ⟨last, hlast, _⟩ := processTimers_invariant
    (GrowingAt requests effect now (loop, world))
    ⟨[], loop.timers.elems, rfl, Growing.start hordered world⟩ hturns hpass
  obtain ⟨done, rest, hlength, hgrowing⟩ := hlast
  have hmore := hgrowing.room
  have hall : loop.timers.elems = done ++ rest := hgrowing.split
  have hrest : rest = [] := by
    apply List.eq_nil_of_length_eq_zero
    simp only [StdVector.size, hall, List.length_append] at hlength
    omega
  rw [hrest, List.append_nil] at hall
  rw [hall]
  exact hmore

end LoopTimers

end VynxHttp
