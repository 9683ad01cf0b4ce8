import VynxHttp.BufferLoans
import VynxHttp.KeyedTable

/-!
# Guards of pooled buffers

A `buffer_guard` refers to a pool and holds a buffer, or none after the buffer
has been moved or taken out.  The acquisitions are numbered, and every number
is accounted for: some guard holds it, or it has been handed back, or it has
been taken out with `release`.
-/

namespace VynxHttp

/-- A buffer, with the number of its acquisition. -/
structure GuardedBuffer where
  acquisition : ℕ
  buffer : ByteBuffer

structure BufferGuard where
  pool : ℕ
  buffer : Option GuardedBuffer

/-- The guards which are alive, by their names, and the pools.  `origins` are
the pools of the acquisitions, `returned` tells which acquisition has been
handed to which pool. -/
structure BufferGuards where
  pools : ℕ → BufferPool
  guards : KeyedTable ℕ BufferGuard := .empty
  origins : List ℕ := []
  returned : List (ℕ × ℕ) := []
  taken : List ℕ := []

inductive GuardEvent where
  | construct (guard pool : ℕ)
  | moveConstruct (guard other : ℕ)
  | moveAssign (guard other : ℕ)
  | use (guard : ℕ) (op : BufferOp)
  | moveOut (guard : ℕ)
  | release (guard : ℕ)
  | destroy (guard : ℕ)

namespace BufferGuard

def holds (n : ℕ) (guard : BufferGuard) : Bool :=
  guard.buffer.any fun held => held.acquisition == n

/-- `std::move` of the buffer. -/
def emptied (guard : BufferGuard) : BufferGuard :=
  { guard with buffer := none }

/-- The acquisition which a guard holds, with the pool to which it refers. -/
def handBack (guard : BufferGuard) : List (ℕ × ℕ) :=
  guard.buffer.toList.map fun held => (held.acquisition, guard.pool)

end BufferGuard

namespace BufferGuards

/-- `if (buffer_) pool_.release(std::move(buffer_))`. -/
def giveBack (s : BufferGuards) (guard : BufferGuard) : BufferGuards :=
  { s with
    pools := Function.update s.pools guard.pool
      ((s.pools guard.pool).release (guard.buffer.map (·.buffer)))
    returned := s.returned ++ guard.handBack }

/-- What the owner of a guard makes of its buffer. -/
def change (s : BufferGuards) (guard : ℕ) (found : BufferGuard)
    (held : GuardedBuffer) (buffer : ByteBuffer) : BufferGuards :=
  { s with
    guards := s.guards.set guard
      { found with buffer := some { held with buffer } } }

/-- A guard which is constructed is not alive yet, and the others are. -/
def step (s : BufferGuards) : GuardEvent → Option BufferGuards
  | .construct guard pool =>
      match s.guards.find? guard with
      | some _ => none
      | none =>
          let acquired := (s.pools pool).acquire
          some { s with
            pools := Function.update s.pools pool acquired.1
            guards := s.guards.set guard
              ⟨pool, some ⟨s.origins.length, acquired.2⟩⟩
            origins := s.origins ++ [pool] }
  | .moveConstruct guard other =>
      match s.guards.find? guard, s.guards.find? other with
      | none, some source =>
          some { s with
            guards := (s.guards.set other source.emptied).set guard source }
      | _, _ => none
  | .moveAssign guard other =>
      match s.guards.find? guard, s.guards.find? other with
      | some target, some source =>
          if guard = other then some s
          else
            let s := s.giveBack target
            some { s with
              guards := (s.guards.set other source.emptied).set guard
                { target with buffer := source.buffer } }
      | _, _ => none
  | .use guard op =>
      (s.guards.find? guard).bind fun found =>
        found.buffer.bind fun held =>
          if held.buffer.Allowed op then
            (held.buffer.apply64 op).map fun applied =>
              s.change guard found held applied.1
          else none
  | .moveOut guard =>
      (s.guards.find? guard).bind fun found =>
        found.buffer.map fun held =>
          s.change guard found held held.buffer.moveConstruct.2
  | .release guard =>
      (s.guards.find? guard).map fun found =>
        { s with
          guards := s.guards.set guard found.emptied
          taken := s.taken ++ found.buffer.toList.map (·.acquisition) }
  | .destroy guard =>
      (s.guards.find? guard).map fun found =>
        { s.giveBack found with guards := s.guards.erase guard }

/-- How often an acquisition is there, in a guard, in a pool or outside. -/
def places (s : BufferGuards) (n : ℕ) : ℕ :=
  s.guards.count (BufferGuard.holds n) +
    s.returned.countP (fun back => back.1 == n) + s.taken.count n

/-- What has been acquired is in one place, and what has been handed back has
been handed to the pool from which it has been acquired. -/
structure HandsBack (s : BufferGuards) : Prop where
  places : ∀ n, n < s.origins.length → s.places n = 1
  origin : ∀ n pool, (n, pool) ∈ s.returned → s.origins[n]? = some pool

/-- An acquisition which is neither held nor taken out has been handed back
once. -/
theorem HandsBack.once {s : BufferGuards} (hback : s.HandsBack) {n : ℕ}
    (hacquired : n < s.origins.length)
    (hheld : s.guards.count (BufferGuard.holds n) = 0)
    (htaken : n ∉ s.taken) :
    s.returned.countP (fun back => back.1 == n) = 1 := by
  have hplaces := hback.places n hacquired
  have hcount : s.taken.count n = 0 := List.count_eq_zero.mpr htaken
  unfold BufferGuards.places at hplaces
  omega

/-- A buffer is moved between guards of the same pool only. -/
def SamePool (s : BufferGuards) (event : GuardEvent) : Prop :=
  ∀ guard other target source, event = .moveAssign guard other →
    s.guards.find? guard = some target →
    s.guards.find? other = some source → source.buffer ≠ none →
      source.pool = target.pool

/-! ## What a step can do -/

variable {s s' : BufferGuards} {guard other pool n : ℕ} {op : BufferOp}
  {found target source : BufferGuard} {event : GuardEvent}

theorem step_construct (hstep : s.step (.construct guard pool) = some s') :
    s.guards.find? guard = none ∧
      s' = { s with
        pools := Function.update s.pools pool (s.pools pool).acquire.1
        guards := s.guards.set guard
          ⟨pool, some ⟨s.origins.length, (s.pools pool).acquire.2⟩⟩
        origins := s.origins ++ [pool] } := by
  rw [step] at hstep
  split at hstep
  next => cases hstep
  next hnone =>
    rw [Option.some.injEq] at hstep
    exact ⟨hnone, hstep.symm⟩

theorem step_moveConstruct
    (hstep : s.step (.moveConstruct guard other) = some s') :
    ∃ source, s.guards.find? guard = none ∧
      s.guards.find? other = some source ∧ guard ≠ other ∧
      s' = { s with
        guards := (s.guards.set other source.emptied).set guard source } := by
  rw [step] at hstep
  split at hstep
  next source hnone hsource =>
    rw [Option.some.injEq] at hstep
    have hne : guard ≠ other := by
      rintro rfl
      rw [hnone] at hsource
      cases hsource
    exact ⟨source, hnone, hsource, hne, hstep.symm⟩
  next => cases hstep

theorem step_moveAssign
    (hstep : s.step (.moveAssign guard other) = some s') :
    ∃ target source, s.guards.find? guard = some target ∧
      s.guards.find? other = some source ∧
      (guard = other ∧ s' = s ∨ guard ≠ other ∧
        s' = { s.giveBack target with
          guards := (s.guards.set other source.emptied).set guard
            { target with buffer := source.buffer } }) := by
  rw [step] at hstep
  split at hstep
  next target source htarget hsource =>
    refine ⟨target, source, htarget, hsource, ?_⟩
    split at hstep
    next hsame =>
      rw [Option.some.injEq] at hstep
      exact .inl ⟨hsame, hstep.symm⟩
    next hne =>
      rw [Option.some.injEq] at hstep
      exact .inr ⟨hne, hstep.symm⟩
  next => cases hstep

theorem step_use (hstep : s.step (.use guard op) = some s') :
    ∃ found held applied, s.guards.find? guard = some found ∧
      found.buffer = some held ∧ held.buffer.Allowed op ∧
      held.buffer.apply64 op = some applied ∧
      s' = s.change guard found held applied.1 := by
  rw [step, Option.bind_eq_some_iff] at hstep
  rcases hstep with ⟨found, hfind, hstep⟩
  rw [Option.bind_eq_some_iff] at hstep
  rcases hstep with ⟨held, hheld, hstep⟩
  rw [Option.ite_none_right_eq_some, Option.map_eq_some_iff] at hstep
  rcases hstep.2 with ⟨applied, happly, hchange⟩
  exact ⟨found, held, applied, hfind, hheld, hstep.1, happly,
    hchange.symm⟩

theorem step_moveOut (hstep : s.step (.moveOut guard) = some s') :
    ∃ found held, s.guards.find? guard = some found ∧
      found.buffer = some held ∧
      s' = s.change guard found held held.buffer.moveConstruct.2 := by
  rw [step, Option.bind_eq_some_iff] at hstep
  rcases hstep with ⟨found, hfind, hstep⟩
  rw [Option.map_eq_some_iff] at hstep
  rcases hstep with ⟨held, hheld, hchange⟩
  exact ⟨found, held, hfind, hheld, hchange.symm⟩

theorem step_release (hstep : s.step (.release guard) = some s') :
    ∃ found, s.guards.find? guard = some found ∧
      s' = { s with
        guards := s.guards.set guard found.emptied
        taken := s.taken ++ found.buffer.toList.map (·.acquisition) } := by
  rw [step, Option.map_eq_some_iff] at hstep
  rcases hstep with ⟨found, hfind, hchange⟩
  exact ⟨found, hfind, hchange.symm⟩

theorem step_destroy (hstep : s.step (.destroy guard) = some s') :
    ∃ found, s.guards.find? guard = some found ∧
      s' = { s.giveBack found with guards := s.guards.erase guard } := by
  rw [step, Option.map_eq_some_iff] at hstep
  rcases hstep with ⟨found, hfind, hchange⟩
  exact ⟨found, hfind, hchange.symm⟩

/-! ## Where the acquisitions are -/

theorem holds_emptied (n : ℕ) (found : BufferGuard) :
    found.emptied.holds n = false := rfl

theorem countP_handBack (n : ℕ) (found : BufferGuard) :
    found.handBack.countP (fun back => back.1 == n) =
      (found.holds n).toNat := by
  unfold BufferGuard.handBack BufferGuard.holds
  cases found.buffer with
  | none => rfl
  | some held => cases hsame : held.acquisition == n <;> simp [hsame]

theorem count_acquisition (n : ℕ) (found : BufferGuard) :
    (found.buffer.toList.map (·.acquisition)).count n =
      (found.holds n).toNat := by
  unfold BufferGuard.holds
  cases found.buffer with
  | none => rfl
  | some held =>
      by_cases hsame : held.acquisition = n
      · simp [hsame]
      · simp [hsame, beq_false_of_ne hsame]

theorem count_set_found {guards : KeyedTable ℕ BufferGuard}
    (hfind : guards.find? guard = some found) (n : ℕ)
    (written : BufferGuard) :
    (guards.set guard written).count (BufferGuard.holds n) +
        (found.holds n).toNat =
      guards.count (BufferGuard.holds n) + (written.holds n).toNat := by
  have hcount :=
    KeyedTable.count_set (BufferGuard.holds n) guards guard written
  rw [hfind] at hcount
  exact hcount

theorem count_set_new {guards : KeyedTable ℕ BufferGuard}
    (hfind : guards.find? guard = none) (n : ℕ) (written : BufferGuard) :
    (guards.set guard written).count (BufferGuard.holds n) =
      guards.count (BufferGuard.holds n) + (written.holds n).toNat := by
  have hcount :=
    KeyedTable.count_set (BufferGuard.holds n) guards guard written
  rw [hfind] at hcount
  exact hcount

/-- A move leaves nothing behind, and the target gives up what it holds. -/
theorem count_moved {guards : KeyedTable ℕ BufferGuard}
    (htarget : guards.find? guard = some target)
    (hsource : guards.find? other = some source) (hne : guard ≠ other)
    (n : ℕ) :
    ((guards.set other source.emptied).set guard
          { target with buffer := source.buffer }).count
            (BufferGuard.holds n) + (target.holds n).toNat =
      guards.count (BufferGuard.holds n) := by
  have hfind : (guards.set other source.emptied).find? guard =
      some target := by
    rw [KeyedTable.find?_set_of_ne hne]
    exact htarget
  have hfirst := count_set_found hsource n source.emptied
  have hsecond := count_set_found hfind n
    { target with buffer := source.buffer }
  have hmoved : BufferGuard.holds n
      { target with buffer := source.buffer } = source.holds n := rfl
  rw [holds_emptied, Bool.toNat_false] at hfirst
  rw [hmoved] at hsecond
  omega

def Balanced (s : BufferGuards) : Prop :=
  ∀ n, s.places n = if n < s.origins.length then 1 else 0

theorem Balanced.construct (hbalanced : s.Balanced)
    (hnone : s.guards.find? guard = none) (buffer : ByteBuffer)
    (pools : ℕ → BufferPool) :
    Balanced { s with
      pools
      guards := s.guards.set guard ⟨pool, some ⟨s.origins.length, buffer⟩⟩
      origins := s.origins ++ [pool] } := by
  intro n
  have hbefore := hbalanced n
  have hcount := count_set_new hnone n
    ⟨pool, some ⟨s.origins.length, buffer⟩⟩
  unfold places at hbefore ⊢
  simp only [hcount, List.length_append, List.length_singleton]
  by_cases hnew : s.origins.length = n
  · have hholds : BufferGuard.holds n
        ⟨pool, some ⟨s.origins.length, buffer⟩⟩ = true := by
      simp [BufferGuard.holds, hnew]
    rw [if_neg (by omega)] at hbefore
    rw [hholds, Bool.toNat_true, if_pos (by omega)]
    omega
  · have hholds : BufferGuard.holds n
        ⟨pool, some ⟨s.origins.length, buffer⟩⟩ = false := by
      simp [BufferGuard.holds, hnew]
    have hlength : n < s.origins.length + 1 ↔ n < s.origins.length := by
      omega
    rw [hholds, Bool.toNat_false, Nat.add_zero, hbefore]
    simp only [hlength]

theorem Balanced.change (hbalanced : s.Balanced)
    (hfind : s.guards.find? guard = some found) {held : GuardedBuffer}
    (hheld : found.buffer = some held) (buffer : ByteBuffer) :
    (s.change guard found held buffer).Balanced := by
  intro n
  have hcount := count_set_found hfind n
    { found with buffer := some { held with buffer } }
  have hsame : BufferGuard.holds n
      { found with buffer := some { held with buffer } } =
        found.holds n := by
    simp [BufferGuard.holds, hheld]
  rw [hsame, Nat.add_right_cancel_iff] at hcount
  refine Eq.trans ?_ (hbalanced n)
  unfold places BufferGuards.change
  rw [hcount]

theorem Balanced.step (hbalanced : s.Balanced)
    (hstep : s.step event = some s') : s'.Balanced := by
  cases event with
  | construct guard pool =>
      rcases step_construct hstep with ⟨hnone, rfl⟩
      exact hbalanced.construct hnone _ _
  | moveConstruct guard other =>
      rcases step_moveConstruct hstep with
        ⟨source, hnone, hsource, hne, rfl⟩
      intro n
      have hfirst := count_set_found hsource n source.emptied
      have hnew : (s.guards.set other source.emptied).find? guard =
          none := by
        rw [KeyedTable.find?_set_of_ne hne]
        exact hnone
      have hsecond := count_set_new hnew n source
      rw [holds_emptied, Bool.toNat_false, Nat.add_zero] at hfirst
      refine Eq.trans ?_ (hbalanced n)
      unfold places
      dsimp only
      omega
  | moveAssign guard other =>
      rcases step_moveAssign hstep with
        ⟨target, source, htarget, hsource, ⟨_, rfl⟩ | ⟨hne, rfl⟩⟩
      · exact hbalanced
      · intro n
        have hcount := count_moved htarget hsource hne n
        have hback := countP_handBack n target
        refine Eq.trans ?_ (hbalanced n)
        unfold places
        simp only [giveBack, List.countP_append]
        omega
  | use guard op =>
      rcases step_use hstep with
        ⟨found, held, applied, hfind, hheld, _, _, rfl⟩
      exact hbalanced.change hfind hheld _
  | moveOut guard =>
      rcases step_moveOut hstep with ⟨found, held, hfind, hheld, rfl⟩
      exact hbalanced.change hfind hheld _
  | release guard =>
      rcases step_release hstep with ⟨found, hfind, rfl⟩
      intro n
      have hcount := count_set_found hfind n found.emptied
      have htaken := count_acquisition n found
      rw [holds_emptied, Bool.toNat_false] at hcount
      refine Eq.trans ?_ (hbalanced n)
      unfold places
      simp only [List.count_append]
      omega
  | destroy guard =>
      rcases step_destroy hstep with ⟨found, hfind, rfl⟩
      intro n
      have hcount :=
        KeyedTable.count_erase (BufferGuard.holds n) s.guards guard
      have hback := countP_handBack n found
      rw [hfind, Option.any_some] at hcount
      refine Eq.trans ?_ (hbalanced n)
      unfold places
      simp only [giveBack, List.countP_append]
      omega

/-! ## Where the acquisitions come from -/

/-- Every guard refers to the pool from which its buffer has been acquired. -/
structure Traced (s : BufferGuards) : Prop where
  returned : ∀ n pool, (n, pool) ∈ s.returned → s.origins[n]? = some pool
  held : ∀ guard found held, s.guards.find? guard = some found →
    found.buffer = some held →
      s.origins[held.acquisition]? = some found.pool

theorem mem_handBack :
    (n, pool) ∈ found.handBack ↔
      ∃ held, found.buffer = some held ∧ held.acquisition = n ∧
        found.pool = pool := by
  unfold BufferGuard.handBack
  cases found.buffer with
  | none => simp
  | some held => simp [eq_comm]

theorem Traced.returned_giveBack (htraced : s.Traced)
    (hfind : s.guards.find? guard = some found)
    (hmem : (n, pool) ∈ (s.giveBack found).returned) :
    s.origins[n]? = some pool := by
  rcases List.mem_append.mp hmem with hold | hnew
  · exact htraced.returned n pool hold
  · rcases mem_handBack.mp hnew with ⟨held, hheld, rfl, rfl⟩
    exact htraced.held guard found held hfind hheld

theorem Traced.construct (htraced : s.Traced)
    (buffer : ByteBuffer) (pools : ℕ → BufferPool) :
    Traced { s with
      pools
      guards := s.guards.set guard ⟨pool, some ⟨s.origins.length, buffer⟩⟩
      origins := s.origins ++ [pool] } where
  returned := fun n pool hmem =>
    getElem?_concat_eq_some.mpr (.inl (htraced.returned n pool hmem))
  held := by
    intro key found held hfind hheld
    rcases KeyedTable.find?_set_eq_some_iff.mp hfind with
      ⟨_, rfl⟩ | ⟨_, hold⟩
    · rw [Option.some.injEq] at hheld
      rw [← hheld]
      exact List.getElem?_concat_length
    · have hbefore := htraced.held key found held hold hheld
      exact getElem?_concat_eq_some.mpr (.inl hbefore)

/-- The guards are written from ones whose buffers come from their pool. -/
theorem traced_write {guards : KeyedTable ℕ BufferGuard}
    {written : BufferGuard} {returned : List (ℕ × ℕ)} {taken : List ℕ}
    {pools : ℕ → BufferPool}
    (hreturned : ∀ n pool, (n, pool) ∈ returned →
      s.origins[n]? = some pool)
    (hguards : ∀ key found held, guards.find? key = some found →
      found.buffer = some held →
        s.origins[held.acquisition]? = some found.pool)
    (hwritten : ∀ held, written.buffer = some held →
      s.origins[held.acquisition]? = some written.pool) :
    Traced { s with
      pools, guards := guards.set guard written, returned, taken } where
  returned := hreturned
  held := by
    intro key found held hfind hheld
    rcases KeyedTable.find?_set_eq_some_iff.mp hfind with
      ⟨_, rfl⟩ | ⟨_, hold⟩
    · exact hwritten held hheld
    · exact hguards key found held hold hheld

/-- A guard which holds a buffer has not been emptied. -/
theorem find_of_emptied {key : ℕ} {held : GuardedBuffer}
    (hfind : (s.guards.set other source.emptied).find? key = some found)
    (hheld : found.buffer = some held) : s.guards.find? key = some found := by
  rcases KeyedTable.find?_set_eq_some_iff.mp hfind with
    ⟨_, rfl⟩ | ⟨_, hold⟩
  · cases hheld
  · exact hold

theorem Traced.change (htraced : s.Traced)
    (hfind : s.guards.find? guard = some found) {held : GuardedBuffer}
    (hheld : found.buffer = some held) (buffer : ByteBuffer) :
    (s.change guard found held buffer).Traced := by
  refine traced_write htraced.returned htraced.held ?_
  intro other hother
  rw [Option.some.injEq] at hother
  rw [← hother]
  exact htraced.held guard found held hfind hheld

theorem Traced.step (htraced : s.Traced) (hsame : s.SamePool event)
    (hstep : s.step event = some s') : s'.Traced := by
  cases event with
  | construct guard pool =>
      rcases step_construct hstep with ⟨_, rfl⟩
      exact htraced.construct _ _
  | moveConstruct guard other =>
      rcases step_moveConstruct hstep with ⟨source, _, hsource, _, rfl⟩
      exact traced_write htraced.returned
        (fun key found held hfind hheld =>
          htraced.held key found held (find_of_emptied hfind hheld) hheld)
        (fun held hheld => htraced.held other source held hsource hheld)
  | moveAssign guard other =>
      rcases step_moveAssign hstep with
        ⟨target, source, htarget, hsource, ⟨_, rfl⟩ | ⟨_, rfl⟩⟩
      · exact htraced
      · refine traced_write
          (fun _ _ hmem => htraced.returned_giveBack htarget hmem)
          (fun key found held hfind hheld =>
            htraced.held key found held (find_of_emptied hfind hheld)
              hheld) ?_
        intro held hheld
        have hpool : source.pool = target.pool := by
          refine hsame guard other target source rfl htarget hsource ?_
          intro hnone
          rw [show source.buffer = some held from hheld] at hnone
          cases hnone
        rw [← hpool]
        exact htraced.held other source held hsource hheld
  | use guard op =>
      rcases step_use hstep with
        ⟨found, held, applied, hfind, hheld, _, _, rfl⟩
      exact htraced.change hfind hheld _
  | moveOut guard =>
      rcases step_moveOut hstep with ⟨found, held, hfind, hheld, rfl⟩
      exact htraced.change hfind hheld _
  | release guard =>
      rcases step_release hstep with ⟨found, hfind, rfl⟩
      refine traced_write htraced.returned htraced.held ?_
      intro held hheld
      cases hheld
  | destroy guard =>
      rcases step_destroy hstep with ⟨found, hfind, rfl⟩
      constructor
      · exact fun n pool hmem => htraced.returned_giveBack hfind hmem
      · intro key other held hother hheld
        exact htraced.held key other held
          (KeyedTable.find?_of_find?_erase hother) hheld

/-! ## Runs -/

def starting (pools : ℕ → BufferPool) : BufferGuards where
  pools := pools

theorem balanced_starting (pools : ℕ → BufferPool) :
    (starting pools).Balanced := fun _ => rfl

theorem traced_starting (pools : ℕ → BufferPool) :
    (starting pools).Traced where
  returned := fun _ _ hmem => nomatch hmem
  held := fun _ _ _ hfind => nomatch hfind

theorem handsBack_of (hbalanced : s.Balanced) (htraced : s.Traced) :
    s.HandsBack where
  places := fun n hlt => (hbalanced n).trans (if_pos hlt)
  origin := htraced.returned

theorem origin_of_destroy {held : GuardedBuffer}
    (hback : ∀ guard s', s.step (.destroy guard) = some s' → s'.HandsBack)
    (hfind : s.guards.find? guard = some found)
    (hheld : found.buffer = some held) :
    s.origins[held.acquisition]? = some found.pool := by
  have hstep : s.step (.destroy guard) = some
      { s.giveBack found with guards := s.guards.erase guard } := by
    rw [step, hfind, Option.map_some]
  refine (hback guard _ hstep).origin held.acquisition found.pool ?_
  exact List.mem_append_right _ (mem_handBack.mpr ⟨held, hheld, rfl, rfl⟩)

/-- Buffers are handed back once and to their own pool, and so are those of the
guards which are destroyed next, exactly when buffers are moved between guards
of the same pool only. -/
theorem handsBack_iff (pools : ℕ → BufferPool) (events : List GuardEvent) :
    (∀ before s, before <+: events →
        StepRun.run step (starting pools) before = some s →
        s.HandsBack ∧
          ∀ guard s', s.step (.destroy guard) = some s' → s'.HandsBack) ↔
      StepRun.Along step SamePool (starting pools) events := by
  constructor
  · intro hback
    rw [StepRun.along_iff_prefix]
    rintro before event s hprefix hrun guard other target source rfl
      htarget hsource hbuffer
    rcases Option.ne_none_iff_exists'.mp hbuffer with ⟨held, hheld⟩
    by_cases hne : guard = other
    · rw [hne, hsource, Option.some.injEq] at htarget
      rw [htarget]
    · have hstep : s.step (.moveAssign guard other) =
          some { s.giveBack target with
            guards := (s.guards.set other source.emptied).set guard
              { target with buffer := source.buffer } } := by
        simp only [step, htarget, hsource, if_neg hne]
        rfl
      have hone : StepRun.run step s [.moveAssign guard other] =
          s.step (.moveAssign guard other) := StepRun.run_singleton s _
      have hafter := StepRun.run_append_eq_some.mpr
        ⟨s, hrun, hone.trans hstep⟩
      have hbefore : before <+: events :=
        (List.prefix_append before _).trans hprefix
      -- Destroyed before the move, the source tells where the buffer comes
      -- from; destroyed after it, the target has to agree.
      have hfrom := origin_of_destroy (hback before s hbefore hrun).2
        hsource hheld
      have hto := origin_of_destroy (hback _ _ hprefix hafter).2
        (KeyedTable.find?_set _ _ _) hheld
      exact Option.some.inj (hfrom.symm.trans hto)
  · rintro halong before s ⟨after, rfl⟩ hrun
    have hinv : s.Balanced ∧ s.Traced :=
      StepRun.run_invariant_along (fun s => s.Balanced ∧ s.Traced) SamePool
        (fun _ _ _ hinv hsame hstep =>
          ⟨hinv.1.step hstep, hinv.2.step hsame hstep⟩)
        ⟨balanced_starting pools, traced_starting pools⟩
        halong.append.1 hrun
    refine ⟨handsBack_of hinv.1 hinv.2, fun guard s' hstep => ?_⟩
    have hsame : s.SamePool (.destroy guard) := by
      intro _ _ _ _ hevent
      cases hevent
    exact handsBack_of (hinv.1.step hstep) (hinv.2.step hsame hstep)

/-- A buffer of the second pool is assigned to a guard of the first. -/
theorem not_handsBack_assigned :
    ¬∀ before s,
      before <+: [.construct 0 0, .construct 1 1, .moveAssign 0 1] →
      StepRun.run step (starting fun _ => .create {}) before = some s →
        s.HandsBack ∧
          ∀ guard s', s.step (.destroy guard) = some s' → s'.HandsBack := by
  intro hback
  have hsome : (StepRun.run step (starting fun _ => .create {})
      [.construct 0 0, .construct 1 1, .moveAssign 0 1]).isSome = true := rfl
  have hguard : (StepRun.run step (starting fun _ => .create {})
      [.construct 0 0, .construct 1 1, .moveAssign 0 1]).map (fun s =>
        (s.guards.find? 0).map fun found =>
          (found.pool, found.buffer.map (·.acquisition))) =
      some (some (0, some 1)) := rfl
  have horigins : (StepRun.run step (starting fun _ => .create {})
      [.construct 0 0, .construct 1 1, .moveAssign 0 1]).map (·.origins) =
      some [0, 1] := rfl
  rcases Option.isSome_iff_exists.mp hsome with ⟨s, hrun⟩
  rw [hrun, Option.map_some, Option.some.injEq] at hguard horigins
  rcases Option.map_eq_some_iff.mp hguard with ⟨found, hfind, hfound⟩
  rw [Prod.mk.injEq] at hfound
  rcases Option.map_eq_some_iff.mp hfound.2 with ⟨held, hheld, hacquired⟩
  have horigin := origin_of_destroy
    (hback _ s (List.prefix_refl _) hrun).2 hfind hheld
  rw [horigins, hacquired, hfound.1] at horigin
  cases horigin

end BufferGuards

end VynxHttp
