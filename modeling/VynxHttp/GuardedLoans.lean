import VynxHttp.BufferGuards

/-!
# Guards as borrowers

Whatever guards do, their pools see loans only: a guard which is constructed
acquires a buffer, and one which gives its buffer up releases it to the pool to
which it refers.  A run of guards is a run of loans from the same pools.
-/

namespace VynxHttp

namespace BufferGuards

variable {s s' : BufferGuards} {loans : BufferLoans} {guard other n : ℕ}
  {found : BufferGuard} {held : GuardedBuffer} {event : GuardEvent}

/-- The guards hold the buffers of the loans with their numbers. -/
structure Lends (s : BufferGuards) (loans : BufferLoans) : Prop where
  pools : loans.pools = s.pools
  origins : loans.origins = s.origins
  length : loans.lent.length = s.origins.length
  held : ∀ guard found held, s.guards.find? guard = some found →
    found.buffer = some held →
      loans.lent[held.acquisition]? = some (some held.buffer)

/-- A buffer is held by one guard. -/
theorem Balanced.acquisition_ne (hbalanced : s.Balanced)
    (hfind : s.guards.find? guard = some found)
    (hheld : found.buffer = some held) (hne : other ≠ guard)
    {found' : BufferGuard} {held' : GuardedBuffer}
    (hfind' : s.guards.find? other = some found')
    (hheld' : found'.buffer = some held') :
    held'.acquisition ≠ held.acquisition := by
  intro hsame
  have hholds : found.holds held.acquisition = true := by
    simp [BufferGuard.holds, hheld]
  have hholds' : found'.holds held.acquisition = true := by
    simp [BufferGuard.holds, hheld', hsame]
  -- Both guards are emptied, one after the other.
  have hfirst := count_set_found hfind held.acquisition found.emptied
  have hleft : (s.guards.set guard found.emptied).find? other =
      some found' := by
    rw [KeyedTable.find?_set_of_ne hne]
    exact hfind'
  have hsecond := count_set_found hleft held.acquisition found'.emptied
  have hplaces := hbalanced held.acquisition
  rw [hholds, holds_emptied, Bool.toNat_true, Bool.toNat_false] at hfirst
  rw [hholds', holds_emptied, Bool.toNat_true, Bool.toNat_false] at hsecond
  unfold places at hplaces
  split at hplaces <;> omega

theorem lent_set_of_ne {buffer : Option ByteBuffer} {changed : ByteBuffer}
    (hlent : loans.lent[other]? = some (some changed)) (hne : other ≠ n) :
    (loans.lent.set n buffer)[other]? = some (some changed) := by
  rw [List.getElem?_set_ne (Ne.symm hne)]
  exact hlent

theorem release_none (pools : ℕ → BufferPool) (pool : ℕ) :
    Function.update pools pool ((pools pool).release none) = pools :=
  Function.update_eq_self _ _

/-- A guard which gives its buffer up releases a loan, if it has one. -/
theorem Lends.giveBack (hlends : s.Lends loans) (hbalanced : s.Balanced)
    (hfind : s.guards.find? guard = some found) :
    ∃ events loans', StepRun.run BufferLoans.step loans events = some loans' ∧
      loans'.pools = (s.giveBack found).pools ∧
      loans'.origins = s.origins ∧
      loans'.lent.length = s.origins.length ∧
      ∀ other found' held', other ≠ guard →
        s.guards.find? other = some found' → found'.buffer = some held' →
          loans'.lent[held'.acquisition]? = some (some held'.buffer) := by
  cases hbuffer : found.buffer with
  | none =>
      refine ⟨[], loans, rfl, ?_, hlends.origins, hlends.length,
        fun other found' held' _ => hlends.held other found' held'⟩
      unfold BufferGuards.giveBack
      rw [hbuffer, hlends.pools]
      exact (release_none _ _).symm
  | some held =>
      have hlent := hlends.held guard found held hfind hbuffer
      have hstep : loans.step (.release held.acquisition found.pool) = some
          { loans with
            pools := Function.update loans.pools found.pool
              ((loans.pools found.pool).release (some held.buffer))
            lent := loans.lent.set held.acquisition none } := by
        rw [BufferLoans.step, hlent, Option.map_some]
      refine ⟨[.release held.acquisition found.pool], _,
        (StepRun.run_singleton _ _).trans hstep, ?_, hlends.origins, ?_, ?_⟩
      · unfold BufferGuards.giveBack
        rw [hbuffer, hlends.pools]
        rfl
      · exact List.length_set.trans hlends.length
      · intro other found' held' hne hfind' hheld'
        have hother := hlends.held other found' held' hfind' hheld'
        exact lent_set_of_ne hother
          (hbalanced.acquisition_ne hfind hbuffer hne hfind' hheld')

theorem Lends.construct (hlends : s.Lends loans) (guard pool : ℕ) :
    Lends
      { s with
        pools := Function.update s.pools pool (s.pools pool).acquire.1
        guards := s.guards.set guard
          ⟨pool, some ⟨s.origins.length, (s.pools pool).acquire.2⟩⟩
        origins := s.origins ++ [pool] }
      { pools := Function.update loans.pools pool
          (loans.pools pool).acquire.1
        lent := loans.lent ++ [some (loans.pools pool).acquire.2]
        origins := loans.origins ++ [pool] } where
  pools := by
    dsimp only
    rw [hlends.pools]
  origins := by
    dsimp only
    rw [hlends.origins]
  length := by simp [hlends.length]
  held := by
    intro key found held hfind hheld
    dsimp only
    rcases KeyedTable.find?_set_eq_some_iff.mp hfind with
      ⟨_, rfl⟩ | ⟨_, hbefore⟩
    · rw [Option.some.injEq] at hheld
      rw [← hheld, ← hlends.length, hlends.pools,
        List.getElem?_concat_length]
    · have hold := hlends.held key found held hbefore hheld
      exact getElem?_concat_eq_some.mpr (.inl hold)

theorem Lends.change (hlends : s.Lends loans) (hbalanced : s.Balanced)
    (hfind : s.guards.find? guard = some found)
    (hheld : found.buffer = some held) (buffer : ByteBuffer) :
    (s.change guard found held buffer).Lends
      (loans.change held.acquisition buffer) where
  pools := hlends.pools
  origins := hlends.origins
  length := List.length_set.trans hlends.length
  held := by
    intro key found' held' hfind' hheld'
    have hlent := hlends.held guard found held hfind hheld
    have hlt := (List.getElem?_eq_some_iff.mp hlent).1
    dsimp only [BufferLoans.change]
    rcases KeyedTable.find?_set_eq_some_iff.mp hfind' with
      ⟨_, rfl⟩ | ⟨hkey, hbefore⟩
    · rw [Option.some.injEq] at hheld'
      rw [← hheld', List.getElem?_set_self hlt]
    · have hother := hlends.held key found' held' hbefore hheld'
      exact lent_set_of_ne hother
        (hbalanced.acquisition_ne hfind hheld hkey hbefore hheld')

/-- What a guard does is done with loans. -/
theorem Lends.step (hlends : s.Lends loans) (hbalanced : s.Balanced)
    (hstep : s.step event = some s') :
    ∃ events loans', StepRun.run BufferLoans.step loans events = some loans' ∧
      s'.Lends loans' := by
  cases event with
  | construct guard pool =>
      rcases step_construct hstep with ⟨_, rfl⟩
      exact ⟨[.acquire pool], _, StepRun.run_singleton _ _,
        hlends.construct guard pool⟩
  | moveConstruct guard other =>
      rcases step_moveConstruct hstep with ⟨source, _, hsource, _, rfl⟩
      refine ⟨[], loans, rfl, hlends.pools, hlends.origins, hlends.length, ?_⟩
      intro key found held hfind hheld
      rcases KeyedTable.find?_set_eq_some_iff.mp hfind with
        ⟨_, rfl⟩ | ⟨_, hbefore⟩
      · exact hlends.held other found held hsource hheld
      · exact hlends.held key found held (find_of_emptied hbefore hheld)
          hheld
  | moveAssign guard other =>
      rcases step_moveAssign hstep with
        ⟨target, source, htarget, hsource, ⟨_, rfl⟩ | ⟨hne, rfl⟩⟩
      · exact ⟨[], loans, rfl, hlends⟩
      · rcases hlends.giveBack hbalanced htarget with
          ⟨events, loans', hrun, hpools, horigins, hlength, hothers⟩
        refine ⟨events, loans', hrun, hpools, horigins, hlength, ?_⟩
        intro key found held hfind hheld
        rcases KeyedTable.find?_set_eq_some_iff.mp hfind with
          ⟨_, rfl⟩ | ⟨hkey, hbefore⟩
        · exact hothers other source held (Ne.symm hne) hsource hheld
        · exact hothers key found held hkey (find_of_emptied hbefore hheld)
            hheld
  | use guard op =>
      rcases step_use hstep with
        ⟨found, held, applied, hfind, hheld, hallowed, happly, rfl⟩
      have hlent := hlends.held guard found held hfind hheld
      have hused : loans.step (.use held.acquisition op) =
          some (loans.change held.acquisition applied.1) := by
        rw [BufferLoans.step, hlent, Option.join_some, Option.bind_some,
          if_pos hallowed, happly, Option.map_some]
      exact ⟨[.use held.acquisition op], _,
        (StepRun.run_singleton _ _).trans hused,
        hlends.change hbalanced hfind hheld applied.1⟩
  | moveOut guard =>
      rcases step_moveOut hstep with ⟨found, held, hfind, hheld, rfl⟩
      have hlent := hlends.held guard found held hfind hheld
      have hmoved : loans.step (.moveOut held.acquisition) =
          some (loans.change held.acquisition
            held.buffer.moveConstruct.2) := by
        rw [BufferLoans.step, hlent, Option.join_some, Option.map_some]
      exact ⟨[.moveOut held.acquisition], _,
        (StepRun.run_singleton _ _).trans hmoved,
        hlends.change hbalanced hfind hheld _⟩
  | release guard =>
      rcases step_release hstep with ⟨found, hfind, rfl⟩
      refine ⟨[], loans, rfl, hlends.pools, hlends.origins, hlends.length, ?_⟩
      intro key found' held' hfind' hheld'
      exact hlends.held key found' held' (find_of_emptied hfind' hheld')
        hheld'
  | destroy guard =>
      rcases step_destroy hstep with ⟨found, hfind, rfl⟩
      rcases hlends.giveBack hbalanced hfind with
        ⟨events, loans', hrun, hpools, horigins, hlength, hothers⟩
      refine ⟨events, loans', hrun, hpools, horigins, hlength, ?_⟩
      intro key found' held' hfind' hheld'
      have hkey : key ≠ guard := by
        rintro rfl
        dsimp only at hfind'
        rw [KeyedTable.find?_erase] at hfind'
        cases hfind'
      exact hothers key found' held' hkey
        (KeyedTable.find?_of_find?_erase hfind') hheld'

/-- Every run of guards is a run of loans from the same pools. -/
theorem lends_of_run (configs : ℕ → PoolConfig) {events : List GuardEvent}
    (hrun : StepRun.run step
      (starting fun pool => .create (configs pool)) events = some s) :
    ∃ loanEvents loans,
      StepRun.run BufferLoans.step (.starting configs) loanEvents =
          some loans ∧
        s.Lends loans := by
  have hstart : Lends (starting fun pool => .create (configs pool))
      (.starting configs) :=
    ⟨rfl, rfl, rfl, fun _ _ _ hfind => nomatch hfind⟩
  have hboth := StepRun.run_invariant
    (fun s => s.Balanced ∧ ∃ loanEvents loans,
      StepRun.run BufferLoans.step (.starting configs) loanEvents =
          some loans ∧ s.Lends loans)
    (fun _ => True) (fun t event t' hinv _ hstep => ?_)
    ⟨balanced_starting _, [], _, rfl, hstart⟩ (fun _ _ => trivial) hrun
  · exact hboth.2
  · rcases hinv with ⟨hbalanced, earlier, loans, hearlier, hlends⟩
    rcases hlends.step hbalanced hstep with ⟨later, loans', hlater, hafter⟩
    exact ⟨hbalanced.step hstep, earlier ++ later, loans',
      StepRun.run_append_eq_some.mpr ⟨loans, hearlier, hlater⟩, hafter⟩

end BufferGuards

end VynxHttp
