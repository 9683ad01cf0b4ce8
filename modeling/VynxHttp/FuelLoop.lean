import Mathlib.Tactic.Common

/-!
# Loops given by their body

A `while` loop is the repetition of its body, which either asks for another
round or leaves the loop with a result; `none` stands for a body which does not
return.  The loop is run with fuel.  When every further round lowers a rank,
the rank of the state is fuel enough and more fuel changes nothing
(`run_eq_runRanked`), so that `runRanked` obeys the loop's own equations.
There are three rules for it: what holds of a result, if there is one
(`runRanked_of_invariant`), that there is one (`runRanked_meets`), and that two
loops go through related states (`runRanked_rel`).
-/

namespace VynxHttp.FuelLoop

variable {σ ρ : Type*}

inductive Round (σ ρ : Type*) where
  | again (s : σ)
  | leave (r : ρ)
  deriving DecidableEq, Repr

def run (body : σ → Option (Round σ ρ)) : ℕ → σ → Option ρ
  | 0, _ => none
  | fuel + 1, s =>
      match body s with
      | none => none
      | some (.again next) => run body fuel next
      | some (.leave r) => some r

/-- The loop with the fuel its rank allows for. -/
def runRanked (body : σ → Option (Round σ ρ)) (rank : σ → ℕ) (s : σ) :
    Option ρ :=
  run body (rank s + 1) s

def Decreases (body : σ → Option (Round σ ρ)) (rank : σ → ℕ) : Prop :=
  ∀ s next, body s = some (.again next) → rank next < rank s

variable {body : σ → Option (Round σ ρ)} {rank : σ → ℕ}

theorem run_eq_run (hdecreases : Decreases body rank)
    {fuel more : ℕ} {s : σ} (hfuel : rank s < fuel) (hmore : rank s < more) :
    run body fuel s = run body more s := by
  induction fuel generalizing more s with
  | zero => omega
  | succ fuel ih =>
      cases more with
      | zero => omega
      | succ more =>
          cases hround : body s with
          | none => simp only [run, hround]
          | some round =>
              cases round with
              | leave r => simp only [run, hround]
              | again next =>
                  have hlt := hdecreases s next hround
                  simp only [run, hround]
                  exact ih (by omega) (by omega)

theorem run_eq_runRanked (hdecreases : Decreases body rank)
    {fuel : ℕ} {s : σ} (hfuel : rank s < fuel) :
    run body fuel s = runRanked body rank s :=
  run_eq_run hdecreases hfuel (Nat.lt_succ_self _)

theorem runRanked_again (hdecreases : Decreases body rank) {s next : σ}
    (hround : body s = some (.again next)) :
    runRanked body rank s = runRanked body rank next := by
  have hlt := hdecreases s next hround
  have hnext : run body (rank s) next = runRanked body rank next :=
    run_eq_runRanked hdecreases hlt
  rw [← hnext]
  simp only [runRanked, run, hround]

theorem runRanked_leave (rank : σ → ℕ) {s : σ} {r : ρ}
    (hround : body s = some (.leave r)) :
    runRanked body rank s = some r := by
  simp only [runRanked, run, hround]

/-- The rule for partial correctness: what every further round keeps holds of
the state from which the result is left. -/
theorem runRanked_of_invariant (Inv : σ → Prop) (Post : ρ → Prop)
    (hagain : ∀ s next, Inv s → body s = some (.again next) → Inv next)
    (hleave : ∀ s r, Inv s → body s = some (.leave r) → Post r)
    {s : σ} (hinv : Inv s) {r : ρ} (hrun : runRanked body rank s = some r) :
    Post r := by
  unfold runRanked at hrun
  generalize rank s + 1 = fuel at hrun
  induction fuel generalizing s with
  | zero => simp [run] at hrun
  | succ fuel ih =>
      rw [run] at hrun
      cases hround : body s with
      | none => simp [hround] at hrun
      | some round =>
          cases round with
          | leave result =>
              simp only [hround, Option.some.injEq] at hrun
              rw [← hrun]
              exact hleave s result hinv hround
          | again next =>
              simp only [hround] at hrun
              exact ih (hagain s next hinv hround) hrun

/-! ## Loops whose rounds all return -/

def Round.Meets (Inv : σ → Prop) (Post : ρ → Prop) : Round σ ρ → Prop
  | .again s => Inv s
  | .leave r => Post r

/-- The rule for total correctness. -/
theorem runRanked_meets (hdecreases : Decreases body rank)
    (Inv : σ → Prop) (Post : ρ → Prop)
    (hround : ∀ s, Inv s → ∃ round, body s = some round ∧
      round.Meets Inv Post)
    {s : σ} (hinv : Inv s) :
    ∃ r, runRanked body rank s = some r ∧ Post r := by
  induction hrank : rank s using Nat.strongRecOn generalizing s with
  | _ n ih =>
      obtain ⟨round, hbody, hmeets⟩ := hround s hinv
      cases round with
      | leave r => exact ⟨r, runRanked_leave rank hbody, hmeets⟩
      | again next =>
          have hlt := hdecreases s next hbody
          rw [runRanked_again hdecreases hbody]
          exact ih (rank next) (hrank ▸ hlt) hmeets rfl

variable {τ ρ' : Type*} {body' : τ → Option (Round τ ρ')} {rank' : τ → ℕ}

inductive Round.Rel (R : σ → τ → Prop) (S : ρ → ρ' → Prop) :
    Round σ ρ → Round τ ρ' → Prop
  | again {s t} (related : R s t) : Rel R S (.again s) (.again t)
  | leave {r r'} (related : S r r') : Rel R S (.leave r) (.leave r')

theorem runRanked_rel (hdecreases : Decreases body rank)
    (hdecreases' : Decreases body' rank')
    (R : σ → τ → Prop) (S : ρ → ρ' → Prop)
    (hround : ∀ s t, R s t → ∃ round round', body s = some round ∧
      body' t = some round' ∧ Round.Rel R S round round')
    {s : σ} {t : τ} (hrelated : R s t) :
    ∃ r r', runRanked body rank s = some r ∧
      runRanked body' rank' t = some r' ∧ S r r' := by
  induction hrank : rank s using Nat.strongRecOn
    generalizing s t with
  | _ n ih =>
      obtain ⟨round, round', hbody, hbody', hrel⟩ := hround s t hrelated
      cases hrel with
      | leave hrel =>
          exact ⟨_, _, runRanked_leave rank hbody,
            runRanked_leave rank' hbody', hrel⟩
      | again hrel =>
          have hlt := hdecreases _ _ hbody
          rw [runRanked_again hdecreases hbody,
            runRanked_again hdecreases' hbody']
          exact ih _ (hrank ▸ hlt) hrel rfl

end VynxHttp.FuelLoop
