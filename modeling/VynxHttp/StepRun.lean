import Mathlib.Tactic.Common

/-!
# Runs of partial steps

`run` takes one step for each event of a list and ends early, without a state,
at the first event for which there is no step.  `run_invariant` and
`run_meets` are the two rules for such runs: what every step preserves holds
after the run, and when every step which may be asked for exists, so does the
run.
-/

namespace VynxHttp.StepRun

variable {σ ε : Type*}

def run (step : σ → ε → Option σ) : σ → List ε → Option σ
  | s, [] => some s
  | s, event :: events => (step s event).bind fun next =>
      run step next events

variable {step : σ → ε → Option σ}

@[simp] theorem run_nil (s : σ) : run step s [] = some s := rfl

theorem run_cons_of_eq {s next : σ} {event : ε}
    (hstep : step s event = some next) (events : List ε) :
    run step s (event :: events) = run step next events := by
  simp [run, hstep]

theorem run_cons_eq_some {s final : σ} {event : ε} {events : List ε} :
    run step s (event :: events) = some final ↔
      ∃ next, step s event = some next ∧
        run step next events = some final := by
  simp [run, Option.bind_eq_some_iff]

theorem run_append_eq_some {s final : σ} {first second : List ε} :
    run step s (first ++ second) = some final ↔
      ∃ middle, run step s first = some middle ∧
        run step middle second = some final := by
  induction first generalizing s with
  | nil => simp
  | cons event first ih =>
      simp only [List.cons_append, run_cons_eq_some, ih]
      constructor
      · rintro ⟨next, hstep, middle, hfirst, hsecond⟩
        exact ⟨middle, ⟨next, hstep, hfirst⟩, hsecond⟩
      · rintro ⟨middle, ⟨next, hstep, hfirst⟩, hsecond⟩
        exact ⟨next, hstep, middle, hfirst, hsecond⟩

theorem run_singleton (s : σ) (event : ε) :
    run step s [event] = step s event := by
  simp [run]

/-! ## The rules for runs -/

/-- What every step preserves holds after the run. -/
theorem run_invariant (Inv : σ → Prop) (allowed : ε → Prop)
    (hstep : ∀ s event next, Inv s → allowed event →
      step s event = some next → Inv next)
    {s final : σ} {events : List ε} (hinv : Inv s)
    (hallowed : ∀ event ∈ events, allowed event)
    (hrun : run step s events = some final) : Inv final := by
  induction events generalizing s with
  | nil =>
      rw [run_nil, Option.some.injEq] at hrun
      exact hrun ▸ hinv
  | cons event events ih =>
      obtain ⟨next, hnext, hlater⟩ := run_cons_eq_some.mp hrun
      have hfirst : Inv next :=
        hstep s event next hinv (hallowed event (List.mem_cons_self ..)) hnext
      exact ih hfirst (fun other hmem =>
        hallowed other (List.mem_cons_of_mem _ hmem)) hlater

/-- Every event of a run is one which its state allows. -/
theorem forall_mem_of_run (Inv : σ → Prop) (allowed : ε → Prop)
    (hstep : ∀ s event next, Inv s → step s event = some next →
      allowed event ∧ Inv next)
    {s final : σ} {events : List ε} (hinv : Inv s)
    (hrun : run step s events = some final) :
    ∀ event ∈ events, allowed event := by
  induction events generalizing s with
  | nil => simp
  | cons event events ih =>
      obtain ⟨next, hnext, hlater⟩ := run_cons_eq_some.mp hrun
      obtain ⟨hfirst, hinv'⟩ := hstep s event next hinv hnext
      rintro other (_ | ⟨_, hmem⟩)
      · exact hfirst
      · exact ih hinv' hlater other hmem

/-- When every step exists, so does the run. -/
theorem run_meets (Inv : σ → Prop) (allowed : ε → Prop)
    (hstep : ∀ s event, Inv s → allowed event →
      ∃ next, step s event = some next ∧ Inv next)
    {s : σ} {events : List ε} (hinv : Inv s)
    (hallowed : ∀ event ∈ events, allowed event) :
    ∃ final, run step s events = some final ∧ Inv final := by
  induction events generalizing s with
  | nil => exact ⟨s, rfl, hinv⟩
  | cons event events ih =>
      obtain ⟨next, hnext, hfirst⟩ :=
        hstep s event hinv (hallowed event (List.mem_cons_self ..))
      obtain ⟨final, hrun, hfinal⟩ := ih hfirst fun other hmem =>
        hallowed other (List.mem_cons_of_mem _ hmem)
      exact ⟨final, (run_cons_of_eq hnext events).trans hrun, hfinal⟩

/-! ## Loops over a range -/

/-- The rule for loops: an invariant which says what holds before each
turn. -/
theorem run_range_invariant (Inv : ℕ → σ → Prop) (f : ℕ → ε) {n : ℕ}
    (hstep : ∀ i s next, i < n → Inv i s → step s (f i) = some next →
      Inv (i + 1) next)
    {s final : σ} (hinv : Inv 0 s)
    (hrun : run step s ((List.range n).map f) = some final) :
    Inv n final := by
  induction n generalizing final with
  | zero =>
      have hs : s = final := by simpa using hrun
      exact hs ▸ hinv
  | succ n ih =>
      rw [List.range_succ, List.map_append, run_append_eq_some] at hrun
      obtain ⟨middle, hmiddle, hlast⟩ := hrun
      rw [List.map_singleton, run_singleton] at hlast
      have hbefore : Inv n middle :=
        ih (fun i s next hi => hstep i s next (by omega)) hmiddle
      exact hstep n middle final (by omega) hbefore hlast

theorem run_range_meets (Inv : ℕ → σ → Prop) (f : ℕ → ε) {n : ℕ}
    (hstep : ∀ i s, i < n → Inv i s →
      ∃ next, step s (f i) = some next ∧ Inv (i + 1) next)
    {s : σ} (hinv : Inv 0 s) :
    ∃ final, run step s ((List.range n).map f) = some final ∧
      Inv n final := by
  induction n with
  | zero => exact ⟨s, rfl, hinv⟩
  | succ n ih =>
      obtain ⟨middle, hmiddle, hbefore⟩ :=
        ih fun i s hi => hstep i s (by omega)
      obtain ⟨final, hlast, hfinal⟩ := hstep n middle (by omega) hbefore
      refine ⟨final, ?_, hfinal⟩
      rw [List.range_succ, List.map_append, run_append_eq_some]
      exact ⟨middle, hmiddle, by rw [List.map_singleton, run_singleton, hlast]⟩

/-! ## Conditions on the steps of a run -/

/-- `P` holds of every step of a run: of the state before it and of the
event. -/
def Along (step : σ → ε → Option σ) (P : σ → ε → Prop) :
    σ → List ε → Prop
  | _, [] => True
  | s, event :: events =>
      P s event ∧ ∀ next, step s event = some next →
        Along step P next events

theorem Along.append {P : σ → ε → Prop} {s : σ} {first second : List ε}
    (halong : Along step P s (first ++ second)) :
    Along step P s first ∧
      ∀ middle, run step s first = some middle →
        Along step P middle second := by
  induction first generalizing s with
  | nil =>
      refine ⟨trivial, fun middle hmiddle => ?_⟩
      rw [run_nil, Option.some.injEq] at hmiddle
      exact hmiddle ▸ halong
  | cons event first ih =>
      refine ⟨⟨halong.1, fun next hnext => (ih (halong.2 next hnext)).1⟩, ?_⟩
      intro middle hmiddle
      obtain ⟨next, hnext, hlater⟩ := run_cons_eq_some.mp hmiddle
      exact (ih (halong.2 next hnext)).2 middle hlater

theorem Along.last {P : σ → ε → Prop} {s middle : σ} {events : List ε}
    {event : ε} (halong : Along step P s (events ++ [event]))
    (hrun : run step s events = some middle) : P middle event :=
  (halong.append.2 middle hrun).1

theorem Along.mono {P Q : σ → ε → Prop}
    (hPQ : ∀ s event, P s event → Q s event) {s : σ} {events : List ε}
    (halong : Along step P s events) : Along step Q s events := by
  induction events generalizing s with
  | nil => trivial
  | cons event events ih =>
      exact ⟨hPQ s event halong.1, fun next hnext => ih (halong.2 next hnext)⟩

/-- `Along` as a statement about the states which the run comes to. -/
theorem along_iff_prefix {P : σ → ε → Prop} {s : σ} {events : List ε} :
    Along step P s events ↔
      ∀ before event middle, before ++ [event] <+: events →
        run step s before = some middle → P middle event := by
  constructor
  · rintro halong before event middle ⟨after, rfl⟩ hrun
    exact halong.append.1.last hrun
  · intro hall
    induction events generalizing s with
    | nil => trivial
    | cons event events ih =>
        refine ⟨?_, fun next hnext => ?_⟩
        · exact hall [] event s ⟨events, rfl⟩ rfl
        · refine ih fun before other middle hprefix hrun => ?_
          refine hall (event :: before) other middle ?_ ?_
          · exact (List.prefix_cons_inj event).mpr hprefix
          · rw [run_cons_of_eq hnext]
            exact hrun

/-- `run_invariant` for steps which meet a condition on their state. -/
theorem run_invariant_along (Inv : σ → Prop) (P : σ → ε → Prop)
    (hstep : ∀ s event next, Inv s → P s event →
      step s event = some next → Inv next)
    {s final : σ} {events : List ε} (hinv : Inv s)
    (halong : Along step P s events)
    (hrun : run step s events = some final) : Inv final := by
  induction events generalizing s with
  | nil =>
      rw [run_nil, Option.some.injEq] at hrun
      exact hrun ▸ hinv
  | cons event events ih =>
      rcases run_cons_eq_some.mp hrun with ⟨next, hnext, hlater⟩
      exact ih (hstep s event next hinv halong.1 hnext)
        (halong.2 next hnext) hlater

/-- Conditions which agree where an invariant holds agree along runs, as long
as steps which meet them keep the invariant. -/
theorem along_congr (Inv : σ → Prop) {P Q : σ → ε → Prop}
    (hiff : ∀ s event, Inv s → (P s event ↔ Q s event))
    (hstep : ∀ s event next, Inv s → P s event →
      step s event = some next → Inv next)
    {s : σ} (hinv : Inv s) (events : List ε) :
    Along step P s events ↔ Along step Q s events := by
  induction events generalizing s with
  | nil => exact Iff.rfl
  | cons event events ih =>
      constructor
      · rintro ⟨hfirst, hlater⟩
        refine ⟨(hiff s event hinv).mp hfirst, fun next hnext => ?_⟩
        exact (ih (hstep s event next hinv hfirst hnext)).mp
          (hlater next hnext)
      · rintro ⟨hfirst, hlater⟩
        have hfirst' := (hiff s event hinv).mpr hfirst
        refine ⟨hfirst', fun next hnext => ?_⟩
        exact (ih (hstep s event next hinv hfirst' hnext)).mpr
          (hlater next hnext)

/-- What a step which exists was allowed by holds along a run which exists. -/
theorem along_of_run (Inv : σ → Prop) (P : σ → ε → Prop)
    (hstep : ∀ s event next, Inv s → step s event = some next →
      P s event ∧ Inv next)
    {s final : σ} {events : List ε} (hinv : Inv s)
    (hrun : run step s events = some final) : Along step P s events := by
  induction events generalizing s with
  | nil => trivial
  | cons event events ih =>
      obtain ⟨next, hnext, hlater⟩ := run_cons_eq_some.mp hrun
      obtain ⟨hfirst, hinv'⟩ := hstep s event next hinv hnext
      refine ⟨hfirst, fun other hother => ?_⟩
      rw [hnext, Option.some.injEq] at hother
      exact hother ▸ ih hinv' hlater

/-- `run_meets` for steps which exist where a condition holds. -/
theorem run_meets_along (Inv : σ → Prop) (P : σ → ε → Prop)
    (hstep : ∀ s event, Inv s → P s event →
      ∃ next, step s event = some next ∧ Inv next)
    {s : σ} {events : List ε} (hinv : Inv s)
    (halong : Along step P s events) :
    ∃ final, run step s events = some final ∧ Inv final := by
  induction events generalizing s with
  | nil => exact ⟨s, rfl, hinv⟩
  | cons event events ih =>
      obtain ⟨next, hnext, hfirst⟩ := hstep s event hinv halong.1
      obtain ⟨final, hrun, hfinal⟩ := ih hfirst (halong.2 next hnext)
      exact ⟨final, (run_cons_of_eq hnext events).trans hrun, hfinal⟩

end VynxHttp.StepRun
