import Mathlib.Tactic.Common

/-!
# Event logs

A log is a list of events, latest first.  `Holds` says that every event of a
log was admissible when it happened, and `Extends` that a log goes on from
another one with events of some kind only.
-/

namespace VynxHttp.EventLog

variable {ε : Type*}

/-! ## Admissible events -/

/-- Every event was admissible when it happened. -/
def Holds (ok : ε → List ε → Prop) : List ε → Prop
  | [] => True
  | event :: past => ok event past ∧ Holds ok past

instance (ok : ε → List ε → Prop) [∀ event past, Decidable (ok event past)] :
    ∀ log, Decidable (Holds ok log)
  | [] => .isTrue trivial
  | event :: past =>
      have := instDecidableHolds ok past
      inferInstanceAs (Decidable (ok event past ∧ Holds ok past))

theorem Holds.of_append {ok : ε → List ε → Prop} {later log : List ε}
    (hholds : Holds ok (later ++ log)) : Holds ok log := by
  induction later with
  | nil => exact hholds
  | cons event later ih => exact ih hholds.2

/-- What an event was admissible for. -/
theorem Holds.ok_of_split {ok : ε → List ε → Prop} {log later past : List ε}
    {event : ε} (hholds : Holds ok log)
    (hsplit : log = later ++ event :: past) : ok event past := by
  rw [hsplit] at hholds
  have hpast : Holds ok (event :: past) := hholds.of_append
  exact hpast.1

/-! ## Logs which go on -/

/-- The second log adds events to the first which all satisfy `P`. -/
def Extends (P : ε → Prop) (log log' : List ε) : Prop :=
  ∃ added, log' = added ++ log ∧ ∀ event ∈ added, P event

variable {P Q : ε → Prop} {log log' log'' : List ε}

theorem Extends.refl (log : List ε) : Extends P log log :=
  ⟨[], rfl, by simp⟩

theorem Extends.cons (hextends : Extends P log log') {event : ε}
    (hevent : P event) : Extends P log (event :: log') := by
  obtain ⟨added, rfl, hadded⟩ := hextends
  exact ⟨event :: added, rfl, by simpa [hevent] using hadded⟩

theorem Extends.trans (hfirst : Extends P log log')
    (hsecond : Extends P log' log'') : Extends P log log'' := by
  obtain ⟨added, rfl, hadded⟩ := hfirst
  obtain ⟨later, rfl, hlater⟩ := hsecond
  refine ⟨later ++ added, (List.append_assoc ..).symm, ?_⟩
  intro event hmem
  rcases List.mem_append.mp hmem with hmem | hmem
  · exact hlater event hmem
  · exact hadded event hmem

theorem Extends.mono (hextends : Extends P log log')
    (himplies : ∀ event, P event → Q event) : Extends Q log log' := by
  obtain ⟨added, hlog, hadded⟩ := hextends
  exact ⟨added, hlog, fun event hmem => himplies event (hadded event hmem)⟩

theorem Extends.suffix (hextends : Extends P log log') : log <:+ log' := by
  obtain ⟨added, rfl, _⟩ := hextends
  exact List.suffix_append _ _

/-- What is added may be cut at any log in between. -/
theorem Extends.split (hextends : Extends P log log'')
    (hfirst : log <:+ log') (hsecond : log' <:+ log'') :
    Extends P log log' ∧ Extends P log' log'' := by
  obtain ⟨added, hlog, hadded⟩ := hextends
  obtain ⟨early, rfl⟩ := hfirst
  obtain ⟨later, rfl⟩ := hsecond
  have hsplit : added = later ++ early := by
    rw [← List.append_assoc] at hlog
    exact (List.append_cancel_right hlog).symm
  subst hsplit
  exact ⟨⟨early, rfl, fun event hmem => hadded event (by simp [hmem])⟩,
    later, rfl, fun event hmem => hadded event (by simp [hmem])⟩

theorem Extends.of_cons {event : ε} (hextends : Extends P log (event :: log'))
    (hsuffix : log <:+ log') : P event := by
  obtain ⟨added, hadded, hevents⟩ :=
    (hextends.split hsuffix (List.suffix_cons _ _)).2
  have hlast : added = [event] :=
    (List.append_cancel_right (show [event] ++ log' = _ from hadded)).symm
  exact hevents event (by simp [hlast])

theorem extends_nil_iff : Extends P [] log ↔ ∀ event ∈ log, P event := by
  constructor
  · rintro ⟨added, rfl, hadded⟩
    simpa using hadded
  · exact fun hlog => ⟨log, by simp, hlog⟩

end VynxHttp.EventLog
