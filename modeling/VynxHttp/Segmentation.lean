import Mathlib.Data.List.Flatten
import Mathlib.Tactic.Common

/-!
# Machines which read a text in segments

A text reaches a machine cut into segments, one call for each of them.
`run` makes the calls and `ends` lists the offsets at which segments end.
`run_of_step` is the rule for such runs: an invariant which relates the state
to the offset reached and to the text still to come, and which every call
preserves, relates the state after the run to what is left of the text.
-/

namespace VynxHttp.Segmentation

variable {α σ : Type*}

def run (feed : σ → List α → Option σ) : σ → List (List α) → Option σ
  | s, [] => some s
  | s, segment :: segments => (feed s segment).bind fun next =>
      run feed next segments

/-- The offsets at which the segments end, the first one starting at
`offset`. -/
def ends (offset : ℕ) : List (List α) → List ℕ
  | [] => []
  | segment :: segments =>
      (offset + segment.length) :: ends (offset + segment.length) segments

@[simp] theorem run_nil (feed : σ → List α → Option σ) (s : σ) :
    run feed s [] = some s := rfl

theorem run_cons_of_eq {feed : σ → List α → Option σ} {s next : σ}
    {segment : List α} (hfeed : feed s segment = some next)
    (segments : List (List α)) :
    run feed s (segment :: segments) = run feed next segments := by
  simp [run, hfeed]

theorem run_append (feed : σ → List α → Option σ) (s : σ)
    (first second : List (List α)) :
    run feed s (first ++ second) =
      (run feed s first).bind fun next => run feed next second := by
  induction first generalizing s with
  | nil => rfl
  | cons segment first ih =>
      simp only [List.cons_append, run]
      cases feed s segment with
      | none => rfl
      | some next => exact ih next

@[simp] theorem ends_nil (offset : ℕ) :
    ends offset ([] : List (List α)) = [] := rfl

@[simp] theorem ends_cons (offset : ℕ) (segment : List α)
    (segments : List (List α)) :
    ends offset (segment :: segments) =
      (offset + segment.length) ::
        ends (offset + segment.length) segments := rfl

theorem ends_append (offset : ℕ) (first second : List (List α)) :
    ends offset (first ++ second) =
      ends offset first ++
        ends (offset + first.flatten.length) second := by
  induction first generalizing offset with
  | nil => simp
  | cons segment first ih =>
      simp only [List.cons_append, ends_cons, ih, List.flatten_cons,
        List.length_append, Nat.add_assoc]

theorem exists_split_of_mem_ends {offset n : ℕ}
    {segments : List (List α)} (hmem : n ∈ ends offset segments) :
    ∃ before after, segments = before ++ after ∧ before ≠ [] ∧
      offset + before.flatten.length = n := by
  induction segments generalizing offset with
  | nil => simp at hmem
  | cons segment segments ih =>
      rw [ends_cons, List.mem_cons] at hmem
      rcases hmem with hfirst | hlater
      · exact ⟨[segment], segments, rfl, by simp, by simp [hfirst]⟩
      · obtain ⟨before, after, hsplit, _, hoffset⟩ := ih hlater
        refine ⟨segment :: before, after, by simp [hsplit], by simp, ?_⟩
        simp only [List.flatten_cons, List.length_append]
        omega

theorem le_of_mem_ends {offset n : ℕ} {segments : List (List α)}
    (hmem : n ∈ ends offset segments) :
    offset ≤ n ∧ n ≤ offset + segments.flatten.length := by
  obtain ⟨before, after, hsplit, _, hoffset⟩ :=
    exists_split_of_mem_ends hmem
  rw [hsplit, List.flatten_append, List.length_append]
  omega

/-- The rule for runs.  `allowed` is what is known of the offsets at which
segments end. -/
theorem run_of_step {feed : σ → List α → Option σ}
    (allowed : ℕ → Prop) (Inv : σ → ℕ → List α → Prop)
    (hstep : ∀ s offset segment rest,
      Inv s offset (segment ++ rest) → allowed (offset + segment.length) →
      ∃ next, feed s segment = some next ∧
        Inv next (offset + segment.length) rest)
    {s : σ} {offset : ℕ} {segments : List (List α)} {rest : List α}
    (hinv : Inv s offset (segments.flatten ++ rest))
    (hallowed : ∀ n ∈ ends offset segments, allowed n) :
    ∃ final, run feed s segments = some final ∧
      Inv final (offset + segments.flatten.length) rest := by
  induction segments generalizing s offset with
  | nil => exact ⟨s, rfl, by simpa using hinv⟩
  | cons segment segments ih =>
      rw [List.flatten_cons, List.append_assoc] at hinv
      obtain ⟨next, hfeed, hnext⟩ :=
        hstep s offset segment (segments.flatten ++ rest) hinv
          (hallowed _ (by simp))
      obtain ⟨final, hrun, hfinal⟩ :=
        ih hnext fun n hn => hallowed n (by simp [hn])
      refine ⟨final, by rw [run_cons_of_eq hfeed, hrun], ?_⟩
      rw [List.flatten_cons, List.length_append, ← Nat.add_assoc]
      exact hfinal

theorem run_meets {feed : σ → List α → Option σ}
    (allowed : List α → Prop) (Inv : σ → Prop)
    (hstep : ∀ s segment, Inv s → allowed segment →
      ∃ next, feed s segment = some next ∧ Inv next)
    {s : σ} (hinv : Inv s) {segments : List (List α)}
    (hallowed : ∀ segment ∈ segments, allowed segment) :
    ∃ final, run feed s segments = some final ∧ Inv final := by
  induction segments generalizing s with
  | nil => exact ⟨s, rfl, hinv⟩
  | cons segment segments ih =>
      obtain ⟨next, hfeed, hnext⟩ :=
        hstep s segment hinv (hallowed _ (List.mem_cons_self ..))
      obtain ⟨final, hrun, hfinal⟩ := ih hnext fun other hmem =>
        hallowed other (List.mem_cons_of_mem _ hmem)
      exact ⟨final, (run_cons_of_eq hfeed segments).trans hrun, hfinal⟩

/-! ## Conditions on every call of a run -/

/-- `P` holds of every call of a run: of the state before it and of the
segment. -/
def Along (feed : σ → List α → Option σ) (P : σ → List α → Prop) :
    σ → List (List α) → Prop
  | _, [] => True
  | s, segment :: segments =>
      P s segment ∧ ∀ next, feed s segment = some next →
        Along feed P next segments

/-- When `P` is what a call needs to lead to a good state, the states of a run
are all good exactly when all its calls satisfy `P`. -/
theorem forall_good_iff_along {feed : σ → List α → Option σ}
    {P : σ → List α → Prop} (Inv Good : σ → Prop)
    (small : List α → Prop)
    (hstep : ∀ s segment, Inv s → Good s → small segment →
      ∃ next, feed s segment = some next ∧ Inv next ∧
        (Good next ↔ P s segment))
    {s : σ} {segments : List (List α)} (hinv : Inv s) (hgood : Good s)
    (hsmall : ∀ segment ∈ segments, small segment) :
    (∀ before after, segments = before ++ after →
      ∃ next, run feed s before = some next ∧ Good next) ↔
        Along feed P s segments := by
  induction segments generalizing s with
  | nil =>
      refine ⟨fun _ => trivial, fun _ before after hsplit => ?_⟩
      rw [(List.append_eq_nil_iff.mp hsplit.symm).1]
      exact ⟨s, rfl, hgood⟩
  | cons segment segments ih =>
      have hlater : ∀ other ∈ segments, small other :=
        fun other hmem => hsmall other (List.mem_cons_of_mem _ hmem)
      obtain ⟨next, hfeed, hnext, hiff⟩ :=
        hstep s segment hinv hgood (hsmall segment (List.mem_cons_self ..))
      constructor
      · intro hall
        obtain ⟨first, hrun, hfirst⟩ := hall [segment] segments rfl
        rw [run_cons_of_eq hfeed, run_nil, Option.some.injEq] at hrun
        subst hrun
        refine ⟨hiff.mp hfirst, fun other hother => ?_⟩
        rw [hfeed, Option.some.injEq] at hother
        subst hother
        refine (ih hnext hfirst hlater).mp fun before after hsplit => ?_
        obtain ⟨final, hfinal, hgoodFinal⟩ :=
          hall (segment :: before) after (by rw [hsplit]; rfl)
        rw [run_cons_of_eq hfeed] at hfinal
        exact ⟨final, hfinal, hgoodFinal⟩
      · rintro ⟨hfirst, halong⟩ before after hsplit
        cases before with
        | nil => exact ⟨s, rfl, hgood⟩
        | cons other before =>
            rw [List.cons_append, List.cons.injEq] at hsplit
            obtain ⟨rfl, hsplit⟩ := hsplit
            have hlaterGood := (ih hnext (hiff.mpr hfirst) hlater).mpr
              (halong next hfeed)
            obtain ⟨final, hfinal, hgoodFinal⟩ :=
              hlaterGood before after hsplit
            exact ⟨final, by rw [run_cons_of_eq hfeed, hfinal], hgoodFinal⟩

/-! ## Machines which cannot be told apart -/

variable {ρ ω : Type*}

/-- What is seen of a machine after each call of a run. -/
def observations (feed : σ → List α → Option (σ × ρ))
    (observe : σ × ρ → ω) : σ → List (List α) → Option (List ω)
  | _, [] => some []
  | s, segment :: segments => (feed s segment).bind fun step =>
      (observations feed observe step.1 segments).map (observe step :: ·)

/-- Related states of which every call gives related states and the same
observation cannot be told apart by any run. -/
theorem observations_eq_of_rel {feed : σ → List α → Option (σ × ρ)}
    {observe : σ × ρ → ω} (R : σ → σ → Prop)
    (hstep : ∀ s t segment, R s t → ∃ step step',
      feed s segment = some step ∧ feed t segment = some step' ∧
        R step.1 step'.1 ∧ observe step = observe step')
    {s t : σ} (hrelated : R s t) (segments : List (List α)) :
    ∃ seen, observations feed observe s segments = some seen ∧
      observations feed observe t segments = some seen := by
  induction segments generalizing s t with
  | nil => exact ⟨[], rfl, rfl⟩
  | cons segment segments ih =>
      obtain ⟨step, step', hs, ht, hnext, hsame⟩ :=
        hstep s t segment hrelated
      obtain ⟨seen, hseen, hseen'⟩ := ih hnext
      refine ⟨observe step :: seen, ?_, ?_⟩
      · rw [observations, hs, Option.bind_some, hseen, Option.map_some]
      · rw [observations, ht, Option.bind_some, hseen', Option.map_some,
          hsame]

end VynxHttp.Segmentation
