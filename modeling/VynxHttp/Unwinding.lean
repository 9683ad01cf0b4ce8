import Mathlib.Data.List.Basic
import Mathlib.Tactic.Common

/-!
# Operations which an observer does not see

A store goes from state to state by operations, and an observer sees a part of
the state only.  When what the observer sees after an operation depends on
nothing but what it has seen before (`Unwinds`), operations which leave its view
as it is can be left out of any run (`foldl_skip`).  `upsert` is the list store
which replaces the first entry of some kind, or appends one.
-/

namespace VynxHttp.Unwinding

/-! ## Views -/

section Views

variable {σ ω ν : Type*} {step : σ → ω → σ} {view : σ → ν}

def Unwinds (step : σ → ω → σ) (view : σ → ν) : Prop :=
  ∀ state state' op, view state = view state' →
    view (step state op) = view (step state' op)

theorem Unwinds.foldl (hunwinds : Unwinds step view) (ops : List ω)
    {state state' : σ} (hview : view state = view state') :
    view (ops.foldl step state) = view (ops.foldl step state') := by
  induction ops generalizing state state' with
  | nil => exact hview
  | cons op ops ih => exact ih (hunwinds _ _ op hview)

theorem foldl_unseen {ops : List ω}
    (hunseen : ∀ op ∈ ops, ∀ state, view (step state op) = view state)
    (state : σ) : view (ops.foldl step state) = view state := by
  induction ops generalizing state with
  | nil => rfl
  | cons op ops ih =>
      have hop := hunseen op (List.mem_cons_self ..) state
      rw [List.foldl_cons, ← hop]
      exact ih (fun other hmem =>
        hunseen other (List.mem_cons_of_mem _ hmem)) (step state op)

/-- Operations which are not seen make no difference later on. -/
theorem Unwinds.foldl_skip (hunwinds : Unwinds step view) {ops : List ω}
    (hunseen : ∀ op ∈ ops, ∀ state, view (step state op) = view state)
    (earlier later : List ω) (state : σ) :
    view ((earlier ++ ops ++ later).foldl step state) =
      view ((earlier ++ later).foldl step state) := by
  simp only [List.foldl_append]
  exact hunwinds.foldl later (foldl_unseen hunseen _)

end Views

/-! ## Entries replaced or appended -/

section Upsert

variable {α : Type*} {same : α → α → Bool} {p : α → Bool} {x : α}

def upsert (same : α → α → Bool) (x : α) : List α → List α
  | [] => [x]
  | y :: ys => if same y x then x :: ys else y :: upsert same x ys

/-- An entry which is filtered out leaves the others as they are. -/
theorem filter_upsert_of_neg (hx : p x = false)
    (hsame : ∀ y, same y x = true → p y = p x) (ys : List α) :
    (upsert same x ys).filter p = ys.filter p := by
  induction ys with
  | nil => simp [upsert, hx]
  | cons y ys ih =>
      rw [upsert]
      by_cases hy : same y x = true
      · have hpy : p y = false := by rw [hsame y hy, hx]
        simp [hy, hx, hpy]
      · simp [hy, List.filter_cons, ih]

/-- An entry which is kept is put among those which are kept. -/
theorem filter_upsert_of_pos (hx : p x = true)
    (hsame : ∀ y, same y x = true → p y = p x) (ys : List α) :
    (upsert same x ys).filter p = upsert same x (ys.filter p) := by
  induction ys with
  | nil => simp [upsert, hx]
  | cons y ys ih =>
      rw [upsert]
      by_cases hy : same y x = true
      · have hpy : p y = true := by rw [hsame y hy, hx]
        simp [hy, hx, hpy, upsert]
      · by_cases hpy : p y = true
        · simp [hy, hpy, upsert, ih]
        · simp [hy, hpy, ih]

theorem unwinds_upsert
    (hsame : ∀ x y, same y x = true → p y = p x) :
    Unwinds (fun ys x => upsert same x ys) (List.filter p) := by
  intro ys zs x hview
  cases hx : p x with
  | false =>
      rw [filter_upsert_of_neg hx (hsame x),
        filter_upsert_of_neg hx (hsame x), hview]
  | true =>
      rw [filter_upsert_of_pos hx (hsame x),
        filter_upsert_of_pos hx (hsame x), hview]

end Upsert

end VynxHttp.Unwinding
