import Mathlib.Data.List.Basic
import Mathlib.Data.List.Perm.Basic
import Mathlib.Tactic.Common

/-!
# Interleaved lists

Two lists are interleaved by taking their elements in turns until one of them
is used up, and then the rest of the other.  A loop over the indices of the
longer list, which takes an element of either list where there is one, does the
same.
-/

namespace VynxHttp.Interleaving

variable {α : Type*}

def interleave : List α → List α → List α
  | [], ys => ys
  | xs, [] => xs
  | x :: xs, y :: ys => x :: y :: interleave xs ys

@[simp] theorem interleave_nil_left (ys : List α) :
    interleave [] ys = ys := by
  unfold interleave
  rfl

@[simp] theorem interleave_nil_right (xs : List α) :
    interleave xs [] = xs := by
  cases xs <;> rfl

@[simp] theorem interleave_cons_cons (x y : α) (xs ys : List α) :
    interleave (x :: xs) (y :: ys) = x :: y :: interleave xs ys :=
  rfl

/-- The lists have all of what is interleaved. -/
theorem interleave_perm (xs ys : List α) :
    (interleave xs ys).Perm (xs ++ ys) := by
  induction xs generalizing ys with
  | nil => simp
  | cons x xs ih =>
      cases ys with
      | nil => simp
      | cons y ys =>
          rw [interleave_cons_cons, List.cons_append]
          refine List.Perm.cons x ?_
          have hrest : (y :: interleave xs ys).Perm (y :: (xs ++ ys)) :=
            (ih ys).cons y
          exact hrest.trans List.perm_middle.symm

/-- A property which all elements of one list have and none of the other one
selects the first, whichever of the two comes first. -/
theorem filter_interleave {p : α → Bool} {b : Bool} {xs ys : List α}
    (hxs : ∀ x ∈ xs, p x = b) (hys : ∀ y ∈ ys, p y = !b) :
    (interleave xs ys).filter p = bif b then xs else ys := by
  have hone : ∀ {c : Bool} {zs : List α}, (∀ z ∈ zs, p z = c) →
      zs.filter p = bif c then zs else [] := by
    intro c zs hzs
    cases c with
    | false =>
        rw [cond_false, List.filter_eq_nil_iff]
        intro z hz
        simp [hzs z hz]
    | true => exact List.filter_eq_self.mpr hzs
  induction xs generalizing ys with
  | nil =>
      rw [interleave_nil_left, hone hys]
      cases b <;> rfl
  | cons x xs ih =>
      cases ys with
      | nil => rw [interleave_nil_right, hone hxs]
      | cons y ys =>
          rw [List.forall_mem_cons] at hxs hys
          rw [interleave_cons_cons, List.filter_cons, List.filter_cons,
            ih hxs.2 hys.2, hxs.1, hys.1]
          cases b <;> rfl

/-- As long as both lists last, they take turns. -/
theorem getElem?_interleave {xs ys : List α} {i : ℕ}
    (hxs : i < xs.length) (hys : i < ys.length) :
    (interleave xs ys)[2 * i]? = xs[i]? ∧
      (interleave xs ys)[2 * i + 1]? = ys[i]? := by
  induction i generalizing xs ys with
  | zero =>
      cases xs with
      | nil => simp at hxs
      | cons x xs =>
          cases ys with
          | nil => simp at hys
          | cons y ys => simp
  | succ i ih =>
      cases xs with
      | nil => simp at hxs
      | cons x xs =>
          cases ys with
          | nil => simp at hys
          | cons y ys =>
              have hrest := ih (Nat.lt_of_succ_lt_succ hxs)
                (Nat.lt_of_succ_lt_succ hys)
              have hdouble : 2 * (i + 1) = 2 * i + 1 + 1 := by omega
              rw [hdouble, interleave_cons_cons]
              simpa using hrest

/-- What follows is what is left of the longer list. -/
theorem drop_interleave (xs ys : List α) :
    (interleave xs ys).drop (2 * min xs.length ys.length) =
      xs.drop ys.length ++ ys.drop xs.length := by
  induction xs generalizing ys with
  | nil => simp
  | cons x xs ih =>
      cases ys with
      | nil => simp
      | cons y ys =>
          have hdouble : 2 * min (x :: xs).length (y :: ys).length =
              2 * min xs.length ys.length + 1 + 1 := by
            simp only [List.length_cons]
            omega
          rw [hdouble, interleave_cons_cons]
          simpa using ih ys

/-! ## The loop -/

/-- `if (i < xs.size()) result.push_back(xs[i])`. -/
def pushAt (xs : List α) (i : ℕ) (result : List α) : List α :=
  if h : i < xs.length then result ++ [xs[i]] else result

theorem pushAt_nil (i : ℕ) (result : List α) :
    pushAt [] i result = result := rfl

theorem pushAt_cons_zero (x : α) (xs result : List α) :
    pushAt (x :: xs) 0 result = result ++ [x] := rfl

theorem pushAt_cons_succ (x : α) (xs : List α) (i : ℕ) (result : List α) :
    pushAt (x :: xs) (i + 1) result = pushAt xs i result := by
  unfold pushAt
  simp

/-- The rounds from the first index on. -/
theorem foldl_pushAt {n : ℕ} {xs ys : List α} (hxs : xs.length ≤ n)
    (hys : ys.length ≤ n) (result : List α) :
    (List.range n).foldl
        (fun result i => pushAt ys i (pushAt xs i result)) result =
      result ++ interleave xs ys := by
  induction n generalizing xs ys result with
  | zero =>
      rw [Nat.le_zero, List.length_eq_zero_iff] at hxs hys
      simp [hxs, hys]
  | succ n ih =>
      rw [List.range_succ_eq_map, List.foldl_cons, List.foldl_map]
      -- The later rounds are those of the tails.
      cases xs with
      | nil =>
          cases ys with
          | nil => simp [pushAt_nil]
          | cons y ys =>
              simp only [pushAt_nil, pushAt_cons_zero, pushAt_cons_succ]
              have hlater := @ih [] ys (Nat.zero_le n)
                (Nat.le_of_succ_le_succ hys) (result ++ [y])
              simp only [pushAt_nil] at hlater
              simpa using hlater
      | cons x xs =>
          have hxs := Nat.le_of_succ_le_succ hxs
          cases ys with
          | nil =>
              simp only [pushAt_nil, pushAt_cons_zero, pushAt_cons_succ]
              have hlater := @ih xs [] hxs (Nat.zero_le n) (result ++ [x])
              simp only [pushAt_nil] at hlater
              simpa using hlater
          | cons y ys =>
              simp only [pushAt_cons_zero, pushAt_cons_succ]
              have hlater := @ih xs ys hxs (Nat.le_of_succ_le_succ hys)
                (result ++ [x] ++ [y])
              simpa using hlater

end VynxHttp.Interleaving
