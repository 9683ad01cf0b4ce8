import Mathlib.Data.List.TakeWhile

/-!
# Tokens of a list

A list is cut at its separators.  `anyToken` says whether a cut-out token has a
property, and it does not depend on how many separators stand in a row, nor on
those at the ends.
-/

namespace VynxHttp

variable {α : Type*} (p : α → Bool) (q : List α → Bool)

/-- Whether one of the tokens of a list has a property.  The property is not
one of the empty token. -/
def anyToken (xs : List α) : Bool := (xs.splitOnP p).any q

variable {p q}

theorem anyToken_append_cons {sep : α} (hsep : p sep = true)
    (xs ys : List α) :
    anyToken p q (xs ++ sep :: ys) = (anyToken p q xs || anyToken p q ys) := by
  rw [anyToken, List.splitOnP_append_cons xs ys hsep, List.any_append]
  rfl

theorem anyToken_nil (hq : q [] = false) : anyToken p q [] = false := by
  simp [anyToken, hq]

theorem anyToken_cons (hq : q [] = false) {sep : α} (hsep : p sep = true)
    (xs : List α) : anyToken p q (sep :: xs) = anyToken p q xs := by
  have hcut := anyToken_append_cons (q := q) hsep [] xs
  rwa [anyToken_nil hq, Bool.false_or] at hcut

theorem anyToken_separators (hq : q [] = false) {xs : List α}
    (hxs : ∀ x ∈ xs, p x = true) : anyToken p q xs = false := by
  induction xs with
  | nil => exact anyToken_nil hq
  | cons x xs ih =>
      rw [anyToken_cons hq (hxs x (List.mem_cons_self ..))]
      exact ih fun y hy => hxs y (List.mem_cons_of_mem _ hy)

theorem anyToken_separators_append (hq : q [] = false) {seps : List α}
    (hseps : ∀ x ∈ seps, p x = true) (xs : List α) :
    anyToken p q (seps ++ xs) = anyToken p q xs := by
  induction seps with
  | nil => rfl
  | cons sep seps ih =>
      rw [List.cons_append,
        anyToken_cons hq (hseps sep (List.mem_cons_self ..))]
      exact ih fun x hx => hseps x (List.mem_cons_of_mem _ hx)

theorem anyToken_append_separators (hq : q [] = false) {seps : List α}
    (hseps : ∀ x ∈ seps, p x = true) (xs : List α) :
    anyToken p q (xs ++ seps) = anyToken p q xs := by
  cases seps with
  | nil => rw [List.append_nil]
  | cons sep seps =>
      rw [anyToken_append_cons (hseps sep (List.mem_cons_self ..)),
        anyToken_separators hq fun x hx =>
          hseps x (List.mem_cons_of_mem _ hx), Bool.or_false]

/-- The first token of a list which does not begin with a separator, and the
others. -/
theorem anyToken_eq_takeWhile_or (hq : q [] = false) (xs : List α) :
    anyToken p q xs =
      (q (xs.takeWhile fun x => !p x) ||
        anyToken p q (xs.dropWhile fun x => !p x)) := by
  have htoken : ∀ x ∈ xs.takeWhile fun x => !p x, p x = false := by
    intro x hx
    simpa using List.mem_takeWhile_imp hx
  cases hrest : xs.dropWhile fun x => !p x with
  | nil =>
      have hall := List.takeWhile_append_dropWhile (p := fun x => !p x) (l := xs)
      rw [hrest, List.append_nil] at hall
      rw [anyToken_nil hq, Bool.or_false, anyToken, ← hall,
        List.splitOnP_eq_singleton htoken]
      simp [hall]
  | cons sep rest =>
      have hsep : p sep = true := by
        have hhead := List.head?_dropWhile_not (fun x => !p x) xs
        rw [hrest] at hhead
        simpa using hhead
      have hall := List.takeWhile_append_dropWhile (p := fun x => !p x) (l := xs)
      rw [hrest] at hall
      rw [anyToken_cons hq hsep, anyToken, ← hall,
        List.splitOnP_append_cons_of_forall_mem htoken sep hsep]
      simp [hall, anyToken]

end VynxHttp
