import Mathlib.Order.Bounds.Basic
import Mathlib.Order.Nat
import Mathlib.Tactic.Common

/-!
# Scans for an index

A loop which counts an index up and returns the first one that passes a test.
The test may be undefined at an index; a scan which comes to such an index is
undefined as well.
-/

namespace VynxHttp.IndexScan

/-- The rounds which are left, and the index of the next one. -/
def scan (test : ℕ → Option Bool) (notFound : ℕ) : ℕ → ℕ → Option ℕ
  | 0, _ => some notFound
  | rounds + 1, i =>
      match test i with
      | none => none
      | some true => some i
      | some false => scan test notFound rounds (i + 1)

/-- The least index with a property from a start on, or `notFound`. -/
def Finds (p : ℕ → Prop) (start notFound result : ℕ) : Prop :=
  IsLeast {i | start ≤ i ∧ p i} result ∨
    result = notFound ∧ ∀ i, start ≤ i → ¬p i

variable {p : ℕ → Prop} {test : ℕ → Option Bool}
  {start notFound result result' rounds : ℕ}

theorem Finds.unique (hfinds : Finds p start notFound result)
    (hfinds' : Finds p start notFound result') : result = result' := by
  rcases hfinds with hleast | ⟨hnot, hnone⟩
  · rcases hfinds' with hleast' | ⟨_, hnone'⟩
    · exact hleast.unique hleast'
    · exact absurd hleast.1.2 (hnone' result hleast.1.1)
  · rcases hfinds' with hleast' | ⟨hnot', _⟩
    · exact absurd hleast'.1.2 (hnone result' hleast'.1.1)
    · exact hnot.trans hnot'.symm

/-- A scan over the indices which may have the property finds the first. -/
theorem scan_finds
    (htest : ∀ i, start ≤ i → i < start + rounds →
      ∃ passed, test i = some passed ∧ (passed = true ↔ p i))
    (hbound : ∀ i, start ≤ i → p i → i < start + rounds) :
    ∃ result, scan test notFound rounds start = some result ∧
      Finds p start notFound result := by
  induction rounds generalizing start with
  | zero =>
      refine ⟨notFound, rfl, .inr ⟨rfl, fun i hi hp => ?_⟩⟩
      have hlt := hbound i hi hp
      omega
  | succ rounds ih =>
      have hfirst := htest start le_rfl (by omega)
      rcases hfirst with ⟨passed, hpassed, hiff⟩
      cases passed with
      | true =>
          refine ⟨start, by simp [scan, hpassed], .inl ⟨?_, ?_⟩⟩
          · exact ⟨le_rfl, hiff.mp rfl⟩
          · exact fun i hi => hi.1
      | false =>
          have hnot : ¬p start := by simpa using hiff
          have hlater := @ih (start + 1)
            (fun i hi hlt => htest i (by omega) (by omega))
            (fun i hi hp => by
              have hlt := hbound i (by omega) hp
              omega)
          rcases hlater with ⟨result, hscan, hfinds⟩
          refine ⟨result, by simpa [scan, hpassed] using hscan, ?_⟩
          -- The start itself is not one of the indices with the property.
          rcases hfinds with ⟨⟨hle, hp⟩, hlower⟩ | ⟨hnotFound, hnone⟩
          · refine .inl ⟨⟨by omega, hp⟩, ?_⟩
            rintro i ⟨hi, hq⟩
            have hne : i ≠ start := by
              rintro rfl
              exact hnot hq
            exact hlower ⟨by omega, hq⟩
          · refine .inr ⟨hnotFound, fun i hi hq => ?_⟩
            have hne : i ≠ start := by
              rintro rfl
              exact hnot hq
            exact hnone i (by omega) hq

end VynxHttp.IndexScan
