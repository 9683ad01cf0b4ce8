import Mathlib.Data.List.TakeWhile
import VynxHttp.FuelLoop

/-!
# Runs between separators

A maximal run is a part of a list, given by its first index and the index
behind it, whose elements all have a property which the elements next to it do
not have.  The loops of this file advance an index over a list which they read
element by element; an index outside the list makes them undefined.  `findRun`
goes from one maximal run of elements which are no separators to the next one,
until one of them passes a test.
-/

namespace VynxHttp.ListRuns

open FuelLoop

variable {α : Type*}

structure MaximalRun (p : α → Bool) (xs : List α) (start stop : ℕ) :
    Prop where
  nonempty : start < stop
  bounded : stop ≤ xs.length
  inside : ∀ i x, start ≤ i → i < stop → xs[i]? = some x → p x = true
  before : ∀ i x, i + 1 = start → xs[i]? = some x → p x = false
  behind : ∀ x, xs[stop]? = some x → p x = false

def slice (xs : List α) (start stop : ℕ) : List α :=
  (xs.drop start).take (stop - start)

theorem getElem?_slice (xs : List α) (start stop i : ℕ) :
    (slice xs start stop)[i]? =
      if i < stop - start then xs[start + i]? else none := by
  rw [slice, List.getElem?_take, List.getElem?_drop]

theorem length_slice {xs : List α} {start stop : ℕ}
    (hbounded : stop ≤ xs.length) :
    (slice xs start stop).length = stop - start := by
  unfold slice
  rw [List.length_take, List.length_drop]
  omega

/-! ## Advancing over elements with a property -/

/-- `while (pos < xs.size() && p(xs[pos])) ++pos`. -/
def advanceRound (p : α → Bool) (xs : List α) (pos : ℕ) :
    Option (Round ℕ ℕ) :=
  if pos < xs.length then
    xs[pos]?.map fun x => if p x then .again (pos + 1) else .leave pos
  else some (.leave pos)

def advance (p : α → Bool) (xs : List α) (pos : ℕ) : Option ℕ :=
  runRanked (advanceRound p xs) (fun pos => xs.length - pos) pos

/-- Where the index stops. -/
structure Advances (p : α → Bool) (xs : List α) (pos stop : ℕ) : Prop where
  le : pos ≤ stop
  bounded : stop ≤ xs.length
  inside : ∀ i x, pos ≤ i → i < stop → xs[i]? = some x → p x = true
  behind : ∀ x, xs[stop]? = some x → p x = false

variable {p : α → Bool} {xs : List α} {pos start stop start' stop' : ℕ}

theorem advanceRound_decreases :
    Decreases (advanceRound p xs) fun pos => xs.length - pos := by
  intro pos next hround
  unfold advanceRound at hround
  split at hround
  next hlt =>
    rcases Option.map_eq_some_iff.mp hround with ⟨x, _, hx⟩
    split at hx
    next =>
      cases hx
      dsimp only
      omega
    next => cases hx
  next => cases hround

theorem advance_meets (hpos : pos ≤ xs.length) :
    ∃ stop, advance p xs pos = some stop ∧ Advances p xs pos stop := by
  refine runRanked_meets advanceRound_decreases
    (fun s => pos ≤ s ∧ s ≤ xs.length ∧
      ∀ i x, pos ≤ i → i < s → xs[i]? = some x → p x = true)
    (Advances p xs pos) ?_ ⟨le_rfl, hpos, fun i _ hle hlt => by omega⟩
  rintro s ⟨hle, hbounded, hinside⟩
  unfold advanceRound
  by_cases hlt : s < xs.length
  · rw [if_pos hlt, List.getElem?_eq_getElem hlt, Option.map_some]
    refine ⟨_, rfl, ?_⟩
    by_cases hx : p xs[s] = true
    · rw [if_pos hx]
      refine ⟨Nat.le_succ_of_le hle, hlt, fun i x hi his hix => ?_⟩
      rcases Nat.lt_succ_iff_lt_or_eq.mp his with hearlier | rfl
      · exact hinside i x hi hearlier hix
      · rw [List.getElem?_eq_getElem hlt, Option.some.injEq] at hix
        rw [← hix]
        exact hx
    · rw [if_neg hx]
      refine ⟨hle, hbounded, hinside, fun x hsx => ?_⟩
      rw [List.getElem?_eq_getElem hlt, Option.some.injEq] at hsx
      rw [← hsx]
      exact Bool.eq_false_iff.mpr hx
  · rw [if_neg hlt]
    refine ⟨_, rfl, hle, hbounded, hinside, fun x hsx => ?_⟩
    rw [List.getElem?_eq_none (Nat.le_of_not_lt hlt)] at hsx
    cases hsx

theorem Advances.all_slice (hadvances : Advances p xs pos stop) :
    ∀ x ∈ slice xs pos stop, p x = true := by
  intro x hx
  rcases List.mem_iff_getElem?.mp hx with ⟨i, hi⟩
  rw [getElem?_slice, Option.ite_none_right_eq_some] at hi
  exact hadvances.inside (pos + i) x (Nat.le_add_right _ _) (by omega) hi.2

theorem slice_append_drop (hle : start ≤ stop) (xs : List α) :
    slice xs start stop ++ xs.drop stop = xs.drop start := by
  have hdrop : xs.drop stop = (xs.drop start).drop (stop - start) := by
    rw [List.drop_drop, Nat.add_sub_cancel' hle]
  unfold slice
  rw [hdrop, List.take_append_drop]

/-- The elements which are passed, and those which are left. -/
theorem Advances.cut (hadvances : Advances p xs pos stop) :
    (xs.drop pos).takeWhile p = slice xs pos stop ∧
      (xs.drop pos).dropWhile p = xs.drop stop := by
  have hrest : ∀ x, (xs.drop stop).head? = some x → p x = false := by
    intro x hx
    rw [List.head?_drop] at hx
    exact hadvances.behind x hx
  rw [← slice_append_drop hadvances.le xs,
    List.takeWhile_append_of_pos hadvances.all_slice,
    List.dropWhile_append_of_pos hadvances.all_slice]
  cases hleft : xs.drop stop with
  | nil => simp
  | cons x rest =>
      rw [hleft] at hrest
      have hx := hrest x rfl
      simp [hx]

/-! ## From one run to the next -/

/-- A round skips separators and takes the run behind them.  The test is
undefined where it reads an element which is not there. -/
def findRound (sep : α → Bool) (xs : List α) (test : ℕ → ℕ → Option Bool)
    (pos : ℕ) : Option (Round ℕ Bool) :=
  if pos < xs.length then
    (advance sep xs pos).bind fun start =>
      if xs.length ≤ start then some (.leave false)
      else
        (advance (fun x => !sep x) xs start).bind fun stop =>
          (test start stop).map fun found =>
            if found then .leave true else .again stop
  else some (.leave false)

def findRun (sep : α → Bool) (xs : List α) (test : ℕ → ℕ → Option Bool)
    (pos : ℕ) : Option Bool :=
  runRanked (findRound sep xs test) (fun pos => xs.length - pos) pos

variable {sep : α → Bool} {test : ℕ → ℕ → Option Bool}

/-- What a round comes to: the end of the list, or a run of elements which are
no separators. -/
inductive RoundCases (sep : α → Bool) (xs : List α) (pos : ℕ) :
    Prop where
  | atEnd (hround : ∀ test : ℕ → ℕ → Option Bool,
        findRound sep xs test pos = some (.leave false))
      (hskip : Advances sep xs pos xs.length)
  | atRun (start stop : ℕ) (hround : ∀ test : ℕ → ℕ → Option Bool,
        findRound sep xs test pos = (test start stop).map fun found =>
          if found then .leave true else .again stop)
      (hskip : Advances sep xs pos start) (hlt : start < stop)
      (htake : Advances (fun x => !sep x) xs start stop)

theorem roundCases (sep : α → Bool) (hpos : pos ≤ xs.length) :
    RoundCases sep xs pos := by
  rcases advance_meets (p := sep) hpos with ⟨start, hstart, hskip⟩
  by_cases hlt : start < xs.length
  · rcases advance_meets (p := fun x => !sep x) hlt.le with
      ⟨stop, hstop, htake⟩
    refine .atRun start stop (fun test => ?_) hskip ?_ htake
    · unfold findRound
      rw [if_pos (Nat.lt_of_le_of_lt hskip.le hlt), hstart, Option.bind_some,
        if_neg (Nat.not_le.mpr hlt), hstop, Option.bind_some]
    · -- The first loop has stopped at an element which the second one takes.
      refine Nat.lt_of_le_of_ne htake.le ?_
      rintro rfl
      have hx := List.getElem?_eq_getElem hlt
      have hsep := hskip.behind _ hx
      have htaken := htake.behind _ hx
      rw [hsep] at htaken
      cases htaken
  · have hend : start = xs.length :=
      Nat.le_antisymm hskip.bounded (Nat.le_of_not_lt hlt)
    refine .atEnd (fun test => ?_) (hend ▸ hskip)
    unfold findRound
    rw [hstart, Option.bind_some, if_pos hend.ge]
    split <;> rfl

theorem findRound_decreases :
    Decreases (findRound sep xs test) fun pos => xs.length - pos := by
  intro pos next hround
  by_cases hlt : pos < xs.length
  · cases roundCases sep hlt.le with
    | atEnd hend hskip =>
        rw [hend] at hround
        cases hround
    | atRun start stop hrun hskip hrun' htake =>
        rw [hrun] at hround
        rcases Option.map_eq_some_iff.mp hround with ⟨found, _, hfound⟩
        split at hfound
        next => cases hfound
        next =>
          cases hfound
          have hle := hskip.le
          have hbounded := htake.bounded
          dsimp only
          omega
  · unfold findRound at hround
    rw [if_neg hlt] at hround
    cases hround

/-! ## All runs are found -/

/-- A run which begins where another one does is the same. -/
theorem MaximalRun.stop_eq (hrun : MaximalRun p xs start stop)
    (hrun' : MaximalRun p xs start stop') : stop = stop' := by
  have hnot : ∀ {a b : ℕ}, MaximalRun p xs start a →
      MaximalRun p xs start b → ¬a < b := by
    intro a b ha hb hlt
    have hx := List.getElem?_eq_getElem (Nat.lt_of_lt_of_le hlt hb.bounded)
    have hin := hb.inside a _ ha.nonempty.le hlt hx
    rw [ha.behind _ hx] at hin
    cases hin
  have hle := Nat.le_of_not_lt (hnot hrun hrun')
  have hge := Nat.le_of_not_lt (hnot hrun' hrun)
  exact Nat.le_antisymm hge hle

theorem MaximalRun.getElem (hrun : MaximalRun p xs start stop) :
    ∃ x, xs[start]? = some x ∧ p x = true := by
  have hlt := Nat.lt_of_lt_of_le hrun.nonempty hrun.bounded
  have hx := List.getElem?_eq_getElem hlt
  exact ⟨_, hx, hrun.inside start _ le_rfl hrun.nonempty hx⟩

/-- No run begins among separators. -/
theorem Advances.not_between (hskip : Advances sep xs pos start)
    (hrun : MaximalRun (fun x => !sep x) xs start' stop')
    (hpos : pos ≤ start') : start ≤ start' := by
  by_contra hlt
  rcases hrun.getElem with ⟨x, hx, hout⟩
  have hsep := hskip.inside start' x hpos (Nat.lt_of_not_le hlt) hx
  rw [hsep] at hout
  cases hout

/-- What the loop knows between its rounds: it stands at a separator or at one
of the ends, and no run which has begun before passes the test. -/
structure Searched (sep : α → Bool) (xs : List α) (Q : ℕ → ℕ → Prop)
    (pos : ℕ) : Prop where
  bounded : pos ≤ xs.length
  boundary : ∀ x, 0 < pos → xs[pos]? = some x → sep x = true
  none : ∀ start stop, MaximalRun (fun x => !sep x) xs start stop →
    start < pos → ¬Q start stop

variable {Q : ℕ → ℕ → Prop}

theorem Searched.maximalRun (hsearched : Searched sep xs Q pos)
    (hskip : Advances sep xs pos start) (hlt : start < stop)
    (htake : Advances (fun x => !sep x) xs start stop) :
    MaximalRun (fun x => !sep x) xs start stop := by
  refine ⟨hlt, htake.bounded, htake.inside, ?_, htake.behind⟩
  intro i x hi hx
  have hsep : sep x = true := by
    by_cases hle : pos ≤ i
    · exact hskip.inside i x hle (by omega) hx
    · -- Nothing has been skipped, so the element at the start is a separator.
      have hsame : pos = start := by
        have hle' := hskip.le
        omega
      have hstart := List.getElem?_eq_getElem
        (Nat.lt_of_lt_of_le hlt htake.bounded)
      have hout := htake.inside start _ le_rfl hlt hstart
      rw [hsearched.boundary _ (by omega) (hsame ▸ hstart)] at hout
      cases hout
  simp [hsep]

/-- The run of a round is the only one which begins in it. -/
theorem Advances.run_eq (hskip : Advances sep xs pos start)
    (htake : Advances (fun x => !sep x) xs start stop)
    (hrun : MaximalRun (fun x => !sep x) xs start stop)
    (hrun' : MaximalRun (fun x => !sep x) xs start' stop')
    (hpos : pos ≤ start') (hlt : start' < stop) :
    start' = start ∧ stop' = stop := by
  have hge := hskip.not_between hrun' hpos
  have hstart : start' = start := by
    by_contra hne
    have hbefore : start' - 1 + 1 = start' := by omega
    have hx := List.getElem?_eq_getElem
      (show start' - 1 < xs.length by
        have hbounded := htake.bounded
        omega)
    have hin := htake.inside (start' - 1) _ (by omega) (by omega) hx
    have hout := hrun'.before (start' - 1) _ hbefore hx
    rw [hout] at hin
    cases hin
  subst hstart
  exact ⟨rfl, hrun'.stop_eq hrun⟩

/-- Where the test decides a condition on maximal runs, the loop ends and tells
whether a run meets it. -/
theorem findRun_meets
    (htest : ∀ start stop, MaximalRun (fun x => !sep x) xs start stop →
      ∃ found, test start stop = some found ∧ (found = true ↔ Q start stop)) :
    ∃ found, findRun sep xs test 0 = some found ∧
      (found = true ↔ ∃ start stop,
        MaximalRun (fun x => !sep x) xs start stop ∧ Q start stop) := by
  refine runRanked_meets findRound_decreases (Searched sep xs Q) _ ?_
    ⟨Nat.zero_le _, fun _ hlt => absurd hlt (Nat.lt_irrefl 0),
      fun _ _ _ hlt => absurd hlt (Nat.not_lt_zero _)⟩
  intro pos hsearched
  cases roundCases sep hsearched.bounded with
  | atEnd hround hskip =>
      refine ⟨_, hround test, iff_of_false Bool.false_ne_true ?_⟩
      rintro ⟨start, stop, hrun, hq⟩
      by_cases hearlier : start < pos
      · exact hsearched.none start stop hrun hearlier hq
      · have hge := hskip.not_between hrun (Nat.le_of_not_lt hearlier)
        have hlt := Nat.lt_of_lt_of_le hrun.nonempty hrun.bounded
        omega
  | atRun start stop hround hskip hlt htake =>
      have hrun := hsearched.maximalRun hskip hlt htake
      rcases htest start stop hrun with ⟨found, hfound, hiff⟩
      refine ⟨_, (hround test).trans (congrArg _ hfound), ?_⟩
      cases found with
      | true =>
          exact iff_of_true rfl ⟨start, stop, hrun, hiff.mp rfl⟩
      | false =>
          refine ⟨htake.bounded, fun x _ hx => ?_, ?_⟩
          · simpa using htake.behind x hx
          · intro start' stop' hrun' hbefore hq
            by_cases hearlier : start' < pos
            · exact hsearched.none start' stop' hrun' hearlier hq
            · rcases hskip.run_eq htake hrun hrun'
                (Nat.le_of_not_lt hearlier) hbefore with ⟨rfl, rfl⟩
              exact Bool.false_ne_true (hiff.mpr hq)

end VynxHttp.ListRuns
