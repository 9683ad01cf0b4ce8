import Mathlib.Data.List.Nodup
import Mathlib.Data.List.Count
import Mathlib.Tactic.Common

/-!
# Tables with one value for each key

A table is a list of rows without repeated keys, in the order in which its
owner would go through them.  `set` writes the value of one key, `mapValues`
writes them all, and `count` is the number of values with a property.
-/

namespace VynxHttp

structure KeyedTable (κ β : Type*) where
  rows : List (κ × β)
  nodup : (rows.map Prod.fst).Nodup

namespace KeyedTable

variable {κ β γ : Type*}

def empty : KeyedTable κ β := ⟨[], List.nodup_nil⟩

def values (table : KeyedTable κ β) : List β := table.rows.map Prod.snd

def count (p : β → Bool) (table : KeyedTable κ β) : ℕ :=
  table.values.countP p

def mapValues (f : β → β) (table : KeyedTable κ β) : KeyedTable κ β where
  rows := table.rows.map fun row => (row.1, f row.2)
  nodup := by
    rw [List.map_map]
    exact table.nodup

variable [DecidableEq κ]

def find? (table : KeyedTable κ β) (key : κ) : Option β :=
  (table.rows.find? fun row => row.1 = key).map Prod.snd

def replaceRow (key : κ) (x : β) (row : κ × β) : κ × β :=
  if row.1 = key then (key, x) else row

theorem map_fst_replaceRow (key : κ) (x : β) (rows : List (κ × β)) :
    (rows.map (replaceRow key x)).map Prod.fst = rows.map Prod.fst := by
  rw [List.map_map]
  refine List.map_congr_left fun row _ => ?_
  unfold replaceRow
  by_cases hkey : row.1 = key
  · simp [hkey]
  · simp [hkey]

def set (table : KeyedTable κ β) (key : κ) (x : β) : KeyedTable κ β :=
  if hkey : key ∈ table.rows.map Prod.fst then
    ⟨table.rows.map (replaceRow key x), by
      rw [map_fst_replaceRow]
      exact table.nodup⟩
  else
    ⟨table.rows ++ [(key, x)], by
      rw [List.map_append, List.map_singleton]
      exact List.nodup_append.mpr ⟨table.nodup, List.nodup_singleton _, by
        intro key' hkey' other hother
        rw [List.mem_singleton] at hother
        rintro rfl
        rw [hother] at hkey'
        exact hkey hkey'⟩⟩

def erase (table : KeyedTable κ β) (key : κ) : KeyedTable κ β where
  rows := table.rows.filter fun row => row.1 ≠ key
  nodup := table.nodup.sublist (List.filter_sublist.map Prod.fst)

/-! ## Rows -/

variable {table : KeyedTable κ β} {key key' : κ} {x y : β}

theorem find?_of_mem {rows : List (κ × β)}
    (hnodup : (rows.map Prod.fst).Nodup) (hmem : (key, x) ∈ rows) :
    rows.find? (fun row => row.1 = key) = some (key, x) := by
  induction rows with
  | nil => simp at hmem
  | cons row rows ih =>
      rw [List.map_cons, List.nodup_cons] at hnodup
      rcases List.mem_cons.mp hmem with rfl | hlater
      · simp
      · have hin : key ∈ rows.map Prod.fst :=
          List.mem_map.mpr ⟨_, hlater, rfl⟩
        have hne : row.1 ≠ key := by
          rintro rfl
          exact hnodup.1 hin
        rw [List.find?_cons_of_neg (by simpa using hne)]
        exact ih hnodup.2 hlater

theorem find?_eq_some_iff :
    table.find? key = some x ↔ (key, x) ∈ table.rows := by
  constructor
  · intro hfind
    obtain ⟨row, hrow, rfl⟩ := Option.map_eq_some_iff.mp hfind
    have hkey : row.1 = key := by simpa using List.find?_some hrow
    rw [← hkey]
    exact List.mem_of_find?_eq_some hrow
  · intro hmem
    rw [find?, find?_of_mem table.nodup hmem]
    rfl

theorem mem_rows_set :
    (key', y) ∈ (table.set key x).rows ↔
      key' = key ∧ y = x ∨ key' ≠ key ∧ (key', y) ∈ table.rows := by
  unfold set
  split
  next hin =>
    simp only [List.mem_map, replaceRow]
    constructor
    · rintro ⟨row, hrow, hsame⟩
      by_cases hkey : row.1 = key
      · rw [if_pos hkey, Prod.mk.injEq] at hsame
        exact .inl ⟨hsame.1.symm, hsame.2.symm⟩
      · rw [if_neg hkey] at hsame
        subst hsame
        exact .inr ⟨hkey, hrow⟩
    · rintro (⟨rfl, rfl⟩ | ⟨hne, hmem⟩)
      · obtain ⟨row, hrow, hkey⟩ := List.mem_map.mp hin
        exact ⟨row, hrow, if_pos hkey⟩
      · exact ⟨_, hmem, if_neg hne⟩
  next hout =>
    simp only [List.mem_append, List.mem_singleton, Prod.mk.injEq]
    constructor
    · rintro (hmem | hsame)
      · refine .inr ⟨?_, hmem⟩
        rintro rfl
        exact hout (List.mem_map.mpr ⟨_, hmem, rfl⟩)
      · exact .inl hsame
    · rintro (hsame | ⟨_, hmem⟩)
      · exact .inr hsame
      · exact .inl hmem

/-- What is found after a write is what has been written, or it is another
key's. -/
theorem find?_set_eq_some_iff :
    (table.set key x).find? key' = some y ↔
      key' = key ∧ y = x ∨ key' ≠ key ∧ table.find? key' = some y := by
  rw [find?_eq_some_iff, mem_rows_set, find?_eq_some_iff]

@[simp] theorem find?_set (table : KeyedTable κ β) (key : κ) (x : β) :
    (table.set key x).find? key = some x :=
  find?_set_eq_some_iff.mpr (.inl ⟨rfl, rfl⟩)

theorem find?_set_of_ne (hne : key' ≠ key) (x : β) :
    (table.set key x).find? key' = table.find? key' := by
  refine Option.ext fun y => ?_
  rw [find?_set_eq_some_iff]
  simp [hne]

theorem find?_mapValues (f : β → β) :
    (table.mapValues f).find? key = (table.find? key).map f := by
  refine Option.ext fun y => ?_
  rw [find?_eq_some_iff, Option.map_eq_some_iff]
  simp only [mapValues, List.mem_map, Prod.mk.injEq, find?_eq_some_iff]
  constructor
  · rintro ⟨row, hrow, rfl, rfl⟩
    exact ⟨row.2, hrow, rfl⟩
  · rintro ⟨x, hrow, rfl⟩
    exact ⟨_, hrow, rfl, rfl⟩

theorem mem_rows_erase :
    (key', y) ∈ (table.erase key).rows ↔
      key' ≠ key ∧ (key', y) ∈ table.rows := by
  simp [erase, and_comm]

@[simp] theorem find?_erase (table : KeyedTable κ β) (key : κ) :
    (table.erase key).find? key = none := by
  rw [Option.eq_none_iff_forall_ne_some]
  intro y hy
  exact (mem_rows_erase.mp (find?_eq_some_iff.mp hy)).1 rfl

theorem find?_erase_of_ne (hne : key' ≠ key) :
    (table.erase key).find? key' = table.find? key' := by
  refine Option.ext fun y => ?_
  rw [find?_eq_some_iff, mem_rows_erase, find?_eq_some_iff]
  simp [hne]

theorem find?_of_find?_erase (hfind : (table.erase key).find? key' = some x) :
    table.find? key' = some x :=
  find?_eq_some_iff.mpr (mem_rows_erase.mp (find?_eq_some_iff.mp hfind)).2

theorem erase_of_none (hnone : table.find? key = none) :
    table.erase key = table := by
  have hrows : (table.erase key).rows = table.rows := by
    refine List.filter_eq_self.mpr fun row hrow => ?_
    have hne : row.1 ≠ key := by
      rintro rfl
      have hfind : table.find? row.1 = some row.2 := find?_eq_some_iff.mpr hrow
      rw [hnone] at hfind
      cases hfind
    simpa using hne
  cases table
  rw [KeyedTable.mk.injEq]
  exact hrows

theorem mem_values : x ∈ table.values ↔ ∃ key, table.find? key = some x := by
  simp only [values, List.mem_map, find?_eq_some_iff]
  constructor
  · rintro ⟨row, hrow, rfl⟩
    exact ⟨row.1, hrow⟩
  · rintro ⟨key, hrow⟩
    exact ⟨_, hrow, rfl⟩

/-! ## Counting -/

def size (table : KeyedTable κ β) : ℕ := table.rows.length

omit [DecidableEq κ] in
theorem size_eq_count (table : KeyedTable κ β) :
    table.size = table.count fun _ => true := by
  simp [size, count, values]

theorem countP_replaceRow (p : β → Bool) {rows : List (κ × β)}
    (hnodup : (rows.map Prod.fst).Nodup) (hmem : (key, y) ∈ rows) (x : β) :
    ((rows.map (replaceRow key x)).map Prod.snd).countP p +
        (p y).toNat =
      (rows.map Prod.snd).countP p + (p x).toNat := by
  induction rows with
  | nil => simp at hmem
  | cons row rows ih =>
      rw [List.map_cons, List.nodup_cons] at hnodup
      rcases List.mem_cons.mp hmem with rfl | hlater
      · have hrest : rows.map (replaceRow key x) = rows.map fun row => row := by
          refine List.map_congr_left fun row hrow => if_neg ?_
          intro hkey
          exact hnodup.1 (List.mem_map.mpr ⟨row, hrow, hkey⟩)
        rw [List.map_cons, hrest, List.map_id']
        cases hx : p x <;> cases hy : p y <;> simp [replaceRow, hx, hy]
      · have hin : key ∈ rows.map Prod.fst :=
          List.mem_map.mpr ⟨_, hlater, rfl⟩
        have hne : row.1 ≠ key := by
          rintro rfl
          exact hnodup.1 hin
        have hrow : replaceRow key x row = row := if_neg hne
        have hrest := ih hnodup.2 hlater
        simp only [List.map_cons, hrow, List.countP_cons]
        omega

/-- Writing a value counts it in place of the one which it replaces. -/
theorem count_set (p : β → Bool) (table : KeyedTable κ β) (key : κ)
    (x : β) :
    (table.set key x).count p + ((table.find? key).any p).toNat =
      table.count p + (p x).toNat := by
  unfold set
  split
  next hin =>
    obtain ⟨row, hrow, rfl⟩ := List.mem_map.mp hin
    have hfind : table.find? row.1 = some row.2 :=
      find?_eq_some_iff.mpr hrow
    rw [hfind]
    exact countP_replaceRow p table.nodup hrow x
  next hout =>
    have hfind : table.find? key = none := by
      rw [Option.eq_none_iff_forall_ne_some]
      intro y hy
      exact hout (List.mem_map.mpr ⟨_, find?_eq_some_iff.mp hy, rfl⟩)
    rw [hfind]
    cases hx : p x <;> simp [count, values, hx]

theorem countP_eraseRow (p : β → Bool) {rows : List (κ × β)}
    (hnodup : (rows.map Prod.fst).Nodup) (hmem : (key, y) ∈ rows) :
    ((rows.filter fun row => row.1 ≠ key).map Prod.snd).countP p +
        (p y).toNat = (rows.map Prod.snd).countP p := by
  induction rows with
  | nil => simp at hmem
  | cons row rows ih =>
      rw [List.map_cons, List.nodup_cons] at hnodup
      have hin : ∀ z, (row.1, z) ∉ rows := fun z hz =>
        hnodup.1 (List.mem_map.mpr ⟨_, hz, rfl⟩)
      rcases List.mem_cons.mp hmem with rfl | hlater
      · have hrest : rows.filter (fun row => row.1 ≠ key) = rows := by
          refine List.filter_eq_self.mpr fun row hrow => ?_
          have hne : row.1 ≠ key := by
            rintro rfl
            exact hin row.2 hrow
          simpa using hne
        rw [List.filter_cons_of_neg (by simp), hrest, List.map_cons,
          List.countP_cons]
        cases p y <;> simp
      · have hne : row.1 ≠ key := by
          rintro rfl
          exact hin y hlater
        have hrest := ih hnodup.2 hlater
        rw [List.filter_cons_of_pos (by simpa using hne)]
        simp only [List.map_cons, List.countP_cons]
        omega

/-- A value which is erased is not counted any more. -/
theorem count_erase (p : β → Bool) (table : KeyedTable κ β) (key : κ) :
    (table.erase key).count p + ((table.find? key).any p).toNat =
      table.count p := by
  cases hfind : table.find? key with
  | none =>
      rw [erase_of_none hfind]
      rfl
  | some x =>
      exact countP_eraseRow p table.nodup (find?_eq_some_iff.mp hfind)

theorem size_set_of_none (hnone : table.find? key = none) (x : β) :
    (table.set key x).size = table.size + 1 := by
  have hcount := count_set (fun _ => true) table key x
  rw [hnone] at hcount
  rw [size_eq_count, size_eq_count]
  simpa using hcount

theorem size_erase_le (table : KeyedTable κ β) (key : κ) :
    (table.erase key).size ≤ table.size :=
  List.length_filter_le _ _

theorem size_erase_of_some (hfind : table.find? key = some x) :
    (table.erase key).size < table.size := by
  have hmem := find?_eq_some_iff.mp hfind
  refine Nat.lt_of_le_of_ne (table.size_erase_le key) fun hsame => ?_
  have hall := List.length_filter_eq_length_iff.mp hsame _ hmem
  simp at hall

omit [DecidableEq κ] in
theorem count_mapValues (p : β → Bool) (f : β → β)
    (table : KeyedTable κ β) :
    (table.mapValues f).count p = table.count fun x => p (f x) := by
  simp only [count, values, mapValues, List.map_map]
  have hvalues : Prod.snd ∘ (fun row : κ × β => (row.1, f row.2)) =
      f ∘ Prod.snd := rfl
  rw [hvalues, ← List.map_map, List.countP_map]
  rfl

omit [DecidableEq κ] in
/-- Values are counted with or without a second property. -/
theorem count_and_add_count (p q : β → Bool) (table : KeyedTable κ β) :
    (table.count fun x => p x && q x) + (table.count fun x => p x && !q x) =
      table.count p := by
  unfold count
  induction table.values with
  | nil => rfl
  | cons x xs ih =>
      simp only [List.countP_cons]
      cases hp : p x <;> cases hq : q x <;> simp <;> omega

end KeyedTable

end VynxHttp
