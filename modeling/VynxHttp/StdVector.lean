import Mathlib.Order.Lattice
import Mathlib.Order.Nat
import Mathlib.Tactic.Common

/-!
# Vectors and references into them

A vector keeps its elements in a block of storage.  `pushBack` beyond the
capacity moves them to a new block, whose capacity the `growth` of the vector
chooses, and a reference into the old block denotes nothing any more: `read`
of it is `none`.
-/

namespace VynxHttp

/-- `storage` counts the blocks which the vector has left behind. -/
structure StdVector (α : Type*) where
  elems : List α
  capacity : ℕ
  growth : ℕ → ℕ
  storage : ℕ
  length_le : elems.length ≤ capacity

namespace StdVector

variable {α : Type*}

/-- A reference to the element at `index` of a block. -/
structure Ref where
  storage : ℕ
  index : ℕ
  deriving DecidableEq, Repr

def empty (growth : ℕ → ℕ) : StdVector α where
  elems := []
  capacity := 0
  growth := growth
  storage := 0
  length_le := le_rfl

def size (v : StdVector α) : ℕ := v.elems.length

/-- The elements which still fit into the block. -/
def spare (v : StdVector α) : ℕ := v.capacity - v.size

def pushBack (v : StdVector α) (x : α) : StdVector α :=
  if hroom : v.size < v.capacity then
    { v with
      elems := v.elems ++ [x]
      length_le := by
        rw [List.length_append]
        exact hroom }
  else
    { v with
      elems := v.elems ++ [x]
      capacity := max (v.size + 1) (v.growth v.size)
      storage := v.storage + 1
      length_le := by
        rw [List.length_append]
        exact le_max_left _ _ }

def modify (v : StdVector α) (index : ℕ) (f : α → α) : StdVector α :=
  { v with
    elems := v.elems.modify index f
    length_le := by simpa using v.length_le }

/-- `erase` from `remove_if` on. -/
def removeIf (v : StdVector α) (p : α → Bool) : StdVector α :=
  { v with
    elems := v.elems.filter fun x => !p x
    length_le := le_trans (List.length_filter_le _ _) v.length_le }

/-! ## References -/

/-- What a loop over the vector goes through. -/
def refs (v : StdVector α) : List Ref :=
  (List.range v.size).map fun index => ⟨v.storage, index⟩

def read (v : StdVector α) (ref : Ref) : Option α :=
  if ref.storage = v.storage then v.elems[ref.index]? else none

variable (v : StdVector α)

@[simp] theorem elems_empty (growth : ℕ → ℕ) :
    (empty growth : StdVector α).elems = [] := rfl

@[simp] theorem elems_pushBack (x : α) :
    (v.pushBack x).elems = v.elems ++ [x] := by
  unfold pushBack
  split <;> rfl

@[simp] theorem elems_modify (index : ℕ) (f : α → α) :
    (v.modify index f).elems = v.elems.modify index f := rfl

@[simp] theorem size_modify (index : ℕ) (f : α → α) :
    (v.modify index f).size = v.size := by
  simp [size]

@[simp] theorem spare_modify (index : ℕ) (f : α → α) :
    (v.modify index f).spare = v.spare := by
  simp [spare, modify, size]

theorem capacity_pushBack (hroom : 0 < v.spare) (x : α) :
    (v.pushBack x).capacity = v.capacity := by
  have hlt : v.size < v.capacity := by
    simp only [spare] at hroom
    omega
  unfold pushBack
  split
  next => rfl
  next hfull => exact absurd hlt hfull

theorem spare_pushBack (hroom : 0 < v.spare) (x : α) :
    (v.pushBack x).spare = v.spare - 1 := by
  simp only [spare, v.capacity_pushBack hroom, size, elems_pushBack,
    List.length_append, List.length_cons, List.length_nil]
  omega

/-- Elements stay where they are as long as there is room. -/
theorem storage_pushBack_eq_iff (x : α) :
    (v.pushBack x).storage = v.storage ↔ 0 < v.spare := by
  unfold pushBack spare
  split
  next hroom => exact iff_of_true rfl (Nat.sub_pos_of_lt hroom)
  next hfull =>
    refine iff_of_false (Nat.succ_ne_self _) ?_
    omega

theorem storage_le_pushBack (x : α) :
    v.storage ≤ (v.pushBack x).storage := by
  unfold pushBack
  split
  next => exact le_rfl
  next => exact Nat.le_succ _

theorem read_of_eq {storage : ℕ} (hstorage : storage = v.storage)
    (index : ℕ) : v.read ⟨storage, index⟩ = v.elems[index]? := by
  simp [read, hstorage]

theorem read_of_ne {storage : ℕ} (hstorage : storage ≠ v.storage)
    (index : ℕ) : v.read ⟨storage, index⟩ = none := by
  simp [read, hstorage]

end StdVector

end VynxHttp
