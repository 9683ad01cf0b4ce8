import VynxHttp.ByteQueue

/-!
# The doubling loop

`grow` doubles the capacity of a buffer until it is enough.  With the
arithmetic of `size_t` the loop ends for every buffer which has storage, as
long as the sum which it compares with stays below two to the power of 63.  A
buffer without storage stays without it.
-/

namespace VynxHttp

namespace ByteBuffer

variable {buffer : ByteBuffer} {additional : ℕ}

/-! ## Moves -/

/-- The new buffer, and what is left of the other one. -/
def moveConstruct (other : ByteBuffer) : ByteBuffer × ByteBuffer :=
  (other, movedFrom)

/-- `a = std::move(b)` for two buffers, whatever `a` has been. -/
def moveAssign (_buffer other : ByteBuffer) : ByteBuffer × ByteBuffer :=
  (other, movedFrom)

/-! ## The loop -/

/-- The loop is not entered, or it is left with a capacity which is enough. -/
def GrowthEnds (buffer : ByteBuffer) (additional : ℕ) : Prop :=
  buffer.available < additional →
    ∃ fuel newCapacity,
      doubleUntil64 ((buffer.writePos + additional) % sizeModulus) fuel
          buffer.capacity = some newCapacity ∧
        buffer.writePos + additional ≤ newCapacity

/-- Every round adds at least one byte, and a capacity which is too small can
be doubled without wrapping around. -/
theorem doubleUntil64_ends {required fuel capacity : ℕ}
    (hpositive : 0 < capacity) (hsmall : required < 2 ^ 63)
    (hfuel : required - capacity < fuel) :
    ∃ newCapacity,
      doubleUntil64 required fuel capacity = some newCapacity ∧
        required ≤ newCapacity := by
  induction fuel generalizing capacity with
  | zero => omega
  | succ fuel ih =>
      by_cases hlt : capacity < required
      · have hmod : capacity * 2 % sizeModulus = capacity * 2 := by
          unfold sizeModulus
          omega
        have hdouble : 0 < capacity * 2 := by omega
        have hless : required - capacity * 2 < fuel := by omega
        rcases ih hdouble hless with ⟨newCapacity, hloop, hrequired⟩
        refine ⟨newCapacity, ?_, hrequired⟩
        rw [doubleUntil64, if_pos hlt, hmod]
        exact hloop
      · refine ⟨capacity, ?_, Nat.le_of_not_lt hlt⟩
        rw [doubleUntil64, if_neg hlt]

/-- Twice nothing is nothing. -/
theorem doubleUntil64_zero {required : ℕ} (hrequired : 0 < required)
    (fuel : ℕ) : doubleUntil64 required fuel 0 = none := by
  induction fuel with
  | zero => rfl
  | succ fuel ih =>
      rw [doubleUntil64, if_pos hrequired]
      exact ih

theorem writePos_of_capacity_eq_zero (hcapacity : buffer.capacity = 0) :
    buffer.writePos = 0 := by
  have hwrite := buffer.writePos_le
  unfold capacity at hcapacity
  omega

/-- The loop ends for buffers which have storage, and for those which are asked
for nothing. -/
theorem growthEnds_iff
    (hsmall : buffer.writePos + additional < 2 ^ 63) :
    buffer.GrowthEnds additional ↔ 0 < buffer.capacity ∨ additional = 0 := by
  have hmod : (buffer.writePos + additional) % sizeModulus =
      buffer.writePos + additional :=
    Nat.mod_eq_of_lt (by unfold sizeModulus; omega)
  unfold GrowthEnds
  rw [hmod]
  constructor
  · intro hends
    by_contra hnot
    have hcapacity : buffer.capacity = 0 := by omega
    have hwrite := writePos_of_capacity_eq_zero hcapacity
    have hshort : buffer.available < additional := by
      unfold available
      omega
    rcases hends hshort with ⟨fuel, newCapacity, hloop, _⟩
    rw [hcapacity, doubleUntil64_zero (by omega)] at hloop
    cases hloop
  · intro henough hshort
    rcases henough with hpositive | hzero
    · exact ⟨_, doubleUntil64_ends hpositive hsmall (Nat.lt_succ_self _)⟩
    · omega

theorem growthEnds_iff_one :
    (create 1).writePos + 5 < 2 ^ 63 ∧
      ((create 1).GrowthEnds 5 ↔ 0 < (create 1).capacity ∨ 5 = 0) :=
  ⟨by decide, growthEnds_iff (by decide)⟩

/-- Nothing can be written to `byte_buffer(0)`, to `byte_buffer(data, 0)` and
to a buffer which has been moved from. -/
theorem not_growthEnds_without_storage :
    ¬(create 0).GrowthEnds 1 ∧ ¬(ofBytes []).GrowthEnds 1 ∧
      ¬(moveConstruct (create 16)).2.GrowthEnds 1 ∧
      ¬(moveAssign (create 8) (create 16)).2.GrowthEnds 1 := by
  have hnever : ∀ buffer : ByteBuffer, buffer.capacity = 0 →
      ¬buffer.GrowthEnds 1 := by
    intro buffer hcapacity hends
    have hwrite := writePos_of_capacity_eq_zero hcapacity
    have hshort : buffer.available < 1 := by
      unfold available
      omega
    rcases hends hshort with ⟨fuel, newCapacity, hloop, _⟩
    rw [hcapacity, hwrite, doubleUntil64_zero (by decide)] at hloop
    cases hloop
  exact ⟨hnever _ rfl, hnever _ rfl, hnever _ rfl, hnever _ rfl⟩

/-! ## Storage is kept -/

theorem required_le_doubleUntil64 {required fuel capacity newCapacity : ℕ}
    (hloop : doubleUntil64 required fuel capacity = some newCapacity) :
    required ≤ newCapacity := by
  induction fuel generalizing capacity with
  | zero => cases hloop
  | succ fuel ih =>
      rw [doubleUntil64] at hloop
      split at hloop
      next => exact ih hloop
      next hge =>
        rw [Option.some.injEq] at hloop
        omega

/-- The loop is left at once, or with more than it began with. -/
theorem le_doubleUntil64 {required fuel capacity newCapacity : ℕ}
    (hloop : doubleUntil64 required fuel capacity = some newCapacity) :
    capacity ≤ newCapacity := by
  have hrequired := required_le_doubleUntil64 hloop
  by_cases hlt : capacity < required
  · omega
  · cases fuel with
    | zero => cases hloop
    | succ fuel =>
        rw [doubleUntil64, if_neg hlt, Option.some.injEq] at hloop
        exact hloop.le

theorem capacity_le_ensureCapacity64 {grown : ByteBuffer}
    (hgrown : buffer.ensureCapacity64 additional = some grown) :
    buffer.capacity ≤ grown.capacity := by
  unfold ensureCapacity64 at hgrown
  split at hgrown
  next =>
    unfold grow64 at hgrown
    rw [Option.map_eq_some_iff] at hgrown
    rcases hgrown with ⟨newCapacity, hloop, rfl⟩
    rw [Option.filter_eq_some_iff] at hloop
    have hsize := buffer.size_le_capacity
    have hle : buffer.capacity ≤ newCapacity := le_doubleUntil64 hloop.1
    rw [capacity_moveTo (hsize.trans hle)]
    exact hle
  next =>
    rw [Option.some.injEq] at hgrown
    rw [hgrown]

theorem capacity_le_write64 {bytes : Bytes} {written : ByteBuffer}
    (hwrite : buffer.write64 bytes = some written) :
    buffer.capacity ≤ written.capacity := by
  unfold write64 at hwrite
  rw [Option.bind_eq_some_iff] at hwrite
  rcases hwrite with ⟨grown, hgrown, hput⟩
  rw [Option.ite_none_right_eq_some, Option.some.injEq] at hput
  rw [← hput.2]
  exact (capacity_le_ensureCapacity64 hgrown).trans (capacity_put grown bytes)

theorem capacity_advanceRead {count : ℕ} {advanced : ByteBuffer}
    (hread : buffer.advanceRead count = some advanced) :
    advanced.capacity = buffer.capacity := by
  unfold advanceRead at hread
  split at hread
  next =>
    rw [Option.some.injEq] at hread
    rw [← hread]
    rfl
  next => cases hread

theorem capacity_compact (buffer : ByteBuffer) :
    buffer.compact.capacity = buffer.capacity := by
  have hlength := buffer.length_unread
  have hsize := buffer.size_le_capacity
  unfold compact
  split
  next => rfl
  next =>
    simp only [capacity, List.length_append, List.length_drop, hlength]
    unfold capacity at hsize
    omega

/-- No operation takes storage away from a buffer. -/
theorem capacity_le_apply64 {op : BufferOp} {applied : ByteBuffer × Bytes}
    (happly : buffer.apply64 op = some applied) :
    buffer.capacity ≤ applied.1.capacity := by
  cases op with
  | write bytes =>
      rcases Option.map_eq_some_iff.mp happly with ⟨written, hwrite, rfl⟩
      exact capacity_le_write64 hwrite
  | writeBuffer other =>
      rcases Option.map_eq_some_iff.mp happly with ⟨written, hwrite, rfl⟩
      exact capacity_le_write64 hwrite
  | advanceWrite bytes =>
      rcases Option.map_eq_some_iff.mp happly with ⟨written, hwrite, rfl⟩
      unfold advanceWrite at hwrite
      rw [Option.ite_none_right_eq_some, Option.some.injEq] at hwrite
      rw [← hwrite.2]
      exact capacity_put buffer bytes
  | read maxSize =>
      rcases Option.map_eq_some_iff.mp happly with ⟨advanced, hread, rfl⟩
      rw [capacity_advanceRead hread]
  | peek maxSize =>
      cases happly
      exact le_rfl
  | advanceRead count =>
      rcases Option.map_eq_some_iff.mp happly with ⟨advanced, hread, rfl⟩
      rw [capacity_advanceRead hread]
  | ensureCapacity additional =>
      rcases Option.map_eq_some_iff.mp happly with ⟨grown, hgrown, rfl⟩
      exact capacity_le_ensureCapacity64 hgrown
  | compact =>
      cases happly
      exact buffer.capacity_compact.ge
  | reset =>
      cases happly
      exact le_rfl

end ByteBuffer

end VynxHttp
