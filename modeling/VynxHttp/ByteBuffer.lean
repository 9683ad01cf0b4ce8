import VynxHttp.ByteString

/-!
# The resizable byte buffer

`byte_buffer` keeps its bytes in a vector with a read and a write position.
The two bounds on the positions are fields of the structure.  Sizes are
natural numbers: the arithmetic on `size_t` does not wrap around for any
buffer which can be allocated.
-/

namespace VynxHttp

structure ByteBuffer where
  data : Bytes
  readPos : ℕ
  writePos : ℕ
  readPos_le : readPos ≤ writePos
  writePos_le : writePos ≤ data.length

namespace ByteBuffer

def defaultCapacity : ℕ := 4096

/-- `byte_buffer(capacity)`. -/
def create (capacity : ℕ) : ByteBuffer where
  data := List.replicate capacity 0
  readPos := 0
  writePos := 0
  readPos_le := le_rfl
  writePos_le := Nat.zero_le _

/-- `byte_buffer()`. -/
def empty : ByteBuffer := create defaultCapacity

/-- `byte_buffer(data, size)`. -/
def ofBytes (bytes : Bytes) : ByteBuffer where
  data := bytes
  readPos := 0
  writePos := bytes.length
  readPos_le := Nat.zero_le _
  writePos_le := le_rfl

def capacity (buffer : ByteBuffer) : ℕ := buffer.data.length

def size (buffer : ByteBuffer) : ℕ := buffer.writePos - buffer.readPos

def available (buffer : ByteBuffer) : ℕ := buffer.capacity - buffer.writePos

def unread (buffer : ByteBuffer) : Bytes :=
  (buffer.data.take buffer.writePos).drop buffer.readPos

@[simp] theorem length_unread (buffer : ByteBuffer) :
    buffer.unread.length = buffer.size := by
  have hwrite := buffer.writePos_le
  simp only [unread, size, List.length_drop, List.length_take]
  omega

def reset (buffer : ByteBuffer) : ByteBuffer where
  data := buffer.data
  readPos := 0
  writePos := 0
  readPos_le := le_rfl
  writePos_le := Nat.zero_le _

/-- What a move leaves behind: no storage at all. -/
def movedFrom : ByteBuffer where
  data := []
  readPos := 0
  writePos := 0
  readPos_le := le_rfl
  writePos_le := Nat.zero_le _

/-- The doubling loop of `grow`.  The fuel of `grow` is enough for every
capacity but zero, which doubling leaves at zero. -/
def doubleUntil (required : ℕ) : ℕ → ℕ → Option ℕ
  | 0, _ => none
  | fuel + 1, newCapacity =>
      if newCapacity < required then
        doubleUntil required fuel (newCapacity * 2)
      else some newCapacity

/-- `none` when the doubling loop does not end. -/
def grow (buffer : ByteBuffer) (additional : ℕ) : Option ByteBuffer :=
  let required := buffer.writePos + additional
  (doubleUntil required (required + 1) buffer.capacity).map
    fun newCapacity =>
      { data := buffer.unread ++
          List.replicate (newCapacity - buffer.size) 0
        readPos := 0
        writePos := buffer.size
        readPos_le := Nat.zero_le _
        writePos_le := by simp }

def ensureCapacity (buffer : ByteBuffer) (additional : ℕ) :
    Option ByteBuffer :=
  if buffer.available < additional then buffer.grow additional
  else some buffer

/-- `memcpy` to the write position, which is then advanced. -/
def put (buffer : ByteBuffer) (bytes : Bytes) : ByteBuffer where
  data := buffer.data.take buffer.writePos ++ bytes ++
    buffer.data.drop (buffer.writePos + bytes.length)
  readPos := buffer.readPos
  writePos := buffer.writePos + bytes.length
  readPos_le := le_trans buffer.readPos_le (Nat.le_add_right _ _)
  writePos_le := by
    have hwrite := buffer.writePos_le
    simp only [List.length_append, List.length_take, List.length_drop]
    omega

/-- `write(data, size)`; `none` when it does not return. -/
def write (buffer : ByteBuffer) (bytes : Bytes) : Option ByteBuffer :=
  (buffer.ensureCapacity bytes.length).map fun grown => grown.put bytes

/-- `write(other)`. -/
def writeBuffer (buffer other : ByteBuffer) : Option ByteBuffer :=
  buffer.write other.unread

/-! ## What the operations do to the unread bytes -/

@[simp] theorem capacity_create (capacity : ℕ) :
    (create capacity).capacity = capacity :=
  List.length_replicate

theorem capacity_empty_pos : 0 < empty.capacity := by
  rw [empty, capacity_create]
  decide

@[simp] theorem unread_create (capacity : ℕ) :
    (create capacity).unread = [] := by
  simp [unread, create]

@[simp] theorem unread_empty : empty.unread = [] := unread_create _

theorem unread_put (buffer : ByteBuffer) (bytes : Bytes) :
    (buffer.put bytes).unread = buffer.unread ++ bytes := by
  have hread := buffer.readPos_le
  have hwrite := buffer.writePos_le
  have htake : (buffer.data.take buffer.writePos).length =
      buffer.writePos := List.length_take_of_le hwrite
  have hwritten :
      (buffer.put bytes).data.take (buffer.put bytes).writePos =
        buffer.data.take buffer.writePos ++ bytes :=
    List.take_left' (by simp [put, htake])
  unfold unread
  rw [hwritten]
  exact List.drop_append_of_le_length (by simpa [put, htake] using hread)

theorem capacity_put (buffer : ByteBuffer) (bytes : Bytes) :
    buffer.capacity ≤ (buffer.put bytes).capacity := by
  have hwrite := buffer.writePos_le
  simp only [capacity, put, List.length_append, List.length_take,
    List.length_drop]
  omega

theorem doubleUntil_spec (required fuel capacity : ℕ)
    (hcapacity : 0 < capacity) (hfuel : required - capacity < fuel) :
    ∃ newCapacity, doubleUntil required fuel capacity = some newCapacity ∧
      required ≤ newCapacity ∧ capacity ≤ newCapacity := by
  induction fuel generalizing capacity with
  | zero => omega
  | succ fuel ih =>
      by_cases hlt : capacity < required
      · obtain ⟨newCapacity, hloop, hrequired, hle⟩ :=
          ih (capacity * 2) (by omega) (by omega)
        exact ⟨newCapacity, by simp [doubleUntil, hlt, hloop], hrequired,
          by omega⟩
      · exact ⟨capacity, by simp [doubleUntil, hlt], by omega, le_rfl⟩

theorem grow_spec (buffer : ByteBuffer) (additional : ℕ)
    (hcapacity : 0 < buffer.capacity) :
    ∃ grown, buffer.grow additional = some grown ∧
      grown.unread = buffer.unread ∧ 0 < grown.capacity ∧
      additional ≤ grown.available := by
  obtain ⟨newCapacity, hloop, hrequired, hle⟩ :=
    doubleUntil_spec (buffer.writePos + additional)
      (buffer.writePos + additional + 1) buffer.capacity hcapacity (by omega)
  have hread := buffer.readPos_le
  have hlength := buffer.length_unread
  simp only [grow, hloop, Option.map_some, Option.some.injEq,
    exists_eq_left']
  refine ⟨?_, ?_, ?_⟩
  · simp [unread, ← hlength]
  · simp only [capacity, List.length_append, List.length_replicate, hlength]
    omega
  · simp only [available, capacity, List.length_append,
      List.length_replicate, hlength, size]
    omega

theorem ensureCapacity_spec (buffer : ByteBuffer) (additional : ℕ)
    (hcapacity : 0 < buffer.capacity) :
    ∃ grown, buffer.ensureCapacity additional = some grown ∧
      grown.unread = buffer.unread ∧ 0 < grown.capacity ∧
      additional ≤ grown.available := by
  unfold ensureCapacity
  split
  next => exact grow_spec buffer additional hcapacity
  next henough => exact ⟨buffer, rfl, rfl, hcapacity, by omega⟩

theorem write_spec (buffer : ByteBuffer) (bytes : Bytes)
    (hcapacity : 0 < buffer.capacity) :
    ∃ written, buffer.write bytes = some written ∧
      written.unread = buffer.unread ++ bytes ∧ 0 < written.capacity := by
  obtain ⟨grown, hgrown, hunread, hpositive, _⟩ :=
    ensureCapacity_spec buffer bytes.length hcapacity
  refine ⟨grown.put bytes, by simp [write, hgrown], ?_, ?_⟩
  · rw [unread_put, hunread]
  · exact lt_of_lt_of_le hpositive (capacity_put grown bytes)

/-! ## Buffers without storage -/

theorem doubleUntil_zero (required fuel : ℕ) (hrequired : 0 < required) :
    doubleUntil required fuel 0 = none := by
  induction fuel with
  | zero => rfl
  | succ fuel ih => rw [doubleUntil, if_pos hrequired, Nat.zero_mul, ih]

/-- Nothing but the empty text can be written to a buffer without storage,
which then still has none. -/
theorem write_of_capacity_eq_zero {buffer written : ByteBuffer}
    {bytes : Bytes} (hcapacity : buffer.capacity = 0)
    (hwrite : buffer.write bytes = some written) :
    bytes = [] ∧ written.capacity = 0 := by
  have hbytes : bytes = [] := by
    by_contra hne
    have hpos : 0 < bytes.length := List.length_pos_iff.mpr hne
    have hshort : buffer.available < bytes.length := by
      rw [available, hcapacity]
      omega
    have hgrow : buffer.grow bytes.length = none := by
      rw [grow, hcapacity, doubleUntil_zero _ _ (by omega), Option.map_none]
    rw [write, ensureCapacity, if_pos hshort, hgrow, Option.map_none]
      at hwrite
    exact Option.some_ne_none _ hwrite.symm
  refine ⟨hbytes, ?_⟩
  subst hbytes
  rw [write, ensureCapacity, if_neg (by simp), Option.map_some,
    Option.some.injEq] at hwrite
  have hdata : buffer.data = [] := List.length_eq_zero_iff.mp hcapacity
  rw [← hwrite]
  simp [capacity, put, hdata]

end ByteBuffer

end VynxHttp
