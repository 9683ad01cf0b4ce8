import VynxHttp.ByteBuffer
import VynxHttp.Fifo

/-!
# The byte buffer as a queue

The operations of `byte_buffer` with the arithmetic of `size_t`: the sum and
the doublings of `grow` are taken modulo two to the power of 64, and a vector
throws when it is asked for more than `max_size` bytes.  A buffer refines a
queue of bytes as long as it grows within these bounds.
-/

namespace VynxHttp

def sizeModulus : ℕ := 2 ^ 64

/-- `std::vector<std::byte>::max_size()`. -/
def maxSize : ℕ := 2 ^ 63 - 1

namespace ByteBuffer

/-! ## Growing -/

/-- The doubling loop of `grow`. -/
def doubleUntil64 (required : ℕ) : ℕ → ℕ → Option ℕ
  | 0, _ => none
  | fuel + 1, newCapacity =>
      if newCapacity < required then
        doubleUntil64 required fuel (newCapacity * 2 % sizeModulus)
      else some newCapacity

theorem size_le_length_append (buffer : ByteBuffer) (rest : Bytes) :
    buffer.size ≤ (buffer.unread ++ rest).length := by
  rw [List.length_append, length_unread]
  exact Nat.le_add_right _ _

theorem size_nonneg (buffer : ByteBuffer) : 0 ≤ buffer.size := Nat.zero_le _

theorem size_le_length_moved (buffer : ByteBuffer) (newCapacity : ℕ) :
    buffer.size ≤ (buffer.unread ++
      List.replicate (newCapacity - buffer.size) (0 : UInt8)).length :=
  buffer.size_le_length_append _

def moveTo (buffer : ByteBuffer) (newCapacity : ℕ) : ByteBuffer where
  data := buffer.unread ++ List.replicate (newCapacity - buffer.size) 0
  readPos := 0
  writePos := buffer.size
  readPos_le := buffer.size_nonneg
  writePos_le := buffer.size_le_length_moved newCapacity

/-- After 64 doublings the capacity is zero and stays so, and the 65th test
tells whether the loop ends.  `none` stands for a loop which does not end and
for a vector which throws. -/
def grow64 (buffer : ByteBuffer) (additional : ℕ) : Option ByteBuffer :=
  let required := (buffer.writePos + additional) % sizeModulus
  ((doubleUntil64 required 65 buffer.capacity).filter (· ≤ maxSize)).map
    buffer.moveTo

def ensureCapacity64 (buffer : ByteBuffer) (additional : ℕ) :
    Option ByteBuffer :=
  if buffer.available < additional then buffer.grow64 additional
  else some buffer

/-- `none` also where `memcpy` would go beyond the vector. -/
def write64 (buffer : ByteBuffer) (bytes : Bytes) : Option ByteBuffer :=
  (buffer.ensureCapacity64 bytes.length).bind fun grown =>
    if bytes.length ≤ grown.available then some (grown.put bytes) else none

/-! ## Positions -/

def peek (buffer : ByteBuffer) (maxSize : ℕ) : Bytes :=
  (buffer.data.drop buffer.readPos).take (min maxSize buffer.size)

/-- `none` where the assertion fails. -/
def advanceRead (buffer : ByteBuffer) (count : ℕ) : Option ByteBuffer :=
  if hcount : buffer.readPos + count ≤ buffer.writePos then
    some { buffer with
      readPos := buffer.readPos + count
      readPos_le := hcount }
  else none

def read (buffer : ByteBuffer) (maxSize : ℕ) : Option (ByteBuffer × Bytes) :=
  (buffer.advanceRead (min maxSize buffer.size)).map fun advanced =>
    (advanced, buffer.peek maxSize)

/-- Bytes are put at `write_ptr()`, and `advance_write` is called; `none` where
its assertion fails. -/
def advanceWrite (buffer : ByteBuffer) (bytes : Bytes) : Option ByteBuffer :=
  if buffer.writePos + bytes.length ≤ buffer.capacity then
    some (buffer.put bytes)
  else none

def compact (buffer : ByteBuffer) : ByteBuffer :=
  if buffer.readPos = 0 then buffer
  else
    { data := buffer.unread ++ buffer.data.drop buffer.size
      readPos := 0
      writePos := buffer.size
      readPos_le := buffer.size_nonneg
      writePos_le := buffer.size_le_length_append _ }

end ByteBuffer

inductive BufferOp where
  | write (bytes : Bytes)
  | writeBuffer (other : ByteBuffer)
  | advanceWrite (bytes : Bytes)
  | read (maxSize : ℕ)
  | peek (maxSize : ℕ)
  | advanceRead (count : ℕ)
  | ensureCapacity (additional : ℕ)
  | compact
  | reset

namespace ByteBuffer

/-- What an operation makes of a buffer, and the bytes which it hands out. -/
def apply64 (buffer : ByteBuffer) : BufferOp → Option (ByteBuffer × Bytes)
  | .write bytes => (buffer.write64 bytes).map fun written => (written, [])
  | .writeBuffer other =>
      (buffer.write64 other.unread).map fun written => (written, [])
  | .advanceWrite bytes =>
      (buffer.advanceWrite bytes).map fun written => (written, [])
  | .read maxSize => buffer.read maxSize
  | .peek maxSize => some (buffer, buffer.peek maxSize)
  | .advanceRead count =>
      (buffer.advanceRead count).map fun advanced => (advanced, [])
  | .ensureCapacity additional =>
      (buffer.ensureCapacity64 additional).map fun grown => (grown, [])
  | .compact => some (buffer.compact, [])
  | .reset => some (buffer.reset, [])

/-- The arguments are of type `size_t`, and the positions are advanced within
`available()` and `size()`. -/
def Allowed (buffer : ByteBuffer) : BufferOp → Prop
  | .write bytes => bytes.length < sizeModulus
  | .writeBuffer other => other.size < sizeModulus
  | .advanceWrite bytes => bytes.length ≤ buffer.available
  | .advanceRead count => count ≤ buffer.size
  | .ensureCapacity additional => additional < sizeModulus
  | _ => True

instance (buffer : ByteBuffer) (op : BufferOp) :
    Decidable (buffer.Allowed op) := by
  cases op <;> unfold Allowed <;> infer_instance

/-! ## The doubling loop -/

variable {buffer : ByteBuffer} {required fuel additional : ℕ}

/-- Twice what a vector can hold does not wrap around. -/
theorem mod_sizeModulus {n : ℕ} (hle : n ≤ maxSize * 2) :
    n % sizeModulus = n :=
  Nat.mod_eq_of_lt (by
    unfold maxSize at hle
    unfold sizeModulus
    omega)

theorem doubleUntil64_of_reach {capacity k : ℕ} (hfuel : k < fuel)
    (hreach : required ≤ capacity * 2 ^ k)
    (hmax : capacity * 2 ^ k ≤ maxSize) :
    ∃ newCapacity,
      doubleUntil64 required fuel capacity = some newCapacity ∧
        required ≤ newCapacity ∧ capacity ≤ newCapacity ∧
        newCapacity ≤ maxSize := by
  induction k generalizing fuel capacity with
  | zero =>
      obtain ⟨fuel, rfl⟩ := Nat.exists_eq_add_of_lt hfuel
      rw [pow_zero, Nat.mul_one] at hreach hmax
      exact ⟨capacity, by simp [doubleUntil64, Nat.not_lt.mpr hreach],
        hreach, le_rfl, hmax⟩
  | succ k ih =>
      cases fuel with
      | zero => omega
      | succ fuel =>
          by_cases hlt : capacity < required
          · have hpow : capacity * 2 ^ (k + 1) = capacity * 2 * 2 ^ k := by
              rw [pow_succ]
              ring
            rw [hpow] at hreach hmax
            have hdouble : capacity * 2 ≤ capacity * 2 * 2 ^ k :=
              Nat.le_mul_of_pos_right _ (Nat.two_pow_pos k)
            have hmod : capacity * 2 % sizeModulus = capacity * 2 :=
              mod_sizeModulus (by omega)
            obtain ⟨newCapacity, hloop, hrequired, hle, hfits⟩ :=
              ih (show k < fuel by omega) hreach hmax
            refine ⟨newCapacity, ?_, hrequired, by omega, hfits⟩
            rw [doubleUntil64, if_pos hlt, hmod, hloop]
          · refine ⟨capacity, by simp [doubleUntil64, hlt], by omega, le_rfl,
              ?_⟩
            exact (Nat.le_mul_of_pos_right _ (Nat.two_pow_pos _)).trans hmax

theorem reach_of_doubleUntil64 {capacity newCapacity : ℕ}
    (hloop : doubleUntil64 required fuel capacity = some newCapacity)
    (hmax : newCapacity ≤ maxSize) :
    required ≤ newCapacity ∧ ∃ k, newCapacity = capacity * 2 ^ k := by
  induction fuel generalizing capacity with
  | zero => simp [doubleUntil64] at hloop
  | succ fuel ih =>
      rw [doubleUntil64] at hloop
      split at hloop
      next hlt =>
        obtain ⟨hrequired, k, hk⟩ := ih hloop
        refine ⟨hrequired, k + 1, ?_⟩
        have hmod : capacity * 2 % sizeModulus = capacity * 2 :=
          mod_sizeModulus (by omega)
        rw [hk, hmod, pow_succ]
        ring
      next hge =>
        rw [Option.some.injEq] at hloop
        subst hloop
        exact ⟨by omega, 0, by simp⟩

def double64 (capacity : ℕ) : ℕ := capacity * 2 % sizeModulus

theorem iterate_double64 (capacity n : ℕ) :
    double64^[n + 1] capacity = capacity * 2 ^ (n + 1) % sizeModulus := by
  induction n generalizing capacity with
  | zero => simp [double64]
  | succ n ih =>
      rw [Function.iterate_succ_apply, ih, double64, Nat.mod_mul_mod]
      have hpow : capacity * 2 * 2 ^ (n + 1) = capacity * 2 ^ (n + 2) := by
        rw [pow_succ 2 (n + 1)]
        ring
      rw [hpow]

theorem doubleUntil64_add {capacity n : ℕ}
    (hnone : doubleUntil64 required n capacity = none) (more : ℕ) :
    doubleUntil64 required (n + more) capacity =
      doubleUntil64 required more (double64^[n] capacity) := by
  induction n generalizing capacity with
  | zero => simp
  | succ n ih =>
      rw [doubleUntil64] at hnone
      split at hnone
      next hlt =>
        rw [Nat.add_right_comm, doubleUntil64, if_pos hlt,
          Function.iterate_succ_apply]
        exact ih hnone
      next => simp at hnone

/-- More fuel than that of `grow64` does not end the loop either. -/
theorem doubleUntil64_never {capacity : ℕ}
    (hnone : doubleUntil64 required 65 capacity = none) (more : ℕ) :
    doubleUntil64 required (65 + more) capacity = none := by
  have hrequired : 0 < required := by
    rw [doubleUntil64] at hnone
    split at hnone
    next hlt => omega
    next => simp at hnone
  have hzero : double64^[65] capacity = 0 := by
    rw [iterate_double64 capacity 64, sizeModulus]
    omega
  rw [doubleUntil64_add hnone, hzero]
  induction more with
  | zero => rfl
  | succ more ih =>
      rw [doubleUntil64, if_pos hrequired]
      exact ih

/-! ## When a buffer has room to grow -/

/-- Some doubling of the capacity is enough and not too much for a vector. -/
def Fits (buffer : ByteBuffer) (additional : ℕ) : Prop :=
  buffer.available < additional →
    ∃ k, buffer.writePos + additional ≤ buffer.capacity * 2 ^ k ∧
      buffer.capacity * 2 ^ k ≤ maxSize

structure Storable (buffer : ByteBuffer) : Prop where
  positive : 0 < buffer.capacity
  bounded : buffer.capacity ≤ maxSize

theorem storable_create {capacity : ℕ} (hpositive : 0 < capacity)
    (hbounded : capacity ≤ maxSize) : (create capacity).Storable := by
  constructor
  · rw [capacity_create]
    exact hpositive
  · rw [capacity_create]
    exact hbounded

theorem unread_moveTo (buffer : ByteBuffer) (newCapacity : ℕ) :
    (buffer.moveTo newCapacity).unread = buffer.unread := by
  have hlength := buffer.length_unread
  simp [unread, moveTo, ← hlength]

theorem capacity_moveTo {newCapacity : ℕ} (hsize : buffer.size ≤ newCapacity) :
    (buffer.moveTo newCapacity).capacity = newCapacity := by
  simp only [capacity, moveTo, List.length_append, List.length_replicate,
    length_unread]
  omega

theorem size_le_capacity (buffer : ByteBuffer) :
    buffer.size ≤ buffer.capacity := by
  have hwrite := buffer.writePos_le
  unfold size capacity
  omega

theorem ensureCapacity64_spec (hstorable : buffer.Storable)
    (hfits : buffer.Fits additional) :
    ∃ grown, buffer.ensureCapacity64 additional = some grown ∧
      grown.unread = buffer.unread ∧ additional ≤ grown.available ∧
      grown.Storable := by
  unfold ensureCapacity64
  split
  next hshort =>
    obtain ⟨k, hreach, hmax⟩ := hfits hshort
    have hpositive := hstorable.positive
    have hsize := buffer.size_le_capacity
    have hread := buffer.readPos_le
    have hmod : (buffer.writePos + additional) % sizeModulus =
        buffer.writePos + additional :=
      mod_sizeModulus (by omega)
    have hfuel : k < 65 := by
      by_contra hlarge
      have hpow : 2 ^ 65 ≤ 2 ^ k :=
        Nat.pow_le_pow_right (by omega) (by omega)
      have hle : 2 ^ k ≤ buffer.capacity * 2 ^ k :=
        Nat.le_mul_of_pos_left _ hpositive
      unfold maxSize at hmax
      omega
    obtain ⟨newCapacity, hloop, hrequired, hle, hbounded⟩ :=
      doubleUntil64_of_reach hfuel hreach hmax
    have hcapacity := capacity_moveTo (hsize.trans hle)
    refine ⟨buffer.moveTo newCapacity, ?_, unread_moveTo _ _, ?_, ?_, ?_⟩
    · simp [grow64, hmod, hloop, hbounded]
    · have hposition : (buffer.moveTo newCapacity).writePos = buffer.size :=
        rfl
      rw [available, hcapacity, hposition]
      unfold size
      omega
    · rw [hcapacity]
      omega
    · rw [hcapacity]
      exact hbounded
  next henough =>
    exact ⟨buffer, rfl, rfl, by omega, hstorable⟩

/-- Where nothing wraps around, the loop is the one over natural numbers. -/
theorem doubleUntil_of_doubleUntil64 {capacity newCapacity more : ℕ}
    (hpositive : 0 < capacity) (hmore : required - capacity < more)
    (hloop : doubleUntil64 required fuel capacity = some newCapacity)
    (hmax : newCapacity ≤ maxSize) :
    doubleUntil required more capacity = some newCapacity := by
  have hreach := (reach_of_doubleUntil64 hloop hmax).1
  induction fuel generalizing capacity more with
  | zero => simp [doubleUntil64] at hloop
  | succ fuel ih =>
      obtain ⟨rest, rfl⟩ : ∃ rest, more = rest + 1 := ⟨more - 1, by omega⟩
      rw [doubleUntil64] at hloop
      rw [doubleUntil]
      split at hloop
      next hlt =>
        have hmod : capacity * 2 % sizeModulus = capacity * 2 :=
          mod_sizeModulus (by omega)
        rw [hmod] at hloop
        rw [if_pos hlt]
        have hrest : required - capacity * 2 < rest := by omega
        exact ih (by omega) hrest hloop
      next hge =>
        rw [if_neg hge]
        exact hloop

theorem ensureCapacity64_eq (hstorable : buffer.Storable)
    (hfits : buffer.Fits additional) :
    buffer.ensureCapacity64 additional = buffer.ensureCapacity additional := by
  obtain ⟨grown, hgrown, _⟩ := ensureCapacity64_spec hstorable hfits
  rw [hgrown]
  unfold ensureCapacity64 at hgrown
  unfold ensureCapacity
  split at hgrown
  next hshort =>
    obtain ⟨k, hreach, hmax⟩ := hfits hshort
    obtain ⟨newCapacity, hloop, rfl⟩ := Option.map_eq_some_iff.mp hgrown
    rw [Option.filter_eq_some_iff] at hloop
    obtain ⟨hloop, hbounded⟩ := hloop
    have hmod : (buffer.writePos + additional) % sizeModulus =
        buffer.writePos + additional :=
      mod_sizeModulus (by omega)
    rw [hmod] at hloop
    have hfuel : buffer.writePos + additional - buffer.capacity <
        buffer.writePos + additional + 1 := by
      omega
    have hunbounded := doubleUntil_of_doubleUntil64 hstorable.positive hfuel
      hloop (by simpa using hbounded)
    rw [if_pos hshort, grow, hunbounded]
    rfl
  next henough =>
    rw [if_neg henough]
    exact hgrown.symm

/-- Without room the buffer is still too small when `ensure_capacity`
returns. -/
theorem ensureCapacity64_short (hstorable : buffer.Storable)
    (hfits : ¬buffer.Fits additional) {grown : ByteBuffer}
    (hgrown : buffer.ensureCapacity64 additional = some grown) :
    grown.available < additional := by
  unfold Fits at hfits
  push Not at hfits
  obtain ⟨hshort, hnone⟩ := hfits
  have hsize := buffer.size_le_capacity
  have hbounded := hstorable.bounded
  rw [ensureCapacity64, if_pos hshort] at hgrown
  obtain ⟨newCapacity, hloop, rfl⟩ := Option.map_eq_some_iff.mp hgrown
  rw [Option.filter_eq_some_iff] at hloop
  obtain ⟨hloop, hmax⟩ := hloop
  have hmax : newCapacity ≤ maxSize := by simpa using hmax
  obtain ⟨hreach, k, hk⟩ := reach_of_doubleUntil64 hloop hmax
  have hwrap : sizeModulus ≤ buffer.writePos + additional := by
    by_contra hlt
    rw [Nat.mod_eq_of_lt (by omega), hk] at hreach
    have hlarge := hnone k hreach
    rw [← hk] at hlarge
    omega
  have hwrite := buffer.writePos_le
  have havailable : (buffer.moveTo newCapacity).available ≤ newCapacity ∨
      (buffer.moveTo newCapacity).available ≤ buffer.size := by
    simp only [available, capacity, moveTo, List.length_append,
      List.length_replicate, length_unread]
    omega
  unfold maxSize at hmax hbounded
  unfold sizeModulus at hwrap
  unfold capacity at hbounded hsize
  omega

theorem capacity_put_of_le {bytes : Bytes}
    (hroom : bytes.length ≤ buffer.available) :
    (buffer.put bytes).capacity = buffer.capacity := by
  have hwrite := buffer.writePos_le
  simp only [available, capacity] at hroom
  simp only [capacity, put, List.length_append, List.length_take,
    List.length_drop]
  omega

theorem Storable.put (hstorable : buffer.Storable) {bytes : Bytes}
    (hroom : bytes.length ≤ buffer.available) :
    (buffer.put bytes).Storable := by
  have hcapacity := capacity_put_of_le hroom
  exact ⟨hcapacity ▸ hstorable.positive, hcapacity ▸ hstorable.bounded⟩

/-- With room, `write` is the one over natural numbers. -/
theorem write64_spec (hstorable : buffer.Storable) {bytes : Bytes}
    (hfits : buffer.Fits bytes.length) :
    ∃ written, buffer.write64 bytes = some written ∧
      buffer.write bytes = some written ∧
      written.unread = buffer.unread ++ bytes ∧ written.Storable := by
  obtain ⟨grown, hgrown, hunread, hroom, hstorable'⟩ :=
    ensureCapacity64_spec hstorable hfits
  refine ⟨grown.put bytes, ?_, ?_, ?_, hstorable'.put hroom⟩
  · rw [write64, hgrown, Option.bind_some, if_pos hroom]
  · rw [write, ← ensureCapacity64_eq hstorable hfits, hgrown,
      Option.map_some]
  · rw [unread_put, hunread]

theorem write64_eq_none (hstorable : buffer.Storable) {bytes : Bytes}
    (hfits : ¬buffer.Fits bytes.length) : buffer.write64 bytes = none := by
  rw [write64]
  cases hgrown : buffer.ensureCapacity64 bytes.length with
  | none => rfl
  | some grown =>
      have hshort := ensureCapacity64_short hstorable hfits hgrown
      rw [Option.bind_some, if_neg (not_le.mpr hshort)]

/-! ## Reading and moving -/

theorem peek_eq_take (buffer : ByteBuffer) (maxSize : ℕ) :
    buffer.peek maxSize = buffer.unread.take maxSize := by
  have hunread : buffer.unread =
      (buffer.data.drop buffer.readPos).take buffer.size := by
    rw [unread, List.drop_take]
    rfl
  rw [peek, hunread, List.take_take]

theorem advanceRead_spec (hstorable : buffer.Storable) {count : ℕ}
    (hcount : count ≤ buffer.size) :
    ∃ advanced, buffer.advanceRead count = some advanced ∧
      advanced.unread = buffer.unread.drop count ∧ advanced.Storable := by
  have hread := buffer.readPos_le
  have hle : buffer.readPos + count ≤ buffer.writePos := by
    unfold size at hcount
    omega
  refine ⟨_, dif_pos hle, ?_, hstorable.positive, hstorable.bounded⟩
  rw [unread, unread, List.drop_drop]

theorem advanceWrite_spec (hstorable : buffer.Storable) {bytes : Bytes}
    (hroom : bytes.length ≤ buffer.available) :
    ∃ written, buffer.advanceWrite bytes = some written ∧
      written.unread = buffer.unread ++ bytes ∧ written.Storable := by
  have hwrite := buffer.writePos_le
  have hle : buffer.writePos + bytes.length ≤ buffer.capacity := by
    unfold available capacity at hroom
    unfold capacity
    omega
  exact ⟨_, if_pos hle, unread_put buffer bytes, hstorable.put hroom⟩

theorem compact_spec (hstorable : buffer.Storable) :
    buffer.compact.unread = buffer.unread ∧ buffer.compact.Storable := by
  unfold compact
  split
  next => exact ⟨rfl, hstorable⟩
  next =>
    have hlength := buffer.length_unread
    have hsize := buffer.size_le_capacity
    have hcapacity : (buffer.unread ++ buffer.data.drop buffer.size).length =
        buffer.capacity := by
      simp only [List.length_append, List.length_drop, hlength, capacity]
      unfold capacity at hsize
      omega
    refine ⟨?_, ?_, ?_⟩
    · simp [unread, ← hlength]
    · rw [capacity, hcapacity]
      exact hstorable.positive
    · rw [capacity, hcapacity]
      exact hstorable.bounded

end ByteBuffer

/-! ## The queue which a buffer refines -/

def fifoOps : BufferOp → List (FifoOp UInt8)
  | .write bytes => [.enqueue bytes]
  | .writeBuffer other => [.enqueue other.unread]
  | .advanceWrite bytes => [.enqueue bytes]
  | .read maxSize => [.dequeue maxSize]
  | .advanceRead count => [.dequeue count]
  | .reset => [.clear]
  | _ => []

/-- What a reader is handed when these are the bytes in the queue. -/
def handedOut (contents : Bytes) : BufferOp → Bytes
  | .read maxSize => contents.take maxSize
  | .peek maxSize => contents.take maxSize
  | _ => []

/-- A buffer, and the queue which goes through the same operations. -/
structure ByteQueue where
  buffer : ByteBuffer
  queue : Fifo UInt8

namespace ByteQueue

def step (s : ByteQueue) (op : BufferOp) : Option ByteQueue :=
  if s.buffer.Allowed op then
    (s.buffer.apply64 op).map fun applied =>
      ⟨applied.1, s.queue.applyAll (fifoOps op)⟩
  else none

/-- An operation has done to the buffer and handed out what the queue says. -/
structure Meets (s : ByteQueue) (op : BufferOp) (buffer : ByteBuffer)
    (bytes : Bytes) : Prop where
  unread : buffer.unread = (s.queue.applyAll (fifoOps op)).contents
  handed_out : bytes = handedOut s.queue.contents op
  ensured : ∀ additional, op = .ensureCapacity additional →
    additional ≤ buffer.available

def Agrees (s : ByteQueue) (op : BufferOp) : Prop :=
  s.buffer.Allowed op →
    ∃ applied, s.buffer.apply64 op = some applied ∧
      Meets s op applied.1 applied.2

/-- The growth which an operation may need fits. -/
def Roomy (s : ByteQueue) : BufferOp → Prop
  | .write bytes => bytes.length < sizeModulus →
      s.buffer.Fits bytes.length
  | .writeBuffer other => other.size < sizeModulus →
      s.buffer.Fits other.size
  | .ensureCapacity additional => additional < sizeModulus →
      s.buffer.Fits additional
  | _ => True

structure Sound (s : ByteQueue) : Prop where
  storable : s.buffer.Storable
  unread : s.buffer.unread = s.queue.contents

variable {s : ByteQueue} {op : BufferOp}

theorem meets_of_roomy (hsound : s.Sound) (hallowed : s.buffer.Allowed op)
    (hroomy : s.Roomy op) :
    ∃ applied, s.buffer.apply64 op = some applied ∧
      Meets s op applied.1 applied.2 ∧ applied.1.Storable := by
  obtain ⟨hstorable, hunread⟩ := hsound
  cases op with
  | write bytes =>
      obtain ⟨written, hwrite, -, hbytes, hstorable'⟩ :=
        ByteBuffer.write64_spec hstorable (hroomy hallowed)
      refine ⟨(written, []), by simp [ByteBuffer.apply64, hwrite],
        ⟨?_, rfl, by simp⟩, hstorable'⟩
      rw [hbytes, hunread]
      rfl
  | writeBuffer other =>
      have hfits : s.buffer.Fits other.unread.length := by
        rw [other.length_unread]
        exact hroomy hallowed
      obtain ⟨written, hwrite, -, hbytes, hstorable'⟩ :=
        ByteBuffer.write64_spec hstorable hfits
      refine ⟨(written, []), by simp [ByteBuffer.apply64, hwrite],
        ⟨?_, rfl, by simp⟩, hstorable'⟩
      rw [hbytes, hunread]
      rfl
  | advanceWrite bytes =>
      obtain ⟨written, hwrite, hbytes, hstorable'⟩ :=
        ByteBuffer.advanceWrite_spec hstorable hallowed
      refine ⟨(written, []), by simp [ByteBuffer.apply64, hwrite],
        ⟨?_, rfl, by simp⟩, hstorable'⟩
      rw [hbytes, hunread]
      rfl
  | read maxSize =>
      obtain ⟨advanced, hread, hbytes, hstorable'⟩ :=
        ByteBuffer.advanceRead_spec hstorable (Nat.min_le_right maxSize _)
      refine ⟨(advanced, s.buffer.peek maxSize),
        by simp [ByteBuffer.apply64, ByteBuffer.read, hread],
        ⟨?_, ?_, by simp⟩, hstorable'⟩
      · rw [hbytes, ← ByteBuffer.length_unread, hunread]
        simp [fifoOps, Fifo.apply]
      · rw [ByteBuffer.peek_eq_take, hunread]
        rfl
  | peek maxSize =>
      refine ⟨_, rfl, ⟨hunread, ?_, by simp⟩, hstorable⟩
      rw [ByteBuffer.peek_eq_take, hunread]
      rfl
  | advanceRead count =>
      obtain ⟨advanced, hread, hbytes, hstorable'⟩ :=
        ByteBuffer.advanceRead_spec hstorable hallowed
      refine ⟨(advanced, []), by simp [ByteBuffer.apply64, hread],
        ⟨?_, rfl, by simp⟩, hstorable'⟩
      rw [hbytes, hunread]
      rfl
  | ensureCapacity additional =>
      obtain ⟨grown, hgrown, hbytes, hroom, hstorable'⟩ :=
        ByteBuffer.ensureCapacity64_spec hstorable (hroomy hallowed)
      refine ⟨(grown, []), by simp [ByteBuffer.apply64, hgrown],
        ⟨hbytes.trans hunread, rfl, ?_⟩, hstorable'⟩
      intro other hother
      rw [BufferOp.ensureCapacity.injEq] at hother
      exact hother ▸ hroom
  | compact =>
      obtain ⟨hbytes, hstorable'⟩ := ByteBuffer.compact_spec hstorable
      exact ⟨_, rfl, ⟨hbytes.trans hunread, rfl, by simp⟩, hstorable'⟩
  | reset =>
      refine ⟨_, rfl, ⟨?_, rfl, by simp⟩, hstorable.positive,
        hstorable.bounded⟩
      simp [fifoOps, Fifo.apply, ByteBuffer.unread, ByteBuffer.reset]

theorem roomy_of_agrees (hsound : s.Sound) (hagrees : s.Agrees op) :
    s.Roomy op := by
  have hstorable := hsound.storable
  cases op with
  | write bytes =>
      intro hallowed
      by_contra hfits
      obtain ⟨applied, happlied, _⟩ := hagrees hallowed
      simp [ByteBuffer.apply64,
        ByteBuffer.write64_eq_none hstorable hfits] at happlied
  | writeBuffer other =>
      intro hallowed
      by_contra hfits
      obtain ⟨applied, happlied, _⟩ := hagrees hallowed
      rw [← other.length_unread] at hfits
      simp [ByteBuffer.apply64,
        ByteBuffer.write64_eq_none hstorable hfits] at happlied
  | ensureCapacity additional =>
      intro hallowed
      by_contra hfits
      obtain ⟨applied, happlied, hmeets⟩ := hagrees hallowed
      obtain ⟨grown, hgrown, rfl⟩ := Option.map_eq_some_iff.mp happlied
      have hshort :=
        ByteBuffer.ensureCapacity64_short hstorable hfits hgrown
      have hroom := hmeets.ensured additional rfl
      exact absurd hroom (not_le.mpr hshort)
  | advanceWrite => trivial
  | read => trivial
  | peek => trivial
  | advanceRead => trivial
  | compact => trivial
  | reset => trivial

theorem agrees_iff (hsound : s.Sound) : s.Agrees op ↔ s.Roomy op := by
  refine ⟨roomy_of_agrees hsound, fun hroomy hallowed => ?_⟩
  obtain ⟨applied, happlied, hmeets, _⟩ :=
    meets_of_roomy hsound hallowed hroomy
  exact ⟨applied, happlied, hmeets⟩

theorem Sound.step (hsound : s.Sound) (hroomy : s.Roomy op)
    {s' : ByteQueue} (hstep : s.step op = some s') : s'.Sound := by
  rw [ByteQueue.step, Option.ite_none_right_eq_some] at hstep
  obtain ⟨hallowed, hmap⟩ := hstep
  obtain ⟨applied, happlied, hmeets, hstorable⟩ :=
    meets_of_roomy hsound hallowed hroomy
  rw [happlied, Option.map_some, Option.some.injEq] at hmap
  subst hmap
  exact ⟨hstorable, hmeets.unread⟩

def starting (buffer : ByteBuffer) : ByteQueue :=
  ⟨buffer, .starting buffer.unread⟩

/-- A buffer agrees with its queue in a run exactly when it has room for every
growth of the run. -/
theorem agrees_along_iff {buffer : ByteBuffer} (hstorable : buffer.Storable)
    (ops : List BufferOp) :
    StepRun.Along step Agrees (starting buffer) ops ↔
      StepRun.Along step Roomy (starting buffer) ops :=
  StepRun.along_congr Sound (fun _ _ hsound => agrees_iff hsound)
    (fun _ _ _ hsound hagrees hstep =>
      hsound.step (roomy_of_agrees hsound hagrees) hstep)
    (s := starting buffer) ⟨hstorable, rfl⟩ ops

theorem agrees_along_iff_writing :
    StepRun.Along step Agrees (starting (.create 4))
        [.write [1, 2, 3], .read 2, .write [4, 5], .compact,
          .ensureCapacity 9] ↔
      StepRun.Along step Roomy (starting (.create 4))
        [.write [1, 2, 3], .read 2, .write [4, 5], .compact,
          .ensureCapacity 9] :=
  agrees_along_iff
    (ByteBuffer.storable_create (by decide) (by decide)) _

/-- With one byte in it, a buffer is asked for the greatest `size_t`: the sum
in `grow` is zero. -/
theorem ensure_capacity_wraps :
    ¬StepRun.Along step Agrees (starting (.create 16))
      [.write [1], .ensureCapacity (2 ^ 64 - 1)] := by
  rintro ⟨_, hlater⟩
  have hwritten : ((starting (.create 16)).step (.write [1])).isSome =
      true := by
    decide +kernel
  obtain ⟨s, hstep⟩ := Option.isSome_iff_exists.mp hwritten
  have havailable : ((starting (.create 16)).step (.write [1])).bind
      (fun s => (s.buffer.apply64 (.ensureCapacity (2 ^ 64 - 1))).map
        fun applied => applied.1.available) = some 15 := by
    decide +kernel
  obtain ⟨hagrees, _⟩ := hlater s hstep
  obtain ⟨applied, happlied, hmeets⟩ :=
    hagrees (show 2 ^ 64 - 1 < sizeModulus by decide)
  rw [hstep, Option.bind_some, happlied, Option.map_some,
    Option.some.injEq] at havailable
  have hensured := hmeets.ensured (2 ^ 64 - 1) rfl
  omega

end ByteQueue

end VynxHttp
