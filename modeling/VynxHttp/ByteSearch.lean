import VynxHttp.ByteQueue
import VynxHttp.IndexScan

/-!
# Searching for bytes

The two `find` of `byte_buffer` and of `byte_span`.  Pointers are indices into
the bytes which may be read, and a search is undefined when it comes to an
index which is not one of them.
-/

namespace VynxHttp

open IndexScan

/-- `static_cast<std::size_t>(-1)`. -/
def npos : ℕ := sizeModulus - 1

/-- The bytes which `data_` and `size_` of a `byte_span` stand for. -/
structure ByteSpan where
  bytes : Bytes
  deriving DecidableEq, Repr

def ByteSpan.size (span : ByteSpan) : ℕ := span.bytes.length

def byteIs (content : Bytes) (value : UInt8) (i : ℕ) : Option Bool :=
  content[i]?.map fun b => b == value

/-- `memcmp` at an index, which may read as many bytes as the pattern has. -/
def compareAt (content pattern : Bytes) (i : ℕ) : Option Bool :=
  if i + pattern.length ≤ content.length then
    some ((content.drop i).take pattern.length == pattern)
  else none

/-- `std::find`, which is defined for ranges only. -/
def stdFind (content : Bytes) (value : UInt8) (first last : ℕ) : Option ℕ :=
  if first ≤ last then
    scan (byteIs content value) last (last - first) first
  else none

namespace ByteBuffer

def findByte (buffer : ByteBuffer) (value : UInt8) (offset : ℕ) :
    Option ℕ :=
  (stdFind buffer.unread value offset buffer.size).map fun pos =>
    if pos ≠ buffer.size then pos else npos

def findPattern (buffer : ByteBuffer) (pattern : Bytes) (offset : ℕ) :
    Option ℕ :=
  if pattern.length = 0 then some offset
  else if buffer.size < pattern.length then some npos
  else
    scan (compareAt buffer.unread pattern) npos
      (buffer.size - pattern.length + 1 - offset) offset

end ByteBuffer

namespace ByteSpan

def findByte (span : ByteSpan) (value : UInt8) (pos : ℕ) : Option ℕ :=
  scan (byteIs span.bytes value) npos (span.size - pos) pos

def findPattern (span : ByteSpan) (pattern : Bytes) (pos : ℕ) :
    Option ℕ :=
  if span.size < pattern.length then some npos
  else
    scan (compareAt span.bytes pattern) npos
      (span.size - pattern.length + 1 - pos) pos

end ByteSpan

/-! ## Occurrences -/

/-- The pattern stands at an index. -/
def Occurs (content pattern : Bytes) (i : ℕ) : Prop :=
  i + pattern.length ≤ content.length ∧
    (content.drop i).take pattern.length = pattern

/-- The least occurrence from an offset on, or `npos`. -/
abbrev Locates (content pattern : Bytes) (offset result : ℕ) : Prop :=
  Finds (Occurs content pattern) offset npos result

variable {content pattern : Bytes} {value : UInt8} {offset i : ℕ}

theorem occurs_singleton_iff :
    Occurs content [value] i ↔ content[i]? = some value := by
  unfold Occurs
  rw [List.length_singleton, List.take_one]
  constructor
  · rintro ⟨_, hhead⟩
    rw [List.head?_drop] at hhead
    exact Option.toList_eq_singleton_iff.mp hhead
  · intro hvalue
    have hlt : i < content.length :=
      (List.getElem?_eq_some_iff.mp hvalue).1
    refine ⟨hlt, ?_⟩
    rw [List.head?_drop, hvalue]
    rfl

theorem occurs_nil_iff : Occurs content [] i ↔ i ≤ content.length := by
  simp [Occurs]

/-- The rounds of a loop over the bytes up to the last. -/
theorem scan_byteIs (content : Bytes) (value : UInt8)
    (offset notFound : ℕ) :
    ∃ result, scan (byteIs content value) notFound
        (content.length - offset) offset = some result ∧
      Finds (Occurs content [value]) offset notFound result := by
  apply scan_finds
  · intro i hi hlt
    have hinside : i < content.length := by omega
    refine ⟨content[i] == value, ?_, ?_⟩
    · simp [byteIs, hinside]
    · rw [occurs_singleton_iff, List.getElem?_eq_getElem hinside]
      simp
  · intro i hi hoccurs
    have hlast := hoccurs.1
    rw [List.length_singleton] at hlast
    omega

/-- The rounds of a loop up to the last index at which there is room for the
pattern. -/
theorem scan_compareAt (hshort : pattern.length ≤ content.length)
    (offset notFound : ℕ) :
    ∃ result, scan (compareAt content pattern) notFound
        (content.length - pattern.length + 1 - offset) offset =
          some result ∧
      Finds (Occurs content pattern) offset notFound result := by
  apply scan_finds
  · intro i hi hlt
    have hroom : i + pattern.length ≤ content.length := by omega
    refine ⟨(content.drop i).take pattern.length == pattern,
      if_pos hroom, ?_⟩
    rw [beq_iff_eq]
    exact ⟨fun hsame => ⟨hroom, hsame⟩, fun hoccurs => hoccurs.2⟩
  · intro i hi hoccurs
    have hroom := hoccurs.1
    omega

theorem locates_npos_of_short (hshort : content.length < pattern.length)
    (offset : ℕ) : Locates content pattern offset npos := by
  refine .inr ⟨rfl, fun i _ hoccurs => ?_⟩
  have hroom := hoccurs.1
  omega

theorem Locates.le_or_eq {result : ℕ}
    (hlocates : Locates content pattern offset result) :
    result ≤ content.length ∨ result = npos := by
  rcases hlocates with hleast | ⟨hnot, _⟩
  · have hroom := hleast.1.2.1
    exact .inl (by omega)
  · exact .inr hnot

/-! ## The searches of a span -/

namespace ByteSpan

theorem findByte_locates (span : ByteSpan) (value : UInt8) (pos : ℕ) :
    ∃ result, span.findByte value pos = some result ∧
      Locates span.bytes [value] pos result :=
  scan_byteIs span.bytes value pos npos

theorem findPattern_locates (span : ByteSpan) (pattern : Bytes)
    (pos : ℕ) :
    ∃ result, span.findPattern pattern pos = some result ∧
      Locates span.bytes pattern pos result := by
  unfold findPattern size
  by_cases hshort : span.bytes.length < pattern.length
  · rw [if_pos hshort]
    exact ⟨npos, rfl, locates_npos_of_short hshort pos⟩
  · rw [if_neg hshort]
    exact scan_compareAt (Nat.le_of_not_lt hshort) pos npos

end ByteSpan

/-! ## The searches of a buffer -/

namespace ByteBuffer

variable {buffer : ByteBuffer}

def span (buffer : ByteBuffer) : ByteSpan := ⟨buffer.unread⟩

theorem size_lt_npos (hbounded : buffer.capacity ≤ maxSize) :
    buffer.size < npos := by
  have hsize := buffer.size_le_capacity
  unfold maxSize at hbounded
  unfold npos sizeModulus
  omega

theorem findByte_locates (hoffset : offset ≤ buffer.size) (value : UInt8) :
    ∃ result, buffer.findByte value offset = some result ∧
      Locates buffer.unread [value] offset result := by
  rcases scan_byteIs buffer.unread value offset buffer.size with
    ⟨found, hscan, hfinds⟩
  rw [length_unread] at hscan
  refine ⟨if found ≠ buffer.size then found else npos, ?_, ?_⟩
  · rw [findByte, stdFind, if_pos hoffset, hscan]
    rfl
  · rcases hfinds with hleast | ⟨hnot, hnone⟩
    · have hne : found ≠ buffer.size := by
        have hroom := hleast.1.2.1
        rw [length_unread, List.length_singleton] at hroom
        omega
      rw [if_pos hne]
      exact .inl hleast
    · rw [if_neg (not_not.mpr hnot)]
      exact .inr ⟨rfl, hnone⟩

theorem findByte_eq_none (hoffset : buffer.size < offset) (value : UInt8) :
    buffer.findByte value offset = none := by
  rw [findByte, stdFind, if_neg (Nat.not_le.mpr hoffset), Option.map_none]

theorem findPattern_locates (hpattern : pattern ≠ []) (offset : ℕ) :
    ∃ result, buffer.findPattern pattern offset = some result ∧
      Locates buffer.unread pattern offset result := by
  have hlength : pattern.length ≠ 0 :=
    fun hzero => hpattern (List.length_eq_zero_iff.mp hzero)
  unfold findPattern
  rw [if_neg hlength]
  by_cases hshort : buffer.size < pattern.length
  · rw [if_pos hshort]
    exact ⟨npos, rfl, locates_npos_of_short (by simpa using hshort) offset⟩
  · rw [if_neg hshort]
    have hroom : pattern.length ≤ buffer.unread.length := by
      rw [length_unread]
      omega
    simpa only [length_unread] using scan_compareAt hroom offset npos

/-- The empty pattern is found at the offset, wherever that is. -/
theorem findPattern_nil_locates_iff (hbounded : buffer.capacity ≤ maxSize) :
    Locates buffer.unread [] offset offset ↔
      offset ≤ buffer.size ∨ offset = npos := by
  have hlt := size_lt_npos hbounded
  constructor
  · intro hlocates
    have hcases := hlocates.le_or_eq
    rwa [length_unread] at hcases
  · rintro (hinside | rfl)
    · refine .inl ⟨⟨le_rfl, ?_⟩, fun i hi => hi.1⟩
      rw [occurs_nil_iff, length_unread]
      exact hinside
    · refine .inr ⟨rfl, fun i hi hoccurs => ?_⟩
      rw [occurs_nil_iff, length_unread] at hoccurs
      omega

/-- Both searches for a pattern give the least occurrence from the offset
on. -/
def PatternSearchesAgree (buffer : ByteBuffer) (pattern : Bytes)
    (offset : ℕ) : Prop :=
  ∃ result, buffer.findPattern pattern offset = some result ∧
    buffer.span.findPattern pattern offset = some result ∧
    Locates buffer.unread pattern offset result

def ByteSearchesAgree (buffer : ByteBuffer) (value : UInt8) (offset : ℕ) :
    Prop :=
  ∃ result, buffer.findByte value offset = some result ∧
    buffer.span.findByte value offset = some result ∧
    Locates buffer.unread [value] offset result

theorem patternSearchesAgree_iff (hbounded : buffer.capacity ≤ maxSize) :
    buffer.PatternSearchesAgree pattern offset ↔
      pattern ≠ [] ∨ offset ≤ buffer.size ∨ offset = npos := by
  rcases buffer.span.findPattern_locates pattern offset with
    ⟨spanResult, hspan, hlocates⟩
  by_cases hpattern : pattern = []
  · subst hpattern
    have hbuffer : buffer.findPattern [] offset = some offset := rfl
    rw [← findPattern_nil_locates_iff hbounded]
    constructor
    · rintro ⟨result, hfind, _, hresult⟩
      rw [hbuffer, Option.some.injEq] at hfind
      subst hfind
      exact .inr hresult
    · rintro (hne | hoffset)
      · exact absurd rfl hne
      · have hsame : spanResult = offset := hlocates.unique hoffset
        exact ⟨offset, hbuffer, by rw [hspan, hsame], hoffset⟩
  · refine iff_of_true ?_ (.inl hpattern)
    have hmeets : ∃ result,
        buffer.findPattern pattern offset = some result ∧
          Locates buffer.unread pattern offset result :=
      findPattern_locates hpattern offset
    rcases hmeets with ⟨result, hfind, hresult⟩
    have hsame : spanResult = result := hlocates.unique hresult
    exact ⟨result, hfind, by rw [hspan, hsame], hresult⟩

theorem byteSearchesAgree_iff :
    buffer.ByteSearchesAgree value offset ↔ offset ≤ buffer.size := by
  constructor
  · rintro ⟨result, hfind, _, _⟩
    by_contra hbeyond
    rw [findByte_eq_none (Nat.lt_of_not_le hbeyond)] at hfind
    cases hfind
  · intro hoffset
    rcases findByte_locates hoffset value with ⟨result, hfind, hresult⟩
    rcases buffer.span.findByte_locates value offset with
      ⟨spanResult, hspan, hlocates⟩
    have hsame : spanResult = result := hlocates.unique hresult
    exact ⟨result, hfind, by rw [hspan, hsame], hresult⟩

/-- The searches agree where the offset is not beyond the content, and for
patterns which are not empty wherever it is. -/
theorem searchesAgree_iff (hbounded : buffer.capacity ≤ maxSize)
    (pattern : Bytes) (value : UInt8) (offset : ℕ) :
    (buffer.PatternSearchesAgree pattern offset ↔
      pattern ≠ [] ∨ offset ≤ buffer.size ∨ offset = npos) ∧
    (buffer.ByteSearchesAgree value offset ↔ offset ≤ buffer.size) :=
  ⟨patternSearchesAgree_iff hbounded, byteSearchesAgree_iff⟩

theorem searchesAgree_iff_pair :
    (ofBytes [1, 2, 3]).PatternSearchesAgree [2, 3] 1 ∧
      (ofBytes [1, 2, 3]).ByteSearchesAgree 3 1 ∧
      (ofBytes [1, 2, 3]).findPattern [2, 3] 1 = some 1 ∧
      (ofBytes [1, 2, 3]).findByte 3 1 = some 2 := by
  have hbounded : (ofBytes [1, 2, 3]).capacity ≤ maxSize := by decide
  obtain ⟨hpattern, hbyte⟩ := searchesAgree_iff hbounded [2, 3] 3 1
  exact ⟨hpattern.mpr (.inl (by decide)), hbyte.mpr (by decide), rfl, rfl⟩

/-- Behind the content, a buffer finds the empty pattern and a span does not,
and the search of a buffer for a byte leaves the content. -/
theorem not_searchesAgree_beyond :
    ¬(ofBytes [1, 2]).PatternSearchesAgree [] 3 ∧
      ¬(ofBytes [1, 2]).ByteSearchesAgree 1 3 := by
  constructor
  · rintro ⟨result, hfind, hspan, _⟩
    have hbuffer : (ofBytes [1, 2]).findPattern [] 3 = some 3 := rfl
    have hnone : (ofBytes [1, 2]).span.findPattern [] 3 = some npos := rfl
    rw [hbuffer] at hfind
    rw [hnone, ← hfind] at hspan
    exact absurd hspan (by decide)
  · rintro ⟨result, hfind, _⟩
    have hnone : (ofBytes [1, 2]).findByte 1 3 = none := rfl
    rw [hnone] at hfind
    cases hfind

end ByteBuffer

end VynxHttp
