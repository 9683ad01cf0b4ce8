import VynxHttp.HttpParser

/-!
# What is read as chunks

The decoder looks at the digits of a size line and at the number of bytes of a
chunk, and at nothing else: not at what follows the digits, and not at the two
bytes behind the data.  `ReadBody` is what it reads; a text starts with at most
one such body (`ReadBody.encode_append_inj`).  The grammar of chunk-coded bodies
has the further conditions of `Grammatical`.
-/

namespace VynxHttp

open DelimitedText

/-! ## Size lines -/

/-- A size line from its first byte on which is not a space. -/
def sizeText (line : Bytes) : Bytes := line.dropWhile (· == space)

def sizeDigits (line : Bytes) : Bytes :=
  (sizeText line).takeWhile (isDigitOf 16)

/-- What follows the digits. -/
def sizeTail (line : Bytes) : Bytes :=
  (sizeText line).dropWhile (isDigitOf 16)

def spelledSize (line : Bytes) : ℕ := digitsValue 16 (sizeDigits line)

def afterSpace : Bytes → Bytes
  | [] => []
  | b :: rest => if b = space then rest else b :: rest

/-- An optional space, and then nothing or an extension. -/
def ExtensionText (tail : Bytes) : Prop :=
  ∀ b ∈ (afterSpace tail).head?, b = semicolon

instance (tail : Bytes) : Decidable (ExtensionText tail) :=
  inferInstanceAs (Decidable (∀ b ∈ (afterSpace tail).head?, _))

theorem cutAt_semicolon (line : Bytes) :
    ∃ rest, line =
        ((cutAt semicolon line).map Prod.fst).getD line ++ rest ∧
      ∀ b ∈ rest.head?, b = semicolon := by
  cases hcut : cutAt semicolon line with
  | none => exact ⟨[], by simp, by simp⟩
  | some cut =>
      obtain ⟨hsplit, _⟩ := cutAt_eq_some hcut
      exact ⟨semicolon :: cut.2, by simpa using hsplit, by simp⟩

theorem takeWhile_chunkLine (line : Bytes) :
    ((((cutAt semicolon line).map Prod.fst).getD line).dropWhile
        (· == space)).takeWhile (isDigitOf 16) = sizeDigits line := by
  obtain ⟨rest, hsplit, hrest⟩ := cutAt_semicolon line
  generalize ((cutAt semicolon line).map Prod.fst).getD line = first
    at hsplit ⊢
  have hdigits : rest.takeWhile (isDigitOf 16) = [] := by
    cases rest with
    | nil => rfl
    | cons b rest =>
        rw [hrest b (by simp)]
        rfl
  have hspaces : rest.dropWhile (· == space) = rest := by
    cases rest with
    | nil => rfl
    | cons b rest =>
        rw [hrest b (by simp)]
        rfl
  rw [sizeDigits, sizeText, hsplit, List.dropWhile_append]
  by_cases hempty : (first.dropWhile (· == space)).isEmpty = true
  · rw [if_pos hempty, hspaces, hdigits, List.isEmpty_iff.mp hempty]
    rfl
  · rw [if_neg hempty, List.takeWhile_append, hdigits, List.append_nil]
    split
    next hall =>
      exact (List.takeWhile_prefix _).eq_of_length hall
    next => rfl

theorem parseChunkSize_eq_ok_iff {line : Bytes} {size : ℕ} :
    parseChunkSize line = .ok size ↔
      sizeDigits line ≠ [] ∧ spelledSize line = size ∧
        size ≤ maxChunkSize := by
  have hdigits := takeWhile_chunkLine line
  unfold parseChunkSize
  simp only [fromChars, hdigits]
  generalize (((cutAt semicolon line).map Prod.fst).getD line).dropWhile
    (· == space) = hexStr at hdigits
  by_cases hempty : hexStr = []
  · have hnone : sizeDigits line = [] := by rw [← hdigits, hempty]; rfl
    simp [hempty, hnone]
  · rw [if_neg hempty]
    by_cases hnone : sizeDigits line = []
    · simp [hnone]
    · rw [if_neg hnone]
      have hvalue : digitsValue 16 (sizeDigits line) = spelledSize line := rfl
      simp only [hvalue]
      have hlimit : maxChunkSize < 2 ^ 64 := by decide
      by_cases hfits : spelledSize line < 2 ^ 64
      · rw [if_pos hfits]
        simp only
        by_cases hover : maxChunkSize < spelledSize line
        · rw [if_pos hover]
          simp only [reduceCtorEq, false_iff, not_and]
          intro _ heq
          omega
        · rw [if_neg hover, Except.ok.injEq]
          constructor
          · intro heq
            exact ⟨hnone, heq, by omega⟩
          · exact fun h => h.2.1
      · rw [if_neg hfits]
        simp only [reduceCtorEq, false_iff, not_and]
        intro _ heq
        omega

/-! ## Chunks and bodies -/

/-- What the decoder takes for a chunk. -/
@[ext]
structure ReadChunk where
  line : Bytes
  data : Bytes
  ending : Bytes
  line_free : Free cr lf line
  digits_ne : sizeDigits line ≠ []
  size_eq : spelledSize line = data.length
  data_ne : data ≠ []
  data_le : data.length ≤ maxChunkSize
  ending_length : ending.length = 2

namespace ReadChunk

def encode (chunk : ReadChunk) : Bytes :=
  chunk.line ++ cr :: lf :: (chunk.data ++ chunk.ending)

/-- The number on the size line ends where it should, and so do the data. -/
def Grammatical (chunk : ReadChunk) : Prop :=
  ExtensionText (sizeTail chunk.line) ∧ chunk.ending = crlf

instance (chunk : ReadChunk) : Decidable chunk.Grammatical :=
  inferInstanceAs (Decidable (_ ∧ _))

theorem encode_append (chunk : ReadChunk) (rest : Bytes) :
    chunk.encode ++ rest =
      chunk.line ++ cr :: lf :: (chunk.data ++ (chunk.ending ++ rest)) := by
  simp [encode]

theorem parseChunkSize_line (chunk : ReadChunk) :
    parseChunkSize chunk.line = .ok chunk.data.length :=
  parseChunkSize_eq_ok_iff.mpr
    ⟨chunk.digits_ne, chunk.size_eq, chunk.data_le⟩

end ReadChunk

/-- What the decoder takes for a body, up to the end of the last size line. -/
@[ext]
structure ReadBody where
  chunks : List ReadChunk
  last : Bytes
  last_free : Free cr lf last
  last_digits : sizeDigits last ≠ []
  last_size : spelledSize last = 0

namespace ReadBody

/-- A body with the last size line `0`. -/
def ofChunks (chunks : List ReadChunk) : ReadBody where
  chunks
  last := ascii "0"
  last_free := by decide
  last_digits := by decide
  last_size := by decide

def encode (body : ReadBody) : Bytes :=
  body.chunks.flatMap ReadChunk.encode ++ (body.last ++ crlf)

def data (body : ReadBody) : Bytes := body.chunks.flatMap ReadChunk.data

/-- The body obeys the grammar of chunk-coded bodies. -/
def Grammatical (body : ReadBody) : Prop :=
  (∀ chunk ∈ body.chunks, chunk.Grammatical) ∧
    ExtensionText (sizeTail body.last)

theorem parseChunkSize_last (body : ReadBody) :
    parseChunkSize body.last = .ok 0 :=
  parseChunkSize_eq_ok_iff.mpr
    ⟨body.last_digits, body.last_size, Nat.zero_le _⟩

end ReadBody

/-- The first line of a text is determined by the text. -/
theorem line_append_inj {line line' rest rest' : Bytes}
    (hfree : Free cr lf line) (hfree' : Free cr lf line')
    (htext : line ++ cr :: lf :: rest = line' ++ cr :: lf :: rest') :
    line = line' ∧ rest = rest' := by
  have hne : cr ≠ lf := by decide
  have hlength : line.length = line'.length := by
    have hfind := findDelim_append hne hfree rest
    rw [htext, findDelim_append hne hfree', Option.some.injEq] at hfind
    exact hfind.symm
  obtain ⟨hline, hrest⟩ := List.append_inj htext hlength
  simp only [List.cons.injEq, true_and] at hrest
  exact ⟨hline, hrest⟩

theorem ReadChunk.encode_append_inj {first second : ReadChunk}
    {rest rest' : Bytes}
    (htext : first.encode ++ rest = second.encode ++ rest') :
    first = second ∧ rest = rest' := by
  rw [encode_append, encode_append] at htext
  obtain ⟨hline, htext⟩ :=
    line_append_inj first.line_free second.line_free htext
  have hsize : first.data.length = second.data.length := by
    rw [← first.size_eq, ← second.size_eq, hline]
  obtain ⟨hdata, htext⟩ := List.append_inj htext hsize
  have hending : first.ending.length = second.ending.length := by
    rw [first.ending_length, second.ending_length]
  obtain ⟨hending, hrest⟩ := List.append_inj htext hending
  exact ⟨ReadChunk.ext hline hdata hending, hrest⟩

theorem ReadChunk.encode_ne_last (chunk : ReadChunk) (body : ReadBody)
    (rest rest' : Bytes) :
    chunk.encode ++ rest ≠ body.last ++ crlf ++ rest' := by
  intro htext
  rw [encode_append, List.append_assoc] at htext
  obtain ⟨hline, _⟩ :=
    line_append_inj chunk.line_free body.last_free htext
  have hsize := chunk.size_eq
  rw [hline, body.last_size] at hsize
  exact chunk.data_ne (List.length_eq_zero_iff.mp hsize.symm)

/-- There is one way at most to read the start of a text as a body. -/
theorem ReadBody.encode_append_inj {first second : ReadBody}
    {rest rest' : Bytes}
    (htext : first.encode ++ rest = second.encode ++ rest') :
    first = second ∧ rest = rest' := by
  obtain ⟨chunks, last, hfree, hdigits, hsize⟩ := first
  induction chunks generalizing second with
  | nil =>
      obtain ⟨chunks', last', hfree', hdigits', hsize'⟩ := second
      cases chunks' with
      | nil =>
          simp only [encode, List.flatMap_nil, List.nil_append,
            List.append_assoc] at htext
          obtain ⟨hlast, hrest⟩ := line_append_inj hfree hfree' htext
          exact ⟨ReadBody.ext rfl hlast, hrest⟩
      | cons chunk chunks' =>
          simp only [encode, List.flatMap_nil, List.nil_append,
            List.flatMap_cons, List.append_assoc] at htext
          exact absurd htext.symm (by
            simpa using chunk.encode_ne_last
              ⟨[], last, hfree, hdigits, hsize⟩ _ rest)
  | cons chunk chunks ih =>
      obtain ⟨chunks', last', hfree', hdigits', hsize'⟩ := second
      cases chunks' with
      | nil =>
          simp only [encode, List.flatMap_nil, List.nil_append,
            List.flatMap_cons, List.append_assoc] at htext
          exact absurd htext (by
            simpa using chunk.encode_ne_last
              ⟨[], last', hfree', hdigits', hsize'⟩ _ rest')
      | cons chunk' chunks' =>
          simp only [encode, List.flatMap_cons, List.append_assoc] at htext
          obtain ⟨rfl, htail⟩ := ReadChunk.encode_append_inj htext
          have htext' : encode ⟨chunks, last, hfree, hdigits, hsize⟩ ++ rest =
              encode ⟨chunks', last', hfree', hdigits', hsize'⟩ ++ rest' := by
            simpa [encode] using htail
          obtain ⟨hbody, hrest⟩ := ih htext'
          simp only [ReadBody.mk.injEq] at hbody
          obtain ⟨rfl, rfl⟩ := hbody
          exact ⟨rfl, hrest⟩

end VynxHttp
