import VynxHttp.StatusCode

/-!
# Well-formed responses

What a server may send, stated without the parser: a response head, and the
chunk-coded body with its extensions and trailer fields.  The conditions of the
grammar are fields of the structures.  The second half shows that the line
parsers read every well-formed line as what it says.
-/

namespace VynxHttp

open DelimitedText

structure LineText (text : Bytes) : Prop where
  noCr : cr ∉ text
  noLf : lf ∉ text

instance (text : Bytes) : Decidable (LineText text) :=
  decidable_of_iff (cr ∉ text ∧ lf ∉ text)
    ⟨fun h => ⟨h.1, h.2⟩, fun h => ⟨h.noCr, h.noLf⟩⟩

theorem LineText.free {text : Bytes} (htext : LineText text) :
    Free cr lf text :=
  free_of_notMem_left htext.noCr

theorem LineText.append {first second : Bytes}
    (hfirst : LineText first) (hsecond : LineText second) :
    LineText (first ++ second) where
  noCr := by simp [hfirst.noCr, hsecond.noCr]
  noLf := by simp [hfirst.noLf, hsecond.noLf]

theorem LineText.of_all {text : Bytes}
    (hall : ∀ b ∈ text, b ≠ cr ∧ b ≠ lf) : LineText text where
  noCr := fun hmem => (hall cr hmem).1 rfl
  noLf := fun hmem => (hall lf hmem).2 rfl

/-- A field value has no blank at either end. -/
def Trimmed (value : Bytes) : Prop :=
  (∀ b ∈ value.head?, isBlank b = false) ∧
    ∀ b ∈ value.getLast?, isBlank b = false

instance (value : Bytes) : Decidable (Trimmed value) :=
  inferInstanceAs (Decidable (_ ∧ _))

/-! ## Heads -/

structure HeaderField.Valid (field : HeaderField) : Prop where
  name_ne : field.name ≠ []
  name_colon : colon ∉ field.name
  name_text : LineText field.name
  value_text : LineText field.value
  value_trimmed : Trimmed field.value

instance (field : HeaderField) : Decidable field.Valid :=
  decidable_of_iff
    (field.name ≠ [] ∧ colon ∉ field.name ∧ LineText field.name ∧
      LineText field.value ∧ Trimmed field.value)
    ⟨fun ⟨hne, hcolon, hname, hvalue, htrimmed⟩ =>
        ⟨hne, hcolon, hname, hvalue, htrimmed⟩,
      fun h => ⟨h.name_ne, h.name_colon, h.name_text, h.value_text,
        h.value_trimmed⟩⟩

/-- A field line: the name, a colon, and the value between optional blanks. -/
structure FieldLine where
  name : Bytes
  before : Bytes
  value : Bytes
  after : Bytes
  name_ne : name ≠ []
  name_colon : colon ∉ name
  name_text : LineText name
  before_blank : ∀ b ∈ before, isBlank b = true
  value_text : LineText value
  value_trimmed : Trimmed value
  after_blank : ∀ b ∈ after, isBlank b = true

namespace FieldLine

def field (line : FieldLine) : HeaderField := ⟨line.name, line.value⟩

def text (line : FieldLine) : Bytes :=
  line.name ++ colon :: (line.before ++ line.value ++ line.after)

/-- A field written with one blank after the colon. -/
def plain (field : HeaderField) (hvalid : field.Valid) : FieldLine where
  name := field.name
  before := [space]
  value := field.value
  after := []
  name_ne := hvalid.name_ne
  name_colon := hvalid.name_colon
  name_text := hvalid.name_text
  before_blank := by decide
  value_text := hvalid.value_text
  value_trimmed := hvalid.value_trimmed
  after_blank := by simp

end FieldLine

theorem isDecimalDigit_one : isDecimalDigit 49 := by decide

structure ResponseHead where
  minor : UInt8
  code : ℕ
  reason : Bytes
  fieldLines : List FieldLine
  minor_digit : isDecimalDigit minor
  code_ge : 100 ≤ code
  code_le : code ≤ 599
  reason_text : LineText reason

namespace ResponseHead

/-- `HTTP/1.1 200 OK`. -/
def ok (fieldLines : List FieldLine) : ResponseHead where
  minor := 49
  code := 200
  reason := ascii "OK"
  fieldLines
  minor_digit := isDecimalDigit_one
  code_ge := by decide
  code_le := by decide
  reason_text := by decide

def statusText (head : ResponseHead) : Bytes :=
  ascii "HTTP/1." ++ head.minor :: space ::
    (decimal head.code ++ space :: head.reason)

def headers (head : ResponseHead) : HttpHeaders :=
  ⟨head.fieldLines.map FieldLine.field⟩

def lines (head : ResponseHead) : List Bytes :=
  head.statusText :: head.fieldLines.map FieldLine.text

def encode (head : ResponseHead) : Bytes :=
  encodeBlock cr lf head.lines []

/-- What the response says before any body has come. -/
def value (head : ResponseHead) : ResponseValue where
  statusCode := head.code.toUInt16
  reason := head.reason
  fields := head.headers.fields
  body := []

/-- No line is longer than the 8 KB limit allows for. -/
def WithinLimit (head : ResponseHead) : Prop :=
  ∀ line ∈ head.lines, line.length < maxHeaderBuffer

instance (head : ResponseHead) : Decidable head.WithinLimit :=
  inferInstanceAs (Decidable (∀ line ∈ head.lines, _))

end ResponseHead

/-! ## Chunk-coded bodies -/

/-- A chunk-size line: the size in hexadecimal, with any letter case and any
leading zeros, and the chunk extensions. -/
structure SizeLine where
  spelling : Bytes
  extension : Bytes
  spelling_ne : spelling ≠ []
  spelling_hex : ∀ b ∈ spelling, isDigitOf 16 b = true
  extension_text : LineText extension
  extension_head : ∀ b ∈ (extension.dropWhile isBlank).head?, b = semicolon

namespace SizeLine

/-- A size line without extensions. -/
def plain (spelling : Bytes) (hne : spelling ≠ [])
    (hhex : ∀ b ∈ spelling, isDigitOf 16 b = true) : SizeLine where
  spelling
  extension := []
  spelling_ne := hne
  spelling_hex := hhex
  extension_text := by decide
  extension_head := by decide

def zero : SizeLine := plain (ascii "0") (by decide) (by decide)

def text (line : SizeLine) : Bytes := line.spelling ++ line.extension

def size (line : SizeLine) : ℕ := digitsValue 16 line.spelling

def encode (line : SizeLine) : Bytes := line.text ++ crlf

end SizeLine

structure Chunk where
  sizeLine : SizeLine
  data : Bytes
  data_ne : data ≠ []
  data_le : data.length ≤ maxChunkSize
  size_eq : sizeLine.size = data.length

namespace Chunk

def payload (chunk : Chunk) : Bytes := chunk.data ++ crlf

def encode (chunk : Chunk) : Bytes :=
  chunk.sizeLine.encode ++ chunk.payload

end Chunk

def encodeChunks (chunks : List Chunk) : Bytes :=
  chunks.flatMap Chunk.encode

def chunksData (chunks : List Chunk) : Bytes :=
  chunks.flatMap Chunk.data

/-- A response whose head selects the chunked coding. -/
structure ChunkedResponse where
  head : ResponseHead
  chunks : List Chunk
  last : SizeLine
  trailers : List FieldLine
  chunked : head.headers.isChunked = true
  last_size : last.size = 0

namespace ChunkedResponse

/-- The trailer section with the empty line which ends the message. -/
def trailerText (response : ChunkedResponse) : Bytes :=
  encodeBlock cr lf (response.trailers.map FieldLine.text) []

def bodyText (response : ChunkedResponse) : Bytes :=
  encodeChunks response.chunks ++
    (response.last.encode ++ response.trailerText)

def encode (response : ChunkedResponse) : Bytes :=
  response.head.encode ++ response.bodyText

def value (response : ChunkedResponse) : ResponseValue :=
  response.head.value.appendBody (chunksData response.chunks)

end ChunkedResponse

/-! ## The line parsers on well-formed lines -/

theorem dropWhile_append_of_all {p : UInt8 → Bool} {blanks : Bytes}
    (rest : Bytes)
    (hblanks : ∀ b ∈ blanks, p b = true)
    (hrest : ∀ b ∈ rest.head?, p b = false) :
    (blanks ++ rest).dropWhile p = rest := by
  rw [List.dropWhile_append_of_pos hblanks]
  cases rest with
  | nil => rfl
  | cons b rest => simp [hrest b (by simp)]

theorem trimBlanks_of_trimmed {before value after : Bytes}
    (hbefore : ∀ b ∈ before, isBlank b = true) (hvalue : Trimmed value)
    (hafter : ∀ b ∈ after, isBlank b = true) :
    trimBlanks (before ++ value ++ after) = value := by
  have hreverse : ∀ b ∈ after.reverse, isBlank b = true := fun b hb =>
    hafter b (List.mem_reverse.mp hb)
  unfold trimBlanks
  rw [List.append_assoc]
  by_cases hempty : value = []
  · have hall : ∀ b ∈ before ++ after, isBlank b = true := by
      intro b hb
      exact (List.mem_append.mp hb).elim (hbefore b) (hafter b)
    have hdrop : (before ++ after).dropWhile isBlank = [] := by
      simpa using dropWhile_append_of_all [] hall (by simp)
    simp [hempty, hdrop]
  · have hhead : ∀ b ∈ (value ++ after).head?, isBlank b = false := by
      intro b hb
      rw [List.head?_append_of_ne_nil _ hempty] at hb
      exact hvalue.1 b hb
    have hlast : ∀ b ∈ value.reverse.head?, isBlank b = false := by
      intro b hb
      rw [List.head?_reverse] at hb
      exact hvalue.2 b hb
    rw [dropWhile_append_of_all _ hbefore hhead, List.reverse_append,
      dropWhile_append_of_all _ hreverse hlast, List.reverse_reverse]

namespace FieldLine

theorem parseHeaderLine_text (line : FieldLine) :
    parseHeaderLine line.text = .ok line.field := by
  unfold parseHeaderLine text
  rw [cutAt_append line.name_colon]
  simp only [if_neg line.name_ne, field]
  rw [trimBlanks_of_trimmed line.before_blank line.value_trimmed
    line.after_blank]

theorem lineText_of_blanks {blanks : Bytes}
    (hblanks : ∀ b ∈ blanks, isBlank b = true) : LineText blanks := by
  refine LineText.of_all fun b hb => ⟨?_, ?_⟩
  · rintro rfl
    exact absurd (hblanks cr hb) (by decide)
  · rintro rfl
    exact absurd (hblanks lf hb) (by decide)

theorem text_lineText (line : FieldLine) : LineText line.text := by
  have hcolon : LineText [colon] := by decide
  have hrest : LineText (line.before ++ line.value ++ line.after) :=
    ((lineText_of_blanks line.before_blank).append line.value_text).append
      (lineText_of_blanks line.after_blank)
  exact line.name_text.append (hcolon.append hrest)

theorem text_ne_nil (line : FieldLine) : line.text ≠ [] := by
  simp [text]

end FieldLine

theorem readStatusCode_decimal {code : ℕ} (hfits : code < 2 ^ 31) :
    readStatusCode (decimal code) = some (code : ℤ) := by
  have hself := (numeral_decimal code).leadingDigits_eq
  have hbound : digitsValue 10 (leadingDigits (decimal code)) < 2 ^ 31 := by
    rw [hself, digitsValue_decimal]
    exact hfits
  rw [readStatusCode_eq hbound, if_pos hself, digitsValue_decimal]

namespace ResponseHead

theorem parseStatusLine_statusText (head : ResponseHead) :
    parseStatusLine head.statusText =
      .ok (head.code.toUInt16, head.reason) := by
  have hge := head.code_ge
  have hle := head.code_le
  have hminor : space ∉ ascii "HTTP/1." ++ [head.minor] := by
    rw [List.mem_append, not_or]
    refine ⟨by decide, fun hmem => ?_⟩
    rw [List.mem_singleton] at hmem
    have hdigit := head.minor_digit
    rw [← hmem] at hdigit
    exact absurd hdigit (by decide)
  have hcode : space ∉ decimal head.code := fun hmem =>
    absurd (isDecimalDigit_of_mem_decimal hmem) (by decide)
  have hversion : cutAt space head.statusText =
      some (ascii "HTTP/1." ++ [head.minor],
        decimal head.code ++ space :: head.reason) := by
    have hcut := cutAt_append hminor
      (decimal head.code ++ space :: head.reason)
    simpa [statusText] using hcut
  have hrest : cutAt space (decimal head.code ++ space :: head.reason) =
      some (decimal head.code, head.reason) := cutAt_append hcode _
  have hinitial : (ascii "HTTP/1." ++ [head.minor]).length = 8 ∧
      (ascii "HTTP/1." ++ [head.minor]).take 7 = ascii "HTTP/1." := by
    constructor <;> simp [ascii]
  have hrange : ¬ ((head.code : ℤ) < 100 ∨ 599 < (head.code : ℤ)) := by
    omega
  unfold parseStatusLine
  rw [hversion]
  simp only [hinitial, hrest, Option.getD_some, lt_irrefl, ne_eq,
    not_true_eq_false, or_self, if_false, decimal_ne_nil,
    readStatusCode_decimal (show head.code < 2 ^ 31 by omega), if_neg hrange,
    Int.toNat_natCast]

theorem statusText_lineText (head : ResponseHead) :
    LineText head.statusText := by
  have hdigit : ∀ {b : UInt8}, isDecimalDigit b → b ≠ cr ∧ b ≠ lf := by
    rintro b hb
    refine ⟨?_, ?_⟩ <;> rintro rfl <;> exact absurd hb (by decide)
  have hversion : LineText (ascii "HTTP/1.") := by decide
  have hminor : LineText [head.minor] := by
    refine LineText.of_all fun b hb => ?_
    rw [List.mem_singleton.mp hb]
    exact hdigit head.minor_digit
  have hspace : LineText [space] := by decide
  have hcode : LineText (decimal head.code) :=
    LineText.of_all fun b hb => hdigit (isDecimalDigit_of_mem_decimal hb)
  have htext := hversion.append (hminor.append (hspace.append
    (hcode.append (hspace.append head.reason_text))))
  simpa [statusText] using htext

end ResponseHead

namespace SizeLine

theorem isBlank_or_semicolon_of_head (line : SizeLine) {b : UInt8}
    (hb : b ∈ line.extension.head?) : isBlank b = true ∨ b = semicolon := by
  cases hblank : isBlank b with
  | true => exact .inl rfl
  | false =>
      right
      apply line.extension_head
      cases hext : line.extension with
      | nil => simp [hext] at hb
      | cons c rest =>
          simp only [hext, List.head?_cons, Option.mem_def,
            Option.some.injEq] at hb
          subst hb
          simp [hblank]

theorem parseChunkSize_text (line : SizeLine)
    (hsize : line.size ≤ maxChunkSize) :
    parseChunkSize line.text = .ok line.size := by
  have hsemicolon : semicolon ∉ line.spelling := fun hmem =>
    absurd (line.spelling_hex _ hmem) (by decide)
  have hhead : ∀ b, isBlank b = true ∨ b = semicolon →
      isDigitOf 16 b = false := by
    rintro b (hblank | rfl)
    · simp only [isBlank, Bool.or_eq_true, beq_iff_eq] at hblank
      rcases hblank with rfl | rfl <;> decide
    · decide
  -- what is left of the line when the extension is cut off at its `;`
  obtain ⟨rest, hcut, hrest⟩ : ∃ rest,
      ((cutAt semicolon line.text).map Prod.fst).getD line.text =
        line.spelling ++ rest ∧
      ∀ b ∈ rest.head?, isDigitOf 16 b = false := by
    cases hext : cutAt semicolon line.extension with
    | none =>
        have hnone : cutAt semicolon line.text = none := by
          rw [cutAt_eq_none_iff] at hext ⊢
          simp [text, hsemicolon, hext]
        refine ⟨line.extension, by rw [hnone]; rfl, fun b hb => ?_⟩
        exact hhead b (isBlank_or_semicolon_of_head line hb)
    | some cut =>
        obtain ⟨hsplit, hmem⟩ := cutAt_eq_some hext
        have hsome : cutAt semicolon line.text =
            some (line.spelling ++ cut.1, cut.2) := by
          have hline : line.text =
              (line.spelling ++ cut.1) ++ semicolon :: cut.2 := by
            rw [text, hsplit, List.append_assoc]
          rw [hline]
          exact cutAt_append (by simp [hsemicolon, hmem]) _
        refine ⟨cut.1, by rw [hsome]; rfl, fun b hb => ?_⟩
        apply hhead b
        apply isBlank_or_semicolon_of_head line
        cases hfirst : cut.1 with
        | nil => simp [hfirst] at hb
        | cons c more =>
            rw [hsplit, hfirst]
            simpa [hfirst] using hb
  have hspaces : (line.spelling ++ rest).dropWhile (· == space) =
      line.spelling ++ rest := by
    cases hspelling : line.spelling with
    | nil => exact absurd hspelling line.spelling_ne
    | cons b spelling =>
        have hb : b ≠ space := by
          rintro rfl
          exact absurd (line.spelling_hex space (by simp [hspelling]))
            (by decide)
        simp [hb]
  have hread : fromChars 16 (2 ^ 64) (line.spelling ++ rest) =
      some (line.size, rest) :=
    fromChars_append _ line.spelling_ne line.spelling_hex hrest
      (lt_of_le_of_lt hsize (by decide))
  simp only [parseChunkSize, hcut, hspaces, hread, List.append_eq_nil_iff,
    line.spelling_ne, false_and, if_false, if_neg (not_lt.mpr hsize)]

theorem text_lineText (line : SizeLine) : LineText line.text := by
  refine LineText.append (LineText.of_all fun b hb => ⟨?_, ?_⟩)
    line.extension_text
  all_goals
    rintro rfl
    exact absurd (line.spelling_hex _ hb) (by decide)

end SizeLine

end VynxHttp
