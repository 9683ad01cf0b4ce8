import Mathlib.Data.Nat.Digits.Lemmas

/-!
# Byte strings and the library functions applied to them

`std::string`, `std::string_view` and `byte_span` contents are lists of bytes.
This file has the few functions of the C++ standard library which the client
calls on them: `std::tolower` in the "C" locale, `std::from_chars` for the
unsigned types and `std::to_string`.
-/

namespace VynxHttp

abbrev Bytes := List UInt8

def ascii (text : String) : Bytes :=
  text.toList.map fun c => c.toNat.toUInt8

/-- Quantifiers over the bytes of a text are decided byte by byte, not by going
through all bytes there are. -/
instance (priority := high) decidableForallByte (text : Bytes)
    (p : UInt8 → Prop) [DecidablePred p] : Decidable (∀ b ∈ text, p b) :=
  List.decidableBAll p text

instance (priority := high) decidableForallHead (head : Option UInt8)
    (p : UInt8 → Prop) [DecidablePred p] : Decidable (∀ b ∈ head, p b) :=
  Option.decidableForallMem head

def cr : UInt8 := 13
def lf : UInt8 := 10
def crlf : Bytes := [cr, lf]
def space : UInt8 := 32
def tab : UInt8 := 9
def colon : UInt8 := 58
def semicolon : UInt8 := 59

/-- `std::tolower` on one byte. -/
def toLower (b : UInt8) : UInt8 :=
  if 65 ≤ b ∧ b ≤ 90 then b + 32 else b

/-- The comparison loop of the sources: equal sizes, and equal bytes after
`std::tolower`. -/
def equalsIgnoreCase (a b : Bytes) : Bool :=
  a.map toLower == b.map toLower

@[simp] theorem equalsIgnoreCase_iff {a b : Bytes} :
    equalsIgnoreCase a b = true ↔ a.map toLower = b.map toLower := by
  simp [equalsIgnoreCase]

theorem notMem_of_equalsIgnoreCase {b : UInt8} {key name : Bytes}
    (hkey : equalsIgnoreCase key name = true)
    (hb : toLower b ∉ name.map toLower) : b ∉ key := by
  intro hmem
  rw [← equalsIgnoreCase_iff.mp hkey] at hb
  exact hb (List.mem_map_of_mem hmem)

theorem equalsIgnoreCase_of_ne {key name other : Bytes}
    (hkey : equalsIgnoreCase key name = true)
    (hother : equalsIgnoreCase name other = false) :
    equalsIgnoreCase key other = false := by
  have hsame := equalsIgnoreCase_iff.mp hkey
  simpa [equalsIgnoreCase, hsame] using hother

/-- A string view cut at the first occurrence of a byte: what stands before
it and what stands after it.  The sources write this as `find` followed by two
calls of `substr`. -/
def cutAt (c : UInt8) : Bytes → Option (Bytes × Bytes)
  | [] => none
  | b :: rest =>
      if b = c then some ([], rest)
      else (cutAt c rest).map fun cut => (b :: cut.1, cut.2)

theorem cutAt_eq_none_iff {c : UInt8} {text : Bytes} :
    cutAt c text = none ↔ c ∉ text := by
  induction text with
  | nil => simp [cutAt]
  | cons b text ih =>
      by_cases hb : b = c
      · simp [cutAt, hb]
      · simp [cutAt, hb, ih, Ne.symm hb]

theorem cutAt_append {c : UInt8} {before : Bytes} (hmem : c ∉ before)
    (after : Bytes) :
    cutAt c (before ++ c :: after) = some (before, after) := by
  induction before with
  | nil => simp [cutAt]
  | cons b before ih =>
      rw [List.mem_cons, not_or] at hmem
      simp [cutAt, Ne.symm hmem.1, ih hmem.2]

theorem cutAt_eq_some {c : UInt8} {text before after : Bytes}
    (hcut : cutAt c text = some (before, after)) :
    text = before ++ c :: after ∧ c ∉ before := by
  induction text generalizing before with
  | nil => simp [cutAt] at hcut
  | cons b text ih =>
      rw [cutAt] at hcut
      split at hcut
      next hb =>
        simp only [Option.some.injEq, Prod.mk.injEq] at hcut
        simp [← hcut.1, ← hcut.2, hb]
      next hb =>
        obtain ⟨⟨rest, after'⟩, hrest, hpair⟩ :=
          Option.map_eq_some_iff.mp hcut
        simp only [Prod.mk.injEq] at hpair
        obtain ⟨rfl, rfl⟩ := hpair
        obtain ⟨htext, hmem⟩ := ih hrest
        exact ⟨by simp [htext], by simp [Ne.symm hb, hmem]⟩

/-! ## Digits -/

/-- The value of a digit or letter, as `std::from_chars` reads it. -/
def digitValue (b : UInt8) : Option ℕ :=
  if 48 ≤ b ∧ b ≤ 57 then some (b.toNat - 48)
  else if 97 ≤ b ∧ b ≤ 122 then some (b.toNat - 87)
  else if 65 ≤ b ∧ b ≤ 90 then some (b.toNat - 55)
  else none

def isDigitOf (base : ℕ) (b : UInt8) : Bool :=
  (digitValue b).any (· < base)

def digitsValue (base : ℕ) (digits : Bytes) : ℕ :=
  digits.foldl (fun value b => value * base + (digitValue b).getD 0) 0

/-- `std::from_chars` into an unsigned type with `limit` values: the longest
prefix of digits, its value and what follows it.  `none` stands for either
error code: no digit at all, or a value out of range. -/
def fromChars (base limit : ℕ) (text : Bytes) : Option (ℕ × Bytes) :=
  let digits := text.takeWhile (isDigitOf base)
  if digits = [] then none
  else if digitsValue base digits < limit then
    some (digitsValue base digits, text.dropWhile (isDigitOf base))
  else none

/-- `std::to_string` of an unsigned value. -/
def decimal (n : ℕ) : Bytes :=
  if n = 0 then [48]
  else (Nat.digits 10 n).reverse.map fun d => (48 + d).toUInt8

theorem fromChars_append
    {base limit : ℕ} {digits : Bytes} (rest : Bytes)
    (hne : digits ≠ []) (hdigits : ∀ b ∈ digits, isDigitOf base b = true)
    (hrest : ∀ b ∈ rest.head?, isDigitOf base b = false)
    (hlimit : digitsValue base digits < limit) :
    fromChars base limit (digits ++ rest) =
      some (digitsValue base digits, rest) := by
  have htake : rest.takeWhile (isDigitOf base) = [] := by
    cases rest with
    | nil => rfl
    | cons b rest => simp [hrest b (by simp)]
  have hdrop : rest.dropWhile (isDigitOf base) = rest := by
    cases rest with
    | nil => rfl
    | cons b rest => simp [hrest b (by simp)]
  have hinitial :
      (digits ++ rest).takeWhile (isDigitOf base) = digits := by
    rw [List.takeWhile_append_of_pos hdigits, htake, List.append_nil]
  have hsuffix :
      (digits ++ rest).dropWhile (isDigitOf base) = rest := by
    rw [List.dropWhile_append_of_pos hdigits, hdrop]
  simp only [fromChars, hinitial, hsuffix, if_neg hne, if_pos hlimit]

theorem fromChars_lt {base limit value : ℕ} {text rest : Bytes}
    (hread : fromChars base limit text = some (value, rest)) :
    value < limit := by
  unfold fromChars at hread
  simp only at hread
  split at hread
  next => simp at hread
  next =>
    split at hread
    next hlimit =>
      simp only [Option.some.injEq, Prod.mk.injEq] at hread
      exact hread.1 ▸ hlimit
    next => simp at hread

theorem digitValue_ofNat {d : ℕ} (hd : d < 10) :
    digitValue (48 + d).toUInt8 = some d := by
  interval_cases d <;> decide

theorem foldl_digits (base : ℕ) (digits : List ℕ)
    (hdigits : ∀ d ∈ digits, d < 10) (value : ℕ) :
    (digits.map fun d => (48 + d).toUInt8).foldl
        (fun value b => value * base + (digitValue b).getD 0) value =
      value * base ^ digits.length +
        Nat.ofDigits base digits.reverse := by
  induction digits generalizing value with
  | nil => simp
  | cons d digits ih =>
      have hd : d < 10 := hdigits d (by simp)
      have htail : ∀ e ∈ digits, e < 10 := fun e he =>
        hdigits e (by simp [he])
      simp only [List.map_cons, List.foldl_cons, digitValue_ofNat hd,
        Option.getD_some]
      rw [ih htail, List.reverse_cons, Nat.ofDigits_append,
        Nat.ofDigits_singleton, List.length_reverse, List.length_cons]
      ring

theorem decimal_ne_nil (n : ℕ) : decimal n ≠ [] := by
  unfold decimal
  split
  next => simp
  next hn => simpa using Nat.digits_ne_nil_iff_ne_zero.mpr hn

theorem decimal_eq_map (n : ℕ) :
    ∃ digits : List ℕ, (∀ d ∈ digits, d < 10) ∧
      Nat.ofDigits 10 digits.reverse = n ∧
      decimal n = digits.map fun d => (48 + d).toUInt8 := by
  by_cases hn : n = 0
  · exact ⟨[0], by simp, by simp [hn], by simp [decimal, hn]⟩
  · refine ⟨(Nat.digits 10 n).reverse, ?_, ?_, by simp [decimal, hn]⟩
    · intro d hd
      exact Nat.digits_lt_base (by norm_num) (List.mem_reverse.mp hd)
    · rw [List.reverse_reverse, Nat.ofDigits_digits]

theorem digitsValue_decimal (n : ℕ) :
    digitsValue 10 (decimal n) = n := by
  obtain ⟨digits, hdigits, hvalue, hdecimal⟩ := decimal_eq_map n
  rw [hdecimal, digitsValue, foldl_digits 10 digits hdigits 0, hvalue]
  simp

def isDecimalDigit (b : UInt8) : Prop := 48 ≤ b ∧ b ≤ 57

instance : DecidablePred isDecimalDigit := fun b =>
  inferInstanceAs (Decidable (48 ≤ b ∧ b ≤ 57))

theorem isDecimalDigit_of_mem_decimal {n : ℕ} {b : UInt8}
    (hmem : b ∈ decimal n) : isDecimalDigit b := by
  obtain ⟨digits, hdigits, _, hdecimal⟩ := decimal_eq_map n
  rw [hdecimal] at hmem
  obtain ⟨d, hd, rfl⟩ := List.mem_map.mp hmem
  have hlt := hdigits d hd
  interval_cases d <;> decide

theorem isDigitOf_ten_of_isDecimalDigit {b : UInt8}
    (hb : isDecimalDigit b) : isDigitOf 10 b = true := by
  have hvalue : digitValue b = some (b.toNat - 48) := if_pos hb
  have hle : b.toNat ≤ 57 := UInt8.le_iff_toNat_le.mp hb.2
  simp only [isDigitOf, hvalue, Option.any_some, decide_eq_true_eq]
  omega

/-- `std::from_chars` reads back what `std::to_string` wrote. -/
theorem fromChars_decimal {n limit : ℕ} (hlimit : n < limit) :
    fromChars 10 limit (decimal n) = some (n, []) := by
  have hread :=
    fromChars_append [] (decimal_ne_nil n)
      (fun b hb =>
        isDigitOf_ten_of_isDecimalDigit (isDecimalDigit_of_mem_decimal hb))
      (by simp) (by rwa [digitsValue_decimal])
  rwa [List.append_nil, digitsValue_decimal] at hread

end VynxHttp
