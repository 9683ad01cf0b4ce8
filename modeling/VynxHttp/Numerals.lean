import Mathlib.Data.List.TakeWhile
import VynxHttp.ByteString

/-!
# Decimal numerals

`std::from_chars` reads the digits with which a text begins and says where they
end.  A caller which does not ask where takes a text for a number when only its
beginning is one.
-/

namespace VynxHttp

/-- A text of decimal digits only. -/
structure Numeral (text : Bytes) : Prop where
  ne_nil : text ≠ []
  digits : ∀ b ∈ text, isDecimalDigit b

instance : DecidablePred Numeral := fun text =>
  decidable_of_iff (text ≠ [] ∧ ∀ b ∈ text, isDecimalDigit b)
    ⟨fun h => ⟨h.1, h.2⟩, fun h => ⟨h.1, h.2⟩⟩

def leadingDigits (text : Bytes) : Bytes :=
  text.takeWhile (isDigitOf 10)

/-- What stands after the digits of a text. -/
def afterDigits (text : Bytes) : Bytes :=
  text.dropWhile (isDigitOf 10)

theorem isDigitOf_ten_iff {b : UInt8} :
    isDigitOf 10 b = true ↔ isDecimalDigit b := by
  refine ⟨fun hdigit => ?_, isDigitOf_ten_of_isDecimalDigit⟩
  unfold isDigitOf digitValue at hdigit
  unfold isDecimalDigit
  split at hdigit
  next hrange => exact hrange
  next =>
    split at hdigit
    next hletter =>
      have hlow : 97 ≤ b.toNat := UInt8.le_iff_toNat_le.mp hletter.1
      rw [Option.any_some, decide_eq_true_eq] at hdigit
      omega
    next =>
      split at hdigit
      next hletter =>
        have hlow : 65 ≤ b.toNat := UInt8.le_iff_toNat_le.mp hletter.1
        rw [Option.any_some, decide_eq_true_eq] at hdigit
        omega
      next => simp at hdigit

theorem leadingDigits_eq_self_iff {text : Bytes} :
    leadingDigits text = text ↔ ∀ b ∈ text, isDecimalDigit b := by
  rw [leadingDigits, List.takeWhile_eq_self_iff]
  exact forall₂_congr fun b _ => isDigitOf_ten_iff

theorem Numeral.leadingDigits_eq {text : Bytes} (hnumeral : Numeral text) :
    leadingDigits text = text :=
  leadingDigits_eq_self_iff.mpr hnumeral.digits

theorem numeral_iff {text : Bytes} :
    Numeral text ↔ leadingDigits text ≠ [] ∧ leadingDigits text = text := by
  constructor
  · intro hnumeral
    rw [hnumeral.leadingDigits_eq]
    exact ⟨hnumeral.ne_nil, rfl⟩
  · rintro ⟨hne, hself⟩
    exact ⟨hself ▸ hne, leadingDigits_eq_self_iff.mp hself⟩

theorem numeral_decimal (n : ℕ) : Numeral (decimal n) :=
  ⟨decimal_ne_nil n, fun _ hmem => isDecimalDigit_of_mem_decimal hmem⟩

/-! ## Reading -/

/-- The number with which a text begins is all there is to the text. -/
def ReadWhole (limit : ℕ) (text : Bytes) : Prop :=
  leadingDigits text ≠ [] → digitsValue 10 (leadingDigits text) < limit →
    leadingDigits text = text

instance (limit : ℕ) (text : Bytes) : Decidable (ReadWhole limit text) :=
  inferInstanceAs (Decidable (_ → _ → _))

theorem fromChars_ten_eq_some_iff {limit value : ℕ} {text rest : Bytes} :
    fromChars 10 limit text = some (value, rest) ↔
      leadingDigits text ≠ [] ∧
        digitsValue 10 (leadingDigits text) = value ∧ value < limit ∧
        afterDigits text = rest := by
  unfold fromChars leadingDigits afterDigits
  simp only
  split
  next hnone => simp [hnone]
  next hsome =>
    split
    next hlimit =>
      simp only [Option.some.injEq, Prod.mk.injEq]
      constructor
      · rintro ⟨rfl, rfl⟩
        exact ⟨hsome, rfl, hlimit, rfl⟩
      · rintro ⟨_, hvalue, _, hrest⟩
        exact ⟨hvalue, hrest⟩
    next hlimit =>
      refine iff_of_false (by simp) ?_
      rintro ⟨_, rfl, hlt, _⟩
      exact hlimit hlt

theorem fromChars_ten_value_iff {limit value : ℕ} {text : Bytes} :
    (fromChars 10 limit text).map Prod.fst = some value ↔
      leadingDigits text ≠ [] ∧
        digitsValue 10 (leadingDigits text) = value ∧ value < limit := by
  rw [Option.map_eq_some_iff]
  constructor
  · rintro ⟨⟨value', rest⟩, hread, rfl⟩
    obtain ⟨hne, hvalue, hlimit, _⟩ := fromChars_ten_eq_some_iff.mp hread
    exact ⟨hne, hvalue, hlimit⟩
  · rintro ⟨hne, hvalue, hlimit⟩
    exact ⟨(value, afterDigits text),
      fromChars_ten_eq_some_iff.mpr ⟨hne, hvalue, hlimit, rfl⟩, rfl⟩

/-- `std::from_chars` reads exactly the numerals when no text goes on after its
number. -/
theorem fromChars_ten_exact_iff {limit : ℕ} {text : Bytes} :
    (∀ value, (fromChars 10 limit text).map Prod.fst = some value ↔
        Numeral text ∧ digitsValue 10 text = value ∧ value < limit) ↔
      ReadWhole limit text := by
  constructor
  · intro hexact hne hlimit
    have hread := (hexact _).mp
      (fromChars_ten_value_iff.mpr ⟨hne, rfl, hlimit⟩)
    exact hread.1.leadingDigits_eq
  · intro hwhole value
    rw [fromChars_ten_value_iff]
    constructor
    · rintro ⟨hne, hvalue, hlimit⟩
      have hself := hwhole hne (hvalue ▸ hlimit)
      rw [hself] at hvalue
      exact ⟨numeral_iff.mpr ⟨hne, hself⟩, hvalue, hlimit⟩
    · rintro ⟨hnumeral, hvalue, hlimit⟩
      rw [hnumeral.leadingDigits_eq]
      exact ⟨hnumeral.ne_nil, hvalue, hlimit⟩

end VynxHttp
