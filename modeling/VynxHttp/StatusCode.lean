import VynxHttp.HttpParser
import VynxHttp.Numerals

/-!
# The arithmetic of status codes

`parse_status_line` adds up the digits of the status code in an `int`, however
many they are.  The sum is the value of the digits as long as the `int` holds
it.
-/

namespace VynxHttp

/-! ## Values of digits -/

/-- The accumulating loop over digits, from a value on. -/
def digitsFrom (value : ℕ) (digits : Bytes) : ℕ :=
  digits.foldl (fun value b => value * 10 + (digitValue b).getD 0) value

theorem le_digitsFrom (value : ℕ) (digits : Bytes) :
    value ≤ digitsFrom value digits := by
  induction digits generalizing value with
  | nil => exact le_rfl
  | cons b digits ih =>
      have hlater := ih (value * 10 + (digitValue b).getD 0)
      have hfirst : value ≤ value * 10 + (digitValue b).getD 0 := by omega
      exact hfirst.trans hlater

theorem digitsFrom_cons {b : UInt8} (hdigit : isDecimalDigit b) (value : ℕ)
    (digits : Bytes) :
    digitsFrom value (b :: digits) =
      digitsFrom (value * 10 + (b.toNat - 48)) digits := by
  have hvalue : digitValue b = some (b.toNat - 48) := if_pos hdigit
  rw [digitsFrom, List.foldl_cons, hvalue]
  rfl

theorem leadingDigits_cons {b : UInt8} (hdigit : isDecimalDigit b)
    (text : Bytes) :
    leadingDigits (b :: text) = b :: leadingDigits text := by
  rw [leadingDigits, List.takeWhile_cons,
    if_pos (isDigitOf_ten_of_isDecimalDigit hdigit)]
  rfl

theorem leadingDigits_cons_of_not {b : UInt8} (hdigit : ¬isDecimalDigit b)
    (text : Bytes) : leadingDigits (b :: text) = [] := by
  rw [leadingDigits, List.takeWhile_cons,
    if_neg fun h => hdigit (isDigitOf_ten_iff.mp h)]

/-! ## The accumulator -/

/-- The sums which the loop computes from an `int` on, as integers, before each
is stored in the `int` again. -/
def statusCodeSums (code : ℤ) : Bytes → List ℤ
  | [] => []
  | c :: rest =>
      if c < 48 ∨ 57 < c then []
      else
        (code * 10 + (c.toNat - 48)) ::
          statusCodeSums (Int.bmod (code * 10 + (c.toNat - 48)) (2 ^ 32)) rest

def InIntRange (n : ℤ) : Prop := -(2 ^ 31) ≤ n ∧ n < 2 ^ 31

instance : DecidablePred InIntRange := fun n =>
  inferInstanceAs (Decidable (-(2 ^ 31) ≤ n ∧ n < 2 ^ 31))

theorem not_digit_iff {c : UInt8} :
    (c < 48 ∨ 57 < c) ↔ ¬isDecimalDigit c := by
  rw [isDecimalDigit, not_and_or, UInt8.not_le, UInt8.not_le]

theorem sum_eq_natCast {c : UInt8} (hdigit : isDecimalDigit c) (value : ℕ) :
    (value : ℤ) * 10 + (c.toNat - 48) =
      ((value * 10 + (c.toNat - 48) : ℕ) : ℤ) := by
  have hlow : 48 ≤ c.toNat := UInt8.le_iff_toNat_le.mp hdigit.1
  omega

theorem bmod_natCast {value : ℕ} (hvalue : value < 2 ^ 31) :
    Int.bmod (value : ℤ) (2 ^ 32) = value := by
  rw [Int.bmod_def]
  omega

/-- No sum leaves the range exactly when the value of the digits is in it. -/
theorem statusCodeSums_inRange_iff {value : ℕ} (hvalue : value < 2 ^ 31)
    (text : Bytes) :
    (∀ sum ∈ statusCodeSums value text, InIntRange sum) ↔
      digitsFrom value (leadingDigits text) < 2 ^ 31 := by
  induction text generalizing value with
  | nil => simpa [statusCodeSums, leadingDigits, digitsFrom] using hvalue
  | cons c text ih =>
      by_cases hdigit : isDecimalDigit c
      · have hloop : ¬(c < 48 ∨ 57 < c) := not_digit_iff.not_left.mpr hdigit
        rw [statusCodeSums, if_neg hloop, List.forall_mem_cons,
          sum_eq_natCast hdigit, leadingDigits_cons hdigit,
          digitsFrom_cons hdigit]
        generalize value * 10 + (c.toNat - 48) = sum
        by_cases hsum : sum < 2 ^ 31
        · rw [bmod_natCast hsum, ih hsum, and_iff_right]
          constructor
          · omega
          · exact_mod_cast hsum
        · have hle := le_digitsFrom sum (leadingDigits text)
          refine iff_of_false (fun hall => hsum ?_) (by omega)
          exact_mod_cast hall.1.2
      · have hloop : c < 48 ∨ 57 < c := not_digit_iff.mpr hdigit
        rw [statusCodeSums, if_pos hloop, leadingDigits_cons_of_not hdigit]
        simpa [digitsFrom] using hvalue

/-- Within the range the loop reads the numerals. -/
theorem foldlM_statusCode {value : ℕ} {text : Bytes}
    (hbound : digitsFrom value (leadingDigits text) < 2 ^ 31) :
    text.foldlM
        (fun code c =>
          if c < 48 ∨ 57 < c then none
          else some (Int.bmod (code * 10 + (c.toNat - 48)) (2 ^ 32)))
        (value : ℤ) =
      if leadingDigits text = text then some (digitsFrom value text : ℤ)
      else none := by
  induction text generalizing value with
  | nil => rfl
  | cons c text ih =>
      by_cases hdigit : isDecimalDigit c
      · have hloop : ¬(c < 48 ∨ 57 < c) := not_digit_iff.not_left.mpr hdigit
        rw [leadingDigits_cons hdigit, digitsFrom_cons hdigit] at hbound
        have hsum : value * 10 + (c.toNat - 48) < 2 ^ 31 :=
          (le_digitsFrom _ _).trans_lt hbound
        rw [List.foldlM_cons, if_neg hloop, sum_eq_natCast hdigit,
          bmod_natCast hsum, leadingDigits_cons hdigit,
          digitsFrom_cons hdigit]
        simpa using ih hbound
      · have hloop : c < 48 ∨ 57 < c := not_digit_iff.mpr hdigit
        rw [List.foldlM_cons, if_pos hloop,
          leadingDigits_cons_of_not hdigit]
        simp

theorem readStatusCode_eq {text : Bytes}
    (hbound : digitsValue 10 (leadingDigits text) < 2 ^ 31) :
    readStatusCode text =
      if leadingDigits text = text then some (digitsValue 10 text : ℤ)
      else none :=
  @foldlM_statusCode 0 text hbound

/-! ## Status lines -/

/-- The code token of a line whose version is accepted. -/
def codeToken (line : Bytes) : Option Bytes :=
  match cutAt space line with
  | none => none
  | some (version, rest) =>
      if version.length < 8 ∨ version.take 7 ≠ ascii "HTTP/1." then none
      else some ((cutAt space rest).getD (rest, [])).1

/-- The arithmetic on a token is exact, and the code of its line is accepted
with its value. -/
structure ExactStatus (line token : Bytes) : Prop where
  in_range : ∀ sum ∈ statusCodeSums 0 token, InIntRange sum
  accepted : ∀ statusCode reason,
    parseStatusLine line = .ok (statusCode, reason) →
      Numeral token ∧ 100 ≤ digitsValue 10 token ∧
        digitsValue 10 token ≤ 599 ∧
        statusCode.toNat = digitsValue 10 token
  complete : Numeral token → 100 ≤ digitsValue 10 token →
    digitsValue 10 token ≤ 599 →
    ∃ reason, parseStatusLine line =
      .ok ((digitsValue 10 token).toUInt16, reason)

/-- What the line comes to, given its token. -/
theorem parseStatusLine_of_token {line token : Bytes}
    (htoken : codeToken line = some token) :
    ∃ reason, parseStatusLine line =
      if token = [] then .error ⟨"empty status code", .httpParseError⟩
      else
        match readStatusCode token with
        | none => .error ⟨"non-digit in status code", .httpParseError⟩
        | some code =>
            if code < 100 ∨ 599 < code then
              .error ⟨"status code out of range", .httpParseError⟩
            else .ok (code.toNat.toUInt16, reason) := by
  unfold codeToken at htoken
  unfold parseStatusLine
  cases hcut : cutAt space line with
  | none => simp [hcut] at htoken
  | some parts =>
      obtain ⟨version, rest⟩ := parts
      simp only [hcut] at htoken ⊢
      by_cases hversion : version.length < 8 ∨
          version.take 7 ≠ ascii "HTTP/1."
      · simp [if_pos hversion] at htoken
      · rw [if_neg hversion, Option.some.injEq] at htoken
        subst htoken
        rw [if_neg hversion]
        exact ⟨_, rfl⟩

theorem exactStatus_iff {line token : Bytes}
    (htoken : codeToken line = some token) :
    ExactStatus line token ↔
      digitsValue 10 (leadingDigits token) < 2 ^ 31 := by
  have hsums := @statusCodeSums_inRange_iff 0 (by decide) token
  constructor
  · exact fun hexact => hsums.mp hexact.in_range
  · intro hbound
    obtain ⟨reason, hline⟩ := parseStatusLine_of_token htoken
    rw [readStatusCode_eq hbound] at hline
    refine ⟨hsums.mpr hbound, ?_, ?_⟩
    · intro statusCode reason' hok
      rw [hline] at hok
      split at hok
      next => simp at hok
      next hne =>
        split at hok
        next => simp at hok
        next code hcode =>
          rw [Option.ite_none_right_eq_some, Option.some.injEq] at hcode
          obtain ⟨hself, rfl⟩ := hcode
          split at hok
          next => simp at hok
          next hrange =>
            simp only [Except.ok.injEq, Prod.mk.injEq,
              Int.toNat_natCast] at hok
            have hnumeral : Numeral token :=
              ⟨hne, leadingDigits_eq_self_iff.mp hself⟩
            refine ⟨hnumeral, by omega, by omega, ?_⟩
            rw [← hok.1, Nat.toUInt16_eq, UInt16.toNat_ofNat']
            omega
    · intro hnumeral hlow hhigh
      have hrange : ¬((digitsValue 10 token : ℤ) < 100 ∨
          599 < (digitsValue 10 token : ℤ)) := by
        omega
      refine ⟨reason, ?_⟩
      rw [hline, if_neg hnumeral.ne_nil, if_pos hnumeral.leadingDigits_eq]
      simp only [if_neg hrange, Int.toNat_natCast]

/-- The status code of a line is exact exactly when its leading digits denote
an `int`. -/
theorem statusLine_exact_iff (line : Bytes) :
    (∀ token ∈ codeToken line, ExactStatus line token) ↔
      ∀ token ∈ codeToken line,
        digitsValue 10 (leadingDigits token) < 2 ^ 31 :=
  forall₂_congr fun _ htoken => exactStatus_iff htoken

/-- The code of this line is two to the power of 32 more than 200. -/
theorem not_exactStatus_wrapped :
    ¬∀ token ∈ codeToken (ascii "HTTP/1.1 4294967496 OK"),
      ExactStatus (ascii "HTTP/1.1 4294967496 OK") token := by
  intro hexact
  have htoken : codeToken (ascii "HTTP/1.1 4294967496 OK") =
      some (ascii "4294967496") := by
    decide +kernel
  have haccepts : parseStatusLine (ascii "HTTP/1.1 4294967496 OK") =
      .ok (200, ascii "OK") := by
    decide +kernel
  obtain ⟨_, _, hhigh, _⟩ :=
    (hexact _ htoken).accepted 200 (ascii "OK") haccepts
  exact absurd hhigh (by decide +kernel)

end VynxHttp
