import VynxHttp.HttpHeaders
import VynxHttp.Numerals

/-!
# The length in a header

`content_length` reads the value of the first `Content-Length` field and drops
the pointer to where the number ends.
-/

namespace VynxHttp.HttpHeaders

/-- `content_length` yields the lengths which the first field denotes. -/
def ExactLength (headers : HttpHeaders) : Prop :=
  ∀ n, headers.contentLength = some n ↔
    ∃ value, headers.get (ascii "Content-Length") = some value ∧
      Numeral value ∧ digitsValue 10 value = n ∧ n < 2 ^ 64

/-- `content_length` is right exactly when the first field does not begin with
a length and go on with something else. -/
theorem exactLength_iff (headers : HttpHeaders) :
    headers.ExactLength ↔
      ∀ value ∈ headers.get (ascii "Content-Length"),
        ReadWhole (2 ^ 64) value := by
  unfold ExactLength contentLength
  cases hget : headers.get (ascii "Content-Length") with
  | none => simp
  | some value =>
      simp only [Option.some.injEq, exists_eq_left', Option.mem_some_iff,
        forall_eq']
      exact fromChars_ten_exact_iff

/-- `5, 6` is read as 5. -/
theorem not_exactLength_list :
    ¬(empty.add (ascii "content-length") (ascii "5, 6")).ExactLength := by
  intro hexact
  obtain ⟨value, hget, hnumeral, _⟩ := (hexact 5).mp (by decide +kernel)
  have hvalue : value = ascii "5, 6" := by
    have hfirst : (empty.add (ascii "content-length")
        (ascii "5, 6")).get (ascii "Content-Length") =
          some (ascii "5, 6") := by
      decide
    rw [hfirst, Option.some.injEq] at hget
    exact hget.symm
  rw [hvalue] at hnumeral
  exact absurd hnumeral (by decide)

end VynxHttp.HttpHeaders
