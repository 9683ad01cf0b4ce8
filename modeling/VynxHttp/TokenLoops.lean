import VynxHttp.HeaderLists
import VynxHttp.HeaderLookup
import VynxHttp.IndexScan
import VynxHttp.ListRuns

/-!
# The loops of the list tokenizers

`is_chunked` and `connection_keep_alive` as loops over the indices of a value.
Every access is checked, and a loop with an access outside the value is
undefined.  The loops are defined, they find a token exactly where a maximal
run of characters other than `','`, space and tab equals it in any case, and
they agree with the scan of the rest of the value.
-/

namespace VynxHttp.HttpHeaders

open ListRuns FuelLoop

/-! ## The loops -/

/-- Whether the characters of one step of the comparison differ. -/
def differsAt (text needle : Bytes) (start j : ℕ) : Option Bool :=
  text[start + j]?.bind fun a =>
    needle[j]?.map fun b => toLower a != toLower b

/-- The comparison goes on to the end of the needle if nothing differs. -/
def compareToken (text needle : Bytes) (start : ℕ) : Option Bool :=
  (IndexScan.scan (differsAt text needle start) needle.length needle.length
    0).map fun j => j == needle.length

def testToken (needle text : Bytes) (start stop : ℕ) : Option Bool :=
  if stop - start = needle.length then compareToken text needle start
  else some false

def tokenLoop (needle text : Bytes) : Option Bool :=
  findRun isListSeparator text (testToken needle text) 0

def isChunkedLoop (headers : HttpHeaders) : Option Bool :=
  match headers.get (ascii "Transfer-Encoding") with
  | none => some false
  | some encoding => tokenLoop (ascii "chunked") encoding

def connectionKeepAliveLoop (headers : HttpHeaders) : Option Bool :=
  match headers.get (ascii "Connection") with
  | none => some true
  | some conn => (tokenLoop (ascii "close") conn).map fun found => !found

/-! ## The comparison -/

variable {text needle : Bytes} {start stop : ℕ}

theorem sameCharacters_iff (hbounded : start + needle.length ≤ text.length) :
    sameCharacters (slice text start (start + needle.length)) needle = true ↔
      ∀ j, j < needle.length → differsAt text needle start j = some false := by
  unfold sameCharacters
  simp only [List.all_eq_true, List.mem_range, beq_iff_eq]
  refine forall_congr' fun j => imp_congr_right fun hj => ?_
  have ha : text[start + j]? = some text[start + j] :=
    List.getElem?_eq_getElem (by omega)
  have hb : needle[j]? = some needle[j] := List.getElem?_eq_getElem hj
  unfold differsAt
  rw [getElem?_slice, if_pos (by omega), ha, hb]
  simp

theorem compareToken_eq (hbounded : start + needle.length ≤ text.length) :
    compareToken text needle start =
      some (equalsIgnoreCase (slice text start (start + needle.length))
        needle) := by
  have hdefined : ∀ j, 0 ≤ j → j < 0 + needle.length →
      ∃ differs, differsAt text needle start j = some differs ∧
        (differs = true ↔ j < needle.length ∧
          differsAt text needle start j = some true) := by
    intro j _ hj
    rw [Nat.zero_add] at hj
    have ha : text[start + j]? = some text[start + j] :=
      List.getElem?_eq_getElem (by omega)
    have hb : needle[j]? = some needle[j] := List.getElem?_eq_getElem hj
    unfold differsAt
    rw [ha, hb]
    exact ⟨_, rfl, by simp [hj]⟩
  rcases IndexScan.scan_finds hdefined (fun j _ hj => by omega) with
    ⟨result, hscan, hfinds⟩
  have hlength : (slice text start (start + needle.length)).length =
      needle.length := by
    rw [length_slice hbounded, Nat.add_sub_cancel_left]
  unfold compareToken
  rw [hscan, Option.map_some, Option.some.injEq, Bool.eq_iff_iff, beq_iff_eq,
    equalsIgnoreCase_eq_loop, if_neg (not_not.mpr hlength),
    sameCharacters_iff hbounded]
  rcases hfinds with ⟨⟨_, hlt, hdiffers⟩, _⟩ | ⟨hend, hnone⟩
  · refine iff_of_false (Nat.ne_of_lt hlt) fun hsame => ?_
    rw [hsame result hlt] at hdiffers
    cases hdiffers
  · refine iff_of_true hend fun j hj => ?_
    rcases hdefined j (Nat.zero_le j) (by omega) with ⟨differs, hj', _⟩
    cases differs with
    | false => exact hj'
    | true => exact absurd ⟨hj, hj'⟩ (hnone j (Nat.zero_le j))

theorem testToken_eq (hle : start ≤ stop) (hbounded : stop ≤ text.length) :
    testToken needle text start stop =
      some (equalsIgnoreCase (slice text start stop) needle) := by
  unfold testToken
  by_cases hlength : stop - start = needle.length
  · have hstop : stop = start + needle.length := by omega
    rw [if_pos hlength, hstop]
    exact compareToken_eq (hstop ▸ hbounded)
  · rw [if_neg hlength, equalsIgnoreCase_eq_loop, length_slice hbounded,
      if_pos hlength]

/-! ## Tokens as maximal runs -/

/-- A maximal run of characters other than the separators equals the token in
any case. -/
def HasTokenRun (needle text : Bytes) : Prop :=
  ∃ start stop, MaximalRun (fun b => !isListSeparator b) text start stop ∧
    equalsIgnoreCase (slice text start stop) needle = true

theorem tokenLoop_iff (needle text : Bytes) :
    ∃ found, tokenLoop needle text = some found ∧
      (found = true ↔ HasTokenRun needle text) :=
  findRun_meets fun _ _ hrun =>
    ⟨_, testToken_eq hrun.nonempty.le hrun.bounded, Iff.rfl⟩

/-- The tokenizers read inside the value, they come to an end, and they tell
whether the value has the token. -/
theorem tokenizers_exact (headers : HttpHeaders) (encoding conn : Bytes) :
    (headers.get (ascii "Transfer-Encoding") = some encoding →
      ∃ found, headers.isChunkedLoop = some found ∧
        (found = true ↔ HasTokenRun (ascii "chunked") encoding)) ∧
    (headers.get (ascii "Connection") = some conn →
      ∃ keepAlive, headers.connectionKeepAliveLoop = some keepAlive ∧
        (keepAlive = false ↔ HasTokenRun (ascii "close") conn)) := by
  constructor
  · intro hget
    unfold isChunkedLoop
    rw [hget]
    exact tokenLoop_iff (ascii "chunked") encoding
  · intro hget
    rcases tokenLoop_iff (ascii "close") conn with ⟨found, hloop, hiff⟩
    unfold connectionKeepAliveLoop
    rw [hget]
    dsimp only
    rw [hloop, Option.map_some]
    exact ⟨!found, rfl, by simpa using hiff⟩

theorem tokenizers_exact_mixed :
    (∃ found, isChunkedLoop ⟨[⟨ascii "Transfer-Encoding",
        ascii "gzip,\t Chunked,"⟩]⟩ = some found ∧
      (found = true ↔
        HasTokenRun (ascii "chunked") (ascii "gzip,\t Chunked,"))) ∧
    ∃ keepAlive, connectionKeepAliveLoop ⟨[⟨ascii "Connection",
        ascii "not-close, closed"⟩]⟩ = some keepAlive ∧
      (keepAlive = false ↔
        HasTokenRun (ascii "close") (ascii "not-close, closed")) :=
  ⟨(tokenizers_exact _ (ascii "gzip,\t Chunked,") []).1 rfl,
    (tokenizers_exact _ [] (ascii "not-close, closed")).2 rfl⟩

/-! ## The scan of the rest -/

theorem tokenLoop_from {fuel pos : ℕ} (hpos : pos ≤ text.length)
    (hfuel : text.length - pos < fuel) :
    findRun isListSeparator text (testToken needle text) pos =
      some (scanTokens needle fuel (text.drop pos)) := by
  induction fuel generalizing pos with
  | zero => exact absurd hfuel (Nat.not_lt_zero _)
  | succ fuel ih =>
      cases roundCases isListSeparator hpos with
      | atEnd hround hskip =>
          rw [scanTokens, hskip.cut.2, List.drop_length]
          exact runRanked_leave _ (hround _)
      | atRun start stop hround hskip hlt htake =>
          have hrest : text.drop start ≠ [] := by
            intro hnil
            have hle := List.drop_eq_nil_iff.mp hnil
            have hbounded := htake.bounded
            omega
          have hbody := hround (testToken needle text)
          rw [testToken_eq hlt.le htake.bounded, Option.map_some] at hbody
          rw [scanTokens, hskip.cut.2]
          dsimp only
          rw [if_neg hrest, htake.cut.1, htake.cut.2]
          cases htoken : equalsIgnoreCase (slice text start stop) needle with
          | true =>
              rw [htoken] at hbody
              rw [if_pos rfl]
              exact runRanked_leave _ hbody
          | false =>
              rw [htoken] at hbody
              rw [if_neg Bool.false_ne_true]
              have hle := hskip.le
              have hbounded := htake.bounded
              have hlater := ih hbounded (by omega)
              exact (runRanked_again findRound_decreases hbody).trans hlater

theorem tokenLoop_eq (needle text : Bytes) :
    tokenLoop needle text = some (hasToken needle text) :=
  tokenLoop_from (Nat.zero_le _) (by omega)

/-- The runs of a value are the parts between its separators. -/
theorem hasTokenRun_iff (hneedle : needle ≠ []) :
    HasTokenRun needle text ↔ ListsToken needle text := by
  rcases tokenLoop_iff needle text with ⟨found, hloop, hiff⟩
  rw [tokenLoop_eq, Option.some.injEq] at hloop
  rw [← hiff, ← hloop]
  exact hasToken_iff hneedle

theorem isChunkedLoop_eq (headers : HttpHeaders) :
    headers.isChunkedLoop = some headers.isChunked := by
  unfold isChunkedLoop isChunked
  cases headers.get (ascii "Transfer-Encoding") with
  | none => rfl
  | some encoding => exact tokenLoop_eq (ascii "chunked") encoding

theorem connectionKeepAliveLoop_eq (headers : HttpHeaders) :
    headers.connectionKeepAliveLoop = some headers.connectionKeepAlive := by
  unfold connectionKeepAliveLoop connectionKeepAlive
  cases headers.get (ascii "Connection") with
  | none => rfl
  | some conn =>
      dsimp only
      rw [tokenLoop_eq, Option.map_some]

end VynxHttp.HttpHeaders
