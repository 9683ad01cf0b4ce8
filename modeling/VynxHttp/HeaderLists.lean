import VynxHttp.HttpParser
import VynxHttp.ListTokens

/-!
# Lists in header fields

`is_chunked` and `connection_keep_alive` look for a token among those of a
field, and they look at the first field of the name only.  Several fields are
read as one list exactly when the first of them has the token, if any has.
-/

namespace VynxHttp.HttpHeaders

/-! ## The scanning loop -/

/-- A value has the token, in any case, between its separators. -/
def ListsToken (needle value : Bytes) : Prop :=
  ∃ token ∈ value.splitOnP isListSeparator,
    equalsIgnoreCase token needle = true

theorem listsToken_iff {needle value : Bytes} :
    ListsToken needle value ↔
      anyToken isListSeparator (fun token => equalsIgnoreCase token needle)
        value = true := by
  rw [anyToken, List.any_eq_true]
  exact Iff.rfl

theorem equalsIgnoreCase_nil {needle : Bytes} (hneedle : needle ≠ []) :
    equalsIgnoreCase [] needle = false := by
  rw [Bool.eq_false_iff, ne_eq, equalsIgnoreCase_iff, List.map_nil]
  exact fun hnil => hneedle (List.map_eq_nil_iff.mp hnil.symm)

theorem scanTokens_eq {needle : Bytes} (hneedle : needle ≠ []) {fuel : ℕ}
    {text : Bytes} (hfuel : text.length < fuel) :
    scanTokens needle fuel text =
      anyToken isListSeparator (fun token => equalsIgnoreCase token needle)
        text := by
  have hnil := equalsIgnoreCase_nil hneedle
  induction fuel generalizing text with
  | zero => exact absurd hfuel (Nat.not_lt_zero _)
  | succ fuel ih =>
      have hskip : anyToken isListSeparator
          (fun token => equalsIgnoreCase token needle) text =
          anyToken isListSeparator
            (fun token => equalsIgnoreCase token needle)
            (text.dropWhile isListSeparator) := by
        have hseps : ∀ b ∈ text.takeWhile isListSeparator,
            isListSeparator b = true := fun b hb => List.mem_takeWhile_imp hb
        have hall := List.takeWhile_append_dropWhile (p := isListSeparator)
          (l := text)
        rw [← anyToken_separators_append hnil hseps
          (text.dropWhile isListSeparator), hall]
      have hlength : (text.dropWhile isListSeparator).length ≤ text.length :=
        (List.dropWhile_sublist _).length_le
      have hhead := List.head?_dropWhile_not isListSeparator text
      rw [scanTokens, hskip]
      generalize text.dropWhile isListSeparator = rest at hlength hhead
      cases rest with
      | nil => rw [if_pos rfl, anyToken_nil hnil]
      | cons b rest =>
          have hb : isListSeparator b = false := by simpa using hhead
          -- the token takes at least one byte
          have hshorter : ((b :: rest).dropWhile
              fun b => !isListSeparator b).length < fuel := by
            have hdropped : (b :: rest).dropWhile
                (fun b => !isListSeparator b) =
                rest.dropWhile fun b => !isListSeparator b := by
              simp [hb]
            rw [hdropped]
            have hle := (List.dropWhile_sublist
              (fun b => !isListSeparator b) (l := rest)).length_le
            rw [List.length_cons] at hlength
            omega
          rw [if_neg (List.cons_ne_nil b rest),
            anyToken_eq_takeWhile_or hnil, ih hshorter]
          simp only
          split
          next htoken => rw [htoken, Bool.true_or]
          next htoken =>
            rw [Bool.not_eq_true] at htoken
            rw [htoken, Bool.false_or]

theorem hasToken_iff {needle value : Bytes} (hneedle : needle ≠ []) :
    hasToken needle value = true ↔ ListsToken needle value := by
  rw [listsToken_iff, hasToken, scanTokens_eq hneedle (Nat.lt_succ_self _)]

/-! ## Parts of a list -/

theorem isListSeparator_of_isBlank {b : UInt8} (hblank : isBlank b = true) :
    isListSeparator b = true := by
  unfold isBlank at hblank
  unfold isListSeparator
  rw [hblank, Bool.true_or]

/-- Blanks around a value do not matter. -/
theorem listsToken_trimBlanks {needle : Bytes} (hneedle : needle ≠ [])
    (value : Bytes) :
    ListsToken needle (trimBlanks value) ↔ ListsToken needle value := by
  have hnil := equalsIgnoreCase_nil hneedle
  have hseps : ∀ text : Bytes, ∀ b ∈ text.takeWhile isBlank,
      isListSeparator b = true := fun _ b hb =>
    isListSeparator_of_isBlank (List.mem_takeWhile_imp hb)
  have hfront := List.takeWhile_append_dropWhile (p := isBlank) (l := value)
  generalize hrest : value.dropWhile isBlank = rest at hfront
  have hback := List.takeWhile_append_dropWhile (p := isBlank)
    (l := rest.reverse)
  have hparts : rest = (rest.reverse.dropWhile isBlank).reverse ++
      (rest.reverse.takeWhile isBlank).reverse := by
    rw [← List.reverse_append, hback, List.reverse_reverse]
  rw [trimBlanks, hrest, listsToken_iff, listsToken_iff, ← hfront,
    anyToken_separators_append hnil (hseps value)]
  conv_rhs => rw [hparts]
  rw [anyToken_append_separators hnil fun b hb =>
    hseps rest.reverse b (List.mem_reverse.mp hb)]

/-- The tokens of a list are those of its parts. -/
theorem listsToken_intercalate {needle : Bytes} (hneedle : needle ≠ [])
    (parts : List Bytes) :
    ListsToken needle (List.intercalate [44] parts) ↔
      ∃ part ∈ parts, ListsToken needle part := by
  have hnil := equalsIgnoreCase_nil hneedle
  induction parts with
  | nil =>
      rw [listsToken_iff, List.intercalate_nil, anyToken_nil hnil]
      simp
  | cons part parts ih =>
      cases parts with
      | nil => simp [List.intercalate]
      | cons next parts =>
          rw [List.intercalate_cons_cons, List.append_assoc,
            List.singleton_append, listsToken_iff,
            anyToken_append_cons (by decide), Bool.or_eq_true,
            ← listsToken_iff, ← listsToken_iff]
          simp only [ih, List.exists_mem_cons_iff]

/-! ## Fields of one name -/

/-- The field of a name which is found first has the token. -/
def FirstHas (listName needle : Bytes) (headers : HttpHeaders) : Prop :=
  ∃ value ∈ headers.get listName, ListsToken needle value

def SomeHas (listName needle : Bytes) (headers : HttpHeaders) : Prop :=
  ∃ field ∈ headers.fields,
    field.hasName listName = true ∧ ListsToken needle field.value

theorem FirstHas.someHas {listName needle : Bytes} {headers : HttpHeaders}
    (hfirst : FirstHas listName needle headers) :
    SomeHas listName needle headers := by
  obtain ⟨value, hget, htoken⟩ := hfirst
  obtain ⟨field, hfind, rfl⟩ := Option.map_eq_some_iff.mp hget
  exact ⟨field, List.mem_of_find?_eq_some hfind,
    List.find?_some (p := fun field : HeaderField => field.hasName listName)
      hfind, htoken⟩

theorem isChunked_iff (headers : HttpHeaders) :
    headers.isChunked = true ↔
      FirstHas (ascii "Transfer-Encoding") (ascii "chunked") headers := by
  unfold isChunked FirstHas
  cases headers.get (ascii "Transfer-Encoding") with
  | none => simp
  | some value => simp [hasToken_iff (show ascii "chunked" ≠ [] by decide)]

theorem connectionKeepAlive_eq_false_iff (headers : HttpHeaders) :
    headers.connectionKeepAlive = false ↔
      FirstHas (ascii "Connection") (ascii "close") headers := by
  unfold connectionKeepAlive FirstHas
  cases headers.get (ascii "Connection") with
  | none => simp
  | some value => simp [hasToken_iff (show ascii "close" ≠ [] by decide)]

/-- All fields of the two names count. -/
structure OneList (headers : HttpHeaders) : Prop where
  chunked_iff : headers.isChunked = true ↔
    SomeHas (ascii "Transfer-Encoding") (ascii "chunked") headers
  close_iff : headers.connectionKeepAlive = false ↔
    SomeHas (ascii "Connection") (ascii "close") headers

/-- The token which a later field has is also one of the first field. -/
structure FirstLeads (headers : HttpHeaders) : Prop where
  chunked :
    SomeHas (ascii "Transfer-Encoding") (ascii "chunked") headers →
      FirstHas (ascii "Transfer-Encoding") (ascii "chunked") headers
  close : SomeHas (ascii "Connection") (ascii "close") headers →
    FirstHas (ascii "Connection") (ascii "close") headers

theorem oneList_iff {headers : HttpHeaders} :
    OneList headers ↔ FirstLeads headers := by
  constructor
  · intro hlist
    exact ⟨fun h => (isChunked_iff headers).mp (hlist.chunked_iff.mpr h),
      fun h => (connectionKeepAlive_eq_false_iff headers).mp
        (hlist.close_iff.mpr h)⟩
  · intro hleads
    constructor
    · rw [isChunked_iff]
      exact ⟨FirstHas.someHas, hleads.chunked⟩
    · rw [connectionKeepAlive_eq_false_iff]
      exact ⟨FirstHas.someHas, hleads.close⟩

/-! ## Splitting a list -/

/-- A field whose value is a list, among other fields, and the fields which
hold the parts of the list: their names may be written in another case, and
their values with other blanks around. -/
structure ListSplit where
  before : List HeaderField
  name : Bytes
  parts : List (Bytes × HeaderField)
  after : List HeaderField
  parts_ne_nil : parts ≠ []
  same_name : ∀ part ∈ parts, part.2.hasName name = true
  same_value : ∀ part ∈ parts,
    trimBlanks part.2.value = trimBlanks part.1

namespace ListSplit

variable {listName needle : Bytes}

def listField (split : ListSplit) : HeaderField :=
  ⟨split.name, List.intercalate [44] (split.parts.map Prod.fst)⟩

def joined (split : ListSplit) : HttpHeaders :=
  ⟨split.before ++ split.listField :: split.after⟩

def separate (split : ListSplit) : HttpHeaders :=
  ⟨split.before ++ (split.parts.map Prod.snd ++ split.after)⟩

theorem hasName_part (split : ListSplit) {part : Bytes × HeaderField}
    (hpart : part ∈ split.parts) (listName : Bytes) :
    part.2.hasName listName = split.listField.hasName listName := by
  have hsame : part.2.name.map toLower = split.name.map toLower :=
    equalsIgnoreCase_iff.mp (split.same_name part hpart)
  simp [HeaderField.hasName, equalsIgnoreCase, listField, hsame]

theorem listsToken_part (split : ListSplit) {part : Bytes × HeaderField}
    (hpart : part ∈ split.parts) (hneedle : needle ≠ []) :
    ListsToken needle part.1 ↔ ListsToken needle part.2.value := by
  rw [← listsToken_trimBlanks hneedle, ← split.same_value part hpart,
    listsToken_trimBlanks hneedle]

theorem listsToken_listField (split : ListSplit) (hneedle : needle ≠ []) :
    ListsToken needle split.listField.value ↔
      ∃ part ∈ split.parts, ListsToken needle part.2.value := by
  rw [listField, listsToken_intercalate hneedle]
  constructor
  · rintro ⟨_, hmem, htoken⟩
    obtain ⟨part, hpart, rfl⟩ := List.mem_map.mp hmem
    exact ⟨part, hpart, (split.listsToken_part hpart hneedle).mp htoken⟩
  · rintro ⟨part, hpart, htoken⟩
    exact ⟨part.1, List.mem_map_of_mem hpart,
      (split.listsToken_part hpart hneedle).mpr htoken⟩

/-- As one list, the fields do not change. -/
theorem someHas_iff (split : ListSplit) (hneedle : needle ≠ []) :
    SomeHas listName needle split.joined ↔
      SomeHas listName needle split.separate := by
  have hfield : (split.listField.hasName listName = true ∧
      ListsToken needle split.listField.value) ↔
      ∃ field ∈ split.parts.map Prod.snd,
        field.hasName listName = true ∧ ListsToken needle field.value := by
    rw [split.listsToken_listField hneedle]
    constructor
    · rintro ⟨hname, part, hpart, htoken⟩
      exact ⟨part.2, List.mem_map_of_mem hpart,
        (split.hasName_part hpart listName).trans hname, htoken⟩
    · rintro ⟨_, hmem, hname, htoken⟩
      obtain ⟨part, hpart, rfl⟩ := List.mem_map.mp hmem
      exact ⟨(split.hasName_part hpart listName).symm.trans hname, part,
        hpart, htoken⟩
  unfold SomeHas joined separate
  simp only [List.mem_append, List.mem_cons, or_and_right, exists_or,
    exists_eq_left, hfield]

theorem firstHas_joined (split : ListSplit) (hneedle : needle ≠ [])
    (hfirst : FirstHas listName needle split.separate) :
    FirstHas listName needle split.joined := by
  obtain ⟨value, hget, htoken⟩ := hfirst
  obtain ⟨part, parts, hparts⟩ :=
    List.exists_cons_of_ne_nil split.parts_ne_nil
  have hpart : part ∈ split.parts := by simp [hparts]
  have hname := split.hasName_part hpart listName
  unfold FirstHas
  rw [get, separate, List.find?_append] at hget
  obtain ⟨field, hfind, rfl⟩ := Option.map_eq_some_iff.mp hget
  rw [get, joined, List.find?_append]
  cases hbefore : split.before.find? (·.hasName listName) with
  | some earlier =>
      rw [hbefore, Option.some_or, Option.some.injEq] at hfind
      exact ⟨field.value, by simp [hfind], htoken⟩
  | none =>
      rw [hbefore, Option.none_or] at hfind
      cases hlist : split.listField.hasName listName with
      | true =>
          -- the list is found in the place of its first part
          rw [hlist] at hname
          simp only [hparts, List.map_cons, List.cons_append,
            List.find?_cons, hname, Option.some.injEq] at hfind
          refine ⟨split.listField.value, by simp [hlist], ?_⟩
          rw [split.listsToken_listField hneedle]
          exact ⟨part, hpart, hfind ▸ htoken⟩
      | false =>
          have hnone : (split.parts.map Prod.snd).find?
              (·.hasName listName) = none := by
            rw [List.find?_eq_none]
            intro other hother
            obtain ⟨part', hpart', rfl⟩ := List.mem_map.mp hother
            rw [split.hasName_part hpart', hlist]
            simp
          rw [List.find?_append, hnone, Option.none_or] at hfind
          exact ⟨field.value, by simp [hlist, hfind], htoken⟩

/-- The list is read in the same way before and after, and as one list. -/
structure ReadAsOne (split : ListSplit) : Prop where
  chunked_eq : split.joined.isChunked = split.separate.isChunked
  keepAlive_eq : split.joined.connectionKeepAlive =
    split.separate.connectionKeepAlive
  joined : OneList split.joined
  separate : OneList split.separate

/-- Fields which hold the parts of a list are read as the list exactly when no
token stands in a later field only. -/
theorem readAsOne_iff (split : ListSplit) :
    split.ReadAsOne ↔ FirstLeads split.separate := by
  constructor
  · exact fun hread => oneList_iff.mp hread.separate
  · intro hleads
    have hchunked : ascii "chunked" ≠ [] := by decide
    have hclose : ascii "close" ≠ [] := by decide
    have hseparate := oneList_iff.mpr hleads
    have hjoined : OneList split.joined := by
      rw [oneList_iff]
      constructor
      · intro hsome
        rw [split.someHas_iff hchunked] at hsome
        exact split.firstHas_joined hchunked (hleads.chunked hsome)
      · intro hsome
        rw [split.someHas_iff hclose] at hsome
        exact split.firstHas_joined hclose (hleads.close hsome)
    refine ⟨?_, ?_, hjoined, hseparate⟩
    · rw [Bool.eq_iff_iff, hjoined.chunked_iff, hseparate.chunked_iff,
        split.someHas_iff hchunked]
    · rw [← Bool.not_inj_iff, Bool.eq_iff_iff, Bool.not_eq_true',
        Bool.not_eq_true', hjoined.close_iff, hseparate.close_iff,
        split.someHas_iff hclose]

/-- `Transfer-Encoding: gzip, chunked` in two fields. -/
def gzipChunked : ListSplit where
  before := []
  name := ascii "Transfer-Encoding"
  parts := [(ascii "gzip", ⟨ascii "Transfer-Encoding", ascii "gzip"⟩),
    (ascii " chunked", ⟨ascii "transfer-encoding", ascii "chunked"⟩)]
  after := []
  parts_ne_nil := by decide
  same_name := by decide
  same_value := by decide

theorem not_readAsOne_gzipChunked : ¬gzipChunked.ReadAsOne := by
  intro hread
  have hjoined : gzipChunked.joined.isChunked = true := by decide +kernel
  have hseparate : gzipChunked.separate.isChunked = false := by
    decide +kernel
  rw [hread.chunked_eq, hseparate] at hjoined
  exact Bool.false_ne_true hjoined

end ListSplit

end VynxHttp.HttpHeaders
