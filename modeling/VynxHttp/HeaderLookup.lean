import VynxHttp.HttpHeaders

/-!
# Looking headers up

The four comparison loops of the header functions decide one equivalence on
names.  `get`, `contains` and `remove` go by it as they should, and so does
`set` in collections which have the name once at most.
-/

namespace VynxHttp

/-! ## Names -/

/-- The loop of `set`, `get`, `contains` and `remove` over two names of the same
size. -/
def sameCharacters (fieldName name : Bytes) : Bool :=
  (List.range name.length).all fun i =>
    (fieldName[i]?.map toLower) == (name[i]?.map toLower)

theorem equalsIgnoreCase_eq_loop (fieldName name : Bytes) :
    equalsIgnoreCase fieldName name =
      if fieldName.length ≠ name.length then false
      else sameCharacters fieldName name := by
  rw [Bool.eq_iff_iff, equalsIgnoreCase_iff]
  split
  next hlength =>
    refine iff_of_false (fun hsame => hlength ?_) Bool.false_ne_true
    simpa using congrArg List.length hsame
  next hlength =>
    rw [not_not] at hlength
    unfold sameCharacters
    simp only [List.all_eq_true, List.mem_range, beq_iff_eq]
    constructor
    · intro hsame i _
      rw [← List.getElem?_map, ← List.getElem?_map, hsame]
    · intro hsame
      refine List.ext_getElem? fun i => ?_
      rw [List.getElem?_map, List.getElem?_map]
      by_cases hi : i < name.length
      · exact hsame i hi
      · rw [List.getElem?_eq_none (by omega),
          List.getElem?_eq_none (by omega)]

theorem hasName_congr {name variant : Bytes}
    (hvariant : equalsIgnoreCase variant name = true)
    (field : HeaderField) : field.hasName variant = field.hasName name := by
  have hsame : variant.map toLower = name.map toLower :=
    equalsIgnoreCase_iff.mp hvariant
  simp [HeaderField.hasName, equalsIgnoreCase, hsame]

inductive HeaderOp where
  | add (name value : Bytes)
  | set (name value : Bytes)
  | remove (name : Bytes)
  | clear
  deriving DecidableEq, Repr

namespace HttpHeaders

def apply (headers : HttpHeaders) : HeaderOp → HttpHeaders
  | .add name value => headers.add name value
  | .set name value => headers.set name value
  | .remove name => headers.remove name
  | .clear => headers.clear

def applyAll (headers : HttpHeaders) (ops : List HeaderOp) : HttpHeaders :=
  ops.foldl apply headers

variable {headers : HttpHeaders} {name variant value : Bytes}

/-! ## The earliest field -/

theorem get_congr (headers : HttpHeaders)
    (hvariant : equalsIgnoreCase variant name = true) :
    headers.get variant = headers.get name := by
  unfold get
  rw [funext fun field => hasName_congr hvariant field]

theorem get_eq_some_iff :
    headers.get name = some value ↔
      ∃ before field after, headers.fields = before ++ field :: after ∧
        (∀ earlier ∈ before, earlier.hasName name = false) ∧
        field.hasName name = true ∧ field.value = value := by
  simp only [get, Option.map_eq_some_iff, List.find?_eq_some_iff_append]
  constructor
  · rintro ⟨field, ⟨hname, before, after, hfields, hearlier⟩, hvalue⟩
    refine ⟨before, field, after, hfields, fun earlier hmem => ?_, hname,
      hvalue⟩
    simpa using hearlier earlier hmem
  · rintro ⟨before, field, after, hfields, hearlier, hname, hvalue⟩
    refine ⟨field, ⟨hname, before, after, hfields, fun earlier hmem => ?_⟩,
      hvalue⟩
    simp [hearlier earlier hmem]

/-- What the look-ups say of a name, and what `remove` and `set` do to it. -/
structure Coherent (headers : HttpHeaders) (name : Bytes) : Prop where
  contains_iff : headers.contains name = true ↔
    ∃ field ∈ headers.fields, field.hasName name = true
  get_isSome : (headers.get name).isSome = headers.contains name
  get_earliest : ∀ value, headers.get name = some value ↔
    ∃ before field after, headers.fields = before ++ field :: after ∧
      (∀ earlier ∈ before, earlier.hasName name = false) ∧
      field.hasName name = true ∧ field.value = value
  get_variant : ∀ variant, equalsIgnoreCase variant name = true →
    headers.get variant = headers.get name ∧
      headers.contains variant = headers.contains name
  removed : ∀ field ∈ (headers.remove name).fields,
    field.hasName name = false
  kept : (headers.remove name).fields.filter (!·.hasName name) =
    headers.fields.filter (!·.hasName name)
  set_variant : ∀ value variant, equalsIgnoreCase variant name = true →
    (headers.set name value).get variant = some value
  set_other : ∀ value other, equalsIgnoreCase name other = false →
    (headers.set name value).get other = headers.get other

theorem coherent (headers : HttpHeaders) (name : Bytes) :
    Coherent headers name where
  contains_iff := by simp [contains]
  get_isSome := (headers.contains_eq_isSome_get name).symm
  get_earliest := fun _ => get_eq_some_iff
  get_variant := by
    intro variant hvariant
    have hget := headers.get_congr hvariant
    refine ⟨hget, ?_⟩
    rw [contains_eq_isSome_get, contains_eq_isSome_get, hget]
  removed := by
    intro field hmem
    simpa using (List.mem_filter.mp hmem).2
  kept := by
    rw [remove, List.filter_filter]
    simp
  set_variant := by
    intro value variant hvariant
    rw [get_congr _ hvariant, get_set]
  set_other := fun value _ hother => get_set_of_ne headers hother value

/-- The look-ups agree after every sequence of operations. -/
theorem coherent_applyAll (ops : List HeaderOp) (name : Bytes) :
    Coherent (empty.applyAll ops) name :=
  coherent _ name

/-! ## Replacing -/

/-- One field has the name, with the new value, and the other fields are as
they were. -/
structure Replaced (headers : HttpHeaders) (name value : Bytes)
    (after : HttpHeaders) : Prop where
  unique : ∃ field, after.fields.filter (·.hasName name) = [field] ∧
    field.value = value
  others : after.fields.filter (!·.hasName name) =
    headers.fields.filter (!·.hasName name)

theorem filter_others_setFields (name value : Bytes)
    (fields : List HeaderField) :
    (setFields name value fields).filter (!·.hasName name) =
      fields.filter (!·.hasName name) := by
  rcases setFields_cases name value fields with
    ⟨_, happended⟩ | ⟨before, field, after, rfl, _, hname, hset⟩
  · rw [happended, List.filter_append]
    simp [hasName_self]
  · have hkept : HeaderField.hasName { field with value } name = true := hname
    rw [hset, List.filter_append, List.filter_append]
    simp [hname, hkept]

/-- `set` changes the number of the fields of a name from zero to one only. -/
theorem length_filter_setFields (name value : Bytes)
    (fields : List HeaderField) :
    ((setFields name value fields).filter (·.hasName name)).length =
      max 1 (fields.filter (·.hasName name)).length := by
  rcases setFields_cases name value fields with
    ⟨habsent, happended⟩ | ⟨before, field, after, rfl, hbefore, hname, hset⟩
  · rw [happended, List.filter_append, habsent]
    simp [hasName_self]
  · have hkept : HeaderField.hasName { field with value } name = true := hname
    rw [hset, List.filter_append, List.filter_append, hbefore]
    simp [hname, hkept]

/-- `set` replaces every value of a name exactly when there has been one value
at most. -/
theorem set_replaces_iff (headers : HttpHeaders) (name value : Bytes) :
    Replaced headers name value (headers.set name value) ↔
      (headers.fields.filter (·.hasName name)).length ≤ 1 := by
  have hlength := length_filter_setFields name value headers.fields
  constructor
  · rintro ⟨⟨field, hunique, _⟩, _⟩
    rw [set] at hunique
    rw [hunique, List.length_singleton] at hlength
    omega
  · intro hone
    rw [max_eq_left hone] at hlength
    obtain ⟨field, hfield⟩ := List.length_eq_one_iff.mp hlength
    refine ⟨⟨field, hfield, ?_⟩, filter_others_setFields name value _⟩
    have hget := headers.get_set name value
    rw [get, ← List.head?_filter] at hget
    simpa [set, hfield] using hget

/-- A name which has been added twice keeps its second value. -/
theorem set_keeps_duplicate :
    ¬Replaced (empty.applyAll [.add (ascii "Host") (ascii "a"),
          .add (ascii "host") (ascii "b")])
        (ascii "Host") (ascii "c")
        ((empty.applyAll [.add (ascii "Host") (ascii "a"),
          .add (ascii "host") (ascii "b")]).set (ascii "Host")
            (ascii "c")) := by
  rintro ⟨⟨field, hunique, _⟩, _⟩
  have htwo : (((empty.applyAll [.add (ascii "Host") (ascii "a"),
      .add (ascii "host") (ascii "b")]).set (ascii "Host")
        (ascii "c")).fields.filter (·.hasName (ascii "Host"))).length = 2 := by
    decide
  rw [hunique, List.length_singleton] at htwo
  exact absurd htwo (by decide)

end HttpHeaders

end VynxHttp
