import VynxHttp.ByteString

/-!
# Header collections

Header fields are kept in insertion order and looked up by name without regard
to case.  `Transfer-Encoding` and `Connection` values are scanned token by
token; the two scans of the source differ in the token they look for only, so
they are one definition here.
-/

namespace VynxHttp

structure HeaderField where
  name : Bytes
  value : Bytes
  deriving DecidableEq, Repr

def HeaderField.hasName (field : HeaderField) (name : Bytes) : Bool :=
  equalsIgnoreCase field.name name

def HeaderField.plainText (field : HeaderField) : Bytes :=
  field.name ++ ascii ": " ++ field.value

structure HttpHeaders where
  fields : List HeaderField
  deriving DecidableEq, Repr

namespace HttpHeaders

def empty : HttpHeaders := ⟨[]⟩

def add (headers : HttpHeaders) (name value : Bytes) : HttpHeaders :=
  ⟨headers.fields ++ [⟨name, value⟩]⟩

def setFields (name value : Bytes) : List HeaderField → List HeaderField
  | [] => [⟨name, value⟩]
  | field :: rest =>
      if field.hasName name then { field with value } :: rest
      else field :: setFields name value rest

/-- Replace the value of the first header of that name, or append one. -/
def set (headers : HttpHeaders) (name value : Bytes) : HttpHeaders :=
  ⟨setFields name value headers.fields⟩

def get (headers : HttpHeaders) (name : Bytes) : Option Bytes :=
  (headers.fields.find? (·.hasName name)).map (·.value)

def contains (headers : HttpHeaders) (name : Bytes) : Bool :=
  headers.fields.any (·.hasName name)

/-- `erase` from `std::remove_if` on. -/
def remove (headers : HttpHeaders) (name : Bytes) : HttpHeaders :=
  ⟨headers.fields.filter fun field => !field.hasName name⟩

def clear (_headers : HttpHeaders) : HttpHeaders := empty

/-! ## Framing and connection headers -/

def contentLength (headers : HttpHeaders) : Option ℕ :=
  match headers.get (ascii "Content-Length") with
  | none => none
  | some value => (fromChars 10 (2 ^ 64) value).map Prod.fst

def isListSeparator (b : UInt8) : Bool :=
  b == space || b == tab || b == 44

/-- The scanning loop of `is_chunked` and `connection_keep_alive`, on what is
left of the value.  Every round skips separators and takes one token. -/
def scanTokens (needle : Bytes) : ℕ → Bytes → Bool
  | 0, _ => false
  | fuel + 1, text =>
      let rest := text.dropWhile isListSeparator
      if rest = [] then false
      else
        let token := rest.takeWhile fun b => !isListSeparator b
        if equalsIgnoreCase token needle then true
        else
          scanTokens needle fuel
            (rest.dropWhile fun b => !isListSeparator b)

/-- Every round takes at least one byte, so the fuel is never used up. -/
def hasToken (needle value : Bytes) : Bool :=
  scanTokens needle (value.length + 1) value

def isChunked (headers : HttpHeaders) : Bool :=
  match headers.get (ascii "Transfer-Encoding") with
  | none => false
  | some value => hasToken (ascii "chunked") value

def connectionKeepAlive (headers : HttpHeaders) : Bool :=
  match headers.get (ascii "Connection") with
  | none => true
  | some value => !hasToken (ascii "close") value

@[simp] theorem fields_empty : empty.fields = [] := rfl

@[simp] theorem fields_add (headers : HttpHeaders) (name value : Bytes) :
    (headers.add name value).fields = headers.fields ++ [⟨name, value⟩] :=
  rfl

/-- What `set` does: it appends a field, or it gives the first field of the
name the new value. -/
theorem setFields_cases (name value : Bytes) (fields : List HeaderField) :
    (fields.filter (·.hasName name) = [] ∧
        setFields name value fields = fields ++ [⟨name, value⟩]) ∨
      ∃ before field after, fields = before ++ field :: after ∧
        before.filter (·.hasName name) = [] ∧ field.hasName name = true ∧
        setFields name value fields =
          before ++ { field with value } :: after := by
  induction fields with
  | nil => exact .inl ⟨rfl, rfl⟩
  | cons head rest ih =>
      by_cases hname : head.hasName name = true
      · refine .inr ⟨[], head, rest, rfl, rfl, hname, ?_⟩
        rw [setFields, if_pos hname]
        rfl
      · have hset : setFields name value (head :: rest) =
            head :: setFields name value rest := by
          rw [setFields, if_neg hname]
        rcases ih with
          ⟨habsent, happended⟩ | ⟨before, field, after, rfl, hbefore, hfield,
            hwritten⟩
        · refine .inl ⟨?_, by rw [hset, happended, List.cons_append]⟩
          simpa [hname] using habsent
        · refine .inr ⟨head :: before, field, after, rfl, ?_, hfield,
            by rw [hset, hwritten, List.cons_append]⟩
          simpa [hname] using hbefore

theorem hasName_self (name value : Bytes) :
    HeaderField.hasName ⟨name, value⟩ name = true := by
  simp [HeaderField.hasName]

/-- `set` leaves the fields of other names as they are. -/
theorem mem_setFields {name value : Bytes} {fields : List HeaderField}
    {field : HeaderField} (hmem : field ∈ setFields name value fields) :
    field ∈ fields ∨ field.hasName name = true := by
  rcases setFields_cases name value fields with
    ⟨_, happended⟩ | ⟨before, written, after, rfl, _, hwritten, hset⟩
  · rw [happended, List.mem_append, List.mem_singleton] at hmem
    rcases hmem with hold | rfl
    · exact .inl hold
    · exact .inr (hasName_self name value)
  · rw [hset, List.mem_append, List.mem_cons] at hmem
    rcases hmem with hbefore | rfl | hafter
    · exact .inl (List.mem_append_left _ hbefore)
    · exact .inr hwritten
    · exact .inl (List.mem_append_right _ (List.mem_cons_of_mem _ hafter))

theorem mem_set {headers : HttpHeaders} {name value : Bytes}
    {field : HeaderField} (hmem : field ∈ (headers.set name value).fields) :
    field ∈ headers.fields ∨ field.hasName name = true :=
  mem_setFields hmem

theorem find?_setFields (name value : Bytes) (fields : List HeaderField) :
    ((setFields name value fields).find? (·.hasName name)).map (·.value) =
      some value := by
  rw [← List.head?_filter]
  rcases setFields_cases name value fields with
    ⟨habsent, happended⟩ | ⟨before, field, after, rfl, hbefore, hname, hset⟩
  · rw [happended, List.filter_append, habsent]
    simp [hasName_self]
  · have hkept : HeaderField.hasName { field with value } name = true := hname
    rw [hset, List.filter_append, hbefore]
    simp [hkept]

theorem filter_setFields_of_ne {name other : Bytes}
    (hother : equalsIgnoreCase name other = false) (value : Bytes)
    (fields : List HeaderField) :
    (setFields name value fields).filter (·.hasName other) =
      fields.filter (·.hasName other) := by
  rcases setFields_cases name value fields with
    ⟨_, happended⟩ | ⟨before, field, after, rfl, _, hname, hset⟩
  · have hnew : HeaderField.hasName ⟨name, value⟩ other = false := hother
    rw [happended, List.filter_append]
    simp [hnew]
  · have hdiffers : field.hasName other = false :=
      equalsIgnoreCase_of_ne hname hother
    have hwritten : HeaderField.hasName { field with value } other = false :=
      hdiffers
    rw [hset, List.filter_append, List.filter_append]
    simp [hdiffers, hwritten]

theorem find?_setFields_of_ne {name other : Bytes}
    (hother : equalsIgnoreCase name other = false) (value : Bytes)
    (fields : List HeaderField) :
    (setFields name value fields).find? (·.hasName other) =
      fields.find? (·.hasName other) := by
  rw [← List.head?_filter, filter_setFields_of_ne hother, List.head?_filter]

/-- A name which no field has is appended. -/
theorem setFields_of_absent {name : Bytes} {fields : List HeaderField}
    (habsent : fields.filter (·.hasName name) = []) (value : Bytes) :
    setFields name value fields = fields ++ [⟨name, value⟩] := by
  rcases setFields_cases name value fields with
    ⟨_, happended⟩ | ⟨before, field, after, rfl, _, hname, _⟩
  · exact happended
  · rw [List.filter_append] at habsent
    simp [hname] at habsent

theorem get_set (headers : HttpHeaders) (name value : Bytes) :
    (headers.set name value).get name = some value :=
  find?_setFields name value headers.fields

theorem get_set_of_ne (headers : HttpHeaders) {name other : Bytes}
    (hother : equalsIgnoreCase name other = false) (value : Bytes) :
    (headers.set name value).get other = headers.get other :=
  congrArg (Option.map _) (find?_setFields_of_ne hother value headers.fields)

theorem contains_eq_isSome_get (headers : HttpHeaders) (name : Bytes) :
    headers.contains name = (headers.get name).isSome := by
  rw [contains, get, Option.isSome_map, Bool.eq_iff_iff, List.any_eq_true,
    List.find?_isSome]

theorem get_eq_none_of_contains_eq_false {headers : HttpHeaders}
    {name : Bytes} (habsent : ∀ field ∈ headers.fields,
      field.hasName name = false) :
    headers.get name = none := by
  unfold get
  rw [List.find?_eq_none.mpr, Option.map_none]
  simpa using habsent

end HttpHeaders

end VynxHttp
