import VynxHttp.DelimitedText
import VynxHttp.HttpRequest

/-!
# What a serialized request is read as

A serialized request is read back as its own lines and body exactly when
`serialize` refuses it or no name and no value of its header fields contains a
CR LF.  The check of `serialize` covers the URI only.
-/

namespace VynxHttp

open DelimitedText

namespace HttpRequest

def requestLineText (request : HttpRequest) : Bytes :=
  request.method.token ++ [space] ++ request.uri ++ ascii " HTTP/1.1"

def lines (request : HttpRequest) : List Bytes :=
  request.requestLineText :: request.headers.fields.map HeaderField.plainText

/-- `serialize` refuses, or the bytes which it returns, cut at CR LF up to the
first empty line, are the lines of the request followed by its body. -/
def ReadAsItself (request : HttpRequest) : Prop :=
  ∃ buffer, request.serialize = some buffer ∧
    (buffer.unread = [] ∨
      cutBlock cr lf buffer.unread =
        some (request.lines, request.body.unread))

/-- `serialize` refuses, or no header field can end its line. -/
def NoInjection (request : HttpRequest) : Prop :=
  (cr ∈ request.uri ∨ lf ∈ request.uri) ∨
    ∀ field ∈ request.headers.fields,
      Free cr lf field.name ∧ Free cr lf field.value

instance (request : HttpRequest) : Decidable request.NoInjection :=
  inferInstanceAs (Decidable (_ ∨ _))

theorem serialize_encodeBlock (request : HttpRequest) :
    ∃ buffer, request.serialize = some buffer ∧
      buffer.unread =
        if cr ∈ request.uri ∨ lf ∈ request.uri then []
        else encodeBlock cr lf request.lines request.body.unread := by
  obtain ⟨buffer, hserialize, hunread⟩ := request.serialize_spec
  refine ⟨buffer, hserialize, hunread.trans ?_⟩
  simp [encodeBlock, encodeLines, lines, requestLine, requestLineText, crlf,
    List.flatMap_map]

/-- A field line contains a CR LF only where its name or its value does. -/
theorem free_plainText_iff {field : HeaderField} :
    Free cr lf field.plainText ↔
      Free cr lf field.name ∧ Free cr lf field.value := by
  have htext : field.plainText =
      field.name ++ colon :: ([] ++ space :: field.value) := by
    simp [HeaderField.plainText, ascii, colon, space]
  constructor
  · intro hfree
    refine ⟨hfree.of_part ?_, hfree.of_part ?_⟩
    · rw [htext]
      exact (List.prefix_append _ _).isInfix
    · rw [HeaderField.plainText]
      exact (List.suffix_append _ _).isInfix
  · rintro ⟨hname, hvalue⟩
    rw [htext]
    exact .append_cons (by decide) (by decide) hname
      (.append_cons (by decide) (by decide) free_nil hvalue)

theorem plainText_ne_nil (field : HeaderField) : field.plainText ≠ [] := by
  simp [HeaderField.plainText, ascii]

theorem free_requestLineText {request : HttpRequest}
    (huri : cr ∉ request.uri) : Free cr lf request.requestLineText := by
  apply free_of_notMem_left
  have htoken : cr ∉ request.method.token := by
    cases request.method <;> decide
  have hversion : cr ∉ ascii " HTTP/1.1" := by decide
  have hspace : cr ∉ [space] := by decide
  simp only [requestLineText, List.mem_append, not_or]
  exact ⟨⟨⟨htoken, hspace⟩, huri⟩, hversion⟩

theorem lines_readable_iff {request : HttpRequest}
    (huri : cr ∉ request.uri) :
    (∀ line ∈ request.lines, line ≠ [] ∧ Free cr lf line) ↔
      ∀ field ∈ request.headers.fields,
        Free cr lf field.name ∧ Free cr lf field.value := by
  have hfirst : request.requestLineText ≠ [] := by
    simp [requestLineText, ascii]
  simp only [lines, List.forall_mem_cons, List.forall_mem_map,
    free_plainText_iff]
  constructor
  · rintro ⟨_, hfields⟩ field hmem
    exact (hfields field hmem).2
  · intro hfields
    exact ⟨⟨hfirst, free_requestLineText huri⟩,
      fun field hmem => ⟨plainText_ne_nil field, hfields field hmem⟩⟩

/-- A request is read as itself exactly when `serialize` refuses it or no
header field contains a CR LF; and two such requests whose serializations are
equal have the same lines and the same body. -/
theorem readAsItself_iff_noInjection (request : HttpRequest) :
    (request.ReadAsItself ↔ request.NoInjection) ∧
      ∀ other : HttpRequest, request.NoInjection → other.NoInjection →
        ∀ buffer buffer' : ByteBuffer,
          request.serialize = some buffer →
          other.serialize = some buffer' →
          buffer.unread = buffer'.unread → buffer.unread ≠ [] →
          request.lines = other.lines ∧
            request.body.unread = other.body.unread := by
  have hiff : ∀ request : HttpRequest,
      request.ReadAsItself ↔ request.NoInjection := by
    intro request
    obtain ⟨buffer, hserialize, hunread⟩ := request.serialize_encodeBlock
    by_cases huri : cr ∈ request.uri ∨ lf ∈ request.uri
    · rw [if_pos huri] at hunread
      exact ⟨fun _ => .inl huri,
        fun _ => ⟨buffer, hserialize, .inl hunread⟩⟩
    · rw [if_neg huri] at hunread
      have hlines := lines_readable_iff (not_or.mp huri).1
      have hne : buffer.unread ≠ [] := by
        rw [hunread]
        simp [encodeBlock]
      have hblock := cutBlock_encodeBlock_iff (show cr ≠ lf by decide)
        request.lines request.body.unread
      constructor
      · rintro ⟨buffer', hserialize', hread⟩
        rw [hserialize, Option.some.injEq] at hserialize'
        rw [← hserialize', hunread] at hread
        rw [hunread] at hne
        exact .inr (hlines.mp (hblock.mp (hread.resolve_left hne)))
      · intro hfields
        refine ⟨buffer, hserialize, .inr ?_⟩
        rw [hunread]
        exact hblock.mpr (hlines.mpr (hfields.resolve_left huri))
  refine ⟨hiff request, fun other hrequest hother buffer buffer'
    hserialize hserialize' hsame hne => ?_⟩
  obtain ⟨_, hfirst, hread⟩ := (hiff request).mpr hrequest
  obtain ⟨_, hsecond, hread'⟩ := (hiff other).mpr hother
  rw [hserialize, Option.some.injEq] at hfirst
  rw [hserialize', Option.some.injEq] at hsecond
  rw [← hfirst] at hread
  rw [← hsecond, ← hsame] at hread'
  have hcut := (hread.resolve_left hne).symm.trans
    (hread'.resolve_left hne)
  simpa using hcut

/-- A field value with a line end is read as a further header line. -/
theorem not_readAsItself_injected :
    ¬ ∀ request : HttpRequest, request.ReadAsItself := by
  intro hall
  let request : HttpRequest :=
    { uri := ascii "/"
      headers := ⟨[⟨ascii "Cookie", ascii "a=b\r\nX: y"⟩]⟩ }
  obtain ⟨buffer, hserialize, hread⟩ := hall request
  obtain ⟨buffer', hserialize', hunread⟩ := request.serialize_encodeBlock
  rw [hserialize, Option.some.injEq] at hserialize'
  rw [hserialize', hunread] at hread
  have hbody : request.body.unread = [] := ByteBuffer.unread_empty
  rw [hbody] at hread
  revert hread
  decide

end HttpRequest

end VynxHttp
