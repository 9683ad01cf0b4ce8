import VynxHttp.ByteBuffer
import VynxHttp.HttpHeaders

/-!
# Requests
-/

namespace VynxHttp

inductive HttpMethod where
  | get
  | post
  | put
  | patch
  | del
  | head
  | options
  | trace
  | connect
  deriving DecidableEq, Repr

/-- `to_string` of a method. -/
def HttpMethod.token : HttpMethod → Bytes
  | .get => ascii "GET"
  | .post => ascii "POST"
  | .put => ascii "PUT"
  | .patch => ascii "PATCH"
  | .del => ascii "DELETE"
  | .head => ascii "HEAD"
  | .options => ascii "OPTIONS"
  | .trace => ascii "TRACE"
  | .connect => ascii "CONNECT"

structure HttpRequest where
  method : HttpMethod := .get
  uri : Bytes := []
  host : Bytes := []
  scheme : Bytes := []
  port : UInt16 := 80
  headers : HttpHeaders := .empty
  body : ByteBuffer := .empty

namespace HttpRequest

def requestLine (request : HttpRequest) : Bytes :=
  request.method.token ++ [space] ++ request.uri ++
    ascii " HTTP/1.1" ++ crlf

/-- The loop of `serialize` over the header fields. -/
def writeFields (buffer : ByteBuffer) :
    List HeaderField → Option ByteBuffer
  | [] => some buffer
  | field :: fields =>
      (buffer.write (field.plainText ++ crlf)).bind fun written =>
        writeFields written fields

/-- `none` when a write to the buffer does not return. -/
def serialize (request : HttpRequest) : Option ByteBuffer := do
  if cr ∈ request.uri ∨ lf ∈ request.uri then
    return .empty
  let buffer ← ByteBuffer.empty.write request.requestLine
  let buffer ← writeFields buffer request.headers.fields
  let buffer ← buffer.write crlf
  if 0 < request.body.size then buffer.writeBuffer request.body
  else return buffer

theorem writeFields_spec {buffer : ByteBuffer}
    (hcapacity : 0 < buffer.capacity) (fields : List HeaderField) :
    ∃ written, writeFields buffer fields = some written ∧
      written.unread = buffer.unread ++
        fields.flatMap (fun field => field.plainText ++ crlf) ∧
      0 < written.capacity := by
  induction fields generalizing buffer with
  | nil => exact ⟨buffer, rfl, by simp, hcapacity⟩
  | cons field fields ih =>
      obtain ⟨first, hfirst, hunread, hpositive⟩ :=
        buffer.write_spec (field.plainText ++ crlf) hcapacity
      obtain ⟨written, hwritten, hrest, hfinal⟩ := ih hpositive
      refine ⟨written, by rw [writeFields, hfirst, Option.bind_some,
        hwritten], ?_, hfinal⟩
      rw [hrest, hunread, List.flatMap_cons, List.append_assoc]

/-- What `serialize` returns: nothing for a URI with a CR or LF, and the head
followed by the body for every other request. -/
theorem serialize_spec (request : HttpRequest) :
    ∃ buffer, request.serialize = some buffer ∧
      buffer.unread =
        if cr ∈ request.uri ∨ lf ∈ request.uri then []
        else
          request.requestLine ++
            request.headers.fields.flatMap
              (fun field => field.plainText ++ crlf) ++
            crlf ++ request.body.unread := by
  by_cases huri : cr ∈ request.uri ∨ lf ∈ request.uri
  · refine ⟨.empty, by simp [serialize, huri], ?_⟩
    rw [if_pos huri, ByteBuffer.unread_empty]
  · obtain ⟨line, hline, hlineUnread, hlineCapacity⟩ :=
      ByteBuffer.empty.write_spec request.requestLine
        ByteBuffer.capacity_empty_pos
    obtain ⟨head, hhead, hheadUnread, hheadCapacity⟩ :=
      writeFields_spec hlineCapacity request.headers.fields
    obtain ⟨block, hblock, hblockUnread, hblockCapacity⟩ :=
      head.write_spec crlf hheadCapacity
    have hunread : block.unread = request.requestLine ++
        request.headers.fields.flatMap
          (fun field => field.plainText ++ crlf) ++ crlf := by
      rw [hblockUnread, hheadUnread, hlineUnread, ByteBuffer.unread_empty,
        List.nil_append]
    rw [if_neg huri, ← hunread]
    by_cases hbody : 0 < request.body.size
    · obtain ⟨whole, hwhole, hwholeUnread, _⟩ :=
        block.write_spec request.body.unread hblockCapacity
      refine ⟨whole, ?_, hwholeUnread⟩
      simp [serialize, huri, hline, hhead, hblock, hbody,
        ByteBuffer.writeBuffer, hwhole]
    · have hempty : request.body.unread = [] := by
        rw [← List.length_eq_zero_iff, ByteBuffer.length_unread]
        omega
      refine ⟨block, ?_, by rw [hempty, List.append_nil]⟩
      simp [serialize, huri, hline, hhead, hblock, hbody]

end HttpRequest

end VynxHttp
