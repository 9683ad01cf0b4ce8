import VynxHttp.ByteBuffer
import VynxHttp.HttpHeaders

/-!
# Responses
-/

namespace VynxHttp

structure HttpResponse where
  statusCode : UInt16 := 0
  reason : Bytes := []
  headers : HttpHeaders := .empty
  body : ByteBuffer := .empty

namespace HttpResponse

/-- `true` for 3xx. -/
def isRedirect (response : HttpResponse) : Bool :=
  300 ≤ response.statusCode && response.statusCode < 400

def isChunked (response : HttpResponse) : Bool := response.headers.isChunked

def contentLength (response : HttpResponse) : Option ℕ :=
  response.headers.contentLength

/-- What a move leaves behind.  The standard does not say what is left of the
moved-from string `reason`. -/
def movedFrom (response : HttpResponse) (reason : Bytes) : HttpResponse where
  statusCode := response.statusCode
  reason
  headers := .empty
  body := .movedFrom

end HttpResponse

/-- What a response says: the positions and the capacity of its body buffer
are left out. -/
structure ResponseValue where
  statusCode : UInt16
  reason : Bytes
  fields : List HeaderField
  body : Bytes
  deriving DecidableEq, Repr

def HttpResponse.value (response : HttpResponse) : ResponseValue where
  statusCode := response.statusCode
  reason := response.reason
  fields := response.headers.fields
  body := response.body.unread

/-- The same response with more body. -/
def ResponseValue.appendBody (value : ResponseValue) (bytes : Bytes) :
    ResponseValue :=
  { value with body := value.body ++ bytes }

@[simp] theorem ResponseValue.appendBody_nil (value : ResponseValue) :
    value.appendBody [] = value := by
  simp [appendBody]

@[simp] theorem ResponseValue.appendBody_appendBody
    (value : ResponseValue) (first second : Bytes) :
    (value.appendBody first).appendBody second =
      value.appendBody (first ++ second) := by
  simp [appendBody]

end VynxHttp
