/-!
# Error codes and results
-/

namespace VynxHttp

inductive ErrorCode where
  | ok
  | connectionRefused
  | connectionTimeout
  | connectionReset
  | dnsResolutionFailed
  | socketError
  | addressUnavailable
  | tlsHandshakeFailed
  | tlsCertificateError
  | tlsHostnameMismatch
  | tlsProtocolError
  | httpParseError
  | httpInvalidMethod
  | httpInvalidVersion
  | httpInvalidHeader
  | httpInvalidBody
  | httpChunkedEncodingError
  | httpContentLengthMismatch
  | h2FrameError
  | h2CompressionError
  | h2StreamError
  | h2FlowControlError
  | bufferOverflow
  | bufferUnderflow
  | allocationFailed
  | resourceExhausted
  | operationCancelled
  | operationTimeout
  | invalidState
  | invalidArgument
  | decompressionError
  | compressionError
  | invalidContentEncoding
  deriving DecidableEq, Repr

/-- `result<T>`: a value or an error code. -/
abbrev Result (α : Type) := Except ErrorCode α

/-- `result<void>` after success. -/
def success : Result Unit := .ok ()

end VynxHttp
