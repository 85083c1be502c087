import Http11.Lib.Checked
import Http11.Text

/-! The errors of decoding and of encoding, and the limits a decoder enforces. -/

namespace Http11

/-- Why decoding failed. -/
inductive Error where
  /-- The input is malformed, or a method was called in the wrong state. -/
  | invalidData (message : String)
  /-- The buffer would grow past its limit. -/
  | bufferOverflow (size limit : Nat)
  /-- There are more header fields than allowed. -/
  | tooManyHeaders (count limit : Nat)
  /-- A header line is longer than allowed. -/
  | headerLineTooLong (size limit : Nat)
  /-- The body is larger than allowed. -/
  | bodyTooLarge (size limit : Nat)
  /-- A chunk-size line is longer than allowed. -/
  | chunkLineTooLong (size limit : Nat)
  deriving DecidableEq, Repr

/-- Why encoding failed, or why a message could not be built. -/
inductive EncodeError where
  /-- A request of version 1.1 has no host. -/
  | missingHostHeader
  /-- A message declares both framings. -/
  | conflictingTransferEncodingAndContentLength
  /-- The status forbids a transfer encoding. -/
  | forbiddenTransferEncoding (statusCode : Nat)
  /-- The method is not a token. -/
  | invalidMethod (method : Str)
  /-- The request target is malformed. -/
  | invalidRequestTarget (uri : Str)
  /-- The protocol version is malformed. -/
  | invalidVersion (version : Str)
  /-- A header name is not a token. -/
  | invalidHeaderName (name : Str)
  /-- A header value holds control characters. -/
  | invalidHeaderValue (name value : Str)
  /-- The status code is out of range. -/
  | invalidStatusCode (code : Nat)
  /-- The reason phrase is malformed. -/
  | invalidReasonPhrase (phrase : Str)
  /-- The host is given more than once. -/
  | duplicateHostHeader
  /-- The host is malformed. -/
  | invalidHostHeader (value : Str)
  /-- The host differs from the authority of the target. -/
  | hostAuthorityMismatch (host authority : Str)
  /-- A response with status 205 has a body. -/
  | forbiddenBodyFor205
  /-- The status forbids a content length. -/
  | forbiddenContentLength (statusCode : Nat)
  /-- The content length differs from the length of the body. -/
  | contentLengthMismatch (headerValue bodyLength : Nat)
  /-- The form of the target does not suit the method. -/
  | invalidRequestTargetForm (method uri : Str)
  /-- An http target names a user. -/
  | userinfoInHttpUri (uri : Str)
  /-- The host is given for a target without authority. -/
  | nonEmptyHostWithoutAuthority (host uri : Str)
  /-- An http target has no host. -/
  | emptyHostInHttpUri (uri : Str)
  /-- The content length is not a number. -/
  | invalidContentLengthValue (value : Str)
  /-- Several content lengths differ. -/
  | duplicateContentLength
  deriving DecidableEq, Repr

/-- What a decoder accepts at most. -/
structure DecoderLimits where
  /-- Bytes in the buffer. -/
  maxBufferSize : Nat := 64 * 1024
  /-- Header fields of one message. -/
  maxHeadersCount : Nat := 100
  /-- Bytes of one header line. -/
  maxHeaderLineSize : Nat := 8 * 1024
  /-- Bytes of one body. -/
  maxBodySize : Nat := 10 * 1024 * 1024
  /-- Bytes of one chunk-size line. -/
  maxChunkLineSize : Nat := 64
  deriving DecidableEq, Repr

/-- Every limit at the largest length there is. -/
def DecoderLimits.unlimited : DecoderLimits where
  maxBufferSize := usizeMax
  maxHeadersCount := usizeMax
  maxHeaderLineSize := usizeMax
  maxBodySize := usizeMax
  maxChunkLineSize := usizeMax

end Http11
