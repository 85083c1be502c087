import Http11.Multipart

/-! Forms that are built of parts, and written with their boundary between them. -/

namespace Http11

namespace Part

/-- A part with a name and no content. -/
def new (name : Str) : Part where
  contentDisposition := some ((ContentDisposition.new .formData).withName name)
  contentType := none
  headers := []
  body := []

/-- A part with a name, a file name and a content type, unless that cannot be read. -/
def file (name filename contentType : Str) : Part where
  contentDisposition :=
    some (((ContentDisposition.new .formData).withName name).withFilename filename)
  contentType := (ContentType.parse contentType).toOption
  headers := []
  body := []

/-- The part with another content. -/
def withBody (part : Part) (body : Bytes) : Part := { part with body := body }

/-- The part with another content type. -/
def withContentType (part : Part) (contentType : ContentType) : Part :=
  { part with contentType := some contentType }

end Part

/-- A form that is built. -/
structure MultipartBuilder where
  /-- The boundary between the parts. -/
  boundary : Str
  /-- The parts, in their order. -/
  parts : List Part
  deriving DecidableEq, Repr

namespace MultipartBuilder

/-- A form without parts, with some boundary. -/
def withBoundary (boundary : Str) : MultipartBuilder where
  boundary := boundary
  parts := []

/-- The content type of the form, with the boundary between quotes unless it is a token. -/
def contentType (builder : MultipartBuilder) : Str :=
  if (Utf8.encode builder.boundary).all isTokenChar then
    "multipart/form-data; boundary=".toList ++ builder.boundary
  else "multipart/form-data; boundary=\"".toList ++ builder.boundary ++ "\"".toList

/-- The form with one more part. -/
def part (builder : MultipartBuilder) (part : Part) : MultipartBuilder :=
  { builder with parts := builder.parts ++ [part] }

/-- The form with one more part of a text. -/
def textField (builder : MultipartBuilder) (name value : Str) : MultipartBuilder :=
  builder.part ((Part.new name).withBody (Utf8.encode value))

/-- The form with one more part of a file. -/
def fileField (builder : MultipartBuilder) (name filename contentType : Str) (data : Bytes) :
    MultipartBuilder :=
  builder.part ((Part.file name filename contentType).withBody data)

/-- A part as it is written, in front of the delimiter behind it. -/
def buildPart (boundary : Str) (part : Part) : Bytes :=
  hyphens ++ Utf8.encode boundary ++ crlf ++
    (match part.contentDisposition with
      | some disposition =>
          Utf8.encode "Content-Disposition: ".toList ++ Utf8.encode disposition.display ++ crlf
      | none => []) ++
    (match part.contentType with
      | some type =>
          Utf8.encode "Content-Type: ".toList ++ Utf8.encode type.display ++ crlf
      | none => []) ++
    part.headers.flatMap (fun (name, value) =>
      Utf8.encode name ++ Utf8.encode ": ".toList ++ Utf8.encode value ++ crlf) ++
    crlf ++ part.body ++ crlf

/-- The form as it is written. -/
def build (builder : MultipartBuilder) : Bytes :=
  builder.parts.flatMap (buildPart builder.boundary) ++
    (hyphens ++ Utf8.encode builder.boundary ++ hyphens ++ crlf)

end MultipartBuilder

end Http11
