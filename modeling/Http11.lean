import Http11.Accept
import Http11.Auth
import Http11.AuthGrammar
import Http11.AuthHeaders
import Http11.AuthParams
import Http11.Authority
import Http11.Base64
import Http11.Building
import Http11.Cache
import Http11.CacheGrammar
import Http11.Calls
import Http11.Capacity
import Http11.ChunkGrammar
import Http11.Combining
import Http11.Compression
import Http11.Consuming
import Http11.ContentDisposition
import Http11.ContentGrammar
import Http11.ContentType
import Http11.Cookie
import Http11.CookieAttributes
import Http11.Date
import Http11.DateYears
import Http11.Decoder.Body
import Http11.Decoder.Buffer
import Http11.Decoder.ChunkExt
import Http11.Decoder.Core
import Http11.Decoder.Fields
import Http11.Decoder.Request
import Http11.Decoder.Response
import Http11.Digest
import Http11.DigestGrammar
import Http11.ETag
import Http11.Encoder
import Http11.Error
import Http11.Exchange
import Http11.Expect
import Http11.Form
import Http11.FormBuilder
import Http11.FormRun
import Http11.Host
import Http11.Lib.Calendar
import Http11.Lib.Checked
import Http11.Lib.Cutting
import Http11.Lib.Incremental
import Http11.Lib.Iteration
import Http11.Lib.Lines
import Http11.Lib.Numerals
import Http11.Lib.References
import Http11.Lib.Searching
import Http11.Lib.Separating
import Http11.Lib.Splitting
import Http11.Lib.Trimming
import Http11.Lib.Utf8
import Http11.Lib.Window
import Http11.Message
import Http11.Mixing
import Http11.Multipart
import Http11.NumberFields
import Http11.Proofs.Accept
import Http11.Proofs.AcceptDisplay
import Http11.Proofs.Accounting
import Http11.Proofs.Auth
import Http11.Proofs.AuthGrammar
import Http11.Proofs.AuthHeaders
import Http11.Proofs.AuthParams
import Http11.Proofs.Authority
import Http11.Proofs.Base64
import Http11.Proofs.Building
import Http11.Proofs.Cache
import Http11.Proofs.CacheDisplay
import Http11.Proofs.CacheHeader
import Http11.Proofs.Capacity
import Http11.Proofs.ChunkGrammar
import Http11.Proofs.Combining
import Http11.Proofs.Compression
import Http11.Proofs.Consuming
import Http11.Proofs.ContentType
import Http11.Proofs.Cookie
import Http11.Proofs.CookieAttributes
import Http11.Proofs.CookieFollowed
import Http11.Proofs.CookieInjected
import Http11.Proofs.Date
import Http11.Proofs.DateOrder
import Http11.Proofs.DateYears
import Http11.Proofs.Decoder.Accepted
import Http11.Proofs.Decoder.Changes
import Http11.Proofs.Decoder.Collecting
import Http11.Proofs.Decoder.Consistent
import Http11.Proofs.Decoder.Counting
import Http11.Proofs.Decoder.Decode
import Http11.Proofs.Decoder.Elements
import Http11.Proofs.Decoder.FieldLine
import Http11.Proofs.Decoder.Follows
import Http11.Proofs.Decoder.Framing
import Http11.Proofs.Decoder.HeadLines
import Http11.Proofs.Decoder.Heads
import Http11.Proofs.Decoder.Lines
import Http11.Proofs.Decoder.Phases
import Http11.Proofs.Decoder.Sane
import Http11.Proofs.Decoder.SizeLine
import Http11.Proofs.Decoder.Standing
import Http11.Proofs.Decoder.Tracking
import Http11.Proofs.Decoder.Trailers
import Http11.Proofs.Decoder.Within
import Http11.Proofs.Digest
import Http11.Proofs.Disposition
import Http11.Proofs.DispositionDisplay
import Http11.Proofs.DotSegments
import Http11.Proofs.Draining
import Http11.Proofs.ETag
import Http11.Proofs.Encoded
import Http11.Proofs.Encoder.Accepts
import Http11.Proofs.Encoder.Chunks
import Http11.Proofs.Encoder.Fields
import Http11.Proofs.Encoder.Forms
import Http11.Proofs.Encoder.HeadOnly
import Http11.Proofs.Encoder.Lines
import Http11.Proofs.Encoder.Reading
import Http11.Proofs.Encoder.Requests
import Http11.Proofs.Encoder.Responses
import Http11.Proofs.Encoder.Targets
import Http11.Proofs.Exchange
import Http11.Proofs.Expect
import Http11.Proofs.ExtValue
import Http11.Proofs.Forwarding
import Http11.Proofs.Head
import Http11.Proofs.HostUri
import Http11.Proofs.Intake
import Http11.Proofs.Isolation
import Http11.Proofs.Limits
import Http11.Proofs.Lowering
import Http11.Proofs.Mixing
import Http11.Proofs.Multipart.Building
import Http11.Proofs.Multipart.Finding
import Http11.Proofs.Multipart.Fragments
import Http11.Proofs.Multipart.Grammar
import Http11.Proofs.Multipart.Passing
import Http11.Proofs.Multipart.Reading
import Http11.Proofs.Multipart.Rebuilding
import Http11.Proofs.Multipart.Scanning
import Http11.Proofs.Multipart.Uploading
import Http11.Proofs.Normalize
import Http11.Proofs.Normalized
import Http11.Proofs.NumberFields
import Http11.Proofs.Partition
import Http11.Proofs.Percent
import Http11.Proofs.Positions
import Http11.Proofs.Proxy.Requests
import Http11.Proofs.Quoting
import Http11.Proofs.Range
import Http11.Proofs.Reception
import Http11.Proofs.Refusal
import Http11.Proofs.Resolve
import Http11.Proofs.Separation
import Http11.Proofs.Server.Alike
import Http11.Proofs.Server.Answers
import Http11.Proofs.Server.Dates
import Http11.Proofs.Server.Following
import Http11.Proofs.Session
import Http11.Proofs.SetCookie
import Http11.Proofs.StatusLine
import Http11.Proofs.StoredUri
import Http11.Proofs.Streaming
import Http11.Proofs.Text
import Http11.Proofs.Trailing
import Http11.Proofs.Tunnel
import Http11.Proofs.Uri
import Http11.Proofs.UriParts
import Http11.Proofs.Validate
import Http11.Quoting
import Http11.Range
import Http11.Reader
import Http11.Reception
import Http11.RequestTarget
import Http11.Resolve
import Http11.ReverseProxy
import Http11.Server
import Http11.ServerResponse
import Http11.Service
import Http11.Session
import Http11.StatusLine
import Http11.StoredUri
import Http11.Streaming
import Http11.Text
import Http11.Trailing
import Http11.Tunnel
import Http11.Uri
import Http11.Validate
