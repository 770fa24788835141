import Netramesh.Http.Header
import Netramesh.Net.Err
import Netramesh.Net.Url

/-!
# Requests, responses and their bodies

The fields of `http.Request` and `http.Response` that the proxy reads or
writes. `Body` is the `io.ReadCloser` a message hands out: a counted, a
chunked or an unbounded view of the connection the message came from, together
with what the reader of the body remembers between two calls. `NoBody` is the
absence of one.
-/

namespace Netramesh.Http

open Net

/-- `internal.chunkedReader`, without the reader it wraps: `n` is what is left
of the current chunk, `checkEnd` that the chunk's own line end is still due. -/
structure ChunkedReader where
  n : Nat := 0
  err : Option Err := none
  checkEnd : Bool := false
  deriving DecidableEq

/-- What a `body` reads from. -/
inductive BodySrc
  /-- `io.LimitReader(r, n)`, with `n` bytes to go. -/
  | limited (n : Nat)
  /-- `internal.NewChunkedReader(r)`. -/
  | chunked (cr : ChunkedReader)
  /-- The connection itself, up to its end. -/
  | wire
  deriving DecidableEq

/-- The `body` of a message. `hdr` says that a trailer is still to be read
when `src` ends. -/
structure Body where
  src : BodySrc
  hdr : Bool
  closing : Bool
  sawEOF : Bool := false
  closed : Bool := false
  deriving DecidableEq

/-- `http.Request`, as `ReadRequest` fills it. `body = none` is `NoBody`. -/
structure Request where
  method : Bytes
  url : URL
  requestURI : Bytes
  proto : Bytes
  protoMajor : Nat
  protoMinor : Nat
  header : Header
  host : Bytes
  close : Bool
  contentLength : Int
  transferEncoding : List Bytes
  trailer : Option Header
  body : Option Body
  deriving DecidableEq

/-- `http.Response`, as `ReadResponse` fills it. -/
structure Response where
  status : Bytes
  statusCode : Nat
  proto : Bytes
  protoMajor : Nat
  protoMinor : Nat
  header : Header
  close : Bool
  contentLength : Int
  transferEncoding : List Bytes
  trailer : Option Header
  body : Option Body
  deriving DecidableEq

/-- `nhttp.MethodHead`. -/
def methodHead : Bytes := lit "HEAD"

/-- A request for `path` as `ReadRequest` would fill it. -/
def plainRequest (path : Bytes) : Request where
  method := lit "GET"
  url := { path := path }
  requestURI := path
  proto := lit "HTTP/1.1"
  protoMajor := 1
  protoMinor := 1
  header := Header.empty
  host := lit "shop"
  close := false
  contentLength := 0
  transferEncoding := []
  trailer := none
  body := none

/-- A response with the status code and no body. -/
def plainResponse (code : Nat) : Response where
  status := itoa code
  statusCode := code
  proto := lit "HTTP/1.1"
  protoMajor := 1
  protoMinor := 1
  header := Header.empty
  close := false
  contentLength := 0
  transferEncoding := []
  trailer := none
  body := none

end Netramesh.Http
