import Netramesh.Http.Transfer

/-!
# Reading the head of a message

`ReadRequest` and `ReadResponse` read a first line and a header section and
decide how the body is framed. The body itself stays where it is: the message
carries a `Body` that says how to go on reading.
-/

namespace Netramesh.Http

open Net Lib Parser

variable {ρ : Type} [Source Err ρ]

/-- `io.EOF` inside a message is unexpected. -/
def Err.unexpected : Err → Err
  | .eof => .unexpectedEOF
  | e => e

/-- `parseRequestLine`. -/
def parseRequestLine (line : Bytes) : Option (Bytes × Bytes × Bytes) :=
  match cutByte sp line with
  | none => none
  | some (method, rest) => (cutByte sp rest).map fun (uri, proto) =>
      (method, uri, proto)

/-- `ParseHTTPVersion`. -/
def parseHTTPVersion (vers : Bytes) : Option (Nat × Nat) :=
  if vers = lit "HTTP/1.1" then some (1, 1)
  else if vers = lit "HTTP/1.0" then some (1, 0)
  else if !(lit "HTTP/").isPrefixOf vers then none
  else
    match cutByte 46 (vers.drop 5) with
    | none => none
    | some (major, minor) =>
      match parseInt major, parseInt minor with
      | some major, some minor =>
        if 0 ≤ major ∧ major ≤ 1000000 ∧ 0 ≤ minor ∧ minor ≤ 1000000 then
          some (major.toNat, minor.toNat)
        else none
      | _, _ => none

/-- `validMethod`. -/
def validMethod (method : Bytes) : Bool := method ≠ [] && method.all isTokenByte

/-- `fixPragmaCacheControl`. -/
def fixPragmaCacheControl (h : Header) : Header :=
  if h.first (lit "Pragma") = lit "no-cache" ∧ !h.has (lit "Cache-Control") then
    h.put (lit "Cache-Control") [lit "no-cache"]
  else h

/-- The first line of a request: method, target and version, with the target
parsed. -/
structure RequestLine where
  method : Bytes
  requestURI : Bytes
  url : URL
  proto : Bytes
  major : Nat
  minor : Nat

/-- The checks on the first line. A `CONNECT` target that is no path is an
authority, parsed behind a made-up scheme. -/
def requestLine (s : Bytes) : Except Err RequestLine :=
  match parseRequestLine s with
  | none => .error (.badString (lit "malformed HTTP request") s)
  | some (method, uri, proto) =>
    if !validMethod method then
      .error (.badString (lit "invalid method") method)
    else
      match parseHTTPVersion proto with
      | none => .error (.badString (lit "malformed HTTP version") proto)
      | some (major, minor) =>
        let justAuthority := method = lit "CONNECT" ∧ uri.head? ≠ some 47
        let rawurl := if justAuthority then lit "http://" ++ uri else uri
        match parseRequestURI rawurl with
        | none => .error (.badURL rawurl)
        | some url =>
          .ok { method := method, requestURI := uri, proto := proto,
                major := major, minor := minor
                url := if justAuthority then { url with scheme := [] }
                  else url }

/-- `isH2Upgrade`. -/
def isH2Upgrade (l : RequestLine) (h : Header) : Bool :=
  l.method == lit "PRI" && h.entries.isEmpty && l.url.path == lit "*" &&
    l.proto == lit "HTTP/2.0"

/-- The rest of `readRequest`, once the header section is there. -/
def finishRequest (l : RequestLine) (h : Header) : Except Err Request :=
  let host := if l.url.host = [] then h.first (lit "Host") else l.url.host
  let h := fixPragmaCacheControl (h.delete (lit "Host"))
  let (close, h) := shouldClose l.major l.minor h false
  match readTransfer false 200 l.method l.major l.minor close h with
  | .error e => .error e
  | .ok t =>
    let h2 := isH2Upgrade l t.header
    .ok { method := l.method
          url := l.url
          requestURI := l.requestURI
          proto := l.proto
          protoMajor := l.major
          protoMinor := l.minor
          header := t.header
          host := host
          close := t.close || h2
          contentLength := if h2 then -1 else t.contentLength
          transferEncoding := t.transferEncoding
          trailer := t.trailer
          body := t.body }

/-- An answer or a failure that does not depend on the reader. -/
def liftExcept {α : Type} : Except Err α → Parser ρ Err α
  | .ok a => pure a
  | .error e => fail e

/-- `ReadRequest`. Only an `io.EOF` in place of the first line is passed on as
such. -/
def readRequest : Parser ρ Err Request := do
  let s ← readLineSlice
  mapError Err.unexpected do
    let l ← liftExcept (requestLine s)
    let h ← readMIMEHeader
    liftExcept (finishRequest l h)

/-- The first line of a response. -/
structure StatusLine where
  proto : Bytes
  status : Bytes
  statusCode : Nat
  major : Nat
  minor : Nat

/-- The checks on the first line of a response. -/
def statusLine (line : Bytes) : Except Err StatusLine :=
  match cutByte sp line with
  | none => .error (.badString (lit "malformed HTTP response") line)
  | some (proto, rest) =>
    let status := rest.dropWhile (· == sp)
    let code := match cutByte sp status with | some (c, _) => c | none => status
    if code.length ≠ 3 then
      .error (.badString (lit "malformed HTTP status code") code)
    else
      match parseInt code with
      | none => .error (.badString (lit "malformed HTTP status code") code)
      | some n =>
        if n < 0 then
          .error (.badString (lit "malformed HTTP status code") code)
        else
          match parseHTTPVersion proto with
          | none => .error (.badString (lit "malformed HTTP version") proto)
          | some (major, minor) =>
            .ok { proto := proto, status := status, statusCode := n.toNat,
                  major := major, minor := minor }

/-- The rest of `ReadResponse`. `method` is the method of the request answered,
if the caller knows it. -/
def finishResponse (method : Option Bytes) (l : StatusLine) (h : Header) :
    Except Err Response :=
  let h := fixPragmaCacheControl h
  match readTransfer true l.statusCode
    (method.getD (lit "GET")) l.major l.minor false h with
  | .error e => .error e
  | .ok t =>
    .ok { status := l.status
          statusCode := l.statusCode
          proto := l.proto
          protoMajor := l.major
          protoMinor := l.minor
          header := t.header
          close := t.close
          contentLength := t.contentLength
          transferEncoding := t.transferEncoding
          trailer := t.trailer
          body := t.body }

/-- `ReadResponse`. -/
def readResponse (method : Option Bytes) : Parser ρ Err Response :=
  mapError Err.unexpected do
    let s ← readLineSlice
    let l ← liftExcept (statusLine s)
    let h ← readMIMEHeader
    liftExcept (finishResponse method l h)

/-! ## They see only the view -/

theorem lawful_liftExcept {α : Type} (r : Except Err α) :
    Lawful (liftExcept r : Parser ρ Err α) := by
  cases r with
  | ok a => exact .pure a
  | error e => exact .fail e

theorem lawful_readRequest : Lawful (readRequest : Parser ρ Err Request) := by
  unfold readRequest
  refine lawful_readLineSlice.bind fun s => Lawful.mapError ?_ _
  refine (lawful_liftExcept _).bind fun l => ?_
  exact lawful_readMIMEHeader.bind fun h => lawful_liftExcept _

theorem lawful_readResponse (method : Option Bytes) :
    Lawful (readResponse method : Parser ρ Err Response) := by
  unfold readResponse
  refine Lawful.mapError ?_ _
  refine lawful_readLineSlice.bind fun s => ?_
  refine (lawful_liftExcept _).bind fun l => ?_
  exact lawful_readMIMEHeader.bind fun h => lawful_liftExcept _

end Netramesh.Http
