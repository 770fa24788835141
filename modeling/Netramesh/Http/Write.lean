import Netramesh.Http.Body

/-!
# Writing messages

`Request.Write` and `Response.Write` send the head of a message in pieces and
then copy its body from the reader it came from, chunk by chunk or as it is.

Two things are left to the surroundings. Each write may fail; which ones do is
part of the `Out` that is written to. And how many bytes each read of the body
asks for depends on the buffers it passes through (`bufio.Writer.ReadFrom`, the
socket's own, the pooled ones), so the sizes are an argument of the copy.
-/

namespace Netramesh.Http

open Net Lib

variable {ρ : Type} [Source Err ρ]

/-! ## The writer -/

/-- Where a message goes: what was taken so far, and which of the coming writes
fail. -/
structure Out where
  bytes : Bytes := []
  fails : List Bool := []

/-- One write; `false` is an error, after which the bytes are lost. -/
def Out.write (b : Bytes) (o : Out) : Bool × Out :=
  match o.fails with
  | [] => (true, { o with bytes := o.bytes ++ b })
  | false :: fails => (true, { bytes := o.bytes ++ b, fails := fails })
  | true :: fails => (false, { o with fails := fails })

/-- Write the pieces up to the first that fails. -/
def Out.writeAll : List Bytes → Out → Bool × Out
  | [], o => (true, o)
  | b :: bs, o =>
    match o.write b with
    | (true, o) => o.writeAll bs
    | (false, o) => (false, o)

/-- An error of the connection written to. -/
def writeErr : Err := .sock (lit "write failed")

/-! ## Header lines -/

/-- The order of Go strings. -/
def bytesLE : Bytes → Bytes → Bool
  | [], _ => true
  | _ :: _, [] => false
  | a :: s, b :: t => if a = b then bytesLE s t else decide (a < b)

/-- `headerNewlineToSpace.Replace` and `textproto.TrimString`. -/
def sanitizeValue (v : Bytes) : Bytes :=
  trimBy isASCIISpace (v.map fun b => if b = nl ∨ b = cr then sp else b)

/-- `sortedKeyValues`. -/
def sortedKeyValues (exclude : List Bytes) (h : Header) :
    List (Bytes × List Bytes) :=
  (h.entries.filter fun e => !exclude.elem e.1).insertionSort fun a b =>
    bytesLE a.1 b.1

/-- The lines of `writeSubset`. -/
def fieldLines (exclude : List Bytes) (h : Header) : List (Bytes × Bytes) :=
  (sortedKeyValues exclude h).flatMap fun e => e.2.map fun v =>
    (e.1, sanitizeValue v)

/-- A header line, in the pieces it is written in. -/
def linePieces (line : Bytes × Bytes) : List Bytes :=
  [line.1, lit ": ", line.2, crlf]

/-- `isTokenBoundary`. -/
def isTokenBoundary (b : UInt8) : Bool := b == sp || b == 44 || b == tab

/-- `hasToken`. -/
def hasToken (v token : Bytes) : Bool :=
  token ≠ [] && (List.range (v.length + 1)).any fun i =>
    (((v.drop i).take token.length).map lowerByte == token) &&
      (i == 0 || ((v.drop (i - 1)).head?.any isTokenBoundary)) &&
      ((v.drop (i + token.length)).head?.all isTokenBoundary)

/-! ## `transferWriter` -/

/-- `transferWriter`, without the body. `body` says whether there is one to copy
other than `NoBody`. -/
structure TransferWriter where
  method : Bytes
  close : Bool
  contentLength : Int
  transferEncoding : List Bytes
  header : Header
  trailer : Option Header
  isResponse : Bool
  flushHeaders : Bool

/-- `outgoingLength`. -/
def Request.outgoingLength (r : Request) : Int :=
  match r.body with
  | none => 0
  | some _ => if r.contentLength ≠ 0 then r.contentLength else -1

/-- The sanitizing at the end of `newTransferWriter`. -/
def sanitizeTransfer (t : TransferWriter) (atLeastHTTP11 : Bool) :
    TransferWriter :=
  let te := if atLeastHTTP11 then t.transferEncoding else []
  { t with
    transferEncoding := te
    contentLength := if chunked te then -1 else t.contentLength
    trailer := if chunked te then t.trailer else none }

/-- `newTransferWriter` on a request. A request that was read always has a known
length or is chunked, so its body is never probed. -/
def newRequestWriter (r : Request) : TransferWriter :=
  sanitizeTransfer
    { method := if r.method = [] then lit "GET" else r.method
      close := r.close
      contentLength := r.outgoingLength
      transferEncoding := r.transferEncoding
      header := r.header
      trailer := r.trailer
      isResponse := false
      flushHeaders := r.outgoingLength ≠ 0 } true

/-- `newTransferWriter` on a response without a request. -/
def newResponseWriter (r : Response) : TransferWriter :=
  sanitizeTransfer
    { method := []
      close := r.close
      contentLength := r.contentLength
      transferEncoding := r.transferEncoding
      header := r.header
      trailer := r.trailer
      isResponse := true
      flushHeaders := false } (protoAtLeast r.protoMajor r.protoMinor 1 1)

namespace TransferWriter

/-- `shouldSendContentLength`. -/
def shouldSendContentLength (t : TransferWriter) : Bool :=
  if chunked t.transferEncoding then false
  else if 0 < t.contentLength then true
  else if t.contentLength < 0 then false
  else if t.method = lit "POST" ∨ t.method = lit "PUT" then true
  else if isIdentity t.transferEncoding then
    !(t.method == lit "GET" || t.method == lit "HEAD")
  else false

/-- The lines `writeHeader` sends. The trailer's keys cannot be the forbidden
ones here: `fixTrailer` has refused them. -/
def headerPieces (t : TransferWriter) : List Bytes :=
  (if t.close &&
      !hasToken (t.header.first (lit "Connection")) (lit "close") then
    [lit "Connection: close\r\n"] else []) ++
  (if t.shouldSendContentLength then
    [lit "Content-Length: ", itoa t.contentLength.toNat ++ crlf]
  else if chunked t.transferEncoding then
    [lit "Transfer-Encoding: chunked\r\n"] else []) ++
  match t.trailer with
  | none => []
  | some trailer =>
    let keys := (trailer.keys.map canonicalKey).insertionSort fun a b =>
      bytesLE a b
    if keys = [] then []
    else [lit "Trailer: " ++ List.intercalate [44] keys ++ crlf]

end TransferWriter

/-! ## Copying the body -/

/-- What copying works on: the body and the reader under it, the trailer section
read on the way, the writer, and how much the next reads ask for. -/
structure Copy (ρ : Type) where
  body : Option Body
  rd : Reader ρ
  trailer : Option Header := none
  out : Out
  sizes : List Nat := []

/-- A read of the body through `transferBodyReader`, limited to `limit` bytes if
there is a limit. -/
def Copy.read (limit : Option Nat) (c : Copy ρ) :
    (Bytes × Option Err) × Copy ρ :=
  let n := c.sizes.headD 65534 + 1
  let n := match limit with | some k => min n k | none => n
  match c.body with
  | none => (([], some .eof), c)
  | some b =>
    let r := b.read n c.rd
    ((r.bytes, r.err),
      { c with
        body := some r.body
        rd := r.rd
        trailer := c.trailer <|> r.trailer
        sizes := c.sizes.tail })

/-- Pass bytes on through `put`. -/
def Copy.pass (put : Bytes → Out → Bool × Out) (p : Bytes) (c : Copy ρ) :
    Bool × Copy ρ :=
  if p = [] then (true, c)
  else ((put p c.out).1, { c with out := (put p c.out).2 })

/-- How many bytes there are left to read at most, with the body's own end. -/
def Copy.fuel (c : Copy ρ) : Nat := c.rd.view.length + 2

/-- The loop of `io.CopyBuffer`: read, and pass on through `put`. `limit` is the
`io.LimitReader` around the body. The answer is what was copied and the error
that ended the copy, if it was not `io.EOF`. -/
def copyLoop (put : Bytes → Out → Bool × Out) :
    Nat → Option Nat → Nat → Copy ρ → (Nat × Option Err) × Copy ρ
  | 0, _, n, c => ((n, none), c)
  | fuel + 1, limit, n, c =>
    if limit = some 0 then ((n, none), c)
    else
      let ((p, err), c) := c.read limit
      match c.pass put p with
      | (false, c) => ((n, some writeErr), c)
      | (true, c) =>
        match err with
        | some e => ((n + p.length, if e = .eof then none else some e), c)
        | none => copyLoop put fuel (limit.map (· - p.length)) (n + p.length) c

/-- `chunkedWriter.Write`, with the flush after each chunk of a request. -/
def writeChunk (isResponse : Bool) (data : Bytes) (o : Out) : Bool × Out :=
  o.writeAll ([hex data.length ++ crlf, data, crlf] ++ if isResponse then []
    else [[]])

/-- The trailer that is written: what was announced, with what was read. -/
def mergedTrailer (announced read : Option Header) : Option Header :=
  match announced, read with
  | some t, some h => some (t.merge h)
  | some t, none => some t
  | none, _ => none

/-- `writeBody`. A copy that ends without an error has read the body to its end,
so that closing the body has nothing left to do. -/
def writeBody (t : TransferWriter) (c : Copy ρ) : Option Err × Copy ρ :=
  if chunked t.transferEncoding then
    match copyLoop (writeChunk t.isResponse) c.fuel none 0 c with
    | ((_, some e), c) => (some e, c)
    | ((_, none), c) =>
      match c.out.writeAll ([lit "0\r\n"] ++
          ((mergedTrailer t.trailer c.trailer).elim [] fun h =>
            (fieldLines [] h).flatMap linePieces) ++
          [crlf]) with
      | (true, out) => (none, { c with out := out })
      | (false, out) => (some writeErr, { c with out := out })
  else if t.contentLength = -1 then
    match copyLoop Out.write c.fuel none 0 c with
    | ((_, e), c) => (e, c)
  else
    match copyLoop Out.write c.fuel (some t.contentLength.toNat) 0 c with
    | ((_, some e), c) => (some e, c)
    | ((n, none), c) =>
      match copyLoop (fun _ o => (true, o)) c.fuel none n c with
      | ((_, some e), c) => (some e, c)
      | ((n, none), c) =>
        if t.contentLength ≠ n then
          (some (.fixed (lit "http: ContentLength=" ++
            itoa t.contentLength.toNat ++
            lit " with Body length " ++ itoa n)), c)
        else (none, c)

/-! ## Requests -/

/-- `net.SplitHostPort`; `none` is an error. -/
def splitHostPort (hostport : Bytes) : Option (Bytes × Bytes) :=
  match cutLast 58 hostport with
  | none => none
  | some (front, port) =>
    if hostport.head? = some 91 then
      match cutByte 93 hostport with
      | none => none
      | some (inside, rest) =>
        if rest = 58 :: port && !inside.tail.elem 91 && !rest.elem 91 &&
          !rest.elem 93 then
          some (inside.tail, port)
        else none
    else if front.elem 58 || hostport.elem 91 || hostport.elem 93 then none
    else some (front, port)

/-- `net.JoinHostPort`. -/
def joinHostPort (host port : Bytes) : Bytes :=
  if host.elem 58 then 91 :: host ++ 93 :: 58 :: port else host ++ 58 :: port

section Request

-- `idna.Lookup.ToASCII`; `none` is an error.
variable (idna : Bytes → Option Bytes)

/-- `idnaASCII`. -/
def idnaASCII (v : Bytes) : Option Bytes :=
  if v.all (· < 128) then some v else idna v

/-- `cleanHost`. -/
def cleanHost (s : Bytes) : Bytes :=
  let s := s.takeWhile fun b => b != sp && b != 47
  match splitHostPort s with
  | none => (idnaASCII idna s).getD s
  | some (host, port) =>
    match idnaASCII idna host with
    | none => s
    | some a => joinHostPort a port

/-- `removeZone`. -/
def removeZone (host : Bytes) : Bytes :=
  if host.head? ≠ some 91 then host
  else
    match cutLast 93 host with
    | none => host
    | some (front, back) =>
      match cutLast 37 front with
      | none => host
      | some (addr, _) => addr ++ 93 :: back

/-- The host a request is written with. -/
def Request.outgoingHost (r : Request) : Bytes :=
  let host := cleanHost idna r.host
  removeZone (if host = [] then cleanHost idna r.url.host else host)

/-- The target a request is written with. -/
def Request.outgoingURI (r : Request) : Bytes :=
  if r.method = lit "CONNECT" ∧ r.url.path = [] then r.outgoingHost idna
  else r.url.requestURI

/-- `defaultUserAgent`, unless the header has one, which may be blank. -/
def Request.outgoingUserAgent (r : Request) : Bytes :=
  if r.header.has (lit "User-Agent") then r.header.first (lit "User-Agent")
  else lit "Go-http-client/1.1"

/-- `reqWriteExcludeHeader`. -/
def reqWriteExcludeHeader : List Bytes :=
  [lit "Host", lit "User-Agent", lit "Content-Length", lit "Transfer-Encoding",
    lit "Trailer"]

/-- The head of a request, up to and with the flush before a body. -/
def Request.headPieces (r : Request) : List Bytes :=
  let t := newRequestWriter r
  [(if r.method = [] then lit "GET" else r.method) ++
      sp :: r.outgoingURI idna ++ lit " HTTP/1.1\r\n",
    lit "Host: " ++ r.outgoingHost idna ++ crlf] ++
  (if r.outgoingUserAgent ≠ [] then
    [lit "User-Agent: " ++ r.outgoingUserAgent ++ crlf] else []) ++
  t.headerPieces ++
  (fieldLines reqWriteExcludeHeader r.header).flatMap linePieces ++ [crlf] ++
  (if t.flushHeaders then [[]] else [])

/-- `Request.Write`. -/
def Request.write (r : Request) (c : Copy ρ) : Option Err × Copy ρ :=
  match c.out.writeAll (r.headPieces idna) with
  | (false, out) => (some writeErr, { c with out := out })
  | (true, out) => writeBody (newRequestWriter r) { c with out := out }

end Request

/-! ## Responses -/

/-- The `%03d` verb. -/
def pad3 (n : Nat) : Bytes :=
  let d := itoa n
  List.replicate (3 - d.length) 48 ++ d

/-- The text behind the status code. A response that was read has a status that
is not empty. -/
def Response.statusText (r : Response) : Bytes :=
  let code := itoa r.statusCode ++ [sp]
  if code.isPrefixOf r.status then r.status.drop code.length else r.status

/-- `respExcludeHeader`. -/
def respExcludeHeader : List Bytes :=
  [lit "Content-Length", lit "Transfer-Encoding", lit "Trailer"]

/-- The response as `Write` has it before the transfer is worked out. -/
def Response.toWrite (r : Response) : Response :=
  { r with close := r.close ||
      (r.contentLength == -1 && protoAtLeast r.protoMajor r.protoMinor 1 1 &&
        !chunked r.transferEncoding) }

/-- The head of a response. -/
def Response.headPieces (r : Response) : List Bytes :=
  let t := newResponseWriter r.toWrite
  [lit "HTTP/" ++ itoa r.protoMajor ++ 46 :: itoa r.protoMinor ++
      sp :: pad3 r.statusCode ++ sp :: r.statusText ++ crlf] ++
  t.headerPieces ++
  (fieldLines respExcludeHeader r.header).flatMap linePieces ++
  (if r.contentLength = 0 ∧ !chunked r.transferEncoding ∧
      !t.shouldSendContentLength ∧ bodyAllowedForStatus r.statusCode then
    [lit "Content-Length: 0\r\n"] else []) ++
  [crlf]

/-- `Response.Write`. -/
def Response.write (r : Response) (c : Copy ρ) : Option Err × Copy ρ :=
  match c.out.writeAll r.headPieces with
  | (false, out) => (some writeErr, { c with out := out })
  | (true, out) => writeBody (newResponseWriter r.toWrite) { c with out := out }

end Netramesh.Http
