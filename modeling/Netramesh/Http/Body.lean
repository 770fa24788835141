import Netramesh.Http.Read

/-!
# Reading bodies

A `Body` hands out the bytes of a message's body from the reader the message
came from. The counted and the unbounded kind pass on what the reader gives;
the chunked kind decodes, and reads the trailer when the last chunk is through.

How many bytes one call returns depends on what happens to be buffered: the
chunked reader returns early rather than wait for more. What all calls
together return does not.
-/

namespace Netramesh.Http

open Net Lib

variable {ρ : Type} [Source Err ρ]

/-! ## Chunks -/

/-- `removeChunkExtension` after `trimTrailingWhitespace`. -/
def chunkSizeField (p : Bytes) : Bytes :=
  let p := p.rdropWhile isASCIISpace
  match cutByte 59 p with
  | some (size, _) => size
  | none => p

/-- `readChunkLine`. -/
def readChunkLine : Parser ρ Err Bytes := do
  match ← Parser.readSlice nl with
  | .full _ => Parser.fail (.fixed (lit "header line too long"))
  | .ended _ e => Parser.fail (Err.unexpected e)
  | .line p =>
    if 4096 ≤ p.length then Parser.fail (.fixed (lit "header line too long"))
    else pure (chunkSizeField p)

/-- `parseHexUint`. At most sixteen digits, so that nothing is shifted out. -/
def parseHexUint (v : Bytes) : Except Err Nat :=
  match readDigits 16 hexVal 0 (v.take 16) with
  | none => .error (.fixed (lit "invalid byte in chunk length"))
  | some n =>
    match v.drop 16 with
    | [] => .ok n
    | c :: _ =>
      if (hexVal c).isNone then
        .error (.fixed (lit "invalid byte in chunk length"))
      else .error (.fixed (lit "http chunk length too large"))

/-- `beginChunk`. -/
def beginChunk (cr : ChunkedReader) (rd : Reader ρ) :
    ChunkedReader × Reader ρ :=
  match readChunkLine rd with
  | (.error e, rd) => ({ cr with err := some e }, rd)
  | (.ok line, rd) =>
    match parseHexUint line with
    | .error e => ({ cr with n := 0, err := some e }, rd)
    | .ok n =>
        ({ cr with n := n, err := if n = 0 then some .eof else none }, rd)

/-- `io.ReadFull` of `k` bytes. -/
def readFull : Nat → Bytes → Reader ρ → (Bytes × Option Err) × Reader ρ
  | 0, acc, rd => ((acc, none), rd)
  | k + 1, acc, rd =>
    match rd.read 1 with
    | (none, rd') =>
        ((acc, some (if acc = [] then rd.fin else Err.unexpected rd.fin)), rd')
    | (some p, rd') => readFull k (acc ++ p) rd'

/-- The end of a chunk. A failed read leaves its error and goes on. -/
def readChunkEnd (cr : ChunkedReader) (rd : Reader ρ) :
    ChunkedReader × Reader ρ :=
  match readFull 2 [] rd with
  | ((_, some e), rd) => ({ cr with err := some e, checkEnd := false }, rd)
  | ((b, none), rd) =>
    if b = crlf then ({ cr with checkEnd := false }, rd)
    else ({ cr with err := some (.fixed (lit "malformed chunked encoding")) },
      rd)

/-- The loop of `chunkedReader.Read`, with room for `n` more bytes after
`acc`. -/
def chunkLoop : Nat → Nat → Bytes → ChunkedReader → Reader ρ →
    Bytes × ChunkedReader × Reader ρ
  | 0, _, acc, cr, rd => (acc, cr, rd)
  | fuel + 1, n, acc, cr, rd =>
    if cr.err.isSome then (acc, cr, rd)
    -- some data is there: do not wait for the end of the chunk
    else if cr.checkEnd && acc ≠ [] && decide (rd.buffered < 2) then
      (acc, cr, rd)
    else
      let (cr, rd) := if cr.checkEnd then readChunkEnd cr rd else (cr, rd)
      if cr.checkEnd then (acc, cr, rd)
      else if cr.n = 0 then
        -- nor for the next chunk's size
        if acc ≠ [] && !rd.buf.elem nl then (acc, cr, rd)
        else
          let (cr, rd) := beginChunk cr rd
          chunkLoop fuel n acc cr rd
      else if n = 0 then (acc, cr, rd)
      else
        match rd.read (min n cr.n) with
        | (none, rd') => chunkLoop fuel n acc { cr with err := some rd.fin } rd'
        | (some p, rd') =>
          chunkLoop fuel (n - p.length) (acc ++ p)
            { cr with
              n := cr.n - p.length, checkEnd := cr.n - p.length = 0 } rd'

/-- `chunkedReader.Read` into `n` bytes. -/
def ChunkedReader.read (n : Nat) (cr : ChunkedReader) (rd : Reader ρ) :
    (Bytes × Option Err) × ChunkedReader × Reader ρ :=
  let (p, cr, rd) := chunkLoop (rd.view.length + 2) n [] cr rd
  ((p, cr.err), cr, rd)

/-! ## Trailers -/

def doubleCRLF : Bytes := crlf ++ crlf

/-- The loop of `seeUpcomingDoubleCRLF`. -/
def seeDoubleCRLF : Nat → Nat → Parser ρ Err Bool
  | 0, _ => pure false
  | fuel + 1, peekSize => do
    let buf ← Parser.peek peekSize
    if doubleCRLF.isSuffixOf buf then pure true
    else if buf.length < peekSize then pure false
    else seeDoubleCRLF fuel (peekSize + 1)

/-- `seeUpcomingDoubleCRLF`. -/
def seeUpcomingDoubleCRLF : Parser ρ Err Bool :=
  Parser.measured fun fuel => seeDoubleCRLF fuel 4

/-- `errTrailerEOF`. -/
def errTrailerEOF : Err := .fixed (lit "http: unexpected EOF reading trailer")

/-- `readTrailer`: the trailer section that follows the last chunk, if it is
not empty. -/
def readTrailer : Parser ρ Err (Option Header) := do
  let buf ← Parser.peek 2
  if buf = crlf then
    Parser.discard 2
    pure none
  else if buf.length < 2 then Parser.fail errTrailerEOF
  else if !(← seeUpcomingDoubleCRLF) then
    Parser.fail
      (.fixed (lit "http: suspiciously long trailer after chunked body"))
  else
    let hdr ← Parser.mapError
      (fun e => if e = .eof then errTrailerEOF else e) readMIMEHeader
    pure (some hdr)

/-! ## Bodies -/

/-- `Read` on what a body reads from. -/
def BodySrc.read (n : Nat) (rd : Reader ρ) : BodySrc →
    (Bytes × Option Err) × BodySrc × Reader ρ
  | .limited k =>
    if k = 0 then (([], some .eof), .limited 0, rd)
    else
      match rd.read (min n k) with
      | (none, rd') => (([], some rd.fin), .limited k, rd')
      | (some p, rd') => ((p, none), .limited (k - p.length), rd')
  | .chunked cr =>
    let (r, cr, rd) := cr.read n rd
    (r, .chunked cr, rd)
  | .wire =>
    match rd.read n with
    | (none, rd') => (([], some rd.fin), .wire, rd')
    | (some p, rd') => ((p, none), .wire, rd')

/-- What one `Read` of a body gives: bytes, an error, the body afterwards, the
trailer section if this call came to it, and the reader. -/
structure BodyRead (ρ : Type) where
  bytes : Bytes
  err : Option Err
  body : Body
  trailer : Option Header
  rd : Reader ρ

/-- `ErrBodyReadAfterClose`. -/
def errBodyReadAfterClose : Err :=
  .fixed (lit "http: invalid Read on closed Body")

/-- `body.Read` into `n` bytes. -/
def Body.read (n : Nat) (b : Body) (rd : Reader ρ) : BodyRead ρ :=
  if b.closed then ⟨[], some errBodyReadAfterClose, b, none, rd⟩
  else if b.sawEOF then ⟨[], some .eof, b, none, rd⟩
  else
    let ((p, err), src, rd) := b.src.read n rd
    if err = some .eof then
      if b.hdr then
        match readTrailer rd with
        | (.ok hdr, rd) =>
          ⟨p, some .eof, { b with src := src, hdr := false, sawEOF := true },
            hdr, rd⟩
        | (.error e, rd) =>
          ⟨p, some e, { b with src := src, hdr := false, closed := true },
            none, rd⟩
      else
        match src with
        | .limited (_ + 1) =>
          ⟨p, some .unexpectedEOF, { b with src := src, sawEOF := true },
            none, rd⟩
        | _ => ⟨p, some .eof, { b with src := src, sawEOF := true }, none, rd⟩
    else if err = none && p ≠ [] && src = .limited 0 then
      ⟨p, some .eof, { b with src := src, sawEOF := true }, none, rd⟩
    else ⟨p, err, { b with src := src }, none, rd⟩

end Netramesh.Http
