import Netramesh.Http.Write
import Netramesh.Protocol.TempBuffer
import Netramesh.Protocol.Trace

/-!
# The two loops of the HTTP handler

`HandleRequest` and `HandleResponse` are one loop with different parts: read
the head of a message, fall back to copying bytes if that fails or if the
message switches protocols, otherwise write the message on and start again.
The parts are a `Handler`; `turn` is one round and `handle` the whole call.

The tee's temp writer is started at the top of a round and stopped before a
message is written on. It sees what is read from the connection in between,
which is not the same as what the parser consumes: the buffer may hold bytes
from before, and may have fetched more than was parsed.
-/

namespace Netramesh.Protocol

open Http Net Lib

/-! ## The loop -/

/-- What the network decides while the `k`-th message is forwarded: how much
each read of its body asks for, which is the length of a slice and so an `int`,
and which of the writes fail. -/
structure World where
  sizes : Nat → List Nat := fun _ => []
  fails : Nat → List Bool := fun _ => []
  sizes_lt : ∀ k, ∀ n ∈ sizes k, n < 2 ^ 63 := by simp

/-- What one of the two handlers does with the messages it reads. -/
structure Handler (μ : Type) where
  world : World
  read : Parser Tee Err μ
  isUpgrade : μ → Bool
  body : μ → Option Body
  /-- Write the message of the given round on. -/
  forward : Nat → μ → Copy Tee → Option Err × Copy Tee

/-- The state at the top of a round: the reader with the tee below it, what was
written, and how many messages were forwarded. -/
structure Loop where
  rd : Reader Tee
  out : Bytes := []
  count : Nat := 0

/-- `bufio.NewReaderSize(_, 0xfff)` over the tee. -/
def Loop.init (conn : Conn) : Loop where
  rd := .fresh 0xfff (by decide) { conn := conn }

/-- The reader with its temp writer changed. -/
def onTmp (f : TempWriter → TempWriter) (rd : Reader Tee) : Reader Tee :=
  { rd with src := { rd.src with tmp := f rd.src.tmp } }

/-- How a round ends. -/
inductive Round
  /-- The message was forwarded. -/
  | next (s : Loop)
  /-- The handler gave up parsing and copied what was left. -/
  | copied (s : Loop)
  /-- The handler returned without writing anything. -/
  | returned (s : Loop)

variable {μ : Type}

/-- The connection written to, as the coming round finds it. -/
def Loop.sink (H : Handler μ) (s : Loop) : Out where
  bytes := s.out
  fails := H.world.fails s.count

/-- Give up parsing: write what the temp writer holds, then everything the
reader still has. An error of the first write does not stop the second. -/
def fallback (H : Handler μ) (s : Loop) (rd : Reader Tee) : Loop :=
  let out := ((s.sink H).write rd.src.tmp.buf).2
  { s with
    rd := { rd with buf := [], fits := Nat.zero_le _
                    src := { conn := { rd.src.conn with data := [] },
                             tmp := rd.src.tmp.stop } }
    out := (out.write rd.view).2.bytes }

/-- Where the copy of a message that was read starts: the temp writer is
stopped. -/
def Loop.copy (H : Handler μ) (s : Loop) (m : μ) (rd : Reader Tee) :
    Copy Tee where
  body := H.body m
  rd := onTmp TempWriter.stop rd
  out := s.sink H
  sizes := H.world.sizes s.count

/-- One round of the loop. -/
def turn (H : Handler μ) (s : Loop) : Round :=
  match H.read (onTmp TempWriter.start s.rd) with
  | (.error e, rd) =>
    if e = .eof ∨ e.mentionsClosed then .returned { s with rd := rd }
    else .copied (fallback H s rd)
  | (.ok m, rd) =>
    if H.isUpgrade m then .copied (fallback H s rd)
    else
      let c := (H.forward s.count m (s.copy H m rd)).2
      .next { rd := c.rd, out := c.out.bytes, count := s.count + 1 }

/-- The loop, for at most `fuel` rounds. -/
def serve (H : Handler μ) : Nat → Loop → Loop
  | 0, s => s
  | fuel + 1, s =>
    match turn H s with
    | .next t => serve H fuel t
    | .copied t | .returned t => t

/-- The whole call. Every message that is read takes at least a byte. -/
def handle (H : Handler μ) (s : Loop) : Loop := serve H (s.rd.view.length + 1) s

/-! ## `HandleRequest` -/

/-- What the surroundings decide about one request: the identifier it gets if
it brought none, the trace contexts known by then, and the context its
`StartRequest` injects. -/
structure Trip (C : Type) where
  uuid : FieldValue
  cache : List (Bytes × C)
  injected : Option C

section Request

variable {C : Type} (cfg : HTTPConfig) (isInbound : Bool) (tr : Tracer C)

/-- The request as it is written. -/
def outgoing (t : Trip C) (r : Request) : Request :=
  let r := editRequest cfg isInbound tr t.cache t.uuid.1 r
  match t.injected with
  | none => r
  | some ctx =>
      { r with header := r.header.add traceContextHeaderName (tr.text ctx) }

/-- `HandleRequest`, with routing disabled. -/
def requestHandler (idna : Bytes → Option Bytes) (trips : Nat → Trip C)
    (w : World) :
    Handler Request where
  world := w
  read := readRequest
  isUpgrade r := toLower (r.header.get (lit "Connection")) = lit "upgrade"
  body := Request.body
  forward k r c := (outgoing cfg isInbound tr (trips k) r).write idna c

end Request

/-! ## `HandleResponse` -/

/-- `r.Close()`: nothing more comes from the connection, what is buffered
stays. -/
def closeRead (rd : Reader Tee) : Reader Tee :=
  { rd with src := { rd.src with conn := { data := [], fin := .closedConn } } }

/-- `HandleResponse`. `head k` says whether the request at the front of the
queue is a HEAD when the `k`-th response is looked at; with `forceClose` the
target is closed behind every response but a 100. -/
def responseHandler (forceClose : Bool) (head : Nat → Bool) (w : World) :
    Handler Response where
  world := w
  read := readResponse none
  isUpgrade r := toLower (r.header.get (lit "Connection")) = lit "upgrade"
  body := Response.body
  forward k r c :=
    let close := forceClose && r.statusCode != 100
    let c := if head k && close then { c with rd := closeRead c.rd } else c
    let (err, c) := r.write c
    (err, if close then { c with rd := closeRead c.rd } else c)

end Netramesh.Protocol
