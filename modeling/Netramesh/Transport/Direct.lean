import Netramesh.Protocol.Handler

/-!
# A connection with routing disabled

Without routing `HandleConnection` dials the original destination once and
starts two goroutines: `TcpCopyRequest` takes the client's bytes to the target,
`TcpCopyResponse` the target's to the client. Each runs its half of a handler
and then closes both connections, first the one it read from. Neither waits
for the other, so a half that is still at work may find its connections closed
under it.

The two halves are the same for every protocol; what a handler does in one
action is a parameter. The TCP handler is `io.CopyBuffer` between two sockets,
whose peers send, end their streams and leave as they like. The HTTP handler
takes one round of its loop at a time.
-/

namespace Netramesh.Transport

open Http Protocol Net Lib

/-! ## The two goroutines -/

/-- Both halves of a handler on the connections `σ`, and what else happens to
these. -/
structure Halves (σ α : Type) where
  /-- An action of `HandleRequest`, and whether it has returned. -/
  request : σ → α → Option σ
  requested : σ → Bool
  /-- An action of `HandleResponse`, and whether it has returned. -/
  response : σ → α → Option σ
  responded : σ → Bool
  /-- Something a peer does. -/
  peer : σ → α → Option σ
  dialled : Bool → σ → σ
  closeClient : σ → σ
  closeTarget : σ → σ

/-- Where `HandleConnection` stands. -/
inductive MainPC
  | resolve
  | dial
  | closeClient
  | started
  | returned
  deriving DecidableEq

/-- Where one of the two goroutines stands: in its handler, behind the first
`closeConn`, or at its end. -/
inductive SidePC
  | handler
  | closing
  | returned
  deriving DecidableEq

structure Direct (σ : Type) where
  wire : σ
  main : MainPC := .resolve
  req : SidePC := .handler
  resp : SidePC := .handler

inductive DirectAct (α : Type)
  /-- `HandleConnection`; `ok` is the outcome of resolving or dialling. -/
  | main (ok : Bool)
  | peer (a : α)
  | request (a : α)
  | response (a : α)
  /-- The next `closeConn` of `TcpCopyRequest`, of `TcpCopyResponse`. -/
  | closeReq
  | closeResp

variable {σ α : Type} (p : Halves σ α)

/-- The next action of `HandleConnection`. -/
def mainStep (s : Direct σ) (ok : Bool) : Option (Direct σ) :=
  match s.main with
  | .resolve =>
    if ok then some { s with main := .dial }
    else some { s with main := .closeClient, wire := p.dialled false s.wire }
  | .dial =>
    some { s with
      main := if ok then .started else .closeClient
      wire := p.dialled ok s.wire }
  | .closeClient =>
      some { s with main := .returned, wire := p.closeClient s.wire }
  | .started | .returned => none

/-- One action. -/
def directStep (s : Direct σ) : DirectAct α → Option (Direct σ)
  | .main ok => mainStep p s ok
  | .peer a => (p.peer s.wire a).map fun w => { s with wire := w }
  | .request a =>
    match s.main, s.req with
    | .started, .handler => (p.request s.wire a).map fun w =>
        { s with wire := w }
    | _, _ => none
  | .response a =>
    match s.main, s.resp with
    | .started, .handler => (p.response s.wire a).map fun w =>
        { s with wire := w }
    | _, _ => none
  | .closeReq =>
    match s.main, s.req with
    | .started, .handler =>
      if p.requested s.wire then some { s with
        req := .closing, wire := p.closeClient s.wire }
      else none
    | .started, .closing =>
        some { s with req := .returned, wire := p.closeTarget s.wire }
    | _, _ => none
  | .closeResp =>
    match s.main, s.resp with
    | .started, .handler =>
      if p.responded s.wire then some { s with
        resp := .closing, wire := p.closeTarget s.wire }
      else none
    | .started, .closing =>
        some { s with resp := .returned, wire := p.closeClient s.wire }
    | _, _ => none

/-! ## Sockets -/

/-- What a peer does, and what it sees of its connection. -/
inductive Event
  | dialled
  | refused
  | sent (b : Bytes)
  | ended
  | left
  | got (b : Bytes)
  | closed
  deriving DecidableEq

/-- The proxy's side of a connection: not there yet, in use, or closed. -/
inductive Link
  | absent
  | live
  | closed
  deriving DecidableEq

/-- A socket with the peer at its other end. What the peer sent before it left
can still be read. -/
structure Sock where
  link : Link := .live
  /-- Sent by the peer and not read yet. -/
  pending : Bytes := []
  /-- The peer has ended its stream, has closed its connection. -/
  ended : Bool := false
  gone : Bool := false
  /-- History: what the peer did and saw. -/
  log : List Event := []

/-- Something the peer does. -/
inductive Deed
  | send (b : Bytes)
  | finish
  | leave

namespace Sock

/-- An action of the peer. Bytes for a connection that the proxy has closed are
never read. -/
def deed (s : Sock) : Deed → Option Sock
  | .send b =>
    if s.link = .absent ∨ s.ended then none
    else some { s with pending := s.pending ++ b, log := s.log ++ [.sent b] }
  | .finish =>
    if s.link = .absent ∨ s.ended then none
    else some { s with ended := true, log := s.log ++ [.ended] }
  | .leave =>
    if s.link = .absent ∨ s.gone then none
    else some { s with ended := true, gone := true, log := s.log ++ [.left] }

/-- `net.DialTCP`. -/
def dial (ok : Bool) (s : Sock) : Sock :=
  if ok then { s with link := .live, log := s.log ++ [.dialled] }
  else { s with log := s.log ++ [.refused] }

/-- `closeConn`. A second call changes nothing. -/
def close (s : Sock) : Sock :=
  match s.link with
  | .live =>
    { s with
      link := .closed, log := if s.gone then s.log else s.log ++ [.closed] }
  | _ => s

end Sock

/-! ## The TCP handler -/

/-- Where `io.CopyBuffer` stands: at a read, with bytes to write, or at its
end. -/
inductive CopyPC
  | read
  | write (b : Bytes)
  | ended
  deriving DecidableEq

/-- The length of the buffers in `bufferPool`. -/
def bufferSize : Nat := 0xffff

/-- One action of `io.CopyBuffer(dst, src, buf)`. A read takes up to `k + 1`
bytes; a write to a peer that has left fails or goes nowhere, as `fail` says. -/
def copyStep (k : Nat) (fail : Bool) (src dst : Sock) : CopyPC →
    Option (CopyPC × Sock × Sock)
  | .read =>
    if src.link ≠ .live then some (.ended, src, dst)
    else if src.pending ≠ [] then
      let n := min (k + 1) bufferSize
      some (.write (src.pending.take n),
        { src with pending := src.pending.drop n }, dst)
    else if src.ended then some (.ended, src, dst)
    else none
  | .write b =>
    if dst.link ≠ .live then some (.ended, src, dst)
    else if dst.gone then some (if fail then .ended else .read, src, dst)
    else some (.read, src, { dst with log := dst.log ++ [.got b] })
  | .ended => none

/-- The two sockets of a TCP connection and the copies between them. -/
structure TcpWire where
  client : Sock := {}
  target : Sock := { link := .absent }
  req : CopyPC := .read
  resp : CopyPC := .read

inductive TcpAct
  | client (d : Deed)
  | target (d : Deed)
  | copy (k : Nat) (fail : Bool)

/-- `TCPHandler`. -/
def tcpHalves : Halves TcpWire TcpAct where
  request w
    | .copy k fail =>
      (copyStep k fail w.client w.target w.req).map fun (pc, src, dst) =>
        { w with req := pc, client := src, target := dst }
    | _ => none
  requested w := w.req = .ended
  response w
    | .copy k fail =>
      (copyStep k fail w.target w.client w.resp).map fun (pc, src, dst) =>
        { w with resp := pc, target := src, client := dst }
    | _ => none
  responded w := w.resp = .ended
  peer w
    | .client d => (w.client.deed d).map fun c => { w with client := c }
    | .target d => (w.target.deed d).map fun t => { w with target := t }
    | .copy _ _ => none
  dialled ok w := { w with target := w.target.dial ok }
  closeClient w := { w with client := w.client.close }
  closeTarget w := { w with target := w.target.close }

/-! ## The HTTP handler -/

/-- The two loops of the HTTP handler and the proxy's sides of their
connections. The readers hold all that the peers will have sent. -/
structure HttpWire where
  clientOpen : Bool := true
  targetOpen : Bool := true
  /-- The peer has closed its connection. -/
  clientGone : Bool := false
  targetGone : Bool := false
  req : Loop
  reqDone : Bool := false
  resp : Loop
  respDone : Bool := false

inductive HttpAct
  | clientLeaves
  | targetLeaves
  /-- A round of a loop. If the connection it reads from is closed, `n` more
  bytes had come before that; if the one it writes to is, or its peer has left,
  `fails` says which writes fail. -/
  | round (n : Nat) (fails : List Bool)

/-- The reader of a connection that was closed `n` bytes further on. -/
def cutRead (n : Nat) (s : Loop) : Loop :=
  { s with rd := { s.rd with
      src := { s.rd.src with
        conn := { s.rd.src.conn with
          data := s.rd.src.conn.data.take n, fin := .closedConn } } } }

/-- The handler where writes fail as given. -/
def Handler.failing {μ : Type} (H : Handler μ) (fails : List Bool) :
    Handler μ :=
  { H with world := { H.world with fails := fun _ => fails } }

/-- A round from a connection to another, and whether it was the last. -/
def httpRound {μ : Type} (H : Handler μ) (readable writable : Bool) (n : Nat)
    (fails : List Bool) (s : Loop) : Bool × Loop :=
  match turn (Handler.failing H (if writable then [] else fails))
      (if readable then s else cutRead n s) with
  | .next t => (false, t)
  | .copied t | .returned t => (true, t)

/-- `HTTPHandler`. -/
def httpHalves (hreq : Handler Request) (hresp : Handler Response) :
    Halves HttpWire HttpAct where
  request w
    | .round n fails =>
      if w.reqDone then none
      else
        let (done, s) := httpRound hreq w.clientOpen
          (w.targetOpen && !w.targetGone) n fails w.req
        some { w with req := s, reqDone := done }
    | _ => none
  requested w := w.reqDone
  response w
    | .round n fails =>
      if w.respDone then none
      else
        let (done, s) := httpRound hresp w.targetOpen
          (w.clientOpen && !w.clientGone) n fails w.resp
        some { w with resp := s, respDone := done }
    | _ => none
  responded w := w.respDone
  peer w
    | .clientLeaves => some { w with clientGone := true }
    | .targetLeaves => some { w with targetGone := true }
    | .round _ _ => none
  dialled _ w := w
  closeClient w := { w with clientOpen := false }
  closeTarget w := { w with targetOpen := false }

/-- The connections to a client and a target that will have sent these
streams. -/
def HttpWire.init (client target : Conn) : HttpWire where
  req := .init client
  resp := .init target

end Netramesh.Transport
