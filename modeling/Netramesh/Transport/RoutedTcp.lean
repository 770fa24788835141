import Netramesh.Transport.Direct
import Netramesh.Transport.Routed

/-!
# A TCP connection in routing mode

The goroutines of routing mode, with the sockets of a TCP connection below
them. What the channel model leaves open is filled in here: the request
goroutine leaves its copy, and a response routine returns, when `io.CopyBuffer`
has come to its end, and a routine emits what it copies. The sockets are those
of `TcpWire`, and the copies between them are the same as without routing.
-/

namespace Netramesh.Transport

open Http Protocol

structure RoutedTcp where
  st : St
  wire : TcpWire := {}

inductive RoutedTcpAct
  /-- An action of one or two goroutines on their channels and connections. -/
  | act (a : Act)
  | peer (a : TcpAct)
  /-- The copy in `HandleRequest`, in `HandleResponse`. -/
  | request (a : TcpAct)
  | response (a : TcpAct)

/-- Whether the goroutines get to this action: a handler has to have returned.
The TCP handler parses nothing, and emits only what it copies. -/
def RoutedTcp.gets (s : RoutedTcp) : Act → Bool
  | .req =>
    match s.st.reqPC with
    | .copy _ _ => tcpHalves.requested s.wire
    | _ => true
  | .call =>
    match s.st.callPC with
    | .run _ => tcpHalves.responded s.wire
    | _ => true
  | .addr | .conn | .loop _ => true
  | .parse _ | .emit _ | .setRoute _ _ | .expire _ => false

/-- The outcome of the dial that an action completes. An address that cannot be
resolved is not dialled. -/
def dialOutcome (s : St) : Act → Option Bool
  | .loop ok =>
    match s.loopPC with
    | .dial _ => some ok
    | .resolve _ => if ok then none else some false
    | _ => none
  | _ => none

/-- What an action that leads from `s` to `t` does to the sockets. -/
def settle (s : St) (a : Act) (t : St) (w : TcpWire) : TcpWire :=
  let w :=
    match dialOutcome s a with | some ok => tcpHalves.dialled ok w | none => w
  let w := if t.clientOpen then w else tcpHalves.closeClient w
  if closes s a = [] then w else tcpHalves.closeTarget w

/-- The bytes an action of the response copy has handed to the client's
connection. -/
def emits (w w' : TcpWire) : Option Bytes :=
  match w.resp, w'.resp with
  | .write b, .read => some b
  | _, _ => none

/-- One action. -/
def routedTcpStep (c : Conf) (s : RoutedTcp) : RoutedTcpAct → Option RoutedTcp
  | .act a =>
    if s.gets a then (step c s.st a).map fun t =>
      { st := t, wire := settle s.st a t s.wire }
    else none
  | .peer a => (tcpHalves.peer s.wire a).map fun w => { s with wire := w }
  | .request a =>
    match s.st.reqPC with
    | .copy _ _ => (tcpHalves.request s.wire a).map fun w =>
        { s with wire := w }
    | _ => none
  | .response a =>
    match s.st.callPC, tcpHalves.response s.wire a with
    | .run _, some w =>
      match emits s.wire w with
      | some b => (emit s.st b).map fun t => { st := t, wire := w }
      | none => some { s with wire := w }
    | _, _ => none

end Netramesh.Transport
