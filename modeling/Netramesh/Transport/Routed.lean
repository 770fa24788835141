import Netramesh.Protocol.Routing
import Netramesh.Transport.Destination

/-!
# A connection in routing mode

With routing enabled three goroutines serve a client connection. The request
goroutine (`TcpCopyRequest` around a handler's `HandleRequest`) sends an
address on `addrCh` for every request and receives a connection from `connCh`;
the loop of `HandleConnection` receives addresses, dials, hands the connection
over and queues a closure on `callCh`; the third goroutine runs the closures
one by one, each of them `HandleResponse` for one target.

`addrCh` and `connCh` are unbuffered, so a send and its receive are one action
of two goroutines; `callCh` holds up to ten closures. Everything that depends on
the network is an argument of an action: what parsing a request gave, whether
resolving and dialling worked, what a response routine emits and when. Sending
on a closed channel, closing one twice and a negative wait group all panic.
-/

namespace Netramesh.Transport

open Http Protocol

/-- What is fixed for one connection. -/
structure Conf where
  http : HTTPConfig
  routing : RoutingConfig
  proto : Proto
  isInbound : Bool
  originalDst : Bytes
  originalDst_ne : originalDst ≠ []

/-- What `ReadRequest` gave: the end of the stream (or of the connection),
another error, or a request. -/
inductive Parsed
  | ended
  | failed
  | request (r : Request) (uuid : Bytes)

/-- Where the request goroutine stands. `k` numbers the requests, `w` is the
target connection in the variable of that name. -/
inductive ReqPC
  | read (w : Option Nat)
  | sendAddr (k : Nat) (raw : Bool) (addr : Bytes)
  | recvConn (k : Nat) (raw : Bool)
  | write (k : Nat) (w : Nat)
  | copy (k : Option Nat) (w : Nat)
  | closeAddr (w : Option Nat)
  | closeConns (w : Option Nat)
  | returned
  deriving DecidableEq

/-- Where the loop of `HandleConnection` stands. -/
inductive LoopPC
  | recvAddr
  | gotAddr (addr : Bytes)
  | resolve (addr : Bytes)
  | dial (addr : Bytes)
  | sendConn (target : Option Nat)
  | addCall (target : Nat)
  | sendCall (target : Nat)
  | closeClient
  | closeConnCh
  | closeCallCh
  | returned
  deriving DecidableEq

/-- Where the goroutine that ranges over `callCh` stands. -/
inductive CallPC
  | recv
  | run (target : Nat)
  | done
  | returned
  deriving DecidableEq

/-- `cap(callCh)`. -/
def callCap : Nat := 10

structure St where
  panicked : Bool := false
  addrClosed : Bool := false
  connClosed : Bool := false
  callClosed : Bool := false
  callCh : List Nat := []
  wg : Nat := 0
  clientOpen : Bool := true
  /-- `routingInfoContextMapping`, newest entry first. -/
  routingInfo : List (Bytes × Bytes) := []
  reqPC : ReqPC
  loopPC : LoopPC := .recvAddr
  callPC : CallPC := .recv
  /-- History: the requests read, and the address chosen for each. -/
  requests : List Request := []
  routes : List Bytes := []
  /-- History: each address the loop received, and whether it is only what a
  closed channel gives. -/
  received : List (Bytes × Bool) := []
  /-- History: the address behind each target connection. -/
  dialled : List Bytes := []
  /-- History: which request was written to which target connection. -/
  written : List (Nat × Nat) := []
  /-- History: the targets whose response routine was started. -/
  ran : List Nat := []
  /-- History: what reached the client, and from the routine of which target. -/
  emitted : List (Nat × Bytes) := []

/-- The state in which `HandleConnection` enters its loop. The TCP handler
sends the original destination before it reads anything. -/
def init (c : Conf) : St :=
  match c.proto with
  | .http => { reqPC := .read none }
  | .tcp => { reqPC := .sendAddr 0 true c.originalDst,
              routes := [c.originalDst] }

/-- The bytes that reached the client. -/
def St.client (s : St) : Bytes := s.emitted.flatMap Prod.snd

/-- What the response routine of one target wrote to the client. -/
def St.emittedBy (s : St) (target : Nat) : Bytes :=
  (s.emitted.filter fun e => e.1 = target).flatMap Prod.snd

inductive Act
  /-- The request goroutine reads from the client. -/
  | parse (p : Parsed)
  /-- Any other action of the request goroutine alone. -/
  | req
  /-- An address goes over `addrCh`, a connection over `connCh`. -/
  | addr
  | conn
  /-- An action of the loop alone; `ok` is the outcome of resolving or
  dialling. -/
  | loop (ok : Bool)
  | call
  /-- The running response routine writes to the client. -/
  | emit (b : Bytes)
  /-- Another connection writes the routing context, or an entry expires. -/
  | setRoute (id value : Bytes)
  | expire (id : Bytes)

section Step

variable (c : Conf)

/-- The loop of the HTTP handler with a parsed request: the request id, the
routing decision and its traces in the request and in the routing context. -/
def routeRequest (s : St) (r : Request) (uuid : Bytes) : St :=
  let h := if c.http.requestId r.header = [] then
    r.header.set c.http.requestIdHeaderName.1 uuid else r.header
  let id := c.http.requestId h
  let (value, h) := routingValue c.routing (s.routingInfo.lookup id) h
  let (addr, remembered) := route c.isInbound value r.host c.originalDst
  { s with
    routingInfo :=
      match remembered with
      | some v =>
        if c.http.requestId h ≠ [] then
          (c.http.requestId h, v) :: s.routingInfo
        else s.routingInfo
      | none => s.routingInfo
    requests := s.requests ++ [{ r with header := h }]
    routes := s.routes ++ [addr]
    reqPC := .sendAddr s.routes.length
      (toLower (h.get (lit "Connection")) = lit "upgrade") addr }

/-- `ReadRequest` returns to the loop of the HTTP handler. Without a connection
there is nowhere to fall back to. -/
def parse (s : St) (p : Parsed) : Option St :=
  match s.reqPC with
  | .read w =>
    match p with
    | .ended => some { s with reqPC := .closeAddr w }
    | .failed =>
      match w with
      | none => some { s with reqPC := .closeAddr none }
      | some t => some { s with reqPC := .copy none t }
    | .request r uuid => some (routeRequest c s r uuid)
  | _ => none

/-- The request goroutine with a connection in hand. An upgrade, and anything
on a TCP connection, is copied as raw bytes. -/
def gotConn (s : St) (k : Nat) (raw : Bool) (target : Option Nat) : St :=
  match target with
  | none => { s with reqPC := .closeAddr none }
  | some t => { s with reqPC := if raw then .copy (some k) t else .write k t }

/-- The next action of the request goroutine on its own. -/
def reqStep (s : St) : Option St :=
  match s.reqPC with
  | .read _ => none
  | .sendAddr _ _ _ =>
    if s.addrClosed then some { s with panicked := true } else none
  | .recvConn k raw =>
    if s.connClosed then some (gotConn s k raw none) else none
  | .write k t =>
    some { s with written := s.written ++ [(k, t)], reqPC := .read (some t) }
  | .copy k t =>
    some { s with
      written := s.written ++ (k.map fun k => (k, t)).toList
      reqPC := .closeAddr (some t) }
  | .closeAddr w =>
    if s.addrClosed then some { s with panicked := true }
    else some { s with addrClosed := true, reqPC := .closeConns w }
  | .closeConns _ => some { s with clientOpen := false, reqPC := .returned }
  | .returned => none

/-- An address is sent on `addrCh` and received there. -/
def sendAddr (s : St) : Option St :=
  match s.reqPC, s.loopPC with
  | .sendAddr k raw a, .recvAddr =>
    if s.addrClosed then none
    else some { s with
      reqPC := .recvConn k raw, loopPC := .gotAddr a,
        received := s.received ++ [(a, false)] }
  | _, _ => none

/-- A connection is sent on `connCh` and received there. -/
def sendConn (s : St) : Option St :=
  match s.reqPC, s.loopPC with
  | .recvConn k raw, .sendConn target =>
    if s.connClosed then none
    else some (gotConn
      { s with
        loopPC :=
          match target with | none => .closeClient | some t => .addCall t }
      k raw target)
  | _, _ => none

/-- The next action of the loop of `HandleConnection` on its own. -/
def loopStep (s : St) (ok : Bool) : Option St :=
  match s.loopPC with
  | .recvAddr =>
    if s.addrClosed then
      some { s with
        loopPC := .gotAddr [], received := s.received ++ [([], true)] }
    else none
  | .gotAddr a =>
    some { s with loopPC := if a = [] then .closeClient else .resolve a }
  | .resolve a =>
    some { s with loopPC := if ok then .dial a else .sendConn none }
  | .dial a =>
    if ok then
      some { s with
        dialled := s.dialled ++ [a],
        loopPC := .sendConn (some s.dialled.length) }
    else some { s with loopPC := .sendConn none }
  | .sendConn _ =>
    if s.connClosed then some { s with panicked := true } else none
  | .addCall t => some { s with wg := s.wg + 1, loopPC := .sendCall t }
  | .sendCall t =>
    if s.callClosed then some { s with panicked := true }
    else if s.callCh.length < callCap then
      some { s with callCh := s.callCh ++ [t], loopPC := .recvAddr }
    else none
  | .closeClient => some { s with clientOpen := false, loopPC := .closeConnCh }
  | .closeConnCh =>
    if s.connClosed then some { s with panicked := true }
    else some { s with connClosed := true, loopPC := .closeCallCh }
  | .closeCallCh =>
    if s.callClosed then some { s with panicked := true }
    else some { s with callClosed := true, loopPC := .returned }
  | .returned => none

/-- The next action of the goroutine that runs the closures. -/
def callStep (s : St) : Option St :=
  match s.callPC with
  | .recv =>
    match s.callCh with
    | t :: rest =>
        some { s with callCh := rest, ran := s.ran ++ [t], callPC := .run t }
    | [] => if s.callClosed then some { s with callPC := .returned } else none
  | .run _ => some { s with callPC := .done }
  | .done =>
    if s.wg = 0 then some { s with panicked := true }
    else some { s with wg := s.wg - 1, callPC := .recv }
  | .returned => none

/-- The running response routine writes to the client. -/
def emit (s : St) (b : Bytes) : Option St :=
  match s.callPC with
  | .run t =>
    if s.clientOpen then some { s with emitted := s.emitted ++ [(t, b)] }
    else none
  | _ => none

/-- One action. After a panic there is none. -/
def step (s : St) (a : Act) : Option St :=
  if s.panicked then none
  else
    match a with
    | .parse p => parse c s p
    | .req => reqStep s
    | .addr => sendAddr s
    | .conn => sendConn s
    | .loop ok => loopStep s ok
    | .call => callStep s
    | .emit b => emit s b
    | .setRoute id value =>
      some { s with routingInfo := (id, value) :: s.routingInfo }
    | .expire id =>
        some { s with routingInfo := s.routingInfo.filter fun e => e.1 ≠ id }

end Step

/-! ## Being blocked

A goroutine is blocked when its next action is a channel operation that is not
possible now. -/

/-- The request goroutine waits for `addrCh` or `connCh`. -/
def St.reqBlocked (s : St) : Bool :=
  match s.reqPC with
  | .sendAddr _ _ _ => !s.addrClosed && s.loopPC != .recvAddr
  | .recvConn _ _ =>
    !s.connClosed && (match s.loopPC with | .sendConn _ => false | _ => true)
  | _ => false

/-- The loop waits for `addrCh` or `connCh`. -/
def St.loopBlocked (s : St) : Bool :=
  match s.loopPC with
  | .recvAddr => !s.addrClosed &&
      (match s.reqPC with | .sendAddr _ _ _ => false | _ => true)
  | .sendConn _ => !s.connClosed &&
      (match s.reqPC with | .recvConn _ _ => false | _ => true)
  | _ => false

/-- The loop waits for `callCh`. -/
def St.queueBlocked (s : St) : Bool :=
  match s.loopPC with
  | .sendCall _ => !s.callClosed && callCap ≤ s.callCh.length
  | _ => false

/-- The third goroutine waits for `callCh`. -/
def St.callBlocked (s : St) : Bool :=
  s.callPC == .recv && s.callCh.isEmpty && !s.callClosed

/-! ## Target connections

A target's connection is closed by its response routine (in `HandleResponse`
behind a final response, or after it has returned), and the one the request
goroutine holds when it leaves is closed by `TcpCopyRequest`. -/

/-- A connection with the targets that were closed, and whether the client has
closed its side. -/
structure Targets where
  st : St
  closed : List Nat := []
  gone : Bool := false

inductive TargetAct
  | act (a : Act)
  /-- `HandleResponse` closes the target behind a response. -/
  | force
  /-- The client closes its connection. -/
  | leave

/-- The targets an action closes. -/
def closes (s : St) : Act → List Nat
  | .req => match s.reqPC with | .closeConns (some t) => [t] | _ => []
  | .call => match s.callPC with | .run t => [t] | _ => []
  | _ => []

def targetStep (c : Conf) (s : Targets) : TargetAct → Option Targets
  | .act a => (step c s.st a).map fun t =>
      { s with st := t, closed := s.closed ++ closes s.st a }
  | .force =>
    match c.proto, s.st.callPC with
    | .http, .run t => some { s with closed := s.closed ++ [t] }
    | _, _ => none
  | .leave => some { s with gone := true }

end Netramesh.Transport
