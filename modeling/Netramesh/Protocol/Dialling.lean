import Netramesh.Protocol.Handler
import Netramesh.Protocol.Routing

/-!
# `HandleRequest` with routing enabled

In routing mode `HandleRequest` starts without a connection to write to. Every
request it parses gets one of its own, dialled by the loop of
`HandleConnection` to the address the request is routed to; when a message
cannot be parsed the handler falls back on the connection of the request
before, and where there is none it returns.
-/

namespace Netramesh.Protocol

open Http Net Lib

/-- `HandleRequest` up to the connection a request goes to, with the routing
value the `k`-th request was given, if any. -/
def forwardingHandler {C : Type} (idna : Bytes → Option Bytes)
    (cfg : HTTPConfig) (route : FieldName) (isInbound : Bool) (tr : Tracer C)
    (trips : Nat → Trip C) (values : Nat → Option Bytes) (w : World) :
    Handler Request :=
  { requestHandler cfg isInbound tr idna trips w with
    forward := fun k r c =>
      (outgoing cfg isInbound tr (trips k) (withRoute route (values k) r)).write
        idna c }

/-- The header with an id in it. -/
def identify (cfg : HTTPConfig) (uuid : Bytes) (h : Header) : Header :=
  if cfg.requestId h = [] then h.set cfg.requestIdHeaderName.1 uuid else h

theorem put_twice (h : Header) (k : Bytes) (vs : List Bytes) :
    (h.put k vs).put k vs = h.put k vs := by
  have hentries : ((h.put k vs).delete k).entries = (h.delete k).entries := by
    simp [Header.put, Header.delete, List.filter_filter]
  simp only [Header.put, Header.mk.injEq]
  exact congrArg (· ++ [(k, vs)]) hentries

/-- A second look for an id changes nothing. -/
theorem identify_twice (cfg : HTTPConfig) (uuid : Bytes) (h : Header) :
    identify cfg uuid (identify cfg uuid h) = identify cfg uuid h := by
  unfold identify
  split
  · split
    · exact put_twice _ _ _
    · rfl
  · rfl

/-- What the surroundings decide about one request in routing mode: besides its
trip, what the routing context knows by then, and whether the loop of
`HandleConnection` hands a connection over. -/
structure Ride (C : Type) extends Trip C where
  routes : List (Bytes × Bytes)
  dials : Bool

/-- What is fixed for one call of `HandleRequest` in routing mode. -/
structure RoutingCall (C : Type) where
  http : HTTPConfig
  routing : RoutingConfig
  isInbound : Bool
  originalDst : Bytes
  tracer : Tracer C
  idna : Bytes → Option Bytes
  rides : Nat → Ride C
  world : World

/-- The state at the top of a round. `w` is the variable of that name, and the
number of a connection is its place in `dialled`. -/
structure RoutedLoop where
  rd : Reader Tee
  count : Nat := 0
  w : Option Nat := none
  /-- History: the address behind each connection. -/
  dialled : List Bytes := []
  /-- History: what each round wrote, and to which connection. -/
  sent : List (Nat × Bytes) := []

/-- How a round ends. -/
inductive RoutedRound
  | next (s : RoutedLoop)
  | copied (s : RoutedLoop)
  | returned (s : RoutedLoop)

namespace RoutedLoop

def init (conn : Conn) : RoutedLoop where
  rd := (Loop.init conn).rd

/-- The loop of the handler, with what this round writes as its output. -/
def loop (s : RoutedLoop) : Loop where
  rd := s.rd
  count := s.count

/-- The state after a round that wrote to the connection `k`. -/
def wrote (s : RoutedLoop) (k : Nat) (u : Loop) : RoutedLoop :=
  { s with
    rd := u.rd, count := u.count, w := some k, sent := s.sent ++ [(k, u.out)] }

/-- The state with a new connection in hand. -/
def dial (s : RoutedLoop) (addr : Bytes) : RoutedLoop :=
  { s with w := some s.dialled.length, dialled := s.dialled ++ [addr] }

end RoutedLoop

namespace RoutingCall

variable {C : Type} (e : RoutingCall C)

/-- What both modes do with a message and its connection. -/
def handler : Handler Request :=
  requestHandler e.http e.isInbound e.tracer e.idna
    (fun k => (e.rides k).toTrip) e.world

/-- The routing value of the `k`-th request, and the request with its id and its
routing header. -/
def tagged (k : Nat) (r : Request) : Bytes × Request :=
  let h := if e.http.requestId r.header = [] then
    r.header.set e.http.requestIdHeaderName.1 (e.rides k).uuid.1 else r.header
  let (value, h) := routingValue e.routing
    ((e.rides k).routes.lookup (e.http.requestId h)) h
  (value, { r with header := h })

/-- The address the `k`-th request is routed to. -/
def address (k : Nat) (r : Request) : Bytes :=
  (route e.isInbound (e.tagged k r).1 r.host e.originalDst).1

/-- One round of the loop. -/
def turn (s : RoutedLoop) : RoutedRound :=
  match readRequest (onTmp TempWriter.start s.rd) with
  | (.error err, rd) =>
    if err = .eof ∨ err.mentionsClosed then .returned { s with rd := rd }
    else
      match s.w with
      | none => .returned { s with rd := rd }
      | some k => .copied (s.wrote k (fallback e.handler s.loop rd))
  | (.ok r, rd) =>
    if (e.rides s.count).dials then
      let k := s.dialled.length
      let t := s.dial (e.address s.count r)
      let m := (e.tagged s.count r).2
      if toLower (m.header.get (lit "Connection")) = lit "upgrade" then
        .copied (t.wrote k (fallback e.handler s.loop rd))
      else
        let c := (e.handler.forward s.count m (s.loop.copy e.handler m rd)).2
        .next (t.wrote k { rd := c.rd, out := c.out.bytes,
                           count := s.count + 1 })
    else .returned { s with rd := rd, w := none }

end RoutingCall

end Netramesh.Protocol
