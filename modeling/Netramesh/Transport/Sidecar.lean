import Netramesh.Transport.Routed

/-!
# The connections of one sidecar

All connections of a sidecar share one routing context. An inbound request
leaves its routing value there under its request id, and an outbound request
with that id finds it. The connections otherwise know nothing of each other, so
a run of the sidecar takes the actions of any number of connections in any
order, each on the context as the others have left it. Entries do not expire
here.
-/

namespace Netramesh.Transport

open Http Protocol

/-- A turn of the loop of `HandleRequest` with a request it has parsed. `uuid`
is what `uuid.New()` would give it for an id. -/
structure Iteration where
  isInbound : Bool
  originalDst : Bytes
  request : Request
  uuid : Bytes

section Iteration

variable (http : HTTPConfig) (rc : RoutingConfig)

/-- The headers of a request once it has an id. -/
def Iteration.header (t : Iteration) : Header :=
  if http.requestId t.request.header = [] then
    t.request.header.set http.requestIdHeaderName.1 t.uuid
  else t.request.header

/-- The request id of a turn, brought or generated. -/
def Iteration.id (t : Iteration) : Bytes := http.requestId (t.header http)

/-- The routing value a request brings: its cookie if cookies count and it has
one, else its header. -/
def Iteration.brought (t : Iteration) : Bytes :=
  let cookie :=
    if rc.routingCookieEnabled then
      ((readCookies (t.header http) rc.routingCookieName).head?.map
        Prod.snd).getD []
    else []
  if cookie ≠ [] then cookie else (t.header http).get rc.routingHeaderName.1

/-- Whether `getRoutingDestination` takes the value for the request of a
turn. -/
def Iteration.accepts (t : Iteration) (v : Bytes) : Bool :=
  (getRoutingDestination v t.request.host t.originalDst).isOk

end Iteration

/-- What a turn decided: the address for `addrCh`, and the request as it goes
on from there. -/
structure Decision where
  turn : Iteration
  address : Bytes
  routed : Request

structure Sidecar where
  /-- `routingInfoContextMapping`, newest entry first. -/
  routingInfo : List (Bytes × Bytes) := []
  conns : List (Conf × St) := []
  /-- History: the decisions of all connections, newest first. -/
  decisions : List Decision := []

inductive SidecarAct
  | accept (proto : Proto) (isInbound : Bool)
      (originalDst : { a : Bytes // a ≠ [] })
  | act (conn : Nat) (a : Act)

/-- The actions a connection takes itself. The text of a generated id is not
empty. -/
def Act.own : Act → Bool
  | .setRoute _ _ | .expire _ => false
  | .parse (.request _ uuid) => uuid ≠ []
  | _ => true

/-- The decision an action of a connection has made. -/
def decided (c : Conf) (a : Act) (t : St) : List Decision :=
  match a, t.reqPC, t.requests.getLast? with
  | .parse (.request r uuid), .sendAddr _ _ addr, some routed =>
    [{ turn := { isInbound := c.isInbound,
                 originalDst := c.originalDst, request := r, uuid := uuid }
       address := addr
       routed := routed }]
  | _, _, _ => []

/-- One action of the sidecar. -/
def sidecarStep (http : HTTPConfig) (routing : RoutingConfig) (s : Sidecar) :
    SidecarAct → Option Sidecar
  | .accept proto isInbound originalDst =>
    let c : Conf :=
      { http := http, routing := routing, proto := proto,
        isInbound := isInbound, originalDst := originalDst.1,
        originalDst_ne := originalDst.2 }
    some { s with conns := s.conns ++ [(c, init c)] }
  | .act i a =>
    if a.own then
      match s.conns[i]? with
      | none => none
      | some (c, st) =>
        (step c { st with routingInfo := s.routingInfo } a).map fun t =>
          { routingInfo := t.routingInfo
            conns := s.conns.set i (c, t)
            decisions := decided c a t ++ s.decisions }
    else none

end Netramesh.Transport
