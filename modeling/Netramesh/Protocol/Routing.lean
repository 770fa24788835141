import Netramesh.Protocol.Trace

/-!
# Where a request is routed

With routing enabled `HandleRequest` chooses a destination for every request:
a routing value is looked up in a cookie, in a header and in the routing
context another connection left under the same request id, and is searched for
the request's host. Whatever is found, the address sent on to
`HandleConnection` is never empty; that loop reads the empty string as the
closing of the channel.
-/

namespace Netramesh.Protocol

open Http

/-- The part of `config.HTTPConfig` that only routing reads. -/
structure RoutingConfig where
  routingHeaderName : FieldName
  routingCookieEnabled : Bool
  routingCookieName : Bytes

/-- The configuration with nothing set in the environment. -/
def RoutingConfig.default : RoutingConfig where
  routingHeaderName := ⟨lit "X-Route", by decide⟩
  routingCookieEnabled := false
  routingCookieName := lit "X-Route"

/-- The loop of `getRoutingDestination` over the pairs. A pair that routes a
host to itself is skipped. -/
def destinationOf (routingValue host originalDst : Bytes) : List Bytes →
    Except Bytes Bytes
  | [] => .ok originalDst
  | p :: pairs =>
    match p.splitOn 61 with
    | key :: val :: _ =>
      if key = val then destinationOf routingValue host originalDst pairs
      else if host = key then
        .ok (if val.elem 58 then val else val ++ lit ":80")
      else destinationOf routingValue host originalDst pairs
    | _ => .error (lit "malformed routing header: '" ++ routingValue ++ lit "'")

/-- `getRoutingDestination`. -/
def getRoutingDestination (routingValue host originalDst : Bytes) :
    Except Bytes Bytes :=
  destinationOf routingValue host originalDst (routingValue.splitOn 44)

/-- The routing value of a request with these headers, with what the routing
context holds under its request id; a value from the context is added to the
headers. -/
def routingValue (rc : RoutingConfig) (context : Option Bytes) (h : Header) :
    Bytes × Header :=
  let cookie :=
    if rc.routingCookieEnabled then
      match readCookies h rc.routingCookieName with
      | c :: _ => c.2
      | [] => []
    else []
  let value := if cookie = [] then h.get rc.routingHeaderName.1 else cookie
  if value ≠ [] then (value, h)
  else
    match context with
    | some v => (v, h.add rc.routingHeaderName.1 v)
    | none => ([], h)

/-- A routing value comes into the header from the routing context only. -/
theorem routingValue_added (rc : RoutingConfig) (context : Option Bytes)
    (h : Header) :
    (routingValue rc context h).2 = h ∨
      ∃ v, context = some v ∧ (routingValue rc context h).2 =
        h.add rc.routingHeaderName.1 v := by
  unfold routingValue
  cases context with
  | none =>
    left
    simp only [apply_ite Prod.snd, ite_self]
  | some v =>
    dsimp only
    rw [apply_ite Prod.snd]
    exact (ite_eq_or_eq _ _ _).imp id fun hadd => ⟨v, rfl, hadd⟩

/-- A request with the routing value it may have been given. -/
def withRoute (route : FieldName) (value : Option Bytes) (r : Request) :
    Request :=
  value.elim r fun v => { r with header := r.header.add route.1 v }

/-- The address `HandleRequest` sends for a request, and the routing value it
remembers under the request id. An inbound connection keeps its destination. -/
def route (isInbound : Bool) (value host originalDst : Bytes) :
    Bytes × Option Bytes :=
  if value = [] then (originalDst, none)
  else
    match getRoutingDestination value host originalDst with
    | .error _ => (originalDst, none)
    | .ok addr => if isInbound then (originalDst, some value) else (addr, none)

theorem destinationOf_ne_nil {value host originalDst : Bytes}
    (h : originalDst ≠ []) (pairs : List Bytes) {addr : Bytes}
    (haddr : destinationOf value host originalDst pairs = .ok addr) :
    addr ≠ [] := by
  induction pairs with
  | nil =>
      cases haddr
      exact h
  | cons p pairs ih =>
      rw [destinationOf] at haddr
      split at haddr
      · split at haddr
        · exact ih haddr
        · split at haddr
          · cases haddr
            split
            · next hcolon =>
                rintro rfl
                cases hcolon
            · simp [lit]
          · exact ih haddr
      · cases haddr

theorem route_ne_nil {isInbound : Bool} {value host originalDst : Bytes}
    (h : originalDst ≠ []) :
    (route isInbound value host originalDst).1 ≠ [] := by
  unfold route
  split
  · exact h
  · split
    · exact h
    · next addr haddr =>
        split
        · exact h
        · exact destinationOf_ne_nil h _ haddr

end Netramesh.Protocol
