import Netramesh.Protocol.Handler
import Netramesh.Transport.Routed

/-!
# An HTTP connection in routing mode

The goroutines of routing mode, with the bytes of the response routines. What
the channel model leaves open is filled in here: a routine emits what
`HandleResponse` writes for its target, and returns when that is written or when
the client can no longer be written to. How a routine ended is known to nobody:
the goroutine that runs it takes the next one from the queue.
-/

namespace Netramesh.Transport

open Http Protocol

/-- What the routine of one target meets: the method of the request it answers,
what comes from the target, what the test for HEAD says before each response,
and how much each read of a body asks for. -/
structure Target where
  method : Bytes
  conn : Conn
  head : Nat → Bool
  sizes : Nat → List Nat
  sizes_lt : ∀ k, ∀ n ∈ sizes k, n < 2 ^ 63

namespace Target

/-- The client takes what is written. -/
def world (t : Target) : World where
  sizes := t.sizes
  sizes_lt := t.sizes_lt

/-- `HandleResponse` with `forceClose`. -/
def handler (t : Target) : Handler Response :=
  responseHandler true t.head t.world

/-- What `HandleResponse` writes. -/
def out (t : Target) : Bytes := (handle t.handler (Loop.init t.conn)).out

end Target

structure RoutedHttp where
  st : St
  /-- The client has gone: writing to it fails. -/
  gone : Bool := false

inductive RoutedHttpAct
  /-- An action of one or two goroutines. -/
  | act (a : Act)
  | leave

/-- Whether the running routine gets to this action. -/
def RoutedHttp.gets (targets : Nat → Target) (s : RoutedHttp) : Act → Bool
  | .emit b =>
    match s.st.callPC with
    | .run t => !s.gone && (s.st.emittedBy t ++ b).isPrefixOf (targets t).out
    | _ => false
  | .call =>
    match s.st.callPC with
    | .run t => s.gone || !s.st.clientOpen || s.st.emittedBy t ==
        (targets t).out
    | _ => true
  | _ => true

/-- One action. -/
def routedHttpStep (c : Conf) (targets : Nat → Target) (s : RoutedHttp) :
    RoutedHttpAct → Option RoutedHttp
  | .act a => if s.gets targets a then (step c s.st a).map fun t =>
      { s with st := t } else none
  | .leave => some { s with gone := true }

end Netramesh.Transport
