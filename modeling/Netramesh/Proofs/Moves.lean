import Netramesh.Proofs.Exchange

/-!
# One action of routing mode

`Move` lists what the goroutines of a connection can do, one constructor for
each branch of the source, with what it needs and what it leaves. The actions
that would panic are not in the list: the channel invariant rules them out.
What a new invariant of a run needs is then one case for each constructor.
-/

namespace Netramesh.Proofs

open Http Transport Lib

variable {c : Conf}

/-- What one action does to a state in which the channel invariant holds. -/
inductive Move (c : Conf) (s : St) : Act → St → Prop
  | ended {w : Option Nat} : s.reqPC = .read w →
      Move c s (.parse .ended) { s with reqPC := .closeAddr w }
  | failedFirst : s.reqPC = .read none →
      Move c s (.parse .failed) { s with reqPC := .closeAddr none }
  | failed {t : Nat} : s.reqPC = .read (some t) →
      Move c s (.parse .failed) { s with reqPC := .copy none t }
  | request {w : Option Nat} {r : Request} {uuid : Bytes} : s.reqPC = .read w →
      Move c s (.parse (.request r uuid)) (routeRequest c s r uuid)
  | write {k t : Nat} : s.reqPC = .write k t →
      Move c s .req { s with
        written := s.written ++ [(k, t)], reqPC := .read (some t) }
  | copied {k : Option Nat} {t : Nat} : s.reqPC = .copy k t →
      Move c s .req { s with
        written := s.written ++ (k.map fun k => (k, t)).toList
        reqPC := .closeAddr (some t) }
  | closeAddr {w : Option Nat} : s.reqPC = .closeAddr w → s.addrClosed = false →
      Move c s .req { s with addrClosed := true, reqPC := .closeConns w }
  | closeConns {w : Option Nat} : s.reqPC = .closeConns w →
      Move c s .req { s with clientOpen := false, reqPC := .returned }
  | addr {k : Nat} {raw : Bool} {a : Bytes} : s.reqPC = .sendAddr k raw a →
      s.loopPC = .recvAddr →
      Move c s .addr { s with reqPC := .recvConn k raw, loopPC := .gotAddr a
                              received := s.received ++ [(a, false)] }
  | refused {k : Nat} {raw : Bool} : s.reqPC = .recvConn k raw →
      s.loopPC = .sendConn none →
      Move c s .conn { s with loopPC := .closeClient, reqPC := .closeAddr none }
  | given {k t : Nat} {raw : Bool} : s.reqPC = .recvConn k raw →
      s.loopPC = .sendConn (some t) →
      Move c s .conn { s with loopPC := .addCall t
                              reqPC := if raw then .copy (some k) t
                                else .write k t }
  | noAddr {ok : Bool} : s.loopPC = .recvAddr → s.addrClosed = true →
      Move c s (.loop ok) { s with
        loopPC := .gotAddr [], received := s.received ++ [([], true)] }
  | leave {ok : Bool} : s.loopPC = .gotAddr [] →
      Move c s (.loop ok) { s with loopPC := .closeClient }
  | take {ok : Bool} {a : Bytes} : s.loopPC = .gotAddr a → a ≠ [] →
      Move c s (.loop ok) { s with loopPC := .resolve a }
  | resolved {a : Bytes} : s.loopPC = .resolve a →
      Move c s (.loop true) { s with loopPC := .dial a }
  | unresolved {a : Bytes} : s.loopPC = .resolve a →
      Move c s (.loop false) { s with loopPC := .sendConn none }
  | dialled {a : Bytes} : s.loopPC = .dial a →
      Move c s (.loop true)
        { s with
          dialled := s.dialled ++ [a],
          loopPC := .sendConn (some s.dialled.length) }
  | undialled {a : Bytes} : s.loopPC = .dial a →
      Move c s (.loop false) { s with loopPC := .sendConn none }
  | addCall {ok : Bool} {t : Nat} : s.loopPC = .addCall t →
      Move c s (.loop ok) { s with wg := s.wg + 1, loopPC := .sendCall t }
  | sendCall {ok : Bool} {t : Nat} : s.loopPC = .sendCall t →
      s.callCh.length < callCap →
      Move c s (.loop ok) { s with
        callCh := s.callCh ++ [t], loopPC := .recvAddr }
  | closeClient {ok : Bool} : s.loopPC = .closeClient →
      Move c s (.loop ok) { s with clientOpen := false, loopPC := .closeConnCh }
  | closeConnCh {ok : Bool} : s.loopPC = .closeConnCh →
      Move c s (.loop ok) { s with connClosed := true, loopPC := .closeCallCh }
  | closeCallCh {ok : Bool} : s.loopPC = .closeCallCh →
      Move c s (.loop ok) { s with callClosed := true, loopPC := .returned }
  | start {t : Nat} {rest : List Nat} : s.callPC = .recv →
      s.callCh = t :: rest → Move c s .call { s with
        callCh := rest, ran := s.ran ++ [t], callPC := .run t }
  | drained : s.callPC = .recv → s.callCh = [] → s.callClosed = true →
      Move c s .call { s with callPC := .returned }
  | finish {t : Nat} : s.callPC = .run t →
      Move c s .call { s with callPC := .done }
  | next : s.callPC = .done →
      Move c s .call { s with wg := s.wg - 1, callPC := .recv }
  | emit {t : Nat} {b : Bytes} : s.callPC = .run t → s.clientOpen = true →
      Move c s (.emit b) { s with emitted := s.emitted ++ [(t, b)] }
  | setRoute {id value : Bytes} :
      Move c s (.setRoute id value) { s with
        routingInfo := (id, value) :: s.routingInfo }
  | expire {id : Bytes} :
      Move c s (.expire id) { s with
        routingInfo := s.routingInfo.filter fun e => e.1 ≠ id }

theorem move_parse {s t : St} {p : Parsed} (h : parse c s p = some t) :
    Move c s (.parse p) t := by
  unfold parse at h
  split at h
  · next w hpc =>
      split at h
      · cases h
        exact .ended hpc
      · cases w with
        | none =>
          cases h
          exact .failedFirst hpc
        | some w =>
          cases h
          exact .failed hpc
      · cases h
        exact .request hpc
  · cases h

theorem move_reqStep {s t : St} (hc : ChanInv s) (ht : t.panicked = false)
    (h : reqStep s = some t) : Move c s .req t := by
  unfold reqStep at h
  split at h
  · cases h
  · split at h
    · cases h
      cases ht
    · cases h
  · next k raw hpc =>
      split at h
      · next hconn =>
          -- the loop closes `connCh` only after the request goroutine has its
          -- answer
          have hturn := hc.turn
          rw [hc.conn] at hconn
          cases hl : s.loopPC <;> rw [hl] at hconn hturn <;>
            simp [LoopPC.connClosed, Turn, ReqPC.leaving, hpc] at hconn hturn
      · cases h
  · next hpc =>
      cases h
      exact .write hpc
  · next hpc =>
      cases h
      exact .copied hpc
  · next hpc =>
      split at h
      · cases h
        cases ht
      · next haddr =>
          cases h
          exact .closeAddr hpc (by simpa using haddr)
  · next hpc =>
      cases h
      exact .closeConns hpc
  · cases h

theorem move_sendAddr {s t : St} (h : sendAddr s = some t) :
    Move c s .addr t := by
  unfold sendAddr at h
  split at h
  · next hpc hl =>
      split at h
      · cases h
      · cases h
        exact .addr hpc hl
  · cases h

theorem move_sendConn {s t : St} (h : sendConn s = some t) :
    Move c s .conn t := by
  unfold sendConn at h
  split at h
  · next k raw target hpc hl =>
      split at h
      · cases h
      · cases h
        cases target with
        | none => exact .refused hpc hl
        | some t => exact .given hpc hl
  · cases h

theorem move_loopStep {s t : St} {ok : Bool} (ht : t.panicked = false)
    (h : loopStep s ok = some t) : Move c s (.loop ok) t := by
  unfold loopStep at h
  split at h
  · next hl =>
      split at h
      · next haddr =>
          cases h
          exact .noAddr hl haddr
      · cases h
  · next a hl =>
      cases h
      by_cases ha : a = []
      · subst ha
        exact .leave hl
      · rw [if_neg ha]
        exact .take hl ha
  · next a hl =>
      cases h
      cases ok with
      | true => exact .resolved hl
      | false => exact .unresolved hl
  · next a hl =>
      cases ok with
      | true =>
        cases h
        exact .dialled hl
      | false =>
        cases h
        exact .undialled hl
  · split at h
    · cases h
      cases ht
    · cases h
  · next hl =>
      cases h
      exact .addCall hl
  · next hl =>
      split at h
      · cases h
        cases ht
      · split at h
        · next hlt =>
            cases h
            exact .sendCall hl hlt
        · cases h
  · next hl =>
      cases h
      exact .closeClient hl
  · next hl =>
      split at h
      · cases h
        cases ht
      · cases h
        exact .closeConnCh hl
  · next hl =>
      split at h
      · cases h
        cases ht
      · cases h
        exact .closeCallCh hl
  · cases h

theorem move_callStep {s t : St} (ht : t.panicked = false)
    (h : callStep s = some t) :
    Move c s .call t := by
  unfold callStep at h
  split at h
  · next hpc =>
      split at h
      · next hch =>
          cases h
          exact .start hpc hch
      · next hch =>
          split at h
          · next hclosed =>
              cases h
              exact .drained hpc hch hclosed
          · cases h
  · next hpc =>
      cases h
      exact .finish hpc
  · next hpc =>
      split at h
      · cases h
        cases ht
      · cases h
        exact .next hpc
  · cases h

/-- Every action is in the list. -/
theorem move_of_step {s t : St} {a : Act} (hc : ChanInv s)
    (h : step c s a = some t) :
    Move c s a t := by
  have ht : t.panicked = false := (chanInv_step hc h).calm
  unfold step at h
  rw [if_neg (by rw [hc.calm]; simp)] at h
  cases a with
  | parse p => exact move_parse h
  | req => exact move_reqStep hc ht h
  | addr => exact move_sendAddr h
  | conn => exact move_sendConn h
  | loop ok => exact move_loopStep ht h
  | call => exact move_callStep ht h
  | emit b =>
    simp only [emit] at h
    split at h
    · next hpc =>
        split at h
        · next hopen =>
            cases h
            exact .emit hpc hopen
        · cases h
    · cases h
  | setRoute id value =>
    cases h
    exact .setRoute
  | expire id =>
    cases h
    exact .expire

/-- Every move in the list is an action. -/
theorem step_of_move {s t : St} {a : Act} (hc : ChanInv s) (hm : Move c s a t) :
    step c s a = some t := by
  have haddr := hc.addr
  have hconn := hc.conn
  have hcall := hc.call
  unfold step
  rw [if_neg (by rw [hc.calm]; simp)]
  cases hm with
  | ended h | failedFirst h | failed h | request h => simp only [parse, h]
  | write h | copied h | closeConns h => simp only [reqStep, h]
  | closeAddr h hopen => simp [reqStep, h, hopen]
  | addr h hl =>
    rw [h] at haddr
    simp [sendAddr, h, hl, haddr, ReqPC.closed]
  | refused h hl | given h hl =>
    rw [hl] at hconn
    simp [sendConn, h, hl, hconn, LoopPC.connClosed, gotConn]
  | noAddr hl hclosed => simp [loopStep, hl, hclosed]
  | take hl ha => simp [loopStep, hl, ha]
  | leave hl | resolved hl | unresolved hl | dialled hl | undialled hl
      | addCall hl
  | closeClient hl => simp [loopStep, hl]
  | sendCall hl hlt =>
    rw [hl] at hcall
    simp [loopStep, hl, hlt, hcall]
  | closeConnCh hl =>
    rw [hl] at hconn
    simp [loopStep, hl, hconn, LoopPC.connClosed]
  | closeCallCh hl =>
    rw [hl] at hcall
    simp [loopStep, hl, hcall]
  | start hpc hch => simp [callStep, hpc, hch]
  | drained hpc hch hclosed => simp [callStep, hpc, hch, hclosed]
  | finish hpc => simp [callStep, hpc]
  | next hpc =>
    have hwg := hc.wg
    rw [hpc] at hwg
    simp only [pendingCalls] at hwg
    simp only [callStep, hpc]
    rw [if_neg (by omega)]
  | emit hpc hopen => simp [emit, hpc, hopen]
  | setRoute | expire => rfl

end Netramesh.Proofs
