import Netramesh.Transport.RoutedTcp
import Netramesh.Proofs.Closing
import Netramesh.Proofs.HalfClose

/-!
# TCP with routing, seen without

Routing has nothing to decide for a TCP connection, but it changes which
goroutine closes what. Without routing `TcpCopyResponse` closes the target and
then the client; with routing a response routine closes its target only, and
the client's connection is left to the request goroutine and to the loop, which
follows it. So everything a pair of peers sees with routing it may see without.

The proof is a simulation. The sockets are the same on both sides at any time,
and the program counters mirror each other: the first `closeConn` of
`TcpCopyRequest` stands for the loop's closing of the client, and
`TcpCopyResponse` never gets to its second one.
-/

namespace Netramesh.Proofs

open Http Protocol Transport Lib

variable {c : Conf}

/-- What the client and the target did and saw. -/
def logs (w : TcpWire) : List Event × List Event := (w.client.log, w.target.log)

/-- A run of the goroutines without routing. -/
abbrev RunsDirect : Direct TcpWire → Direct TcpWire → Prop :=
  Reaches (Fires (directStep tcpHalves))

/-! ## One action in routing mode -/

inductive TcpMove (c : Conf) (s : RoutedTcp) : RoutedTcp → Prop
  | act {a : Act} {t : St} : s.gets a = true → step c s.st a = some t →
      TcpMove c s { st := t, wire := settle s.st a t s.wire }
  | peer {a : TcpAct} {w : TcpWire} : tcpHalves.peer s.wire a = some w →
      TcpMove c s { s with wire := w }
  | request {a : TcpAct} {w : TcpWire} {k : Option Nat} {t : Nat} : s.st.reqPC =
      .copy k t →
      tcpHalves.request s.wire a = some w → TcpMove c s { s with wire := w }
  | response {a : TcpAct} {w : TcpWire} {t : Nat} : s.st.callPC = .run t →
      tcpHalves.response s.wire a = some w → TcpMove c s { s with wire := w }
  | emits {a : TcpAct} {w : TcpWire} {t : Nat} {b : Bytes} : s.st.callPC =
      .run t → tcpHalves.response s.wire a = some w → s.st.clientOpen = true →
      TcpMove c s { st := { s.st with
        emitted := s.st.emitted ++ [(t, b)] }, wire := w }

theorem tcpMove_of_step {s t : RoutedTcp} {a : RoutedTcpAct}
    (h : routedTcpStep c s a = some t) :
    TcpMove c s t := by
  cases a with
  | act a =>
    simp only [routedTcpStep] at h
    split at h
    · next hgets =>
        obtain ⟨u, hu, rfl⟩ := Option.map_eq_some_iff.mp h
        exact .act hgets hu
    · cases h
  | peer a =>
    obtain ⟨w, hw, rfl⟩ := Option.map_eq_some_iff.mp h
    exact .peer hw
  | request a =>
    simp only [routedTcpStep] at h
    split at h
    · next hpc =>
        obtain ⟨w, hw, rfl⟩ := Option.map_eq_some_iff.mp h
        exact .request hpc hw
    · cases h
  | response a =>
    simp only [routedTcpStep] at h
    split at h
    · next hpc hw =>
        split at h
        · obtain ⟨u, hu, rfl⟩ := Option.map_eq_some_iff.mp h
          unfold emit at hu
          split at hu
          · next hpc' =>
              split at hu
              · next hopen =>
                  cases hu
                  exact .emits hpc' hw hopen
              · cases hu
          · cases hu
        · cases h
          exact .response hpc hw
    · cases h

/-! ## From routing mode to the other -/

/-- The client's socket is as the goroutines have left it. -/
def Synced (s : RoutedTcp) : Prop :=
  s.wire.client.link = if s.st.clientOpen then .live else .closed

theorem Synced.closed {s : RoutedTcp} (h : Synced s)
    (ho : s.st.clientOpen = false) :
    s.wire.client.link = .closed := by
  rw [Synced, ho] at h
  exact h

/-- Before there is a target to copy to. -/
inductive Early (s : St) : MainPC → Prop
  | asks {k : Nat} {a : Bytes} : s.reqPC = .sendAddr k true a →
      s.loopPC = .recvAddr → Early s .resolve
  | asked {k : Nat} {a : Bytes} : s.reqPC = .recvConn k true →
      s.loopPC = .gotAddr a → a ≠ [] → Early s .resolve
  | resolves {k : Nat} {a : Bytes} : s.reqPC = .recvConn k true →
      s.loopPC = .resolve a → Early s .resolve
  | dials {k : Nat} {a : Bytes} : s.reqPC = .recvConn k true →
      s.loopPC = .dial a → Early s .dial
  | dialled {k t : Nat} : s.reqPC = .recvConn k true →
      s.loopPC = .sendConn (some t) → Early s .started

/-- The loop with its one address behind it, and whether it still has the
response routine to queue. -/
def LoopPC.served : LoopPC → Bool
  | .recvAddr | .addCall _ | .sendCall _ | .closeClient | .closeConnCh
      | .closeCallCh
  | .returned => true
  | .gotAddr a => a = []
  | _ => false

def LoopPC.queueing : LoopPC → Bool
  | .addCall _ | .sendCall _ => true
  | _ => false

/-- The request goroutine and its counterpart: the first `closeConn` of the one
is done when somebody has closed the client. -/
inductive ReqMirror (s : St) (w : TcpWire) : SidePC → Prop
  | copying {k t : Nat} : s.reqPC = .copy (some k) t → s.clientOpen = true →
      ReqMirror s w .handler
  | leaving {t : Nat} : s.reqPC = .closeAddr (some t) ∨
      s.reqPC = .closeConns (some t) →
      w.req = .ended → s.clientOpen = true → ReqMirror s w .handler
  | closing {t : Nat} : s.reqPC = .closeAddr (some t) ∨
      s.reqPC = .closeConns (some t) →
      s.clientOpen = false → ReqMirror s w .closing
  | returned : s.reqPC = .returned → s.clientOpen = false →
      ReqMirror s w .returned

/-- The response routine and its counterpart, which never gets to its second
`closeConn`. -/
inductive RespMirror (s : St) : SidePC → Prop
  | unqueued : LoopPC.queueing s.loopPC = true → s.callPC = .recv →
      s.callCh = [] → RespMirror s .handler
  | queued {t : Nat} : LoopPC.queueing s.loopPC = false → s.callPC = .recv →
      s.callCh = [t] → RespMirror s .handler
  | running {t : Nat} : LoopPC.queueing s.loopPC = false → s.callPC = .run t →
      s.callCh = [] → RespMirror s .handler
  | done : LoopPC.queueing s.loopPC = false → (∀ t, s.callPC ≠ .run t) →
      s.callCh = [] → RespMirror s .closing

/-- The goroutines without a target, on their way out. -/
structure Refused (s : St) : Prop where
  pc : (∃ k, s.reqPC = .recvConn k true ∧ s.loopPC = .sendConn none ∧
    s.clientOpen = true) ∨
    ((s.reqPC = .closeAddr none ∨ s.reqPC = .closeConns none ∨
        s.reqPC = .returned ∧ s.clientOpen = false) ∧
      (s.loopPC = .closeClient ∨ LoopPC.closedClient s.loopPC = true ∧
        s.clientOpen = false))
  call : ∀ t, s.callPC ≠ .run t
  empty : s.callCh = []

inductive Mirrors : RoutedTcp → Direct TcpWire → Prop
  | early {s : St} {w : TcpWire} {main : MainPC} : Early s main →
      s.callPC = .recv → s.callCh = [] → s.clientOpen = true →
        Mirrors ⟨s, w⟩ { wire := w, main := main }
  | serving {s : St} {w : TcpWire} {req resp : SidePC} :
      LoopPC.served s.loopPC = true → ReqMirror s w req → RespMirror s resp →
      Mirrors ⟨s, w⟩ { wire := w, main := .started, req := req, resp := resp }
  | refused {s : St} {w : TcpWire} : Refused s →
      Mirrors ⟨s, w⟩
        { wire := w,
          main := if s.clientOpen then .closeClient else .returned }

theorem Sock.close_of_closed {s : Sock} (h : s.link = .closed) :
    s.close = s := by
  rw [Sock.close, h]

theorem closeClient_of_closed {w : TcpWire} (h : w.client.link = .closed) :
    tcpHalves.closeClient w = w := by
  change { w with client := w.client.close } = w
  rw [Sock.close_of_closed h]

/-- An action that neither dials nor closes anything. -/
theorem settle_id {s t : St} {a : Act} {w : TcpWire} (hsync : Synced ⟨s, w⟩)
    (hdial : dialOutcome s a = none) (hopen : t.clientOpen = s.clientOpen)
    (hcloses : closes s a = []) : settle s a t w = w := by
  unfold settle
  rw [hdial, hcloses, hopen]
  dsimp only
  rw [if_pos rfl]
  split
  · rfl
  · next h =>
      have hclosed : w.client.link = .closed := hsync.closed (by simpa using h)
      exact closeClient_of_closed hclosed

/-- The matching run for an action, with what it does to the sockets. -/
theorem follows {s t : St} {a : Act} {w w' : TcpWire} {d d' : Direct TcpWire}
    (hw : settle s a t w = w') (hrun : RunsDirect d d')
    (hm : Mirrors ⟨t, w'⟩ d') :
    ∃ d', RunsDirect d d' ∧ Mirrors ⟨t, settle s a t w⟩ d' :=
  ⟨d', hrun, by rw [hw]; exact hm⟩

/-- The matching run for an action that changes no socket and no counterpart. -/
theorem stays {s t : St} {a : Act} {w : TcpWire} {d : Direct TcpWire}
    (hsync : Synced ⟨s, w⟩) (hdial : dialOutcome s a = none)
    (hopen : t.clientOpen = s.clientOpen) (hcloses : closes s a = [])
    (hm : Mirrors ⟨t, w⟩ d) :
    ∃ d', RunsDirect d d' ∧ Mirrors ⟨t, settle s a t w⟩ d' :=
  follows (settle_id hsync hdial hopen hcloses) .refl hm

/-- An action that completes a dial. -/
theorem settle_dial {s t : St} {a : Act} {w : TcpWire} {ok : Bool}
    (hdial : dialOutcome s a = some ok) (hopen : t.clientOpen = true)
    (hcloses : closes s a = []) :
    settle s a t w = tcpHalves.dialled ok w := by
  unfold settle
  rw [hdial, hcloses, if_pos rfl, if_pos hopen]

theorem mirrors_refused {s : St} {w : TcpWire} (h : Refused s)
    (hopen : s.clientOpen = true) :
    Mirrors ⟨s, w⟩ { wire := w, main := .closeClient } := by
  have := Mirrors.refused (w := w) h
  rwa [hopen, if_pos rfl] at this

theorem early_move {s t : St} {a : Act} {w : TcpWire} {main : MainPC}
    (hc : ChanInv s) (hsync : Synced ⟨s, w⟩) (he : Early s main)
    (hcall : s.callPC = .recv) (hch : s.callCh = [])
    (hopen : s.clientOpen = true) (hgets : RoutedTcp.gets ⟨s, w⟩ a = true)
    (hm : Move c s a t) :
    ∃ d', RunsDirect { wire := w, main := main } d' ∧
      Mirrors ⟨t, settle s a t w⟩ d' := by
  have hclosed := hc.call
  have haddr := hc.addr
  cases he with
  | asks hreq hloop =>
    cases hm with
    | addr hreq' _ =>
      have hne := hc.sent _ _ _ hreq'
      rw [hreq] at hreq'
      cases hreq'
      exact stays hsync rfl rfl rfl
        (.early (.asked rfl rfl hne) hcall hch hopen)
    | noAddr hl h =>
      rw [haddr, hreq] at h
      cases h
    | _ => grind [RoutedTcp.gets]
  | asked hreq hloop hne =>
    cases hm with
    | take hl _ =>
      exact stays hsync
        (by rw [dialOutcome, hl]) rfl rfl
        (.early (.resolves hreq rfl) hcall hch hopen)
    | _ => grind [RoutedTcp.gets]
  | resolves hreq hloop =>
    cases hm with
    | resolved hl =>
      have hdial : dialOutcome s (.loop true) = none := by
        rw [dialOutcome, hl]; rfl
      exact follows (settle_id hsync hdial rfl rfl) (.single ⟨.main true, rfl⟩)
        (.early (.dials hreq rfl) hcall hch hopen)
    | unresolved hl =>
      have hdial : dialOutcome s (.loop false) = some false := by
        rw [dialOutcome, hl]; rfl
      exact follows (settle_dial hdial hopen rfl) (.single ⟨.main false, rfl⟩)
        (mirrors_refused ⟨.inl ⟨_, hreq, rfl, hopen⟩,
          (by rw [hcall]; simp), hch⟩ hopen)
    | _ => grind [RoutedTcp.gets]
  | dials hreq hloop =>
    cases hm with
    | dialled hl =>
      have hdial : dialOutcome s (.loop true) = some true := by
        rw [dialOutcome, hl]
      exact follows (settle_dial hdial hopen rfl) (.single ⟨.main true, rfl⟩)
        (.early (.dialled hreq rfl) hcall hch hopen)
    | undialled hl =>
      have hdial : dialOutcome s (.loop false) = some false := by
        rw [dialOutcome, hl]
      exact follows (settle_dial hdial hopen rfl) (.single ⟨.main false, rfl⟩)
        (mirrors_refused ⟨.inl ⟨_, hreq, rfl, hopen⟩,
          (by rw [hcall]; simp), hch⟩ hopen)
    | _ => grind [RoutedTcp.gets]
  | dialled hreq hloop =>
    cases hm with
    | given hreq' hl =>
      rw [hreq] at hreq'
      cases hreq'
      exact stays hsync rfl rfl rfl
        (.serving rfl (.copying rfl hopen) (.unqueued rfl hcall hch))
    | _ => grind [RoutedTcp.gets]

theorem ReqMirror.frame {s t : St} {w w' : TcpWire} {side : SidePC}
    (h : ReqMirror s w side) (hreq : t.reqPC = s.reqPC)
    (hopen : t.clientOpen = s.clientOpen) (hw : w'.req = w.req) :
    ReqMirror t w' side := by
  cases h with
  | copying hpc ho => exact .copying (hreq.trans hpc) (hopen.trans ho)
  | leaving hpc he ho =>
      exact .leaving (by rw [hreq]; exact hpc) (hw.trans he) (hopen.trans ho)
  | closing hpc ho => exact .closing (by rw [hreq]; exact hpc) (hopen.trans ho)
  | returned hpc ho => exact .returned (hreq.trans hpc) (hopen.trans ho)

theorem RespMirror.frame {s t : St} {side : SidePC} (h : RespMirror s side)
    (hpc : t.callPC = s.callPC) (hch : t.callCh = s.callCh)
    (hq : LoopPC.queueing t.loopPC = LoopPC.queueing s.loopPC) :
    RespMirror t side := by
  cases h with
  | unqueued h1 h2 h3 =>
      exact .unqueued (hq.trans h1) (hpc.trans h2) (hch.trans h3)
  | queued h1 h2 h3 => exact .queued (hq.trans h1) (hpc.trans h2) (hch.trans h3)
  | running h1 h2 h3 =>
      exact .running (hq.trans h1) (hpc.trans h2) (hch.trans h3)
  | done h1 h2 h3 =>
      exact .done (hq.trans h1) (by rw [hpc]; exact h2) (hch.trans h3)

theorem settle_closeTarget {s t : St} {a : Act} {w : TcpWire}
    (hsync : Synced ⟨s, w⟩) (hdial : dialOutcome s a = none)
    (hopen : t.clientOpen = s.clientOpen) (hcloses : closes s a ≠ []) :
    settle s a t w = tcpHalves.closeTarget w := by
  unfold settle
  rw [hdial, if_neg hcloses, hopen]
  dsimp only
  split
  · rfl
  · next h =>
      have hclosed : w.client.link = .closed := hsync.closed (by simpa using h)
      rw [closeClient_of_closed hclosed]

theorem settle_closes {s t : St} {a : Act} {w : TcpWire}
    (hdial : dialOutcome s a = none) (hopen : t.clientOpen = false)
    (hcloses : closes s a ≠ []) :
    settle s a t w = tcpHalves.closeTarget (tcpHalves.closeClient w) := by
  unfold settle
  rw [hdial, if_neg hcloses, hopen]
  rfl

/-- The request goroutine moves. -/
theorem serving_req {s t : St} {w : TcpWire} {req resp : SidePC}
    (hsync : Synced ⟨s, w⟩) (hl : LoopPC.served s.loopPC = true)
    (hreq : ReqMirror s w req) (hresp : RespMirror s resp)
    (hgets : RoutedTcp.gets ⟨s, w⟩ .req = true) (hm : Move c s .req t) :
    ∃ d', RunsDirect
      { wire := w, main := .started, req := req,
        resp := resp } d' ∧ Mirrors ⟨t, settle s .req t w⟩ d' := by
  cases hm with
  | write h => cases hreq <;> grind
  | copied h =>
    have hended : w.req = .ended := by
      simp only [RoutedTcp.gets, h] at hgets
      exact of_decide_eq_true hgets
    cases hreq with
    | copying _ ho =>
      exact stays hsync rfl rfl (by rw [closes, h])
        (.serving hl (.leaving (.inl rfl) hended ho) (hresp.frame rfl rfl rfl))
    | leaving hpc _ _ | closing hpc _ | returned hpc _ => grind
  | closeAddr h _ =>
    have hcloses : closes s .req = [] := by rw [closes, h]
    cases hreq with
    | leaving hpc he ho =>
      rcases hpc with hpc | hpc <;> (rw [h] at hpc; cases hpc)
      exact stays hsync rfl rfl hcloses
        (.serving hl (.leaving (.inr rfl) he ho) (hresp.frame rfl rfl rfl))
    | closing hpc ho =>
      rcases hpc with hpc | hpc <;> (rw [h] at hpc; cases hpc)
      exact stays hsync rfl rfl hcloses
        (.serving hl (.closing (.inr rfl) ho) (hresp.frame rfl rfl rfl))
    | copying hpc _ | returned hpc _ => grind
  | closeConns h =>
    cases hreq with
    | leaving hpc he ho =>
      rcases hpc with hpc | hpc <;> (rw [h] at hpc; cases hpc)
      have hfirst : directStep tcpHalves
          { wire := w, main := .started, req := .handler,
            resp := resp } .closeReq =
            some { wire := tcpHalves.closeClient w, main := .started,
                   req := .closing
                   resp := resp } := if_pos (decide_eq_true he)
      exact follows (settle_closes rfl rfl (by rw [closes, h]; simp))
        (.tail (.single ⟨.closeReq, hfirst⟩) ⟨.closeReq, rfl⟩)
        (.serving hl (.returned rfl rfl) (hresp.frame rfl rfl rfl))
    | closing hpc ho =>
      rcases hpc with hpc | hpc <;> (rw [h] at hpc; cases hpc)
      refine follows (settle_closes rfl rfl
        (by rw [closes, h]; simp)) (.single ⟨.closeReq, ?_⟩)
        (.serving hl (.returned rfl rfl) (hresp.frame rfl rfl rfl))
      rw [closeClient_of_closed (hsync.closed ho)]
      rfl
    | copying hpc _ | returned hpc _ => grind

/-- The loop moves. -/
theorem serving_loop {s t : St} {w : TcpWire} {req resp : SidePC} {ok : Bool}
    (hc : ChanInv s) (hsync : Synced ⟨s, w⟩)
    (hl : LoopPC.served s.loopPC = true) (hreq : ReqMirror s w req)
    (hresp : RespMirror s resp) (hm : Move c s (.loop ok) t) :
    ∃ d', RunsDirect
      { wire := w, main := .started, req := req,
        resp := resp } d' ∧ Mirrors ⟨t, settle s (.loop ok) t w⟩ d' := by
  cases hm with
  | noAddr h _ =>
    exact stays hsync (by rw [dialOutcome, h]) rfl rfl
      (.serving rfl (hreq.frame rfl rfl rfl)
        (hresp.frame rfl rfl (by rw [h]; rfl)))
  | leave h =>
    exact stays hsync (by rw [dialOutcome, h]) rfl rfl
      (.serving rfl (hreq.frame rfl rfl rfl)
        (hresp.frame rfl rfl (by rw [h]; rfl)))
  | take h ha =>
    rw [h] at hl
    exact absurd (of_decide_eq_true hl) ha
  | resolved h | unresolved h | dialled h | undialled h =>
    rw [h] at hl
    cases hl
  | addCall h =>
    exact stays hsync (by rw [dialOutcome, h]) rfl rfl
      (.serving rfl (hreq.frame rfl rfl rfl)
        (hresp.frame rfl rfl (by rw [h]; rfl)))
  | sendCall h _ =>
    have hq : LoopPC.queueing s.loopPC = true := by rw [h]; rfl
    cases hresp with
    | unqueued _ hpc hch =>
      exact stays hsync (by rw [dialOutcome, h]) rfl rfl
        (.serving rfl (hreq.frame rfl rfl rfl)
          (.queued rfl hpc (by dsimp only; rw [hch]; rfl)))
    | queued hf _ _ | running hf _ _ | done hf _ _ =>
      rw [hq] at hf
      cases hf
  | closeClient h =>
    have hdial : dialOutcome s (.loop ok) = none := by rw [dialOutcome, h]
    have hresp' := hresp.frame (t :=
      { s with clientOpen := false, loopPC := .closeConnCh }) rfl rfl
      (by rw [h]; rfl)
    have hset : settle s (.loop ok) { s with clientOpen := false, loopPC :=
      .closeConnCh } w =
        tcpHalves.closeClient w := by
      unfold settle
      rw [hdial]
      rfl
    cases hreq with
    | copying hpc _ =>
      have hturn := hc.turn
      rw [h, hpc] at hturn
      cases hturn
    | leaving hpc he _ =>
      refine follows hset (.single ⟨.closeReq, ?_⟩)
        (.serving rfl (.closing hpc rfl) hresp')
      exact if_pos (decide_eq_true he)
    | closing hpc ho =>
      rw [closeClient_of_closed (hsync.closed ho)] at hset
      exact follows hset .refl (.serving rfl (.closing hpc rfl) hresp')
    | returned hpc ho =>
      rw [closeClient_of_closed (hsync.closed ho)] at hset
      exact follows hset .refl (.serving rfl (.returned hpc rfl) hresp')
  | closeConnCh h =>
    exact stays hsync (by rw [dialOutcome, h]) rfl rfl
      (.serving rfl (hreq.frame rfl rfl rfl)
        (hresp.frame rfl rfl (by rw [h]; rfl)))
  | closeCallCh h =>
    exact stays hsync (by rw [dialOutcome, h]) rfl rfl
      (.serving rfl (hreq.frame rfl rfl rfl)
        (hresp.frame rfl rfl (by rw [h]; rfl)))

/-- The third goroutine moves. -/
theorem serving_call {s t : St} {w : TcpWire} {req resp : SidePC}
    (hc : ChanInv s) (hsync : Synced ⟨s, w⟩)
    (hl : LoopPC.served s.loopPC = true) (hreq : ReqMirror s w req)
    (hresp : RespMirror s resp) (hgets : RoutedTcp.gets ⟨s, w⟩ .call = true)
    (hm : Move c s .call t) :
    ∃ d', RunsDirect
      { wire := w, main := .started, req := req,
        resp := resp } d' ∧ Mirrors ⟨t, settle s .call t w⟩ d' := by
  cases hm with
  | start hpc hch =>
    have hcloses : closes s .call = [] := by rw [closes, hpc]
    cases hresp with
    | queued hq _ hch' =>
      rw [hch] at hch'
      cases hch'
      exact stays hsync rfl rfl hcloses
        (.serving hl (hreq.frame rfl rfl rfl) (.running hq rfl rfl))
    | unqueued _ _ hch' | running _ _ hch' | done _ _ hch' =>
      rw [hch] at hch'
      cases hch'
  | drained hpc hch hclosed =>
    have hcloses : closes s .call = [] := by rw [closes, hpc]
    rw [hc.call] at hclosed
    cases hresp with
    | done hq _ _ =>
      exact stays hsync rfl rfl hcloses
        (.serving hl (hreq.frame rfl rfl rfl) (.done hq (by simp) hch))
    | unqueued hq _ _ =>
      rw [eq_of_beq hclosed] at hq
      cases hq
    | queued _ _ hch' =>
      rw [hch] at hch'
      cases hch'
    | running _ hpc' _ =>
      rw [hpc] at hpc'
      cases hpc'
  | finish hpc =>
    have hended : tcpHalves.responded w = true := by
      simpa only [RoutedTcp.gets, hpc] using hgets
    have hset : settle s .call { s with callPC := .done } w =
        tcpHalves.closeTarget w :=
      settle_closeTarget hsync rfl rfl (by rw [closes, hpc]; simp)
    cases hresp with
    | running hq _ hch =>
      refine follows hset (.single ⟨.closeResp, ?_⟩)
        (.serving hl (hreq.frame rfl rfl rfl) (.done hq (by simp) hch))
      exact if_pos hended
    | unqueued _ hpc' _ | queued _ hpc' _ =>
      rw [hpc] at hpc'
      cases hpc'
    | done _ hpc' _ => exact absurd hpc (hpc' _)
  | next hpc =>
    have hcloses : closes s .call = [] := by rw [closes, hpc]
    cases hresp with
    | done hq _ hch =>
      exact stays hsync rfl rfl hcloses
        (.serving hl (hreq.frame rfl rfl rfl) (.done hq (by simp) hch))
    | unqueued _ hpc' _ | queued _ hpc' _ | running _ hpc' _ =>
      rw [hpc] at hpc'
      cases hpc'

/-- Somebody closes the client's connection, or finds it closed. -/
theorem refused_close {s t : St} {a : Act} {w : TcpWire} (hsync : Synced ⟨s, w⟩)
    (hdial : dialOutcome s a = none) (hopen : t.clientOpen = false)
    (hcloses : closes s a = []) (h : Refused t) :
    ∃ d', RunsDirect
      { wire := w,
        main := if s.clientOpen then .closeClient else .returned } d' ∧
      Mirrors ⟨t, settle s a t w⟩ d' := by
  have hset : settle s a t w = tcpHalves.closeClient w := by
    unfold settle
    rw [hdial, hopen, hcloses]
    rfl
  have hmirror : Mirrors ⟨t, tcpHalves.closeClient w⟩
      { wire := tcpHalves.closeClient w, main := .returned } := by
    have := Mirrors.refused (w := tcpHalves.closeClient w) h
    rwa [hopen, if_neg (by simp)] at this
  cases ho : s.clientOpen with
  | true => exact follows hset (.single ⟨.main true, rfl⟩) hmirror
  | false =>
    rw [closeClient_of_closed (hsync.closed ho)] at hset hmirror
    exact follows hset .refl hmirror

theorem refused_move {s t : St} {a : Act} {w : TcpWire} (hsync : Synced ⟨s, w⟩)
    (h : Refused s) (hgets : RoutedTcp.gets ⟨s, w⟩ a = true)
    (hm : Move c s a t) :
    ∃ d', RunsDirect
      { wire := w,
        main := if s.clientOpen then .closeClient else .returned } d' ∧
      Mirrors ⟨t, settle s a t w⟩ d' := by
  have hcall := h.call
  have hempty := h.empty
  have hpcs := h.pc
  cases hm with
  | refused _ _ =>
    exact stays hsync rfl rfl rfl
      (.refused ⟨.inr ⟨.inl rfl, .inl rfl⟩, hcall, hempty⟩)
  | @closeAddr w₀ hpc _ =>
    have hnone : w₀ = none ∧
        (s.loopPC = .closeClient ∨ LoopPC.closedClient s.loopPC = true ∧
          s.clientOpen = false) := by
      grind
    obtain ⟨rfl, hloop⟩ := hnone
    exact stays hsync rfl rfl (by rw [closes, hpc])
      (.refused ⟨.inr ⟨.inr (.inl rfl), hloop⟩, hcall, hempty⟩)
  | @closeConns w₀ hpc =>
    have hnone : w₀ = none ∧ (s.loopPC = .closeClient ∨
        LoopPC.closedClient s.loopPC = true) := by
      grind
    obtain ⟨rfl, hloop⟩ := hnone
    exact refused_close hsync rfl rfl (by rw [closes, hpc])
      ⟨.inr ⟨.inr (.inr ⟨rfl, rfl⟩), hloop.imp id fun hl => ⟨hl, rfl⟩⟩, hcall,
        hempty⟩
  | closeClient hl =>
    have hreq : s.reqPC = .closeAddr none ∨ s.reqPC = .closeConns none ∨
        s.reqPC = .returned := by
      grind
    exact refused_close hsync (by rw [dialOutcome, hl]) rfl rfl
      ⟨.inr ⟨hreq.imp id (.imp id fun hr => ⟨hr, rfl⟩), .inr ⟨rfl, rfl⟩⟩, hcall,
        hempty⟩
  | closeConnCh hl | closeCallCh hl =>
    have hreq : (s.reqPC = .closeAddr none ∨ s.reqPC = .closeConns none ∨
        s.reqPC = .returned ∧ s.clientOpen = false) ∧ s.clientOpen = false := by
      grind
    exact stays hsync (by rw [dialOutcome, hl]) rfl rfl
      (.refused ⟨.inr ⟨hreq.1, .inr ⟨rfl, hreq.2⟩⟩, hcall, hempty⟩)
  | drained hpc _ _ =>
    exact stays hsync rfl rfl
      (by rw [closes, hpc]) (.refused ⟨hpcs, (by simp), hempty⟩)
  | next hpc =>
    exact stays hsync rfl rfl
      (by rw [closes, hpc]) (.refused ⟨hpcs, (by simp), hempty⟩)
  | _ => grind [RoutedTcp.gets, LoopPC.closedClient]

theorem clientOpen_of_move {s t : St} {a : Act} (hm : Move c s a t)
    (h : t.clientOpen = true) :
    s.clientOpen = true := by
  cases hm <;> first | exact h | cases h

theorem settle_client (s : St) (a : Act) (t : St) (w : TcpWire) :
    (settle s a t w).client = if t.clientOpen then w.client
      else w.client.close := by
  unfold settle
  cases dialOutcome s a <;> cases t.clientOpen <;> (dsimp only; split <;> rfl)

theorem synced_act {s t : St} {a : Act} {w : TcpWire} (hsync : Synced ⟨s, w⟩)
    (hm : Move c s a t) :
    Synced ⟨t, settle s a t w⟩ := by
  unfold Synced at hsync ⊢
  dsimp only at hsync ⊢
  rw [settle_client]
  cases ht : t.clientOpen with
  | true =>
    rw [clientOpen_of_move hm ht] at hsync
    exact hsync
  | false =>
    simp only [Bool.false_eq_true, if_false]
    unfold Sock.close
    cases ho : s.clientOpen with
    | true =>
      rw [ho, if_pos rfl] at hsync
      rw [hsync]
    | false =>
      rw [ho, if_neg (by simp)] at hsync
      rw [hsync]
      exact hsync

theorem mirrors_act {s t : St} {a : Act} {w : TcpWire} {d : Direct TcpWire}
    (hc : ChanInv s) (hsync : Synced ⟨s, w⟩) (hd : Mirrors ⟨s, w⟩ d)
    (hgets : RoutedTcp.gets ⟨s, w⟩ a = true) (hm : Move c s a t) :
    ∃ d', RunsDirect d d' ∧ Mirrors ⟨t, settle s a t w⟩ d' := by
  cases hd with
  | early he hcall hch hopen =>
      exact early_move hc hsync he hcall hch hopen hgets hm
  | serving hl hreq hresp =>
    cases a with
    | req => exact serving_req hsync hl hreq hresp hgets hm
    | loop ok => exact serving_loop hc hsync hl hreq hresp hm
    | call => exact serving_call hc hsync hl hreq hresp hgets hm
    | addr =>
      cases hm with
      | addr hpc _ => cases hreq <;> grind
    | conn =>
      cases hm with
      | refused hpc _ => cases hreq <;> grind
      | given hpc _ => cases hreq <;> grind
    | parse _ | emit _ | setRoute _ _ | expire _ => cases hgets
  | refused h => exact refused_move hsync h hgets hm

/-- The sockets change and the goroutines do not. -/
theorem Mirrors.rewire {s : St} {w w' : TcpWire} {d : Direct TcpWire}
    (h : Mirrors ⟨s, w⟩ d) (hw : w'.req = w.req) :
    d.wire = w ∧ Mirrors ⟨s, w'⟩ { d with wire := w' } := by
  cases h with
  | early he hcall hch hopen => exact ⟨rfl, .early he hcall hch hopen⟩
  | serving hl hreq hresp =>
      exact ⟨rfl, .serving hl (hreq.frame rfl rfl hw) hresp⟩
  | refused h => exact ⟨rfl, .refused h⟩

theorem Mirrors.copying {s : St} {w : TcpWire} {d : Direct TcpWire}
    {k : Option Nat} {t : Nat} (h : Mirrors ⟨s, w⟩ d)
    (hpc : s.reqPC = .copy k t) :
    d.wire = w ∧ d.main = .started ∧ d.req = .handler ∧
      ∀ w', Mirrors ⟨s, w'⟩ { d with wire := w' } := by
  cases h with
  | early he _ _ _ => cases he <;> grind
  | refused h => have := h.pc; grind
  | serving hl hreq hresp =>
    cases hreq with
    | copying hpc' ho => exact ⟨rfl, rfl, rfl,
        fun w' => .serving hl (.copying hpc' ho) hresp⟩
    | leaving hpc' _ _ | closing hpc' _ | returned hpc' _ => grind

theorem Mirrors.responding {s : St} {w : TcpWire} {d : Direct TcpWire} {t : Nat}
    (h : Mirrors ⟨s, w⟩ d) (hpc : s.callPC = .run t) :
    d.main = .started ∧ d.resp = .handler := by
  cases h with
  | early _ hcall _ _ => grind
  | refused h => exact absurd hpc (h.call t)
  | serving hl hreq hresp =>
    cases hresp with
    | running _ _ _ => exact ⟨rfl, rfl⟩
    | unqueued _ hpc' _ | queued _ hpc' _ => grind
    | done _ hpc' _ => exact absurd hpc (hpc' t)

theorem Mirrors.emitted {s : St} {w : TcpWire} {d : Direct TcpWire}
    (h : Mirrors ⟨s, w⟩ d) (log : List (Nat × Bytes)) :
    Mirrors ⟨{ s with emitted := log }, w⟩ d := by
  cases h with
  | early he hcall hch hopen =>
    refine .early ?_ hcall hch hopen
    cases he with
    | asks h1 h2 => exact .asks h1 h2
    | asked h1 h2 h3 => exact .asked h1 h2 h3
    | resolves h1 h2 => exact .resolves h1 h2
    | dials h1 h2 => exact .dials h1 h2
    | dialled h1 h2 => exact .dialled h1 h2
  | serving hl hreq hresp =>
    exact .serving hl (hreq.frame rfl rfl rfl) (hresp.frame rfl rfl rfl)
  | refused h => exact .refused (s := { s with emitted := log }) ⟨h.pc, h.call,
      h.empty⟩

theorem synced_move {s t : RoutedTcp} (hc : ChanInv s.st) (hsync : Synced s)
    (h : TcpMove c s t) :
    Synced t := by
  cases h with
  | act _ hs => exact synced_act hsync (move_of_step hc hs)
  | peer hw =>
    rcases tcpPeer hw with ⟨_, _, _, hdeed, rfl⟩ | ⟨_, _, _, _, rfl⟩
    · exact (Sock.deed_frame hdeed).1.trans hsync
    · exact hsync
  | request _ hw =>
    obtain ⟨_, _, _, _, _, hstep, rfl⟩ := tcpRequest hw
    exact (copyStep_frame hstep).1.trans hsync
  | response _ hw | emits _ hw _ =>
    obtain ⟨_, _, _, _, _, hstep, rfl⟩ := tcpResponse hw
    exact (copyStep_frame hstep).2.2.2.1.trans hsync

theorem response_move {s : RoutedTcp} {d : Direct TcpWire} {a : TcpAct}
    {w : TcpWire} {t : Nat} (hd : Mirrors s d) (hpc : s.st.callPC = .run t)
    (hw : tcpHalves.response s.wire a = some w) :
    ∃ d', RunsDirect d d' ∧ Mirrors { s with wire := w } d' := by
  obtain ⟨_, _, _, _, _, _, hw'⟩ := tcpResponse hw
  obtain ⟨hmain, hresp⟩ := hd.responding hpc
  obtain ⟨hwire, hm⟩ := hd.rewire (show w.req = s.wire.req by rw [hw'])
  refine ⟨_, .single ⟨.response a, ?_⟩, hm⟩
  simp only [directStep, hmain, hresp, hwire, hw, Option.map_some]

/-- Every action in routing mode is matched without. -/
theorem mirrors_move {s t : RoutedTcp} {d : Direct TcpWire} (hc : ChanInv s.st)
    (hsync : Synced s) (hd : Mirrors s d) (h : TcpMove c s t) :
    ∃ d', RunsDirect d d' ∧ Mirrors t d' := by
  cases h with
  | act hgets hs => exact mirrors_act hc hsync hd hgets (move_of_step hc hs)
  | @peer a w hw =>
    have hreq : w.req = s.wire.req := by
      rcases tcpPeer hw with ⟨_, _, _, _, rfl⟩ | ⟨_, _, _, _, rfl⟩ <;> rfl
    obtain ⟨hwire, hm⟩ := hd.rewire hreq
    refine ⟨_, .single ⟨.peer a, ?_⟩, hm⟩
    rw [directStep, hwire, hw]
    rfl
  | @request a w k u hpc hw =>
    obtain ⟨hwire, hmain, hreq, hm⟩ := hd.copying hpc
    refine ⟨_, .single ⟨.request a, ?_⟩, hm w⟩
    simp only [directStep, hmain, hreq, hwire, hw, Option.map_some]
  | response hpc hw => exact response_move hd hpc hw
  | emits hpc hw _ =>
    obtain ⟨d', hrun, hm⟩ := response_move hd hpc hw
    exact ⟨d', hrun, hm.emitted _⟩

theorem mirrors_init (hproto : c.proto = .tcp) :
    Mirrors { st := init c } { wire := {} } := by
  unfold init
  rw [hproto]
  exact .early (.asks rfl rfl) rfl rfl rfl

theorem synced_init : Synced { st := init c } := by
  unfold init
  split <;> rfl

/-- The channel invariant, and sockets that go with the goroutines. -/
def Orderly (s : RoutedTcp) : Prop := ChanInv s.st ∧ Synced s

theorem orderly_step {s t : RoutedTcp} {a : RoutedTcpAct} (h : Orderly s)
    (ha : routedTcpStep c s a = some t) : Orderly t := by
  have hm := tcpMove_of_step ha
  refine ⟨?_, synced_move h.1 h.2 hm⟩
  cases hm with
  | act _ hs => exact chanInv_step h.1 hs
  | peer _ | request _ _ | response _ _ => exact h.1
  | @emits _ _ _ b hpc _ hopen =>
    exact chanInv_step h.1 (step_of_move (c := c) (a :=
      .emit b) h.1 (.emit hpc hopen))

theorem orderly_reaches {s t : RoutedTcp} (hs : Orderly s)
    (h : Reaches (Fires (routedTcpStep c)) s t) : Orderly t :=
  Reaches.invariant (fun _ _ hu ⟨_, ha⟩ => orderly_step hu ha) hs h

theorem orderly_init : Orderly { st := init c } := ⟨chanInv_init, synced_init⟩

/-- Whatever the peers may see with routing they may see without. -/
theorem direct_of_routed (hproto : c.proto = .tcp) {s : RoutedTcp}
    (h : Reaches (Fires (routedTcpStep c)) { st := init c } s) :
    ∃ d, RunsDirect { wire := {} } d ∧ Mirrors s d := by
  induction h with
  | refl => exact ⟨_, .refl, mirrors_init hproto⟩
  | tail hr hstep ih =>
    obtain ⟨a, ha⟩ := hstep
    obtain ⟨d, hrun, hd⟩ := ih
    obtain ⟨hc, hsync⟩ := orderly_reaches orderly_init hr
    obtain ⟨d', hrun', hd'⟩ := mirrors_move hc hsync hd (tcpMove_of_step ha)
    exact ⟨d', hrun.trans hrun', hd'⟩

end Netramesh.Proofs
