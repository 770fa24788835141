import Netramesh.Proofs.Mirror

/-!
# TCP with and without routing

What a pair of peers sees without routing it may see with routing, as long as
`TcpCopyResponse` closes the client only when `HandleRequest` has returned.

Here routing mode hurries through its channels: it is always where the next
action without routing needs it. The loop, which learns from the closed channel
that the request goroutine has left, stands ready to close the client for
whoever is to do it.
-/

namespace Netramesh.Proofs

open Http Protocol Transport Lib

variable {c : Conf}

/-- `TcpCopyResponse` closes the client only when `HandleRequest` has
returned. -/
def Lingers (d : Direct TcpWire) : DirectAct TcpAct → Prop
  | .closeResp => d.resp = .closing → tcpHalves.requested d.wire = true
  | _ => True

abbrev RunsRouted (c : Conf) : RoutedTcp → RoutedTcp → Prop :=
  Reaches (Fires (routedTcpStep c))

inductive ReqShadow (s : St) (w : TcpWire) : SidePC → Prop
  | copying {k t : Nat} : s.reqPC = .copy (some k) t → s.loopPC = .recvAddr →
      s.clientOpen = true → w.req ≠ .ended → ReqShadow s w .handler
  | ended {t : Nat} : s.reqPC = .closeConns (some t) → s.loopPC = .closeClient →
      s.clientOpen = true → w.req = .ended → ReqShadow s w .handler
  /-- `TcpCopyResponse` was faster. -/
  | beaten {t : Nat} : s.reqPC = .closeConns (some t) → s.clientOpen = false →
      w.req = .ended → ReqShadow s w .handler
  | closing {t : Nat} : s.reqPC = .closeConns (some t) → s.clientOpen = false →
      w.req = .ended → ReqShadow s w .closing
  | returned : s.clientOpen = false → w.req = .ended → ReqShadow s w .returned

inductive RespShadow (s : St) : SidePC → Prop
  | running {t : Nat} : s.callPC = .run t → RespShadow s .handler
  | done {side : SidePC} : side ≠ .handler → RespShadow s side

inductive Shadows : Direct TcpWire → RoutedTcp → Prop
  | resolving {s : St} {w : TcpWire} {k : Nat} {a : Bytes} : s.reqPC =
      .recvConn k true →
      s.loopPC = .resolve a → s.callPC = .recv → s.callCh = [] →
        s.clientOpen = true →
      w.req ≠ .ended → Shadows { wire := w } ⟨s, w⟩
  | dialling {s : St} {w : TcpWire} {k : Nat} {a : Bytes} : s.reqPC =
      .recvConn k true → s.loopPC = .dial a → s.callPC = .recv → s.callCh = [] →
        s.clientOpen = true →
      w.req ≠ .ended → Shadows { wire := w, main := .dial } ⟨s, w⟩
  | refused {s : St} {w : TcpWire} : s.loopPC = .closeClient →
      Shadows { wire := w, main := .closeClient } ⟨s, w⟩
  | closed {s : St} {w : TcpWire} :
      Shadows { wire := w, main := .returned } ⟨s, w⟩
  | serving {s : St} {w : TcpWire} {req resp : SidePC} : ReqShadow s w req →
      RespShadow s resp →
      Shadows { wire := w, main := .started, req := req, resp := resp } ⟨s, w⟩

/-- An action of routing mode. -/
theorem routed_act {s t : St} {a : Act} {w w' : TcpWire} (hs : Orderly ⟨s, w⟩)
    (hgets : RoutedTcp.gets ⟨s, w⟩ a = true) (hm : Move c s a t)
    (hw : settle s a t w = w') :
    RunsRouted c ⟨s, w⟩ ⟨t, w'⟩ ∧ Orderly ⟨t, w'⟩ := by
  have hstep : routedTcpStep c ⟨s, w⟩ (.act a) = some ⟨t, w'⟩ := by
    rw [routedTcpStep, if_pos hgets, step_of_move hs.1 hm, Option.map_some, hw]
  exact ⟨.single ⟨.act a, hstep⟩, orderly_step hs hstep⟩

/-- The request goroutine leaves its copy and closes `addrCh`, and the loop
follows it to the closing of the client. -/
theorem leaves_copy {s : St} {w : TcpWire} {k t : Nat} (hs : Orderly ⟨s, w⟩)
    (hreq : s.reqPC = .copy (some k) t) (hloop : s.loopPC = .recvAddr)
    (hended : w.req = .ended) :
    ∃ s', RunsRouted c ⟨s, w⟩ ⟨s', w⟩ ∧ s'.reqPC = .closeConns (some t) ∧
      s'.loopPC = .closeClient ∧ s'.callPC = s.callPC ∧
        s'.clientOpen = s.clientOpen := by
  have hgets : RoutedTcp.gets ⟨s, w⟩ .req = true := by
    simp only [RoutedTcp.gets, hreq]
    exact decide_eq_true hended
  obtain ⟨h1, hs1⟩ := routed_act (c := c) hs hgets (.copied hreq)
    (settle_id hs.2 rfl rfl (by rw [closes, hreq]))
  have haddr := hs1.1.addr
  obtain ⟨h2, hs2⟩ := routed_act (c := c) (w :=
    w) hs1 rfl (.closeAddr rfl haddr)
    (settle_id hs1.2 rfl rfl rfl)
  obtain ⟨h3, hs3⟩ := routed_act (c := c) (a := .loop true) (w := w) hs2 rfl
    (.noAddr hloop rfl) (settle_id hs2.2
      (by simp only [dialOutcome, hloop]) rfl rfl)
  obtain ⟨h4, _⟩ := routed_act (c := c) (a := .loop true) (w :=
    w) hs3 rfl (.leave rfl)
    (settle_id hs3.2 rfl rfl rfl)
  exact ⟨_, ((h1.trans h2).trans h3).trans h4, rfl, rfl, rfl, rfl⟩

/-- The address is resolved and dialled, the request goroutine gets its
connection and the response routine is started. -/
theorem takes_target {s : St} {w : TcpWire} {k : Nat} {a : Bytes}
    (hs : Orderly ⟨s, w⟩) (hreq : s.reqPC = .recvConn k true)
    (hloop : s.loopPC = .dial a) (hcall : s.callPC = .recv)
    (hch : s.callCh = []) (hopen : s.clientOpen = true) :
    ∃ s' t, RunsRouted c ⟨s, w⟩ ⟨s', tcpHalves.dialled true w⟩ ∧
      s'.reqPC = .copy (some k) t ∧
      s'.loopPC = .recvAddr ∧ s'.callPC = .run t ∧ s'.clientOpen = true := by
  obtain ⟨h1, hs1⟩ := routed_act (c := c) hs rfl (.dialled hloop)
    (settle_dial (by rw [dialOutcome, hloop]) hopen rfl)
  obtain ⟨h2, hs2⟩ := routed_act (c := c) hs1 rfl (.given hreq rfl)
    (settle_id hs1.2 rfl rfl rfl)
  obtain ⟨h3, hs3⟩ := routed_act (c := c) (a :=
    .loop true) hs2 rfl (.addCall rfl)
    (settle_id hs2.2 rfl rfl rfl)
  obtain ⟨h4, hs4⟩ := routed_act (c := c) (a := .loop true) hs3 rfl
    (.sendCall rfl (by dsimp only; rw [hch]; decide))
      (settle_id hs3.2 rfl rfl rfl)
  have hqueue : s.callCh ++ [s.dialled.length] = s.dialled.length :: [] := by
    rw [hch]; rfl
  obtain ⟨h5, _⟩ := routed_act (c := c) (a :=
    .call) hs4 (by simp only [RoutedTcp.gets, hcall])
    (.start hcall hqueue) (settle_id hs4.2 rfl rfl
      (by simp only [closes, hcall]))
  exact ⟨_, _, (((h1.trans h2).trans h3).trans h4).trans h5, rfl, rfl, rfl,
    hopen⟩

/-- The loop refuses, and stands before the closing of the client. -/
theorem takes_none {s : St} {w w' : TcpWire} {k : Nat} (hs : Orderly ⟨s, w⟩)
    (hreq : s.reqPC = .recvConn k true) {t : St}
    (ht : t = { s with loopPC := .sendConn none })
    (hm : Move c s (.loop false) t) (hw : settle s (.loop false) t w = w') :
    ∃ s', RunsRouted c ⟨s, w⟩ ⟨s', w'⟩ ∧ s'.loopPC = .closeClient := by
  subst ht
  obtain ⟨h1, hs1⟩ := routed_act (c := c) hs rfl hm hw
  obtain ⟨h2, _⟩ := routed_act (c := c) hs1 rfl (.refused hreq rfl)
    (settle_id hs1.2 rfl rfl rfl)
  exact ⟨_, h1.trans h2, rfl⟩

/-- The loop closes the client. -/
theorem loop_closes {s : St} {w : TcpWire} (hs : Orderly ⟨s, w⟩)
    (hloop : s.loopPC = .closeClient) :
    RunsRouted c ⟨s, w⟩
      ⟨{ s with clientOpen := false, loopPC := .closeConnCh },
        tcpHalves.closeClient w⟩ := by
  refine (routed_act (c := c) (a := .loop true) hs rfl
    (.closeClient hloop) ?_).1
  unfold settle
  simp only [dialOutcome, hloop]
  rfl

theorem ReqShadow.frame {s t : St} {w w' : TcpWire} {side : SidePC}
    (h : ReqShadow s w side) (hreq : t.reqPC = s.reqPC)
    (hloop : t.loopPC = s.loopPC) (hopen : t.clientOpen = s.clientOpen)
    (hw : w'.req = w.req) : ReqShadow t w' side := by
  cases h with
  | copying h1 h2 h3 h4 =>
    exact .copying (hreq.trans h1) (hloop.trans h2) (hopen.trans h3)
      (by rw [hw]; exact h4)
  | ended h1 h2 h3 h4 =>
    exact .ended (hreq.trans h1) (hloop.trans h2) (hopen.trans h3) (hw.trans h4)
  | beaten h1 h2 h3 =>
      exact .beaten (hreq.trans h1) (hopen.trans h2) (hw.trans h3)
  | closing h1 h2 h3 =>
      exact .closing (hreq.trans h1) (hopen.trans h2) (hw.trans h3)
  | returned h1 h2 => exact .returned (hopen.trans h1) (hw.trans h2)

theorem RespShadow.frame {s t : St} {side : SidePC} (h : RespShadow s side)
    (hpc : t.callPC = s.callPC) : RespShadow t side := by
  cases h with
  | running h => exact .running (hpc.trans h)
  | done h => exact .done h

/-- The sockets change by what a peer does. -/
theorem Shadows.peer {s : RoutedTcp} {d : Direct TcpWire} {w : TcpWire}
    (h : Shadows d s) (hw : w.req = s.wire.req) :
    d.wire = s.wire ∧ Shadows { d with wire := w } { s with wire := w } := by
  cases h with
  | resolving h1 h2 h3 h4 h5 h6 =>
    exact ⟨rfl, .resolving h1 h2 h3 h4 h5 (by rw [hw]; exact h6)⟩
  | dialling h1 h2 h3 h4 h5 h6 =>
      exact ⟨rfl, .dialling h1 h2 h3 h4 h5 (by rw [hw]; exact h6)⟩
  | refused h => exact ⟨rfl, .refused h⟩
  | closed => exact ⟨rfl, .closed⟩
  | serving hreq hresp => exact ⟨rfl,
      .serving (hreq.frame rfl rfl rfl hw) hresp⟩

/-- An action of the request copy. -/
theorem shadows_request {s : St} {w w' : TcpWire} {a : TcpAct} {resp : SidePC}
    (hs : Orderly ⟨s, w⟩) (hreq : ReqShadow s w .handler)
    (hresp : RespShadow s resp) (hw : tcpHalves.request w a = some w') :
    ∃ s', RunsRouted c ⟨s, w⟩ s' ∧
      Shadows { wire := w', main := .started, req := .handler,
                resp := resp } s' := by
  cases hreq with
  | @copying k t hpc hloop hopen _ =>
    have hstep : routedTcpStep c ⟨s, w⟩ (.request a) = some ⟨s, w'⟩ := by
      simp only [routedTcpStep, hpc, hw, Option.map_some]
    have hrun : RunsRouted c ⟨s, w⟩ ⟨s, w'⟩ := .single ⟨_, hstep⟩
    by_cases hended : w'.req = .ended
    · obtain ⟨s', hrun', h1, h2, h3, h4⟩ :=
        leaves_copy (c := c) (orderly_step hs hstep) hpc hloop hended
      exact ⟨_, hrun.trans hrun',
        .serving (.ended h1 h2 (h4.trans hopen) hended) (hresp.frame h3)⟩
    · exact ⟨_, hrun, .serving (.copying hpc hloop hopen hended) hresp⟩
  | ended _ _ _ he | beaten _ _ he =>
    obtain ⟨_, _, _, _, _, hcopy, _⟩ := tcpRequest hw
    rw [he] at hcopy
    cases hcopy

/-- An action of the response copy. -/
theorem routed_response {s : St} {w w' : TcpWire} {a : TcpAct} {t : Nat}
    (hs : Orderly ⟨s, w⟩) (hpc : s.callPC = .run t)
    (hw : tcpHalves.response w a = some w') :
    ∃ log, RunsRouted c ⟨s, w⟩ ⟨{ s with emitted := log }, w'⟩ := by
  cases he : emits w w' with
  | none =>
    have hstep : routedTcpStep c ⟨s, w⟩ (.response a) = some ⟨s, w'⟩ := by
      simp only [routedTcpStep, hpc, hw, he]
    exact ⟨s.emitted, .single ⟨_, hstep⟩⟩
  | some b =>
    have hopen : s.clientOpen = true := by
      obtain ⟨k, fail, pc, u, v, hcopy, hw'⟩ := tcpResponse hw
      have hlive : w.client.link = .live := by
        unfold emits at he
        split at he
        · next b' h1 h2 =>
            rw [hw'] at h2
            dsimp only at h2
            rw [h1, h2] at hcopy
            cases copyMove_of_step hcopy with
            | lost hlive _ | wrote hlive _ => exact hlive
        · cases he
      have hsync := hs.2
      unfold Synced at hsync
      dsimp only at hsync
      rw [hlive] at hsync
      cases hc : s.clientOpen with
      | true => rfl
      | false =>
        rw [hc] at hsync
        cases hsync
    refine ⟨s.emitted ++ [(t, b)], .single ⟨.response a, ?_⟩⟩
    simp only [routedTcpStep, hpc, hw, he, emit, hopen, if_true,
      Option.map_some]

/-- Every action without routing is matched in routing mode, if
`TcpCopyResponse` lingers. -/
theorem shadows_move {s : RoutedTcp} {d d' : Direct TcpWire}
    {a : DirectAct TcpAct} (hs : Orderly s) (h : Shadows d s) (hl : Lingers d a)
    (hm : DirectMove tcpHalves d a d') :
    ∃ s', RunsRouted c s s' ∧ Shadows d' s' := by
  cases hm with
  | @peer a w hw =>
    have hreq : w.req = d.wire.req := by
      rcases tcpPeer hw with ⟨_, _, _, _, rfl⟩ | ⟨_, _, _, _, rfl⟩ <;> rfl
    have hwire : d.wire = s.wire := by cases h <;> rfl
    rw [hwire] at hw hreq
    refine ⟨_, .single ⟨.peer a, ?_⟩, (h.peer hreq).2⟩
    rw [routedTcpStep, hw]
    rfl
  | resolved hmain =>
    cases h with
    | resolving h1 h2 h3 h4 h5 h6 =>
      refine ⟨_,
        (routed_act hs rfl (.resolved h2) (settle_id hs.2 ?_ rfl rfl)).1,
        .dialling h1 rfl h3 h4 h5 h6⟩
      rw [dialOutcome, h2]
      rfl
    | dialling | refused _ | closed | serving _ _ => cases hmain
  | unresolved hmain =>
    cases h with
    | resolving h1 h2 h3 h4 h5 h6 =>
      obtain ⟨s', hrun, hloop⟩ := takes_none hs h1 rfl (.unresolved h2)
        (settle_dial (by rw [dialOutcome, h2]; rfl) h5 rfl)
      exact ⟨_, hrun, .refused hloop⟩
    | dialling | refused _ | closed | serving _ _ => cases hmain
  | dialled hmain =>
    cases h with
    | dialling h1 h2 h3 h4 h5 h6 =>
      obtain ⟨s', t, hrun, g1, g2, g3, g4⟩ :=
        takes_target (c := c) hs h1 h2 h3 h4 h5
      exact ⟨_, hrun, .serving (.copying g1 g2 g4 h6) (.running g3)⟩
    | resolving | refused _ | closed | serving _ _ => cases hmain
  | undialled hmain =>
    cases h with
    | dialling h1 h2 h3 h4 h5 h6 =>
      obtain ⟨s', hrun, hloop⟩ := takes_none hs h1 rfl (.undialled h2)
        (settle_dial (by rw [dialOutcome, h2]) h5 rfl)
      exact ⟨_, hrun, .refused hloop⟩
    | resolving | refused _ | closed | serving _ _ => cases hmain
  | refuse hmain =>
    cases h with
    | refused hloop => exact ⟨_, loop_closes hs hloop, .closed⟩
    | resolving | dialling | closed | serving _ _ => cases hmain
  | @request a w hmain hreq hw =>
    cases h with
    | serving hr hresp =>
      dsimp only at hreq
      subst hreq
      exact shadows_request hs hr hresp hw
    | resolving | dialling | refused _ | closed => cases hmain
  | @response a w hmain hresp hw =>
    cases h with
    | serving hr hp =>
      dsimp only at hresp
      subst hresp
      cases hp with
      | running hpc =>
        obtain ⟨log, hrun⟩ := routed_response (c := c) hs hpc hw
        obtain ⟨_, _, _, _, _, _, rfl⟩ := tcpResponse hw
        exact ⟨_, hrun, .serving (hr.frame rfl rfl rfl rfl) (.running hpc)⟩
      | done hne => exact absurd rfl hne
    | resolving | dialling | refused _ | closed => cases hmain
  | closeReq hmain hreq hdone =>
    cases h with
    | serving hr hp =>
      dsimp only at hreq
      subst hreq
      cases hr with
      | copying _ _ _ hne => exact absurd (of_decide_eq_true hdone) hne
      | ended h1 h2 h3 h4 =>
        exact ⟨_, loop_closes hs h2,
          .serving (.closing h1 rfl h4) (hp.frame rfl)⟩
      | beaten h1 h2 h3 =>
        refine ⟨_, .refl, ?_⟩
        dsimp only
        rw [closeClient_of_closed (hs.2.closed h2)]
        exact .serving (.closing h1 h2 h3) hp
    | resolving | dialling | refused _ | closed => cases hmain
  | closedReq hmain hreq =>
    cases h with
    | serving hr hp =>
      dsimp only at hreq
      subst hreq
      cases hr with
      | closing h1 h2 h3 =>
        refine ⟨_,
          (routed_act (a := .req) hs
          (by simp only [RoutedTcp.gets, h1]) (.closeConns h1)
          (settle_closes rfl rfl (by rw [closes, h1]; simp))).1, ?_⟩
        rw [closeClient_of_closed (hs.2.closed h2)]
        exact .serving (.returned rfl h3) (hp.frame rfl)
    | resolving | dialling | refused _ | closed => cases hmain
  | closeResp hmain hresp hdone =>
    cases h with
    | serving hr hp =>
      dsimp only at hresp
      subst hresp
      cases hp with
      | running hpc =>
        refine ⟨_,
          (routed_act (a := .call) hs
          (by simpa only [RoutedTcp.gets, hpc] using hdone)
          (.finish hpc) (settle_closeTarget hs.2 rfl rfl
            (by rw [closes, hpc]; simp))).1, ?_⟩
        exact .serving (hr.frame rfl rfl rfl rfl) (.done (by simp))
      | done hne => exact absurd rfl hne
    | resolving | dialling | refused _ | closed => cases hmain
  | closedResp hmain hresp =>
    cases h with
    | serving hr hp =>
      have hdone : _ = CopyPC.ended := of_decide_eq_true (hl hresp)
      dsimp only at hdone
      cases hr with
      | copying _ _ _ hne => exact absurd hdone hne
      | ended h1 h2 h3 h4 =>
        exact ⟨_, loop_closes hs h2,
          .serving (.beaten h1 rfl h4) (.done (by simp))⟩
      | beaten h1 h2 h3 =>
        refine ⟨_, .refl, ?_⟩
        dsimp only
        rw [closeClient_of_closed (hs.2.closed h2)]
        exact .serving (.beaten h1 h2 h3) (.done (by simp))
      | closing h1 h2 h3 =>
        refine ⟨_, .refl, ?_⟩
        dsimp only
        rw [closeClient_of_closed (hs.2.closed h2)]
        exact .serving (.closing h1 h2 h3) (.done (by simp))
      | returned h1 h2 =>
        refine ⟨_, .refl, ?_⟩
        dsimp only
        rw [closeClient_of_closed (hs.2.closed h1)]
        exact .serving (.returned h1 h2) (.done (by simp))
    | resolving | dialling | refused _ | closed => cases hmain

theorem shadows_init (hproto : c.proto = .tcp) :
    ∃ s, RunsRouted c { st := init c } s ∧ Shadows { wire := {} } s := by
  have horderly : Orderly { st := init c } := orderly_init
  have hreq : (init c).reqPC = .sendAddr 0 true c.originalDst := by
    rw [init, hproto]
  have hloop : (init c).loopPC = .recvAddr := by rw [init, hproto]
  have hrest : (init c).callPC = .recv ∧ (init c).callCh = [] ∧
      (init c).clientOpen = true := by
    rw [init, hproto]
    exact ⟨rfl, rfl, rfl⟩
  obtain ⟨h1, hs1⟩ := routed_act (c := c) horderly rfl (.addr hreq hloop)
    (settle_id horderly.2 rfl rfl rfl)
  obtain ⟨h2, _⟩ := routed_act (c := c) (a :=
    .loop true) hs1 rfl (.take rfl c.originalDst_ne)
    (settle_id hs1.2 rfl rfl rfl)
  exact ⟨_, h1.trans h2, .resolving rfl rfl hrest.1 hrest.2.1 hrest.2.2
    (by simp)⟩

/-- Whatever the peers may see without routing, as long as `TcpCopyResponse`
lingers, they may see with routing. -/
theorem routed_of_direct (hproto : c.proto = .tcp) {d : Direct TcpWire}
    (h : Reaches (FiresIf (directStep tcpHalves) Lingers) { wire := {} } d) :
    ∃ s, RunsRouted c { st := init c } s ∧ Shadows d s := by
  induction h with
  | refl => exact shadows_init hproto
  | tail _ hstep ih =>
    obtain ⟨a, ha, hl⟩ := hstep
    obtain ⟨s, hrun, hsh⟩ := ih
    obtain ⟨s', hrun', hsh'⟩ :=
      shadows_move (c := c) (orderly_reaches orderly_init hrun) hsh hl
        (directMove_of_step ha)
    exact ⟨s', hrun.trans hrun', hsh'⟩

/-- For every TCP connection: what the client and the target do and see in some
run with routing enabled they do and see in some run with routing disabled; and
what they do and see with routing disabled, in a run in which `TcpCopyResponse`
closes the client only when `HandleRequest` has returned, they do and see in
some run with routing enabled. -/
theorem tcp_modes_agree (hproto : c.proto = .tcp) :
    (∀ s, Reaches (Fires (routedTcpStep c)) { st := init c } s →
      ∃ d, Reaches (Fires (directStep tcpHalves)) { wire := {} } d ∧
        logs d.wire = logs s.wire) ∧
    ∀ d, Reaches (FiresIf (directStep tcpHalves) Lingers) { wire := {} } d →
      ∃ s, Reaches (Fires (routedTcpStep c)) { st := init c } s ∧
        logs s.wire = logs d.wire := by
  constructor
  · intro s h
    obtain ⟨d, hrun, hd⟩ := direct_of_routed hproto h
    refine ⟨d, hrun, ?_⟩
    cases hd <;> rfl
  · intro d h
    obtain ⟨s, hrun, hs⟩ := routed_of_direct hproto h
    refine ⟨s, hrun, ?_⟩
    cases hs <;> rfl

/-! ## A silent client

The target ends its stream while the client says nothing. Without routing the
client's connection is closed; with routing it stays open. -/

/-- The client has done nothing, and the target was not refused. -/
def Idle (w : TcpWire) : Prop :=
  (∀ e ∈ w.client.log, e ≠ .ended ∧ e ≠ .left ∧ ∀ b, e ≠ .sent b) ∧
    .refused ∉ w.target.log

/-- The request goroutine waits for the client's first byte, and nobody has
closed the client's connection. -/
structure Untouched (s : RoutedTcp) : Prop where
  isOpen : s.st.clientOpen = true
  pending : s.wire.client.pending = []
  ended : s.wire.client.ended = false
  unclosed : .closed ∉ s.wire.client.log
  req : s.wire.req = .read
  stays : ReqPC.leaving s.st.reqPC = false
  given : s.st.loopPC ≠ .sendConn none

theorem untouched_init (hproto : c.proto = .tcp) :
    Untouched { st := init c } := by
  unfold init
  rw [hproto]
  exact ⟨rfl, rfl, rfl, by simp, rfl, rfl, by simp⟩

theorem settle_req (s : St) (a : Act) (t : St) (w : TcpWire) :
    (settle s a t w).req = w.req := by
  unfold settle
  cases dialOutcome s a <;> cases t.clientOpen <;> (dsimp only; split <;> rfl)

/-- A dial that fails is seen. -/
theorem refused_of_settle {s t : St} {a : Act} {w : TcpWire}
    (h : dialOutcome s a = some false) :
    .refused ∈ (settle s a t w).target.log := by
  have hmem : Event.refused ∈ (w.target.dial false).log := by simp [Sock.dial]
  have hclose : Event.refused ∈ (w.target.dial false).close.log := by
    unfold Sock.close
    split
    · split
      · exact hmem
      · exact List.mem_append_left _ hmem
    · exact hmem
  unfold settle
  rw [h]
  cases t.clientOpen <;> (dsimp only; split
    <;> first | exact hmem | exact hclose)

/-- What a peer does is in its log. -/
theorem deed_seen {s s' : Sock} {d : Deed} (h : s.deed d = some s') :
    ¬ ∀ e ∈ s'.log, e ≠ .ended ∧ e ≠ .left ∧ ∀ b, e ≠ .sent b := by
  intro hall
  cases d with
  | send b =>
    simp only [Sock.deed] at h
    split at h <;> cases h
    exact (hall (.sent b) (by simp)).2.2 b rfl
  | finish =>
    simp only [Sock.deed] at h
    split at h <;> cases h
    exact (hall .ended (by simp)).1 rfl
  | leave =>
    simp only [Sock.deed] at h
    split at h <;> cases h
    exact (hall .left (by simp)).2.1 rfl

theorem Untouched.act {s t : St} {a : Act} {w : TcpWire} (h : Untouched ⟨s, w⟩)
    (hopen : t.clientOpen = true) (hstays : ReqPC.leaving t.reqPC = false)
    (hgiven : t.loopPC ≠ .sendConn none) : Untouched ⟨t, settle s a t w⟩ := by
  have hclient : (settle s a t w).client = w.client := by
    rw [settle_client, hopen, if_pos rfl]
  exact ⟨hopen, by rw [hclient]; exact h.pending, by
    rw [hclient]; exact h.ended,
    by rw [hclient]; exact h.unclosed, (settle_req _ _ _ _).trans h.req, hstays,
      hgiven⟩

theorem untouched_act {s t : St} {a : Act} {w : TcpWire} (hc : ChanInv s)
    (h : Untouched ⟨s, w⟩) (hgets : RoutedTcp.gets ⟨s, w⟩ a = true)
    (hm : Move c s a t) (hidle : Idle (settle s a t w)) :
    Untouched ⟨t, settle s a t w⟩ := by
  have hopen := h.isOpen
  have hstays := h.stays
  have hgiven := h.given
  have hturn := hc.turn
  cases hm with
  | ended _ | failedFirst _ | failed _ | request _ | emit _ _ | setRoute
      | expire => cases hgets
  | write hpc => exact h.act hopen rfl hgiven
  | copied hpc =>
    simp only [RoutedTcp.gets, hpc] at hgets
    have hended : w.req = .ended := of_decide_eq_true hgets
    rw [h.req] at hended
    cases hended
  | closeAddr hpc _ | closeConns hpc =>
    dsimp only at hstays
    rw [hpc] at hstays
    cases hstays
  | addr _ _ => exact h.act hopen rfl (by simp)
  | refused _ hl => exact absurd hl hgiven
  | given _ hl =>
    refine h.act hopen ?_ (by simp)
    dsimp only
    split <;> rfl
  | noAddr _ haddr =>
    rw [hc.addr] at haddr
    rw [ReqPC.leaving_of_closed haddr] at hstays
    cases hstays
  | leave hl =>
    rw [hl] at hturn
    rw [ReqPC.leaving_of_closed hturn] at hstays
    cases hstays
  | take _ _ => exact h.act hopen hstays (by simp)
  | resolved _ => exact h.act hopen hstays (by simp)
  | unresolved hl | undialled hl =>
    exact absurd (refused_of_settle (by simp [dialOutcome, hl])) hidle.2
  | dialled _ => exact h.act hopen hstays (by simp)
  | addCall _ => exact h.act hopen hstays (by simp)
  | sendCall _ _ => exact h.act hopen hstays (by simp)
  | closeClient hl | closeConnCh hl | closeCallCh hl =>
    rw [hl] at hturn
    rw [show ReqPC.leaving s.reqPC = true from hturn] at hstays
    cases hstays
  | start _ _ => exact h.act hopen hstays hgiven
  | drained _ _ _ => exact h.act hopen hstays hgiven
  | finish _ => exact h.act hopen hstays hgiven
  | next _ => exact h.act hopen hstays hgiven

/-- The response copy leaves a client that has done nothing as it is. -/
theorem Untouched.responds {s : RoutedTcp} {a : TcpAct} {w : TcpWire}
    (h : Untouched s) (hw : tcpHalves.response s.wire a = some w) :
    w.client.pending = [] ∧ w.client.ended = false ∧ .closed ∉ w.client.log ∧
      w.req = .read := by
  obtain ⟨k, fail, pc, u, v, hcopy, rfl⟩ := tcpResponse hw
  obtain ⟨_, _, _, _, _, he, hp, _⟩ := copyStep_frame hcopy
  refine ⟨hp.trans h.pending, he.trans h.ended, ?_, h.req⟩
  have hunclosed := h.unclosed
  generalize s.wire.resp = pc₀ at hcopy
  cases copyMove_of_step hcopy with
  | wrote _ _ => simpa using hunclosed
  | _ => exact hunclosed

theorem untouched_move {s t : RoutedTcp} (hc : ChanInv s.st) (hsync : Synced s)
    (h : Untouched s) (hidle : Idle t.wire) (hm : TcpMove c s t) :
    Untouched t := by
  cases hm with
  | act hgets hs => exact untouched_act hc h hgets (move_of_step hc hs) hidle
  | peer hw =>
    rcases tcpPeer hw with ⟨d, _, _, hdeed, rfl⟩ | ⟨_, _, _, _, rfl⟩
    · exact absurd hidle.1 (deed_seen hdeed)
    · exact ⟨h.isOpen, h.pending, h.ended, h.unclosed, h.req, h.stays, h.given⟩
  | request _ hw =>
    obtain ⟨k, fail, pc, u, v, hcopy, _⟩ := tcpRequest hw
    have hlive : s.wire.client.link = .live := by
      rw [hsync, h.isOpen]
      rfl
    rw [h.req, copyStep, if_neg (not_not_intro hlive),
      if_neg (not_not_intro h.pending), h.ended, if_neg (by simp)] at hcopy
    cases hcopy
  | response _ hw =>
    obtain ⟨h1, h2, h3, h4⟩ := h.responds hw
    exact ⟨h.isOpen, h1, h2, h3, h4, h.stays, h.given⟩
  | emits _ hw _ =>
    obtain ⟨h1, h2, h3, h4⟩ := h.responds hw
    exact ⟨h.isOpen, h1, h2, h3, h4, h.stays, h.given⟩

theorem Sock.log_close (s : Sock) : s.log <+: s.close.log := by
  unfold Sock.close
  split
  · split
    · exact List.prefix_refl _
    · exact List.prefix_append _ _
  · exact List.prefix_refl _

theorem Sock.log_deed {s s' : Sock} {d : Deed} (h : s.deed d = some s') :
    s.log <+: s'.log := by
  cases d with
  | send b | finish | leave =>
    simp only [Sock.deed] at h
    split at h <;> cases h
    exact List.prefix_append _ _

theorem settle_log (s : St) (a : Act) (t : St) (w : TcpWire) :
    w.client.log <+: (settle s a t w).client.log ∧
      w.target.log <+: (settle s a t w).target.log := by
  have hdial : ∀ ok, w.target.log <+: (w.target.dial ok).log := by
    intro ok
    cases ok <;> exact List.prefix_append _ _
  constructor
  · rw [settle_client]
    split
    · exact List.prefix_refl _
    · exact Sock.log_close _
  · unfold settle
    cases dialOutcome s a with
    | none =>
      cases t.clientOpen <;> dsimp only <;> split
      all_goals first | exact List.prefix_refl _ | exact Sock.log_close _
    | some ok =>
      cases t.clientOpen <;> dsimp only <;> split
      all_goals first
        | exact hdial ok
        | exact (hdial ok).trans (Sock.log_close _)

theorem copyStep_grows {k : Nat} {fail : Bool} {src dst src' dst' : Sock}
    {pc pc' : CopyPC}
    (h : copyStep k fail src dst pc = some (pc', src', dst')) :
    src.log <+: src'.log ∧ dst.log <+: dst'.log := by
  cases copyMove_of_step h with
  | wrote _ _ => exact ⟨List.prefix_refl _, List.prefix_append _ _⟩
  | _ => exact ⟨List.prefix_refl _, List.prefix_refl _⟩

/-- The logs only grow. -/
theorem log_grows {s t : RoutedTcp} (hm : TcpMove c s t) :
    s.wire.client.log <+: t.wire.client.log ∧
      s.wire.target.log <+: t.wire.target.log := by
  cases hm with
  | act _ _ => exact settle_log _ _ _ _
  | peer hw =>
    rcases tcpPeer hw with ⟨_, _, _, hdeed, rfl⟩ | ⟨_, _, _, hdeed, rfl⟩
    · exact ⟨Sock.log_deed hdeed, List.prefix_refl _⟩
    · exact ⟨List.prefix_refl _, Sock.log_deed hdeed⟩
  | request _ hw =>
    obtain ⟨_, _, _, _, _, hcopy, rfl⟩ := tcpRequest hw
    exact copyStep_grows hcopy
  | response _ hw | emits _ hw _ =>
    obtain ⟨_, _, _, _, _, hcopy, rfl⟩ := tcpResponse hw
    exact (copyStep_grows hcopy).symm

theorem untouched_reaches (hproto : c.proto = .tcp) {s : RoutedTcp}
    (h : Reaches (Fires (routedTcpStep c)) { st := init c } s)
    (hidle : Idle s.wire) :
    Untouched s := by
  induction h with
  | refl => exact untouched_init hproto
  | tail hr hstep ih =>
    obtain ⟨a, ha⟩ := hstep
    have hm := tcpMove_of_step ha
    obtain ⟨hclient, htarget⟩ := log_grows hm
    obtain ⟨hc, hsync⟩ := orderly_reaches orderly_init hr
    have hbefore := ih ⟨fun e he => hidle.1 e (hclient.subset he),
      fun he => hidle.2 (htarget.subset he)⟩
    exact untouched_move hc hsync hbefore hidle hm

def tcpConf : Conf := { plainConf with proto := .tcp }

theorem silent_client_kept_open :
    ¬ ∀ d, Reaches (Fires (directStep tcpHalves)) { wire := {} } d →
      ∃ s, Reaches (Fires (routedTcpStep tcpConf)) { st := init tcpConf } s ∧
        logs s.wire = logs d.wire := by
  intro h
  have hany : (exec (directStep tcpHalves) { wire := {} }
      [.main true, .main true, .peer (.target .finish),
        .response (.copy 0 false), .closeResp,
       .closeResp]).any (fun d =>
         decide (logs d.wire = ([.closed], [.dialled, .ended, .closed]))) =
      true := by
    decide +kernel
  obtain ⟨d, hd, hp⟩ := (Option.any_eq_true _ _).mp hany
  obtain ⟨s, hs, heq⟩ := h d (reaches_of_exec hd)
  rw [of_decide_eq_true hp] at heq
  obtain ⟨hclient, htarget⟩ := Prod.mk.inj heq
  have hidle : Idle s.wire := by
    refine ⟨?_, ?_⟩
    · rw [hclient]
      simp
    · rw [htarget]
      simp
  have hopen := (untouched_reaches rfl hs hidle).unclosed
  rw [hclient] at hopen
  simp at hopen

instance (d : Direct TcpWire) (a : DirectAct TcpAct) :
    Decidable (Lingers d a) :=
  match a with
  | .closeResp =>
    inferInstanceAs (Decidable (d.resp = .closing →
      tcpHalves.requested d.wire = true))
  | .main _ | .peer _ | .request _ | .response _ | .closeReq => .isTrue trivial

/-- A connection that cannot be dialled. -/
def undialled : List RoutedTcpAct :=
  [.act .addr, .act (.loop true), .act (.loop true), .act (.loop false),
    .act .conn,
   .act (.loop true)]

theorem tcp_modes_agree_half_closed :
    (∃ d, Reaches (Fires (directStep tcpHalves)) { wire := {} } d ∧
      logs d.wire = ([.closed], [.refused])) ∧
    ∃ s, Reaches (Fires (routedTcpStep tcpConf)) { st := init tcpConf } s ∧
      logs s.wire = ([.sent (lit "question"), .ended, .got (lit "answer"),
        .closed],
        [.dialled, .got (lit "question"), .sent (lit "answer"), .ended,
          .closed]) := by
  have hagree := tcp_modes_agree (c := tcpConf) rfl
  constructor
  · have hany :
      (exec (routedTcpStep tcpConf) { st := init tcpConf } undialled).any
        (fun s => decide (logs s.wire = ([.closed], [.refused]))) = true := by
      decide +kernel
    obtain ⟨s, hs, hp⟩ := (Option.any_eq_true _ _).mp hany
    obtain ⟨d, hd, heq⟩ := hagree.1 s (reaches_of_exec hs)
    exact ⟨d, hd, heq.trans (of_decide_eq_true hp)⟩
  · have hany : (execIf (directStep tcpHalves) Lingers { wire := {} }
        (asked ++ answered ++ closings)).any (fun d => decide (logs d.wire =
          ([.sent (lit "question"), .ended, .got (lit "answer"), .closed],
            [.dialled, .got (lit "question"), .sent (lit "answer"), .ended,
              .closed]))) = true := by
      decide +kernel
    obtain ⟨d, hd, hp⟩ := (Option.any_eq_true _ _).mp hany
    obtain ⟨s, hs, heq⟩ := hagree.2 d (reaches_of_execIf hd)
    exact ⟨s, hs, heq.trans (of_decide_eq_true hp)⟩

end Netramesh.Proofs
