import Netramesh.Lib.System
import Netramesh.Transport.Routed

/-!
# The channel protocol of routing mode

The request goroutine and the loop of `HandleConnection` hand a turn back and
forth: an address one way, a connection the other. The invariant says whose
turn it is (`Turn`). As long as the loop holds an address, the request goroutine
waits for a connection; once the loop has decided to leave, the request
goroutine is on its way out as well, because it has either closed `addrCh`
itself or received the nil that ends its loop. Which channels are closed is
read off the two program counters, so no channel is closed twice and nothing
is sent on a closed one.
-/

namespace Netramesh.Proofs

open Http Transport Lib

/-! ## Where the goroutines stand -/

/-- The request goroutine waits for the answer to its address. -/
def ReqPC.waits : ReqPC → Bool
  | .recvConn _ _ => true
  | _ => false

/-- The request goroutine has left its loop. -/
def ReqPC.leaving : ReqPC → Bool
  | .closeAddr _ | .closeConns _ | .returned => true
  | _ => false

/-- The request goroutine has closed `addrCh`. -/
def ReqPC.closed : ReqPC → Bool
  | .closeConns _ | .returned => true
  | _ => false

/-- The loop has closed `connCh`. -/
def LoopPC.connClosed : LoopPC → Bool
  | .closeCallCh | .returned => true
  | _ => false

/-- The closures counted by the wait group that are not in `callCh`. -/
def pendingCalls (l : LoopPC) (p : CallPC) : Nat :=
  (match l with | .sendCall _ => 1 | _ => 0) +
    (match p with | .run _ | .done => 1 | _ => 0)

/-- Whose turn it is. -/
def Turn (r : ReqPC) : LoopPC → Prop
  | .recvAddr | .addCall _ | .sendCall _ => ReqPC.waits r = false
  | .gotAddr a => if a = [] then ReqPC.closed r = true else ReqPC.waits r = true
  | .resolve _ | .dial _ | .sendConn _ => ReqPC.waits r = true
  | .closeClient | .closeConnCh | .closeCallCh | .returned =>
      ReqPC.leaving r = true

/-- The invariant of the channel protocol. -/
structure ChanInv (s : St) : Prop where
  calm : s.panicked = false
  addr : s.addrClosed = ReqPC.closed s.reqPC
  conn : s.connClosed = LoopPC.connClosed s.loopPC
  call : s.callClosed = (s.loopPC == .returned)
  sent : ∀ k raw a, s.reqPC = .sendAddr k raw a → a ≠ []
  turn : Turn s.reqPC s.loopPC
  wg : s.wg = s.callCh.length + pendingCalls s.loopPC s.callPC
  ended : s.callPC = .returned → s.callClosed = true ∧ s.callCh = []
  received : ∀ e ∈ s.received, e.1 = [] → e.2 = true

theorem ReqPC.leaving_of_closed {r : ReqPC} (h : ReqPC.closed r = true) :
    ReqPC.leaving r = true := by
  cases r <;> first | rfl | cases h

/-! ## Steps -/

variable {c : Conf}

theorem chanInv_init : ChanInv (init c) := by
  unfold init
  split
  · refine ⟨rfl, rfl, rfl, rfl, ?_, rfl, rfl, ?_, ?_⟩
    · intro k raw a h; cases h
    · intro h; cases h
    · intro e he; cases he
  · refine ⟨rfl, rfl, rfl, rfl, ?_, rfl, rfl, ?_, ?_⟩
    · intro k raw a h
      cases h
      exact c.originalDst_ne
    · intro h; cases h
    · intro e he; cases he

/-- What the invariant needs of an action that moves only the request goroutine:
it keeps the loop's turn. -/
theorem ChanInv.moveReq {s t : St} (h : ChanInv s) (hcalm : t.panicked = false)
    (haddr : t.addrClosed = ReqPC.closed t.reqPC)
    (hconn : t.connClosed = s.connClosed) (hcall : t.callClosed = s.callClosed)
    (hloop : t.loopPC = s.loopPC)
    (hsent : ∀ k raw a, t.reqPC = .sendAddr k raw a → a ≠ [])
    (hturn : Turn t.reqPC s.loopPC) (hch : t.callCh = s.callCh)
    (hwg : t.wg = s.wg) (hpc : t.callPC = s.callPC)
    (hrec : t.received = s.received) : ChanInv t := by
  refine ⟨hcalm, haddr, ?_, ?_, hsent, ?_, ?_, ?_, ?_⟩
  · rw [hconn, hloop]; exact h.conn
  · rw [hcall, hloop]; exact h.call
  · rw [hloop]; exact hturn
  · rw [hwg, hch, hloop, hpc]; exact h.wg
  · rw [hpc, hcall, hch]; exact h.ended
  · rw [hrec]; exact h.received

theorem routeRequest_reqPC (s : St) (r : Request) (uuid : Bytes) :
    ∃ k raw a, (routeRequest c s r uuid).reqPC = .sendAddr k raw a ∧
      a ≠ [] := by
  refine ⟨_, _, _, rfl, ?_⟩
  exact Protocol.route_ne_nil c.originalDst_ne

/-- Between an address and the connection for it the request goroutine does not
move by itself; before and after, the loop does not care where it is. -/
theorem Turn.of_not_waits {r r' : ReqPC} {l : LoopPC} (h : Turn r l)
    (hr : ReqPC.waits r = false) (hr' : ReqPC.waits r' = false)
    (hleaving : ReqPC.leaving r = true → ReqPC.leaving r' = true)
    (hclosed : ReqPC.closed r = true → ReqPC.closed r' = true) : Turn r' l := by
  cases l with
  | recvAddr | addCall t | sendCall t => exact hr'
  | gotAddr a =>
    simp only [Turn] at h ⊢
    by_cases ha : a = []
    · rw [if_pos ha] at h ⊢
      exact hclosed h
    · rw [if_neg ha, hr] at h
      cases h
  | resolve a | dial a | sendConn t => exact absurd h (by simp [Turn, hr])
  | closeClient | closeConnCh | closeCallCh | returned => exact hleaving h

theorem chanInv_parse {s t : St} {p : Parsed} (h : ChanInv s)
    (hstep : parse c s p = some t) :
    ChanInv t := by
  unfold parse at hstep
  split at hstep
  case h_2 => cases hstep
  case h_1 w hpc =>
    have haddr : s.addrClosed = false := by rw [h.addr, hpc]; rfl
    have hturn := h.turn
    rw [hpc] at hturn
    have hmove : ∀ r', ReqPC.waits r' = false → Turn r' s.loopPC :=
        fun r' hr' =>
      hturn.of_not_waits rfl hr' (fun hf => by cases hf) (fun hf => by cases hf)
    split at hstep
    · cases hstep
      exact h.moveReq h.calm haddr rfl rfl rfl
        (fun _ _ _ hf => by cases hf) (hmove _ rfl)
        rfl rfl rfl rfl
    · split at hstep
      all_goals
        cases hstep
        exact h.moveReq h.calm haddr rfl rfl rfl
          (fun _ _ _ hf => by cases hf) (hmove _ rfl)
          rfl rfl rfl rfl
    · next r uuid =>
        cases hstep
        obtain ⟨k, raw, a, hreq, ha⟩ := routeRequest_reqPC (c := c) s r uuid
        refine h.moveReq h.calm ?_ rfl rfl rfl ?_ ?_ rfl rfl rfl rfl
        · rw [hreq]; exact haddr
        · intro k' raw' a' hpc'
          rw [hreq] at hpc'
          cases hpc'
          exact ha
        · rw [hreq]; exact hmove _ rfl

theorem chanInv_reqStep {s t : St} (h : ChanInv s)
    (hstep : reqStep s = some t) :
    ChanInv t := by
  have haddr := h.addr
  have hturn := h.turn
  unfold reqStep at hstep
  split at hstep
  case h_1 => cases hstep
  case h_2 hpc =>
    rw [hpc] at haddr
    rw [haddr] at hstep
    cases hstep
  case h_3 k raw hpc =>
    -- `connCh` is closed only when the loop has left, and then nobody waits
    rw [hpc] at hturn
    split at hstep
    · next hconn =>
        rw [h.conn] at hconn
        cases hl : s.loopPC <;> rw [hl] at hconn hturn <;>
          simp [LoopPC.connClosed, Turn, ReqPC.leaving] at hconn hturn
    · cases hstep
  case h_4 k w hpc =>
    cases hstep
    rw [hpc] at haddr hturn
    exact h.moveReq h.calm haddr rfl rfl rfl (fun _ _ _ hf => by cases hf)
      (hturn.of_not_waits rfl rfl
        (fun hf => by cases hf) (fun hf => by cases hf))
      rfl rfl rfl rfl
  case h_5 k w hpc =>
    cases hstep
    rw [hpc] at haddr hturn
    exact h.moveReq h.calm haddr rfl rfl rfl (fun _ _ _ hf => by cases hf)
      (hturn.of_not_waits rfl rfl
        (fun hf => by cases hf) (fun hf => by cases hf))
      rfl rfl rfl rfl
  case h_6 w hpc =>
    rw [hpc] at haddr hturn
    rw [haddr] at hstep
    cases hstep
    exact h.moveReq h.calm rfl rfl rfl rfl (fun _ _ _ hf => by cases hf)
      (hturn.of_not_waits rfl rfl (fun _ => rfl) (fun _ => rfl)) rfl rfl rfl rfl
  case h_7 w hpc =>
    cases hstep
    rw [hpc] at haddr hturn
    exact h.moveReq h.calm haddr rfl rfl rfl (fun _ _ _ hf => by cases hf)
      (hturn.of_not_waits rfl rfl (fun _ => rfl) (fun _ => rfl)) rfl rfl rfl rfl
  case h_8 => cases hstep

theorem chanInv_sendAddr {s t : St} (h : ChanInv s)
    (hstep : sendAddr s = some t) :
    ChanInv t := by
  unfold sendAddr at hstep
  split at hstep
  case h_2 => cases hstep
  case h_1 k raw a hreq hloop =>
    have hconn := h.conn
    have hcall := h.call
    have hwg := h.wg
    rw [hloop] at hconn hcall hwg
    have ha := h.sent k raw a hreq
    split at hstep
    · cases hstep
    · next haddr =>
        cases hstep
        refine ⟨h.calm, Bool.eq_false_iff.mpr haddr, hconn, hcall, ?_, ?_, hwg,
          h.ended, ?_⟩
        · intro _ _ _ hf; cases hf
        · simp only [Turn, if_neg ha]
          rfl
        · intro e he hnil
          rcases List.mem_append.mp he with he | he
          · exact h.received e he hnil
          · rw [List.mem_singleton] at he
            subst he
            exact absurd hnil ha

theorem chanInv_sendConn {s t : St} (h : ChanInv s)
    (hstep : sendConn s = some t) :
    ChanInv t := by
  unfold sendConn at hstep
  split at hstep
  case h_2 => cases hstep
  case h_1 k raw target hreq hloop =>
    have haddr := h.addr
    have hcall := h.call
    have hwg := h.wg
    have hconn := h.conn
    rw [hloop] at hcall hwg hconn
    rw [hreq] at haddr
    split at hstep
    · cases hstep
    · cases hstep
      cases target with
      | none =>
        exact ⟨h.calm, haddr, hconn, hcall, (fun _ _ _ hf => by cases hf), rfl,
          hwg, h.ended, h.received⟩
      | some w =>
        cases raw <;>
          exact ⟨h.calm, haddr, hconn, hcall, (fun _ _ _ hf => by cases hf),
            rfl, hwg, h.ended, h.received⟩

/-- What the invariant needs of an action that moves only the loop. -/
theorem ChanInv.moveLoop {s t : St} (h : ChanInv s) (hcalm : t.panicked = false)
    (haddr : t.addrClosed = s.addrClosed) (hreq : t.reqPC = s.reqPC)
    (hconn : t.connClosed = LoopPC.connClosed t.loopPC)
    (hcall : t.callClosed = (t.loopPC == .returned))
    (hturn : Turn s.reqPC t.loopPC)
    (hwg : t.wg = t.callCh.length + pendingCalls t.loopPC t.callPC)
    (hover : t.callPC = .returned → t.callClosed = true ∧ t.callCh = [])
    (hrec : ∀ e ∈ t.received, e.1 = [] → e.2 = true) : ChanInv t := by
  refine ⟨hcalm, ?_, hconn, hcall, ?_, ?_, hwg, hover, hrec⟩
  · rw [haddr, hreq]; exact h.addr
  · rw [hreq]; exact h.sent
  · rw [hreq]; exact hturn

theorem chanInv_loopStep {s t : St} {ok : Bool} (h : ChanInv s)
    (hstep : loopStep s ok = some t) : ChanInv t := by
  have haddr := h.addr
  have hconn := h.conn
  have hcall := h.call
  have hturn := h.turn
  have hwg := h.wg
  unfold loopStep at hstep
  split at hstep
  case h_1 hpc =>
    rw [hpc] at hconn hcall hwg
    split at hstep
    · next hclosed =>
        cases hstep
        refine h.moveLoop h.calm rfl rfl hconn hcall ?_ hwg h.ended ?_
        · simp only [Turn, if_true, ← haddr]
          exact hclosed
        · intro e he hnil
          rcases List.mem_append.mp he with he | he
          · exact h.received e he hnil
          · rw [List.mem_singleton] at he
            rw [he]
    · cases hstep
  case h_2 a hpc =>
    cases hstep
    rw [hpc] at hconn hcall hwg hturn
    simp only [Turn] at hturn
    by_cases ha : a = []
    · rw [if_pos ha] at hturn
      refine h.moveLoop h.calm rfl rfl ?_ ?_ ?_ ?_ h.ended h.received
        <;> simp only [if_pos ha]
      · exact hconn
      · exact hcall
      · exact ReqPC.leaving_of_closed hturn
      · exact hwg
    · rw [if_neg ha] at hturn
      refine h.moveLoop h.calm rfl rfl ?_ ?_ ?_ ?_ h.ended h.received
        <;> simp only [if_neg ha]
      · exact hconn
      · exact hcall
      · exact hturn
      · exact hwg
  case h_3 a hpc =>
    cases hstep
    rw [hpc] at hconn hcall hwg hturn
    cases ok <;> exact h.moveLoop h.calm rfl rfl hconn hcall hturn hwg h.ended
      h.received
  case h_4 a hpc =>
    rw [hpc] at hconn hcall hwg hturn
    split at hstep
    all_goals
      cases hstep
      exact h.moveLoop h.calm rfl rfl hconn hcall hturn hwg h.ended h.received
  case h_5 target hpc =>
    rw [hpc] at hconn
    rw [hconn] at hstep
    cases hstep
  case h_6 target hpc =>
    cases hstep
    rw [hpc] at hconn hcall hwg hturn
    refine h.moveLoop h.calm rfl rfl hconn hcall hturn ?_ h.ended h.received
    simp only [pendingCalls] at hwg ⊢
    omega
  case h_7 target hpc =>
    rw [hpc] at hconn hcall hwg hturn
    rw [if_neg (by rw [hcall]; simp)] at hstep
    split at hstep
    · cases hstep
      refine h.moveLoop h.calm rfl rfl hconn hcall hturn ?_ ?_ h.received
      · simp only [pendingCalls, List.length_append,
          List.length_singleton] at hwg ⊢
        omega
      · intro hret
        have := (h.ended hret).1
        rw [hcall] at this
        cases this
    · cases hstep
  case h_8 hpc =>
    cases hstep
    rw [hpc] at hconn hcall hwg hturn
    exact h.moveLoop h.calm rfl rfl hconn hcall hturn hwg h.ended h.received
  case h_9 hpc =>
    rw [hpc] at hconn hcall hwg hturn
    rw [hconn] at hstep
    cases hstep
    exact h.moveLoop h.calm rfl rfl rfl hcall hturn hwg h.ended h.received
  case h_10 hpc =>
    rw [hpc] at hconn hcall hwg hturn
    rw [hcall] at hstep
    cases hstep
    refine h.moveLoop h.calm rfl rfl hconn rfl hturn hwg ?_ h.received
    intro hret
    exact ⟨rfl, (h.ended hret).2⟩
  case h_11 => cases hstep

theorem chanInv_callStep {s t : St} (h : ChanInv s)
    (hstep : callStep s = some t) :
    ChanInv t := by
  have hwg := h.wg
  unfold callStep at hstep
  split at hstep
  case h_1 hpc =>
    rw [hpc] at hwg
    split at hstep
    · next target rest hch =>
        cases hstep
        refine h.moveLoop h.calm rfl rfl h.conn h.call h.turn ?_
          (fun hf => by cases hf) h.received
        rw [hch] at hwg
        simp only [pendingCalls, List.length_cons] at hwg ⊢
        omega
    · next hch =>
        split at hstep
        · next hclosed =>
            cases hstep
            exact h.moveLoop h.calm rfl rfl h.conn h.call h.turn hwg
              (fun _ => ⟨hclosed, hch⟩)
              h.received
        · cases hstep
  case h_2 target hpc =>
    cases hstep
    rw [hpc] at hwg
    exact h.moveLoop h.calm rfl rfl h.conn h.call h.turn hwg
      (fun hf => by cases hf) h.received
  case h_3 hpc =>
    rw [hpc] at hwg
    simp only [pendingCalls] at hwg
    split at hstep
    · next hzero => omega
    · cases hstep
      refine h.moveLoop h.calm rfl rfl h.conn h.call h.turn ?_
        (fun hf => by cases hf) h.received
      simp only [pendingCalls]
      omega
  case h_4 => cases hstep

theorem chanInv_step {s t : St} {a : Act} (h : ChanInv s)
    (hstep : step c s a = some t) :
    ChanInv t := by
  unfold step at hstep
  rw [if_neg (by rw [h.calm]; simp)] at hstep
  cases a with
  | parse p => exact chanInv_parse h hstep
  | req => exact chanInv_reqStep h hstep
  | addr => exact chanInv_sendAddr h hstep
  | conn => exact chanInv_sendConn h hstep
  | loop ok => exact chanInv_loopStep h hstep
  | call => exact chanInv_callStep h hstep
  | emit b =>
    simp only [emit] at hstep
    split at hstep
    · split at hstep
      · cases hstep
        exact h.moveLoop h.calm rfl rfl h.conn h.call h.turn h.wg h.ended
          h.received
      · cases hstep
    · cases hstep
  | setRoute id value =>
    cases hstep
    exact h.moveLoop h.calm rfl rfl h.conn h.call h.turn h.wg h.ended h.received
  | expire id =>
    cases hstep
    exact h.moveLoop h.calm rfl rfl h.conn h.call h.turn h.wg h.ended h.received

theorem chanInv_reaches {s : St} (h : Reaches (Fires (step c)) (init c) s) :
    ChanInv s :=
  Reaches.invariant (fun _ _ hs ⟨_, ha⟩ => chanInv_step hs ha) chanInv_init h

/-! ## Safety and progress -/

/-- The request goroutine is not left waiting by a loop that is gone. -/
theorem ChanInv.req_not_abandoned {s : St} (h : ChanInv s)
    (hloop : s.loopPC = .returned) :
    s.reqBlocked = false := by
  have hturn := h.turn
  rw [hloop] at hturn
  cases hreq : s.reqPC with
  | closeAddr w | closeConns w | returned => simp [St.reqBlocked, hreq]
  | _ => rw [hreq] at hturn; cases hturn

/-- Nor the loop by the request goroutine. -/
theorem ChanInv.loop_not_abandoned {s : St} (h : ChanInv s)
    (hreq : s.reqPC = .returned) :
    s.loopBlocked = false := by
  have hturn := h.turn
  have haddr := h.addr
  rw [hreq] at hturn haddr
  cases hloop : s.loopPC with
  | recvAddr => simp [St.loopBlocked, hloop, haddr, ReqPC.closed]
  | sendConn target => rw [hloop] at hturn; cases hturn
  | _ => simp [St.loopBlocked, hloop]

/-- A loop that waits for room in `callCh` waits for a goroutine that is running
a closure. -/
theorem ChanInv.queue_served {s : St} (h : ChanInv s)
    (hq : s.queueBlocked = true) :
    s.callBlocked = false ∧ s.callPC ≠ .returned := by
  cases hloop : s.loopPC <;> simp only [St.queueBlocked, hloop,
    Bool.false_eq_true] at hq
  simp only [Bool.and_eq_true, callCap] at hq
  constructor
  · have : s.callCh.isEmpty = false := by
      rw [List.isEmpty_eq_false_iff]
      rintro hnil
      rw [hnil] at hq
      simp at hq
    simp [St.callBlocked, this]
  · intro hret
    have := (h.ended hret).2
    rw [this] at hq
    simp at hq

/-- One of the request goroutine and the loop can go on, or the loop waits for
room in `callCh`. -/
theorem ChanInv.pair_moves {s : St} (h : ChanInv s)
    (hrun : ¬ (s.reqPC = .returned ∧ s.loopPC = .returned))
    (hreq : s.reqBlocked = true ∨ s.reqPC = .returned)
    (hloop : s.loopBlocked = true ∨ s.queueBlocked = true ∨
      s.loopPC = .returned) :
    s.queueBlocked = true := by
  rcases hloop with hloop | hloop | hloop
  · rcases hreq with hreq | hreq
    · have hturn := h.turn
      cases hl : s.loopPC <;> simp only [St.loopBlocked, hl,
        Bool.false_eq_true] at hloop
      all_goals
        rw [hl] at hturn
        cases hr : s.reqPC <;> simp [St.reqBlocked, hr, hl] at hreq hloop
        rw [hr] at hturn
        cases hturn
    · rw [h.loop_not_abandoned hreq] at hloop
      cases hloop
  · exact hloop
  · rcases hreq with hreq | hreq
    · rw [h.req_not_abandoned hloop] at hreq
      cases hreq
    · exact absurd ⟨hreq, hloop⟩ hrun

/-- The channel protocol is safe and does not get stuck: in every state of every
run nothing has panicked, an empty address was received only from a closed
channel, neither the request goroutine nor the loop waits for the other after
that one has returned, and while one of them is still there, some goroutine is
not blocked. -/
theorem channels_safe {s : St} (h : Reaches (Fires (step c)) (init c) s) :
    s.panicked = false ∧
    (∀ e ∈ s.received, e.1 = [] → e.2 = true) ∧
    (s.loopPC = .returned → s.reqBlocked = false) ∧
    (s.reqPC = .returned → s.loopBlocked = false) ∧
    (¬ (s.reqPC = .returned ∧ s.loopPC = .returned) →
      ¬ ((s.reqBlocked = true ∨ s.reqPC = .returned) ∧
        (s.loopBlocked = true ∨ s.queueBlocked = true ∨ s.loopPC = .returned) ∧
        (s.callBlocked = true ∨ s.callPC = .returned))) := by
  have hinv := chanInv_reaches h
  refine ⟨hinv.calm, hinv.received, hinv.req_not_abandoned,
    hinv.loop_not_abandoned, ?_⟩
  rintro hrun ⟨hreq, hloop, hcall⟩
  obtain ⟨hblocked, hret⟩ := hinv.queue_served (hinv.pair_moves hrun hreq hloop)
  rcases hcall with hcall | hcall
  · rw [hblocked] at hcall
    cases hcall
  · exact hret hcall

/-- An HTTP connection with everything at its default. -/
def plainConf : Conf where
  http := .default
  routing := .default
  proto := .http
  isInbound := false
  originalDst := lit "10.0.0.9:80"
  originalDst_ne := by decide

/-- A request whose target cannot be dialled: the request goroutine receives the
nil, both sides close their channels. -/
def refusedDial : List Act :=
  [.parse (.request (plainRequest (lit "/a")) (lit "id")), .addr, .loop true,
    .loop true,
   .loop false, .conn, .loop true, .loop true, .req, .loop true, .req]

theorem channels_safe_refused :
    ∃ s, Reaches (Fires (step plainConf)) (init plainConf) s ∧
      s.reqPC = .returned ∧ s.loopPC = .returned ∧ s.panicked = false := by
  have hex : ∃ s, exec (step plainConf) (init plainConf) refusedDial = some s ∧
      s.reqPC = .returned ∧ s.loopPC = .returned :=
    ⟨_, rfl, by decide +kernel, by decide +kernel⟩
  obtain ⟨s, hs, hreq, hloop⟩ := hex
  exact ⟨s, reaches_of_exec hs, hreq, hloop,
    (channels_safe (reaches_of_exec hs)).1⟩

end Netramesh.Proofs
