import Netramesh.Lib.Log
import Netramesh.Proofs.Channels

/-!
# Routing mode keeps exchanges apart

The `k`-th request, the `k`-th address, the `k`-th target connection and the
`k`-th response routine belong together along every run. The numbering is an
invariant in three parts: the request goroutine and the loop agree on the turn
(`Numbered`), the closures reach the third goroutine in the order of the
connections (`Queued`), and what a routine emits comes after everything the
routines before it emitted (`Logged`). The order in which the targets answer
does not enter: only the routine at the front of the queue writes.
-/

namespace Netramesh.Proofs

open Http Transport Lib

variable {c : Conf}

/-! ## Turns -/

/-- The request goroutine's numbers: it holds the connection of its own turn,
and has written every request before it. -/
def ReqNum (s : St) : Prop :=
  match s.reqPC with
  | .read none => s.routes.length = 0 ∧ s.written.length = 0
  | .read (some t) | .copy none t =>
      s.routes.length = t + 1 ∧ s.written.length = t + 1
  | .sendAddr k _ a => s.routes.length = k + 1 ∧ s.routes[k]? = some a ∧
      s.written.length = k
  | .recvConn k _ => s.routes.length = k + 1 ∧ s.written.length = k
  | .write k t | .copy (some k) t =>
    k = t ∧ s.routes.length = k + 1 ∧ s.written.length = k ∧
      t < s.dialled.length
  | .closeAddr _ | .closeConns _ | .returned =>
      s.routes.length ≤ s.written.length + 1

/-- How many connections the request goroutine has been given, as long as it
has not left its loop. -/
def Obtained (s : St) : Prop :=
  match s.reqPC with
  | .read none => s.dialled.length = 0
  | .sendAddr k _ _ => s.dialled.length = k
  | .read (some t) | .write _ t | .copy _ t => s.dialled.length = t + 1
  | _ => True

/-- The loop holds the address of the latest request, which is not dialled
yet. -/
def Holds (s : St) (a : Bytes) : Prop :=
  s.routes.length = s.dialled.length + 1 ∧ s.routes[s.dialled.length]? = some a

/-- The loop's numbers. -/
def LoopNum (s : St) : Prop :=
  match s.loopPC with
  | .recvAddr => Obtained s
  | .addCall t | .sendCall t => Obtained s ∧ s.dialled.length = t + 1
  | .gotAddr a => a ≠ [] → Holds s a
  | .resolve a | .dial a => Holds s a
  | .sendConn (some t) => s.dialled.length = t + 1 ∧ s.routes.length = t + 1
  | _ => True

/-- The request goroutine and the loop agree on the turn. -/
structure Numbered (s : St) : Prop where
  req : ReqNum s
  loop : LoopNum s
  dialled : s.dialled <+: s.routes
  written : s.written = (List.range s.written.length).map fun k => (k, k)
  written_le : s.written.length ≤ s.dialled.length

theorem numbered_init : Numbered (init c) := by
  unfold init
  split
  · exact ⟨⟨rfl, rfl⟩, rfl, List.prefix_refl _, rfl, le_rfl⟩
  · exact ⟨⟨rfl, rfl, rfl⟩, rfl, List.nil_prefix, rfl, le_rfl⟩

/-- An action that moves neither the request goroutine nor the loop, and does
not touch what they count. -/
theorem Numbered.frame {s t : St} (h : Numbered s) (hreq : t.reqPC = s.reqPC)
    (hloop : t.loopPC = s.loopPC) (hroutes : t.routes = s.routes)
    (hdialled : t.dialled = s.dialled) (hwritten : t.written = s.written) :
    Numbered t := by
  refine ⟨?_, ?_, ?_, ?_, ?_⟩
  · have := h.req
    unfold ReqNum at this ⊢
    rwa [hreq, hroutes, hwritten, hdialled]
  · have := h.loop
    unfold LoopNum Obtained Holds at this ⊢
    rwa [hloop, hreq, hroutes, hdialled]
  · rw [hdialled, hroutes]; exact h.dialled
  · rw [hwritten]; exact h.written
  · rw [hwritten, hdialled]; exact h.written_le

/-- A loop that holds no address holds none after the request goroutine
moved. -/
theorem LoopNum.moveReq {s t : St} (h : LoopNum s)
    (hturn : Turn s.reqPC s.loopPC) (hwaits : ReqPC.waits s.reqPC = false)
    (hloop : t.loopPC = s.loopPC) (hdialled : t.dialled = s.dialled)
    (hobt : Obtained s → Obtained t) : LoopNum t := by
  unfold LoopNum at h ⊢
  rw [hloop, hdialled]
  cases hl : s.loopPC with
  | recvAddr => rw [hl] at h; exact hobt h
  | addCall t | sendCall t => rw [hl] at h; exact ⟨hobt h.1, h.2⟩
  | gotAddr a =>
    intro ha
    rw [hl] at hturn
    simp only [Turn, if_neg ha, hwaits] at hturn
    cases hturn
  | resolve a | dial a | sendConn t =>
    rw [hl] at hturn
    simp only [Turn, hwaits] at hturn
    cases hturn
  | closeClient | closeConnCh | closeCallCh | returned => trivial

theorem numbered_parse {s t : St} {p : Parsed} (hc : ChanInv s) (h : Numbered s)
    (hstep : parse c s p = some t) : Numbered t := by
  have hreq := h.req
  have hloop := fun u => h.loop.moveReq (t := u) hc.turn
  unfold parse at hstep
  split at hstep
  case h_2 => cases hstep
  case h_1 w hpc =>
    simp only [hpc, ReqPC.waits, forall_true_left] at hloop
    split at hstep
    · cases hstep
      refine ⟨?_, hloop _ rfl rfl (fun _ => trivial), h.dialled, h.written,
        h.written_le⟩
      cases w <;> (simp only [ReqNum, hpc] at hreq ⊢; omega)
    · cases w with
      | none =>
        cases hstep
        refine ⟨?_, hloop _ rfl rfl (fun _ => trivial), h.dialled, h.written,
          h.written_le⟩
        simp only [ReqNum, hpc] at hreq ⊢
        omega
      | some w =>
        cases hstep
        refine ⟨?_, hloop _ rfl rfl ?_, h.dialled, h.written, h.written_le⟩
        · simpa only [ReqNum, hpc] using hreq
        · simpa only [Obtained, hpc] using id
    · next r uuid =>
        cases hstep
        obtain ⟨raw, a, ht, hroutes⟩ :
          ∃ raw a, (routeRequest c s r uuid).reqPC =
            .sendAddr s.routes.length raw a ∧ (routeRequest c s r uuid).routes =
              s.routes ++ [a] :=
          ⟨_, _, rfl, rfl⟩
        have hwritten : (routeRequest c s r uuid).written = s.written := rfl
        have hdialled : (routeRequest c s r uuid).dialled = s.dialled := rfl
        refine ⟨?_, hloop _ rfl rfl ?_, ?_, h.written, h.written_le⟩
        · simp only [ReqNum, ht, hroutes, hwritten]
          refine ⟨by simp, by simp, ?_⟩
          cases w <;> (simp only [ReqNum, hpc] at hreq; omega)
        · simp only [Obtained, ht, hpc, hdialled]
          cases w <;> (simp only [ReqNum, hpc] at hreq; intro hd; omega)
        · rw [hroutes, hdialled]
          exact h.dialled.trans (List.prefix_append _ _)

theorem concat_diag {l : List (Nat × Nat)} {k : Nat}
    (h : l = (List.range l.length).map fun k => (k, k)) (hk : l.length = k) :
    l ++ [(k, k)] = (List.range (l ++ [(k, k)]).length).map fun k =>
      (k, k) := by
  rw [List.length_append, List.length_singleton, List.range_succ,
    List.map_append, ← h, hk]
  rfl

theorem numbered_reqStep {s t : St} (hc : ChanInv s) (h : Numbered s)
    (hstep : reqStep s = some t) : Numbered t := by
  have hreq := h.req
  have hloop := fun u => h.loop.moveReq (t := u) hc.turn
  have hle := h.dialled.length_le
  unfold reqStep at hstep
  split at hstep
  case h_1 => cases hstep
  case h_2 hpc =>
    have haddr := hc.addr
    rw [hpc] at haddr
    rw [if_neg (by rw [haddr]; simp [ReqPC.closed])] at hstep
    cases hstep
  case h_3 k raw hpc =>
    split at hstep
    · next hconn =>
        have hturn := hc.turn
        rw [hc.conn] at hconn
        cases hl : s.loopPC <;> rw [hl] at hconn hturn <;>
          simp [LoopPC.connClosed, Turn, ReqPC.leaving, hpc] at hconn hturn
    · cases hstep
  case h_4 k w hpc =>
    cases hstep
    simp only [hpc, ReqPC.waits, forall_true_left] at hloop
    simp only [ReqNum, hpc] at hreq
    obtain ⟨rfl, hroutes, hwritten, hlt⟩ := hreq
    refine ⟨?_, hloop _ rfl rfl ?_, h.dialled,
      concat_diag h.written hwritten, ?_⟩
    · simp [ReqNum, hroutes, hwritten]
    · simp [Obtained, hpc]
    · simp only [List.length_append, List.length_singleton]
      omega
  case h_5 k w hpc =>
    cases hstep
    simp only [hpc, ReqPC.waits, forall_true_left] at hloop
    cases k with
    | none =>
      simp only [ReqNum, hpc] at hreq
      refine ⟨?_, hloop _ rfl rfl (fun _ => trivial), h.dialled, ?_, ?_⟩
      · simp only [ReqNum, Option.map_none, Option.toList_none, List.append_nil]
        omega
      · simpa using h.written
      · simpa using h.written_le
    | some k =>
      simp only [ReqNum, hpc] at hreq
      obtain ⟨rfl, hroutes, hwritten, hlt⟩ := hreq
      refine ⟨?_, hloop _ rfl rfl (fun _ => trivial), h.dialled,
        concat_diag h.written hwritten, ?_⟩
      · simp [ReqNum, hroutes, hwritten]
      · simp only [Option.map_some, Option.toList_some, List.length_append,
          List.length_singleton]
        omega
  case h_6 w hpc =>
    split at hstep
    · cases hstep
      exact h.frame rfl rfl rfl rfl rfl
    · cases hstep
      simp only [hpc, ReqPC.waits, forall_true_left] at hloop
      simp only [ReqNum, hpc] at hreq
      exact ⟨hreq, hloop _ rfl rfl (fun _ => trivial), h.dialled, h.written,
        h.written_le⟩
  case h_7 w hpc =>
    cases hstep
    simp only [hpc, ReqPC.waits, forall_true_left] at hloop
    simp only [ReqNum, hpc] at hreq
    exact ⟨hreq, hloop _ rfl rfl (fun _ => trivial), h.dialled, h.written,
      h.written_le⟩
  case h_8 => cases hstep

theorem numbered_sendAddr {s t : St} (h : Numbered s)
    (hstep : sendAddr s = some t) :
    Numbered t := by
  have hreq := h.req
  have hloop := h.loop
  unfold sendAddr at hstep
  split at hstep
  case h_2 => cases hstep
  case h_1 k raw a hpc hl =>
    simp only [ReqNum, LoopNum, Obtained, hpc, hl] at hreq hloop
    obtain ⟨hroutes, hget, hwritten⟩ := hreq
    split at hstep
    · cases hstep
    · cases hstep
      refine ⟨⟨hroutes, hwritten⟩, fun _ => ⟨?_, ?_⟩, h.dialled, h.written,
        h.written_le⟩
      · exact hloop ▸ hroutes
      · rw [hloop]
        exact hget

theorem numbered_sendConn {s t : St} (h : Numbered s)
    (hstep : sendConn s = some t) :
    Numbered t := by
  have hreq := h.req
  have hloop := h.loop
  unfold sendConn at hstep
  split at hstep
  case h_2 => cases hstep
  case h_1 k raw target hpc hl =>
    simp only [ReqNum, LoopNum, hpc, hl] at hreq hloop
    obtain ⟨hroutes, hwritten⟩ := hreq
    split at hstep
    · cases hstep
    · cases hstep
      cases target with
      | none =>
        refine ⟨?_, trivial, h.dialled, h.written, h.written_le⟩
        simp only [ReqNum, gotConn]
        omega
      | some w =>
        obtain ⟨hd, hr⟩ := hloop
        have hkw : k = w := by omega
        subst hkw
        cases raw with
        | true =>
          exact ⟨⟨rfl, hroutes, hwritten, by simp only [gotConn]; omega⟩,
            ⟨hd, hd⟩, h.dialled, h.written, h.written_le⟩
        | false =>
          exact ⟨⟨rfl, hroutes, hwritten, by simp only [gotConn]; omega⟩,
            ⟨hd, hd⟩, h.dialled, h.written, h.written_le⟩

/-- An action of the loop alone that dials nothing. -/
theorem Numbered.moveLoop {s t : St} (h : Numbered s) (hloop : LoopNum t)
    (hreq : t.reqPC = s.reqPC) (hroutes : t.routes = s.routes)
    (hdialled : t.dialled = s.dialled) (hwritten : t.written = s.written) :
    Numbered t := by
  refine ⟨?_, hloop, ?_, ?_, ?_⟩
  · have := h.req
    unfold ReqNum at this ⊢
    rwa [hreq, hroutes, hwritten, hdialled]
  · rw [hdialled, hroutes]; exact h.dialled
  · rw [hwritten]; exact h.written
  · rw [hwritten, hdialled]; exact h.written_le

theorem numbered_loopStep {s t : St} {ok : Bool} (hc : ChanInv s)
    (h : Numbered s) (hstep : loopStep s ok = some t) : Numbered t := by
  have hloop := h.loop
  unfold loopStep at hstep
  split at hstep
  case h_1 hl =>
    split at hstep
    · cases hstep
      exact h.moveLoop (fun hne => absurd rfl hne) rfl rfl rfl rfl
    · cases hstep
  case h_2 a hl =>
    cases hstep
    simp only [LoopNum, hl] at hloop
    refine h.moveLoop ?_ rfl rfl rfl rfl
    by_cases ha : a = []
    · simp only [LoopNum, if_pos ha]
    · simp only [LoopNum, if_neg ha]
      exact hloop ha
  case h_3 a hl =>
    cases hstep
    simp only [LoopNum, hl] at hloop
    refine h.moveLoop ?_ rfl rfl rfl rfl
    cases ok
    · trivial
    · exact hloop
  case h_4 a hl =>
    simp only [LoopNum, hl] at hloop
    obtain ⟨hroutes, hget⟩ := hloop
    split at hstep
    · cases hstep
      -- while the loop dials, the request goroutine waits
      have hturn := hc.turn
      rw [hl] at hturn
      obtain ⟨k, raw, hpc⟩ : ∃ k raw, s.reqPC = .recvConn k raw := by
        cases hr : s.reqPC <;> rw [hr] at hturn
          <;> first | exact ⟨_, _, rfl⟩ | cases hturn
      have hreq := h.req
      simp only [ReqNum, hpc] at hreq
      refine ⟨?_, ?_, ?_, h.written, ?_⟩
      · simp only [ReqNum, hpc]
        exact hreq
      · simp only [LoopNum, List.length_append, List.length_singleton]
        exact ⟨trivial, hroutes⟩
      · obtain ⟨rest, hrest⟩ := h.dialled
        rw [← hrest, List.getElem?_append_right le_rfl, Nat.sub_self] at hget
        cases rest with
        | nil => cases hget
        | cons b rest =>
          simp only [List.getElem?_cons_zero, Option.some.injEq] at hget
          subst hget
          exact ⟨rest, by simp [← hrest]⟩
      · have := h.written_le
        simp only [List.length_append, List.length_singleton]
        omega
    · cases hstep
      exact h.moveLoop trivial rfl rfl rfl rfl
  case h_5 target hl =>
    split at hstep
    · cases hstep
      exact h.frame rfl rfl rfl rfl rfl
    · cases hstep
  case h_6 target hl =>
    cases hstep
    simp only [LoopNum, hl] at hloop
    exact h.moveLoop hloop rfl rfl rfl rfl
  case h_7 target hl =>
    simp only [LoopNum, hl] at hloop
    split at hstep
    · cases hstep
      exact h.frame rfl rfl rfl rfl rfl
    · split at hstep
      · cases hstep
        exact h.moveLoop hloop.1 rfl rfl rfl rfl
      · cases hstep
  case h_8 hl =>
    cases hstep
    exact h.moveLoop trivial rfl rfl rfl rfl
  case h_9 hl | h_10 hl =>
    split at hstep
    · cases hstep
      exact h.frame rfl rfl rfl rfl rfl
    · cases hstep
      exact h.moveLoop trivial rfl rfl rfl rfl
  case h_11 => cases hstep

theorem callStep_frame {s t : St} (hstep : callStep s = some t) :
    t.reqPC = s.reqPC ∧ t.loopPC = s.loopPC ∧ t.routes = s.routes ∧
      t.dialled = s.dialled ∧ t.written = s.written := by
  unfold callStep at hstep
  split at hstep
  case h_1 =>
    split at hstep
    · cases hstep; exact ⟨rfl, rfl, rfl, rfl, rfl⟩
    · split at hstep
      · cases hstep; exact ⟨rfl, rfl, rfl, rfl, rfl⟩
      · cases hstep
  case h_2 => cases hstep; exact ⟨rfl, rfl, rfl, rfl, rfl⟩
  case h_3 => split at hstep <;> (cases hstep; exact ⟨rfl, rfl, rfl, rfl, rfl⟩)
  case h_4 => cases hstep

theorem numbered_step {s t : St} {a : Act} (hc : ChanInv s) (h : Numbered s)
    (hstep : step c s a = some t) : Numbered t := by
  unfold step at hstep
  rw [if_neg (by rw [hc.calm]; simp)] at hstep
  cases a with
  | parse p => exact numbered_parse hc h hstep
  | req => exact numbered_reqStep hc h hstep
  | addr => exact numbered_sendAddr h hstep
  | conn => exact numbered_sendConn h hstep
  | loop ok => exact numbered_loopStep hc h hstep
  | call =>
    obtain ⟨h1, h2, h3, h4, h5⟩ := callStep_frame hstep
    exact h.frame h1 h2 h3 h4 h5
  | emit b =>
    simp only [emit] at hstep
    split at hstep
    · split at hstep
      · cases hstep
        exact h.frame rfl rfl rfl rfl rfl
      · cases hstep
    · cases hstep
  | setRoute id value =>
    cases hstep
    exact h.frame rfl rfl rfl rfl rfl
  | expire id =>
    cases hstep
    exact h.frame rfl rfl rfl rfl rfl

/-! ## The queue of routines and what they emit -/

/-- A connection that was dialled and whose routine is not in the queue yet. -/
def unqueued : LoopPC → Nat
  | .sendConn (some _) | .addCall _ | .sendCall _ => 1
  | _ => 0

/-- The routines are started in the order of the connections. -/
structure Queued (s : St) : Prop where
  order : s.ran ++ s.callCh = List.range (s.dialled.length - unqueued s.loopPC)
  running : ∀ t, s.callPC = .run t → s.ran.length = t + 1

/-- What was emitted is in the order of the routines. -/
structure Logged (s : St) : Prop where
  sorted : s.emitted.Pairwise fun e e' => e.1 ≤ e'.1
  started : ∀ e ∈ s.emitted, e.1 < s.ran.length

theorem Queued.frame {s t : St} (h : Queued s) (hran : t.ran = s.ran)
    (hch : t.callCh = s.callCh) (hpc : t.callPC = s.callPC)
    (hcount : t.dialled.length - unqueued t.loopPC =
      s.dialled.length - unqueued s.loopPC) :
    Queued t := by
  refine ⟨?_, ?_⟩
  · rw [hran, hch, hcount]; exact h.order
  · rw [hpc, hran]; exact h.running

theorem Logged.frame {s t : St} (h : Logged s) (hran : t.ran = s.ran)
    (hemitted : t.emitted = s.emitted) : Logged t := by
  refine ⟨?_, ?_⟩
  · rw [hemitted]; exact h.sorted
  · rw [hemitted, hran]; exact h.started

/-- What the queue and the log see of the request goroutine. -/
structure CallFrame (s t : St) : Prop where
  ran : t.ran = s.ran
  callCh : t.callCh = s.callCh
  callPC : t.callPC = s.callPC
  emitted : t.emitted = s.emitted

theorem parse_callFrame {s t : St} {p : Parsed} (hstep : parse c s p = some t) :
    CallFrame s t ∧ t.dialled = s.dialled ∧ t.loopPC = s.loopPC := by
  unfold parse at hstep
  split at hstep
  · split at hstep
    · cases hstep; exact ⟨⟨rfl, rfl, rfl, rfl⟩, rfl, rfl⟩
    · split at hstep <;> (cases hstep; exact ⟨⟨rfl, rfl, rfl, rfl⟩, rfl, rfl⟩)
    · cases hstep; exact ⟨⟨rfl, rfl, rfl, rfl⟩, rfl, rfl⟩
  · cases hstep

theorem reqStep_callFrame {s t : St} (hstep : reqStep s = some t) :
    CallFrame s t ∧ t.dialled = s.dialled ∧ t.loopPC = s.loopPC := by
  unfold reqStep at hstep
  split at hstep
  case h_1 | h_8 => cases hstep
  case h_2 | h_3 =>
    split at hstep
    · cases hstep; exact ⟨⟨rfl, rfl, rfl, rfl⟩, rfl, rfl⟩
    · cases hstep
  case h_4 | h_5 | h_7 => cases hstep; exact ⟨⟨rfl, rfl, rfl, rfl⟩, rfl, rfl⟩
  case h_6 => split at hstep
    <;> (cases hstep; exact ⟨⟨rfl, rfl, rfl, rfl⟩, rfl, rfl⟩)

theorem sendAddr_callFrame {s t : St} (hstep : sendAddr s = some t) :
    CallFrame s t ∧ t.dialled = s.dialled ∧ unqueued t.loopPC =
      unqueued s.loopPC := by
  unfold sendAddr at hstep
  split at hstep
  · next hl =>
      split at hstep
      · cases hstep
      · cases hstep
        refine ⟨⟨rfl, rfl, rfl, rfl⟩, rfl, ?_⟩
        rw [hl]
        rfl
  · cases hstep

theorem sendConn_callFrame {s t : St} (hstep : sendConn s = some t) :
    CallFrame s t ∧ t.dialled = s.dialled ∧
      unqueued t.loopPC = unqueued s.loopPC := by
  unfold sendConn at hstep
  split at hstep
  · next target hr hl =>
      split at hstep
      · cases hstep
      · cases hstep
        cases target <;> (refine ⟨⟨rfl, rfl, rfl, rfl⟩, rfl, ?_⟩; rw [hl]; rfl)
  · cases hstep

theorem queued_loopStep {s t : St} {ok : Bool} (hn : Numbered s) (h : Queued s)
    (hstep : loopStep s ok = some t) : Queued t := by
  have hloop := hn.loop
  unfold loopStep at hstep
  split at hstep
  case h_4 a hl =>
    split at hstep
    · cases hstep
      refine h.frame rfl rfl rfl ?_
      simp [unqueued, hl]
    · cases hstep
      exact h.frame rfl rfl rfl (by simp [unqueued, hl])
  case h_7 target hl =>
    simp only [LoopNum, hl] at hloop
    split at hstep
    · cases hstep
      exact h.frame rfl rfl rfl rfl
    · split at hstep
      · cases hstep
        refine ⟨?_, h.running⟩
        have horder := h.order
        have hd := hloop.2
        simp only [hl, unqueued, hd, Nat.add_sub_cancel] at horder
        simp only [unqueued, hd, Nat.sub_zero, List.range_succ]
        rw [← List.append_assoc, horder]
      · cases hstep
  case h_2 a hl =>
    cases hstep
    refine h.frame rfl rfl rfl ?_
    by_cases ha : a = [] <;> simp [unqueued, hl, ha]
  case h_3 a hl =>
    cases hstep
    refine h.frame rfl rfl rfl ?_
    cases ok <;> simp [unqueued, hl]
  case h_1 hl | h_5 hl | h_9 hl | h_10 hl =>
    split at hstep
      <;> (cases hstep; try exact h.frame rfl rfl rfl (by simp [unqueued, hl]))
  case h_6 hl | h_8 hl =>
    cases hstep; exact h.frame rfl rfl rfl (by simp [unqueued, hl])
  case h_11 => cases hstep

theorem loopStep_logFrame {s t : St} {ok : Bool}
    (hstep : loopStep s ok = some t) :
    t.ran = s.ran ∧ t.emitted = s.emitted := by
  unfold loopStep at hstep
  split at hstep
  case h_11 => cases hstep
  case h_2 | h_3 | h_6 | h_8 => cases hstep; exact ⟨rfl, rfl⟩
  case h_7 =>
    split at hstep
    · cases hstep; exact ⟨rfl, rfl⟩
    · split at hstep <;> cases hstep
      exact ⟨rfl, rfl⟩
  case h_1 | h_4 | h_5 | h_9 | h_10 =>
    split at hstep <;> cases hstep <;> exact ⟨rfl, rfl⟩

/-- Taking a routine from the queue, running it and counting it done. -/
theorem queued_callStep {s t : St} (hq : Queued s) (h : Logged s)
    (hstep : callStep s = some t) :
    Queued t ∧ Logged t := by
  unfold callStep at hstep
  split at hstep
  case h_1 hpc =>
    split at hstep
    · next target rest hch =>
        cases hstep
        have horder := hq.order
        rw [hch] at horder
        -- the routine taken is numbered by how many ran before it
        have htarget : target = s.ran.length := by
          have hget : (s.ran ++ target :: rest)[s.ran.length]? =
            some target := by simp
          rw [horder] at hget
          have := (List.getElem?_eq_some_iff.mp hget).2
          simpa using this.symm
        refine ⟨⟨?_, ?_⟩, ⟨h.sorted, ?_⟩⟩
        · rw [← horder]
          simp
        · intro t ht
          cases ht
          simp [htarget]
        · intro e he
          have := h.started e he
          simp only [List.length_append, List.length_singleton]
          omega
    · split at hstep
      · cases hstep
        exact ⟨⟨hq.order, fun t ht => by cases ht⟩, h.frame rfl rfl⟩
      · cases hstep
  case h_2 =>
    cases hstep
    exact ⟨⟨hq.order, fun t ht => by cases ht⟩, h.frame rfl rfl⟩
  case h_3 hpc =>
    split at hstep
    · cases hstep
      exact ⟨hq.frame rfl rfl rfl rfl, h.frame rfl rfl⟩
    · cases hstep
      exact ⟨⟨hq.order, fun t ht => by cases ht⟩, h.frame rfl rfl⟩
  case h_4 => cases hstep

theorem logged_emit {s t : St} {b : Bytes} (hq : Queued s) (h : Logged s)
    (hstep : emit s b = some t) : Queued t ∧ Logged t := by
  unfold emit at hstep
  split at hstep
  · next target hpc =>
      split at hstep
      · cases hstep
        have hrun := hq.running target hpc
        refine ⟨hq.frame rfl rfl rfl rfl, ⟨?_, ?_⟩⟩
        · rw [List.pairwise_append]
          refine ⟨h.sorted, List.pairwise_singleton _ _, ?_⟩
          intro e he e' he'
          rw [List.mem_singleton] at he'
          have := h.started e he
          subst he'
          dsimp only
          omega
        · intro e he
          rcases List.mem_append.mp he with he | he
          · exact h.started e he
          · rw [List.mem_singleton] at he
            subst he
            dsimp only
            omega
      · cases hstep
  · cases hstep

theorem queued_step {s t : St} {a : Act} (hc : ChanInv s) (hn : Numbered s)
    (h : Queued s ∧ Logged s) (hstep : step c s a = some t) :
    Queued t ∧ Logged t := by
  obtain ⟨hq, hl⟩ := h
  have hmove : ∀ {u}, CallFrame s u → u.dialled = s.dialled →
      unqueued u.loopPC = unqueued s.loopPC → Queued u ∧ Logged u :=
        fun hf hd hu =>
    ⟨hq.frame hf.ran hf.callCh hf.callPC (by rw [hd, hu]),
      hl.frame hf.ran hf.emitted⟩
  unfold step at hstep
  rw [if_neg (by rw [hc.calm]; simp)] at hstep
  cases a with
  | parse p =>
    obtain ⟨hf, hd, hu⟩ := parse_callFrame hstep
    exact hmove hf hd (by rw [hu])
  | req =>
    obtain ⟨hf, hd, hu⟩ := reqStep_callFrame hstep
    exact hmove hf hd (by rw [hu])
  | addr =>
    obtain ⟨hf, hd, hu⟩ := sendAddr_callFrame hstep
    exact hmove hf hd hu
  | conn =>
    obtain ⟨hf, hd, hu⟩ := sendConn_callFrame hstep
    exact hmove hf hd hu
  | loop ok =>
    obtain ⟨hran, hemitted⟩ := loopStep_logFrame hstep
    exact ⟨queued_loopStep hn hq hstep, hl.frame hran hemitted⟩
  | call => exact queued_callStep hq hl hstep
  | emit b => exact logged_emit hq hl hstep
  | setRoute id value =>
    cases hstep
    exact ⟨hq.frame rfl rfl rfl rfl, hl.frame rfl rfl⟩
  | expire id =>
    cases hstep
    exact ⟨hq.frame rfl rfl rfl rfl, hl.frame rfl rfl⟩

/-! ## Runs -/

theorem numbered_reaches {s : St} (h : Reaches (Fires (step c)) (init c) s) :
    Numbered s :=
  Reaches.invariant_of (fun _ => chanInv_reaches)
    (fun _ _ hc hs ⟨_, ha⟩ => numbered_step hc hs ha) numbered_init h

theorem queued_init : Queued (init c) ∧ Logged (init c) := by
  unfold init
  split <;>
    exact ⟨⟨rfl, fun _ ht => by cases ht⟩,
      ⟨List.Pairwise.nil, fun e he => by cases he⟩⟩

theorem queued_reaches {s : St} (h : Reaches (Fires (step c)) (init c) s) :
    Queued s ∧ Logged s :=
  Reaches.invariant_of (P := fun s => Queued s ∧ Logged s) (Q :=
    fun s => ChanInv s ∧ Numbered s)
    (fun _ ht => ⟨chanInv_reaches ht, numbered_reaches ht⟩)
    (fun _ _ hQ hs ⟨_, ha⟩ => queued_step hQ.1 hQ.2 hs ha) queued_init h

/-- The exchanges of a client connection are kept apart and in order: in every
state of every run the `k`-th request has been written to the `k`-th target
connection, dialled at the address chosen for it, or to none yet (and only the
latest can be missing); the response routines were started in the order of the
targets; and the client has received what the routine of the first target
emitted, then what that of the second did, and so on. -/
theorem exchanges_in_order {s : St} (h : Reaches (Fires (step c)) (init c) s) :
    (∀ k t, (k, t) ∈ s.written → t = k ∧ k < s.dialled.length) ∧
    (∀ k, k + 1 < s.routes.length → (k, k) ∈ s.written) ∧
    s.dialled <+: s.routes ∧
    s.ran = List.range s.ran.length ∧
    s.client = (List.range s.ran.length).flatMap s.emittedBy := by
  have hn := numbered_reaches h
  obtain ⟨hq, hl⟩ := queued_reaches h
  refine ⟨?_, ?_, hn.dialled, ?_, flatMap_eq_grouped hl.sorted hl.started⟩
  · intro k t hkt
    have hle := hn.written_le
    rw [hn.written] at hkt
    obtain ⟨j, hj, heq⟩ := List.mem_map.mp hkt
    cases heq
    exact ⟨rfl, (List.mem_range.mp hj).trans_le hle⟩
  · intro k hk
    have hcount : s.routes.length ≤ s.written.length + 1 := by
      have := hn.req
      unfold ReqNum at this
      split at this <;> omega
    rw [hn.written]
    exact List.mem_map.mpr ⟨k, List.mem_range.mpr (by omega), rfl⟩
  · have := congrArg (List.take s.ran.length) hq.order
    rw [List.take_left, List.take_range] at this
    rw [this]
    simp

/-- A turn of the request goroutine and the loop that succeeds: the request is
routed, its target dialled, the request written and the routine queued. -/
def forwardTurn (path : Bytes) : List Act :=
  [.parse (.request (plainRequest path) (lit "id")), .addr, .loop true,
    .loop true, .loop true,
   .conn, .req, .loop true, .loop true]

/-- Two pipelined requests; both are forwarded before the first routine
starts. -/
def twoExchanges : List Act :=
  forwardTurn (lit "/a") ++ forwardTurn (lit "/b") ++
    [.call, .emit (lit "one "), .emit (lit "two "), .call, .call,
     .call, .emit (lit "three"), .call, .call]

theorem exchanges_in_order_two :
    ∃ s, Reaches (Fires (step plainConf)) (init plainConf) s ∧
      s.ran = List.range 2 ∧ s.client = lit "one two three" ∧
      s.client = (List.range s.ran.length).flatMap s.emittedBy := by
  have hex : ∃ s, exec (step plainConf) (init plainConf) twoExchanges = some s ∧
      s.ran = List.range 2 ∧ s.client = lit "one two three" :=
    ⟨_, rfl, by decide +kernel, by decide +kernel⟩
  obtain ⟨s, hs, hran, hclient⟩ := hex
  exact ⟨s, reaches_of_exec hs, hran, hclient,
    (exchanges_in_order (reaches_of_exec hs)).2.2.2.2⟩

end Netramesh.Proofs
