import Netramesh.Proofs.Moves

/-!
# Who closes the client

Three places close the client's connection: the two error branches of the loop
of `HandleConnection` together with its end-of-addresses branch, and
`TcpCopyRequest`. None of them waits for the response routines; the
`wg.Wait()` that was meant to stands behind a loop without an exit. A routine
of an earlier request is therefore spared only if it has returned before the
request goroutine leaves, or before a dial fails.
-/

namespace Netramesh.Proofs

open Http Transport Lib

variable {c : Conf}

/-! ## Response routines -/

/-- The targets whose response routine is queued or running. -/
def pending (s : St) : List Nat :=
  s.callCh ++ match s.callPC with | .run t => [t] | _ => []

/-- The target whose routine the loop is about to queue. -/
def inHand : LoopPC → List Nat
  | .addCall t | .sendCall t => [t]
  | _ => []

/-- The client's connection has not been closed under the routine of a request
that came before the last one, so what such a routine writes arrives. -/
def Spared (s : St) : Prop :=
  (s.clientOpen = false → ∀ t ∈ pending s, s.routes.length ≤ t + 1) ∧
    ∀ t b, s.callPC = .run t → t + 1 < s.routes.length →
      (emit s b).isSome = true

/-- The action ends the request goroutine's loop, or is a resolve or a dial that
fails. -/
def leaves (s : St) : Act → Bool
  | .parse .ended => true
  | .parse .failed => s.reqPC == .read none
  | .req => match s.reqPC with | .copy _ _ => true | _ => false
  | .loop false =>
      match s.loopPC with | .resolve _ | .dial _ => true | _ => false
  | _ => false

/-- By then the routines of the earlier requests have returned. -/
def Patient (s : St) (a : Act) : Prop :=
  leaves s a = true → ∀ t ∈ pending s, s.routes.length ≤ t + 1

instance (s : St) (a : Act) : Decidable (Patient s a) :=
  inferInstanceAs (Decidable (_ → _))

/-! ## The invariant -/

/-- The loop has met a failure or is on its way out. -/
def LoopPC.leaving : LoopPC → Bool
  | .sendConn none | .closeClient | .closeConnCh | .closeCallCh
      | .returned => true
  | _ => false

/-- The loop has closed the client's connection. -/
def LoopPC.closedClient : LoopPC → Bool
  | .closeConnCh | .closeCallCh | .returned => true
  | _ => false

/-- Once a goroutine leaves, only the last request's routine can be outstanding;
and the client's connection is closed by one that has left. -/
structure Quiet (s : St) : Prop where
  early : ReqPC.leaving s.reqPC = true ∨ LoopPC.leaving s.loopPC = true →
    ∀ t ∈ inHand s.loopPC ++ pending s, s.routes.length ≤ t + 1
  closed : s.clientOpen = false → s.reqPC = .returned ∨
    LoopPC.closedClient s.loopPC = true

theorem quiet_init : Quiet (init c) := by
  unfold init
  split <;> exact ⟨fun _ t ht => (by cases ht), fun h => (by cases h)⟩

theorem LoopPC.leaving_of_closedClient {l : LoopPC}
    (h : LoopPC.closedClient l = true) :
    LoopPC.leaving l = true := by
  cases l <;> first | rfl | cases h

/-- A loop on its way out has sent the request goroutine away. -/
theorem ChanInv.loop_stays {s : St} {w : Option Nat} (hc : ChanInv s)
    (hpc : s.reqPC = .read w) :
    LoopPC.leaving s.loopPC = false := by
  have hturn := hc.turn
  rw [hpc] at hturn
  cases hl : s.loopPC with
  | sendConn w => rw [hl] at hturn; cases hturn
  | closeClient | closeConnCh | closeCallCh | returned =>
      rw [hl] at hturn; cases hturn
  | _ => rfl

theorem Quiet.spared {s : St} (h : Quiet s) : Spared s := by
  have hearly : s.clientOpen = false → ∀ t ∈ pending s,
      s.routes.length ≤ t + 1 := by
    intro hopen t ht
    refine h.early ?_ t (List.mem_append_right _ ht)
    rcases h.closed hopen with hr | hl
    · left
      rw [hr]
      rfl
    · exact .inr (LoopPC.leaving_of_closedClient hl)
  refine ⟨hearly, fun t b hpc hlt => ?_⟩
  have hmem : t ∈ pending s := by
    rw [pending, hpc]
    exact List.mem_append_right _ (List.mem_singleton_self t)
  cases hopen : s.clientOpen with
  | true => simp [emit, hpc, hopen]
  | false =>
    have := hearly hopen t hmem
    omega

/-- The request that is being queued is the last one, if the request goroutine
has one in hand. -/
theorem inHand_last {s : St} (hn : Numbered s) {t : Nat}
    (ht : t ∈ inHand s.loopPC)
    (hreq : (∃ w, s.reqPC = .read w) ∨ ∃ k w, s.reqPC = .copy k w) :
    s.routes.length ≤ t + 1 := by
  have hloop := hn.loop
  have hr := hn.req
  have hobt : Obtained s ∧ s.dialled.length = t + 1 := by
    cases hl : s.loopPC with
    | addCall t' | sendCall t' =>
      rw [hl] at ht
      simp only [LoopNum, hl] at hloop
      rw [List.mem_singleton.mp ht]
      exact hloop
    | _ => rw [hl] at ht; cases ht
  unfold Obtained at hobt
  unfold ReqNum at hr
  rcases hreq with ⟨w, hw⟩ | ⟨k, w, hw⟩
  · rw [hw] at hobt hr
    cases w with
    | none =>
      dsimp only at hobt hr
      omega
    | some w =>
      dsimp only at hobt hr
      omega
  · rw [hw] at hobt hr
    cases k <;> (dsimp only at hobt hr; omega)

theorem Quiet.returned {s : St} (h : Quiet s)
    (hl : LoopPC.closedClient s.loopPC = false) (hopen : s.clientOpen = false) :
    s.reqPC = .returned := by
  rcases h.closed hopen with hr | hf
  · exact hr
  · rw [hl] at hf
    cases hf

/-- An action that changes no routine and no number. -/
theorem Quiet.frame {s t : St} (h : Quiet s) (hreq : t.reqPC = s.reqPC)
    (hloop : t.loopPC = s.loopPC) (hpending : pending t = pending s)
    (hroutes : t.routes = s.routes) (hopen : t.clientOpen = s.clientOpen) :
    Quiet t := by
  refine ⟨?_, ?_⟩
  · rw [hreq, hloop, hpending, hroutes]
    exact h.early
  · rw [hopen, hreq, hloop]
    exact h.closed

/-- The request goroutine leaves. -/
theorem Quiet.leaveReq {s t : St} {a : Act} (h : Quiet s) (hn : Numbered s)
    (hp : Patient s a) (ha : leaves s a = true)
    (hreq : (∃ w, s.reqPC = .read w) ∨ ∃ k w, s.reqPC = .copy k w)
    (hloop : t.loopPC = s.loopPC) (hpending : pending t = pending s)
    (hroutes : t.routes = s.routes) (hopen : t.clientOpen = s.clientOpen)
    (hret : s.reqPC ≠ .returned) : Quiet t := by
  refine ⟨?_, ?_⟩
  · intro _ t' ht
    rw [hloop, hpending] at ht
    rw [hroutes]
    rcases List.mem_append.mp ht with ht | ht
    · exact inHand_last hn ht hreq
    · exact hp ha t' ht
  · rw [hopen, hloop]
    intro hf
    rcases h.closed hf with hr | hl
    · exact absurd hr hret
    · exact .inr hl

/-- While the request goroutine is in its loop, the client's connection is open
unless the loop has closed it. -/
theorem Quiet.moveReq {s t : St} (h : Quiet s)
    (hreq : ReqPC.leaving t.reqPC = true → ReqPC.leaving s.reqPC = true)
    (hret : s.reqPC = .returned → t.reqPC = .returned)
    (hroutes : t.routes.length = s.routes.length ∨
      LoopPC.leaving s.loopPC = false ∧ ReqPC.leaving t.reqPC = false)
    (hloop : t.loopPC = s.loopPC) (hpending : pending t = pending s)
    (hopen : t.clientOpen = s.clientOpen) : Quiet t := by
  refine ⟨?_, ?_⟩
  · intro hleave
    rw [hloop, hpending]
    rcases hroutes with hroutes | ⟨h1, h2⟩
    · rw [hroutes]
      refine h.early ?_
      rw [hloop] at hleave
      exact hleave.imp hreq id
    · rw [hloop, h1, h2] at hleave
      rcases hleave with hf | hf <;> cases hf
  · rw [hopen, hloop]
    exact fun hf => (h.closed hf).imp hret id

theorem quiet_move {s t : St} {a : Act} (hc : ChanInv s) (hn : Numbered s)
    (h : Quiet s) (hp : Patient s a) (hm : Move c s a t) : Quiet t := by
  have hturn := hc.turn
  cases hm with
  | ended hpc =>
    exact h.leaveReq hn hp rfl (.inl ⟨_, hpc⟩) rfl rfl rfl rfl
      (by rw [hpc]; simp)
  | failedFirst hpc =>
    exact h.leaveReq hn hp
      (by rw [leaves, hpc]; rfl) (.inl ⟨_, hpc⟩) rfl rfl rfl rfl
      (by rw [hpc]; simp)
  | failed hpc =>
    exact h.moveReq
      (fun hf => by cases hf) (fun hf => by rw [hpc] at hf; cases hf) (.inl rfl)
      rfl rfl rfl
  | request hpc =>
    exact h.moveReq
      (fun hf => by cases hf) (fun hf => by rw [hpc] at hf; cases hf)
      (.inr ⟨hc.loop_stays hpc, rfl⟩) rfl rfl rfl
  | write hpc =>
    exact h.moveReq
      (fun hf => by cases hf) (fun hf => by rw [hpc] at hf; cases hf) (.inl rfl)
      rfl rfl rfl
  | copied hpc =>
    exact h.leaveReq hn hp
      (by rw [leaves, hpc]) (.inr ⟨_, _, hpc⟩) rfl rfl rfl rfl
      (by rw [hpc]; simp)
  | closeAddr hpc _ =>
    exact h.moveReq
      (fun _ => by rw [hpc]; rfl) (fun hf => by rw [hpc] at hf; cases hf)
      (.inl rfl)
      rfl rfl rfl
  | closeConns hpc =>
    exact ⟨fun _ => h.early (.inl (by rw [hpc]; rfl)), fun _ => .inl rfl⟩
  | addr hpc hl =>
    refine ⟨fun hf => ?_, fun hf => ?_⟩
    · rcases hf with hf | hf <;> cases hf
    · have hr := h.returned (by rw [hl]; rfl) hf
      rw [hpc] at hr
      cases hr
  | refused hpc hl =>
    refine ⟨fun _ => ?_, fun hf => ?_⟩
    · have := h.early (.inr (by rw [hl]; rfl))
      rw [hl] at this
      exact this
    · have hr := h.returned (by rw [hl]; rfl) hf
      rw [hpc] at hr
      cases hr
  | given hpc hl =>
    refine ⟨fun hf => ?_, fun hf => ?_⟩
    · dsimp only at hf
      split at hf <;> (rcases hf with hf | hf <;> cases hf)
    · have hr := h.returned (by rw [hl]; rfl) hf
      rw [hpc] at hr
      cases hr
  | noAddr hl haddr =>
    have hleaving : ReqPC.leaving s.reqPC = true := by
      rw [hc.addr] at haddr
      exact ReqPC.leaving_of_closed haddr
    refine ⟨fun _ => ?_, fun hf => ?_⟩
    · have := h.early (.inl hleaving)
      rw [hl] at this
      exact this
    · exact .inl (h.returned (by rw [hl]; rfl) hf)
  | leave hl =>
    have hleaving : ReqPC.leaving s.reqPC = true := by
      rw [hl] at hturn
      exact ReqPC.leaving_of_closed hturn
    refine ⟨fun _ => ?_, fun hf => ?_⟩
    · have := h.early (.inl hleaving)
      rw [hl] at this
      exact this
    · exact .inl (h.returned (by rw [hl]; rfl) hf)
  | take hl ha =>
    have hwaits : ReqPC.leaving s.reqPC = false := by
      rw [hl] at hturn
      simp only [Turn, if_neg ha] at hturn
      cases hr : s.reqPC <;> rw [hr] at hturn <;> first | rfl | cases hturn
    refine ⟨fun hf => ?_, fun hf => ?_⟩
    · rcases hf with hf | hf
      · rw [hwaits] at hf
        cases hf
      · cases hf
    · exact .inl (h.returned (by rw [hl]; rfl) hf)
  | resolved hl | dialled hl =>
    have hwaits : ReqPC.leaving s.reqPC = false := by
      rw [hl] at hturn
      cases hr : s.reqPC <;> rw [hr] at hturn <;> first | rfl | cases hturn
    refine ⟨fun hf => ?_, fun hf => ?_⟩
    · rcases hf with hf | hf
      · rw [hwaits] at hf
        cases hf
      · cases hf
    · exact .inl (h.returned (by rw [hl]; rfl) hf)
  | unresolved hl | undialled hl =>
    refine ⟨fun _ t ht => ?_, fun hf => ?_⟩
    · exact hp (by rw [leaves, hl]) t ht
    · exact .inl (h.returned (by rw [hl]; rfl) hf)
  | addCall hl =>
    refine ⟨fun hf => ?_, fun hf => ?_⟩
    · have hearly := h.early
      rw [hl] at hearly
      exact hearly (hf.imp id fun hf => by cases hf)
    · exact .inl (h.returned (by rw [hl]; rfl) hf)
  | sendCall hl _ =>
    refine ⟨fun hf t ht => ?_, fun hf => ?_⟩
    · have hearly := h.early
      rw [hl] at hearly
      refine hearly (hf.imp id fun hf => by cases hf) t ?_
      simp only [inHand, pending, List.nil_append, List.mem_append] at ht ⊢
      rcases ht with (ht | ht) | ht
      · exact .inr (.inl ht)
      · exact .inl ht
      · exact .inr (.inr ht)
    · exact .inl (h.returned (by rw [hl]; rfl) hf)
  | closeClient hl | closeConnCh hl | closeCallCh hl =>
    refine ⟨fun _ => ?_, fun _ => .inr rfl⟩
    have := h.early (.inr (by rw [hl]; rfl))
    rw [hl] at this
    exact this
  | start hpc hch =>
    refine ⟨fun hf t ht => h.early hf t ?_, h.closed⟩
    simp only [pending, hpc, hch, List.mem_append, List.mem_cons] at ht ⊢
    rcases ht with ht | ht | ht
    · exact .inl ht
    · exact .inr (.inl (.inr ht))
    · rcases ht with ht | ht
      · exact .inr (.inl (.inl ht))
      · cases ht
  | drained hpc hch _ => exact h.frame rfl rfl (by simp [pending, hpc]) rfl rfl
  | finish hpc =>
    refine ⟨fun hf t ht => h.early hf t ?_, h.closed⟩
    simp only [pending, List.mem_append, List.append_nil] at ht ⊢
    rcases ht with ht | ht
    · exact .inl ht
    · exact .inr (.inl ht)
  | next hpc => exact h.frame rfl rfl (by simp [pending, hpc]) rfl rfl
  | emit hpc hopen => exact h.frame rfl rfl rfl rfl rfl
  | setRoute => exact h.frame rfl rfl rfl rfl rfl
  | expire => exact h.frame rfl rfl rfl rfl rfl

/-- In every run in which the request goroutine leaves its loop, and a resolve
or a dial fails, only when the routines of the earlier requests have returned,
the client's connection is not closed under such a routine, and everything it
writes arrives. -/
theorem earlier_answers_spared {s : St}
    (h : Reaches (FiresIf (step c) Patient) (init c) s) : Spared s := by
  have hq : Quiet s := Reaches.invariant_of (P := Quiet) (Q :=
    fun s => ChanInv s ∧ Numbered s)
    (fun _ ht => ⟨chanInv_reaches (reaches_of_firesIf ht),
      numbered_reaches (reaches_of_firesIf ht)⟩)
    (fun _ _ hQ hs ⟨_, ha, hp⟩ =>
      quiet_move hQ.1 hQ.2 hs hp (move_of_step hQ.1 ha)) quiet_init h
  exact hq.spared

/-! ## Two runs

Two requests are forwarded and the dial for a third fails, once while the first
routine is still waiting for its target, once after both have returned. -/

/-- A request whose target cannot be dialled. -/
def refusedTurn (path : Bytes) : List Act :=
  [.parse (.request (plainRequest path) (lit "id")), .addr, .loop true,
    .loop true, .loop false,
   .conn, .loop true]

def refusedEarly : List Act :=
  forwardTurn (lit "/a") ++ [.call] ++ forwardTurn (lit "/b") ++
    refusedTurn (lit "/c")

def refusedLate : List Act :=
  twoExchanges ++ refusedTurn (lit "/c")

theorem refused_dial_cuts_answers :
    ¬ ∀ s, Reaches (Fires (step plainConf)) (init plainConf) s → Spared s := by
  intro h
  have hex : ∃ s, exec (step plainConf) (init plainConf) refusedEarly = some s ∧
      s.clientOpen = false ∧ s.callPC = .run 0 ∧ s.routes.length = 3 :=
    ⟨_, rfl, by decide +kernel, by decide +kernel, by decide +kernel⟩
  obtain ⟨s, hs, hopen, hpc, hroutes⟩ := hex
  have hmem : 0 ∈ pending s := by
    rw [pending, hpc]
    exact List.mem_append_right _ (List.mem_singleton_self 0)
  have := (h s (reaches_of_exec hs)).1 hopen 0 hmem
  omega

theorem refused_dial_after_answers :
    ∃ s, Reaches (FiresIf (step plainConf) Patient) (init plainConf) s ∧
      s.clientOpen = false ∧ s.client = lit "one two three" ∧ Spared s := by
  have hex : ∃ s, execIf (step plainConf) Patient (init plainConf) refusedLate =
    some s ∧
      s.clientOpen = false ∧ s.client = lit "one two three" :=
    ⟨_, rfl, by decide +kernel, by decide +kernel⟩
  obtain ⟨s, hs, hopen, hclient⟩ := hex
  exact ⟨s, reaches_of_execIf hs, hopen, hclient,
    earlier_answers_spared (reaches_of_execIf hs)⟩

end Netramesh.Proofs
