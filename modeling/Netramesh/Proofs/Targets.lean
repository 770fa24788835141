import Netramesh.Proofs.Closing

/-!
# Targets that outlive their client

When the request goroutine leaves it closes the target it holds, the last one.
The earlier ones are left to their response routines, which run one after the
other: a target that never answers keeps its own connection open, and those of
the routines queued behind it.
-/

namespace Netramesh.Proofs

open Http Transport Lib

variable {c : Conf}

/-- When the client is gone and both goroutines have returned, every target that
was dialled has been closed. -/
def Released (s : Targets) : Prop :=
  s.gone = true → s.st.reqPC = .returned → s.st.loopPC = .returned →
    ∀ t, t < s.st.dialled.length → t ∈ s.closed

/-- When the request goroutine leaves its loop, or a resolve or a dial fails,
the targets of the earlier requests have been closed. -/
def Settled (s : Targets) : TargetAct → Prop
  | .act a => leaves s.st a = true → ∀ t < s.st.routes.length - 1, t ∈ s.closed
  | _ => True

instance (s : Targets) (a : TargetAct) : Decidable (Settled s a) :=
  match a with
  | .act a => inferInstanceAs (Decidable (leaves s.st a = true →
      ∀ t < s.st.routes.length - 1, t ∈ s.closed))
  | .force | .leave => .isTrue trivial

/-! ## The invariant -/

/-- The target the request goroutine leaves with is the last one; all others
belong to earlier requests. -/
def LeftWith (s : Targets) : Prop :=
  match s.st.reqPC with
  | .closeAddr w | .closeConns w =>
    ∀ t < s.st.dialled.length, t < s.st.routes.length - 1 ∨ w = some t
  | .returned => ∀ t < s.st.dialled.length, t < s.st.routes.length - 1 ∨
      t ∈ s.closed
  | _ => True

structure Disposed (s : Targets) : Prop where
  early : ReqPC.leaving s.st.reqPC = true ∨ LoopPC.leaving s.st.loopPC = true →
    ∀ t < s.st.routes.length - 1, t ∈ s.closed
  kept : LeftWith s
  refused : s.st.loopPC = .sendConn none →
    s.st.dialled.length ≤ s.st.routes.length - 1

theorem disposed_init : Disposed { st := init c } := by
  have hstart : (∃ w, (init c).reqPC = .read w) ∨
      ∃ k raw a, (init c).reqPC = .sendAddr k raw a := by
    unfold init
    split
    · exact .inl ⟨_, rfl⟩
    · exact .inr ⟨_, _, _, rfl⟩
  have hloop : (init c).loopPC = .recvAddr := by
    unfold init
    split <;> rfl
  refine ⟨?_, ?_, ?_⟩
  · intro hleave
    dsimp only at hleave
    rw [hloop] at hleave
    rcases hstart with ⟨w, hw⟩ | ⟨k, raw, a, hk⟩
    · rw [hw] at hleave
      rcases hleave with hf | hf <;> cases hf
    · rw [hk] at hleave
      rcases hleave with hf | hf <;> cases hf
  · dsimp only [LeftWith]
    rcases hstart with ⟨w, hw⟩ | ⟨k, raw, a, hk⟩
    · rw [hw]
      trivial
    · rw [hk]
      trivial
  · dsimp only
    rw [hloop]
    intro hf
    cases hf

theorem Disposed.released {s : Targets} (h : Disposed s) : Released s := by
  intro _ hreq _ t ht
  have hkept := h.kept
  rw [LeftWith, hreq] at hkept
  rcases hkept t ht with hlt | hmem
  · exact h.early (.inl (by rw [hreq]; rfl)) t hlt
  · exact hmem

/-- What an action leaves of the invariant that moves neither the request
goroutine nor the loop, and closes perhaps more. -/
theorem Disposed.frame {s t : Targets} (h : Disposed s)
    (hreq : t.st.reqPC = s.st.reqPC) (hloop : t.st.loopPC = s.st.loopPC)
    (hroutes : t.st.routes = s.st.routes)
    (hdialled : t.st.dialled = s.st.dialled)
    (hclosed : ∀ k ∈ s.closed, k ∈ t.closed) :
    Disposed t := by
  refine ⟨?_, ?_, ?_⟩
  · rw [hreq, hloop, hroutes]
    exact fun hl k hk => hclosed k (h.early hl k hk)
  · have hkept := h.kept
    unfold LeftWith at hkept ⊢
    rw [hreq, hroutes, hdialled]
    split at hkept
    · exact hkept
    · exact hkept
    · exact fun k hk => (hkept k hk).imp id (hclosed k)
    · trivial
  · rw [hloop, hroutes, hdialled]
    exact h.refused

/-- The request goroutine leaves with the target it holds. -/
theorem Disposed.leaveReq {s t : Targets} {b : Act} {w : Option Nat}
    (h : Disposed s) (hset : Settled s (.act b)) (hb : leaves s.st b = true)
    (hreq : t.st.reqPC = .closeAddr w)
    (hlast : ∀ k < s.st.dialled.length, k < s.st.routes.length - 1 ∨ w = some k)
    (hloop : t.st.loopPC = s.st.loopPC) (hroutes : t.st.routes = s.st.routes)
    (hdialled : t.st.dialled = s.st.dialled)
    (hclosed : ∀ k ∈ s.closed, k ∈ t.closed) :
    Disposed t := by
  refine ⟨?_, ?_, ?_⟩
  · intro _ k hk
    rw [hroutes] at hk
    exact hclosed k (hset hb k hk)
  · rw [LeftWith, hreq]
    dsimp only
    rw [hroutes, hdialled]
    exact hlast
  · rw [hloop, hroutes, hdialled]
    exact h.refused

/-- Moves of the request goroutine inside its loop. -/
theorem Disposed.stayReq {s t : Targets} (h : Disposed s)
    (hreq : ReqPC.leaving t.st.reqPC = false)
    (hroutes : LoopPC.leaving s.st.loopPC = true → t.st.routes = s.st.routes)
    (hloop : t.st.loopPC = s.st.loopPC) (hdialled : t.st.dialled = s.st.dialled)
    (hclosed : ∀ k ∈ s.closed, k ∈ t.closed) : Disposed t := by
  refine ⟨?_, ?_, ?_⟩
  · intro hleave k hk
    rw [hreq, hloop] at hleave
    rcases hleave with hf | hl
    · cases hf
    · rw [hroutes hl] at hk
      exact hclosed k (h.early (.inr hl) k hk)
  · unfold LeftWith
    cases hr : t.st.reqPC <;> first | trivial | (rw [hr] at hreq; cases hreq)
  · intro hl
    rw [hloop] at hl
    rw [hroutes (by rw [hl]; rfl), hdialled]
    exact h.refused hl

/-- Moves of the loop before it leaves. -/
theorem Disposed.stayLoop {s t : Targets} (h : Disposed s)
    (hreq : t.st.reqPC = s.st.reqPC)
    (hloop : LoopPC.leaving t.st.loopPC = true →
      ReqPC.leaving s.st.reqPC = true)
    (hsend : t.st.loopPC ≠ .sendConn none) (hroutes : t.st.routes = s.st.routes)
    (hdialled : ReqPC.leaving s.st.reqPC = true → t.st.dialled = s.st.dialled)
    (hclosed : t.closed = s.closed) : Disposed t := by
  refine ⟨?_, ?_, fun hf => absurd hf hsend⟩
  · intro hleave
    rw [hreq] at hleave
    rw [hroutes, hclosed]
    exact h.early (.inl (hleave.elim id hloop))
  · have hkept := h.kept
    unfold LeftWith at hkept ⊢
    rw [hreq, hroutes, hclosed]
    cases hr : s.st.reqPC with
    | closeAddr w | closeConns w | returned =>
      rw [hr] at hkept
      rw [hdialled (by rw [hr]; rfl)]
      exact hkept
    | _ => trivial

theorem disposed_move {s : Targets} {u : St} {b : Act} (hc : ChanInv s.st)
    (hn : Numbered s.st) (h : Disposed s) (hset : Settled s (.act b))
    (hm : Move c s.st b u) :
    Disposed { s with st := u, closed := s.closed ++ closes s.st b } := by
  have hturn := hc.turn
  have hnum := hn.req
  have hle := hn.dialled.length_le
  have happend : ∀ k ∈ s.closed, k ∈ s.closed ++ closes s.st b :=
    fun k hk => List.mem_append_left _ hk
  have hnone : closes s.st b = [] → s.closed ++ closes s.st b = s.closed := by
    intro hnil
    rw [hnil, List.append_nil]
  have hwaiting : ReqPC.waits s.st.reqPC = true →
      ReqPC.leaving s.st.reqPC = false := by
    intro hw
    cases hr : s.st.reqPC <;> rw [hr] at hw <;> first | rfl | cases hw
  cases hm with
  | @ended w hpc =>
    refine h.leaveReq hset rfl rfl ?_ rfl rfl rfl happend
    intro k hk
    rw [ReqNum, hpc] at hnum
    cases w with
    | none =>
      dsimp only at hnum
      omega
    | some w =>
      dsimp only at hnum
      rcases Nat.lt_or_ge k w with hlt | hge
      · left
        omega
      · right
        rw [show k = w by omega]
  | failedFirst hpc =>
    refine h.leaveReq hset (by rw [leaves, hpc]; rfl) rfl ?_ rfl rfl rfl happend
    intro k hk
    rw [ReqNum, hpc] at hnum
    dsimp only at hnum
    omega
  | failed hpc => exact h.stayReq rfl (fun _ => rfl) rfl rfl happend
  | request hpc =>
    refine h.stayReq rfl (fun hl => ?_) rfl rfl happend
    rw [hc.loop_stays hpc] at hl
    cases hl
  | write hpc => exact h.stayReq rfl (fun _ => rfl) rfl rfl happend
  | @copied k w hpc =>
    refine h.leaveReq hset (by rw [leaves, hpc]) rfl ?_ rfl rfl rfl happend
    intro j hj
    have hroutes : s.st.routes.length = w + 1 := by
      rw [ReqNum, hpc] at hnum
      cases k <;> (dsimp only at hnum; omega)
    rcases Nat.lt_or_ge j w with hlt | hge
    · left
      omega
    · right
      rw [show j = w by omega]
  | closeAddr hpc _ =>
    refine ⟨fun _ k hk => happend k (h.early (.inl (by rw [hpc]; rfl)) k hk),
      ?_, h.refused⟩
    have hkept := h.kept
    rw [LeftWith, hpc] at hkept
    exact hkept
  | @closeConns w hpc =>
    refine ⟨fun _ k hk => happend k (h.early (.inl (by rw [hpc]; rfl)) k hk),
      ?_, h.refused⟩
    have hkept := h.kept
    rw [LeftWith, hpc] at hkept
    intro k hk
    rcases hkept k hk with hlt | hw
    · exact .inl hlt
    · right
      subst hw
      rw [closes, hpc]
      exact List.mem_append_right _ (List.mem_singleton_self k)
  | addr hpc hl =>
    refine ⟨fun hf => ?_, trivial, fun hf => by cases hf⟩
    rcases hf with hf | hf <;> cases hf
  | refused hpc hl =>
    refine ⟨fun _ k hk => happend k (h.early (.inr (by rw [hl]; rfl)) k hk), ?_,
      fun hf => by cases hf⟩
    have hlen := h.refused hl
    intro k hk
    left
    dsimp only at hk ⊢
    omega
  | @given k t raw hpc hl =>
    refine ⟨fun hf => ?_, ?_, fun hf => by cases hf⟩
    · dsimp only at hf
      split at hf <;> (rcases hf with hf | hf <;> cases hf)
    · cases raw <;> trivial
  | noAddr hl haddr =>
    exact h.stayLoop rfl
      (fun hf => by cases hf) (by simp) rfl (fun _ => rfl) (hnone rfl)
  | leave hl =>
    rw [hl] at hturn
    exact h.stayLoop rfl (fun _ => ReqPC.leaving_of_closed hturn)
      (by simp) rfl (fun _ => rfl)
      (hnone rfl)
  | take hl _ | resolved hl | addCall hl | sendCall hl _ =>
    exact h.stayLoop rfl
      (fun hf => by cases hf) (by simp) rfl (fun _ => rfl) (hnone rfl)
  | dialled hl =>
    rw [hl] at hturn
    refine h.stayLoop rfl
      (fun hf => by cases hf) (by simp) rfl (fun hf => ?_) (hnone rfl)
    rw [hwaiting hturn] at hf
    cases hf
  | unresolved hl | undialled hl =>
    have hloop := hn.loop
    simp only [LoopNum, hl, Holds] at hloop
    rw [hl] at hturn
    refine ⟨fun _ k hk => happend k (hset (by rw [leaves, hl]) k hk), ?_,
      fun _ => ?_⟩
    · have hwait := hwaiting hturn
      unfold LeftWith
      dsimp only
      cases hr : s.st.reqPC
      all_goals first
        | trivial
        | (rw [hr] at hwait; cases hwait)
    · dsimp only
      omega
  | closeClient hl | closeConnCh hl | closeCallCh hl =>
    rw [hl] at hturn
    exact h.stayLoop rfl (fun _ => hturn)
      (by simp) rfl (fun _ => rfl) (hnone rfl)
  | start hpc _ | drained hpc _ _ | finish hpc | next hpc | emit hpc _ =>
    exact h.frame rfl rfl rfl rfl happend
  | setRoute | expire => exact h.frame rfl rfl rfl rfl happend

theorem disposed_step {s t : Targets} {a : TargetAct} (hc : ChanInv s.st)
    (hn : Numbered s.st) (h : Disposed s) (hset : Settled s a)
    (hstep : targetStep c s a = some t) : Disposed t := by
  cases a with
  | act b =>
    obtain ⟨u, hu, rfl⟩ := Option.map_eq_some_iff.mp hstep
    exact disposed_move hc hn h hset (move_of_step hc hu)
  | force =>
    rw [targetStep] at hstep
    split at hstep
    · cases hstep
      exact h.frame rfl rfl rfl rfl fun k hk => List.mem_append_left _ hk
    · cases hstep
  | leave =>
    cases hstep
    exact h.frame rfl rfl rfl rfl fun k hk => hk

/-! ## Runs -/

theorem targetStep_st {s t : Targets} {a : TargetAct}
    (h : targetStep c s a = some t) :
    t.st = s.st ∨ Fires (step c) s.st t.st := by
  cases a with
  | act b =>
    obtain ⟨u, hu, rfl⟩ := Option.map_eq_some_iff.mp h
    exact .inr ⟨b, hu⟩
  | force =>
    rw [targetStep] at h
    split at h
    · cases h
      exact .inl rfl
    · cases h
  | leave =>
    cases h
    exact .inl rfl

theorem settled_reaches {s : Targets}
    (h : Reaches (FiresIf (targetStep c) Settled) { st := init c } s) :
    Reaches (Fires (step c)) (init c) s.st :=
  Reaches.invariant (P := fun s : Targets =>
    Reaches (Fires (step c)) (init c) s.st)
    (fun a b ha ⟨_, hstep, _⟩ => by
      rcases targetStep_st hstep with heq | hfires
      · rw [heq]
        exact ha
      · exact ha.tail hfires) .refl h

/-- In every run in which, whenever the request goroutine leaves its loop and
whenever a resolve or a dial fails, the targets of the earlier requests have
been closed, no target outlives its client. -/
theorem targets_released {s : Targets}
    (h : Reaches (FiresIf (targetStep c) Settled) { st := init c } s) :
    Released s := by
  have ho : Disposed s := Reaches.invariant_of (P := Disposed)
    (Q := fun s => ChanInv s.st ∧ Numbered s.st)
    (fun _ ht => ⟨chanInv_reaches (settled_reaches ht),
      numbered_reaches (settled_reaches ht)⟩)
    (fun _ _ hQ hs ⟨_, hstep, hset⟩ => disposed_step hQ.1 hQ.2 hs hset hstep)
      disposed_init h
  exact ho.released

/-! ## Two runs

Three requests are forwarded and the client closes its connection. In the first
run the first target never answers; in the second every target but the last has
been served. -/

/-- The client closes, the request goroutine and the loop return. -/
def clientLeaves : List TargetAct :=
  [.leave, .act (.parse .ended), .act .req, .act .req] ++
    List.replicate 5 (.act (.loop true))

def silentTarget : List TargetAct :=
  (forwardTurn (lit "/a") ++ [Act.call] ++ forwardTurn (lit "/b") ++
    forwardTurn (lit "/c")).map .act ++ clientLeaves

def servedTargets : List TargetAct :=
  (twoExchanges ++ forwardTurn (lit "/c")).map .act ++ clientLeaves

theorem silent_target_outlives_client :
    ¬ ∀ s, Reaches (Fires (targetStep plainConf)) { st := init plainConf } s →
      Released s := by
  intro h
  have hex : ∃ s, exec (targetStep plainConf)
    { st := init plainConf } silentTarget = some s ∧
      s.gone = true ∧ s.st.reqPC = .returned ∧ s.st.loopPC = .returned ∧
      s.st.dialled.length = 3 ∧ s.closed = [2] :=
    ⟨_,
      rfl, by decide +kernel, by decide +kernel, by decide +kernel, by
      decide +kernel, by decide +kernel⟩
  obtain ⟨s, hs, hgone, hreq, hloop, hlen, hclosed⟩ := hex
  have := h s (reaches_of_exec hs) hgone hreq hloop 0 (by omega)
  rw [hclosed] at this
  cases List.mem_singleton.mp this

theorem served_targets_released :
    ∃ s, Reaches (FiresIf (targetStep plainConf) Settled)
      { st := init plainConf } s ∧
      s.st.dialled.length = 3 ∧ ∀ t < 3, t ∈ s.closed := by
  have hex : ∃ s, execIf (targetStep plainConf) Settled
    { st := init plainConf } servedTargets =
      some s ∧ s.gone = true ∧ s.st.reqPC = .returned ∧
        s.st.loopPC = .returned ∧
      s.st.dialled.length = 3 :=
    ⟨_,
      rfl, by decide +kernel, by decide +kernel, by decide +kernel, by
      decide +kernel⟩
  obtain ⟨s, hs, hgone, hreq, hloop, hlen⟩ := hex
  have hreach := reaches_of_execIf hs
  refine ⟨s, hreach, hlen, fun t ht => ?_⟩
  exact targets_released hreach hgone hreq hloop t (by omega)

end Netramesh.Proofs
