import Netramesh.Transport.Direct
import Netramesh.Proofs.KeepAlive

/-!
# Answers to a client that has said all it has to say

A client that shuts down its sending side makes `HandleRequest` return, and
`TcpCopyRequest` then closes both connections, whatever `HandleResponse` still
has to deliver. So an answer is safe only if `HandleResponse` has returned by
then; that it has is all it takes, for either handler.
-/

namespace Netramesh.Proofs

open Http Protocol Net Transport Lib

/-! ## The moves of the two goroutines -/

section Moves

variable {σ α : Type} (p : Halves σ α)

/-- What one action can do. -/
inductive DirectMove (s : Direct σ) : DirectAct α → Direct σ → Prop
  | resolved : s.main = .resolve → DirectMove s (.main true) { s with
      main := .dial }
  | unresolved : s.main = .resolve →
      DirectMove s (.main false) { s with
        main := .closeClient, wire := p.dialled false s.wire }
  | dialled : s.main = .dial →
      DirectMove s (.main true) { s with
        main := .started, wire := p.dialled true s.wire }
  | undialled : s.main = .dial →
      DirectMove s (.main false) { s with
        main := .closeClient, wire := p.dialled false s.wire }
  | refuse {ok : Bool} : s.main = .closeClient →
      DirectMove s (.main ok) { s with
        main := .returned, wire := p.closeClient s.wire }
  | peer {a : α} {w : σ} : p.peer s.wire a = some w →
      DirectMove s (.peer a) { s with wire := w }
  | request {a : α} {w : σ} : s.main = .started → s.req = .handler →
      p.request s.wire a = some w →
      DirectMove s (.request a) { s with wire := w }
  | response {a : α} {w : σ} : s.main = .started → s.resp = .handler →
      p.response s.wire a = some w → DirectMove s (.response a) { s with
        wire := w }
  | closeReq : s.main = .started → s.req = .handler →
      p.requested s.wire = true → DirectMove s .closeReq { s with
        req := .closing, wire := p.closeClient s.wire }
  | closedReq : s.main = .started → s.req = .closing →
      DirectMove s .closeReq { s with
        req := .returned, wire := p.closeTarget s.wire }
  | closeResp : s.main = .started → s.resp = .handler →
      p.responded s.wire = true → DirectMove s .closeResp { s with
        resp := .closing, wire := p.closeTarget s.wire }
  | closedResp : s.main = .started → s.resp = .closing →
      DirectMove s .closeResp { s with
        resp := .returned, wire := p.closeClient s.wire }

variable {p}

theorem mainMove_of_step {s t : Direct σ} {ok : Bool}
    (h : mainStep p s ok = some t) :
    DirectMove p s (.main ok) t := by
  unfold mainStep at h
  split at h
  · next hm =>
      cases ok with
      | true => cases h; exact .resolved hm
      | false => cases h; exact .unresolved hm
  · next hm =>
      cases ok with
      | true => cases h; exact .dialled hm
      | false => cases h; exact .undialled hm
  · next hm => cases h; exact .refuse hm
  · cases h
  · cases h

theorem directMove_of_step {s t : Direct σ} {a : DirectAct α}
    (h : directStep p s a = some t) :
    DirectMove p s a t := by
  cases a with
  | main ok => exact mainMove_of_step h
  | peer a =>
    obtain ⟨w, hw, rfl⟩ := Option.map_eq_some_iff.mp h
    exact .peer hw
  | request a =>
    simp only [directStep] at h
    split at h
    · next hm hr =>
        obtain ⟨w, hw, rfl⟩ := Option.map_eq_some_iff.mp h
        exact .request hm hr hw
    · cases h
  | response a =>
    simp only [directStep] at h
    split at h
    · next hm hr =>
        obtain ⟨w, hw, rfl⟩ := Option.map_eq_some_iff.mp h
        exact .response hm hr hw
    · cases h
  | closeReq =>
    simp only [directStep] at h
    split at h
    · next hm hr =>
        split at h
        · next hd => cases h; exact .closeReq hm hr hd
        · cases h
    · next hm hr => cases h; exact .closedReq hm hr
    · cases h
  | closeResp =>
    simp only [directStep] at h
    split at h
    · next hm hr =>
        split at h
        · next hd => cases h; exact .closeResp hm hr hd
        · cases h
    · next hm hr => cases h; exact .closedResp hm hr
    · cases h

end Moves

/-! ## Waiting for the response -/

section Waiting

variable {σ α : Type} (p : Halves σ α) (Keeps : α → Prop)

/-- The peers keep to `Keeps`, and `TcpCopyRequest` comes to close the
connections only when `HandleResponse` has returned. -/
def Waits (s : Direct σ) : DirectAct α → Prop
  | .peer a => Keeps a
  | .closeReq => p.responded s.wire = true
  | _ => True

/-- Conditions on the connections before they are dialled, while
`HandleResponse` works on them and after it, such that nothing but a connection
closed too early can keep the last from being reached. -/
structure Outlasts (Before During After : σ → Prop) : Prop where
  peer_before : ∀ {w a w'}, Before w → Keeps a → p.peer w a = some w' →
    Before w'
  dialled : ∀ {w}, Before w → During (p.dialled true w)
  peer_during : ∀ {w a w'}, During w → Keeps a → p.peer w a = some w' →
    During w'
  request_during : ∀ {w a w'}, During w → p.request w a = some w' → During w'
  response_during : ∀ {w a w'}, During w → p.response w a = some w' → During w'
  responded : ∀ {w}, During w → p.responded w = true → After w
  peer_after : ∀ {w a w'}, After w → Keeps a → p.peer w a = some w' → After w'
  request_after : ∀ {w a w'}, After w → p.request w a = some w' → After w'
  response_after : ∀ {w a w'}, After w → p.response w a = some w' → After w'
  closeClient : ∀ {w}, After w → After (p.closeClient w)
  closeTarget : ∀ {w}, After w → After (p.closeTarget w)

/-- Nothing is closed before `HandleResponse` has returned. -/
structure Steady (Before During After : σ → Prop) (s : Direct σ) : Prop where
  early : s.main = .resolve ∨ s.main = .dial → Before s.wire
  waiting : s.main ≠ .started → s.resp = .handler ∧ s.req = .handler
  started : s.main = .started →
    (s.req = .handler ∧ s.resp = .handler ∧ During s.wire) ∨ After s.wire

variable {p Keeps} {Before During After : σ → Prop}

/-- A step behind the start that leaves the program counters alone. -/
theorem Steady.wire {s : Direct σ} (h : Steady Before During After s)
    (hm : s.main = .started) {w : σ} (hduring : During s.wire → During w)
    (hafter : After s.wire → After w) :
    Steady Before During After { s with wire := w } := by
  refine ⟨fun hearly => ?_, fun hne => absurd hm hne, fun _ => ?_⟩
  · rcases hearly with hf | hf <;> (dsimp only at hf; rw [hm] at hf; cases hf)
  · exact (h.started hm).imp (fun ⟨h1, h2, h3⟩ => ⟨h1, h2, hduring h3⟩) hafter

/-- A step behind the return of `HandleResponse`. -/
theorem steady_after {s : Direct σ} (hm : s.main = .started)
    (h : After s.wire) :
    Steady Before During After s := by
  refine ⟨fun hearly => ?_, fun hne => absurd hm hne, fun _ => .inr h⟩
  rcases hearly with hf | hf <;> (rw [hm] at hf; cases hf)

theorem Steady.after {s : Direct σ} (ho : Outlasts p Keeps Before During After)
    (h : Steady Before During After s) (hm : s.main = .started)
    (hresp : p.responded s.wire = true ∨ s.req ≠ .handler ∨ s.resp ≠ .handler) :
    After s.wire := by
  rcases h.started hm with ⟨h1, h2, h3⟩ | hafter
  · rcases hresp with hr | hr | hr
    · exact ho.responded h3 hr
    · exact absurd h1 hr
    · exact absurd h2 hr
  · exact hafter

theorem steady_move (ho : Outlasts p Keeps Before During After) {s t : Direct σ}
    {a : DirectAct α} (h : Steady Before During After s)
    (hw : Waits p Keeps s a) (hm : DirectMove p s a t) :
    Steady Before During After t := by
  cases hm with
  | resolved hpc =>
    refine ⟨fun _ => h.early (.inl hpc), fun _ => h.waiting (by rw [hpc]; simp),
      fun hf => ?_⟩
    cases hf
  | unresolved hpc | undialled hpc =>
    refine ⟨fun hf => ?_, fun _ => h.waiting (by rw [hpc]; simp), fun hf => ?_⟩
    · rcases hf with hf | hf <;> cases hf
    · cases hf
  | refuse hpc =>
    refine ⟨fun hf => ?_, fun _ => h.waiting (by rw [hpc]; simp), fun hf => ?_⟩
    · rcases hf with hf | hf <;> cases hf
    · cases hf
  | dialled hpc =>
    obtain ⟨hresp, hreq⟩ := h.waiting (by rw [hpc]; simp)
    refine ⟨fun hf => ?_, fun hf => absurd rfl hf,
      fun _ => .inl ⟨hreq, hresp, ?_⟩⟩
    · rcases hf with hf | hf <;> cases hf
    · exact ho.dialled (h.early (.inr hpc))
  | peer hp =>
    by_cases hstart : s.main = .started
    · exact h.wire hstart (fun hd => ho.peer_during hd hw hp)
        (fun ha => ho.peer_after ha hw hp)
    · exact ⟨fun hearly => ho.peer_before (h.early hearly) hw hp,
        fun _ => h.waiting hstart, fun hf => absurd hf hstart⟩
  | request hstart _ hr =>
    exact h.wire hstart (fun hd => ho.request_during hd hr)
      (fun ha => ho.request_after ha hr)
  | response hstart _ hr =>
    exact h.wire hstart (fun hd => ho.response_during hd hr)
      (fun ha => ho.response_after ha hr)
  | closeReq hstart _ _ =>
    exact steady_after hstart (ho.closeClient (h.after ho hstart (.inl hw)))
  | closedReq hstart hpc =>
    exact steady_after hstart
      (ho.closeTarget (h.after ho hstart (.inr (.inl (by rw [hpc]; simp)))))
  | closeResp hstart _ hd =>
    exact steady_after hstart (ho.closeTarget (h.after ho hstart (.inl hd)))
  | closedResp hstart hpc =>
    exact steady_after hstart
      (ho.closeClient (h.after ho hstart (.inr (.inr (by rw [hpc]; simp)))))

/-- If `TcpCopyRequest` waits, what holds behind `HandleResponse` holds when
`TcpCopyResponse` has returned. -/
theorem Outlasts.returned (ho : Outlasts p Keeps Before During After) {w : σ}
    (hbefore : Before w) {s : Direct σ}
    (h : Reaches (FiresIf (directStep p) (Waits p Keeps))
      ({ wire := w } : Direct σ) s)
    (hresp : s.resp = .returned) : After s.wire := by
  have hinit : Steady Before During After ({ wire := w } : Direct σ) :=
    ⟨fun _ => hbefore, fun _ => ⟨rfl, rfl⟩, fun hf => by cases hf⟩
  have hs : Steady Before During After s :=
    Reaches.invariant (fun _ _ hu ⟨_, hstep, hw⟩ =>
      steady_move ho hu hw (directMove_of_step hstep)) hinit h
  have hstart : s.main = .started := by
    by_contra hne
    have := (hs.waiting hne).1
    rw [hresp] at this
    cases this
  exact hs.after ho hstart (.inr (.inr (by rw [hresp]; simp)))

end Waiting

/-! ## TCP -/

/-- The bytes a peer has received, and those it has sent. -/
def received (log : List Event) : Bytes :=
  log.flatMap fun | .got b => b | _ => []

def sentBytes (log : List Event) : Bytes :=
  log.flatMap fun | .sent b => b | _ => []

/-- The bytes a copy has read and not written yet. -/
def inFlight : CopyPC → Bytes
  | .write b => b
  | _ => []

/-- What one action of `io.CopyBuffer` can do. -/
inductive CopyMove (src dst : Sock) : CopyPC → CopyPC → Sock → Sock → Prop
  | unreadable : src.link ≠ .live → CopyMove src dst .read .ended src dst
  | took {b rest : Bytes} : src.link = .live → src.pending = b ++ rest →
      CopyMove src dst .read (.write b) { src with pending := rest } dst
  | finished : src.link = .live → src.pending = [] → src.ended = true →
      CopyMove src dst .read .ended src dst
  | unwritable {b : Bytes} : dst.link ≠ .live →
      CopyMove src dst (.write b) .ended src dst
  | lost {b : Bytes} {pc : CopyPC} : dst.link = .live → dst.gone = true →
      CopyMove src dst (.write b) pc src dst
  | wrote {b : Bytes} : dst.link = .live → dst.gone = false →
      CopyMove src dst (.write b) .read src { dst with
        log := dst.log ++ [.got b] }

theorem copyMove_of_step {k : Nat} {fail : Bool} {src dst src' dst' : Sock}
    {pc pc' : CopyPC}
    (h : copyStep k fail src dst pc = some (pc', src', dst')) :
    CopyMove src dst pc pc' src' dst' := by
  cases pc with
  | read =>
    simp only [copyStep] at h
    split at h
    · next hl =>
        cases h
        exact .unreadable hl
    · next hl =>
        have hlive := not_not.mp hl
        split at h
        · cases h
          exact .took hlive (List.take_append_drop _ _).symm
        · next hp =>
            split at h
            · next he =>
                cases h
                exact .finished hlive (not_not.mp hp) he
            · cases h
  | write b =>
    simp only [copyStep] at h
    split at h
    · next hl =>
        cases h
        exact .unwritable hl
    · next hl =>
        have hlive := not_not.mp hl
        split at h
        · next hg =>
            cases h
            exact .lost hlive hg
        · next hg =>
            cases h
            exact .wrote hlive (by simpa using hg)
  | ended => cases h

/-- What a copy never changes. -/
theorem copyStep_frame {k : Nat} {fail : Bool} {src dst src' dst' : Sock}
    {pc pc' : CopyPC}
    (h : copyStep k fail src dst pc = some (pc', src', dst')) :
    src'.link = src.link ∧ src'.gone = src.gone ∧ src'.log = src.log ∧
      dst'.link = dst.link ∧ dst'.gone = dst.gone ∧ dst'.ended = dst.ended ∧
      dst'.pending = dst.pending ∧ sentBytes dst'.log = sentBytes dst.log := by
  cases copyMove_of_step h with
  | wrote _ _ => exact ⟨rfl, rfl, rfl, rfl, rfl, rfl, rfl, by simp [sentBytes]⟩
  | _ => exact ⟨rfl, rfl, rfl, rfl, rfl, rfl, rfl, rfl⟩

@[simp] theorem Sock.received_close (s : Sock) :
    received s.close.log = received s.log := by
  unfold Sock.close
  split
  · split <;> simp [received]
  · rfl

@[simp] theorem Sock.sentBytes_close (s : Sock) :
    sentBytes s.close.log = sentBytes s.log := by
  unfold Sock.close
  split
  · split <;> simp [sentBytes]
  · rfl

/-- The client goes on reading. -/
def KeepsReading : TcpAct → Prop
  | .client .leave => False
  | _ => True

structure TcpBefore (w : TcpWire) : Prop where
  client : w.client.link = .live
  reads : w.client.gone = false
  nothing : received w.client.log = []
  target : w.target.link = .absent
  silent : w.target.pending = [] ∧ w.target.log = []
  resp : w.resp = .read

/-- What the client received, what is on its way and what waits to be read make
up what the target sent. -/
structure TcpDuring (w : TcpWire) : Prop where
  client : w.client.link = .live
  target : w.target.link = .live
  reads : w.client.gone = false
  flow : received w.client.log ++ inFlight w.resp ++ w.target.pending =
    sentBytes w.target.log
  ended : w.resp = .ended → w.target.ended = true ∧ w.target.pending = []

structure TcpAfter (w : TcpWire) : Prop where
  all : received w.client.log = sentBytes w.target.log
  ended : w.target.ended = true
  resp : w.resp = .ended

theorem Sock.deed_frame {s s' : Sock} {d : Deed} (h : s.deed d = some s') :
    s'.link = s.link ∧ s.link ≠ .absent ∧ received s'.log = received s.log ∧
      ∃ b, s'.pending = s.pending ++ b ∧ sentBytes s'.log =
        sentBytes s.log ++ b ∧ (s.ended = true → b = [] ∧ s'.ended = true) := by
  cases d with
  | send b =>
    simp only [Sock.deed] at h
    split at h
    · cases h
    · next hc =>
        rw [not_or] at hc
        cases h
        exact ⟨rfl, hc.1, by simp [received], b, rfl, by simp [sentBytes],
          fun he => absurd he hc.2⟩
  | finish =>
    simp only [Sock.deed] at h
    split at h
    · cases h
    · next hc =>
        rw [not_or] at hc
        cases h
        exact ⟨rfl, hc.1, by simp [received], [], by simp, by simp [sentBytes],
          fun _ => ⟨rfl, rfl⟩⟩
  | leave =>
    simp only [Sock.deed] at h
    split at h
    · cases h
    · next hc =>
        rw [not_or] at hc
        cases h
        exact ⟨rfl, hc.1, by simp [received], [], by simp, by simp [sentBytes],
          fun _ => ⟨rfl, rfl⟩⟩

theorem Sock.deed_gone {s s' : Sock} {d : Deed} (h : s.deed d = some s')
    (hk : KeepsReading (.client d)) : s'.gone = s.gone := by
  cases d with
  | leave => cases hk
  | send b =>
    simp only [Sock.deed] at h
    split at h <;> cases h
    rfl
  | finish =>
    simp only [Sock.deed] at h
    split at h <;> cases h
    rfl

/-- The request half takes from what the client sent, and writes to the
target. -/
theorem tcpRequest {w w' : TcpWire} {a : TcpAct}
    (h : tcpHalves.request w a = some w') :
    ∃ k fail pc c t, copyStep k fail w.client w.target w.req = some (pc, c, t) ∧
      w' = { w with req := pc, client := c, target := t } := by
  cases a with
  | client d => cases h
  | target d => cases h
  | copy k fail =>
    obtain ⟨⟨pc, c, t⟩, hstep, rfl⟩ := Option.map_eq_some_iff.mp h
    exact ⟨k, fail, pc, c, t, hstep, rfl⟩

theorem tcpResponse {w w' : TcpWire} {a : TcpAct}
    (h : tcpHalves.response w a = some w') :
    ∃ k fail pc t c, copyStep k fail w.target w.client w.resp =
      some (pc, t, c) ∧
      w' = { w with resp := pc, target := t, client := c } := by
  cases a with
  | client d => cases h
  | target d => cases h
  | copy k fail =>
    obtain ⟨⟨pc, t, c⟩, hstep, rfl⟩ := Option.map_eq_some_iff.mp h
    exact ⟨k, fail, pc, t, c, hstep, rfl⟩

theorem tcpPeer {w w' : TcpWire} {a : TcpAct}
    (h : tcpHalves.peer w a = some w') :
    (∃ d c, a = .client d ∧ w.client.deed d = some c ∧
      w' = { w with client := c }) ∨
      ∃ d t, a = .target d ∧ w.target.deed d = some t ∧
        w' = { w with target := t } := by
  cases a with
  | client d =>
    obtain ⟨c, hc, rfl⟩ := Option.map_eq_some_iff.mp h
    exact .inl ⟨d, c, rfl, hc, rfl⟩
  | target d =>
    obtain ⟨t, ht, rfl⟩ := Option.map_eq_some_iff.mp h
    exact .inr ⟨d, t, rfl, ht, rfl⟩
  | copy k fail => cases h

theorem tcp_outlasts :
    Outlasts tcpHalves KeepsReading TcpBefore TcpDuring TcpAfter where
  peer_before := by
    intro w a w' hw hk h
    rcases tcpPeer h with ⟨d, c, rfl, hc, rfl⟩ | ⟨d, t, rfl, ht, rfl⟩
    · obtain ⟨hlink, _, hgot, _⟩ := Sock.deed_frame hc
      exact ⟨hlink.trans hw.client, (Sock.deed_gone hc hk).trans hw.reads,
        hgot.trans hw.nothing, hw.target, hw.silent, hw.resp⟩
    · exact absurd hw.target (Sock.deed_frame ht).2.1
  dialled := by
    intro w hw
    refine ⟨hw.client, rfl, hw.reads, ?_, fun hf => ?_⟩
    · simp only [tcpHalves, Sock.dial, if_true, hw.nothing, hw.resp,
        hw.silent.1, hw.silent.2]
      rfl
    · change w.resp = .ended at hf
      rw [hw.resp] at hf
      cases hf
  peer_during := by
    intro w a w' hw hk h
    rcases tcpPeer h with ⟨d, c, rfl, hc, rfl⟩ | ⟨d, t, rfl, ht, rfl⟩
    · obtain ⟨hlink, _, hgot, _⟩ := Sock.deed_frame hc
      exact ⟨hlink.trans hw.client, hw.target,
        (Sock.deed_gone hc hk).trans hw.reads, hgot ▸ hw.flow, hw.ended⟩
    · obtain ⟨hlink, _, _, b, hpending, hsent, hended⟩ := Sock.deed_frame ht
      refine ⟨hw.client, hlink.trans hw.target, hw.reads, ?_, fun hf => ?_⟩
      · dsimp only
        rw [hpending, hsent, ← hw.flow]
        simp
      · obtain ⟨he, hp⟩ := hw.ended hf
        obtain ⟨rfl, he'⟩ := hended he
        exact ⟨he', by rw [hpending, hp]; rfl⟩
  request_during := by
    intro w a w' hw h
    obtain ⟨k, fail, pc, c, t, hstep, rfl⟩ := tcpRequest h
    obtain ⟨hl, hg, hlog, hl', hg', he', hp', hs'⟩ := copyStep_frame hstep
    refine ⟨hl.trans hw.client, hl'.trans hw.target, hg.trans hw.reads, ?_, ?_⟩
    · dsimp only
      rw [hlog, hp', hs']
      exact hw.flow
    · dsimp only
      rw [he', hp']
      exact hw.ended
  response_during := by
    intro w a w' hw h
    obtain ⟨k, fail, pc, t, c, hstep, rfl⟩ := tcpResponse h
    have hflow := hw.flow
    generalize hpc : w.resp = pc' at hstep hflow
    cases copyMove_of_step hstep with
    | unreadable hne => exact absurd hw.target hne
    | unwritable hne => exact absurd hw.client hne
    | lost _ hgone =>
      rw [hw.reads] at hgone
      cases hgone
    | took _ hpending =>
      refine ⟨hw.client, hw.target, hw.reads, ?_, fun hf => by cases hf⟩
      rw [hpending] at hflow
      rw [← hflow]
      simp [inFlight]
    | finished _ hpending hended =>
      exact ⟨hw.client, hw.target, hw.reads, hflow, fun _ => ⟨hended, hpending⟩⟩
    | wrote _ _ =>
      refine ⟨hw.client, hw.target, hw.reads, ?_, fun hf => by cases hf⟩
      rw [← hflow]
      simp [inFlight, received]
  responded := by
    intro w hw hr
    have hpc : w.resp = .ended := of_decide_eq_true hr
    obtain ⟨he, hp⟩ := hw.ended hpc
    have hflow := hw.flow
    rw [hpc, hp] at hflow
    exact ⟨by simpa [inFlight] using hflow, he, hpc⟩
  peer_after := by
    intro w a w' hw _ h
    rcases tcpPeer h with ⟨d, c, rfl, hc, rfl⟩ | ⟨d, t, rfl, ht, rfl⟩
    · obtain ⟨_, _, hgot, _⟩ := Sock.deed_frame hc
      exact ⟨hgot.trans hw.all, hw.ended, hw.resp⟩
    · obtain ⟨_, _, _, b, _, hsent, hended⟩ := Sock.deed_frame ht
      obtain ⟨rfl, he⟩ := hended hw.ended
      refine ⟨?_, he, hw.resp⟩
      dsimp only
      rw [hsent, List.append_nil]
      exact hw.all
  request_after := by
    intro w a w' hw h
    obtain ⟨k, fail, pc, c, t, hstep, rfl⟩ := tcpRequest h
    obtain ⟨_, _, hlog, _, _, he', _, hs'⟩ := copyStep_frame hstep
    refine ⟨?_, he'.trans hw.ended, hw.resp⟩
    dsimp only
    rw [hlog, hs']
    exact hw.all
  response_after := by
    intro w a w' hw h
    obtain ⟨k, fail, pc, t, c, hstep, rfl⟩ := tcpResponse h
    rw [hw.resp] at hstep
    cases hstep
  closeClient := by
    intro w hw
    exact ⟨(Sock.received_close _).trans hw.all, hw.ended, hw.resp⟩
  closeTarget := by
    intro w hw
    refine ⟨hw.all.trans (Sock.sentBytes_close _).symm, ?_, hw.resp⟩
    have : w.target.close.ended = w.target.ended := by
      unfold Sock.close
      split <;> rfl
    exact this.trans hw.ended

/-! ## HTTP -/

/-- The client goes on reading. -/
def StaysConnected : HttpAct → Prop
  | .clientLeaves => False
  | _ => True

section Http

variable {hreq : Handler Request} {hresp : Handler Response} {target : Conn}

/-- Nothing is closed, the client reads, and the response loop is as many rounds
into the target's stream, or at its end. -/
structure HttpDuring (hresp : Handler Response) (target : Conn) (w : HttpWire) :
    Prop where
  writable : w.clientOpen = true
  readable : w.targetOpen = true
  reads : w.clientGone = false
  rounds : w.respDone = false →
    Reaches (Rounds (Handler.failing hresp [])) (.init target) w.resp
  done : w.respDone = true →
    w.resp = handle (Handler.failing hresp []) (.init target)

/-- The response loop has gone through the whole of the target's stream. -/
structure HttpAfter (hresp : Handler Response) (target : Conn) (w : HttpWire) :
    Prop where
  all : w.resp = handle (Handler.failing hresp []) (.init target)
  done : w.respDone = true

theorem httpRequest {w w' : HttpWire} {a : HttpAct}
    (h : (httpHalves hreq hresp).request w a = some w') :
    ∃ s done, w' = { w with req := s, reqDone := done } := by
  cases a with
  | clientLeaves => cases h
  | targetLeaves => cases h
  | round n fails =>
    simp only [httpHalves] at h
    split at h
    · cases h
    · cases h
      exact ⟨_, _, rfl⟩

theorem httpPeer {w w' : HttpWire} {a : HttpAct} (hk : StaysConnected a)
    (h : (httpHalves hreq hresp).peer w a = some w') :
    w' = { w with targetGone := true } := by
  cases a with
  | clientLeaves => cases hk
  | targetLeaves => exact (Option.some.inj h).symm
  | round n fails => cases h

/-- A round of the response loop with both connections open. -/
theorem httpResponse_during (hH : Conserves (Handler.failing hresp []))
    (hshrinks : Shrinks hresp.read) {w w' : HttpWire} {a : HttpAct}
    (hw : HttpDuring hresp target w)
    (h : (httpHalves hreq hresp).response w a = some w') :
    HttpDuring hresp target w' := by
  cases a with
  | clientLeaves => cases h
  | targetLeaves => cases h
  | round n fails =>
    simp only [httpHalves] at h
    split at h
    · cases h
    · next hdone =>
        have hrounds := hw.rounds (by simpa using hdone)
        rw [hw.writable, hw.readable, hw.reads, Bool.not_false,
          Bool.and_true] at h
        cases hturn : turn (Handler.failing hresp []) w.resp with
        | next t =>
          rw [show httpRound hresp true true n fails w.resp = (false, t) by
            simp [httpRound, hturn]] at h
          cases h
          exact ⟨rfl, rfl, rfl, fun _ => hrounds.tail hturn,
            fun hf => by cases hf⟩
        | copied t =>
          rw [show httpRound hresp true true n fails w.resp = (true, t) by
            simp [httpRound, hturn]] at h
          cases h
          exact ⟨rfl, rfl, rfl, (fun hf => by cases hf),
            fun _ => (handle_of_rounds hH hshrinks hrounds (.inl hturn)).symm⟩
        | returned t =>
          rw [show httpRound hresp true true n fails w.resp = (true, t) by
            simp [httpRound, hturn]] at h
          cases h
          exact ⟨rfl, rfl, rfl, (fun hf => by cases hf),
            fun _ => (handle_of_rounds hH hshrinks hrounds (.inr hturn)).symm⟩

theorem http_outlasts (hH : Conserves (Handler.failing hresp []))
    (hshrinks : Shrinks hresp.read) :
    Outlasts (httpHalves hreq hresp) StaysConnected (HttpDuring hresp target)
      (HttpDuring hresp target) (HttpAfter hresp target) where
  peer_before := by
    intro w a w' hw hk h
    rw [httpPeer hk h]
    exact ⟨hw.writable, hw.readable, hw.reads, hw.rounds, hw.done⟩
  dialled := by
    intro w hw
    exact hw
  peer_during := by
    intro w a w' hw hk h
    rw [httpPeer hk h]
    exact ⟨hw.writable, hw.readable, hw.reads, hw.rounds, hw.done⟩
  request_during := by
    intro w a w' hw h
    obtain ⟨s, done, rfl⟩ := httpRequest h
    exact ⟨hw.writable, hw.readable, hw.reads, hw.rounds, hw.done⟩
  response_during := by
    intro w a w' hw h
    exact httpResponse_during hH hshrinks hw h
  responded := by
    intro w hw hr
    exact ⟨hw.done hr, hr⟩
  peer_after := by
    intro w a w' hw hk h
    rw [httpPeer hk h]
    exact ⟨hw.all, hw.done⟩
  request_after := by
    intro w a w' hw h
    obtain ⟨s, done, rfl⟩ := httpRequest h
    exact ⟨hw.all, hw.done⟩
  response_after := by
    intro w a w' hw h
    cases a with
    | clientLeaves => cases h
    | targetLeaves => cases h
    | round n fails =>
      simp only [httpHalves] at h
      rw [if_pos hw.done] at h
      cases h
  closeClient := by
    intro w hw
    exact ⟨hw.all, hw.done⟩
  closeTarget := by
    intro w hw
    exact ⟨hw.all, hw.done⟩

end Http

/-! ## The answers -/

section Answers

variable {C : Type} (cfg : HTTPConfig) (isInbound : Bool) (tr : Tracer C)
  (idna : Bytes → Option Bytes) (trips : Nat → Trip C) (head : Nat → Bool)
    (w w' : World)

/-- Both goroutines have finished. -/
def Direct.finished {σ : Type} (s : Direct σ) : Prop :=
  s.req = .returned ∧ s.resp = .returned

/-- In every run in which the client goes on reading and `TcpCopyRequest` comes
to close the connections only when `HandleResponse` has returned: when both
goroutines have finished, the client of a TCP connection has received every byte
the target sent, and that of an HTTP connection all that `HandleResponse` makes
of the whole of the target's stream. If this is a conforming sequence of
responses that `HandleResponse` can keep, the client has received these
responses. -/
theorem answers_survive_half_close :
    (∀ s,
      Reaches (FiresIf (directStep tcpHalves) (Waits tcpHalves KeepsReading))
        ({ wire := {} } : Direct TcpWire) s → Direct.finished s →
      received s.wire.client.log = sentBytes s.wire.target.log) ∧
    (∀ (client target : Conn) s,
      Reaches (FiresIf
          (directStep (httpHalves (requestHandler cfg isInbound tr idna trips w)
            (responseHandler false head w')))
          (Waits (httpHalves (requestHandler cfg isInbound tr idna trips w)
            (responseHandler false head w')) StaysConnected))
        ({ wire := .init client target } : Direct HttpWire) s →
          Direct.finished s →
      s.wire.resp.out =
          (handle (Handler.failing (responseHandler false head w') [])
            (.init target)).out ∧
        ∀ (methods : Nat → Bytes) (ms : List (Message Response)),
          Conforms methods target.fin ms target.data →
          (∀ k m, ms[k]? = some m → SafeAnswer methods ms.length k m) →
          ∃ ms', Conforms methods .eof ms' s.wire.resp.out ∧
            List.Forall₂ SameResponse ms ms') := by
  constructor
  · intro s h hfin
    have hbefore : TcpBefore {} := ⟨rfl, rfl, rfl, rfl, ⟨rfl, rfl⟩, rfl⟩
    exact (tcp_outlasts.returned hbefore h hfin.2).all
  · intro client target s h hfin
    have hH : Conserves (Handler.failing (responseHandler false head w') []) :=
      ⟨(responseHandler_conserves head w').read,
        (responseHandler_conserves head w').forward⟩
    have hbefore : HttpDuring (responseHandler false head w') target
        (.init client target) :=
      ⟨rfl, rfl, rfl, fun _ => .refl, fun hf => by cases hf⟩
    have hafter :=
      (http_outlasts hH (shrinks_readResponse none)).returned hbefore h hfin.2
    refine ⟨by rw [hafter.all], fun methods ms hms hsafe => ?_⟩
    rw [hafter.all]
    exact hms.relayed head { w' with
      fails := fun _ => [] } (fun _ _ hb => by cases hb) hsafe

end Answers

/-! ## Runs

A client sends what it has and shuts down its sending side. In the first run the
target's answer is there when `HandleRequest` returns, but has not been read. -/

instance {σ α : Type} (p : Halves σ α) (Keeps : α → Prop) [DecidablePred Keeps]
    (s : Direct σ) (a : DirectAct α) : Decidable (Waits p Keeps s a) :=
  match a with
  | .peer b => inferInstanceAs (Decidable (Keeps b))
  | .closeReq => inferInstanceAs (Decidable (p.responded s.wire = true))
  | .main _ | .request _ | .response _ | .closeResp => .isTrue trivial

instance : DecidablePred KeepsReading
  | .client .leave => .isFalse id
  | .client (.send _) | .client .finish | .target _ | .copy _ _ =>
      .isTrue trivial

instance : DecidablePred StaysConnected
  | .clientLeaves => .isFalse id
  | .targetLeaves | .round _ _ => .isTrue trivial

/-- The peers keep to `Keeps`. -/
def Listens {σ α : Type} (Keeps : α → Prop) (_ : Direct σ) : DirectAct α → Prop
  | .peer a => Keeps a
  | _ => True

instance {σ α : Type} (Keeps : α → Prop) [DecidablePred Keeps] (s : Direct σ)
    (a : DirectAct α) :
    Decidable (Listens Keeps s a) :=
  match a with
  | .peer b => inferInstanceAs (Decidable (Keeps b))
  | .main _ | .request _ | .response _ | .closeReq | .closeResp =>
      .isTrue trivial

/-- A question is taken to the target, and answered. -/
def asked : List (DirectAct TcpAct) :=
  [.main true, .main true, .peer (.client (.send (lit "question"))),
    .peer (.client .finish),
   .request (.copy 99 false), .request (.copy 99 false),
     .peer (.target (.send (lit "answer"))),
   .peer (.target .finish), .request (.copy 99 false)]

/-- The copy of the answer, from the read on. -/
def answered : List (DirectAct TcpAct) :=
  [.response (.copy 99 false), .response (.copy 99 false),
    .response (.copy 99 false)]

def closings {α : Type} : List (DirectAct α) :=
  [.closeReq, .closeReq, .closeResp, .closeResp]

theorem half_close_drops_answer :
    ¬ ∀ s, Reaches (FiresIf (directStep tcpHalves) (Listens KeepsReading))
        ({ wire := {} } : Direct TcpWire) s → Direct.finished s →
      received s.wire.client.log = sentBytes s.wire.target.log := by
  intro h
  have hany :
    (execIf (directStep tcpHalves) (Listens KeepsReading) { wire := {} }
      (asked ++ [.closeReq, .closeReq, .response (.copy 99 false), .closeResp,
        .closeResp])).any
        (fun s => decide (s.req = .returned ∧ s.resp = .returned ∧
          received s.wire.client.log = [] ∧ sentBytes s.wire.target.log =
            lit "answer")) = true := by
    decide +kernel
  obtain ⟨s, hs, hp⟩ := (Option.any_eq_true _ _).mp hany
  obtain ⟨hreq, hresp, hgot, hsent⟩ := of_decide_eq_true hp
  have heq := h s (reaches_of_execIf hs) ⟨hreq, hresp⟩
  rw [hgot, hsent] at heq
  exact absurd heq (by decide)

def plainHalves (w : World) : Halves HttpWire HttpAct :=
  httpHalves (plainRequests w) (plainResponses w)

def getRoot : Conn where
  data := lit "GET / HTTP/1.1\r\nHost: a\r\n\r\n"

def okHi : Conn where
  data := lit "HTTP/1.1 200 OK\r\nContent-Length: 2\r\n\r\nhi"

/-- What the parser makes of it. -/
def IsOkHi (r : Response) (u : Bytes) : Prop :=
  r.header.get (lit "Connection") = [] ∧ SeenAlike r ∧
    responseFraming false r = .length 2 ∧ r.trailer = none ∧ u = lit "hi"

instance (r : Response) (u : Bytes) : Decidable (IsOkHi r u) :=
  inferInstanceAs (Decidable (_ ∧ _))

theorem conforms_okHi :
    ∃ r, Conforms (fun _ => lit "GET") .eof [⟨r, lit "hi", none⟩] okHi.data ∧
    ∀ k m, [(⟨r, lit "hi", none⟩ : Message Response)][k]? = some m →
      SafeAnswer (fun _ => lit "GET") 1 k m := by
  obtain ⟨r, u, hparse, hp⟩ :=
    exists_parses (readResponse (some (lit "GET"))) .eof okHi.data
    (fun r u => decide (IsOkHi r u)) (by decide +kernel)
  obtain ⟨hconn, halike, hfr, htrailer, rfl⟩ := of_decide_eq_true hp
  refine ⟨r, .cons hparse ?_ .nil, fun k m hm => ?_⟩
  · show Carries .eof (responseFraming false r) (lit "hi") (lit "hi") none []
    rw [hfr]
    exact .length (Nat.le_refl 2)
  · match k, hm with
    | 0, hm =>
      cases hm
      refine ⟨by rw [hconn]; decide, halike, fun _ => ?_,
        fun h => absurd h (by decide)⟩
      dsimp only
      rw [htrailer]
      decide

theorem answers_survive_patient_close :
    (∃ s,
      Reaches (FiresIf (directStep tcpHalves) (Waits tcpHalves KeepsReading))
        ({ wire := {} } : Direct TcpWire) s ∧ sentBytes s.wire.target.log =
          lit "answer" ∧
      received s.wire.client.log = sentBytes s.wire.target.log) ∧
    ∃ s r,
      Reaches (FiresIf (directStep (plainHalves {}))
      (Waits (plainHalves {}) StaysConnected))
        ({ wire := .init getRoot okHi } : Direct HttpWire) s ∧
      s.wire.resp.out = okHi.data ∧
      s.wire.resp.out =
        (handle (Handler.failing (plainResponses {}) []) (.init okHi)).out ∧
      ∃ ms', Conforms (fun _ => lit "GET") .eof ms' s.wire.resp.out ∧
        List.Forall₂ SameResponse [⟨r, lit "hi", none⟩] ms' := by
  have hanswers :=
    answers_survive_half_close HTTPConfig.default true plainTracer
    (fun _ => none)
    plainTrip (fun _ => false) {} {}
  constructor
  · have hany :
      (execIf (directStep tcpHalves) (Waits tcpHalves KeepsReading)
      { wire := {} }
        (asked ++ answered ++ closings)).any
          (fun s => decide (s.req = .returned ∧
          s.resp = .returned ∧ sentBytes s.wire.target.log = lit "answer")) =
            true := by
      decide +kernel
    obtain ⟨s, hs, hp⟩ := (Option.any_eq_true _ _).mp hany
    obtain ⟨hreq, hresp, hsent⟩ := of_decide_eq_true hp
    exact ⟨s, reaches_of_execIf hs, hsent,
      hanswers.1 s (reaches_of_execIf hs) ⟨hreq, hresp⟩⟩
  · have hany :
      (execIf (directStep (plainHalves {}))
      (Waits (plainHalves {}) StaysConnected)
        { wire := .init getRoot okHi }
        ([.main true, .main true, .request (.round 0 []),
          .request (.round 0 []),
          .response (.round 0 []), .response (.round 0 [])] ++ closings)).any
        (fun s => decide (s.req = .returned ∧ s.resp = .returned ∧
          s.wire.resp.out = okHi.data)) = true := by
      decide +kernel
    obtain ⟨s, hs, hp⟩ := (Option.any_eq_true _ _).mp hany
    obtain ⟨hreq, hresp, hout⟩ := of_decide_eq_true hp
    obtain ⟨r, hconforms, hsafe⟩ := conforms_okHi
    obtain ⟨hall, hmessages⟩ :=
      hanswers.2 getRoot okHi s (reaches_of_execIf hs) ⟨hreq, hresp⟩
    exact ⟨s, r, reaches_of_execIf hs, hout, hall,
      hmessages _ _ hconforms hsafe⟩

end Netramesh.Proofs
