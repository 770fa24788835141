import Netramesh.Protocol.Dialling
import Netramesh.Proofs.Transparent

/-!
# Falling back with routing enabled

With routing disabled there is one connection to the original destination, and
a message that cannot be parsed goes there with all that follows. With routing
enabled the fallback writes to the connection of the last request that was
parsed. A request without routing information gets a connection to the original
destination as well, but before the first of them there is none, and the one
that is there may have been closed by its response routine.
-/

namespace Netramesh.Proofs

open Http Protocol Net Lib

variable {C : Type} (e : RoutingCall C)

/-- The header of the `k`-th request with its id. -/
def identified (k : Nat) (r : Request) : Header :=
  identify e.http (e.rides k).uuid.1 r.header

/-- The request this round parses, if any, carries no routing information, and
nothing is known under its id. -/
def Unrouted (s : RoutedLoop) : Prop :=
  match (readRequest (onTmp .start s.rd)).1 with
  | .error _ => True
  | .ok r => (e.tagged s.count r).1 = [] ∧
      (e.rides s.count).routes.lookup
        (e.http.requestId (identified e s.count r)) = none

/-- A request without routing information is forwarded, and it is a sound
one. -/
def PlainRound (s t : RoutedLoop) : Prop :=
  Unrouted e s ∧ e.turn s = .next t ∧
    RoundSound e.handler requestHead (fun _ => RequestSound) s.loop

/-- The round leaves the loop while bytes are pending. -/
def Abandons (s : RoutedLoop) : Prop := s.rd.view ≠ [] ∧ ∀ t, e.turn s ≠ .next t

/-- The round copies what comes behind the forwarded requests, as their fields
delimit them, to a connection that was dialled to the original destination; and
so it does, with routing disabled, to the one connection there is. -/
def Proxied (stream : Bytes) (s : RoutedLoop) : Prop :=
  ∃ rest t k u, Boundary requestHead
    (fun _ a => receivedRequest a.1 a.2) s.rd.fin s.count stream
      rest ∧
    e.turn s = .copied t ∧ t.dialled[k]? = some e.originalDst ∧
      t.sent = s.sent ++ [(k, rest)] ∧
    turn e.handler s.loop = .copied u ∧ u.out = rest

/-- There is a connection to copy to: that of a request before, or one that can
be dialled for the request that is parsed, which asks for an upgrade. -/
def Connected (s : RoutedLoop) : Prop :=
  match (readRequest (onTmp .start s.rd)).1 with
  | .error _ => s.w ≠ none
  | .ok r => (e.rides s.count).dials = true ∧ e.handler.isUpgrade r = true

/-! ## The state between rounds -/

/-- Every connection was dialled to the original destination, the one in hand is
one of them, and the reader stands behind the requests that were forwarded. -/
structure Straight (stream : Bytes) (s : RoutedLoop) : Prop where
  dialled : ∀ a ∈ s.dialled, a = e.originalDst
  held : ∀ k, s.w = some k → k < s.dialled.length
  top : Top stream s.loop
  place : InPlace requestHead (fun _ a => receivedRequest a.1 a.2) stream s.loop

theorem straight_init (conn : Conn) : Straight e conn.data (.init conn) := by
  refine ⟨?_, ?_, top_init conn, rfl, .inl .start⟩
  · intro a ha
    cases ha
  · intro k hk
    cases hk

variable {e}

theorem handler_conserves : Conserves e.handler :=
  requestHandler_conserves _ _ _ _ _ _

theorem address_of_unrouted {k : Nat} {r : Request}
    (h : (e.tagged k r).1 = []) :
    e.address k r = e.originalDst := by
  rw [RoutingCall.address, h, route, if_pos rfl]

/-- A round that forwards a request, unfolded. -/
theorem routedTurn_next {s t : RoutedLoop} (h : e.turn s = .next t) :
    ∃ r rd u, readRequest (onTmp .start s.rd) = (.ok r, rd) ∧
      u = (e.handler.forward s.count (e.tagged s.count r).2
        (s.loop.copy e.handler (e.tagged s.count r).2 rd)).2 ∧
      t = (s.dial (e.address s.count r)).wrote s.dialled.length
        { rd := u.rd, out := u.out.bytes, count := s.count + 1 } := by
  unfold RoutingCall.turn at h
  split at h
  · split at h
    · cases h
    · split at h <;> cases h
  · next r rd hread =>
      split at h
      · dsimp only at h
        split at h
        · cases h
        · cases h
          exact ⟨r, rd, _, hread, rfl, rfl⟩
      · cases h

theorem routingValue_none (rc : RoutingConfig) (h : Header) :
    (routingValue rc none h).2 = h := by
  rcases routingValue_added rc none h with hsame | ⟨v, hv, _⟩
  · exact hsame
  · cases hv

theorem editHeader_identified (k : Nat) (r : Request)
    (cache : List (Bytes × C)) :
    editHeader e.http e.isInbound e.tracer cache (e.rides k).uuid.1
      (identified e k r) = editHeader e.http e.isInbound e.tracer cache
        (e.rides k).uuid.1 r.header := by
  have hagain : identify e.http (e.rides k).uuid.1 (identified e k r) =
      identified e k r :=
    identify_twice _ _ _
  unfold identify at hagain
  unfold editHeader
  rw [hagain]
  rfl

/-- A request under whose id nothing is known goes out as it does with routing
disabled. -/
theorem forward_tagged {k : Nat} {r : Request}
    (hroutes : (e.rides k).routes.lookup (e.http.requestId (identified e k r)) =
      none)
    (c : Copy Tee) :
    e.handler.forward k (e.tagged k r).2 c = e.handler.forward k r c ∧
      e.handler.body (e.tagged k r).2 = e.handler.body r := by
  have htagged : (e.tagged k r).2 = { r with header := identified e k r } := by
    have hrouting : (e.tagged k r).2 =
      { r with header := (routingValue e.routing
        ((e.rides k).routes.lookup (e.http.requestId (identified e k r)))
        (identified e k r)).2 } := rfl
    rw [hrouting, hroutes, routingValue_none]
  rw [htagged]
  refine ⟨?_, rfl⟩
  show (outgoing e.http e.isInbound e.tracer (e.rides k).toTrip _).write
    e.idna c =
    (outgoing e.http e.isInbound e.tracer (e.rides k).toTrip r).write e.idna c
  unfold outgoing editRequest
  dsimp only
  rw [editHeader_identified]

theorem straight_next {stream : Bytes} {s t : RoutedLoop}
    (hs : Straight e stream s) (h : PlainRound e s t) :
    Straight e stream t := by
  obtain ⟨hun, hturn, hsound⟩ := h
  obtain ⟨r, rd, u, hread, rfl, rfl⟩ := routedTurn_next hturn
  rw [Unrouted, hread] at hun
  obtain ⟨hvalue, hroutes⟩ := hun
  have hread' : e.handler.read (onTmp .start s.loop.rd) = (.ok r, rd) := hread
  -- the connection gets what it would get with routing disabled
  obtain ⟨hforward, hbody⟩ := forward_tagged hroutes
    (s.loop.copy e.handler (e.tagged s.count r).2 rd)
  have hcopy : s.loop.copy e.handler (e.tagged s.count r).2 rd =
      s.loop.copy e.handler r rd := by
    unfold Loop.copy
    rw [hbody]
  rw [hforward, hcopy]
  refine ⟨?_, ?_, ?_, ?_⟩
  · intro a ha
    rcases List.mem_append.mp ha with ha | ha
    · exact hs.dialled a ha
    · rw [List.mem_singleton.mp ha, address_of_unrouted hvalue]
  · intro k hk
    cases hk
    simp [RoutedLoop.wrote, RoutedLoop.dial]
  · exact top_forward handler_conserves hs.top hread' r _ _
  · exact inPlace_forward (requestHandler_frames _ _ _ _ _ _)
      (requestHandler_heads _ _ _ _ _ _)
      hs.place hsound hread' _

theorem straight_reaches {conn : Conn} {s : RoutedLoop}
    (h : Reaches (PlainRound e) (.init conn) s) : Straight e conn.data s :=
  Reaches.invariant (fun _ _ hs ht => straight_next hs ht)
    (straight_init e conn) h

/-! ## The last round -/

/-- A round that gives up on a request, with a connection at hand, copies to it
what the fallback writes with routing disabled. -/
theorem routedTurn_copied {stream : Bytes} {s : RoutedLoop}
    (hs : Straight e stream s) (hun : Unrouted e s) (hleft : Abandons e s)
    (hconnected : Connected e s) (hp : Paused e.handler s.loop) :
    GivesUp e.handler s.loop ∧ ∃ t k, e.turn s = .copied t ∧
      t.dialled[k]? = some e.originalDst ∧
      t.sent =
        s.sent ++ [(k,
        (fallback e.handler s.loop
        (readRequest (onTmp .start s.rd)).2).out)] := by
  have hresult : (readRequest (onTmp .start s.rd)).1 =
      (e.handler.read (byteFed s.loop.rd.fin s.loop.rd.view)).1 :=
    (lawful_readRequest.sim _ _ (leads_byteFed hs.place.size).sim).1
  have hturn : e.turn s = e.turn s := rfl
  unfold GivesUp
  rw [show (e.handler.read (onTmp .start s.loop.rd)).1 =
    (readRequest (onTmp .start s.rd)).1 from rfl]
  cases hread : readRequest (onTmp .start s.rd) with
  | mk r rd =>
    rw [hread] at hresult
    conv at hturn => rhs; rw [RoutingCall.turn, hread]; dsimp only
    cases r with
    | error err =>
      simp only [Connected, hread] at hconnected
      have hends : ¬ (err = .eof ∨ err.mentionsClosed = true) := fun he =>
        hleft.1 (hp.stays err hresult.symm he)
      refine ⟨fun he => hends (.inl he.1), ?_⟩
      dsimp only at hturn
      rw [if_neg hends] at hturn
      obtain ⟨k, hw⟩ := Option.ne_none_iff_exists'.mp hconnected
      rw [hw] at hturn
      have hk := hs.held k hw
      refine ⟨_, k, hturn, ?_, rfl⟩
      show s.dialled[k]? = _
      rw [List.getElem?_eq_getElem hk, hs.dialled _ (List.getElem_mem hk)]
    | ok r =>
      simp only [Connected, hread] at hconnected
      obtain ⟨hdials, hup⟩ := hconnected
      refine ⟨hup, ?_⟩
      dsimp only at hturn
      rw [if_pos hdials] at hturn
      split at hturn
      · refine ⟨_, s.dialled.length, hturn, ?_, rfl⟩
        rw [Unrouted, hread] at hun
        show (s.dialled ++ [e.address s.count r])[s.dialled.length]? = _
        rw [address_of_unrouted hun.1]
        simp
      · exact absurd hturn (hleft.2 _)

/-- With routing enabled, after any number of sound requests without routing
information and for any cuts of the stream, in a round that leaves the loop with
bytes pending: if there is a connection in hand and it takes what is written,
and the round starts with an empty buffer where the network pauses at the end of
what the parser takes, then everything behind the last forwarded request is
written as it came to a connection dialled to the original destination, as it is
with routing disabled. -/
theorem fallback_proxied {conn : Conn} {s : RoutedLoop}
    (hs : Reaches (PlainRound e) (.init conn) s) (hun : Unrouted e s)
    (hleft : Abandons e s) (hconnected : Connected e s)
    (hok : NoFail (e.world.fails s.count)) (hp : Paused e.handler s.loop) :
    Proxied e conn.data s := by
  have hstraight := straight_reaches hs
  obtain ⟨hg, t, k, hturn, haddr, hsent⟩ :=
    routedTurn_copied hstraight hun hleft hconnected hp
  have hcopied : turn e.handler s.loop = .copied
      (fallback e.handler s.loop (readRequest (onTmp .start s.rd)).2) :=
    copied_of_paused handler_conserves hstraight.place.size hleft.1 hg hp
  have hwritten : written e.handler s.loop =
      (fallback e.handler s.loop (readRequest (onTmp .start s.rd)).2).out := by
    rw [written, hcopied]
    rfl
  rcases hstraight.place.writesRest handler_conserves
    (frugal_readRequest teePace) hstraight.top hok
    hg hp with hrest | ⟨hnil, _⟩
  · rw [hwritten] at hrest
    exact ⟨_, t, k, _, hrest, hturn, haddr, hsent, hcopied, rfl⟩
  · exact absurd hnil hleft.1

/-! ## Two streams

A line that is no request, once as the first thing a client sends and once
behind a request. -/

theorem id_plain : nl ∉ lit "id" ∧ cr ∉ lit "id" := by decide

/-- An inbound call whose requests bring nothing along. -/
def inboundCall (w : World) : RoutingCall Bytes where
  http := HTTPConfig.default
  routing := RoutingConfig.default
  isInbound := true
  originalDst := lit "10.0.0.9:8080"
  tracer := plainTracer
  idna _ := none
  rides _ :=
    { uuid := ⟨lit "id", id_plain⟩, cache := [], injected := none, routes := [],
               dials := true }
  world := w

/-- Whether the round leaves the loop, and with which bytes sent. -/
def leftWith (e : RoutingCall C) (s : RoutedLoop) :
    Option (List (Nat × Bytes)) :=
  match e.turn s with
  | .next _ => none
  | .copied t | .returned t => some t.sent

theorem abandons_of_leftWith {s : RoutedLoop} {sent : List (Nat × Bytes)}
    (hview : s.rd.view ≠ []) (h : leftWith e s = some sent) : Abandons e s := by
  refine ⟨hview, fun t ht => ?_⟩
  rw [leftWith, ht] at h
  cases h

instance (s : RoutedLoop) : Decidable (Unrouted e s) :=
  match h : (readRequest (onTmp .start s.rd)).1 with
  | .error _ => .isTrue (by rw [Unrouted, h]; trivial)
  | .ok r => decidable_of_iff ((e.tagged s.count r).1 = [] ∧
      (e.rides s.count).routes.lookup
        (e.http.requestId (identified e s.count r)) = none)
      (by rw [Unrouted, h])

instance (s : RoutedLoop) : Decidable (Connected e s) :=
  match h : (readRequest (onTmp .start s.rd)).1 with
  | .error _ => decidable_of_iff (s.w ≠ none) (by rw [Connected, h])
  | .ok r => decidable_of_iff
      ((e.rides s.count).dials = true ∧ e.handler.isUpgrade r = true)
      (by rw [Connected, h])

theorem first_garbage_dropped :
    ¬ ∀ (conn : Conn) (s : RoutedLoop),
      Reaches (PlainRound (inboundCall {})) (.init conn) s →
      Unrouted (inboundCall {}) s → Abandons (inboundCall {}) s →
      Proxied (inboundCall {}) conn.data s := by
  intro h
  have hleft : leftWith (inboundCall {}) (.init { data := lit "garbage\r\n" }) =
      some [] := by
    decide +kernel
  obtain ⟨_, t, k, _, _, hturn, _, hsent, _⟩ :=
    h { data := lit "garbage\r\n" } _ .refl (by decide +kernel)
    (abandons_of_leftWith (by decide) hleft)
  rw [leftWith, hturn] at hleft
  rw [Option.some.inj hleft] at hsent
  cases hsent

/-- The state after a request that is forwarded. -/
def afterRequest (e : RoutingCall C) (s : RoutedLoop) : Option RoutedLoop :=
  match e.turn s with
  | .next t => some t
  | _ => none

theorem turn_of_afterRequest {s t : RoutedLoop}
    (h : afterRequest e s = some t) :
    e.turn s = .next t := by
  unfold afterRequest at h
  split at h
  · next ht =>
      cases h
      exact ht
  · cases h

theorem later_garbage_proxied :
    ∃ s, Reaches (PlainRound (inboundCall {})) (.init separateReads) s ∧
      s.count = 1 ∧ s.rd.view = lit "garbage\r\nmore" ∧
        Proxied (inboundCall {}) separateReads.data s := by
  have hany : (afterRequest (inboundCall {}) (.init separateReads)).any
      (fun s =>
      decide (s.count = 1 ∧ s.rd.view = lit "garbage\r\nmore" ∧
        (leftWith (inboundCall {}) s).isSome = true ∧
          Unrouted (inboundCall {}) s ∧
        Connected (inboundCall {}) s) &&
          isPaused (inboundCall {}).handler s.loop) = true := by
    decide +kernel
  obtain ⟨s, hs, hp⟩ := (Option.any_eq_true _ _).mp hany
  rw [Bool.and_eq_true] at hp
  obtain ⟨hcount, hview, hsome, hun, hconnected⟩ := of_decide_eq_true hp.1
  obtain ⟨sent, hleft⟩ := Option.isSome_iff_exists.mp hsome
  have hreach : Reaches (PlainRound (inboundCall {})) (.init separateReads) s :=
    .single ⟨by decide +kernel, turn_of_afterRequest hs, sound_separate _⟩
  have hne : s.rd.view ≠ [] := by
    rw [hview]
    decide
  have hok : NoFail ((inboundCall {}).world.fails s.count) := by
    intro b hb
    cases hb
  exact ⟨s, hreach, hcount, hview,
    fallback_proxied hreach hun (abandons_of_leftWith hne hleft)
    hconnected hok (paused_of_check hp.2)⟩

end Netramesh.Proofs
