import Netramesh.Proofs.Replies
import Netramesh.Protocol.Dialling
import Netramesh.Transport.Routed

/-!
# Messages that go through unaltered

"Write the same request to writer", says `HandleRequest`, and `HandleResponse`
says the same of responses. The head of a message is written from what was
parsed, by code that was made for a client and a server and not for a proxy
between them; so it is the same only for a message such a client or server would
have written.
-/

namespace Netramesh.Proofs

open Http Net Protocol Lib

/-! ## Writing only appends -/

section Appends

variable {ρ : Type} [Source Err ρ]

theorem write_appends (b : Bytes) (o : Out) :
    o.bytes <+: (o.write b).2.bytes := by
  unfold Out.write
  split
  · exact List.prefix_append _ _
  · exact List.prefix_append _ _
  · exact List.prefix_refl _

theorem writeAll_appends (bs : List Bytes) (o : Out) :
    o.bytes <+: (o.writeAll bs).2.bytes := by
  induction bs generalizing o with
  | nil => exact List.prefix_refl _
  | cons b bs ih =>
      have hb := write_appends b o
      rw [Out.writeAll]
      split
      · next o' heq =>
          rw [heq] at hb
          exact hb.trans (ih o')
      · next o' heq =>
          rw [heq] at hb
          exact hb

theorem copyLoop_appends (put : Bytes → Out → Bool × Out)
    (hput : ∀ p o, o.bytes <+: (put p o).2.bytes) (fuel : Nat)
    (limit : Option Nat) (n : Nat) (c : Copy ρ) :
    c.out.bytes <+: (copyLoop put fuel limit n c).2.out.bytes := by
  have hread : ∀ (limit : Option Nat) (c : Copy ρ), (c.read limit).2.out =
      c.out := by
    intro limit c
    unfold Copy.read
    dsimp only
    split <;> rfl
  have hpass : ∀ (p : Bytes) (c : Copy ρ),
      c.out.bytes <+: (c.pass put p).2.out.bytes := by
    intro p c
    unfold Copy.pass
    split
    · exact List.prefix_refl _
    · exact hput p c.out
  induction fuel generalizing limit n c with
  | zero => exact List.prefix_refl _
  | succ fuel ih =>
      rw [copyLoop]
      split
      · exact List.prefix_refl _
      · have hone : c.out.bytes <+:
            ((c.read limit).2.pass put (c.read limit).1.1).2.out.bytes := by
          have := hpass (c.read limit).1.1 (c.read limit).2
          rw [hread] at this
          exact this
        dsimp only
        split
        · next c' heq =>
            rw [heq] at hone
            exact hone
        · next c' heq =>
            rw [heq] at hone
            split
            · exact hone
            · exact hone.trans (ih _ _ _)

theorem writeBody_appends (t : TransferWriter) (c : Copy ρ) :
    c.out.bytes <+: (writeBody t c).2.out.bytes := by
  have hwrite := fun limit n (c : Copy ρ) =>
    copyLoop_appends Out.write write_appends c.fuel limit n c
  have hchunk := fun limit n (c : Copy ρ) =>
    copyLoop_appends (writeChunk t.isResponse)
      (fun p o => writeAll_appends _ o) c.fuel limit n c
  have hdrop := fun limit n (c : Copy ρ) =>
    copyLoop_appends (fun _ o => (true, o))
      (fun p o => List.prefix_refl _) c.fuel limit n c
  unfold writeBody
  split
  · have h := hchunk none 0 c
    split
    · next heq => rw [heq] at h; exact h
    · next n c' heq =>
        rw [heq] at h
        have hend := writeAll_appends ([lit "0\r\n"] ++
          ((mergedTrailer t.trailer c'.trailer).elim [] fun h =>
            (fieldLines [] h).flatMap linePieces) ++
          [crlf]) c'.out
        split
        · next heq' => rw [heq'] at hend; exact h.trans hend
        · next heq' => rw [heq'] at hend; exact h.trans hend
  · split
    · have h := hwrite none 0 c
      split
      next heq =>
        rw [heq] at h
        exact h
    · have h := hwrite (some t.contentLength.toNat) 0 c
      split
      · next heq => rw [heq] at h; exact h
      · next n c' heq =>
          rw [heq] at h
          have h' := hdrop none n c'
          split
          · next heq' => rw [heq'] at h'; exact h.trans h'
          · next heq' =>
              rw [heq'] at h'
              split <;> exact h.trans h'

end Appends

/-! ## What a round writes -/

/-- A head, as it is written. -/
def headWire (start : Bytes) (fields : List (Bytes × Bytes)) : Bytes :=
  start ++ crlf ++ linesWire fields ++ crlf

theorem request_written (idna : Bytes → Option Bytes) {r : Request}
    (hmethod : r.method ≠ []) {c : Copy Tee} (hok : NoFail c.out.fails) :
    ∃ rest, (r.write idna c).2.out.bytes =
      c.out.bytes ++ headWire (requestStart idna r) (requestLines idna r) ++
        rest := by
  obtain ⟨hall, hbytes, _⟩ := writeAll_ok (r.headPieces idna) hok
  rw [requestHead_flatten idna hmethod] at hbytes
  unfold Request.write
  split
  · next out heq =>
      rw [heq] at hall
      cases hall
  · next out heq =>
      rw [heq] at hbytes
      obtain ⟨rest, hrest⟩ := writeBody_appends (newRequestWriter r)
        { c with out := out }
      refine ⟨rest, ?_⟩
      rw [← hrest, hbytes]
      rfl

theorem response_written {r : Response} {c : Copy Tee}
    (hok : NoFail c.out.fails) :
    ∃ rest, (r.write c).2.out.bytes =
      c.out.bytes ++ headWire (responseStart r) (responseLines r) ++ rest := by
  obtain ⟨hall, hbytes, _⟩ := writeAll_ok r.headPieces hok
  rw [responseHead_flatten] at hbytes
  unfold Response.write
  split
  · next out heq =>
      rw [heq] at hall
      cases hall
  · next out heq =>
      rw [heq] at hbytes
      obtain ⟨rest, hrest⟩ := writeBody_appends (newResponseWriter r.toWrite)
        { c with out := out }
      refine ⟨rest, ?_⟩
      rw [← hrest, hbytes]
      rfl

/-- Closing the target changes nothing about what is written. -/
theorem responseHandler_out (forceClose : Bool) (head : Nat → Bool) (w : World)
    (k : Nat) (r : Response) (c : Copy Tee) :
    ∃ c' : Copy Tee, c'.out = c.out ∧
      ((responseHandler forceClose head w).forward k r c).2.out =
        (r.write c').2.out := by
  refine ⟨if head k && (forceClose && r.statusCode != 100) then { c with
    rd := closeRead c.rd } else c, ?_, ?_⟩
  · split <;> rfl
  · unfold responseHandler
    dsimp only
    split <;> rfl

/-! ## The same message -/

section Round

variable {C : Type} {idna : Bytes → Option Bytes} {cfg : HTTPConfig}
  {route : FieldName}

/-- A request that goes through a round, the head that was read and the one
written. -/
theorem request_round (hnames : ForeignNames cfg route) {isInbound : Bool}
    {tr : Tracer C} {trips : Nat → Trip C} {values : Nat → Option Bytes}
    {w : World} {s s' : Loop} (hok : NoFail (w.fails s.count))
    (hturn : turn (forwardingHandler idna cfg route isInbound tr trips values w)
      s = .next s') :
    ∃ raw l h r rest, RequestReceived s.rd raw l h ∧
      s'.out = s.out ++ headWire (requestStart idna r) (requestLines idna r) ++
        rest ∧
      (SameRequestHead idna cfg route l h r ↔
        KeptRequest idna cfg route l h) := by
  obtain ⟨m, rd, c, hread, _, hc, rfl⟩ := turn_next hturn
  obtain ⟨raw, l, h, rd₁, hraw, hline, hhdr, hfin⟩ := readRequest_parts hread
  have hmethod : (outgoing cfg isInbound tr (trips s.count)
      (withRoute route (values s.count) m)).method ≠ [] := by
    rw [(outgoing_same cfg route isInbound tr _ _ m).1,
      (finishedRequest hfin).method]
    exact (requestLine_cases hline).1
  obtain ⟨rest, hrest⟩ := request_written idna hmethod
    (c :=
      s.copy (forwardingHandler idna cfg route isInbound tr trips values w) m
      rd) hok
  refine ⟨raw, l, h, outgoing cfg isInbound tr (trips s.count)
    (withRoute route (values s.count) m),
    rest, ⟨rd₁, rd, hraw, hline, hhdr⟩, ?_,
      requestHead_iff hnames hline (readMIMEHeader_plain hhdr) hfin _ _⟩
  rw [← hc]
  exact hrest

/-- A response that goes through a round. -/
theorem response_round {forceClose : Bool} {head : Nat → Bool} {w : World}
    {s s' : Loop} (hok : NoFail (w.fails s.count))
    (hturn : turn (responseHandler forceClose head w) s = .next s') :
    ∃ raw l h r rest, ResponseReceived s.rd raw l h ∧
      s'.out = s.out ++ headWire (responseStart r) (responseLines r) ++ rest ∧
      (SameResponseHead raw h r ↔ KeptResponse raw l h) := by
  obtain ⟨m, rd, c, hread, _, hc, rfl⟩ := turn_next hturn
  obtain ⟨raw, l, h, rd₁, hraw, hline, hhdr, hfin⟩ := readResponse_parts hread
  obtain ⟨c', hout, hsame⟩ := responseHandler_out forceClose head w s.count m
    (s.copy (responseHandler forceClose head w) m rd)
  obtain ⟨rest, hrest⟩ := response_written (r := m) (c :=
    c') (by rw [hout]; exact hok)
  rw [hout] at hrest
  refine ⟨raw, l, h, m, rest, ⟨rd₁, rd, hraw, hline, hhdr⟩, ?_,
    responseHead_iff hline hfin⟩
  rw [← hc, hsame]
  exact hrest

end Round

/-! ## Routed requests -/

section Routed

variable {C : Type} {cfg : HTTPConfig} {isInbound : Bool} {tr : Tracer C}
  {h h' : Header}

/-- The same fields, in whatever order the map has them. -/
def FieldsAgree (h h' : Header) : Prop :=
  ∀ k, h.entries.lookup k = h'.entries.lookup k

namespace FieldsAgree

theorem refl (h : Header) : FieldsAgree h h := fun _ => rfl

theorem values (heq : FieldsAgree h h') (k : Bytes) :
    h.values k = h'.values k :=
  congrArg (Option.getD · []) (heq k)

theorem get (heq : FieldsAgree h h') (k : Bytes) : h.get k = h'.get k :=
  congrArg (List.headD · []) (heq.values _)

theorem put (heq : FieldsAgree h h') (k : Bytes) (vs : List Bytes) :
    FieldsAgree (h.put k vs) (h'.put k vs) := by
  intro j
  by_cases hj : j = k
  · rw [hj, Header.lookup_put_self, Header.lookup_put_self]
  · rw [Header.lookup_put_of_ne hj, Header.lookup_put_of_ne hj]
    exact heq j

theorem add (heq : FieldsAgree h h') (k v : Bytes) :
    FieldsAgree (h.add k v) (h'.add k v) := by
  unfold Header.add
  rw [heq.values]
  exact heq.put _ _

end FieldsAgree

theorem editHeader_same {uuid : Bytes} (cache : List (Bytes × C))
    (heq : FieldsAgree (identify cfg uuid h) (identify cfg uuid h')) :
    FieldsAgree (editHeader cfg isInbound tr cache uuid h)
      (editHeader cfg isInbound tr cache uuid h') := by
  have hid : cfg.requestId (identify cfg uuid h) =
      cfg.requestId (identify cfg uuid h') :=
    heq.get _
  have hsource : ∀ {g g' : Header}, FieldsAgree g g' →
      FieldsAgree (if g.get cfg.xSourceHeaderName.1 = [] then
          g.set cfg.xSourceHeaderName.1 cfg.xSourceValue.1 else g)
        (if g'.get cfg.xSourceHeaderName.1 = [] then
          g'.set cfg.xSourceHeaderName.1 cfg.xSourceValue.1 else g') := by
    intro g g' hg
    rw [hg.get]
    split
    · exact hg.put _ _
    · exact hg
  have hfold : ∀ g : Header, (if cfg.requestId g = [] then
      g.set cfg.requestIdHeaderName.1 uuid else g) = identify cfg uuid g :=
        fun _ => rfl
  unfold editHeader
  simp only [hfold, hid]
  split
  · exact heq
  · refine hsource ?_
    split
    · exact heq.put _ _
    · exact heq

theorem requestId_add {k : Bytes}
    (hk : canonicalKey cfg.requestIdHeaderName.1 ≠ canonicalKey k) (v : Bytes)
    (h : Header) : cfg.requestId (h.add k v) = cfg.requestId h := by
  unfold HTTPConfig.requestId Header.get Header.first Header.values Header.add
  rw [Header.lookup_put_of_ne hk]

/-- The id and the routing value can be added in either order. -/
theorem identify_add {k : Bytes}
    (hk : canonicalKey cfg.requestIdHeaderName.1 ≠ canonicalKey k)
    (uuid v : Bytes) (h : Header) :
    FieldsAgree (identify cfg uuid ((identify cfg uuid h).add k v))
      (identify cfg uuid (h.add k v)) := by
  have hcomm : FieldsAgree ((identify cfg uuid h).add k v)
      (identify cfg uuid (h.add k v)) := by
    unfold identify
    rw [requestId_add hk]
    split
    · intro j
      unfold Header.add Header.set
      by_cases hj : j = canonicalKey k
      · rw [hj, Header.lookup_put_self, Header.lookup_put_of_ne hk.symm,
          Header.lookup_put_self,
          Header.values, Header.lookup_put_of_ne hk.symm]
        rfl
      · rw [Header.lookup_put_of_ne hj]
        by_cases hid : j = canonicalKey cfg.requestIdHeaderName.1
        · rw [hid, Header.lookup_put_self, Header.lookup_put_self]
        · rw [Header.lookup_put_of_ne hid, Header.lookup_put_of_ne hid,
            Header.lookup_put_of_ne hj]
    · exact .refl _
  have hget : cfg.requestId ((identify cfg uuid h).add k v) =
      cfg.requestId (identify cfg uuid (h.add k v)) := hcomm.get _
  rw [← identify_twice cfg uuid (h.add k v)]
  generalize (identify cfg uuid h).add k v = g at *
  generalize identify cfg uuid (h.add k v) = g' at *
  unfold identify
  rw [hget]
  split
  · exact hcomm.put _ _
  · exact hcomm

/-- A connection in routing mode stores and writes the request that
`forwardingHandler` writes, with the value the routing context had for it, if
any. -/
theorem routeRequest_forwarding (c : Transport.Conf) (s : Transport.St)
    (t : Trip C) (tr : Tracer C) (r : Request)
    (hnames : canonicalKey c.http.requestIdHeaderName.1 ≠
      canonicalKey c.routing.routingHeaderName.1) :
    ∃ value r', (Transport.routeRequest c s r t.uuid.1).requests =
      s.requests ++ [r'] ∧ { r' with header := r.header } = r ∧
      (∀ v, value = some v →
        s.routingInfo.lookup (c.http.requestId
          (identify c.http t.uuid.1 r.header)) = some v) ∧
      FieldsAgree (outgoing c.http c.isInbound tr t r').header
        (outgoing c.http c.isInbound tr t
          (withRoute c.routing.routingHeaderName value r)).header := by
  have hout : ∀ {r' r'' : Request},
      FieldsAgree (identify c.http t.uuid.1 r'.header)
        (identify c.http t.uuid.1 r''.header) →
      FieldsAgree (outgoing c.http c.isInbound tr t r').header
        (outgoing c.http c.isInbound tr t r'').header := by
    intro r' r'' heq
    have hedit :
      FieldsAgree (editHeader c.http c.isInbound tr t.cache t.uuid.1 r'.header)
        (editHeader c.http c.isInbound tr t.cache t.uuid.1 r''.header) :=
      editHeader_same t.cache heq
    unfold outgoing
    cases t.injected with
    | none => exact hedit
    | some ctx => exact hedit.add _ _
  rcases routingValue_added c.routing
      (s.routingInfo.lookup (c.http.requestId
        (identify c.http t.uuid.1 r.header)))
      (identify c.http t.uuid.1 r.header) with hnone | ⟨v, hcontext, hsome⟩
  · refine ⟨none, { r with header := identify c.http t.uuid.1 r.header },
      ?_, rfl, fun v hv => (by cases hv), hout ?_⟩
    · rw [← hnone]
      rfl
    · rw [identify_twice]
      exact .refl _
  · let h :=
      (identify c.http t.uuid.1 r.header).add c.routing.routingHeaderName.1 v
    refine ⟨some v, { r with header := h }, ?_, rfl, fun u hu => ?_, hout ?_⟩
    · rw [show h = (routingValue _ _ _).2 from hsome.symm]
      rfl
    · cases hu
      exact hcontext
    · exact identify_add hnames _ _ _

end Routed

/-! ### A request with and without a `User-Agent` -/

/-- A request for `/` with the given fields. -/
def bareRequest (fields : Bytes) : Conn where
  data := lit "GET / HTTP/1.1\r\nHost: a\r\n" ++ fields ++ crlf

/-- `HandleRequest` on an inbound connection, with nothing configured. -/
def bareHandler (w : World) : Handler Request :=
  forwardingHandler (fun _ => none) HTTPConfig.default
    RoutingConfig.default.routingHeaderName true
    plainTracer plainTrip (fun _ => none) w

theorem foreignNames_default :
    ForeignNames HTTPConfig.default RoutingConfig.default.routingHeaderName :=
  ⟨by decide +kernel, by decide +kernel, by decide +kernel, by decide +kernel⟩

/-- The round has forwarded a message. -/
def goesOn : Round → Bool
  | .next _ => true
  | _ => false

theorem exists_next {μ : Type} {H : Handler μ} {s : Loop}
    (h : goesOn (turn H s) = true) :
    ∃ s', turn H s = .next s' := by
  cases hturn : turn H s with
  | next s' => exact ⟨s', rfl⟩
  | copied s' => rw [hturn] at h; cases h
  | returned s' => rw [hturn] at h; cases h

/-- A request without a `User-Agent` gets one. -/
theorem userAgent_made_up :
    ∃ s', turn (bareHandler {}) (Loop.init (bareRequest [])) = .next s' ∧
      ∃ raw l h r rest, RequestReceived
        (Loop.init (bareRequest [])).rd raw l h ∧
        s'.out = headWire (requestStart (fun _ => none) r)
          (requestLines (fun _ => none) r) ++ rest ∧
        ¬ SameRequestHead (fun _ => none) HTTPConfig.default
          RoutingConfig.default.routingHeaderName l h r := by
  obtain ⟨s', hturn⟩ := exists_next (H := bareHandler {})
    (s := Loop.init (bareRequest [])) (by decide +kernel)
  obtain ⟨raw, l, h, r, rest, hreceived, hout, hiff⟩ :=
    request_round foreignNames_default (by intro b hb; cases hb) hturn
  refine ⟨s', hturn, raw, l, h, r, rest, hreceived, hout, fun hsame => ?_⟩
  obtain ⟨ua, _, hua⟩ := (hiff.mp hsame).userAgent
  have hentries :=
    (received_known (lit "GET / HTTP/1.1") [(lit "Host", [lit "a"])] hreceived
    (by decide +kernel) (by decide +kernel)).2
  rw [Header.values, hentries] at hua
  cases hua

/-- Every message that is forwarded is written with the head it was read with
exactly if it is one that the code has nothing to change about. -/
theorem forwarded_unaltered_iff {C : Type} {idna : Bytes → Option Bytes}
    {cfg : HTTPConfig} {route : FieldName} (hnames : ForeignNames cfg route) :
    (∀ (isInbound : Bool) (tr : Tracer C) (trips : Nat → Trip C)
      (values : Nat → Option Bytes)
      (w : World) (s s' : Loop), NoFail (w.fails s.count) →
      turn (forwardingHandler idna cfg route isInbound tr trips values w) s =
        .next s' →
      ∃ raw l h r rest, RequestReceived s.rd raw l h ∧
        s'.out = s.out ++ headWire (requestStart idna r)
          (requestLines idna r) ++ rest ∧
        (SameRequestHead idna cfg route l h r ↔ KeptRequest idna cfg route l h))
          ∧
    ∀ (forceClose : Bool) (head : Nat → Bool) (w : World) (s s' : Loop),
      NoFail (w.fails s.count) →
      turn (responseHandler forceClose head w) s = .next s' →
      ∃ raw l h r rest, ResponseReceived s.rd raw l h ∧
        s'.out = s.out ++ headWire (responseStart r) (responseLines r) ++ rest ∧
        (SameResponseHead raw h r ↔ KeptResponse raw l h) := by
  refine ⟨?_, ?_⟩
  · intro isInbound tr trips values w s s' hok hturn
    exact request_round hnames hok hturn
  · intro forceClose head w s s' hok hturn
    exact response_round hok hturn

/-- A request with one comes out as it went in. -/
theorem userAgent_kept :
    ∃ s', turn (bareHandler {})
      (Loop.init (bareRequest (lit "User-Agent: b\r\n"))) = .next s' ∧
      ∃ raw l h r rest, RequestReceived
        (Loop.init (bareRequest (lit "User-Agent: b\r\n"))).rd raw l h ∧
        s'.out = headWire (requestStart (fun _ => none) r)
          (requestLines (fun _ => none) r) ++ rest ∧
        SameRequestHead (fun _ => none) HTTPConfig.default
          RoutingConfig.default.routingHeaderName l h r := by
  obtain ⟨s', hturn⟩ := exists_next (H := bareHandler {})
    (s := Loop.init (bareRequest (lit "User-Agent: b\r\n"))) (by decide +kernel)
  obtain ⟨raw, l, h, r, rest, hreceived, hout, hiff⟩ :=
    (forwarded_unaltered_iff foreignNames_default).1 _ _ _ _ _ _ _
      (by intro b hb; cases hb) hturn
  obtain ⟨rfl, hentries⟩ := received_known (lit "GET / HTTP/1.1")
    [(lit "Host", [lit "a"]), (lit "User-Agent", [lit "b"])] hreceived
      (by decide +kernel)
    (by decide +kernel)
  refine ⟨s', hturn, _, l, h, r, rest, hreceived, hout, hiff.mpr ?_⟩
  obtain ⟨_, _, _, hline, _⟩ := hreceived
  have hl : requestLine (lit "GET / HTTP/1.1") =
    .ok ⟨lit "GET", lit "/", { path := lit "/" },
      lit "HTTP/1.1", 1, 1⟩ := rfl
  rw [hl] at hline
  cases hline
  have hhost : h.values (lit "Host") = [lit "a"] := by
    rw [Header.values, hentries]
    rfl
  have hconn : h.values (lit "Connection") = [] := by
    rw [Header.values, hentries]
    rfl
  have hsent : sentHost (fun _ => none) ⟨lit "GET", lit "/",
    { path := lit "/" }, lit "HTTP/1.1", 1, 1⟩ h
      = lit "a" := by
    rw [sentHost, if_pos rfl, Header.first, hhost]
    decide
  refine ⟨rfl, .inl ⟨rfl, by decide⟩, ?_, ⟨lit "b", by decide, ?_⟩, ?_, ?_, ?_⟩
  · rw [hsent, hhost]
  · rw [Header.values, hentries]
    rfl
  · rw [addsCacheControl, Header.first, Header.values, hentries]
    rfl
  · rw [hconn]
    exact fun h => absurd h (by decide)
  · intro k _ hkh hku v hv
    rw [Header.values, hentries, List.lookup_cons, beq_false_of_ne hkh,
      List.lookup_cons, beq_false_of_ne hku] at hv
    cases hv

end Netramesh.Proofs
