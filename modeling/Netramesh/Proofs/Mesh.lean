import Netramesh.Proofs.Resent

/-!
# From sidecar to sidecar

A request in the mesh goes through the sidecar of the service that sends it and
the one of the service that serves it, and the answer comes back the same way. A
message that one sidecar takes for what it is must not be something else to the
next one, and what is settled about a request at the first (its id, above all)
must stay settled. This file follows the messages of a connection through any
number of sidecars: what one of them does is `Delivers`, which every message
that passes survives, and a chain of them is an induction over the chain.
-/

namespace Netramesh.Proofs

open Http Net Protocol Lib

/-! ## Lists, side by side -/

section Lists

variable {α β γ : Type}

theorem forall₂_right {R : α → β → Prop} {P : β → Prop}
    (hP : ∀ {a b}, R a b → P b) {as : List α} {bs : List β}
    (h : List.Forall₂ R as bs) : ∀ b ∈ bs, P b := by
  induction h with
  | nil => exact List.forall_mem_nil _
  | cons hab _ ih => exact List.forall_mem_cons.mpr ⟨hP hab, ih⟩

theorem forall₂_trans {R : α → β → Prop} {S : β → γ → Prop} {T : α → γ → Prop}
    (hstep : ∀ {a b c}, R a b → S b c → T a c) {as : List α} {bs : List β}
    {cs : List γ} (h : List.Forall₂ R as bs) (h' : List.Forall₂ S bs cs) :
    List.Forall₂ T as cs := by
  induction h generalizing cs with
  | nil =>
    cases h'
    exact .nil
  | cons hab _ ih =>
    cases h' with
    | cons hbc h' => exact .cons (hstep hab hbc) (ih h')

/-- Two steps that know the position of what they work on. -/
theorem forall₂_zipIdx_trans {R S T : Nat → α → α → Prop}
    (hstep : ∀ {i a b c}, R i a b → S i b c → T i a c) {k : Nat}
    {as bs cs : List α}
    (h : List.Forall₂ (fun p b => R p.2 p.1 b) (as.zipIdx k) bs)
    (h' : List.Forall₂ (fun p c => S p.2 p.1 c) (bs.zipIdx k) cs) :
    List.Forall₂ (fun p c => T p.2 p.1 c) (as.zipIdx k) cs := by
  induction as generalizing k bs cs with
  | nil =>
    cases h
    cases h'
    exact .nil
  | cons a as ih =>
    rw [List.zipIdx_cons] at h
    cases h with
    | cons hab h =>
      rw [List.zipIdx_cons] at h'
      cases h' with
      | cons hbc h' => exact .cons (hstep hab hbc) (ih h h')

end Lists

/-! ## One sidecar -/

/-- A request that is forwarded, and that still is when its `Connection` is
sanitized. -/
structure Passes (m : Message Request) : Prop extends Forwardable m where
  connection : toLower (sanitizeValue (m.head.header.get (lit "Connection"))) ≠
    lit "upgrade"

/-- A sidecar on the way of a connection: its configuration, without routing,
what happens to each request there, and how the connections on its two sides are
read and written. The headers it sets are none that `Request.write` makes up,
and its writes succeed. -/
structure Hop where
  Context : Type
  cfg : HTTPConfig
  isInbound : Bool
  tracer : Tracer Context
  trips : Nat → Trip Context
  idna : Bytes → Option Bytes
  world : World
  cuts : List Nat
  heads : Nat → Bool
  answers : World
  answerCuts : List Nat
  names : ForeignNames cfg cfg.requestIdHeaderName
  idna_nl : ∀ v a, idna v = some a → nl ∉ a
  writes : ∀ k, NoFail (world.fails k)
  returns : ∀ k, NoFail (answers.fails k)

namespace Hop

/-- `HandleRequest` there. -/
def handler (h : Hop) : Handler Request :=
  requestHandler h.cfg h.isInbound h.tracer h.idna h.trips h.world

/-- `HandleResponse` there. -/
def responder (h : Hop) : Handler Response :=
  responseHandler false h.heads h.answers

/-- What it writes to the target for what it reads from the client. -/
def pass (h : Hop) (data : Bytes) : Bytes :=
  (handle h.handler (Loop.init { data := data, cuts := h.cuts })).out

/-- What it writes to the client for what it reads from the target. -/
def back (h : Hop) (data : Bytes) : Bytes :=
  (handle h.responder (Loop.init { data := data, cuts := h.answerCuts })).out

/-- The `k`-th request as it is written there. -/
def sends (h : Hop) (k : Nat) (r : Request) : Request :=
  outgoing h.cfg h.isInbound h.tracer (h.trips k) r

/-- The sidecar sets no such field. -/
def leaves (h : Hop) (k : Bytes) : Bool :=
  foreign h.cfg h.cfg.requestIdHeaderName k

theorem values_sends (h : Hop) {k : Bytes} (hk : h.leaves k = true) (n : Nat)
    (r : Request) :
    (h.sends n r).header.values k = r.header.values k := by
  rw [Header.values, Header.values, sends]
  exact congrArg (Option.getD · []) (outgoing_lookup hk (h.trips n) none r)

/-- What the next sidecar makes of the `k`-th request. -/
structure Delivers (h : Hop) (k : Nat) (m m' : Message Request) :
    Prop extends SameRequest m m' where
  passes : Passes m'
  path : m'.head.url.path = m.head.url.path
  query : m'.head.url.querySuffix = m.head.url.querySuffix
  fields : ∀ key, Plain key → key ≠ lit "Connection" →
    m'.head.header.values key =
      ((h.sends k m.head).header.values key).map sanitizeValue

theorem relays (h : Hop) (k : Nat) :
    Relays h.handler (fun _ => requestFraming) (fun _ => readRequest)
      (fun _ => requestFraming)
      (fun j m => j = k ∧ Passes m) (h.Delivers k) := by
  have hR :=
    requestHandler_relays h.cfg h.isInbound h.tracer h.idna h.trips h.world
    h.idna_nl
  refine ⟨hR.conserves, hR.shrinks,
    fun hg => hR.proceeds (k := k) hg.2.toForwardable, ?_⟩
  rintro m rd₀ rd rest s hread hsize hfails ⟨rfl, hg⟩ hcarries
  obtain ⟨hview, w, m', hbytes, hsame, hstands⟩ :=
    hR.relays hread hsize hfails hg.toForwardable hcarries
  refine ⟨hview, w, m', hbytes, ?_, hstands⟩
  -- the request that was written, and the one that is read from it
  have hfacts := requestFacts hread hg.rooted
  have hout : Outgoing (h.sends s.count m.head) :=
    hfacts.outgoing hg.rooted hg.method
  have heq := outgoing_eq h.cfg h.isInbound h.tracer (h.trips s.count) m.head
  have hspelled : Spelled (h.sends s.count m.head).header :=
    Spelled.outgoing h.cfg h.isInbound h.tracer
      (fun e he => .inl (hfacts.header e he).canonical) _
  obtain ⟨more, hwritten⟩ :=
    request_written h.idna (validMethod_iff hout.method).1
    (c := s.copy h.handler m.head rd) hfails
  have hw : w = headWire (requestStart h.idna (h.sends s.count m.head))
      (requestLines h.idna (h.sends s.count m.head)) ++ more := by
    refine List.append_cancel_left (hbytes.symm.trans (hwritten.trans ?_))
    rw [List.append_assoc]
    rfl
  obtain ⟨u, hparse, _⟩ := hstands [] fun _ => rfl
  rw [List.append_nil, hw] at hparse
  have hurl : (h.sends s.count m.head).url = m.head.url := by rw [sends, heq]
  obtain ⟨hroot, hpath, hquery⟩ := hout.target_read h.idna_nl hparse
  rw [hurl] at hpath hquery
  have hvalues := fun {key} =>
    hout.values_read h.idna_nl hspelled hparse (k := key)
  have hback := @hvalues (lit "Connection") ⟨rfl,
    rfl, by decide, by decide, by decide⟩
  rw [h.values_sends h.names.connection] at hback
  have hconn := connection_again hg.connection hback
  refine ⟨hsame,
    ⟨⟨hroot, by rw [hsame.method]; exact hg.method, hconn.1, ?_⟩, hconn.2⟩,
    hpath, hquery, ?_⟩
  · refine fits_again hsame.trailer (fun hnone => ?_) hg.fits
    obtain ⟨r', _, _, htr', hagain⟩ := hout.again h.idna_nl
      (by rw [sends, heq]; exact hg.method)
    have hwire := hagain more
    rw [requestHead_flatten h.idna (validMethod_iff hout.method).1] at hwire
    rw [(hparse.unique hwire).1, htr', if_pos]
    refine hout.trailerOf.keys.2.2.1 ?_
    rw [hout.writer.2.1, sends, heq]
    exact hnone
  · intro key hkey hne
    rw [hvalues hkey, if_neg (fun hc => hne hc.1), List.nil_append]

/-- The sidecar takes `name` for the request id, keeps it apart from the other
headers it sets, and generates ids that are written as they are. -/
structure Tracks (name : FieldName) (h : Hop) : Prop where
  named : h.cfg.requestIdHeaderName = name
  framing : isFramingKey (canonicalKey name.1) = false
  trace : isTraceKey (canonicalKey name.1) = false
  source : canonicalKey name.1 ≠ canonicalKey h.cfg.xSourceHeaderName.1
  uuid_ne : ∀ k, (h.trips k).uuid.1 ≠ []
  uuid_clean : ∀ k, sanitizeValue (h.trips k).uuid.1 = (h.trips k).uuid.1

theorem Tracks.plain {name : FieldName} {h : Hop} (ht : h.Tracks name) :
    Plain (canonicalKey name.1) ∧ canonicalKey name.1 ≠ lit "Connection" := by
  have hne : ∀ {k : Bytes}, foreign h.cfg h.cfg.requestIdHeaderName k = true →
      canonicalKey name.1 ≠ k := by
    rintro k hk rfl
    rw [← ht.named] at hk
    exact (foreign_iff.mp hk).2.2.1 rfl
  exact ⟨⟨ht.framing, ht.trace, hne h.names.host, hne h.names.userAgent,
    hne h.names.cacheControl⟩, hne h.names.connection⟩

/-- The id a request is written with: its own, or the one the sidecar
generates. -/
theorem Tracks.values_sends {name : FieldName} {h : Hop} (ht : h.Tracks name)
    (k : Nat) (r : Request) :
    (h.sends k r).header.values (canonicalKey name.1) =
      if r.header.get name.1 = [] then [(h.trips k).uuid.1]
      else r.header.values (canonicalKey name.1) := by
  have hraw : canonicalKey name.1 ≠ traceContextHeaderName := by
    intro heq
    have := ht.trace
    rw [heq] at this
    exact absurd this (by decide)
  have hcanonical : canonicalKey name.1 ≠
      canonicalKey traceContextHeaderName := by
    intro heq
    have := ht.trace
    rw [heq] at this
    exact absurd this (by decide)
  have hid : ∀ g : Header, (if h.cfg.requestId g = [] then
      g.set h.cfg.requestIdHeaderName.1 (h.trips k).uuid.1 else g).values
        (canonicalKey name.1) = if g.get name.1 = [] then [(h.trips k).uuid.1]
          else g.values (canonicalKey name.1) := by
    intro g
    rw [HTTPConfig.requestId, ht.named]
    split
    · exact Header.values_put_self _ _ _
    · rfl
  have hsource : ∀ g : Header, (if g.get h.cfg.xSourceHeaderName.1 = [] then
      g.set h.cfg.xSourceHeaderName.1 h.cfg.xSourceValue.1 else g).values
        (canonicalKey name.1) = g.values (canonicalKey name.1) := by
    intro g
    split
    · exact Header.values_put_of_ne ht.source
    · rfl
  have hedit :
    (editHeader h.cfg h.isInbound h.tracer (h.trips k).cache (h.trips k).uuid.1
      r.header).values (canonicalKey name.1) =
        if r.header.get name.1 = [] then [(h.trips k).uuid.1]
        else r.header.values (canonicalKey name.1) := by
    rw [← hid]
    unfold editHeader
    dsimp only
    split
    · rfl
    · rw [hsource]
      split
      · exact Header.values_put_of_ne hraw
      · rfl
  unfold sends outgoing editRequest
  dsimp only
  split
  · exact hedit
  · exact (Header.values_put_of_ne hcanonical).trans hedit

/-- The id it is read with at the next sidecar. -/
theorem Delivers.id {h : Hop} {k : Nat} {m m' : Message Request}
    (hd : h.Delivers k m m') {name : FieldName} (ht : h.Tracks name)
    (hclean : sanitizeValue (m.head.header.get name.1) =
      m.head.header.get name.1) :
    m'.head.header.get name.1 =
      if m.head.header.get name.1 = [] then (h.trips k).uuid.1
        else m.head.header.get name.1 := by
  have hvalues := hd.fields _ ht.plain.1 ht.plain.2
  rw [ht.values_sends] at hvalues
  rw [show m'.head.header.get name.1 =
    (m'.head.header.values (canonicalKey name.1)).headD [] from rfl,
    hvalues]
  split
  · exact ht.uuid_clean k
  · next hne =>
      rw [show m.head.header.get name.1 =
        (m.head.header.values (canonicalKey name.1)).headD []
        from rfl] at hclean hne ⊢
      cases hv : m.head.header.values (canonicalKey name.1) with
      | nil =>
        rw [hv] at hne
        exact absurd rfl hne
      | cons v vs =>
        rw [hv] at hclean
        exact hclean

end Hop

/-! ## A chain of them -/

/-- What leaves the last of the sidecars. -/
def through (hops : List Hop) (data : Bytes) : Bytes :=
  hops.foldl (fun data h => h.pass data) data

/-- The `i`-th request that enters the first of the sidecars, and the one that
leaves the last: the same method, resource, body and trailer, the same values in
every field that none of them sets, and the id it brought or was given at the
first. -/
structure Arrives (first : Hop) (hops : List Hop) (i : Nat)
    (m m' : Message Request) : Prop
    extends SameRequest m m' where
  path : m'.head.url.path = m.head.url.path
  query : m'.head.url.querySuffix = m.head.url.querySuffix
  fields : ∀ k, Plain k → k ≠ lit "Connection" →
    (∀ h ∈ first :: hops, h.leaves k = true) →
    m'.head.header.values k = (m.head.header.values k).map sanitizeValue
  id : ∀ name : FieldName, (∀ h ∈ first :: hops, h.Tracks name) →
    sanitizeValue (m.head.header.get name.1) = m.head.header.get name.1 →
    m'.head.header.get name.1 =
      if m.head.header.get name.1 = [] then (first.trips i).uuid.1
        else m.head.header.get name.1

theorem Hop.Delivers.arrives {h : Hop} {i : Nat} {m m' : Message Request}
    (hd : h.Delivers i m m') :
    Arrives h [] i m m' where
  toSameRequest := hd.toSameRequest
  path := hd.path
  query := hd.query
  fields k hk hne hleaves := by
    rw [hd.fields k hk hne, h.values_sends (hleaves h List.mem_cons_self)]
  id name ht hclean := hd.id (ht h List.mem_cons_self) hclean

theorem Arrives.id_of {first : Hop} {hops : List Hop} {i : Nat}
    {m m' : Message Request} (ha : Arrives first hops i m m') {name : FieldName}
    (ht : ∀ h ∈ first :: hops, h.Tracks name) {v : Bytes}
    (hv : m.head.header.get name.1 = v) (hclean : sanitizeValue v = v) :
    m'.head.header.get name.1 = if v = [] then (first.trips i).uuid.1
      else v := by
  subst hv
  exact ha.id name ht hclean

/-- One sidecar more at the end. -/
theorem Arrives.snoc {first last : Hop} {hops : List Hop} {i : Nat}
    {m m' m'' : Message Request} (ha : Arrives first hops i m m')
    (hd : last.Delivers i m' m'') :
    Arrives first (hops ++ [last]) i m m'' where
  toSameRequest := ha.toSameRequest.trans hd.toSameRequest
  path := hd.path.trans ha.path
  query := hd.query.trans ha.query
  fields k hk hne hleaves := by
    have hlast := hleaves last (by simp)
    have hbefore : ∀ h ∈ first :: hops, h.leaves k = true := fun h hh =>
      hleaves h (by rw [← List.cons_append]; exact List.mem_append_left _ hh)
    rw [hd.fields k hk hne, last.values_sends hlast, ha.fields k hk hne hbefore,
      sanitize_twice]
  id name ht hclean := by
    have hlast := ht last (by simp)
    have hfirst := ht first List.mem_cons_self
    have hbefore : ∀ h ∈ first :: hops, h.Tracks name := fun h hh =>
      ht h (by rw [← List.cons_append]; exact List.mem_append_left _ hh)
    have hid := ha.id name hbefore hclean
    -- from the first sidecar on, the id is there and clean
    have hset : m'.head.header.get name.1 ≠ [] ∧
        sanitizeValue (m'.head.header.get name.1) =
          m'.head.header.get name.1 := by
      rw [hid]
      split
      · exact ⟨hfirst.uuid_ne i, hfirst.uuid_clean i⟩
      · next hne => exact ⟨hne, hclean⟩
    rw [hd.id hlast hset.2, if_neg hset.1, hid]

/-- A stream that passes one sidecar. -/
theorem Hop.delivered (h : Hop) {data : Bytes} {ms : List (Message Request)}
    (hms : Messages (fun _ => readRequest)
      (fun _ => requestFraming) .eof 0 ms data)
    (hpass : ∀ m ∈ ms, Passes m) :
    ∃ ms', Messages (fun _ => readRequest) (fun _ => requestFraming) .eof 0 ms'
      (h.pass data) ∧
      List.Forall₂ (fun p m' => h.Delivers p.2 p.1 m') ms.zipIdx ms' :=
  relayed_each h.relays h.writes hms fun _ m hm =>
    hpass m (List.mem_of_getElem? hm)

theorem arrives_through (first : Hop) (hops : List Hop) {data : Bytes}
    {ms : List (Message Request)}
    (hms : Messages (fun _ => readRequest)
      (fun _ => requestFraming) .eof 0 ms data)
    (hpass : ∀ m ∈ ms, Passes m) :
    ∃ ms', Messages (fun _ => readRequest) (fun _ => requestFraming) .eof 0 ms'
        (through (first :: hops) data) ∧
      List.Forall₂ (fun p m' => Arrives first hops p.2 p.1 m' ∧
        Passes m') ms.zipIdx ms' := by
  induction hops using List.reverseRecOn with
  | nil =>
    obtain ⟨ms', hms', hall⟩ := first.delivered hms hpass
    exact ⟨ms', hms', hall.imp fun _ _ hd => ⟨hd.arrives, hd.passes⟩⟩
  | append_singleton hops last ih =>
    obtain ⟨ms', hms', hall⟩ := ih
    obtain ⟨ms'', hms'', hall'⟩ :=
      last.delivered hms' (forall₂_right (P := Passes) (fun h => h.2) hall)
    refine ⟨ms'', ?_, forall₂_zipIdx_trans
      (R := fun i m m' => Arrives first hops i m m' ∧ Passes m') (S :=
        last.Delivers)
      (T := fun i m m' => Arrives first (hops ++ [last]) i m m' ∧ Passes m')
      (fun ha hd => ⟨ha.1.snoc hd, hd.passes⟩) hall hall'⟩
    rw [through, ← List.cons_append, List.foldl_append]
    exact hms''

/-- A stream of requests arrives behind any number of sidecars as a stream of
the same requests in the same order, and the id a request has behind the first
of them it has behind the last. -/
theorem requests_through_mesh (first : Hop) (hops : List Hop) {data : Bytes}
    {ms : List (Message Request)}
    (hms : Messages (fun _ => readRequest)
      (fun _ => requestFraming) .eof 0 ms data)
    (hpass : ∀ m ∈ ms, Passes m) :
    ∃ ms', Messages (fun _ => readRequest) (fun _ => requestFraming) .eof 0 ms'
        (through (first :: hops) data) ∧
      List.Forall₂ (fun p m' => Arrives first hops p.2 p.1 m') ms.zipIdx
        ms' := by
  obtain ⟨ms', hms', hall⟩ := arrives_through first hops hms hpass
  exact ⟨ms', hms', hall.imp fun _ _ h => h.1⟩

/-! ### Two sidecars -/

theorem foreignNames_id :
    ForeignNames HTTPConfig.default HTTPConfig.default.requestIdHeaderName :=
  ⟨by decide +kernel, by decide +kernel, by decide +kernel, by decide +kernel⟩

/-- A sidecar with nothing configured, that generates the id `uuid`. -/
def plainHop (isInbound : Bool) (uuid : FieldValue) (cuts : List Nat)
    (w : World) (hw : ∀ k, NoFail (w.fails k)) : Hop where
  Context := Bytes
  cfg := HTTPConfig.default
  isInbound := isInbound
  tracer := plainTracer
  trips := fun _ => ⟨uuid, [], none⟩
  idna := fun _ => none
  world := w
  cuts := cuts
  heads := fun _ => false
  answers := w
  answerCuts := cuts
  names := foreignNames_id
  idna_nl := fun _ _ h => absurd h (Option.some_ne_none _).symm
  writes := hw
  returns := hw

theorem tracks_plainHop {isInbound : Bool} {uuid : FieldValue} {cuts : List Nat}
    {w : World} {hw : ∀ k, NoFail (w.fails k)} (hne : uuid.1 ≠ [])
    (hclean : sanitizeValue uuid.1 = uuid.1) :
    (plainHop isInbound uuid cuts w hw).Tracks
      HTTPConfig.default.requestIdHeaderName :=
  ⟨rfl, by decide, by decide,
    (by decide : canonicalKey (lit "X-Request-Id") ≠
      canonicalKey (lit "X-Source")),
    fun _ => hne, fun _ => hclean⟩

/-- A request without an id, and one that brings its own. -/
def withAndWithout : Bytes :=
  lit "GET / HTTP/1.1\r\n\r\n" ++
    lit "GET /next HTTP/1.1\r\nX-Request-Id: 7\r\n\r\n"

theorem requests_through_mesh_two :
    ∃ ms ms', Messages (fun _ => readRequest)
      (fun _ => requestFraming) .eof 0 ms withAndWithout ∧
      Messages (fun _ => readRequest) (fun _ => requestFraming) .eof 0 ms'
        (through
          [plainHop false
          ⟨lit "a", by decide⟩ [0, 3] {} (fun k b hb => by cases hb),
          plainHop true ⟨lit "b", by decide⟩ [] {} (fun k b hb => by cases hb)]
            withAndWithout) ∧
      ms'.map (fun m => m.head.header.get (lit "X-Request-Id")) =
        [lit "a", lit "7"] := by
  obtain ⟨r, u, hparse, hp⟩ := exists_parses readRequest .eof withAndWithout
    (fun r u => decide (r.requestURI = lit "/" ∧ r.method = lit "GET" ∧
      r.header.get (lit "Connection") = [] ∧
        r.header.get (lit "X-Request-Id") = [] ∧
      requestFraming r = .length 0 ∧ r.trailer = none ∧
      u = lit "GET /next HTTP/1.1\r\nX-Request-Id: 7\r\n\r\n"))
        (by decide +kernel)
  obtain ⟨huri, hmethod, hconn, hid, hfr, htrailer, rfl⟩ := of_decide_eq_true hp
  obtain ⟨r₂, u₂, hparse₂, hp₂⟩ := exists_parses readRequest .eof
    (lit "GET /next HTTP/1.1\r\nX-Request-Id: 7\r\n\r\n")
    (fun r u => decide (r.requestURI = lit "/next" ∧ r.method = lit "GET" ∧
      r.header.get (lit "Connection") = [] ∧ r.header.get (lit "X-Request-Id") =
        lit "7" ∧
      requestFraming r = .length 0 ∧ r.trailer = none ∧ u = []))
        (by decide +kernel)
  obtain ⟨huri₂, hmethod₂, hconn₂, hid₂, hfr₂, htrailer₂, rfl⟩ :=
    of_decide_eq_true hp₂
  have hcarries : ∀ v : Bytes, Carries .eof (.length 0) v [] none v :=
    fun v => .length (Nat.zero_le _)
  have hms : Messages (fun _ => readRequest) (fun _ => requestFraming) .eof 0
      [⟨r, [], none⟩, ⟨r₂, [], none⟩] withAndWithout :=
    .cons hparse (by dsimp only; rw [hfr]; exact hcarries _)
      (.cons hparse₂ (by dsimp only; rw [hfr₂]; exact hcarries _) .nil)
  have hpass : ∀ m ∈ [(⟨r, [], none⟩ : Message Request), ⟨r₂, [], none⟩],
      Passes m := by
    intro m hm
    simp only [List.mem_cons, List.not_mem_nil, or_false] at hm
    rcases hm with rfl | rfl
    · refine ⟨⟨?_, ?_, ?_, ?_⟩, ?_⟩ <;> dsimp only
      · rw [huri]; rfl
      · rw [hmethod]; decide
      · rw [hconn]; decide
      · rw [htrailer]; decide
      · rw [hconn]; decide
    · refine ⟨⟨?_, ?_, ?_, ?_⟩, ?_⟩ <;> dsimp only
      · rw [huri₂]; rfl
      · rw [hmethod₂]; decide
      · rw [hconn₂]; decide
      · rw [htrailer₂]; decide
      · rw [hconn₂]; decide
  obtain ⟨ms', hms', hall⟩ := requests_through_mesh
    (plainHop false ⟨lit "a", by decide⟩ [0, 3] {} (fun k b hb => by cases hb))
    [plainHop true ⟨lit "b", by decide⟩ [] {} (fun k b hb => by cases hb)]
      hms hpass
  refine ⟨_, ms', hms, hms', ?_⟩
  cases hall with
  | cons h₁ hall =>
    cases hall with
    | cons h₂ hall =>
      cases hall
      have htracks :
        ∀ h ∈
        [plainHop false
        ⟨lit "a", by decide⟩ [0, 3] {} (fun k b hb => by cases hb),
          plainHop true ⟨lit "b", by decide⟩ [] {} (fun k b hb => by cases hb)],
          h.Tracks HTTPConfig.default.requestIdHeaderName := by
        intro h hh
        simp only [List.mem_cons, List.not_mem_nil, or_false] at hh
        rcases hh with rfl | rfl <;> exact tracks_plainHop
          (by decide) (by decide)
      have hgiven := h₁.id_of htracks hid rfl
      have hbrought := h₂.id_of htracks hid₂ (by decide)
      rw [if_pos rfl] at hgiven
      rw [if_neg (by decide)] at hbrought
      rw [List.map_cons, List.map_cons, List.map_nil]
      exact congrArg₂ _ hgiven (congrArg₂ _ hbrought rfl)

/-! ## The way back -/

/-- A response that is returned, and that still is when its `Connection` is
sanitized. -/
structure Comes (m : Message Response) : Prop extends Returnable m where
  connection : toLower (sanitizeValue (m.head.header.get (lit "Connection"))) ≠
    lit "upgrade"

/-- A response before and behind sidecars: the same code, body and trailer, and
the same values in every field that is neither framing nor made up. -/
structure Brings (m m' : Message Response) :
    Prop extends SameResponse m m' where
  fields : ∀ k, isFramingKey k = false → k ≠ lit "Connection" →
    k ≠ lit "Cache-Control" →
    m'.head.header.values k = (m.head.header.values k).map sanitizeValue

theorem Brings.trans {m m' m'' : Message Response} (h : Brings m m')
    (h' : Brings m' m'') :
    Brings m m'' where
  toSameResponse := h.toSameResponse.trans h'.toSameResponse
  fields k hk hconn hcc := by
    rw [h'.fields k hk hconn hcc, h.fields k hk hconn hcc, sanitize_twice]

theorem Hop.relaysBack (h : Hop) :
    Relays h.responder (fun _ => responseFraming false)
      (fun _ => readResponse none)
      (fun _ => responseFraming false) (fun _ => Comes)
        (fun m m' => Brings m m' ∧ Comes m') := by
  have hR := responseHandler_relays h.heads h.answers
  refine ⟨hR.conserves, hR.shrinks,
    @fun k _ hg => hR.proceeds (k := k) hg.toReturnable, ?_⟩
  intro m rd₀ rd rest s hread hsize hfails hg hcarries
  obtain ⟨hview, w, m', hbytes, hsame, hstands⟩ :=
    hR.relays hread hsize hfails hg.toReturnable hcarries
  refine ⟨hview, w, m', hbytes, ?_, hstands⟩
  -- the response that was written, and the one that is read from it
  have hfacts := responseFacts hread
  have hforward : h.responder.forward s.count m.head
    (s.copy h.responder m.head rd) =
      m.head.write (s.copy h.responder m.head rd) :=
        responseForward_eq h.heads h.answers _ _ _
  obtain ⟨more, hwritten⟩ :=
    response_written (r := m.head) (c := s.copy h.responder m.head rd) hfails
  rw [← hforward] at hwritten
  have hw : w = headWire (responseStart m.head) (responseLines m.head) ++
      more := by
    refine List.append_cancel_left (hbytes.symm.trans (hwritten.trans ?_))
    rw [List.append_assoc]
    rfl
  obtain ⟨u, hparse, _⟩ : ∃ u,
      Parses (readResponse none) .eof (w ++ []) m'.head u ∧ _ :=
    hstands [] fun _ => rfl
  rw [List.append_nil, hw] at hparse
  have hconn : toLower (m'.head.header.get (lit "Connection")) ≠ lit "upgrade" ∧
      toLower (sanitizeValue (m'.head.header.get (lit "Connection"))) ≠
        lit "upgrade" := by
    obtain ⟨l, _, hfin⟩ := hfacts.finished hg.alike hparse
    have hvalues := (finishedResponse hfin).connection
    rw [show m'.head.header.get (lit "Connection") =
      (m'.head.header.values (lit "Connection")).headD [] from rfl, hvalues]
    split
    · exact ⟨by decide, by decide⟩
    · exact connection_again hg.connection (hfacts.values_again (by decide))
  refine ⟨⟨hsame, ?_⟩, ⟨⟨hconn.1, hfacts.alike_read hg.alike hparse, ?_⟩,
    hconn.2⟩⟩
  · intro k hk hne hcc
    exact hfacts.values_read hg.alike hparse hk hne hcc
  · refine fits_again hsame.trailer (fun hnone => ?_) hg.fits
    obtain ⟨r', _, _, htr', hagain⟩ := hfacts.again hg.alike
    have hwire := hagain more
    rw [responseHead_flatten] at hwire
    rw [(hparse.unique hwire).1, htr', if_pos]
    refine (hfacts.trailerOf hg.alike).keys.2.2.1 ?_
    rw [(responseWriter_spec hfacts hg.alike).2.1]
    exact hnone

/-- What the first of the sidecars writes to its client for what the target of
the last of them says. -/
def backThrough (hops : List Hop) (data : Bytes) : Bytes :=
  hops.foldr Hop.back data

theorem brings_back (hops : List Hop) (last : Hop) {data : Bytes}
    {ms : List (Message Response)}
    (hms : Messages (fun _ => readResponse none)
      (fun _ => responseFraming false) .eof 0 ms data)
    (hcomes : ∀ m ∈ ms, Comes m) :
    ∃ ms', Messages (fun _ => readResponse none)
      (fun _ => responseFraming false) .eof 0 ms'
        (backThrough (hops ++ [last]) data) ∧
      List.Forall₂ (fun m m' => Brings m m' ∧ Comes m') ms ms' := by
  have hone : ∀ (h : Hop) {data : Bytes} {ms : List (Message Response)},
      Messages (fun _ => readResponse none)
        (fun _ => responseFraming false) .eof 0 ms data →
      (∀ m ∈ ms, Comes m) →
      ∃ ms', Messages (fun _ => readResponse none)
        (fun _ => responseFraming false) .eof 0 ms'
          (h.back data) ∧ List.Forall₂
            (fun m m' => Brings m m' ∧ Comes m') ms ms' :=
    fun h _ _ hms hcomes => relayed h.relaysBack h.returns hms
      fun _ m hm => hcomes m (List.mem_of_getElem? hm)
  induction hops with
  | nil => exact hone last hms hcomes
  | cons h hops ih =>
    obtain ⟨ms', hms', hall⟩ := ih
    obtain ⟨ms'', hms'', hall'⟩ :=
      hone h hms' (forall₂_right (fun h => h.2) hall)
    exact ⟨ms'', hms'',
      forall₂_trans (fun hb hb' => ⟨hb.1.trans hb'.1, hb'.2⟩) hall hall'⟩

/-- The answers come back through any number of sidecars as the same answers in
the same order. -/
theorem responses_through_mesh (hops : List Hop) (last : Hop) {data : Bytes}
    {ms : List (Message Response)}
    (hms : Messages (fun _ => readResponse none)
      (fun _ => responseFraming false) .eof 0 ms data)
    (hcomes : ∀ m ∈ ms, Comes m) :
    ∃ ms', Messages (fun _ => readResponse none)
      (fun _ => responseFraming false) .eof 0 ms'
        (backThrough (hops ++ [last]) data) ∧ List.Forall₂ Brings ms ms' := by
  obtain ⟨ms', hms', hall⟩ := brings_back hops last hms hcomes
  exact ⟨ms', hms', hall.imp fun _ _ h => h.1⟩

theorem responses_through_mesh_two :
    ∃ ms ms', Messages (fun _ => readResponse none)
      (fun _ => responseFraming false) .eof 0 ms
        (answerWithTrailer (lit "x\ry")
          (lit "HTTP/1.1 404 No\r\nA: b\r\n\r\nbye")).data ∧
      Messages (fun _ => readResponse none)
        (fun _ => responseFraming false) .eof 0 ms'
        (backThrough [plainHop false
          ⟨lit "a", by decide⟩ [0, 3] {} (fun k b hb => by cases hb),
          plainHop true ⟨lit "b", by decide⟩ [] {} (fun k b hb => by cases hb)]
          (answerWithTrailer (lit "x\ry")
            (lit "HTTP/1.1 404 No\r\nA: b\r\n\r\nbye")).data) ∧
      ms'.map Message.data = [lit "hi", lit "bye"] ∧
        List.Forall₂ Brings ms ms' := by
  obtain ⟨r, u, hparse, hp⟩ := exists_parses (readResponse none) .eof
    (answerWithTrailer (lit "x\ry")
      (lit "HTTP/1.1 404 No\r\nA: b\r\n\r\nbye")).data
    (fun r u => decide (IsOK r ∧ u = lit "2\r\nhi\r\n0\r\nA: " ++ lit "x\ry" ++
      lit "\r\n\r\n" ++
      lit "HTTP/1.1 404 No\r\nA: b\r\n\r\nbye")) (by decide +kernel)
  obtain ⟨⟨_, hconn, halike, hfr, htrailer⟩, rfl⟩ := of_decide_eq_true hp
  obtain ⟨r₂, u₂, hparse₂, hp₂⟩ := exists_parses (readResponse none) .eof
    (lit "HTTP/1.1 404 No\r\nA: b\r\n\r\nbye")
    (fun r u => decide (r.header.get (lit "Connection") = [] ∧ SeenAlike r ∧
      responseFraming false r = .close ∧ r.trailer = none ∧ u = lit "bye"))
        (by decide +kernel)
  obtain ⟨hconn₂, halike₂, hfr₂, htrailer₂, rfl⟩ := of_decide_eq_true hp₂
  have hcarries := carries_hi (lit "x\ry")
    (lit "HTTP/1.1 404 No\r\nA: b\r\n\r\nbye")
    (by decide +kernel) (by decide +kernel) (by decide +kernel)
  rw [← hfr] at hcarries
  have hcarries₂ : Carries .eof (responseFraming false r₂) (lit "bye")
      (lit "bye") none [] := by
    rw [hfr₂]
    exact .close
  have hms : Messages (fun _ => readResponse none)
    (fun _ => responseFraming false) .eof 0
      [⟨r, lit "hi", some (fieldA (lit "x\ry"))⟩, ⟨r₂, lit "bye", none⟩]
      (answerWithTrailer (lit "x\ry")
        (lit "HTTP/1.1 404 No\r\nA: b\r\n\r\nbye")).data :=
    .cons hparse hcarries (.cons hparse₂ hcarries₂ .nil)
  have hcomes :
    ∀ m ∈ [(⟨r, lit "hi", some (fieldA (lit "x\ry"))⟩ : Message Response),
      ⟨r₂, lit "bye", none⟩], Comes m := by
    intro m hm
    simp only [List.mem_cons, List.not_mem_nil, or_false] at hm
    rcases hm with rfl | rfl
    · refine ⟨⟨?_, halike, ?_⟩, ?_⟩ <;> dsimp only
      · rw [hconn]; decide
      · rw [htrailer]; decide +kernel
      · rw [hconn]; decide
    · refine ⟨⟨?_, halike₂, ?_⟩, ?_⟩ <;> dsimp only
      · rw [hconn₂]; decide
      · rw [htrailer₂]; decide +kernel
      · rw [hconn₂]; decide
  obtain ⟨ms', hms', hall⟩ := responses_through_mesh
    [plainHop false ⟨lit "a", by decide⟩ [0, 3] {} (fun k b hb => by cases hb)]
    (plainHop true ⟨lit "b", by decide⟩ [] {} (fun k b hb => by cases hb)) hms
      hcomes
  refine ⟨_, ms', hms, hms', ?_, hall⟩
  cases hall with
  | cons h₁ hall =>
    cases hall with
    | cons h₂ hall =>
      cases hall
      rw [List.map_cons, List.map_cons, List.map_nil, h₁.data, h₂.data]

end Netramesh.Proofs
