import Netramesh.Proofs.Propagation
import Netramesh.Proofs.Resent

/-!
# One trace on both sides of the wire

The sidecar of the caller starts a span for a request and so does the sidecar of
the service that is called. Whether the request brought a context, found one in
the cache or got a new one, there is one trace header on the wire, and the two
spans belong to one trace: either both are children of the context that came
with the request, or the second is a child of the first.
-/

namespace Netramesh.Proofs

open Http Net Protocol Lib

/-! ## Names and their case -/

theorem toLower_of_token {k : Bytes} (h : k.all isTokenByte = true) :
    toLower k = k.map lowerByte := by
  induction k with
  | nil => rfl
  | cons c s ih =>
    rw [List.all_cons, Bool.and_eq_true] at h
    have hc : c ≠ 0xE2 ∧ c ≠ 0xC4 := by
      refine ⟨?_, ?_⟩
      · rintro rfl
        exact absurd h.1 (by decide)
      · rintro rfl
        exact absurd h.1 (by decide)
    rw [toLower, ih h.2]
    · rfl
    · exact fun _ hhead _ => hc.1 hhead
    · exact fun _ hhead _ => hc.2 hhead

theorem map_lowerByte_capitalize (k : Bytes) :
    ∀ upper, (capitalize upper k).map lowerByte = k.map lowerByte := by
  have hbyte : ∀ (upper : Bool) (c : UInt8), lowerByte (recase upper c) =
      lowerByte c :=
    fun upper => forall_byte (by cases upper <;> decide +kernel)
  induction k with
  | nil => exact fun _ => rfl
  | cons c s ih =>
    intro upper
    rw [capitalize, List.map_cons, List.map_cons, hbyte, ih]

/-- The tracer finds a field under the name it was sent with and the one it is
read with alike. -/
theorem isTraceKey_canonicalKey (k : Bytes) :
    isTraceKey (canonicalKey k) = isTraceKey k := by
  unfold canonicalKey
  split
  · next htoken =>
      rw [isTraceKey, isTraceKey,
        toLower_of_token (all_isTokenByte_capitalize htoken true),
        toLower_of_token htoken, map_lowerByte_capitalize]
  · rfl

/-! ## The trace header, read back -/

section Wire

variable {idna : Bytes → Option Bytes} {r r' : Request} {rest u : Bytes}

/-- A trace header is none that reading a request takes out or makes up. -/
theorem ne_of_isTraceKey {k : Bytes} (h : isTraceKey k = true) :
    isFramingKey k = false ∧ k ≠ lit "Host" ∧ k ≠ lit "Cache-Control" := by
  have hne : ∀ k', isTraceKey k' = false → k ≠ k' := by
    rintro k' hk' rfl
    rw [h] at hk'
    cases hk'
  refine ⟨?_, hne _ (by decide), hne _ (by decide)⟩
  simp only [isFramingKey, Bool.or_eq_false_iff, beq_eq_false_iff_ne]
  exact ⟨⟨hne _ (by decide), hne _ (by decide)⟩, hne _ (by decide)⟩

/-- Among the lines of a request, those the tracer finds come from its
header. -/
theorem filter_requestLines (idna : Bytes → Option Bytes) (r : Request) :
    (requestLines idna r).filter (fun f => isTraceKey f.1) =
      traceLines r.header := by
  have hframe : (frameLines (newRequestWriter r)).filter
      (fun f => isTraceKey f.1) = [] := by
    refine List.filter_eq_nil_iff.mpr fun f hf => ?_
    rcases mem_frameLines hf with h | h | h | h <;> rw [h] <;> decide
  have hagent : (if r.outgoingUserAgent ≠ [] then
      [(lit "User-Agent", r.outgoingUserAgent)] else []).filter
        (fun f => isTraceKey f.1) = [] := by
    split <;> rfl
  rw [requestLines, List.filter_append, List.filter_append, List.filter_append,
    hframe, hagent]
  rfl

/-- The trace headers that are read are the ones that were written. -/
theorem Outgoing.traceValues_read (h : Outgoing r)
    (hidna : ∀ v a, idna v = some a → nl ∉ a)
    (hp : Parses readRequest .eof
      (headWire (requestStart idna r) (requestLines idna r) ++ rest) r' u) :
    (traceValues r'.header.entries).Perm
      ((traceLines r.header).map Prod.snd) := by
  obtain ⟨l, _, hfin⟩ := h.finished hidna hp
  have hvalue : ∀ f ∈ traceLines r.header, fieldValue f.2 = f.2 := by
    intro f hf
    obtain ⟨_, _, _, v, _, hval⟩ := mem_fieldLines.mp (List.mem_filter.mp hf).1
    rw [hval]
    exact fieldValue_of_trimmed (trimmed_sanitize v)
  have hperm : ((fieldsOf r'.header.entries).filter fun f =>
    isTraceKey f.1).Perm
      ((traceLines r.header).map fun f => (canonicalKey f.1, f.2)) := by
    rw [perm_iff_under]
    intro k
    have hright : under k ((traceLines r.header).map fun f =>
      (canonicalKey f.1, f.2)) =
        ((traceLines r.header).filter fun f => canonicalKey f.1 =
          k).map Prod.snd := by
      rw [under, List.filter_map, List.map_map]
      rfl
    rw [under_filter, under_fieldsOf, hright]
    split
    · next hk =>
        obtain ⟨hframing, hhost, hcc⟩ := ne_of_isTraceKey hk
        rw [Header.values, (finishedRequest hfin).lookup k hframing hhost hcc]
        change (((requestLines idna r).foldl addLine Header.empty).values
          k).Perm _
        have hlines : (requestLines idna r).filter
          (fun f => canonicalKey f.1 = k) =
            (traceLines r.header).filter fun f => canonicalKey f.1 = k := by
          rw [← filter_requestLines idna, List.filter_filter]
          refine List.filter_congr fun f _ => ?_
          by_cases hf : canonicalKey f.1 = k
          · rw [← isTraceKey_canonicalKey f.1, hf, hk, Bool.and_true]
          · rw [decide_eq_false hf, Bool.false_and]
        rw [values_foldl_addLine, hlines]
        refine .of_eq ?_
        exact List.map_congr_left fun f hf => hvalue f (List.mem_filter.mp hf).1
    · next hk =>
        refine .of_eq (List.map_eq_nil_iff.mpr
          (List.filter_eq_nil_iff.mpr ?_)).symm
        intro f hf hname
        have htrace := (List.mem_filter.mp hf).2
        rw [← isTraceKey_canonicalKey f.1, of_decide_eq_true hname] at htrace
        exact hk htrace
  have hsnd := hperm.map Prod.snd
  rw [List.map_map] at hsnd
  exact hsnd

end Wire

/-! ## Two spans -/

/-- A tracer whose own contexts can be read back: the ids are not zero, and the
flags, written in base 16, can be read in base 10. -/
structure Readable (j : Jaeger) : Prop where
  id : ∀ n, j.randomID n ≠ 0
  flags : ∀ n, flagsFromString (hex (j.sampled n none).toNat) ≠ none

theorem ChildOf.congr {span : Span SpanContext} {c c' : SpanContext}
    (h : ChildOf span c) (hid : c.identity = c'.identity) :
    ChildOf span c' := by
  have hparts := hid
  simp only [SpanContext.identity, Prod.mk.injEq] at hparts
  obtain ⟨p, hp, hvalid, heq⟩ := h.reference
  refine ⟨⟨p, hp, hvalid, heq.trans hid⟩, ?_, ?_⟩
  · rw [← hparts.1, ← hparts.2.1]
    exact h.trace
  · rw [← hparts.2.2]
    exact h.parent

theorem decode_string {c : SpanContext}
    (h : flagsFromString (hex c.flags.toNat) ≠ none) :
    ∃ c', decodeContext c.string = some c' ∧ c'.identity = c.identity := by
  obtain ⟨flags, hflags⟩ := Option.ne_none_iff_exists'.mp h
  refine ⟨{ high := c.high, low := c.low, spanID := c.spanID,
            parentID := c.parentID, flags := flags }, ?_, rfl⟩
  rw [decodeContext_string, reread, hflags]
  rfl

section Spans

variable {cfg : HTTPConfig} {j : Jaeger} {cache : List (Bytes × SpanContext)}
  {uuid : Bytes}
  {r : Request}

/-- The one context an outbound request leaves with: that of its span, or the
one its span is a child of. -/
theorem context_sent (hcfg : Apart cfg) (hj : Readable j) (hr : Received r)
    (h : Unambiguous (cache.lookup (idOf cfg uuid r.header)) r.header)
    (n : Nat) :
    let e := editRequest cfg false j.tracer cache uuid r
    let span := startSpan cfg false j.tracer n e
    ∃ v c, (traceLines (injected j.tracer span e).header).map Prod.snd = [v] ∧
      decodeContext v = some c ∧ c.isValid = true ∧
      (c.identity = span.context.identity ∨ ChildOf span c) := by
  dsimp only
  cases hcache : cache.lookup (idOf cfg uuid r.header) with
  | some ctx =>
    rw [hcache] at h
    obtain ⟨hown, hvalid, hflags⟩ := h.1 ctx rfl
    have hvalues := traceValues_cached (j := j) (s :=
      { cache := cache }) hcfg hr hcache
    rw [hown, List.nil_append] at hvalues
    obtain ⟨c, hc, hid⟩ := decode_string hflags
    have hcvalid := (isValid_congr hid).trans hvalid
    obtain ⟨hline, hchild⟩ := single_kept cfg (n := n) hvalues hc hcvalid
    exact ⟨_, c, hline, hc, hcvalid, .inr hchild⟩
  | none =>
    rw [hcache] at h
    have hvalues := traceValues_uncached (j := j) (s :=
      { cache := cache }) hcfg hcache
    rcases h.2 rfl with ⟨hown, hmissed⟩ | ⟨v, c, hown, hc, hvalid⟩
    · rw [hown] at hvalues
      obtain ⟨es, hes, hextract⟩ :=
        extract_transfer (readEntries_uncached j.tracer hcfg hcache).symm
        (j.order_perm n (editHeader cfg false j.tracer cache uuid r.header))
      have hnone := hextract.symm.trans (hmissed es hes)
      have hlines := lines_of_missed cfg (n := n) (j := j)
        (r := editRequest cfg false j.tracer cache uuid r) hnone
      rw [hvalues, List.map_nil, List.nil_append] at hlines
      -- a trace of its own
      have hroot : (startSpan cfg false j.tracer n
          (editRequest cfg false j.tracer cache uuid r)).context =
            j.newContext n none := by
        rw [← hnone]
        rfl
      obtain ⟨c, hc, hid⟩ := decode_string (c :=
        j.newContext n none) (hj.flags n)
      refine ⟨_, c, List.perm_singleton.mp hlines, by rw [hroot]; exact hc, ?_,
        .inl (by rw [hroot]; exact hid)⟩
      rw [isValid_congr hid, SpanContext.isValid, SpanContext.hasTrace,
        Bool.and_eq_true, Bool.or_eq_true, bne_iff_ne, bne_iff_ne, bne_iff_ne]
      exact ⟨.inr (hj.id n), hj.id n⟩
    · rw [hown] at hvalues
      obtain ⟨hline, hchild⟩ := single_kept cfg (n := n) hvalues hc hvalid
      exact ⟨v, c, hline, hc, hvalid, .inr hchild⟩

/-- The span of an inbound request with one valid context is its child. -/
theorem childOf_received (hcfg : Apart cfg) {v : Bytes} {c : SpanContext}
    (hv : traceValues r.header.entries = [v]) (hc : decodeContext v = some c)
    (hvalid : c.isValid = true) (n : Nat) :
    ChildOf (startSpan cfg true j.tracer n
      (editRequest cfg true j.tracer cache uuid r)) c := by
  have hvalues : traceValues
      (editRequest cfg true j.tracer cache uuid r).header.entries = [v] := by
    rw [← hv, ← traceValues_readEntries, ← traceValues_readEntries r.header]
    exact congrArg traceValues (readEntries_named hcfg r.header)
  obtain ⟨_, hchild⟩ := single_kept cfg (j := j) (n := n) hvalues hc hvalid
  exact ⟨hchild.reference, hchild.trace, hchild.parent⟩

end Spans

/-- On a connection that has come to the state `e`, the request `r` was read as
the `k`-th, edited with this cache and id, and found alone in the queue by
`StartRequest`, which took the state `s` to `t`. -/
def Started {C : Type} (cfg : HTTPConfig) (isInbound : Bool) (tr : Tracer C)
    (k : Nat) (s t e : St C) (cache : List (Bytes × C)) (uuid : Bytes)
    (r : Request) : Prop :=
  ∃ acts, exec (step cfg isInbound tr) {} acts = some e ∧
    ReadsAs cfg isInbound tr acts k r cache uuid ∧
      Calls cfg isInbound tr acts k [k] s t

section Started

variable {C : Type} {cfg : HTTPConfig} {isInbound : Bool} {tr : Tracer C}
  {k : Nat} {s t e : St C}
  {cache : List (Bytes × C)} {uuid : Bytes} {r : Request}

theorem Started.span (h : Started cfg isInbound tr k s t e cache uuid r) :
    t.made = s.made ++ [startSpan cfg isInbound tr s.made.length
        (editRequest cfg isInbound tr cache uuid r)] ∧
      e.made[s.made.length]? = some (startSpan cfg isInbound tr s.made.length
        (editRequest cfg isInbound tr cache uuid r)) := by
  obtain ⟨acts, hrun, hread, hcall⟩ := h
  exact hcall.span_made hrun hread

theorem Started.written (h : Started cfg isInbound tr k s t e cache uuid r)
    {w : Request} (hw : e.written[k]? = some w) :
    w = { editRequest cfg isInbound tr cache uuid r with
      header := injectHeader isInbound tr
        (startSpan cfg isInbound tr s.made.length
          (editRequest cfg isInbound tr cache uuid r))
        (editRequest cfg isInbound tr cache uuid r).header } := by
  obtain ⟨acts, hrun, hread, hcall⟩ := h
  exact hcall.written hrun hread hw

end Started

/-- A request that is injected into is written as `outgoing` says. -/
theorem outgoing_injected {C : Type} (cfg : HTTPConfig) (tr : Tracer C)
    (cache : List (Bytes × C)) (uuid : FieldValue) (r : Request)
    (span : Span C) :
    ∃ t, injected tr span (editRequest cfg false tr cache uuid.1 r) =
      outgoing cfg false tr t r := by
  cases hp : span.parent with
  | none =>
    refine ⟨⟨uuid, cache, some span.context⟩, ?_⟩
    rw [injected, injectHeader, hp]
    rfl
  | some p =>
    refine ⟨⟨uuid, cache, none⟩, ?_⟩
    rw [injected, injectHeader, hp]
    rfl

/-- The spans that the two sidecars make for one request belong to one trace,
whatever else happens on either connection. -/
theorem one_trace {cfgA cfgB : HTTPConfig} {jA jB : Jaeger} {kA kB : Nat}
    {sA tA eA sB tB eB : St SpanContext}
    {cacheA cacheB : List (Bytes × SpanContext)} (uuidA : FieldValue)
    {uuidB : Bytes} {r r' w : Request} {idna : Bytes → Option Bytes}
    {rd rd' : Reader Tee} {rest u : Bytes} (hcA : Apart cfgA) (hcB : Apart cfgB)
    (hj : Readable jA) (hidna : ∀ v a, idna v = some a → nl ∉ a)
    (hread : readRequest rd = (.ok r, rd'))
    (hroot : r.requestURI.head? = some 47) (hmethod : r.method ≠ methodHead)
    (hA : Started cfgA false jA.tracer kA sA tA eA cacheA uuidA.1 r)
    (hclear : Unambiguous (cacheA.lookup (idOf cfgA uuidA.1 r.header)) r.header)
    (hw : eA.written[kA]? = some w)
    (hp : Parses readRequest .eof
      (headWire (requestStart idna w) (requestLines idna w) ++ rest) r' u)
    (hB : Started cfgB true jB.tracer kB sB tB eB cacheB uuidB r') :
    ∃ a b, (tA.made = sA.made ++ [a] ∧ eA.made[sA.made.length]? = some a) ∧
      (tB.made = sB.made ++ [b] ∧ eB.made[sB.made.length]? = some b) ∧
      (b.context.high = a.context.high ∧ b.context.low = a.context.low) ∧
      (ChildOf b a.context ∨ ∃ c, ChildOf a c ∧ ChildOf b c) := by
  obtain ⟨v, c, hline, hc, hvalid, hcase⟩ :=
    context_sent hcA hj ⟨rd, rd', r, hread, .inl rfl⟩ hclear sA.made.length
  have hwritten : w = injected jA.tracer _ _ := hA.written hw
  rw [← hwritten] at hline
  have hout : Outgoing w := by
    obtain ⟨t, ht⟩ := outgoing_injected cfgA jA.tracer cacheA uuidA r
      (startSpan cfgA false jA.tracer sA.made.length
        (editRequest cfgA false jA.tracer cacheA uuidA.1 r))
    rw [hwritten, ht]
    exact (requestFacts hread hroot).outgoing hroot hmethod
  have hvalues := hout.traceValues_read hidna hp
  rw [hline] at hvalues
  have hchild : ChildOf (startSpan cfgB true jB.tracer sB.made.length
      (editRequest cfgB true jB.tracer cacheB uuidB r')) c :=
    childOf_received hcB (List.perm_singleton.mp hvalues) hc hvalid
      sB.made.length
  refine ⟨_, _, hA.span, hB.span, ?_⟩
  rcases hcase with hid | hown
  · have hnext := hchild.congr hid
    exact ⟨hnext.trace, .inl hnext⟩
  · refine ⟨⟨hchild.trace.1.trans hown.trace.1.symm,
      hchild.trace.2.trans hown.trace.2.symm⟩, ?_⟩
    exact .inr ⟨c, hown, hchild⟩

/-! ### A trace that starts in the mesh -/

/-- A tracer that samples everything. -/
def steadyTracer : Jaeger where
  order _ h := h.entries
  order_perm _ _ := .refl _
  randomHigh _ := 0
  randomID _ := 7
  sampled _ _ := 1

theorem readable_steadyTracer : Readable steadyTracer :=
  ⟨fun _ => (by decide : (7 : UInt64) ≠ 0),
    fun _ => (by decide : flagsFromString (hex (1 : UInt8).toNat) ≠ none)⟩

theorem one_trace_started :
    ∃ (r r' : Request) (sA tA eA sB tB eB : St SpanContext)
      (a b : Span SpanContext),
      Started HTTPConfig.default false steadyTracer.tracer 0 sA tA eA []
        (lit "a") r ∧
      Started HTTPConfig.default true steadyTracer.tracer 0 sB tB eB []
        (lit "b") r' ∧
      (tA.made = sA.made ++ [a] ∧ eA.made[sA.made.length]? = some a) ∧
      (tB.made = sB.made ++ [b] ∧ eB.made[sB.made.length]? = some b) ∧
      (b.context.high = a.context.high ∧ b.context.low = a.context.low) ∧
      (ChildOf b a.context ∨ ∃ c, ChildOf a c ∧ ChildOf b c) := by
  obtain ⟨r, u, hparse, hp⟩ :=
    exists_parses readRequest .eof (lit "GET / HTTP/1.1\r\n\r\n")
    (fun r _ => decide (r.requestURI = lit "/" ∧ r.method = lit "GET" ∧
      r.header.entries = []))
    (by decide +kernel)
  obtain ⟨huri, hmethod, hentries⟩ := of_decide_eq_true hp
  obtain ⟨rd, hread⟩ := hparse.runs
  have hroot : r.requestURI.head? = some 47 := by rw [huri]; rfl
  have hget : r.method ≠ methodHead := by rw [hmethod]; decide
  have hidna : ∀ v a, (fun _ : Bytes => (none : Option Bytes)) v = some a →
      nl ∉ a :=
    fun _ _ h => absurd h (Option.some_ne_none _).symm
  obtain ⟨_, sA, tA, eA, hrunA, hreadA, hcallA, _, hw⟩ :=
    first_turn HTTPConfig.default false steadyTracer.tracer r [] (lit "a")
  have hA : Started HTTPConfig.default false steadyTracer.tracer 0 sA tA eA []
      (lit "a") r :=
    ⟨_, hrunA, hreadA, hcallA⟩
  have hout :
    Outgoing (injected steadyTracer.tracer (startSpan HTTPConfig.default false
      steadyTracer.tracer 0 (editRequest HTTPConfig.default false
        steadyTracer.tracer [] (lit "a") r))
      (editRequest HTTPConfig.default false steadyTracer.tracer []
        (lit "a") r)) := by
    obtain ⟨t, ht⟩ := outgoing_injected HTTPConfig.default steadyTracer.tracer
      [] ⟨lit "a", by decide⟩ r
      (startSpan HTTPConfig.default false steadyTracer.tracer 0
        (editRequest HTTPConfig.default false steadyTracer.tracer []
          (lit "a") r))
    rw [ht]
    exact (requestFacts hread hroot).outgoing hroot hget
  obtain ⟨r', _, _, _, hagain⟩ := hout.again hidna hget
  have hwire := hagain []
  rw [requestHead_flatten _ (validMethod_iff hout.method).1] at hwire
  obtain ⟨_, sB, tB, eB, hrunB, hreadB, hcallB, _, _⟩ :=
    first_turn HTTPConfig.default true steadyTracer.tracer r' [] (lit "b")
  have hB : Started HTTPConfig.default true steadyTracer.tracer 0 sB tB eB []
      (lit "b") r' :=
    ⟨_, hrunB, hreadB, hcallB⟩
  have hclear : Unambiguous (([] : List (Bytes × SpanContext)).lookup
      (idOf HTTPConfig.default (lit "a") r.header)) r.header := by
    refine ⟨?_, fun _ => .inl ?_⟩
    · intro ctx hctx
      cases hctx
    · rw [hentries]
      refine ⟨rfl, fun es hes => ?_⟩
      rw [hes.eq_nil]
      rfl
  obtain ⟨a, b, ha, hb, hsame⟩ :=
    one_trace ⟨lit "a", by decide⟩ apart_default apart_default
    readable_steadyTracer hidna hread hroot hget hA hclear hw hwire hB
  exact ⟨r, r', sA, tA, eA, sB, tB, eB, a, b, hA, hB, ha, hb, hsame⟩

end Netramesh.Proofs
