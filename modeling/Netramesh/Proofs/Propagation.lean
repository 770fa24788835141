import Netramesh.Proofs.Encoding
import Netramesh.Proofs.Names
import Netramesh.Proofs.Requests
import Netramesh.Proofs.Starts

/-!
# Propagation of the trace context

An outbound request should leave with one trace header: the context cached for
its request id, else its own, else that of the new span, and the span should be
a child of the first two. The cached context is stored under the raw name of the
header, next to the canonical entry a request may bring, and `Inject` adds to
that entry rather than replacing it; so a request with a context of its own
leaves with two headers once its id is cached, and so does one whose own context
cannot be read.
-/

namespace Netramesh.Proofs

open Http Net Protocol Lib

/-! ## Trace headers -/

/-- The values of the trace headers among some entries. -/
def traceValues (entries : List (Bytes × List Bytes)) : List Bytes :=
  ((fieldsOf entries).filter fun f => isTraceKey f.1).map Prod.snd

/-- The trace headers of a request, as they are written. -/
def traceLines (h : Header) : List (Bytes × Bytes) :=
  (fieldLines reqWriteExcludeHeader h).filter fun f => isTraceKey f.1

theorem traceValues_perm {es es' : List (Bytes × List Bytes)}
    (h : es.Perm es') :
    (traceValues es).Perm (traceValues es') :=
  ((fieldsOf_perm h).filter _).map _

theorem traceValues_append (es es' : List (Bytes × List Bytes)) :
    traceValues (es ++ es') = traceValues es ++ traceValues es' := by
  rw [traceValues, fieldsOf_append, List.filter_append, List.map_append]
  rfl

/-! ## Extraction -/

theorem extractField_trace {k : Bytes} (h : isTraceKey k = true)
    (ctx : SpanContext) (v : Bytes) :
    extractField ctx k v = (decodeContext v).map fun found =>
      { found with baggage := ctx.baggage } := by
  rw [extractField, if_pos (eq_of_beq h)]

/-- A field of another name leaves the trace and the span alone. -/
theorem extractField_other {k : Bytes} (h : isTraceKey k = false)
    (ctx : SpanContext) (v : Bytes) :
    ∃ ctx', extractField ctx k v = some ctx' ∧
      ctx'.identity = ctx.identity := by
  unfold extractField
  dsimp only
  rw [if_neg (ne_of_beq_false h)]
  repeat' split
  all_goals exact ⟨_, rfl, rfl⟩

theorem extractField_unread {k : Bytes} (h : jaegerReads k = false)
    (ctx : SpanContext) (v : Bytes) :
    extractField ctx k v = some ctx := by
  simp only [jaegerReads, Bool.or_eq_false_iff, beq_eq_false_iff_ne] at h
  obtain ⟨⟨⟨h1, h2⟩, h3⟩, h4⟩ := h
  rw [extractField, if_neg h1, if_neg h2, if_neg h3, if_neg (by rw [h4]; simp)]

theorem jaegerReads_of_trace {k : Bytes} (h : isTraceKey k = true) :
    jaegerReads k = true := by
  rw [isTraceKey] at h
  rw [jaegerReads, h]
  rfl

/-- Only the fields `Extract` looks at count. -/
theorem extractFields_filter (fs : List (Bytes × Bytes)) :
    ∀ ctx, extractFields ctx (fs.filter fun f => jaegerReads f.1) =
      extractFields ctx fs := by
  induction fs with
  | nil => exact fun _ => rfl
  | cons f fs ih =>
      intro ctx
      rw [List.filter_cons]
      cases hf : jaegerReads f.1 with
      | true =>
        rw [if_pos rfl, extractFields, extractFields]
        cases extractField ctx f.1 f.2 with
        | none => rfl
        | some ctx' => exact ih ctx'
      | false =>
        rw [if_neg (by simp), ih, extractFields, extractField_unread hf]

theorem extract_filter (es : List (Bytes × List Bytes)) :
    extract (es.filter fun e => jaegerReads e.1) = extract es := by
  have h := extractFields_filter (fieldsOf es) {}
  rw [filter_fieldsOf] at h
  unfold fieldsOf at h
  rw [extract, extract, h]

/-- A trace header that cannot be read is an error, wherever it stands. -/
theorem extractFields_malformed {fs : List (Bytes × Bytes)} {f : Bytes × Bytes}
    (hf : f ∈ fs) (htrace : isTraceKey f.1 = true)
    (hbad : decodeContext f.2 = none) :
    ∀ ctx, extractFields ctx fs = none := by
  induction fs with
  | nil => cases hf
  | cons g fs ih =>
      intro ctx
      rw [extractFields]
      rcases List.mem_cons.mp hf with rfl | hf
      · rw [extractField_trace htrace, hbad]
        rfl
      · cases extractField ctx g.1 g.2 with
        | none => rfl
        | some ctx' => exact ih hf ctx'

theorem extractFields_untraced {fs : List (Bytes × Bytes)}
    (h : ∀ f ∈ fs, isTraceKey f.1 = false) :
    ∀ ctx, ∃ ctx', extractFields ctx fs = some ctx' ∧
      ctx'.identity = ctx.identity := by
  induction fs with
  | nil => exact fun ctx => ⟨ctx, rfl, rfl⟩
  | cons f fs ih =>
      intro ctx
      obtain ⟨ctx₁, h₁, hid₁⟩ :=
        extractField_other (h f List.mem_cons_self) ctx f.2
      obtain ⟨ctx₂, h₂, hid₂⟩ :=
        ih (fun g hg => h g (List.mem_cons_of_mem _ hg)) ctx₁
      rw [extractFields, h₁]
      exact ⟨ctx₂, h₂, hid₂.trans hid₁⟩

/-- A single trace header decides the trace and the span. -/
theorem extractFields_single {fs : List (Bytes × Bytes)} {v : Bytes}
    {c : SpanContext}
    (h : (fs.filter fun f => isTraceKey f.1).map Prod.snd = [v])
    (hc : decodeContext v = some c) :
    ∀ ctx, ∃ ctx', extractFields ctx fs = some ctx' ∧
      ctx'.identity = c.identity := by
  induction fs with
  | nil => cases h
  | cons f fs ih =>
      intro ctx
      rw [List.filter_cons] at h
      cases hf : isTraceKey f.1 with
      | true =>
        rw [hf, if_pos rfl, List.map_cons] at h
        obtain ⟨rfl, hrest⟩ := List.cons.inj h
        have huntraced : ∀ g ∈ fs, isTraceKey g.1 = false := by
          intro g hg
          have := List.filter_eq_nil_iff.mp (List.map_eq_nil_iff.mp hrest) g hg
          simpa using this
        rw [extractFields, extractField_trace hf, hc]
        exact extractFields_untraced huntraced _
      | false =>
        rw [hf, if_neg (by simp)] at h
        obtain ⟨ctx₁, h₁, _⟩ := extractField_other hf ctx f.2
        rw [extractFields, h₁]
        exact ih h ctx₁

/-! ### Of a header -/

theorem extract_malformed {es : List (Bytes × List Bytes)} {v : Bytes}
    (hv : v ∈ traceValues es) (hbad : decodeContext v = none) :
    extract es = none := by
  obtain ⟨f, hf, rfl⟩ := List.mem_map.mp hv
  rw [List.mem_filter] at hf
  have := extractFields_malformed hf.1 hf.2 hbad {}
  unfold fieldsOf at this
  rw [extract, this]
  rfl

theorem isValid_congr {c c' : SpanContext} (h : c.identity = c'.identity) :
    c.isValid = c'.isValid := by
  simp only [SpanContext.identity, Prod.mk.injEq] at h
  rw [SpanContext.isValid, SpanContext.isValid, SpanContext.hasTrace,
    SpanContext.hasTrace, h.1, h.2.1, h.2.2]

theorem extract_valid {es : List (Bytes × List Bytes)} {v : Bytes}
    {c : SpanContext} (h : traceValues es = [v]) (hc : decodeContext v = some c)
    (hvalid : c.isValid = true) :
    ∃ p, extract es = some p ∧ p.isValid = true ∧ p.identity = c.identity := by
  obtain ⟨ctx, hctx, hid⟩ := extractFields_single h hc {}
  unfold fieldsOf at hctx
  have hp : ctx.isValid = true := (isValid_congr hid).trans hvalid
  have htrace : ctx.hasTrace = true := by
    rw [SpanContext.isValid, Bool.and_eq_true] at hp
    exact hp.1
  refine ⟨ctx, ?_, hp, hid⟩
  rw [extract, hctx, Option.bind_some, htrace]
  rfl

/-! ## Edits -/

/-- The configured headers are none the tracer reads. -/
structure Apart (cfg : HTTPConfig) : Prop where
  requestId : jaegerReads (canonicalKey cfg.requestIdHeaderName.1) = false
  xSource : jaegerReads (canonicalKey cfg.xSourceHeaderName.1) = false

/-- The entries `Extract` looks at. -/
def readEntries (h : Header) : List (Bytes × List Bytes) :=
  h.entries.filter fun e => jaegerReads e.1

/-- The id of a request, brought or generated. -/
def idOf (cfg : HTTPConfig) (uuid : Bytes) (h : Header) : Bytes :=
  cfg.requestId (if cfg.requestId h = [] then
    h.set cfg.requestIdHeaderName.1 uuid else h)

theorem traceValues_readEntries (h : Header) :
    traceValues (readEntries h) = traceValues h.entries := by
  rw [traceValues, traceValues, readEntries, filter_fieldsOf, filter_fieldsOf,
    List.filter_filter]
  congr 2
  refine List.filter_congr fun e _ => ?_
  cases he : isTraceKey e.1 with
  | true => rw [jaegerReads_of_trace he]; rfl
  | false => rfl

theorem readEntries_put {h : Header} {k : Bytes} {vs : List Bytes} :
    readEntries (h.put k vs) = (readEntries h).filter (fun e => e.1 ≠ k) ++
      if jaegerReads k then [(k, vs)] else [] := by
  rw [readEntries, Header.put, List.filter_append, Header.delete,
    List.filter_comm, List.filter_cons]
  rfl

theorem readEntries_put_unread {h : Header} {k : Bytes}
    (hk : jaegerReads k = false) (vs : List Bytes) :
    readEntries (h.put k vs) = readEntries h := by
  rw [readEntries_put, if_neg (by simp [hk]), List.append_nil,
    List.filter_eq_self]
  intro e he
  rw [decide_eq_true_eq]
  rintro rfl
  have := (List.mem_filter.mp he).2
  rw [hk] at this
  cases this

section Edit

variable {C : Type} {cfg : HTTPConfig} (tr : Tracer C)
  {cache : List (Bytes × C)} {uuid : Bytes}

theorem readEntries_named (hcfg : Apart cfg) (h : Header) : readEntries
    (if cfg.requestId h = [] then h.set cfg.requestIdHeaderName.1 uuid else h) =
      readEntries h := by
  split
  · exact readEntries_put_unread hcfg.requestId _
  · rfl

theorem readEntries_sourced (hcfg : Apart cfg) (h : Header) : readEntries
    (if h.get cfg.xSourceHeaderName.1 = [] then
      h.set cfg.xSourceHeaderName.1 cfg.xSourceValue.1 else h) =
        readEntries h := by
  split
  · exact readEntries_put_unread hcfg.xSource _
  · rfl

/-- Without a cached context the tracer sees the header that was read. -/
theorem readEntries_uncached (hcfg : Apart cfg) {h : Header}
    (hcache : cache.lookup (idOf cfg uuid h) = none) :
    readEntries (editHeader cfg false tr cache uuid h) = readEntries h := by
  unfold idOf at hcache
  unfold editHeader
  dsimp only
  rw [if_neg (by simp), readEntries_sourced hcfg, hcache]
  exact readEntries_named hcfg h

/-- A cached context comes as one more entry if the raw name is not taken. -/
theorem readEntries_cached (hcfg : Apart cfg) {h : Header} {ctx : C}
    (hraw : ∀ e ∈ h.entries, e.1 ≠ traceContextHeaderName)
    (hcache : cache.lookup (idOf cfg uuid h) = some ctx) :
    readEntries (editHeader cfg false tr cache uuid h)
      = readEntries h ++ [(traceContextHeaderName, [tr.text ctx])] := by
  have hkeep : (readEntries h).filter (fun e => e.1 ≠ traceContextHeaderName) =
      readEntries h := by
    rw [List.filter_eq_self]
    intro e he
    rw [decide_eq_true_eq]
    exact hraw e (List.mem_filter.mp he).1
  unfold idOf at hcache
  unfold editHeader
  dsimp only
  rw [if_neg (by simp), readEntries_sourced hcfg, hcache]
  dsimp only
  rw [readEntries_put, readEntries_named hcfg, hkeep]
  rfl

end Edit

/-! ## Injection -/

/-- `Add` brings one value more, whatever else is there. -/
theorem traceValues_add (h : Header) {k : Bytes}
    (hk : isTraceKey (canonicalKey k) = true) (v : Bytes) :
    (traceValues (h.add k v).entries).Perm (traceValues h.entries ++ [v]) := by
  have hsplit : ((h.entries.filter fun e => !decide (e.1 = canonicalKey k)) ++
      h.entries.filter fun e => e.1 = canonicalKey k).Perm h.entries :=
    List.perm_append_comm.trans (List.filter_append_perm _ _)
  have hown : ∀ vs : List Bytes,
      ((vs.map fun v => (canonicalKey k, v)).filter fun f => isTraceKey f.1).map
        Prod.snd = vs := by
    intro vs
    rw [List.filter_eq_self.mpr, List.map_map]
    · exact List.map_id vs
    · intro f hf
      obtain ⟨_, _, rfl⟩ := List.mem_map.mp hf
      exact hk
  have hput : traceValues (h.add k v).entries
      = traceValues (h.entries.filter fun e =>
        !decide (e.1 = canonicalKey k)) ++
        (h.values (canonicalKey k) ++ [v]) := by
    rw [Header.add, Header.put, traceValues_append, Header.delete]
    congr 1
    · congr 1
      refine List.filter_congr fun e _ => ?_
      rw [decide_not]
    · rw [traceValues, fieldsOf, List.flatMap_cons, List.flatMap_nil,
        List.append_nil]
      exact hown _
  have hrest := traceValues_perm hsplit
  rw [traceValues_append] at hrest
  have hvalues : traceValues (h.entries.filter fun e => e.1 = canonicalKey k)
      = h.values (canonicalKey k) := by
    rw [traceValues, ← filter_fieldsOf fun k' => decide (k' = canonicalKey k),
      filter_fieldsOf_key]
    exact hown _
  rw [hvalues] at hrest
  rw [hput, ← List.append_assoc]
  exact hrest.append_right _

/-! ## The lines written -/

/-- What is written are the values, tidied. -/
theorem traceLines_perm (h : Header) :
    ((traceLines h).map Prod.snd).Perm
      ((traceValues h.entries).map sanitizeValue) := by
  have hwritten : fieldLines reqWriteExcludeHeader h
      = (fieldsOf (sortedKeyValues reqWriteExcludeHeader h)).map fun f =>
        (f.1, sanitizeValue f.2) := by
    rw [fieldLines, fieldsOf, List.map_flatMap]
    simp only [List.map_map]
    rfl
  have hkept :
    (fieldsOf (h.entries.filter fun e =>
    !reqWriteExcludeHeader.elem e.1)).filter
      (fun f => isTraceKey f.1) = (fieldsOf h.entries).filter fun f =>
        isTraceKey f.1 := by
    rw [filter_fieldsOf, filter_fieldsOf, List.filter_filter]
    congr 1
    refine List.filter_congr fun e _ => ?_
    have hframing : ∀ k ∈ reqWriteExcludeHeader, isTraceKey k = false := by
      decide
    cases he : isTraceKey e.1 with
    | false => rfl
    | true =>
      have hnot : reqWriteExcludeHeader.elem e.1 = false := by
        rw [← Bool.not_eq_true, List.elem_iff]
        intro hm
        rw [hframing _ hm] at he
        cases he
      rw [hnot]
      rfl
  have hperm : ((fieldsOf (sortedKeyValues reqWriteExcludeHeader h)).filter
      fun f => isTraceKey f.1).Perm
        ((fieldsOf h.entries).filter fun f => isTraceKey f.1) := by
    rw [← hkept]
    exact (fieldsOf_perm (List.perm_insertionSort _ _)).filter _
  rw [traceLines, hwritten, List.filter_map, List.map_map, traceValues,
    List.map_map]
  exact hperm.map _

/-! ## One turn

With nothing else in flight, `StartRequest` finds the request of its own turn.
The caches may change meanwhile, and the response goroutine may still be busy
with a request it has taken from the queue. -/

/-- The response goroutine has no request to take from the queue. -/
def Popped : RespPC → Prop
  | .reading | .popResponse _ | .popSpan _ _ | .finish _ _ _ => True
  | _ => False

/-- What may happen during a turn: everything but another message. -/
def Aside {C : Type} : Act C → Prop
  | .readRequest .. | .readResponse _ => False
  | _ => True

section Turn

variable {C : Type} {cfg : HTTPConfig} {tr : Tracer C}

/-- The request of a turn as `StartRequest` leaves it. -/
def injected (tr : Tracer C) (span : Span C) (r : Request) : Request :=
  { r with header := injectHeader false tr span r.header }

/-- How far the turn of `r` has come, from `s` on. -/
def Progress (tr : Tracer C) (r : Request) (span : Span C) (s t : St C) :
    Prop :=
  match t.reqPC with
  | .push k =>
    k = s.requests.length ∧ t.requests[k]? = some r ∧ t.httpRequests = [] ∧
      t.made = s.made ∧ t.written = s.written
  | .peek k =>
    k = s.requests.length ∧ t.requests[k]? = some r ∧ t.httpRequests = [k] ∧
      t.made = s.made ∧ t.written = s.written
  | .start k q =>
    k = s.requests.length ∧ t.requests[k]? = some r ∧ q = [k] ∧
      t.made = s.made ∧ t.written = s.written
  | .pushSpan k _ | .write k =>
    t.requests[k]? = some (injected tr span r) ∧ t.made = s.made ++ [span] ∧
      t.written = s.written
  | .reading => t.made = s.made ++ [span] ∧
      t.written = s.written ++ [injected tr span r]

theorem Progress.congr {r : Request} {span : Span C} {s t u : St C}
    (h : Progress tr r span s t) (hpc : u.reqPC = t.reqPC)
    (hrequests : u.requests = t.requests)
    (hqueue : u.httpRequests = t.httpRequests) (hmade : u.made = t.made)
    (hwritten : u.written = t.written) : Progress tr r span s u := by
  unfold Progress at h ⊢
  rw [hpc, hrequests, hqueue, hmade, hwritten]
  exact h

theorem Progress.reqStep {r : Request} {s t u : St C}
    (h : Progress tr r (startSpan cfg false tr s.made.length r) s t)
    (hstep : reqStep cfg false tr t = some u) :
    Progress tr r (startSpan cfg false tr s.made.length r) s u := by
  unfold Protocol.reqStep at hstep
  unfold Progress at h
  split at hstep
  · cases hstep
  · next k hpc =>
      cases hstep
      rw [hpc] at h
      obtain ⟨hk, hr, hq, hm, hw⟩ := h
      exact ⟨hk, hr, by rw [hq]; rfl, hm, hw⟩
  · next k hpc =>
      cases hstep
      rw [hpc] at h
      exact h
  · next k q hpc =>
      rw [hpc] at h
      obtain ⟨hk, hr, rfl, hm, hw⟩ := h
      have hlt : k < t.requests.length := (List.getElem?_eq_some_iff.mp hr).1
      simp only [start, Queue.peek, List.head?_cons, hr] at hstep
      cases hstep
      refine ⟨?_, ?_, hw⟩
      · rw [hm]
        exact List.getElem?_set_self hlt
      · rw [hm]
  · next k n hpc =>
      cases hstep
      rw [hpc] at h
      exact h
  · next k hpc =>
      rw [hpc] at h
      obtain ⟨hr, hm, hw⟩ := h
      rw [hr] at hstep
      cases hstep
      exact ⟨hm, by rw [hw]⟩

theorem Progress.respStep {r : Request} {span : Span C} {s t u : St C}
    (h : Progress tr r span s t) (hpopped : Popped t.respPC)
    (hstep : respStep cfg false t = some u) :
    Progress tr r span s u ∧ Popped u.respPC := by
  unfold Protocol.respStep at hstep
  split at hstep
  case h_1 => cases hstep
  case h_2 hpc | h_3 hpc | h_4 hpc | h_5 hpc =>
    exact absurd hpopped (by rw [hpc]; exact id)
  case h_6 | h_7 =>
    split at hstep <;> (cases hstep; exact ⟨h.congr rfl rfl rfl rfl rfl,
      trivial⟩)
  case h_8 =>
    split at hstep
    · cases hstep
    · cases hstep
      exact ⟨h.congr rfl rfl rfl rfl rfl, trivial⟩

theorem Progress.step {r : Request} {s t u : St C} {a : Act C} (ha : Aside a)
    (h : Progress tr r (startSpan cfg false tr s.made.length r) s t)
    (hpopped : Popped t.respPC) (hstep : step cfg false tr t a = some u) :
    Progress tr r (startSpan cfg false tr s.made.length r) s u ∧
      Popped u.respPC := by
  cases a with
  | readRequest => cases ha
  | readResponse => cases ha
  | reqStep =>
    have hresp : u.respPC = t.respPC := by
      simp only [Protocol.step, Protocol.reqStep, start] at hstep
      repeat' split at hstep
      all_goals cases hstep
      all_goals rfl
    exact ⟨h.reqStep hstep, by rw [hresp]; exact hpopped⟩
  | respStep => exact h.respStep hpopped hstep
  | setCache => cases hstep; exact ⟨h.congr rfl rfl rfl rfl rfl, hpopped⟩
  | expire => cases hstep; exact ⟨h.congr rfl rfl rfl rfl rfl, hpopped⟩

theorem Progress.run {r : Request} {s : St C} {acts : List (Act C)}
    (hacts : ∀ a ∈ acts, Aside a) :
    ∀ {t u}, Progress tr r (startSpan cfg false tr s.made.length r) s t →
      Popped t.respPC → exec (Protocol.step cfg false tr) t acts = some u →
      Progress tr r (startSpan cfg false tr s.made.length r) s u := by
  induction acts with
  | nil =>
      intro t u h _ hrun
      cases hrun
      exact h
  | cons a acts ih =>
      intro t u h hpopped hrun
      rw [exec] at hrun
      split at hrun
      · cases hrun
      · next t' ht =>
          obtain ⟨h', hpopped'⟩ := h.step
            (hacts a List.mem_cons_self) hpopped ht
          exact ih (fun b hb => hacts b (List.mem_cons_of_mem _ hb)) h'
            hpopped' hrun

/-- What a whole turn has done, once the goroutine reads again. -/
theorem turn_done {r : Request} {addr uuid : Bytes} {s t : St C}
    {acts : List (Act C)} (hacts : ∀ a ∈ acts, Aside a)
    (hqueue : s.httpRequests = []) (hpopped : Popped s.respPC)
    (hrun : exec (step cfg false tr) s (.readRequest r addr uuid :: acts) =
      some t)
    (hend : t.reqPC = .reading) :
    let e := editRequest cfg false tr s.cache uuid r
    let span := startSpan cfg false tr s.made.length e
    t.made = s.made ++ [span] ∧ t.written = s.written ++
      [injected tr span e] := by
  rw [exec] at hrun
  split at hrun
  · cases hrun
  · next u hu =>
      rw [step] at hu
      split at hu
      · have hu := Option.some.inj hu
        have hstart : Progress tr (editRequest cfg false tr s.cache uuid r)
            (startSpan cfg false tr s.made.length
              (editRequest cfg false tr s.cache uuid r)) s u := by
          subst hu
          refine ⟨rfl, ?_, hqueue, rfl, rfl⟩
          rw [List.getElem?_append_right (Nat.le_refl _), Nat.sub_self]
          rfl
        have hdone := hstart.run hacts (by subst hu; exact hpopped) hrun
        unfold Progress at hdone
        rw [hend] at hdone
        exact hdone
      · cases hu

/-- The turn goes to its end if nothing else happens. -/
theorem turn_runs (tr : Tracer C) (r : Request) (addr uuid : Bytes) {s : St C}
    (hpc : s.reqPC = .reading) (hqueue : s.httpRequests = []) :
    ∃ t, exec (step cfg false tr) s
      (.readRequest r addr uuid :: List.replicate 5 .reqStep) = some t ∧
        t.reqPC = .reading := by
  have hr :
    (s.requests ++
    [editRequest cfg false tr s.cache uuid r])[s.requests.length]? =
      some (editRequest cfg false tr s.cache uuid r) := by
    rw [List.getElem?_append_right (Nat.le_refl _), Nat.sub_self]
    rfl
  have hlt : s.requests.length <
      (s.requests ++ [editRequest cfg false tr s.cache uuid r]).length := by
    simp
  simp only [exec, step, if_pos hpc, List.replicate, reqStep, hqueue,
    Queue.push, List.nil_append,
    start, Queue.peek, List.head?_cons, hr, List.getElem?_set_self hlt]
  exact ⟨_, rfl, rfl⟩

end Turn

/-! ## One context -/

/-- A request as it comes to the trace context: read from the client and, with
routing on, possibly given a routing value. -/
def Received (r : Request) : Prop :=
  ∃ (rd rd' : Reader Tee) (r₀ : Request), readRequest rd = (.ok r₀, rd') ∧
    (r = r₀ ∨ ∃ name value, r = { r₀ with header := r₀.header.add name value })

theorem Received.of_parses {fin : Err} {v u : Bytes} {r : Request}
    (h : Parses readRequest fin v r u) : Received r :=
  ⟨standing fin v, (readRequest (standing fin v)).2, r, Prod.ext h.1 rfl,
    .inl rfl⟩

theorem Received.raw {r : Request} (h : Received r) :
    ∀ e ∈ r.header.entries, e.1 ≠ traceContextHeaderName := by
  obtain ⟨rd, rd', r₀, hread, hr⟩ := h
  have hcanonical : ∀ e ∈ r.header.entries, canonicalKey e.1 = e.1 := by
    intro e he
    have hplain : ∀ e ∈ r₀.header.entries, canonicalKey e.1 = e.1 :=
      fun e he => (readRequest_plain hread e he).canonical
    rcases hr with rfl | ⟨name, value, rfl⟩
    · exact hplain e he
    · rcases Header.mem_put.mp he with he | rfl
      · exact hplain e he.1
      · exact canonicalKey_idem name
  intro e he hkey
  have := hcanonical e he
  rw [hkey] at this
  exact absurd this (by decide)

/-- The span is a child of `c`. The tracer takes nothing from a context that is
not valid. -/
structure ChildOf (span : Span SpanContext) (c : SpanContext) : Prop where
  reference : ∃ p, span.parent = some p ∧ p.isValid = true ∧
    p.identity = c.identity
  trace : span.context.high = c.high ∧ span.context.low = c.low
  parent : span.context.parentID = c.spanID

/-- One trace header, with the value it should have, and the span a child of
it. -/
def Traced (cached : Option SpanContext) (own : List Bytes) (h : Header)
    (span : Span SpanContext) : Prop :=
  (∀ ctx, cached = some ctx → (traceLines h).map Prod.snd = [ctx.string] ∧
    ChildOf span ctx) ∧
  (cached = none →
    (∃ v ∈ own, ∃ c, decodeContext v = some c ∧
      (traceLines h).map Prod.snd = [v] ∧ ChildOf span c) ∨
    ((∀ v ∈ own, decodeContext v = none) ∧
      (traceLines h).map Prod.snd = [span.context.string]))

/-- With nothing else in flight, the request `r` leaves with one trace context,
whatever the tracer decides and whatever else happens meanwhile. -/
def OneContext (cfg : HTTPConfig) (s : St SpanContext) (r : Request)
    (uuid : Bytes) : Prop :=
  ∀ (j : Jaeger) (addr : Bytes),
    (∃ t, exec (step cfg false j.tracer) s
      (.readRequest r addr uuid :: List.replicate 5 .reqStep) = some t ∧
        t.reqPC = .reading) ∧
    ∀ acts t, (∀ a ∈ acts, Aside a) →
      exec (step cfg false j.tracer) s (.readRequest r addr uuid :: acts) =
        some t →
      t.reqPC = .reading →
      ∃ w span, t.written = s.written ++ [w] ∧ t.made = s.made ++ [span] ∧
        Traced (s.cache.lookup (idOf cfg uuid r.header))
          (traceValues r.header.entries) w.header span

/-- When it does: a request whose id is cached brings no trace header, and the
cached context can be read back; another one brings a single header that holds a
valid context, or none and nothing else the tracer would find. -/
def Unambiguous (cached : Option SpanContext) (h : Header) : Prop :=
  (∀ ctx, cached = some ctx → traceValues h.entries = [] ∧ ctx.isValid = true ∧
    flagsFromString (hex ctx.flags.toNat) ≠ none) ∧
  (cached = none →
    (traceValues h.entries = [] ∧ ∀ es, es.Perm h.entries → extract es = none) ∨
    ∃ v c, traceValues h.entries = [v] ∧ decodeContext v = some c ∧
      c.isValid = true)

/-! ### The header a turn leaves -/

section Header

variable (cfg : HTTPConfig) {j : Jaeger} {n : Nat} {r : Request}

theorem parent_startSpan :
    (startSpan cfg false j.tracer n r).parent = extract (j.order n r.header) :=
  rfl

/-- A span whose parent is found and valid is its child. -/
theorem childOf_startSpan {p c : SpanContext}
    (hp : extract (j.order n r.header) = some p) (hvalid : p.isValid = true)
    (hid : p.identity = c.identity) :
    ChildOf (startSpan cfg false j.tracer n r) c := by
  have hcontext : (startSpan cfg false j.tracer n r).context =
      j.newContext n (some p) := by
    rw [← hp]
    rfl
  simp only [SpanContext.identity, Prod.mk.injEq] at hid
  refine ⟨⟨p, hp, hvalid, ?_⟩, ?_, ?_⟩
  · simp only [SpanContext.identity, Prod.mk.injEq]
    exact hid
  · rw [hcontext, Jaeger.newContext, Option.filter_some, if_pos hvalid]
    exact ⟨hid.1, hid.2.1⟩
  · rw [hcontext, Jaeger.newContext, Option.filter_some, if_pos hvalid]
    exact hid.2.2

/-- What was found stays the only trace headers. -/
theorem lines_of_found {p : SpanContext}
    (hp : extract (j.order n r.header) = some p) :
    ((traceLines (injected j.tracer
      (startSpan cfg false j.tracer n r) r).header).map
      Prod.snd).Perm ((traceValues r.header.entries).map sanitizeValue) := by
  have hkeep : (injected j.tracer (startSpan cfg false j.tracer n r) r).header =
      r.header := by
    rw [injected, injectHeader, parent_startSpan cfg, hp]
    rfl
  rw [hkeep]
  exact traceLines_perm _

/-- Where nothing was found, the new context joins the trace headers. -/
theorem lines_of_missed (hp : extract (j.order n r.header) = none) :
    ((traceLines (injected j.tracer
      (startSpan cfg false j.tracer n r) r).header).map
      Prod.snd).Perm ((traceValues r.header.entries).map sanitizeValue ++
        [(startSpan cfg false j.tracer n r).context.string]) := by
  have hadd : (injected j.tracer (startSpan cfg false j.tracer n r) r).header
      = r.header.add traceContextHeaderName
        (startSpan cfg false j.tracer n r).context.string := by
    rw [injected, injectHeader, parent_startSpan cfg, hp]
    rfl
  have hvalues :=
    (traceValues_add r.header (k := traceContextHeaderName) (by decide)
    (startSpan cfg false j.tracer n r).context.string).map sanitizeValue
  rw [List.map_append, List.map_singleton,
    sanitizeValue_of_graphic (graphic_string _)] at hvalues
  rw [hadd]
  exact (traceLines_perm _).trans hvalues

theorem traceValues_order {own : List Bytes}
    (h : traceValues r.header.entries = own) :
    (traceValues (j.order n r.header)).Perm own :=
  h ▸ traceValues_perm (j.order_perm n r.header)

/-- A single valid context goes out as it came, and the span is its child. -/
theorem single_kept {v : Bytes} {c : SpanContext}
    (hown : traceValues r.header.entries = [v]) (hc : decodeContext v = some c)
    (hvalid : c.isValid = true) :
    (traceLines (injected j.tracer
      (startSpan cfg false j.tracer n r) r).header).map Prod.snd = [v] ∧
      ChildOf (startSpan cfg false j.tracer n r) c := by
  have horder :=
    (List.perm_singleton.mp (traceValues_order (j := j) (n := n) hown))
  obtain ⟨p, hp, hpvalid, hid⟩ := extract_valid horder hc hvalid
  refine ⟨?_, childOf_startSpan cfg hp hpvalid hid⟩
  have hlines := lines_of_found cfg hp
  rw [hown, List.map_singleton,
    sanitizeValue_of_graphic (graphic_of_decodeContext hc)] at hlines
  exact List.perm_singleton.mp hlines

variable {cfg}

/-- One line is one header that was found, or none that was missed. -/
theorem single_line {x : Bytes}
    (h :
      (traceLines (injected j.tracer
      (startSpan cfg false j.tracer n r) r).header).map Prod.snd = [x]) :
    (∃ p v, extract (j.order n r.header) = some p ∧
      traceValues r.header.entries = [v]) ∨
      (extract (j.order n r.header) = none ∧ traceValues r.header.entries =
        []) := by
  cases hp : extract (j.order n r.header) with
  | some p =>
    have hlen := (lines_of_found cfg hp).length_eq
    rw [h, List.length_map] at hlen
    obtain ⟨v, hv⟩ := List.length_eq_one_iff.mp hlen.symm
    exact .inl ⟨p, v, rfl, hv⟩
  | none =>
    have hlen := (lines_of_missed cfg hp).length_eq
    rw [h, List.length_append, List.length_map] at hlen
    refine .inr ⟨rfl, List.eq_nil_of_length_eq_zero ?_⟩
    simp only [List.length_cons, List.length_nil] at hlen
    omega

/-- A single header whose span is a child of its context holds a valid one. -/
theorem valid_of_childOf {c : SpanContext}
    (h : ChildOf (startSpan cfg false j.tracer n r) c) :
    c.isValid = true := by
  obtain ⟨p, _, hvalid, hid⟩ := h.reference
  exact (isValid_congr hid).symm.trans hvalid

/-- Where the span has a parent, every trace header could be read. -/
theorem decodes_of_childOf {c : SpanContext}
    (h : ChildOf (startSpan cfg false j.tracer n r) c) {v : Bytes}
    (hv : v ∈ traceValues r.header.entries) : decodeContext v ≠ none := by
  intro hbad
  obtain ⟨p, hp, _⟩ := h.reference
  have hmem := (traceValues_order (j := j) (n := n) rfl).mem_iff.mpr hv
  rw [parent_startSpan cfg, extract_malformed hmem hbad] at hp
  cases hp

end Header

/-- What the tracer finds among the entries it looks at does not depend on the
others. -/
theorem extract_transfer {h h' : Header} (heq : readEntries h' = readEntries h)
    {es : List (Bytes × List Bytes)} (hes : es.Perm h.entries) :
    ∃ es', es'.Perm h'.entries ∧ extract es' = extract es := by
  refine ⟨es.filter (fun e => jaegerReads e.1) ++
    h'.entries.filter (fun e => !jaegerReads e.1), ?_, ?_⟩
  · have hread : (es.filter fun e => jaegerReads e.1).Perm
        (readEntries h') := by
      rw [heq]
      exact hes.filter _
    exact (hread.append_right _).trans (List.filter_append_perm _ _)
  · have hnone : (h'.entries.filter fun e => !jaegerReads e.1).filter
        (fun e => jaegerReads e.1) = [] := by
      rw [List.filter_filter, List.filter_eq_nil_iff]
      intro e _
      simp
    rw [← extract_filter, List.filter_append, hnone, List.append_nil,
      List.filter_filter]
    simp only [Bool.and_self]
    exact extract_filter es

/-- A tracer that finds the entries of `h` in the order `es`. -/
def Jaeger.finding (h : Header) (es : List (Bytes × List Bytes))
    (hes : es.Perm h.entries) : Jaeger where
  order _ h' := if h' = h then es else h'.entries
  order_perm _ h' := by
    split
    · next heq =>
        rw [heq]
        exact hes
    · exact .refl _
  randomHigh _ := 0
  randomID n := UInt64.ofNat (n + 1)
  sampled _ _ := 1

section Iff

variable {cfg : HTTPConfig} {s : St SpanContext} {r : Request} {uuid : Bytes}
  {j : Jaeger}

/-- The turn in other words: what the edited header is turned into. -/
theorem oneContext_iff_traced (hpc : s.reqPC = .reading)
    (hqueue : s.httpRequests = []) (hpopped : Popped s.respPC) :
    OneContext cfg s r uuid ↔ ∀ j : Jaeger,
      let e := editRequest cfg false j.tracer s.cache uuid r
      let span := startSpan cfg false j.tracer s.made.length e
      Traced (s.cache.lookup (idOf cfg uuid r.header))
        (traceValues r.header.entries)
        (injected j.tracer span e).header span := by
  constructor
  · intro h j
    obtain ⟨⟨t, hrun, hend⟩, hall⟩ := h j []
    have hacts : ∀ a ∈ List.replicate 5 (Act.reqStep (C := SpanContext)),
        Aside a := by
      intro a ha
      rw [List.eq_of_mem_replicate ha]
      trivial
    obtain ⟨w, span, hw, hspan, htraced⟩ := hall _ t hacts hrun hend
    obtain ⟨hspan', hw'⟩ := turn_done hacts hqueue hpopped hrun hend
    rw [hw, List.append_cancel_left_eq, List.singleton_inj] at hw'
    rw [hspan, List.append_cancel_left_eq, List.singleton_inj] at hspan'
    subst hw' hspan'
    exact htraced
  · intro h j addr
    refine ⟨turn_runs j.tracer r addr uuid hpc hqueue, ?_⟩
    intro acts t hacts hrun hend
    obtain ⟨hspan, hw⟩ := turn_done hacts hqueue hpopped hrun hend
    exact ⟨_, _, hw, hspan, h j⟩

theorem traceValues_cached (hcfg : Apart cfg) (hr : Received r)
    {ctx : SpanContext}
    (hcache : s.cache.lookup (idOf cfg uuid r.header) = some ctx) :
    traceValues (editRequest cfg false j.tracer s.cache uuid r).header.entries
      = traceValues r.header.entries ++ [ctx.string] := by
  rw [← traceValues_readEntries, editRequest,
    readEntries_cached j.tracer hcfg hr.raw hcache,
    traceValues_append, traceValues_readEntries]
  rfl

theorem traceValues_uncached (hcfg : Apart cfg)
    (hcache : s.cache.lookup (idOf cfg uuid r.header) = none) :
    traceValues (editRequest cfg false j.tracer s.cache uuid r).header.entries
      = traceValues r.header.entries := by
  rw [← traceValues_readEntries, editRequest,
    readEntries_uncached j.tracer hcfg hcache, traceValues_readEntries]

theorem traced_of_unambiguous (hcfg : Apart cfg) (hr : Received r)
    (h : Unambiguous (s.cache.lookup (idOf cfg uuid r.header)) r.header)
    (n : Nat) :
    Traced (s.cache.lookup (idOf cfg uuid r.header))
      (traceValues r.header.entries)
      (injected j.tracer (startSpan cfg false j.tracer n
        (editRequest cfg false j.tracer s.cache uuid r))
        (editRequest cfg false j.tracer s.cache uuid r)).header
      (startSpan cfg false j.tracer n
        (editRequest cfg false j.tracer s.cache uuid r)) := by
  refine ⟨fun ctx hctx => ?_, fun hnone => ?_⟩
  · obtain ⟨hown, hvalid, hflags⟩ := h.1 ctx hctx
    have hvalues := traceValues_cached (j := j) hcfg hr hctx
    rw [hown, List.nil_append] at hvalues
    obtain ⟨flags, hflags⟩ := Option.ne_none_iff_exists'.mp hflags
    have hdecode := decodeContext_string ctx
    rw [reread, hflags, Option.map_some] at hdecode
    obtain ⟨hline, hchild⟩ := single_kept cfg (n := n) hvalues hdecode hvalid
    exact ⟨hline, ⟨hchild.reference, hchild.trace, hchild.parent⟩⟩
  · have hvalues := traceValues_uncached (j := j) hcfg hnone
    rcases h.2 hnone with ⟨hown, hmissed⟩ | ⟨v, c, hown, hc, hvalid⟩
    · rw [hown] at hvalues ⊢
      obtain ⟨es, hes, hextract⟩ :=
        extract_transfer (readEntries_uncached j.tracer hcfg hnone).symm
        (j.order_perm n (editHeader cfg false j.tracer s.cache uuid r.header))
      refine .inr ⟨by simp, ?_⟩
      have hlines := lines_of_missed cfg (n := n) (j := j)
        (r := editRequest cfg false j.tracer s.cache uuid r)
          (hextract.symm.trans (hmissed es hes))
      rw [hvalues, List.map_nil, List.nil_append] at hlines
      exact List.perm_singleton.mp hlines
    · rw [hown] at hvalues ⊢
      obtain ⟨hline, hchild⟩ := single_kept cfg (n := n) hvalues hc hvalid
      exact .inl ⟨v, List.mem_singleton_self v, c, hc, hline, hchild⟩

theorem unambiguous_of_traced (hcfg : Apart cfg) (hr : Received r) {n : Nat}
    (h : ∀ j : Jaeger, Traced (s.cache.lookup (idOf cfg uuid r.header))
      (traceValues r.header.entries)
      (injected j.tracer (startSpan cfg false j.tracer n
      (editRequest cfg false j.tracer s.cache uuid r))
      (editRequest cfg false j.tracer s.cache uuid r)).header
      (startSpan cfg false j.tracer n
      (editRequest cfg false j.tracer s.cache uuid r))) :
    Unambiguous (s.cache.lookup (idOf cfg uuid r.header)) r.header := by
  have hany := h (Jaeger.finding r.header _ (.refl _))
  refine ⟨fun ctx hctx => ?_, fun hnone => ?_⟩
  · obtain ⟨hline, hchild⟩ := hany.1 ctx hctx
    have hvalues := traceValues_cached (j :=
      Jaeger.finding r.header _ (.refl _)) hcfg hr hctx
    refine ⟨?_, valid_of_childOf hchild, ?_⟩
    · rcases single_line hline with ⟨p, v, _, hv⟩ | ⟨_, hnil⟩
      · rw [hvalues] at hv
        have hlen := congrArg List.length hv
        rw [List.length_append] at hlen
        refine List.eq_nil_of_length_eq_zero ?_
        simp only [List.length_cons, List.length_nil] at hlen
        omega
      · rw [hvalues] at hnil
        exact (List.append_eq_nil_iff.mp hnil).1
    · intro hflags
      refine decodes_of_childOf hchild (v := ctx.string) ?_ ?_
      · rw [hvalues]
        exact List.mem_append_right _ (List.mem_singleton_self _)
      · rw [decodeContext_string, reread, hflags]
        rfl
  · have hvalues := fun j : Jaeger => traceValues_uncached (j := j) hcfg hnone
    rcases hany.2 hnone with ⟨v, hv, c, hc, hline, hchild⟩ | ⟨hbad, hline⟩
    · obtain ⟨p, hp, _⟩ := hchild.reference
      rcases single_line hline with ⟨_, v', _, hown⟩ | ⟨hmissed, _⟩
      · rw [hvalues] at hown
        rw [hown, List.mem_singleton] at hv
        subst hv
        exact .inr ⟨v, c, hown, hc, valid_of_childOf hchild⟩
      · rw [parent_startSpan cfg, hmissed] at hp
        cases hp
    · rcases single_line hline with ⟨p, v, hp, hown⟩ | ⟨_, hown⟩
      · have hmem : v ∈ traceValues r.header.entries := by
          rw [← hvalues, hown]
          exact List.mem_singleton_self v
        have hin : v ∈ traceValues
            ((Jaeger.finding r.header _ (.refl _)).order n _) :=
          (traceValues_order hown).mem_iff.mpr (List.mem_singleton_self v)
        rw [extract_malformed hin (hbad v hmem)] at hp
        cases hp
      · rw [hvalues] at hown
        refine .inl ⟨hown, fun es hes => ?_⟩
        -- The order the tracer would find these entries in after the edits.
        obtain ⟨es', hes', hextract⟩ :=
          extract_transfer (readEntries_uncached
            (Jaeger.finding r.header _ (.refl _)).tracer hcfg hnone) hes
        rw [← hextract]
        have horder : (Jaeger.finding _ es' hes').order n
            (editRequest cfg false (Jaeger.finding _ es' hes').tracer s.cache
              uuid r).header = es' :=
          if_pos rfl
        rcases (h (Jaeger.finding _ es' hes')).2 hnone with ⟨v, hv, _⟩
          | ⟨_, hline⟩
        · rw [hown] at hv
          cases hv
        · rcases single_line hline with ⟨_, v, _, hv⟩ | ⟨hmissed, _⟩
          · rw [hvalues, hown] at hv
            cases hv
          · rw [horder] at hmissed
            exact hmissed

end Iff

/-! ### A request with its own context -/

def tracedRequest : Bytes :=
  lit "GET / HTTP/1.1\r\nX-Request-Id: a\r\nUber-Trace-Id: 1:2:0:1\r\n\r\n"

def tracedEntries : List (Bytes × List Bytes) :=
  [(lit "X-Request-Id", [lit "a"]), (lit "Uber-Trace-Id", [lit "1:2:0:1"])]

/-- A client that calls with a context and an id of its own. -/
theorem received_traced :
    ∃ r, Received r ∧ traceValues r.header.entries = [lit "1:2:0:1"] ∧
    idOf HTTPConfig.default [] r.header = lit "a" := by
  obtain ⟨r, u, hparse, hp⟩ := exists_parses readRequest .eof tracedRequest
    (fun r _ => r.header.entries == tracedEntries) (by decide +kernel)
  have hentries := eq_of_beq hp
  have hid : HTTPConfig.default.requestId r.header = lit "a" := by
    rw [HTTPConfig.requestId, Header.get, Header.first, Header.values, hentries]
    decide +kernel
  refine ⟨r, .of_parses hparse, ?_, ?_⟩
  · rw [hentries]
    decide +kernel
  · rw [idOf, if_neg (by rw [hid]; decide), hid]

theorem apart_default : Apart HTTPConfig.default := ⟨by decide, by decide⟩

/-- A connection that starts while a context is cached under an id. -/
def cachedUnder (id : Bytes) : St SpanContext where
  cache := [(id, { low := 1, spanID := 3, flags := 1 })]

/-- Once its id is cached, it leaves with two contexts. -/
theorem cached_context_doubled :
    ∃ r, Received r ∧ traceValues r.header.entries = [lit "1:2:0:1"] ∧
      idOf HTTPConfig.default [] r.header = lit "a" ∧
      ¬ OneContext HTTPConfig.default (cachedUnder (lit "a")) r [] := by
  obtain ⟨r, hr, hown, hid⟩ := received_traced
  refine ⟨r, hr, hown, hid, fun h => ?_⟩
  have hpopped : Popped (cachedUnder (lit "a")).respPC := trivial
  have hclear := unambiguous_of_traced apart_default hr
    ((oneContext_iff_traced rfl rfl hpopped).mp h)
  have hnil :=
    (hclear.1 { low := 1, spanID := 3, flags := 1 } (by rw [hid]; rfl)).1
  rw [hown] at hnil
  cases hnil

/-- With nothing else in flight, an outbound request leaves with one trace
context exactly if its header and the cache leave no doubt which. -/
theorem one_context_iff {cfg : HTTPConfig} {s : St SpanContext} {r : Request}
    {uuid : Bytes} (hcfg : Apart cfg) (hpc : s.reqPC = .reading)
    (hqueue : s.httpRequests = []) (hpopped : Popped s.respPC)
    (hr : Received r) :
    OneContext cfg s r uuid ↔
      Unambiguous (s.cache.lookup (idOf cfg uuid r.header)) r.header := by
  rw [oneContext_iff_traced hpc hqueue hpopped]
  constructor
  · exact unambiguous_of_traced hcfg hr
  · exact fun h j => traced_of_unambiguous hcfg hr h _

theorem one_context_own :
    ∃ r, Received r ∧ traceValues r.header.entries = [lit "1:2:0:1"] ∧
      OneContext HTTPConfig.default (cachedUnder (lit "b")) r [] := by
  obtain ⟨r, hr, hown, hid⟩ := received_traced
  have hpopped : Popped (cachedUnder (lit "b")).respPC := trivial
  refine ⟨r, hr, hown,
    (one_context_iff apart_default rfl rfl hpopped hr).mpr ?_⟩
  rw [hid]
  refine ⟨?_, ?_⟩
  · intro ctx hctx
    cases hctx
  · intro _
    exact .inr ⟨_, { low := 1, spanID := 2, flags := 1 },
      hown, by decide +kernel, by decide⟩

end Netramesh.Proofs
