import Netramesh.Proofs.Starts

/-!
# Requests, responses and spans stay paired

Three queues have to advance in step: `StopRequest` pops a request, a response
and a span, and believes that they belong together. This file is about runs in
which the server behaves, answering the forwarded requests in order, each with
any number of interim responses and then a final one. Along such a run the
pairing holds exactly if no interim response has gone through `StopRequest`
and no span was filled after another request had recorded a different peer.

Up to the first interim response the connection is in lock step (`Lockstep`):
the `k`-th request, span, response and finished record all carry the number
`k`, and each queue is the interval between what was popped and what was
pushed. The first interim response pops the request it announces, and the span
finished on it stays in the history (`Spoiled`).
-/

namespace Netramesh.Proofs

open Http Protocol Lib

variable {C : Type} (cfg : HTTPConfig) (isInbound : Bool) (tr : Tracer C)

/-- How many requests have begun to be written to the target. -/
def begun (s : St C) : Nat :=
  match s.reqPC with
  | .write k => k + 1
  | _ => s.written.length

/-- One action of a connection whose server answers only requests that reached
it, in order: the next response is one to the first request without a final
response, so that request must be on its way. -/
def servedStep (s : St C) : Act C → Option (St C)
  | .readResponse resp =>
    if s.finals < begun s then step cfg isInbound tr s (.readResponse resp)
      else none
  | a => step cfg isInbound tr s a

abbrev Served : St C → St C → Prop := Fires (servedStep cfg isInbound tr)

/-- The `k`-th finished span is the one pushed for the `k`-th request, filled
from that request, from its final response and with the peer it recorded; no
span is finished twice or on an interim response; and the request looked at for
the HEAD test is the one the response answers. -/
structure Paired (s : St C) : Prop where
  finished : ∀ (k : Nat) (f : Finish), s.finished[k]? = some f →
    s.pushed[k]? = some (some f.span) ∧ f.request = k ∧
    ∃ i r resp addr, f.response = some i ∧ s.reads[k]? = some r ∧
      s.responses[i]? = some resp ∧ s.answers[i]? = some k ∧
        interim resp = false ∧
      s.addrs[k]? = some addr ∧
      f.tags = fillSpan cfg isInbound addr r (some resp)
  nodup : (s.finished.map Finish.span).Nodup
  fronts : ∀ (i : Nat) (front : Option Nat), s.fronts[i]? = some front →
    ∃ k, front = some k ∧ s.answers[i]? = some k

/-- No interim response has been through `StopRequest`, and no span was filled
after a request had recorded a peer other than the one its own request had. -/
structure Undisturbed (s : St C) : Prop where
  final : ∀ (i : Nat) (resp : Response), i < s.stopped →
    s.responses[i]? = some resp → interim resp = false
  peer : ∀ (k : Nat) (f : Finish), s.finished[k]? = some f →
    s.addrs[f.recorded - 1]? = s.addrs[k]?

/-! ## The lock-step invariant -/

/-- How many spans have been pushed. -/
def spanCount (s : St C) : Nat :=
  match s.reqPC with
  | .reading => s.requests.length
  | .push k | .peek k | .start k _ | .pushSpan k _ => k
  | .write k => k + 1

/-- How many requests, and how many spans, have been popped. -/
def poppedCount (s : St C) : Nat :=
  match s.respPC with
  | .popResponse _ | .popSpan .. | .finish .. => s.stopped + 1
  | _ => s.stopped

def spanPopped (s : St C) : Nat :=
  match s.respPC with
  | .finish .. => s.stopped + 1
  | _ => s.stopped

/-- How many responses went through the HEAD test. -/
def frontCount (s : St C) : Nat :=
  match s.respPC with
  | .reading | .peek _ => s.stopped
  | _ => s.stopped + 1

/-- The header `h` is `h₀` with nothing but trace contexts added. -/
structure AddedTo (h₀ h : Header) : Prop where
  kept : ∀ k, h₀.values k <+: h.values k
  others : ∀ k, k ≠ canonicalKey traceContextHeaderName →
    h.values k = h₀.values k

/-- The request side of the lock step. -/
structure ReqLock (s : St C) : Prop where
  turn : ∀ k, s.reqPC.turn = some k → s.requests.length = k + 1
  reads_length : s.reads.length = s.requests.length
  addrs_length : s.addrs.length = s.requests.length
  written_length : s.written.length = writtenCount s
  made_length : s.made.length = startedCount s
  pushed_eq : s.pushed = (List.range (spanCount s)).map some
  span_eq : ∀ k span, s.reqPC = .pushSpan k span → span = k
  memory : ∀ (i : Nat) (r : Request), s.reads[i]? = some r →
    ∃ h, AddedTo r.header h ∧ s.requests[i]? = some { r with header := h }
  peer : s.addrs ≠ [] → s.addrs[s.addrs.length - 1]? = some s.remoteAddr

/-- What the program counter of the response goroutine carries in lock step:
everything is about the response `s.stopped`, which answers request
`s.stopped`. -/
def RespPCOk (s : St C) : Prop :=
  match s.respPC with
  | .reading => s.httpResponses = []
  | .peek i | .write i _ | .push i => i = s.stopped ∧ s.httpResponses = []
  | .popRequest => s.httpResponses = [s.stopped]
  | .popResponse req => req = some s.stopped ∧ s.httpResponses = [s.stopped]
  | .popSpan k i => k = s.stopped ∧ i = some s.stopped ∧ s.httpResponses = []
  | .finish k i span =>
    k = s.stopped ∧ i = some s.stopped ∧ span = s.stopped ∧ s.httpResponses = []

/-- A finished record of a span in lock step. -/
structure FinishOk (s : St C) (k : Nat) (f : Finish) : Prop where
  span : f.span = k
  request : f.request = k
  response : f.response = some k
  recorded_pos : 0 < f.recorded
  filled : ∃ r h resp addr, s.reads[k]? = some r ∧ AddedTo r.header h ∧
    s.responses[k]? = some resp ∧ s.addrs[f.recorded - 1]? = some addr ∧
    f.tags = fillSpan cfg isInbound addr { r with header := h } (some resp)

/-- The response side of the lock step. -/
structure RespLock (s : St C) : Prop where
  responses_length : s.responses.length = if s.respPC = .reading then
    s.stopped else s.stopped + 1
  finals_eq : s.finals = s.stopped ∨
    s.finals = s.stopped + 1 ∧ s.respPC ≠ .reading
  answers_eq : s.answers = List.range s.responses.length
  fronts_eq : s.fronts = (List.range (frontCount s)).map some
  pc : RespPCOk s
  final : ∀ (i : Nat) (resp : Response), i < s.stopped →
    s.responses[i]? = some resp → interim resp = false
  current : ∀ resp, s.responses[s.stopped]? = some resp → interim resp = false →
    s.finals = s.stopped + 1
  finished_length : s.finished.length = s.stopped
  finished : ∀ (k : Nat) (f : Finish), s.finished[k]? = some f →
    FinishOk cfg isInbound s k f

/-- Where the two sides meet: each queue is the interval between what was
popped and what was pushed, and nothing is popped before it was written. -/
structure QueueLock (s : St C) : Prop where
  requests : s.httpRequests =
    List.range' (poppedCount s) (pushedCount s - poppedCount s)
  spans : s.spans = List.range' (spanPopped s) (spanCount s - spanPopped s)
  popped_le : s.stopped + (if s.respPC = .reading then 0 else 1) ≤ begun s
  seen : ∀ k q, s.reqPC = .start k q → ∃ j, q.head? = some j

/-- The lock step. -/
structure Lockstep (s : St C) : Prop where
  req : ReqLock s
  resp : RespLock cfg isInbound s
  queues : QueueLock s

/-- A span has been finished on an interim response. -/
def Spoiled (s : St C) : Prop :=
  ∃ (k : Nat) (f : Finish) (i : Nat) (resp : Response), s.finished[k]? =
    some f ∧ f.response = some i ∧ i < s.stopped ∧ s.responses[i]? = some resp ∧
      interim resp = true

variable {cfg isInbound tr}

/-! ## Headers with contexts added

`StartRequest` may put a context into the headers of a request that is on the
queue. No tag of `fillSpan` is read from there. -/

theorem AddedTo.refl (h : Header) : AddedTo h h :=
  ⟨fun _ => List.prefix_refl _, fun _ _ => rfl⟩

theorem AddedTo.inject {h₀ h : Header} (ha : AddedTo h₀ h) (isInbound : Bool)
    (tr : Tracer C) (span : Span C) :
    AddedTo h₀ (injectHeader isInbound tr span h) := by
  unfold injectHeader
  split
  · refine ⟨fun k => ?_, fun k hk => ?_⟩
    · by_cases hk : k = canonicalKey traceContextHeaderName
      · subst hk
        rw [Header.add, Header.values_put_self]
        exact (ha.kept _).trans (List.prefix_append _ _)
      · rw [Header.add, Header.values_put_of_ne hk]
        exact ha.kept k
    · rw [Header.add, Header.values_put_of_ne hk]
      exact ha.others k hk
  · exact ha

/-- The request has an id: its own, or a generated one. -/
def Named (cfg : HTTPConfig) (h : Header) : Prop :=
  h.values (canonicalKey cfg.requestIdHeaderName.1) ≠ []

theorem Named.put {h : Header} (hn : Named cfg h) (k v : Bytes) :
    Named cfg (h.put k [v]) := by
  unfold Named
  by_cases hk : canonicalKey cfg.requestIdHeaderName.1 = k
  · rw [hk, Header.values_put_self]
    exact List.cons_ne_nil _ _
  · rw [Header.values_put_of_ne hk]
    exact hn

theorem named_editHeader (cache : List (Bytes × C)) (uuid : Bytes)
    (h : Header) :
    Named cfg (editHeader cfg isInbound tr cache uuid h) := by
  have hid : Named cfg
      (if cfg.requestId h = [] then h.set cfg.requestIdHeaderName.1 uuid
        else h) := by
    split
    · rw [Named, Header.set, Header.values_put_self]
      exact List.cons_ne_nil _ _
    · next hne =>
        intro hnil
        refine hne ?_
        rw [HTTPConfig.requestId, Header.get, Header.first, hnil]
        rfl
  have hsource : ∀ {g : Header}, Named cfg g → Named cfg
      (if g.get cfg.xSourceHeaderName.1 = [] then
        g.set cfg.xSourceHeaderName.1 cfg.xSourceValue.1 else g) := by
    intro g hg
    split
    · exact hg.put _ _
    · exact hg
  unfold editHeader
  dsimp only
  split
  · exact hid
  · split
    · exact hsource (hid.put _ _)
    · exact hsource hid

theorem named_reads {s : St C} (h : Reaches (Step cfg isInbound tr) {} s) :
    ∀ r ∈ s.reads, Named cfg r.header := by
  refine h.invariant (P := fun s => ∀ r ∈ s.reads,
    Named cfg r.header) ?_ (by simp)
  rintro s t hs ⟨a, ha⟩
  rcases reads_cases ha with hsame | ⟨r, addr, uuid, _, hgrown⟩
  · rw [hsame]
    exact hs
  · rw [hgrown]
    intro r' hr'
    rcases List.mem_append.mp hr' with hr' | hr'
    · exact hs r' hr'
    · rw [List.mem_singleton.mp hr']
      exact named_editHeader _ _ _

theorem AddedTo.fillSpan {r : Request} {h : Header} (ha : AddedTo r.header h)
    (hn : Named cfg r.header) (addr : Bytes) (resp : Option Response) :
    fillSpan cfg isInbound addr { r with header := h } resp =
      fillSpan cfg isInbound addr r resp := by
  have hagent : h.get (lit "User-Agent") = r.header.get (lit "User-Agent") := by
    rw [Header.get, Header.get, Header.first, Header.first,
      ha.others _ (by decide)]
  have hid : cfg.requestId h = cfg.requestId r.header := by
    obtain ⟨more, hmore⟩ := ha.kept (canonicalKey cfg.requestIdHeaderName.1)
    unfold Named at hn
    rw [HTTPConfig.requestId, HTTPConfig.requestId, Header.get, Header.get,
      Header.first, Header.first, ← hmore]
    cases hv : r.header.values (canonicalKey cfg.requestIdHeaderName.1) with
    | nil => exact absurd hv hn
    | cons v vs => rfl
  unfold Protocol.fillSpan
  dsimp only
  rw [hagent, hid]

/-! ## Frames -/

/-- What the request side sees of an action of the response goroutine or of
another connection. -/
structure ReqFrame (s t : St C) : Prop where
  requests : t.requests = s.requests
  reads : t.reads = s.reads
  addrs : t.addrs = s.addrs
  remoteAddr : t.remoteAddr = s.remoteAddr
  written : t.written = s.written
  made : t.made = s.made
  pushed : t.pushed = s.pushed
  reqPC : t.reqPC = s.reqPC

/-- What the response side sees of an action of the request goroutine: the
histories may grow. -/
structure RespFrame (s t : St C) : Prop where
  responses : t.responses = s.responses
  answers : t.answers = s.answers
  finals : t.finals = s.finals
  fronts : t.fronts = s.fronts
  finished : t.finished = s.finished
  stopped : t.stopped = s.stopped
  httpResponses : t.httpResponses = s.httpResponses
  respPC : t.respPC = s.respPC
  reads : s.reads <+: t.reads
  addrs : s.addrs <+: t.addrs

theorem ReqLock.frame {s t : St C} (h : ReqLock s) (hf : ReqFrame s t) :
    ReqLock t := by
  have hw : writtenCount t = writtenCount s := by
    unfold writtenCount; rw [hf.reqPC, hf.requests]
  have hst : startedCount t = startedCount s := by
    unfold startedCount; rw [hf.reqPC, hf.requests]
  have hsp : spanCount t = spanCount s := by
    unfold spanCount; rw [hf.reqPC, hf.requests]
  refine ⟨?_, ?_, ?_, ?_, ?_, ?_, ?_, ?_, ?_⟩
  · rw [hf.reqPC, hf.requests]; exact h.turn
  · rw [hf.reads, hf.requests]; exact h.reads_length
  · rw [hf.addrs, hf.requests]; exact h.addrs_length
  · rw [hf.written, hw]; exact h.written_length
  · rw [hf.made, hst]; exact h.made_length
  · rw [hf.pushed, hsp]; exact h.pushed_eq
  · rw [hf.reqPC]; exact h.span_eq
  · rw [hf.reads, hf.requests]; exact h.memory
  · rw [hf.addrs, hf.remoteAddr]; exact h.peer

theorem FinishOk.mono {s t : St C} {k : Nat} {f : Finish}
    (h : FinishOk cfg isInbound s k f) (hreads : s.reads <+: t.reads)
    (haddrs : s.addrs <+: t.addrs) (hresp : s.responses <+: t.responses) :
    FinishOk cfg isInbound t k f := by
  refine ⟨h.span, h.request, h.response, h.recorded_pos, ?_⟩
  obtain ⟨r, hdr, resp, addr, hr, hadded, hres, haddr, htags⟩ := h.filled
  exact ⟨r, hdr, resp, addr, getElem?_of_prefix hreads hr, hadded,
    getElem?_of_prefix hresp hres, getElem?_of_prefix haddrs haddr, htags⟩

theorem RespLock.frame {s t : St C} (h : RespLock cfg isInbound s)
    (hf : RespFrame s t) :
    RespLock cfg isInbound t := by
  have hfc : frontCount t = frontCount s := by
    unfold frontCount; rw [hf.respPC, hf.stopped]
  refine ⟨?_, ?_, ?_, ?_, ?_, ?_, ?_, ?_, ?_⟩
  · rw [hf.responses, hf.respPC, hf.stopped]; exact h.responses_length
  · rw [hf.finals, hf.respPC, hf.stopped]; exact h.finals_eq
  · rw [hf.answers, hf.responses]; exact h.answers_eq
  · rw [hf.fronts, hfc]; exact h.fronts_eq
  · have := h.pc
    unfold RespPCOk at this ⊢
    rwa [hf.respPC, hf.stopped, hf.httpResponses]
  · rw [hf.stopped, hf.responses]; exact h.final
  · rw [hf.stopped, hf.responses, hf.finals]; exact h.current
  · rw [hf.finished, hf.stopped]; exact h.finished_length
  · rw [hf.finished]
    intro k f hk
    exact (h.finished k f hk).mono hf.reads hf.addrs
      (hf.responses ▸ List.prefix_refl _)

/-! ## The counts -/

theorem begun_le_spanCount {s : St C} (h : ReqLock s) :
    begun s ≤ spanCount s := by
  have hw := h.written_length
  unfold begun spanCount
  unfold writtenCount at hw
  cases hpc : s.reqPC <;> simp only [hpc] at hw ⊢ <;> omega

theorem spanCount_le_pushedCount {s : St C} (h : ReqLock s) :
    spanCount s ≤ pushedCount s := by
  have ht := h.turn
  unfold spanCount pushedCount
  cases hpc : s.reqPC with
  | reading | push k => exact le_rfl
  | peek k | start k q | pushSpan k span | write k =>
    have := ht k (by rw [hpc]; rfl)
    dsimp only
    omega

theorem poppedCount_le {s : St C} :
    poppedCount s ≤ s.stopped + if s.respPC = .reading then 0 else 1 := by
  unfold poppedCount
  cases hpc : s.respPC <;> simp

theorem spanPopped_le {s : St C} :
    spanPopped s ≤ s.stopped + if s.respPC = .reading then 0 else 1 := by
  unfold spanPopped
  cases hpc : s.respPC <;> simp

/-! ## The request goroutine -/

theorem lockstep_read {s : St C} (h : Lockstep cfg isInbound s)
    (hpc : s.reqPC = .reading) (r : Request) (addr : Bytes) :
    Lockstep cfg isInbound { s with
      requests := s.requests ++ [r], reads :=
        s.reads ++ [r], remoteAddr := addr,
      addrs := s.addrs ++ [addr], reqPC := .push s.requests.length } := by
  obtain ⟨hreq, hresp, hq⟩ := h
  have hw := hreq.written_length
  have hm := hreq.made_length
  have hp := hreq.pushed_eq
  simp only [writtenCount, startedCount, spanCount, hpc] at hw hm hp
  refine ⟨⟨?_, ?_, ?_, hw, hm, hp, ?_, ?_, ?_⟩, hresp.frame ?_,
    ⟨?_, ?_, ?_, ?_⟩⟩
  · intro k hk
    simp only [ReqPC.turn, Option.some.injEq] at hk
    simp [hk]
  · simp [hreq.reads_length]
  · simp [hreq.addrs_length]
  · intro k span hk; cases hk
  · intro i r' hr'
    rcases getElem?_concat hr' with hr' | ⟨rfl, rfl⟩
    · obtain ⟨hdr, hadded, hi⟩ := hreq.memory i r' hr'
      exact ⟨hdr, hadded, getElem?_of_prefix (List.prefix_append _ _) hi⟩
    · exact ⟨r'.header, .refl _, by simp [hreq.reads_length]⟩
  · intro _
    simp
  · exact ⟨rfl, rfl, rfl, rfl, rfl, rfl, rfl, rfl, List.prefix_append _ _,
      List.prefix_append _ _⟩
  · simpa [pushedCount, poppedCount, hpc] using hq.requests
  · simpa [spanCount, spanPopped, hpc] using hq.spans
  · simpa [begun, hpc] using hq.popped_le
  · intro k q hk; cases hk

theorem lockstep_push {s : St C} (h : Lockstep cfg isInbound s) {k : Nat}
    (hpc : s.reqPC = .push k) :
    Lockstep cfg isInbound
      { s with
        httpRequests := Queue.push s.httpRequests k, reqPC := .peek k } := by
  obtain ⟨hreq, hresp, hq⟩ := h
  have hturn := hreq.turn k (by rw [hpc]; rfl)
  have hle : poppedCount s ≤ k := by
    have := hq.popped_le
    have hw := hreq.written_length
    simp only [begun, writtenCount, hpc] at this hw
    exact (poppedCount_le.trans this).trans hw.le
  refine ⟨⟨?_, hreq.reads_length, hreq.addrs_length, ?_, ?_, ?_, ?_,
    hreq.memory, hreq.peer⟩, hresp.frame ?_, ⟨?_, ?_, ?_, ?_⟩⟩
  · simpa [ReqPC.turn, hpc] using hreq.turn
  · simpa [writtenCount, hpc] using hreq.written_length
  · simpa [startedCount, hpc] using hreq.made_length
  · simpa [spanCount, hpc] using hreq.pushed_eq
  · intro k' span hk; cases hk
  · exact ⟨rfl, rfl, rfl, rfl, rfl, rfl, rfl, rfl, List.prefix_refl _,
      List.prefix_refl _⟩
  · have hr := hq.requests
    simp only [pushedCount, hpc] at hr
    have hcount : k + 1 - poppedCount s = (k - poppedCount s) + 1 := by omega
    simp only [Queue.push, pushedCount, hturn]
    change _ = List.range' (poppedCount s) (k + 1 - poppedCount s)
    rw [hr, hcount, List.range'_concat]
    simp
    omega
  · simpa [spanCount, spanPopped, hpc] using hq.spans
  · simpa [begun, hpc] using hq.popped_le
  · intro k' q hk; cases hk

/-- The queue is never empty where `StartRequest` looks at it. -/
theorem lockstep_peek {s : St C} (h : Lockstep cfg isInbound s) {k : Nat}
    (hpc : s.reqPC = .peek k) :
    Lockstep cfg isInbound { s with reqPC := .start k s.httpRequests } := by
  obtain ⟨hreq, hresp, hq⟩ := h
  have hturn := hreq.turn k (by rw [hpc]; rfl)
  have hle : poppedCount s ≤ k := by
    have := hq.popped_le
    have hw := hreq.written_length
    simp only [begun, writtenCount, hpc] at this hw
    exact (poppedCount_le.trans this).trans hw.le
  refine ⟨⟨?_, hreq.reads_length, hreq.addrs_length, ?_, ?_, ?_, ?_,
    hreq.memory, hreq.peer⟩, hresp.frame ?_, ⟨?_, ?_, ?_, ?_⟩⟩
  · simpa [ReqPC.turn, hpc] using hreq.turn
  · simpa [writtenCount, hpc] using hreq.written_length
  · simpa [startedCount, hpc] using hreq.made_length
  · simpa [spanCount, hpc] using hreq.pushed_eq
  · intro k' span hk; cases hk
  · exact ⟨rfl, rfl, rfl, rfl, rfl, rfl, rfl, rfl, List.prefix_refl _,
      List.prefix_refl _⟩
  · simpa [pushedCount, poppedCount, hpc] using hq.requests
  · simpa [spanCount, spanPopped, hpc] using hq.spans
  · simpa [begun, hpc] using hq.popped_le
  · intro k' q hk
    simp only [ReqPC.start.injEq] at hk
    obtain ⟨rfl, rfl⟩ := hk
    have hr := hq.requests
    simp only [pushedCount, hpc, hturn] at hr
    refine ⟨poppedCount s, ?_⟩
    rw [hr, show k + 1 - poppedCount s = (k - poppedCount s) + 1 by omega,
      List.range'_succ]
    rfl

theorem lockstep_start {s t : St C} (h : Lockstep cfg isInbound s) {k : Nat}
    {q : List Nat} (hpc : s.reqPC = .start k q)
    (hstep : start cfg isInbound tr s k q = some t) :
    Lockstep cfg isInbound t := by
  obtain ⟨hreq, hresp, hq⟩ := h
  obtain ⟨j, hj⟩ := hq.seen k q hpc
  have hturn := hreq.turn k (by rw [hpc]; rfl)
  have hmade : s.made.length = k := by
    simpa [startedCount, hpc] using hreq.made_length
  simp only [start, Queue.peek, hj] at hstep
  split at hstep
  · cases hstep
  · next r hr =>
      cases hstep
      refine ⟨⟨?_, ?_, ?_, ?_, ?_, ?_, ?_, ?_, hreq.peer⟩, hresp.frame ?_,
        ⟨?_, ?_, ?_, ?_⟩⟩
      · intro k' hk'
        simp only [ReqPC.turn, Option.some.injEq] at hk'
        simp only [List.length_set]
        omega
      · simpa using hreq.reads_length
      · simpa using hreq.addrs_length
      · simpa [writtenCount, hpc] using hreq.written_length
      · simp [startedCount, hmade]
      · simpa [spanCount, hpc] using hreq.pushed_eq
      · intro k' span hk'
        simp only [ReqPC.pushSpan.injEq] at hk'
        omega
      · intro i r' hr'
        obtain ⟨hdr, hadded, hi⟩ := hreq.memory i r' hr'
        dsimp only
        by_cases hij : j = i
        · subst hij
          obtain ⟨hlt, _⟩ := List.getElem?_eq_some_iff.mp hi
          rw [hr] at hi
          cases hi
          exact ⟨_, hadded.inject isInbound tr _, List.getElem?_set_self hlt⟩
        · exact ⟨hdr, hadded, by rw [List.getElem?_set_ne hij, hi]⟩
      · exact ⟨rfl, rfl, rfl, rfl, rfl, rfl, rfl, rfl, List.prefix_refl _,
          List.prefix_refl _⟩
      · simpa [pushedCount, poppedCount, hpc] using hq.requests
      · simpa [spanCount, spanPopped, hpc] using hq.spans
      · simpa [begun, hpc] using hq.popped_le
      · intro k' q' hk; cases hk

theorem lockstep_pushSpan {s : St C} (h : Lockstep cfg isInbound s)
    {k span : Nat} (hpc : s.reqPC = .pushSpan k span) :
    Lockstep cfg isInbound { s with
      spans := Queue.push s.spans span, pushed := s.pushed ++ [some span],
      reqPC := .write k } := by
  obtain ⟨hreq, hresp, hq⟩ := h
  have hturn := hreq.turn k (by rw [hpc]; rfl)
  have hspan := hreq.span_eq k span hpc
  have hwritten := hreq.written_length
  have hlt := hq.popped_le
  simp only [begun, writtenCount, hpc] at hlt hwritten
  have hle : spanPopped s ≤ k := (spanPopped_le.trans hlt).trans hwritten.le
  subst hspan
  refine ⟨⟨?_, hreq.reads_length, hreq.addrs_length, ?_, ?_, ?_, ?_,
    hreq.memory, hreq.peer⟩, hresp.frame ?_, ⟨?_, ?_, ?_, ?_⟩⟩
  · simpa [ReqPC.turn, hpc] using hreq.turn
  · simpa [writtenCount, hpc] using hreq.written_length
  · simpa [startedCount, hpc] using hreq.made_length
  · have hp := hreq.pushed_eq
    simp only [spanCount, hpc] at hp
    simp [spanCount, hp, List.range_succ]
  · intro k' span' hk; cases hk
  · exact ⟨rfl, rfl, rfl, rfl, rfl, rfl, rfl, rfl, List.prefix_refl _,
      List.prefix_refl _⟩
  · simpa [pushedCount, poppedCount, hpc] using hq.requests
  · have hs := hq.spans
    simp only [spanCount, hpc] at hs
    simp only [Queue.push, spanCount]
    change _ = List.range' (spanPopped s) (span + 1 - spanPopped s)
    rw [hs, show span + 1 - spanPopped s = (span - spanPopped s) + 1 by omega,
      List.range'_concat]
    simp
    omega
  · simp only [begun]
    omega
  · intro k' q hk; cases hk

theorem lockstep_write {s : St C} (h : Lockstep cfg isInbound s) {k : Nat}
    {r : Request} (hpc : s.reqPC = .write k) :
    Lockstep cfg isInbound { s with
      written := s.written ++ [r], reqPC := .reading } := by
  obtain ⟨hreq, hresp, hq⟩ := h
  have hturn := hreq.turn k (by rw [hpc]; rfl)
  have hwritten := hreq.written_length
  simp only [writtenCount, hpc] at hwritten
  refine ⟨⟨?_, hreq.reads_length, hreq.addrs_length, ?_, ?_, ?_, ?_,
    hreq.memory, hreq.peer⟩, hresp.frame ?_, ⟨?_, ?_, ?_, ?_⟩⟩
  · intro k' hk; cases hk
  · simp [writtenCount, hwritten, hturn]
  · simpa [startedCount, hpc, hturn] using hreq.made_length
  · simpa [spanCount, hpc, hturn] using hreq.pushed_eq
  · intro k' span' hk; cases hk
  · exact ⟨rfl, rfl, rfl, rfl, rfl, rfl, rfl, rfl, List.prefix_refl _,
      List.prefix_refl _⟩
  · simpa [pushedCount, poppedCount, hpc] using hq.requests
  · simpa [spanCount, spanPopped, hpc, hturn] using hq.spans
  · simpa [begun, hpc, hwritten] using hq.popped_le
  · intro k' q hk; cases hk

theorem lockstep_reqStep {s t : St C} (h : Lockstep cfg isInbound s)
    (hstep : reqStep cfg isInbound tr s = some t) :
    Lockstep cfg isInbound t := by
  unfold reqStep at hstep
  split at hstep
  case h_1 => cases hstep
  case h_2 hpc => cases hstep; exact lockstep_push h hpc
  case h_3 hpc => cases hstep; exact lockstep_peek h hpc
  case h_4 hpc => exact lockstep_start h hpc hstep
  case h_5 hpc => cases hstep; exact lockstep_pushSpan h hpc
  case h_6 hpc =>
    split at hstep
    · cases hstep
    · cases hstep; exact lockstep_write h hpc

/-! ## The response goroutine -/

/-- A response in progress answers a request that is in the queue, and whose
span is pushed. -/
theorem Lockstep.in_queue {s : St C} (h : Lockstep cfg isInbound s)
    (hpc : s.respPC ≠ .reading) :
    s.stopped < spanCount s ∧ s.stopped < pushedCount s := by
  have hle := h.queues.popped_le
  rw [if_neg hpc] at hle
  have h1 := begun_le_spanCount h.req
  have h2 := spanCount_le_pushedCount h.req
  omega

theorem lockstep_readResponse {s : St C} (h : Lockstep cfg isInbound s)
    (hpc : s.respPC = .reading) (hserved : s.finals < begun s)
    (resp : Response) :
    Lockstep cfg isInbound { s with
      responses := s.responses ++ [resp], answers := s.answers ++ [s.finals],
      finals := if interim resp then s.finals else s.finals + 1,
      respPC := .peek s.responses.length } := by
  obtain ⟨hreq, hresp, hq⟩ := h
  have hlen : s.responses.length = s.stopped := by
    simpa [hpc] using hresp.responses_length
  have hfin : s.finals = s.stopped := by
    rcases hresp.finals_eq with h | ⟨_, h⟩
    · exact h
    · exact absurd hpc h
  have hpcok := hresp.pc
  simp only [RespPCOk, hpc] at hpcok
  refine ⟨hreq.frame ?_, ⟨?_, ?_, ?_, ?_, ?_, ?_, ?_,
    hresp.finished_length, ?_⟩, ⟨?_, ?_, ?_, hq.seen⟩⟩
  · exact ⟨rfl, rfl, rfl, rfl, rfl, rfl, rfl, rfl⟩
  · simp [hlen]
  · dsimp only
    split
    · exact .inl hfin
    · exact .inr ⟨by omega, by simp⟩
  · simp [hresp.answers_eq, hfin, hlen, List.range_succ]
  · simpa [frontCount, hpc] using hresp.fronts_eq
  · simpa [RespPCOk, hlen] using hpcok
  · intro i r hi hr
    rcases getElem?_concat hr with hr | ⟨rfl, rfl⟩
    · exact hresp.final i r hi hr
    · dsimp only at hi
      omega
  · intro r hr hint
    rcases getElem?_concat hr with hr | ⟨_, rfl⟩
    · have := (List.getElem?_eq_some_iff.mp hr).1
      dsimp only at this
      omega
    · simp [hint, hfin]
  · intro k f hf
    exact (hresp.finished k f hf).mono (List.prefix_refl _) (List.prefix_refl _)
      (List.prefix_append _ _)
  · simpa [pushedCount, poppedCount, hpc] using hq.requests
  · simpa [spanCount, spanPopped, hpc] using hq.spans
  · simp only [reduceCtorEq, if_false]
    change s.stopped + 1 ≤ begun s
    omega

/-- The parts of the response side that no action between a response's arrival
and its `Finish` touches. -/
structure MidFrame (s t : St C) : Prop where
  responses : t.responses = s.responses
  answers : t.answers = s.answers
  finals : t.finals = s.finals
  finished : t.finished = s.finished
  stopped : t.stopped = s.stopped
  reading : s.respPC ≠ .reading
  reading' : t.respPC ≠ .reading

theorem RespLock.mid {s t : St C} (h : RespLock cfg isInbound s)
    (hm : MidFrame s t) (hreq : ReqFrame s t)
    (hfronts : t.fronts = (List.range (frontCount t)).map some)
    (hpc : RespPCOk t) : RespLock cfg isInbound t := by
  refine ⟨?_, ?_, ?_, hfronts, hpc, ?_, ?_, ?_, ?_⟩
  · have := h.responses_length
    rw [if_neg hm.reading] at this
    rw [if_neg hm.reading', hm.responses, hm.stopped, this]
  · rw [hm.finals, hm.stopped]
    exact h.finals_eq.imp_right fun h => ⟨h.1, hm.reading'⟩
  · rw [hm.answers, hm.responses]; exact h.answers_eq
  · rw [hm.stopped, hm.responses]; exact h.final
  · rw [hm.stopped, hm.responses, hm.finals]; exact h.current
  · rw [hm.finished, hm.stopped]; exact h.finished_length
  · rw [hm.finished]
    intro k f hk
    exact (h.finished k f hk).mono (hreq.reads ▸ List.prefix_refl _)
      (hreq.addrs ▸ List.prefix_refl _) (hm.responses ▸ List.prefix_refl _)

theorem Lockstep.mid {s t : St C} (h : Lockstep cfg isInbound s)
    (hm : MidFrame s t) (hreq : ReqFrame s t)
    (hfronts : t.fronts = (List.range (frontCount t)).map some)
    (hpc : RespPCOk t)
    (hrequests : t.httpRequests =
      List.range' (poppedCount t) (pushedCount s - poppedCount t))
    (hspans : t.spans = List.range' (spanPopped t) (spanCount s - spanPopped t))
    :
    Lockstep cfg isInbound t := by
  have hpushed : pushedCount t = pushedCount s := by
    unfold pushedCount; rw [hreq.reqPC, hreq.requests]
  have hspan : spanCount t = spanCount s := by
    unfold spanCount; rw [hreq.reqPC, hreq.requests]
  have hbegun : begun t = begun s := by
    unfold begun; rw [hreq.reqPC, hreq.written]
  refine ⟨h.req.frame hreq, h.resp.mid hm hreq hfronts hpc, ⟨?_, ?_, ?_, ?_⟩⟩
  · rw [hpushed]; exact hrequests
  · rw [hspan]; exact hspans
  · have := h.queues.popped_le
    rw [if_neg hm.reading] at this
    rw [if_neg hm.reading', hm.stopped, hbegun]
    exact this
  · rw [hreq.reqPC]; exact h.queues.seen

/-- The front of an interval. -/
theorem pop_range' {a n : Nat} (h : a < n) :
    Queue.pop (List.range' a (n - a)) =
      (some a, List.range' (a + 1) (n - (a + 1))) := by
  rw [show n - a = (n - (a + 1)) + 1 by omega, List.range'_succ]
  rfl

theorem peek_range' {a n : Nat} (h : a < n) :
    Queue.peek (List.range' a (n - a)) = some a := by
  rw [show n - a = (n - (a + 1)) + 1 by omega, List.range'_succ]
  rfl

/-- `Finish`: the record is in order, and either the response was final and the
next one may come, or the span was finished on an interim response. -/
theorem lockstep_finish {s t : St C} (h : Lockstep cfg isInbound s)
    {k span : Nat} {resp : Option Nat} (hpc : s.respPC = .finish k resp span)
    (hstep : respStep cfg isInbound s = some t) :
    Lockstep cfg isInbound t ∨ Spoiled t := by
  have hne : s.respPC ≠ .reading := by rw [hpc]; simp
  obtain ⟨hreq, hresp, hq⟩ := h
  have hpcok := hresp.pc
  simp only [RespPCOk, hpc] at hpcok
  obtain ⟨rfl, rfl, rfl, hresponses⟩ := hpcok
  have hlen := hresp.responses_length
  rw [if_neg hne] at hlen
  obtain ⟨answer, hanswer⟩ : ∃ answer, s.responses[s.stopped]? = some answer :=
    ⟨_, List.getElem?_eq_getElem (by omega)⟩
  have hflen := hresp.finished_length
  simp only [respStep, hpc, Option.bind_some, hanswer, Option.isNone_some,
    Bool.false_eq_true, if_false, List.append_nil] at hstep
  split at hstep
  · cases hstep
  · next r hr =>
      cases hstep
      by_cases hint : interim answer = true
      · refine .inr ⟨s.stopped, ⟨s.stopped, s.stopped, some s.stopped,
          fillSpan cfg isInbound s.remoteAddr r (some answer), s.addrs.length⟩,
            s.stopped, answer,
          ?_, rfl, Nat.lt_succ_self _, hanswer, hint⟩
        dsimp only
        rw [List.getElem?_append_right (by omega), hflen, Nat.sub_self]
        rfl
      · rw [Bool.not_eq_true] at hint
        have hfin := hresp.current answer hanswer hint
        refine .inl ⟨hreq.frame ⟨rfl, rfl, rfl, rfl, rfl, rfl, rfl, rfl⟩,
          ⟨?_, ?_, hresp.answers_eq, ?_, hresponses, ?_, ?_, ?_, ?_⟩,
            ⟨?_, ?_, ?_, hq.seen⟩⟩
        · simpa using hlen
        · exact .inl hfin
        · simpa [frontCount, hpc] using hresp.fronts_eq
        · intro i resp hi hget
          rcases Nat.lt_succ_iff_lt_or_eq.mp hi with hi | rfl
          · exact hresp.final i resp hi hget
          · dsimp only at hget
            rw [hanswer] at hget
            cases hget
            exact hint
        · intro resp hget
          have := (List.getElem?_eq_some_iff.mp hget).1
          dsimp only at this
          omega
        · simp [hflen]
        · intro k f hf
          rcases getElem?_concat hf with hf | ⟨rfl, rfl⟩
          · exact (hresp.finished k f hf).mono (List.prefix_refl _)
              (List.prefix_refl _)
              (List.prefix_refl _)
          · -- the memory still holds the request that was read, up to its
            -- headers
            have hrl := hreq.reads_length
            have hlt := (List.getElem?_eq_some_iff.mp hr).1
            obtain ⟨r0, hr0⟩ : ∃ r0, s.reads[s.stopped]? = some r0 :=
              ⟨_, List.getElem?_eq_getElem (by omega)⟩
            obtain ⟨hdr, hadded, hmem⟩ := hreq.memory _ _ hr0
            rw [hr] at hmem
            cases hmem
            have hal := hreq.addrs_length
            have hpos : 0 < s.addrs.length := by omega
            refine ⟨hflen.symm, hflen.symm, by rw [hflen], hpos, r0, hdr,
              answer, s.remoteAddr, ?_,
              hadded, ?_, hreq.peer (List.ne_nil_of_length_pos hpos), ?_⟩
            · rw [hflen]; exact hr0
            · rw [hflen]; exact hanswer
            · simp
        · simpa [pushedCount, poppedCount, hpc] using hq.requests
        · simpa [spanCount, spanPopped, hpc] using hq.spans
        · simpa [begun, hpc] using hq.popped_le

theorem lockstep_respStep {s t : St C} (h : Lockstep cfg isInbound s)
    (hstep : respStep cfg isInbound s = some t) :
    Lockstep cfg isInbound t ∨ Spoiled t := by
  have hpcok := h.resp.pc
  have hfr := h.resp.fronts_eq
  have hreqs := h.queues.requests
  have hsp := h.queues.spans
  cases hpc : s.respPC with
  | reading => simp [respStep, hpc] at hstep
  | peek i =>
    obtain ⟨hs, hp⟩ := h.in_queue (by rw [hpc]; simp)
    simp only [RespPCOk, frontCount, poppedCount, spanPopped,
      hpc] at hpcok hfr hreqs hsp
    simp only [respStep, hpc, Option.some.injEq] at hstep
    subst hstep
    refine .inl (h.mid ⟨rfl, rfl, rfl, rfl, rfl, by simp [hpc], by simp⟩
      ⟨rfl, rfl, rfl, rfl, rfl, rfl, rfl, rfl⟩ ?_ hpcok hreqs hsp)
    simp [frontCount, hfr, hreqs, peek_range' hp, List.range_succ]
  | write i front =>
    simp only [RespPCOk, frontCount, poppedCount, spanPopped,
      hpc] at hpcok hfr hreqs hsp
    simp only [respStep, hpc, Option.some.injEq] at hstep
    subst hstep
    exact .inl (h.mid ⟨rfl, rfl, rfl, rfl, rfl, by simp [hpc], by simp⟩
      ⟨rfl, rfl, rfl, rfl, rfl, rfl, rfl, rfl⟩ hfr hpcok hreqs hsp)
  | push i =>
    simp only [RespPCOk, frontCount, poppedCount, spanPopped,
      hpc] at hpcok hfr hreqs hsp
    simp only [respStep, hpc, Option.some.injEq] at hstep
    subst hstep
    refine .inl (h.mid ⟨rfl, rfl, rfl, rfl, rfl, by simp [hpc], by simp⟩
      ⟨rfl, rfl, rfl, rfl, rfl, rfl, rfl, rfl⟩ hfr ?_ hreqs hsp)
    simp [RespPCOk, Queue.push, hpcok]
  | popRequest =>
    obtain ⟨hs, hp⟩ := h.in_queue (by rw [hpc]; simp)
    simp only [RespPCOk, frontCount, poppedCount, spanPopped,
      hpc] at hpcok hfr hreqs hsp
    simp only [respStep, hpc, hreqs, pop_range' hp, Option.some.injEq] at hstep
    subst hstep
    exact .inl (h.mid ⟨rfl, rfl, rfl, rfl, rfl, by simp [hpc], by simp⟩
      ⟨rfl, rfl, rfl, rfl, rfl, rfl, rfl, rfl⟩ hfr ⟨rfl, hpcok⟩ rfl hsp)
  | popResponse req =>
    simp only [RespPCOk, frontCount, poppedCount, spanPopped,
      hpc] at hpcok hfr hreqs hsp
    obtain ⟨rfl, hresponses⟩ := hpcok
    simp only [respStep, hpc, hresponses, Queue.pop, Option.some.injEq] at hstep
    subst hstep
    exact .inl (h.mid ⟨rfl, rfl, rfl, rfl, rfl, by simp [hpc], by simp⟩
      ⟨rfl, rfl, rfl, rfl, rfl, rfl, rfl, rfl⟩ hfr ⟨rfl, rfl, rfl⟩ hreqs hsp)
  | popSpan k i =>
    obtain ⟨hs, hp⟩ := h.in_queue (by rw [hpc]; simp)
    simp only [RespPCOk, frontCount, poppedCount, spanPopped,
      hpc] at hpcok hfr hreqs hsp
    obtain ⟨rfl, rfl, hresponses⟩ := hpcok
    simp only [respStep, hpc, hsp, pop_range' hs, Option.some.injEq] at hstep
    subst hstep
    exact .inl (h.mid ⟨rfl, rfl, rfl, rfl, rfl, by simp [hpc], by simp⟩
      ⟨rfl, rfl, rfl, rfl, rfl, rfl, rfl, rfl⟩ hfr ⟨rfl, rfl, rfl,
        hresponses⟩ hreqs rfl)
  | finish k i span => exact lockstep_finish h hpc hstep

/-! ## Runs -/

theorem lockstep_init : Lockstep cfg isInbound ({} : St C) := by
  refine ⟨⟨?_, rfl, rfl, rfl, rfl, rfl, ?_, ?_, ?_⟩,
    ⟨rfl, .inl rfl, rfl, rfl, rfl, ?_, ?_, rfl, ?_⟩, ⟨rfl, rfl, le_rfl, ?_⟩⟩
  · intro k hk; cases hk
  · intro k span hk; cases hk
  · intro i r hr; cases hr
  · intro hne; exact absurd rfl hne
  · intro i resp hi; cases hi
  · intro resp hr; cases hr
  · intro k f hf; cases hf
  · intro k q hk; cases hk

theorem servedStep_step {s t : St C} {a : Act C}
    (h : servedStep cfg isInbound tr s a = some t) :
    step cfg isInbound tr s a = some t := by
  unfold servedStep at h
  split at h
  · split at h
    · exact h
    · cases h
  · exact h

theorem lockstep_served {s t : St C} (h : Lockstep cfg isInbound s)
    (hstep : Served cfg isInbound tr s t) :
    Lockstep cfg isInbound t ∨ Spoiled t := by
  obtain ⟨a, hstep⟩ := hstep
  cases a with
  | readRequest r addr uuid =>
    simp only [servedStep, step] at hstep
    split at hstep
    · next hpc => cases hstep; exact .inl (lockstep_read h hpc _ _)
    · cases hstep
  | reqStep => exact .inl (lockstep_reqStep h hstep)
  | readResponse resp =>
    simp only [servedStep, step] at hstep
    split at hstep
    · next hserved =>
        split at hstep
        · next hpc =>
            cases hstep
            exact .inl (lockstep_readResponse h hpc hserved resp)
        · cases hstep
    · cases hstep
  | respStep => exact lockstep_respStep h hstep
  | setCache key ctx =>
    cases hstep
    exact .inl ⟨h.req.frame ⟨rfl, rfl, rfl, rfl, rfl, rfl, rfl, rfl⟩,
      h.resp.frame ⟨rfl, rfl, rfl, rfl, rfl, rfl, rfl, rfl, List.prefix_refl _,
        List.prefix_refl _⟩,
      ⟨h.queues.requests, h.queues.spans, h.queues.popped_le, h.queues.seen⟩⟩
  | expire key =>
    cases hstep
    exact .inl ⟨h.req.frame ⟨rfl, rfl, rfl, rfl, rfl, rfl, rfl, rfl⟩,
      h.resp.frame ⟨rfl, rfl, rfl, rfl, rfl, rfl, rfl, rfl, List.prefix_refl _,
        List.prefix_refl _⟩,
      ⟨h.queues.requests, h.queues.spans, h.queues.popped_le, h.queues.seen⟩⟩

/-- The histories a spoiled record lives in only grow. -/
structure Grows (s t : St C) : Prop where
  finished : s.finished <+: t.finished
  responses : s.responses <+: t.responses
  stopped : s.stopped ≤ t.stopped

theorem Grows.of_eq {s t : St C} (hf : t.finished = s.finished)
    (hr : t.responses = s.responses) (hs : t.stopped = s.stopped) : Grows s t :=
  ⟨hf ▸ List.prefix_refl _, hr ▸ List.prefix_refl _, hs.ge⟩

theorem reqStep_grows {s t : St C} (h : reqStep cfg isInbound tr s = some t) :
    Grows s t := by
  unfold reqStep at h
  split at h
  case h_1 => cases h
  case h_2 | h_3 | h_5 => cases h; exact .of_eq rfl rfl rfl
  case h_4 =>
    unfold start at h
    split at h
    · cases h; exact .of_eq rfl rfl rfl
    · split at h
      · cases h
      · cases h; exact .of_eq rfl rfl rfl
  case h_6 =>
    split at h
    · cases h
    · cases h; exact .of_eq rfl rfl rfl

theorem respStep_grows {s t : St C} (h : respStep cfg isInbound s = some t) :
    Grows s t := by
  unfold respStep at h
  split at h
  case h_1 => cases h
  case h_2 | h_3 | h_4 | h_5 => cases h; exact .of_eq rfl rfl rfl
  case h_6 =>
    split at h
    · cases h; exact ⟨List.prefix_refl _, List.prefix_refl _, Nat.le_succ _⟩
    · cases h; exact .of_eq rfl rfl rfl
  case h_7 =>
    split at h
    · cases h; exact ⟨List.prefix_refl _, List.prefix_refl _, Nat.le_succ _⟩
    · cases h; exact .of_eq rfl rfl rfl
  case h_8 =>
    split at h
    · cases h
    · cases h; exact ⟨List.prefix_append _ _, List.prefix_refl _, Nat.le_succ _⟩

theorem step_grows {s t : St C} {a : Act C}
    (h : step cfg isInbound tr s a = some t) :
    Grows s t := by
  cases a with
  | readRequest r addr uuid =>
    simp only [step] at h
    split at h
    · cases h; exact .of_eq rfl rfl rfl
    · cases h
  | reqStep => exact reqStep_grows h
  | readResponse resp =>
    simp only [step] at h
    split at h
    · cases h; exact ⟨List.prefix_refl _, List.prefix_append _ _, le_rfl⟩
    · cases h
  | respStep => exact respStep_grows h
  | setCache key ctx => cases h; exact .of_eq rfl rfl rfl
  | expire key => cases h; exact .of_eq rfl rfl rfl

theorem Spoiled.grows {s t : St C} (h : Spoiled s) (hg : Grows s t) :
    Spoiled t := by
  obtain ⟨k, f, i, resp, hf, hresp, hi, hget, hint⟩ := h
  exact ⟨k, f, i, resp, getElem?_of_prefix hg.finished hf, hresp,
    hi.trans_le hg.stopped, getElem?_of_prefix hg.responses hget, hint⟩

/-- Along a run with a conforming server the connection is in lock step until a
span is finished on an interim response. -/
theorem lockstep_or_spoiled {s : St C}
    (h : Reaches (Served cfg isInbound tr) {} s) :
    Lockstep cfg isInbound s ∨ Spoiled s := by
  refine Reaches.invariant (P :=
    fun s => Lockstep cfg isInbound s ∨ Spoiled s) ?_
    (.inl lockstep_init) h
  rintro s t (hlock | hspoiled) hstep
  · exact lockstep_served hlock hstep
  · obtain ⟨a, ha⟩ := hstep
    exact .inr (hspoiled.grows (step_grows (servedStep_step ha)))

/-! ## The pairing -/

/-- `fillSpan` puts the peer's address into the tags as it stands. -/
theorem fillSpan_addr {a b : Bytes} {req req' : Request}
    {resp resp' : Option Response}
    (h : fillSpan cfg isInbound a req resp =
      fillSpan cfg isInbound b req' resp') : a = b := by
  have := congrArg (·[1]?) h
  simpa [fillSpan] using this

theorem Spoiled.not_paired {s : St C} (h : Spoiled s) :
    ¬ Paired cfg isInbound s := by
  obtain ⟨k, f, i, resp, hf, hresp, _, hget, hint⟩ := h
  intro hp
  obtain ⟨_, _, i', _, resp', _, hresp', _, hget', _, hint', _⟩ :=
    hp.finished k f hf
  rw [hresp, Option.some.injEq] at hresp'
  subst hresp'
  rw [hget, Option.some.injEq] at hget'
  subst hget'
  rw [hint] at hint'
  cases hint'

theorem Spoiled.not_undisturbed {s : St C} (h : Spoiled s) :
    ¬ Undisturbed s := by
  obtain ⟨_, _, i, resp, _, _, hi, hget, hint⟩ := h
  intro hu
  rw [hu.final i resp hi hget] at hint
  cases hint

theorem Lockstep.undisturbed {s : St C} (h : Lockstep cfg isInbound s)
    (hp : Paired cfg isInbound s) : Undisturbed s := by
  refine ⟨h.resp.final, fun k f hf => ?_⟩
  obtain ⟨r, hdr, resp, addr, _, _, hresp, haddr, htags⟩ :=
    (h.resp.finished k f hf).filled
  obtain ⟨_, _, i, r', resp', addr', _, _, _, _, _, haddr', htags'⟩ :=
    hp.finished k f hf
  rw [htags] at htags'
  rw [haddr, haddr', fillSpan_addr htags']

theorem Lockstep.paired {s : St C} (h : Lockstep cfg isInbound s)
    (hnamed : ∀ r ∈ s.reads, Named cfg r.header) (hu : Undisturbed s) :
    Paired cfg isInbound s := by
  have hlen := h.resp.finished_length
  have hresplen := h.resp.responses_length
  have hans : ∀ i < s.responses.length, s.answers[i]? = some i := by
    intro i hi
    rw [h.resp.answers_eq]
    simp [hi]
  refine ⟨?_, ?_, ?_⟩
  · intro k f hf
    have hk := (List.getElem?_eq_some_iff.mp hf).1
    obtain ⟨hspan, hrequest, hresponse, _, hfilled⟩ := h.resp.finished k f hf
    obtain ⟨r, hdr, resp, addr, hr, hadded, hresp, haddr, htags⟩ := hfilled
    rw [hadded.fillSpan (hnamed r (List.mem_of_getElem? hr))] at htags
    have hkr := (List.getElem?_eq_some_iff.mp hresp).1
    have hks : k < spanCount s := by
      have h1 := h.queues.popped_le
      have h2 := begun_le_spanCount h.req
      omega
    refine ⟨?_, hrequest, k, r, resp, addr, hresponse, hr, hresp, hans k hkr,
      h.resp.final k resp (by omega) hresp, ?_, htags⟩
    · rw [h.req.pushed_eq, hspan]
      simp [hks]
    · rw [← hu.peer k f hf, haddr]
  · have hspans : s.finished.map Finish.span =
        List.range s.finished.length := by
      refine List.ext_getElem? fun k => ?_
      rw [List.getElem?_map]
      cases hf : s.finished[k]? with
      | none =>
        have := List.getElem?_eq_none_iff.mp hf
        simp [this]
      | some f =>
        have := (List.getElem?_eq_some_iff.mp hf).1
        simp [this, (h.resp.finished k f hf).span]
    rw [hspans]
    exact List.nodup_range
  · intro i front hi
    have hfc : frontCount s ≤ s.responses.length := by
      rw [hresplen]
      unfold frontCount
      cases hpc : s.respPC <;> simp
    rw [h.resp.fronts_eq, List.getElem?_map] at hi
    have hlt : i < frontCount s := by
      by_contra hge
      rw [List.getElem?_eq_none (by simpa using hge)] at hi
      cases hi
    simp only [List.getElem?_range hlt, Option.map_some,
      Option.some.injEq] at hi
    exact ⟨i, hi.symm, hans i (by omega)⟩

/-- The server announces that it will answer before it does. -/
def announced : List (Act Bytes) :=
  requestTurn (lit "/a") ++ responseTurn 100

/-- Two requests in flight, answered one after the other. -/
def pipelined : List (Act Bytes) :=
  requestTurn (lit "/a") ++ requestTurn (lit "/b") ++ responseTurn 200 ++
    responseTurn 503

end Netramesh.Proofs
