import Netramesh.Http.Message

/-!
# Request tracking on one connection

`NetHTTPRequest` follows the requests of one connection through three queues:
the requests that were read, the responses that came back, and the spans that
were started. The request goroutine pushes on two of them, the response
goroutine pushes on the third and pops all three, and neither waits for the
other; each queue operation holds the queue's own mutex and is one atomic
action, and anything may happen between two of them.

`step` is one such action. The state keeps the memory the queues point into
(requests are shared by pointer, and `StartRequest` may write into the headers
of the one it finds) and a history of what was done, which no action reads.
-/

namespace Netramesh.Protocol

open Http

/-! ## Configuration -/

/-- A header field name. -/
abbrev FieldName := { k : Bytes // k ≠ [] ∧ k.all isTokenByte = true }

/-- A header field value: no line break in it. -/
abbrev FieldValue := { v : Bytes // nl ∉ v ∧ cr ∉ v }

/-- `config.HTTPConfig`, without the switches that only routing reads. -/
structure HTTPConfig where
  headersMap : List (Bytes × Bytes)
  cookiesMap : List (Bytes × Bytes)
  requestIdHeaderName : FieldName
  xSourceHeaderName : FieldName
  xSourceValue : FieldValue

/-- The configuration with nothing set in the environment. -/
def HTTPConfig.default : HTTPConfig where
  headersMap := []
  cookiesMap := []
  requestIdHeaderName := ⟨lit "X-Request-Id", by decide⟩
  xSourceHeaderName := ⟨lit "X-Source", by decide⟩
  xSourceValue := ⟨lit "netra", by decide⟩

/-- The value under the configured request-id header. -/
def HTTPConfig.requestId (cfg : HTTPConfig) (h : Header) : Bytes :=
  h.get cfg.requestIdHeaderName.1

/-- `jaeger.TraceContextHeaderName`. -/
def traceContextHeaderName : Bytes := lit "uber-trace-id"

/-! ## Queues -/

namespace Queue

variable {α : Type}

/-- `Queue.Push`. -/
def push (q : List α) (v : α) : List α := q ++ [v]

/-- `Queue.Pop`. -/
def pop : List α → Option α × List α
  | [] => (none, [])
  | v :: q => (some v, q)

/-- `Queue.Peek`. -/
def peek (q : List α) : Option α := q.head?

end Queue

section Callers

variable {α : Type}

/-- An operation on a queue of values other than `nil`. -/
inductive QueueOp (α : Type)
  | push (v : α)
  | pop
  | peek

/-- `NewQueue`. -/
def newQueue : List α := []

/-- What an operation answers, `none` standing for `nil` and for no answer, and
the queue behind it. -/
def QueueOp.apply (q : List α) : QueueOp α → Option α × List α
  | .push v => (none, Queue.push q v)
  | .pop => Queue.pop q
  | .peek => (Queue.peek q, q)

/-- The queue after the operations. -/
def queueAfter (q : List α) : List (QueueOp α) → List α
  | [] => q
  | op :: ops => queueAfter (op.apply q).2 ops

/-- What the operations answer. -/
def queueAnswers (q : List α) : List (QueueOp α) → List (Option α)
  | [] => []
  | op :: ops => (op.apply q).1 :: queueAnswers (op.apply q).2 ops

/-- Where `Clear` stands: at the initialiser of its loop, at the test with the
element it looks at, or at its end. -/
inductive ClearPC (α : Type)
  | init
  | test (el : Option α)
  | returned

/-- One step of `Clear`. The loop has neither a body nor a post statement, so a
test that succeeds is followed by the same test. -/
def clearStep : ClearPC α × List α → Option (ClearPC α × List α)
  | (.init, q) => some (.test (Queue.pop q).1, (Queue.pop q).2)
  | (.test none, q) => some (.returned, q)
  | (.test (some el), q) => some (.test (some el), q)
  | (.returned, _) => none

end Callers

/-! ## Spans -/

/-- The tracer behind `opentracing.GlobalTracer()`. `extract n` is the `n`-th
call of `Extract`, whose answer may depend on the order in which Go iterates
the header; `newContext n parent` is the context of the `n`-th span started. -/
structure Tracer (C : Type) where
  extract : Nat → Header → Option C
  newContext : Nat → Option C → C
  text : C → Bytes

inductive TagValue
  | str (s : Bytes)
  | int (n : Int)
  | flag (b : Bool)
  deriving DecidableEq

/-- A span as `StartRequest` creates it. -/
structure Span (C : Type) where
  operation : Bytes
  parent : Option C
  context : C
  tags : List (Bytes × TagValue)
  deriving DecidableEq

/-- The operation name `StartRequest` gives the span of `r`. -/
def operation (isInbound : Bool) (r : Request) : Bytes :=
  if isInbound then r.url.path else r.host ++ r.url.path

/-- The configured tags of an inbound request, set only on a root span. -/
def requestTags (cfg : HTTPConfig) (r : Request) : List (Bytes × TagValue) :=
  (cfg.headersMap.filterMap fun m =>
    let val := r.header.get m.1
    if val ≠ [] then some (m.2, .str val) else none) ++
  ((readCookies r.header []).filterMap fun c =>
    (cfg.cookiesMap.lookup c.1).map fun tag => (tag, .str c.2))

/-- `fillSpan`. -/
def fillSpan (cfg : HTTPConfig) (isInbound : Bool) (remoteAddr : Bytes)
    (req : Request) (resp : Option Response) : List (Bytes × TagValue) :=
  [(lit "span.kind", .str (if isInbound then lit "server" else lit "client")),
   (lit "remote_addr", .str remoteAddr),
   (lit "http.host", .str req.host),
   (lit "http.path", .str req.url.string),
   (lit "http.request_size", .int req.contentLength),
   (lit "http.method", .str req.method)] ++
  (if req.header.get (lit "User-Agent") ≠ [] then
    [(lit "http.user_agent", .str (req.header.get (lit "User-Agent")))]
  else []) ++
  (if cfg.requestId req.header ≠ [] then
    [(lit "http.request_id", .str (cfg.requestId req.header))] else []) ++
  match resp with
  | none => []
  | some resp =>
    [(lit "http.response_size", .int resp.contentLength),
     (lit "http.status_code", .int resp.statusCode)] ++
    if 500 ≤ resp.statusCode then [(lit "error", .str (lit "true"))] else []

/-! ## The two goroutines -/

/-- Where the request goroutine stands, inside one turn of the loop of
`HandleRequest`. `k` is the request of this turn. -/
inductive ReqPC
  | reading
  | push (k : Nat)
  | peek (k : Nat)
  | start (k : Nat) (queue : List Nat)
  | pushSpan (k : Nat) (span : Nat)
  | write (k : Nat)
  deriving DecidableEq

/-- The request of the turn in progress. -/
def ReqPC.turn : ReqPC → Option Nat
  | .reading => none
  | .push k | .peek k | .start k _ | .pushSpan k _ | .write k => some k

/-- Where the response goroutine stands, inside one turn of the loop of
`HandleResponse`; the last four are the steps of `StopRequest`. -/
inductive RespPC
  | reading
  | peek (resp : Nat)
  | write (resp : Nat) (front : Option Nat)
  | push (resp : Nat)
  | popRequest
  | popResponse (req : Option Nat)
  | popSpan (req : Nat) (resp : Option Nat)
  | finish (req : Nat) (resp : Option Nat) (span : Nat)
  deriving DecidableEq

/-- One call of `StartRequest`: what it found at the front of the queue, and
what it did with it. -/
structure StartRec (C : Type) where
  /-- The request of this turn. -/
  request : Nat
  /-- The queue at the moment of the `Peek`. -/
  queue : List Nat
  /-- The request the span was made from. -/
  used : Option Nat
  /-- The span, and how many were made before it. -/
  span : Option (Span C)
  seq : Nat
  deriving DecidableEq

/-- One finished span. -/
structure Finish where
  span : Nat
  request : Nat
  response : Option Nat
  tags : List (Bytes × TagValue)
  /-- How many requests had recorded a peer address by then. -/
  recorded : Nat
  deriving DecidableEq

/-- The state of one connection. -/
structure St (C : Type) where
  requests : List Request := []
  responses : List Response := []
  made : List (Span C) := []
  httpRequests : List Nat := []
  httpResponses : List Nat := []
  spans : List Nat := []
  remoteAddr : Bytes := []
  /-- `tracingContextMapping`, newest entry first. -/
  cache : List (Bytes × C) := []
  reqPC : ReqPC := .reading
  respPC : RespPC := .reading
  /-- History: each request as it was read and edited, before it was pushed. -/
  reads : List Request := []
  /-- History: the peer address each request recorded. -/
  addrs : List Bytes := []
  starts : List (StartRec C) := []
  /-- History: for each request, the span pushed for it. -/
  pushed : List (Option Nat) := []
  /-- History: each request as it was written to the target. -/
  written : List Request := []
  /-- History: for each response, the request it answers. -/
  answers : List Nat := []
  /-- History: how many requests have a final response. -/
  finals : Nat := 0
  /-- History: for each response, the request the HEAD test looked at. -/
  fronts : List (Option Nat) := []
  finished : List Finish := []
  /-- History: how many responses went through `StopRequest`. -/
  stopped : Nat := 0

/-- An action of one of the two goroutines, or of another connection on the
shared cache. A goroutine that reads from its peer takes what it read as an
argument; every other action is determined by the state. -/
inductive Act (C : Type)
  | readRequest (r : Request) (addr : Bytes) (uuid : Bytes)
  | reqStep
  | readResponse (resp : Response)
  | respStep
  | setCache (key : Bytes) (ctx : C)
  | expire (key : Bytes)

/-- An interim response: 1xx, but not the switch of protocols. -/
def interim (resp : Response) : Bool :=
  100 ≤ resp.statusCode && resp.statusCode < 200 && resp.statusCode != 101

section Step

variable {C : Type} (cfg : HTTPConfig) (isInbound : Bool) (tr : Tracer C)

/-- What `HandleRequest` does to the headers of a request before it is pushed:
the request id, and on an outbound connection the cached trace context and the
source header. -/
def editHeader (cache : List (Bytes × C)) (uuid : Bytes) (h : Header) :
    Header :=
  let h :=
    if cfg.requestId h = [] then h.set cfg.requestIdHeaderName.1 uuid else h
  if isInbound then h
  else
    let h :=
      match cache.lookup (cfg.requestId h) with
      | some ctx => h.put traceContextHeaderName [tr.text ctx]
      | none => h
    if h.get cfg.xSourceHeaderName.1 = [] then
      h.set cfg.xSourceHeaderName.1 cfg.xSourceValue.1
    else h

/-- The request `SetHTTPRequest` receives. -/
def editRequest (cache : List (Bytes × C)) (uuid : Bytes) (r : Request) :
    Request :=
  { r with header := editHeader cfg isInbound tr cache uuid r.header }

/-- `StartRequest` after its `Peek` found request `j`: the span it makes. -/
def startSpan (n : Nat) (r : Request) : Span C :=
  let parent := tr.extract n r.header
  { operation := operation isInbound r
    parent := parent
    context := tr.newContext n parent
    tags := if parent.isNone && isInbound then requestTags cfg r else [] }

/-- The headers of the request `StartRequest` worked on, afterwards: a new
context is injected into an outbound request that brought none. -/
def injectHeader (span : Span C) (h : Header) : Header :=
  if span.parent.isNone && !isInbound then
    h.add traceContextHeaderName (tr.text span.context)
  else h

/-- `StartRequest` after its `Peek`, in the turn of request `k`, with the queue
`q` as the `Peek` saw it. An empty queue ends the call at once. -/
def start (s : St C) (k : Nat) (q : List Nat) : Option (St C) :=
  match Queue.peek q with
  | none =>
    some { s with
      starts := s.starts ++
        [{ request := k, queue := q, used := none, span := none,
           seq := s.made.length }]
      pushed := s.pushed ++ [none]
      reqPC := .write k }
  | some j =>
    match s.requests[j]? with
    | none => none
    | some r =>
      let span := startSpan cfg isInbound tr s.made.length r
      let key := cfg.requestId r.header
      some { s with
        made := s.made ++ [span]
        cache := if isInbound then (key, span.context) :: s.cache else s.cache
        requests := s.requests.set j
          { r with header := injectHeader isInbound tr span r.header }
        starts := s.starts ++ [{
          request := k
          queue := q
          used := some j
          span := some span
          seq := s.made.length }]
        reqPC := .pushSpan k s.made.length }

/-- The next action of the request goroutine. -/
def reqStep (s : St C) : Option (St C) :=
  match s.reqPC with
  | .reading => none
  | .push k =>
    some { s with
      httpRequests := Queue.push s.httpRequests k, reqPC := .peek k }
  | .peek k => some { s with reqPC := .start k s.httpRequests }
  | .start k q => start cfg isInbound tr s k q
  | .pushSpan k span =>
    some { s with
      spans := Queue.push s.spans span
      pushed := s.pushed ++ [some span]
      reqPC := .write k }
  | .write k =>
    match s.requests[k]? with
    | none => none
    | some r => some { s with written := s.written ++ [r], reqPC := .reading }

/-- The next action of the response goroutine. -/
def respStep (s : St C) : Option (St C) :=
  match s.respPC with
  | .reading => none
  | .peek resp =>
    some { s with
      fronts := s.fronts ++ [Queue.peek s.httpRequests]
      respPC := .write resp (Queue.peek s.httpRequests) }
  | .write resp _ => some { s with respPC := .push resp }
  | .push resp =>
    some { s with
      httpResponses := Queue.push s.httpResponses resp, respPC := .popRequest }
  | .popRequest =>
    some { s with
      httpRequests := (Queue.pop s.httpRequests).2
      respPC := .popResponse (Queue.pop s.httpRequests).1 }
  | .popResponse req =>
    let s' := { s with httpResponses := (Queue.pop s.httpResponses).2 }
    match req with
    | none => some { s' with stopped := s.stopped + 1, respPC := .reading }
    | some k =>
        some { s' with respPC := .popSpan k (Queue.pop s.httpResponses).1 }
  | .popSpan k resp =>
    match Queue.pop s.spans with
    | (none, _) => some { s with stopped := s.stopped + 1, respPC := .reading }
    | (some span, q) =>
        some { s with spans := q, respPC := .finish k resp span }
  | .finish k resp span =>
    match s.requests[k]? with
    | none => none
    | some r =>
      let answer := resp.bind (s.responses[·]?)
      let tags := fillSpan cfg isInbound s.remoteAddr r answer ++
        if answer.isNone then
          [(lit "error", .flag true), (lit "timeout", .flag true)] else []
      some { s with
        finished := s.finished ++
          [{ span := span, request := k, response := resp,
             tags := tags, recorded := s.addrs.length }]
        stopped := s.stopped + 1
        respPC := .reading }

/-- One action. -/
def step (s : St C) : Act C → Option (St C)
  | .readRequest r addr uuid =>
    if s.reqPC = .reading then
      some { s with
        requests := s.requests ++ [editRequest cfg isInbound tr s.cache uuid r]
        reads := s.reads ++ [editRequest cfg isInbound tr s.cache uuid r]
        remoteAddr := addr
        addrs := s.addrs ++ [addr]
        reqPC := .push s.requests.length }
    else none
  | .reqStep => reqStep cfg isInbound tr s
  | .readResponse resp =>
    if s.respPC = .reading then
      some { s with
        responses := s.responses ++ [resp]
        answers := s.answers ++ [s.finals]
        finals := if interim resp then s.finals else s.finals + 1
        respPC := .peek s.responses.length }
    else none
  | .respStep => respStep cfg isInbound s
  | .setCache key ctx => some { s with cache := (key, ctx) :: s.cache }
  | .expire key => some { s with cache := s.cache.filter fun e => e.1 ≠ key }

end Step

/-! ## The end of the connection

Both goroutines return between two turns of their loops, whatever made them:
the end of a stream, an error, an upgrade, no connection to write to. `CleanUp`
is deferred by `HandleResponse`, or by `HandleConnection` with routing on. -/

/-- Which goroutine takes an action. -/
def Act.ofRequests {C : Type} : Act C → Bool
  | .readRequest .. | .reqStep => true
  | _ => false

def Act.ofResponses {C : Type} : Act C → Bool
  | .readResponse _ | .respStep => true
  | _ => false

/-- `CleanUp`: nothing is cleaned up. -/
def cleanUp {C : Type} (s : St C) : St C := s

/-- A connection with what has come to its end. -/
structure Life (C : Type) where
  st : St C := {}
  reqReturned : Bool := false
  respReturned : Bool := false
  cleaned : Bool := false

inductive LifeAct (C : Type)
  | act (a : Act C)
  | reqReturn
  | respReturn
  | cleanUp

/-- One action, of a goroutine that has not returned. -/
def lifeStep {C : Type} (cfg : HTTPConfig) (isInbound : Bool) (tr : Tracer C)
    (s : Life C) : LifeAct C → Option (Life C)
  | .act a =>
    if (s.reqReturned && a.ofRequests) || (s.respReturned && a.ofResponses) then
      none
    else (step cfg isInbound tr s.st a).map fun t => { s with st := t }
  | .reqReturn =>
    if s.st.reqPC = .reading then some { s with reqReturned := true } else none
  | .respReturn =>
    if s.st.respPC = .reading then some { s with respReturned := true }
    else none
  | .cleanUp => some { s with st := cleanUp s.st, cleaned := true }

/-- Both goroutines have returned and `CleanUp` was called. -/
def Life.ended {C : Type} (s : Life C) : Prop :=
  s.reqReturned = true ∧ s.respReturned = true ∧ s.cleaned = true

end Netramesh.Protocol
