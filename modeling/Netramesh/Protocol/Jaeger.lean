import Netramesh.Net.Url
import Netramesh.Protocol.Trace

/-!
# The tracer

What the proxy uses of the vendored `jaeger-client-go`: how a span context is
written and read, how it is found in a header, and which context a new span
gets.

A context is written in base 16 throughout, but the flags are read back in base
10. And a context is looked for in the header as Go iterates over it, in any
order and whatever the case of the names; the identifier of a debugging session
or a baggage item is enough for something to be found.
-/

namespace Netramesh.Protocol

open Http Net

/-! ## Span contexts -/

/-- `SpanContext`. The baggage is a list of assignments. -/
structure SpanContext where
  high : UInt64 := 0
  low : UInt64 := 0
  spanID : UInt64 := 0
  parentID : UInt64 := 0
  flags : UInt8 := 0
  baggage : List (Bytes × Bytes) := []
  debugID : Bytes := []
  deriving DecidableEq

namespace SpanContext

/-- `TraceID.IsValid`. -/
def hasTrace (c : SpanContext) : Bool := c.high != 0 || c.low != 0

/-- `SpanContext.IsValid`. -/
def isValid (c : SpanContext) : Bool := c.hasTrace && c.spanID != 0

/-- The trace and the span: what a child takes from its parent. -/
def identity (c : SpanContext) : UInt64 × UInt64 × UInt64 :=
  (c.high, c.low, c.spanID)

/-- The `%016x` verb. -/
def pad16 (n : Nat) : Bytes := List.replicate (16 - (hex n).length) 48 ++ hex n

/-- The trace ID, as `String` writes it. -/
def traceText (c : SpanContext) : Bytes :=
  if c.high = 0 then hex c.low.toNat else hex c.high.toNat ++ pad16 c.low.toNat

/-- `SpanContext.String`. -/
def string (c : SpanContext) : Bytes :=
  c.traceText ++ [58] ++ hex c.spanID.toNat ++ [58] ++ hex c.parentID.toNat ++
    [58] ++ hex c.flags.toNat

end SpanContext

/-- `strconv.ParseUint(s, 16, 64)`. -/
def parseHex64 (s : Bytes) : Option UInt64 :=
  if s = [] then none
  else (readDigits 16 hexVal 0 s).bind fun n =>
    if n < 2 ^ 64 then some (UInt64.ofNat n) else none

/-- `TraceIDFromString`. -/
def traceIDFromString (s : Bytes) : Option (UInt64 × UInt64) :=
  if 32 < s.length then none
  else if 16 < s.length then
    (parseHex64 (s.take (s.length - 16))).bind fun hi =>
      (parseHex64 (s.drop (s.length - 16))).map fun lo => (hi, lo)
  else (parseHex64 s).map fun lo => (0, lo)

/-- `SpanIDFromString`. -/
def spanIDFromString (s : Bytes) : Option UInt64 :=
  if 16 < s.length then none else parseHex64 s

/-- The flags, read as `ParseUint(s, 10, 8)` does. -/
def flagsFromString (s : Bytes) : Option UInt8 :=
  (parseUint s).bind fun n => if n < 2 ^ 8 then some (UInt8.ofNat n) else none

/-- `ContextFromString`. -/
def contextFromString (value : Bytes) : Option SpanContext :=
  match value.splitOn 58 with
  | [trace, span, parent, flags] =>
    (traceIDFromString trace).bind fun (high, low) =>
      (spanIDFromString span).bind fun spanID =>
        (spanIDFromString parent).bind fun parentID =>
          (flagsFromString flags).map fun flags =>
            { high := high, low := low, spanID := spanID,
              parentID := parentID, flags := flags }
  | _ => none

/-! ## Propagation -/

/-- `url.QueryUnescape`. -/
def queryUnescape (s : Bytes) : Option Bytes :=
  unescape .path (s.map fun c => if c = 43 then 32 else c)

/-- `decodeValue` of the HTTP header propagator. -/
def decodeValue (v : Bytes) : Bytes := (queryUnescape v).getD v

/-- The context in the value of a trace header. -/
def decodeContext (v : Bytes) : Option SpanContext :=
  contextFromString (decodeValue v)

/-- `parseCommaSeparatedMap`. -/
def parseCommaSeparatedMap (value : Bytes) : List (Bytes × Bytes) :=
  match queryUnescape value with
  | none => []
  | some value =>
    (value.splitOn 44).filterMap fun pair =>
      match (trimSpace pair).splitOn 61 with
      | [k, v] => some (k, v)
      | _ => none

/-- `JaegerDebugHeader`, `JaegerBaggageHeader` and
`TraceBaggageHeaderPrefix`. -/
def jaegerDebugHeader : Bytes := lit "jaeger-debug-id"
def jaegerBaggageHeader : Bytes := lit "jaeger-baggage"
def traceBaggageHeaderStart : Bytes := lit "uberctx-"

/-- `Extract` looks at a field of this name. -/
def jaegerReads (rawKey : Bytes) : Bool :=
  toLower rawKey == traceContextHeaderName ||
    toLower rawKey == jaegerDebugHeader ||
    toLower rawKey == jaegerBaggageHeader ||
    traceBaggageHeaderStart.isPrefixOf (toLower rawKey)

/-- The handler of `Extract`: what one field adds to what was found; `none` is
an error. A trace context replaces everything but the baggage. -/
def extractField (ctx : SpanContext) (rawKey value : Bytes) :
    Option SpanContext :=
  let key := toLower rawKey
  if key = traceContextHeaderName then
    (decodeContext value).map fun found => { found with baggage := ctx.baggage }
  else if key = jaegerDebugHeader then
    some { ctx with debugID := decodeValue value }
  else if key = jaegerBaggageHeader then
    some { ctx with baggage := ctx.baggage ++ parseCommaSeparatedMap value }
  else if traceBaggageHeaderStart.isPrefixOf key then
    some { ctx with
      baggage := ctx.baggage ++
        [(key.drop traceBaggageHeaderStart.length, decodeValue value)] }
  else some ctx

/-- `ForeachKey` over fields in the order given. -/
def extractFields : SpanContext → List (Bytes × Bytes) → Option SpanContext
  | ctx, [] => some ctx
  | ctx, f :: fs =>
    match extractField ctx f.1 f.2 with
    | none => none
    | some ctx => extractFields ctx fs

/-- `Extract` from a header whose entries come in the order given; `none` is an
error. -/
def extract (entries : List (Bytes × List Bytes)) : Option SpanContext :=
  (extractFields {} (entries.flatMap fun e => e.2.map fun v => (e.1, v))).bind
    fun ctx =>
      if !ctx.hasTrace && ctx.debugID == [] && ctx.baggage == [] then none
      else some ctx

/-! ## The tracer -/

/-- What a tracer decides: the order in which the `n`-th `Extract` finds the
entries of a header, and the numbers and flags of the `n`-th span. -/
structure Jaeger where
  order : Nat → Header → List (Bytes × List Bytes)
  order_perm : ∀ n h, (order n h).Perm h.entries
  randomHigh : Nat → UInt64
  randomID : Nat → UInt64
  sampled : Nat → Option SpanContext → UInt8

/-- The context of the `n`-th span. A parent that is not valid gives it nothing
but its baggage. -/
def Jaeger.newContext (j : Jaeger) (n : Nat) (parent : Option SpanContext) :
    SpanContext :=
  let ctx : SpanContext :=
    match parent.filter SpanContext.isValid with
    | none =>
      { high := j.randomHigh n, low := j.randomID n, spanID := j.randomID n
        flags := j.sampled n parent }
    | some p =>
      { high := p.high, low := p.low, spanID := j.randomID n,
        parentID := p.spanID
        flags := p.flags }
  { ctx with baggage := (parent.map SpanContext.baggage).getD [] }

/-- `opentracing.GlobalTracer()`. -/
def Jaeger.tracer (j : Jaeger) : Tracer SpanContext where
  extract n h := extract (j.order n h)
  newContext := j.newContext
  text := SpanContext.string

end Netramesh.Protocol
