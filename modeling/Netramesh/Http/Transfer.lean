import Netramesh.Http.Message
import Netramesh.Http.Textproto

/-!
# How a message is framed

`readTransfer` decides from the header of a message where its body ends: at a
length, at a zero chunk, at the end of the connection, or at once. The
functions here are pure, but they edit the header they look at, so each gives
back the header as it leaves it.
-/

namespace Netramesh.Http

open Net

/-- `chunked`. -/
def chunked (te : List Bytes) : Bool := te.head? == some (lit "chunked")

/-- `isIdentity`. -/
def isIdentity (te : List Bytes) : Bool := te == [lit "identity"]

/-- `noResponseBodyExpected`. -/
def noResponseBodyExpected (requestMethod : Bytes) : Bool :=
  requestMethod == methodHead

/-- `bodyAllowedForStatus`. -/
def bodyAllowedForStatus (status : Nat) : Bool :=
  !(100 ≤ status && status ≤ 199) && status != 204 && status != 304

/-- `ProtoAtLeast`. -/
def protoAtLeast (major minor m n : Nat) : Bool :=
  decide (m < major) || (major == m && decide (n ≤ minor))

/-- `httpguts.HeaderValuesContainsToken`. -/
def headerValuesContainsToken (values : List Bytes) (token : Bytes) : Bool :=
  values.any fun v => (v.splitOn 44).any fun f => tokenEqual (trimOWS f) token

/-- `shouldClose`, with the header it leaves. -/
def shouldClose (major minor : Nat) (h : Header) (removeCloseHeader : Bool) :
    Bool × Header :=
  if major < 1 then (true, h)
  else
    let conv := h.values (lit "Connection")
    let hasClose := headerValuesContainsToken conv (lit "close")
    if major = 1 ∧ minor = 0 then
      (hasClose || !headerValuesContainsToken conv (lit "keep-alive"), h)
    else
      (hasClose,
        if hasClose && removeCloseHeader then h.del (lit "Connection") else h)

/-- The loop over the listed encodings. -/
def transferEncodings : List Bytes → Except Err (List Bytes)
  | [] => .ok []
  | encoding :: rest =>
    let encoding := toLower (trimSpace encoding)
    if encoding = lit "identity" then .ok []
    else if encoding ≠ lit "chunked" then
      .error (.badString (lit "unsupported transfer encoding") encoding)
    else (transferEncodings rest).map (encoding :: ·)

/-- `fixTransferEncoding`. -/
def fixTransferEncoding (major minor : Nat) (h : Header) :
    Except Err (List Bytes × Header) :=
  if h.has (lit "Transfer-Encoding") then
    let raw := h.values (lit "Transfer-Encoding")
    let h := h.delete (lit "Transfer-Encoding")
    if !protoAtLeast major minor 1 1 then .ok ([], h)
    else
      match transferEncodings ((raw.headD []).splitOn 44) with
      | .error e => .error e
      | .ok te =>
        if 1 < te.length then
          .error (.badString (lit "too many transfer encodings")
            (List.intercalate [44] te))
        else if te ≠ [] then .ok (te, h.delete (lit "Content-Length"))
        else .ok ([], h)
  else .ok ([], h)

/-- `parseContentLength`. -/
def parseContentLength (cl : Bytes) : Except Err Int :=
  let cl := trimSpace cl
  if cl = [] then .ok (-1)
  else
    match parseInt cl with
    | some n => if n < 0 then .error (.badString (lit "bad Content-Length") cl)
        else .ok n
    | none => .error (.badString (lit "bad Content-Length") cl)

/-- The check on repeated `Content-Length` fields: equal ones become one. -/
def dedupContentLength (h : Header) : Except Err Header :=
  match h.values (lit "Content-Length") with
  | first :: second :: rest =>
    if (second :: rest).all fun ct => trimSpace ct = trimSpace first then
      .ok ((h.del (lit "Content-Length")).add (lit "Content-Length")
        (trimSpace first))
    else
      .error (.badValues
        (lit "http: message cannot contain multiple Content-Length headers; got ")
        (first :: second :: rest))
  | _ => .ok h

/-- `fixLength`. -/
def fixLength (isResponse : Bool) (status : Nat) (requestMethod : Bytes)
    (h : Header) (te : List Bytes) : Except Err (Int × Header) :=
  match dedupContentLength h with
  | .error e => .error e
  | .ok h =>
    let contentLens := h.values (lit "Content-Length")
    if noResponseBodyExpected requestMethod then
      if !isResponse && contentLens ≠ [] && contentLens ≠ [lit "0"] then
        .error (.badValues
          (lit "http: method cannot contain a Content-Length; got ") contentLens)
      else .ok (0, h)
    else if status / 100 = 1 ∨ status = 204 ∨ status = 304 then .ok (0, h)
    else if chunked te then .ok (-1, h)
    else
      let cl := match contentLens with | [v] => trimSpace v | _ => []
      if cl ≠ [] then (parseContentLength cl).map fun n => (n, h)
      else
        let h := h.del (lit "Content-Length")
        if !isResponse then .ok (0, h) else .ok (-1, h)

/-- `foreachHeaderElement`, as the list of the elements. -/
def headerElements (v : Bytes) : List Bytes :=
  ((trimBy isASCIISpace v).splitOn 44).filterMap fun f =>
    let f := trimBy isASCIISpace f
    if f = [] then none else some f

/-- A field that may not be announced as a trailer. -/
def badTrailerKey (k : Bytes) : Bool :=
  [lit "Transfer-Encoding", lit "Trailer", lit "Content-Length"].elem k

/-- `fixTrailer`. -/
def fixTrailer (h : Header) (te : List Bytes) :
    Except Err (Option Header × Header) :=
  if h.has (lit "Trailer") then
    let keys :=
      ((h.values (lit "Trailer")).flatMap headerElements).map canonicalKey
    let h := h.del (lit "Trailer")
    match keys.find? badTrailerKey with
    | some key => .error (.badString (lit "bad trailer key") key)
    | none =>
      if keys = [] then .ok (none, h)
      else if !chunked te then
        .error (.fixed (lit "trailer header without chunked transfer encoding"))
      else .ok (some (keys.foldl (fun t k => t.put k []) Header.empty), h)
  else .ok (none, h)

/-- What `readTransfer` sets on a message. -/
structure Transfer where
  header : Header
  body : Option Body
  contentLength : Int
  transferEncoding : List Bytes
  close : Bool
  trailer : Option Header

/-- The body reader `readTransfer` prepares. -/
def transferBody (status : Nat) (requestMethod : Bytes) (te : List Bytes)
    (realLength : Int) (close : Bool) : Option Body :=
  if chunked te then
    if noResponseBodyExpected requestMethod || !bodyAllowedForStatus status then
      none
    else some { src := .chunked {}, hdr := true, closing := close }
  else if realLength = 0 then none
  else if 0 < realLength then
    some { src := .limited realLength.toNat, hdr := false, closing := close }
  else if close then some { src := .wire, hdr := false, closing := close }
  else none

/-- `readTransfer`. `close` is what the caller already knows about closing; a
response's is found out here. -/
def readTransfer (isResponse : Bool) (status : Nat) (requestMethod : Bytes)
    (major minor : Nat) (close : Bool) (h : Header) : Except Err Transfer :=
  let (close, h) := if isResponse then shouldClose major minor h true
    else (close, h)
  let (major, minor) := if major = 0 ∧ minor = 0 then (1, 1) else (major, minor)
  match fixTransferEncoding major minor h with
  | .error e => .error e
  | .ok (te, h) =>
    match fixLength isResponse status requestMethod h te with
    | .error e => .error e
    | .ok (realLength, h) =>
      match (if isResponse && requestMethod == methodHead then
          parseContentLength (h.first (lit "Content-Length"))
            else .ok realLength) with
      | .error e => .error e
      | .ok contentLength =>
        match fixTrailer h te with
        | .error e => .error e
        | .ok (trailer, h) =>
          let close := close ||
            (isResponse && realLength == -1 && !chunked te &&
              bodyAllowedForStatus status)
          .ok { header := h
                body := transferBody status requestMethod te realLength close
                contentLength := contentLength
                transferEncoding := te
                close := close
                trailer := trailer }

/-! ## The way through `readTransfer` -/

/-- The steps of a `readTransfer` that succeeded: what each of the functions
above found, and the header it left for the next. -/
structure TransferSteps (isResponse : Bool) (status : Nat)
    (requestMethod : Bytes) (major minor : Nat) (close : Bool) (h : Header)
    (t : Transfer) where
  close₀ : Bool
  h₀ : Header
  te : List Bytes
  h₁ : Header
  realLength : Int
  h₂ : Header
  trailer : Option Header
  h₃ : Header
  closes : (if isResponse then shouldClose major minor h true else (close, h)) =
    (close₀, h₀)
  encodings : fixTransferEncoding (if major = 0 ∧ minor = 0 then 1 else major)
    (if major = 0 ∧ minor = 0 then 1 else minor) h₀ = .ok (te, h₁)
  length : fixLength isResponse status requestMethod h₁ te =
    .ok (realLength, h₂)
  announced : (if isResponse && requestMethod == methodHead then
    parseContentLength (h₂.first (lit "Content-Length")) else .ok realLength) =
      .ok t.contentLength
  trailers : fixTrailer h₂ te = .ok (trailer, h₃)
  eq : t = { header := h₃
             body := transferBody status requestMethod te realLength t.close
             contentLength := t.contentLength
             transferEncoding := te
             close :=
               close₀ || (isResponse && realLength == -1 && !chunked te &&
               bodyAllowedForStatus status)
             trailer := trailer }

theorem readTransfer_eq_ok {isResponse : Bool} {status : Nat}
    {requestMethod : Bytes} {major minor : Nat} {close : Bool} {h : Header}
    {t : Transfer}
    (ht : readTransfer isResponse status requestMethod major minor close h =
      .ok t) :
    Nonempty (TransferSteps isResponse status requestMethod major minor close h
      t) := by
  unfold readTransfer at ht
  cases hclose : (if isResponse then shouldClose major minor h true
    else (close, h)) with
  | mk close₀ h₀ =>
    rw [hclose] at ht
    dsimp only at ht
    split at ht
    · cases ht
    · next te h₁ hte =>
        split at ht
        · cases ht
        · next realLength h₂ hlen =>
            split at ht
            · cases ht
            · next contentLength hcl =>
                split at ht
                · cases ht
                · next trailer h₃ htr =>
                    cases ht
                    refine ⟨⟨close₀, h₀, te, h₁, realLength, h₂, trailer, h₃,
                      hclose, ?_, hlen, hcl, htr, rfl⟩⟩
                    rw [← hte]
                    split <;> rfl

end Netramesh.Http
