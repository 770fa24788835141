import Netramesh.Lib.Text
import Netramesh.Proofs.Drain

/-!
# What was received

The parsers do not hand out the head of a message as it came. `Host` becomes a
field of its own, the fields that frame the message are taken out, and of
several `Transfer-Encoding` fields only the first is looked at, up to an
`identity`. What is said about a message is said about the head that was sent,
so this file keeps that head: the line and the fields as they stand before the
parser has drawn its conclusions, and where the body ends by those fields.

For a message whose fields leave no doubt the two agree
(`requestFraming_received`, `responseFraming_received`). A message that names
`identity` and `chunked` both is where they do not.
-/

namespace Netramesh.Proofs

open Http Protocol Net Lib

/-! ## The parts of a message -/

theorem liftExcept_eq_ok {α : Type} {e : Except Err α} {a : α}
    {rd rd' : Reader Tee}
    (h : (liftExcept e : Parser Tee Err α) rd = (.ok a, rd')) :
    e = .ok a ∧ rd = rd' := by
  cases e with
  | error e => cases h
  | ok b =>
    cases h
    exact ⟨rfl, rfl⟩

theorem mapError_eq_ok {α : Type} {f : Err → Err} {p : Parser Tee Err α} {a : α}
    {rd rd' : Reader Tee} (h : Parser.mapError f p rd = (.ok a, rd')) :
    p rd = (.ok a, rd') := by
  rw [Parser.mapError] at h
  split at h
  · next heq =>
      cases h
      exact heq
  · cases h

/-- The parts of a request that was read. -/
theorem readRequest_parts {rd rd' : Reader Tee} {r : Request}
    (h : readRequest rd = (.ok r, rd')) :
    ∃ raw l hdr rd₁, (readLineSlice : Parser Tee Err Bytes) rd =
      (.ok raw, rd₁) ∧
      requestLine raw = .ok l ∧ (readMIMEHeader : Parser Tee Err Header) rd₁ =
        (.ok hdr, rd') ∧
      finishRequest l hdr = .ok r := by
  obtain ⟨raw, rd₁, hraw, h⟩ := Parser.bind_eq_ok h
  obtain ⟨l, rd₂, hl, h⟩ := Parser.bind_eq_ok (mapError_eq_ok h)
  obtain ⟨hline, rfl⟩ := liftExcept_eq_ok hl
  obtain ⟨hdr, rd₃, hhdr, h⟩ := Parser.bind_eq_ok h
  obtain ⟨hfin, rfl⟩ := liftExcept_eq_ok h
  exact ⟨raw, l, hdr, rd₁, hraw, hline, hhdr, hfin⟩

/-- The parts of a response that was read. -/
theorem readResponse_parts {method : Option Bytes} {rd rd' : Reader Tee}
    {r : Response} (h : readResponse method rd = (.ok r, rd')) :
    ∃ raw l hdr rd₁, (readLineSlice : Parser Tee Err Bytes) rd =
      (.ok raw, rd₁) ∧
      statusLine raw = .ok l ∧ (readMIMEHeader : Parser Tee Err Header) rd₁ =
        (.ok hdr, rd') ∧
      finishResponse method l hdr = .ok r := by
  obtain ⟨raw, rd₁, hraw, h⟩ := Parser.bind_eq_ok (mapError_eq_ok h)
  obtain ⟨l, rd₂, hl, h⟩ := Parser.bind_eq_ok h
  obtain ⟨hline, rfl⟩ := liftExcept_eq_ok hl
  obtain ⟨hdr, rd₃, hhdr, h⟩ := Parser.bind_eq_ok h
  obtain ⟨hfin, rfl⟩ := liftExcept_eq_ok h
  exact ⟨raw, l, hdr, rd₁, hraw, hline, hhdr, hfin⟩

/-- The head of the request the coming round reads: its first line, as it is and
taken apart, and its fields. -/
def RequestReceived (rd : Reader Tee) (raw : Bytes) (l : RequestLine)
    (h : Header) : Prop :=
  ∃ rd₁ rd₂, readLineSlice (onTmp TempWriter.start rd) = (.ok raw, rd₁) ∧
    requestLine raw = .ok l ∧ readMIMEHeader rd₁ = (.ok h, rd₂)

/-- The head of the response the coming round reads. -/
def ResponseReceived (rd : Reader Tee) (raw : Bytes) (l : StatusLine)
    (h : Header) : Prop :=
  ∃ rd₁ rd₂, readLineSlice (onTmp TempWriter.start rd) = (.ok raw, rd₁) ∧
    statusLine raw = .ok l ∧ readMIMEHeader rd₁ = (.ok h, rd₂)

/-- The head that is received, where it can be computed. -/
theorem received_known {rd : Reader Tee} {raw : Bytes} {l : RequestLine}
    {h : Header} (raw₀ : Bytes) (entries : List (Bytes × List Bytes))
    (hr : RequestReceived rd raw l h)
    (hline : (readLineSlice (onTmp TempWriter.start rd) :
      Except Err Bytes × Reader Tee).1.toOption = some raw₀)
    (hfields : (readMIMEHeader (readLineSlice (onTmp TempWriter.start rd)).2 :
      Except Err Header × Reader Tee).1.toOption.map Header.entries =
      some entries) :
    raw = raw₀ ∧ h.entries = entries := by
  obtain ⟨rd₁, rd₂, hraw, _, hhdr⟩ := hr
  rw [hraw] at hline hfields
  rw [hhdr] at hfields
  exact ⟨Option.some.inj hline, Option.some.inj hfields⟩

theorem received_of_read {rd rd' : Reader Tee} {r : Request}
    (h : readRequest (onTmp TempWriter.start rd) = (.ok r, rd')) :
    ∃ raw l hdr, RequestReceived rd raw l hdr := by
  obtain ⟨raw, l, hdr, rd₁, hraw, hline, hhdr, _⟩ := readRequest_parts h
  exact ⟨raw, l, hdr, rd₁, rd', hraw, hline, hhdr⟩

/-- The fields of a request that was read are those that were received. -/
theorem RequestReceived.finishes {rd rd' : Reader Tee} {raw : Bytes}
    {l : RequestLine} {hdr : Header} {r : Request}
    (h : RequestReceived rd raw l hdr)
    (hread : readRequest (onTmp TempWriter.start rd) = (.ok r, rd')) :
    finishRequest l hdr = .ok r := by
  obtain ⟨rd₁, rd₂, hraw, hline, hhdr⟩ := h
  obtain ⟨_, _, _, _, hraw', hline', hhdr', hfin⟩ := readRequest_parts hread
  rw [hraw] at hraw'
  cases hraw'
  rw [hline] at hline'
  cases hline'
  rw [hhdr] at hhdr'
  cases hhdr'
  exact hfin

/-- The head of a request, and no more. -/
def requestHead : Parser Tee Err (RequestLine × Header) := do
  let s ← readLineSlice
  let l ← liftExcept (requestLine s)
  let h ← readMIMEHeader
  pure (l, h)

/-- The head of a response. -/
def responseHead : Parser Tee Err (StatusLine × Header) := do
  let s ← readLineSlice
  let l ← liftExcept (statusLine s)
  let h ← readMIMEHeader
  pure (l, h)

theorem lawful_requestHead : Lawful requestHead := by
  refine lawful_readLineSlice.bind fun s =>
    (lawful_liftExcept _).bind fun l => ?_
  exact lawful_readMIMEHeader.bind fun h => .pure _

theorem lawful_responseHead : Lawful responseHead := by
  refine lawful_readLineSlice.bind fun s =>
    (lawful_liftExcept _).bind fun l => ?_
  exact lawful_readMIMEHeader.bind fun h => .pure _

theorem requestHead_of_read {rd rd' : Reader Tee} {r : Request}
    (h : readRequest rd = (.ok r, rd')) :
    ∃ l hdr, requestHead rd = (.ok (l, hdr), rd') ∧
      finishRequest l hdr = .ok r := by
  obtain ⟨raw, l, hdr, rd₁, hraw, hline, hhdr, hfin⟩ := readRequest_parts h
  refine ⟨l, hdr, ?_, hfin⟩
  rw [requestHead, Parser.bind_ok hraw, hline]
  exact Parser.bind_ok hhdr

theorem responseHead_of_read {method : Option Bytes} {rd rd' : Reader Tee}
    {r : Response} (h : readResponse method rd = (.ok r, rd')) :
    ∃ l hdr, responseHead rd = (.ok (l, hdr), rd') ∧
      finishResponse method l hdr = .ok r := by
  obtain ⟨raw, l, hdr, rd₁, hraw, hline, hhdr, hfin⟩ := readResponse_parts h
  refine ⟨l, hdr, ?_, hfin⟩
  rw [responseHead, Parser.bind_ok hraw, hline]
  exact Parser.bind_ok hhdr

/-- A head that can be read is the head that is received. -/
theorem RequestReceived.of_head {rd rd' : Reader Tee} {l : RequestLine}
    {h : Header}
    (hhead : requestHead (onTmp TempWriter.start rd) = (.ok (l, h), rd')) :
    ∃ raw, RequestReceived rd raw l h := by
  obtain ⟨raw, rd₁, hraw, hhead⟩ := Parser.bind_eq_ok hhead
  obtain ⟨l₁, rd₂, hl, hhead⟩ := Parser.bind_eq_ok hhead
  obtain ⟨hline, rfl⟩ := liftExcept_eq_ok hl
  obtain ⟨h₁, rd₃, hhdr, hhead⟩ := Parser.bind_eq_ok hhead
  cases hhead
  exact ⟨raw, rd₁, rd', hraw, hline, hhdr⟩

theorem ResponseReceived.of_head {rd rd' : Reader Tee} {l : StatusLine}
    {h : Header}
    (hhead : responseHead (onTmp TempWriter.start rd) = (.ok (l, h), rd')) :
    ∃ raw, ResponseReceived rd raw l h := by
  obtain ⟨raw, rd₁, hraw, hhead⟩ := Parser.bind_eq_ok hhead
  obtain ⟨l₁, rd₂, hl, hhead⟩ := Parser.bind_eq_ok hhead
  obtain ⟨hline, rfl⟩ := liftExcept_eq_ok hl
  obtain ⟨h₁, rd₃, hhdr, hhead⟩ := Parser.bind_eq_ok hhead
  cases hhead
  exact ⟨raw, rd₁, rd', hraw, hline, hhdr⟩

/-- The fields of a response that was read are those that were received. -/
theorem ResponseReceived.finishes {rd rd' : Reader Tee} {raw : Bytes}
    {l : StatusLine} {hdr : Header} {r : Response}
    (h : ResponseReceived rd raw l hdr)
    (hread : readResponse none (onTmp TempWriter.start rd) = (.ok r, rd')) :
    finishResponse none l hdr = .ok r := by
  obtain ⟨rd₁, rd₂, hraw, hline, hhdr⟩ := h
  obtain ⟨_, _, _, _, hraw', hline', hhdr', hfin⟩ := readResponse_parts hread
  rw [hraw] at hraw'
  cases hraw'
  rw [hline] at hline'
  cases hline'
  rw [hhdr] at hhdr'
  cases hhdr'
  exact hfin

/-! ## Where the body ends

By the fields as they came, and by what the parser makes of them. -/

/-- How the end of a body is announced. -/
inductive Framing
  | length (n : Nat)
  | chunked
  | close
  deriving DecidableEq

/-- As the parser has it. -/
def requestFraming (r : Request) : Framing :=
  if chunked r.transferEncoding then .chunked else .length r.contentLength.toNat

/-- An answer to a HEAD ends with its header section, and so does a response
whose status allows no body. -/
def responseFraming (answersHead : Bool) (r : Response) : Framing :=
  if answersHead || !bodyAllowedForStatus r.statusCode then .length 0
  else if chunked r.transferEncoding then .chunked
  else if r.contentLength = -1 then .close
  else .length r.contentLength.toNat

/-- An element of a list of encodings, ignoring case and white space. -/
def encodingIs (f name : Bytes) : Bool := toLower (trimSpace f) == name

/-- Some `Transfer-Encoding` field lists `chunked`. -/
def listsChunked (h : Header) : Bool :=
  (h.values (lit "Transfer-Encoding")).any fun v =>
    (v.splitOn 44).any (encodingIs · (lit "chunked"))

/-- The first encoding of all is `identity`. -/
def identityFirst (h : Header) : Bool :=
  encodingIs (((h.first (lit "Transfer-Encoding")).splitOn 44).headD [])
    (lit "identity")

/-- A version that has transfer encodings: HTTP/1.0 has none, and a version
`0.0` is taken for one that was not given. -/
def hasEncodings (major minor : Nat) : Bool :=
  protoAtLeast major minor 1 1 || (major == 0 && minor == 0)

/-- The length that is announced, if one is. -/
def announcedLength (h : Header) : Option Nat :=
  match parseContentLength (h.first (lit "Content-Length")) with
  | .ok (.ofNat n) => some n
  | _ => none

/-- How the end of a request with these fields is announced. -/
def receivedRequest (l : RequestLine) (h : Header) : Framing :=
  if hasEncodings l.major l.minor && listsChunked h then .chunked
  else .length ((announcedLength h).getD 0)

/-- How the end of a response with these fields is announced. -/
def receivedResponse (answersHead : Bool) (l : StatusLine) (h : Header) :
    Framing :=
  if answersHead || !bodyAllowedForStatus l.statusCode then .length 0
  else if hasEncodings l.major l.minor && listsChunked h then .chunked
  else (announcedLength h).elim .close .length

/-- The fields do not name `identity` before `chunked`. -/
def Unmixed (h : Header) : Prop :=
  listsChunked h = true → identityFirst h = false

instance (h : Header) : Decidable (Unmixed h) :=
  inferInstanceAs (Decidable (_ → _))

/-! ### The encodings -/

theorem transferEncodings_cases {f : Bytes} {fs te : List Bytes}
    (h : transferEncodings (f :: fs) = .ok te) :
    (te = [] ∧ encodingIs f (lit "identity") = true) ∨
      (chunked te = true ∧ encodingIs f (lit "chunked") = true) := by
  unfold transferEncodings at h
  dsimp only at h
  split at h
  · next hid =>
      cases h
      exact .inl ⟨rfl, beq_iff_eq.mpr hid⟩
  · split at h
    · cases h
    · next hch =>
        rw [ne_eq, Decidable.not_not] at hch
        cases hrest : transferEncodings fs with
        | error e =>
          rw [hrest] at h
          cases h
        | ok te' =>
          rw [hrest, hch] at h
          cases h
          exact .inr ⟨rfl, beq_iff_eq.mpr hch⟩

theorem hasEncodings_eq (major minor : Nat) :
    protoAtLeast (if major = 0 ∧ minor = 0 then 1 else major)
      (if major = 0 ∧ minor = 0 then 1 else minor) 1 1 =
        hasEncodings major minor := by
  unfold hasEncodings
  by_cases h : major = 0 ∧ minor = 0
  · obtain ⟨rfl, rfl⟩ := h
    rfl
  · have hno : (major == 0 && minor == 0) = false := by
      rw [Bool.eq_false_iff]
      intro hh
      rw [Bool.and_eq_true, beq_iff_eq, beq_iff_eq] at hh
      exact h hh
    rw [if_neg h, if_neg h, hno, Bool.or_false]

/-- What `fixTransferEncoding` finds, and what it leaves of the length. -/
theorem fixTransferEncoding_received {major minor : Nat} {h h' : Header}
    {te : List Bytes}
    (hok : fixTransferEncoding (if major = 0 ∧ minor = 0 then 1 else major)
      (if major = 0 ∧ minor = 0 then 1 else minor) h = .ok (te, h')) :
    (chunked te = true ∧ hasEncodings major minor = true ∧
      listsChunked h = true ∧
        identityFirst h = false ∧ h'.values (lit "Content-Length") = []) ∨
      (te = [] ∧ (hasEncodings major minor = true → listsChunked h = true →
          identityFirst h = true) ∧
        h'.values (lit "Content-Length") =
          h.values (lit "Content-Length")) := by
  unfold fixTransferEncoding at hok
  rw [hasEncodings_eq] at hok
  split at hok
  · next hhas =>
      dsimp only at hok
      have hkept : (h.delete (lit "Transfer-Encoding")).values
        (lit "Content-Length") =
          h.values (lit "Content-Length") :=
            Header.values_delete_of_ne (by decide)
      split at hok
      · next hold =>
          cases hok
          rw [Bool.not_eq_true'] at hold
          exact .inr ⟨rfl, fun hv => absurd hv (by rw [hold]; decide), hkept⟩
      · next hnew =>
          rw [Bool.not_eq_true', Bool.not_eq_false] at hnew
          split at hok
          · cases hok
          · next te' hte =>
              obtain ⟨f, fs, hsplit⟩ : ∃ f fs,
                  ((h.values (lit "Transfer-Encoding")).headD []).splitOn 44 =
                    f :: fs :=
                List.exists_cons_of_ne_nil (List.splitOn_ne_nil _ _)
              have hfirst : identityFirst h =
                  encodingIs f (lit "identity") := by
                rw [identityFirst, Header.first, hsplit]
                rfl
              rw [hsplit] at hte
              split at hok
              · cases hok
              · split at hok
                · next hne =>
                    cases hok
                    rcases transferEncodings_cases hte with ⟨hnil, _⟩
                      | ⟨hch, hf⟩
                    · exact absurd hnil hne
                    · refine .inl ⟨hch, hnew, ?_, ?_,
                        Header.values_delete_self _ _⟩
                      · rw [listsChunked]
                        cases hv : h.values (lit "Transfer-Encoding") with
                        | nil =>
                          rw [hv] at hsplit
                          cases hsplit
                          exact absurd hf (by decide)
                        | cons v vs =>
                          rw [hv, List.headD_cons] at hsplit
                          rw [List.any_cons, hsplit, List.any_cons, hf]
                          rfl
                      · rw [hfirst, encodingIs, beq_iff_eq.mp hf]
                        decide
                · next hnil =>
                    cases hok
                    rcases transferEncodings_cases hte with ⟨_, hid⟩ | ⟨hch, _⟩
                    · exact .inr ⟨rfl, fun _ _ => hfirst.trans hid, hkept⟩
                    · rw [ne_eq, Decidable.not_not] at hnil
                      rw [hnil] at hch
                      cases hch
  · next hhas =>
      cases hok
      refine .inr ⟨rfl, fun _ hl => ?_, rfl⟩
      rw [Bool.not_eq_true] at hhas
      rw [listsChunked, Header.values_eq_nil_of_not_has hhas] at hl
      cases hl

/-! ### The length -/

/-- Of several equal lengths one is left. -/
theorem dedupContentLength_eq {h h' : Header}
    (hok : dedupContentLength h = .ok h') :
    h'.values (lit "Content-Length") =
      if 1 < (h.values (lit "Content-Length")).length then
        [trimSpace (h.first (lit "Content-Length"))]
      else h.values (lit "Content-Length") := by
  unfold dedupContentLength at hok
  split at hok
  · next first second rest hv =>
      split at hok
      · cases hok
        rw [hv, if_pos (by simp), Header.first, hv, Header.add, Header.del,
          show canonicalKey
          (lit "Content-Length") = lit "Content-Length" from by
            decide, Header.values_put_self,
          Header.values_delete_self]
        rfl
      · cases hok
  · next hshort =>
      cases hok
      rw [if_neg]
      intro hlong
      cases hv : h.values (lit "Content-Length") with
      | nil => exact absurd hlong (by rw [hv]; decide)
      | cons v vs =>
        cases vs with
        | nil => exact absurd hlong (by rw [hv]; simp)
        | cons v' vs => exact absurd hv (hshort v v' vs)

/-- Whatever is left, it is the first of them. -/
theorem dedupContentLength_values {h h' : Header}
    (hok : dedupContentLength h = .ok h') :
    (h'.values (lit "Content-Length") = [] ∧
      h.first (lit "Content-Length") = []) ∨
      ∃ v, h'.values (lit "Content-Length") = [v] ∧
        trimSpace v = trimSpace (h.first (lit "Content-Length")) := by
  rw [dedupContentLength_eq hok]
  split
  · exact .inr ⟨_, rfl, trimSpace_idem _⟩
  · next hshort =>
      rw [Header.first]
      match h.values (lit "Content-Length"), hshort with
      | [], _ => exact .inl ⟨rfl, rfl⟩
      | [v], _ => exact .inr ⟨v, rfl, rfl⟩
      | _ :: _ :: _, hshort => exact absurd (by simp) hshort

theorem parseContentLength_trim {v v' : Bytes}
    (h : trimSpace v = trimSpace v') :
    parseContentLength v = parseContentLength v' := by
  rw [parseContentLength, parseContentLength, h]

theorem announcedLength_nil {h : Header}
    (hnil : trimSpace (h.first (lit "Content-Length")) = []) :
    announcedLength h = none := by
  rw [announcedLength, parseContentLength, hnil]
  rfl

/-- A length that can be read is one. -/
theorem parseContentLength_ok {v : Bytes} {n : Int} (hv : trimSpace v ≠ [])
    (hok : parseContentLength v = .ok n) : ∃ m : Nat, n = m := by
  unfold parseContentLength at hok
  dsimp only at hok
  rw [if_neg hv] at hok
  split at hok
  · split at hok
    · cases hok
    · cases hok
      exact ⟨_, (Int.toNat_of_nonneg (by omega)).symm⟩
  · cases hok

theorem announcedLength_ok {h : Header} {n : Nat}
    (hok : parseContentLength (h.first (lit "Content-Length")) = .ok (n : Int))
    :
    announcedLength h = some n := by
  rw [announcedLength, hok]

/-- What `fixLength` makes of the length of a message that is not chunked and
may have a body. -/
theorem fixLength_received {isResponse : Bool} {status : Nat} {method : Bytes}
    {h h' : Header} {te : List Bytes} {n : Int} (hte : chunked te = false)
    (hstatus : bodyAllowedForStatus status = true)
    (hmethod : isResponse = true → noResponseBodyExpected method = false)
    (hok : fixLength isResponse status method h te = .ok (n, h')) :
    (announcedLength h = some n.toNat ∧ 0 ≤ n ∧
      h'.values (lit "Content-Length") ≠ []) ∨
      announcedLength h = none ∧ n = if isResponse then -1 else 0 := by
  have hno : ¬ (status / 100 = 1 ∨ status = 204 ∨ status = 304) := by
    simp only [bodyAllowedForStatus, Bool.and_eq_true, Bool.not_eq_true',
      bne_iff_ne, decide_eq_false_iff_not, Bool.and_eq_false_iff] at hstatus
    omega
  unfold fixLength at hok
  split at hok
  · cases hok
  · next h₁ hdedup =>
      have hlens := dedupContentLength_values hdedup
      dsimp only at hok
      rw [if_neg hno, hte] at hok
      split at hok
      · next hhead =>
          obtain rfl : isResponse = false := by
            rw [Bool.eq_false_iff]
            intro hr
            rw [hmethod hr] at hhead
            cases hhead
          split at hok
          · cases hok
          · next hbad =>
              cases hok
              -- a HEAD announces nothing, or a length of zero
              rcases hlens with ⟨_, hnil⟩ | ⟨v, hv, htrim⟩
              · exact .inr ⟨announcedLength_nil (by rw [hnil]; rfl), rfl⟩
              · obtain rfl : v = lit "0" := by
                  rw [hv] at hbad
                  by_contra hne
                  exact hbad (by simp [hne])
                refine .inl ⟨announcedLength_ok ?_, le_rfl, by rw [hv]; decide⟩
                rw [← parseContentLength_trim htrim]
                rfl
      · rw [if_neg (by decide)] at hok
        have hcl : ∀ {cl : Bytes}, cl =
          trimSpace (h.first (lit "Content-Length")) →
            (cl ≠ [] → h₁.values (lit "Content-Length") ≠ []) →
            (if cl ≠ [] then (parseContentLength cl).map fun n => (n, h₁)
              else if !isResponse then .ok (0, h₁.del (lit "Content-Length"))
                else .ok (-1, h₁.del (lit "Content-Length"))) = .ok (n, h') →
            (announcedLength h = some n.toNat ∧ 0 ≤ n ∧
                h'.values (lit "Content-Length") ≠ []) ∨
              announcedLength h = none ∧ n = if isResponse then -1 else 0 := by
          rintro cl rfl hkept hok
          split at hok
          · next hne =>
              rw [parseContentLength_trim (trimSpace_idem _)] at hok
              cases hp : parseContentLength
                (h.first (lit "Content-Length")) with
              | error e =>
                rw [hp] at hok
                cases hok
              | ok m =>
                rw [hp] at hok
                cases hok
                obtain ⟨k, rfl⟩ := parseContentLength_ok hne hp
                exact .inl ⟨announcedLength_ok hp, Int.natCast_nonneg k,
                  hkept hne⟩
          · next hnil =>
              rw [ne_eq, Decidable.not_not] at hnil
              refine .inr ⟨announcedLength_nil hnil, ?_⟩
              cases isResponse <;> cases hok <;> rfl
        rcases hlens with ⟨hv, hnil⟩ | ⟨v, hv, htrim⟩
        · rw [hv] at hok
          exact hcl (by rw [hnil]; rfl) (fun hne => absurd rfl hne) hok
        · rw [hv] at hok
          exact hcl htrim (fun _ => by rw [hv]; exact List.cons_ne_nil _ _) hok

/-! ### Both -/

theorem fixPragma_lookup {h : Header} {k : Bytes}
    (hk : k ≠ lit "Cache-Control") :
    (fixPragmaCacheControl h).entries.lookup k = h.entries.lookup k := by
  unfold fixPragmaCacheControl
  split
  · exact Header.lookup_put_of_ne hk
  · rfl

theorem shouldClose_lookup {major minor : Nat} {h : Header} {remove : Bool}
    {k : Bytes} (hk : k ≠ lit "Connection") :
    (shouldClose major minor h remove).2.entries.lookup k =
      h.entries.lookup k := by
  unfold shouldClose
  split
  · rfl
  · dsimp only
    split
    · rfl
    · split
      · exact Header.lookup_delete_of_ne hk
      · rfl

theorem fixTrailer_values {h h' : Header} {te : List Bytes}
    {trailer : Option Header} (hok : fixTrailer h te = .ok (trailer, h'))
    {k : Bytes} (hk : k ≠ lit "Trailer") :
    h'.values k = h.values k := by
  have hdel : (h.del (lit "Trailer")).values k = h.values k :=
    Header.values_delete_of_ne hk
  unfold fixTrailer at hok
  split at hok
  · dsimp only at hok
    split at hok
    · cases hok
    · split at hok
      · cases hok
        exact hdel
      · split at hok
        · cases hok
        · cases hok
          exact hdel
  · cases hok
    rfl

section Congr

variable {h h' : Header}

theorem listsChunked_congr
    (hv : h'.values (lit "Transfer-Encoding") =
      h.values (lit "Transfer-Encoding")) :
    listsChunked h' = listsChunked h ∧ identityFirst h' = identityFirst h := by
  rw [listsChunked, listsChunked, identityFirst, identityFirst, Header.first,
    Header.first, hv]
  exact ⟨rfl, rfl⟩

theorem announcedLength_congr
    (hv : h'.values (lit "Content-Length") = h.values (lit "Content-Length")) :
    announcedLength h' = announcedLength h := by
  rw [announcedLength, announcedLength, Header.first, Header.first, hv]

end Congr

/-- What `readTransfer` says of the framing of a message that may have a body,
against the fields it was given. -/
theorem readTransfer_received {isResponse close : Bool}
    {status major minor : Nat} {method : Bytes} {h : Header} {t : Transfer}
    (hmix : Unmixed h) (hstatus : bodyAllowedForStatus status = true)
    (hmethod : isResponse = true → noResponseBodyExpected method = false)
    (ht : readTransfer isResponse status method major minor close h = .ok t) :
    (chunked t.transferEncoding = true ∧
      (hasEncodings major minor && listsChunked h) = true) ∨
      (chunked t.transferEncoding = false ∧
        (hasEncodings major minor && listsChunked h) = false ∧
        ((announcedLength h = some t.contentLength.toNat ∧ 0 ≤ t.contentLength ∧
            t.header.values (lit "Content-Length") ≠ []) ∨
          announcedLength h = none ∧ t.contentLength =
            if isResponse then -1 else 0)) := by
  obtain ⟨st⟩ := readTransfer_eq_ok ht
  have hlook : ∀ {k : Bytes}, k ≠ lit "Connection" →
      st.h₀.values k = h.values k := by
    intro k hk
    have hclosed : _ = st.h₀ := congrArg Prod.snd st.closes
    rw [Header.values, Header.values, ← hclosed]
    cases isResponse with
    | true => exact congrArg (Option.getD · []) (shouldClose_lookup hk)
    | false => rfl
  obtain ⟨hlist, hid⟩ := listsChunked_congr
    (hlook (k := lit "Transfer-Encoding") (by decide))
  have hte : t.transferEncoding = st.te :=
    congrArg Transfer.transferEncoding st.eq
  have hcl : t.contentLength = st.realLength := by
    have := st.announced
    rw [if_neg] at this
    · exact (Except.ok.inj this).symm
    · intro hhead
      rw [Bool.and_eq_true] at hhead
      rw [noResponseBodyExpected, hhead.2] at hmethod
      exact absurd (hmethod hhead.1) (by decide)
  have hfields := fixTransferEncoding_received st.encodings
  rw [hlist, hid] at hfields
  rw [hte, hcl, Bool.and_eq_true, Bool.and_eq_false_iff]
  rcases hfields with ⟨hch, hversion, hlists, _, _⟩ | ⟨hnil, hmixed, hkept⟩
  · exact .inl ⟨hch, hversion, hlists⟩
  · have hnot : chunked st.te = false := by
      rw [hnil]
      rfl
    refine .inr ⟨hnot, ?_, ?_⟩
    · by_cases hversion : hasEncodings major minor = true
      · refine .inr (Bool.eq_false_iff.mpr fun hlists => ?_)
        rw [hmix hlists] at hmixed
        exact absurd (hmixed hversion hlists) (by decide)
      · exact .inl (Bool.eq_false_iff.mpr hversion)
    · have hann : announcedLength st.h₁ = announcedLength h :=
        announcedLength_congr (hkept.trans (hlook (by decide)))
      have hheader : t.header = st.h₃ := congrArg Transfer.header st.eq
      rw [hheader, fixTrailer_values st.trailers (by decide), ← hann]
      exact fixLength_received hnot hstatus hmethod st.length

/-- The parser sees the end of a request where its fields say. -/
theorem requestFraming_received {l : RequestLine} {h : Header} {r : Request}
    (hmix : Unmixed h) (hr : finishRequest l h = .ok r) :
    requestFraming r = receivedRequest l h := by
  unfold finishRequest at hr
  dsimp only at hr
  split at hr
  · cases hr
  · next t ht =>
      have hlook : ∀ {k : Bytes}, k ≠ lit "Connection" →
        k ≠ lit "Cache-Control" →
          k ≠ lit "Host" → (shouldClose l.major l.minor
            (fixPragmaCacheControl (h.delete (lit "Host"))) false).2.values k =
              h.values k := by
        intro k hc hp hh
        rw [Header.values, Header.values, shouldClose_lookup hc,
          fixPragma_lookup hp, Header.lookup_delete_of_ne hh]
      obtain ⟨hlist, hid⟩ := listsChunked_congr
        (hlook (k := lit "Transfer-Encoding")
          (by decide) (by decide) (by decide))
      have hann := announcedLength_congr
        (hlook (k := lit "Content-Length") (by decide) (by decide) (by decide))
      have hreceived := readTransfer_received
        (by rw [Unmixed, hlist, hid]; exact hmix)
        (by decide) (fun h => absurd h (by decide)) ht
      rw [hlist, hann] at hreceived
      cases hr
      unfold requestFraming receivedRequest
      dsimp only
      rcases hreceived with ⟨hch, hlists⟩ | ⟨hch, hlists, hlen⟩
      · rw [if_pos hch, if_pos hlists]
      · have hno : ¬ (hasEncodings l.major l.minor && listsChunked h) =
            true := by
          rw [hlists]
          decide
        rw [if_neg (by rw [hch]; decide), if_neg hno]
        rcases hlen with ⟨hsome, _, hkept⟩ | ⟨hnone, hzero⟩
        · -- the preface of HTTP/2 has no fields, and so no length
          have hh2 : isH2Upgrade l t.header = false := by
            rw [isH2Upgrade]
            cases he : t.header.entries with
            | nil =>
              rw [Header.values, he] at hkept
              exact absurd rfl hkept
            | cons e es => simp
          rw [hsome, hh2]
          rfl
        · rw [hnone, hzero]
          cases isH2Upgrade l t.header <;> rfl

/-- The parser sees the end of a response where its fields say. -/
theorem responseFraming_received {answersHead : Bool} {l : StatusLine}
    {h : Header} {r : Response} (hmix : Unmixed h)
    (hr : finishResponse none l h = .ok r) :
    responseFraming answersHead r = receivedResponse answersHead l h := by
  unfold finishResponse at hr
  dsimp only at hr
  split at hr
  · cases hr
  · next t ht =>
      have hlook : ∀ {k : Bytes}, k ≠ lit "Cache-Control" →
          (fixPragmaCacheControl h).values k = h.values k := by
        intro k hp
        rw [Header.values, Header.values, fixPragma_lookup hp]
      obtain ⟨hlist, hid⟩ := listsChunked_congr
        (hlook (k := lit "Transfer-Encoding") (by decide))
      have hann := announcedLength_congr
        (hlook (k := lit "Content-Length") (by decide))
      cases hr
      unfold responseFraming receivedResponse
      dsimp only
      split
      · rfl
      · next hallowed =>
          rw [Bool.or_eq_true, Bool.not_eq_true', not_or,
            Bool.not_eq_false] at hallowed
          have hreceived := readTransfer_received
            (by rw [Unmixed, hlist, hid]; exact hmix)
            hallowed.2 (fun _ => by decide) ht
          rw [hlist, hann] at hreceived
          rcases hreceived with ⟨hch, hlists⟩ | ⟨hch, hlists, hlen⟩
          · rw [if_pos hch, if_pos hlists]
          · have hno : ¬ (hasEncodings l.major l.minor && listsChunked h) =
                true := by
              rw [hlists]
              decide
            rw [if_neg (by rw [hch]; decide), if_neg hno]
            rcases hlen with ⟨hsome, hpos, _⟩ | ⟨hnone, hzero⟩
            · rw [hsome, if_neg (by omega)]
              rfl
            · rw [hnone, hzero, if_pos rfl]
              rfl

end Netramesh.Proofs
