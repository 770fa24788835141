import Netramesh.Proofs.Replies

/-!
# Responses arrive as they were sent

The way back is the way there: a stream of complete responses, the last of which
may go on to the end of the connection, is forwarded as a stream of responses
with the same codes, bodies and announced trailers. The reader and the writer
work out the framing of a response separately, from its status, its version and
its header. They agree, but for a chunked response whose status allows no body
and for a chunked one of version 0.0, and those are left out here.
-/

namespace Netramesh.Proofs

open Http Protocol Net Lib

/-! ## The status line -/

theorem itoa_inj {m n : Nat} (h : itoa m = itoa n) : m = n := by
  have hread := readDigits_itoa m
  rw [h, readDigits_itoa] at hread
  exact (Option.some.inj hread).symm

theorem dot_notMem_itoa (n : Nat) : 46 ∉ itoa n := by
  intro hm
  obtain ⟨d, hd, heq⟩ := mem_itoa hm
  exact absurd heq.symm ((by decide : ∀ d, d < 10 → digit d ≠ 46) d hd)

theorem versionText_inj {major minor major' minor' : Nat}
    (h : versionText major minor = versionText major' minor') :
    (major', minor') = (major, minor) := by
  rw [versionText, versionText, List.append_assoc, List.append_assoc] at h
  have hcut := congrArg (cutByte 46) (List.append_cancel_left h)
  rw [cutByte_append (dot_notMem_itoa _), cutByte_append (dot_notMem_itoa _),
    Option.some.injEq, Prod.mk.injEq] at hcut
  rw [itoa_inj hcut.1, itoa_inj hcut.2]

/-- A version is read back from its numbers. -/
theorem parseHTTPVersion_versionText {major minor : Nat}
    (hmajor : major ≤ 1000000) (hminor : minor ≤ 1000000) :
    parseHTTPVersion (versionText major minor) = some (major, minor) := by
  have hdrop : (versionText major minor).drop 5 =
      itoa major ++ 46 :: itoa minor := by
    rw [versionText, List.append_assoc]
    rfl
  have hfront : (lit "HTTP/").isPrefixOf (versionText major minor) = true := by
    rw [versionText, List.append_assoc]
    exact List.isPrefixOf_iff_prefix.mpr (List.prefix_append _ _)
  unfold parseHTTPVersion
  split
  · next h =>
        exact congrArg some (versionText_inj
        (h.trans (by decide : _ = versionText 1 1)))
  · split
    · next h =>
          exact congrArg some (versionText_inj
          (h.trans (by decide : _ = versionText 1 0)))
    · rw [hfront, if_neg (by simp), hdrop, cutByte_append (dot_notMem_itoa _)]
      dsimp only
      rw [parseInt_itoa (by omega), parseInt_itoa (by omega)]
      dsimp only
      rw [if_pos ⟨by omega, by omega, by omega, by omega⟩]
      rfl

theorem parseHTTPVersion_le {vers : Bytes} {major minor : Nat}
    (h : parseHTTPVersion vers = some (major, minor)) :
    major ≤ 1000000 ∧ minor ≤ 1000000 := by
  unfold parseHTTPVersion at h
  split at h
  · cases h
    exact ⟨by decide, by decide⟩
  · split at h
    · cases h
      exact ⟨by decide, by decide⟩
    · split at h
      · cases h
      · split at h
        · cases h
        · split at h
          · split at h
            · cases h
              exact ⟨by omega, by omega⟩
            · cases h
          · cases h

theorem statusLine_range {raw : Bytes} {l : StatusLine}
    (h : statusLine raw = .ok l) :
    l.statusCode < 1000 ∧ l.major ≤ 1000000 ∧ l.minor ≤ 1000000 := by
  unfold statusLine at h
  split at h
  · cases h
  · dsimp only at h
    split at h
    all_goals
      split at h
      · cases h
      · next hlen =>
          split at h
          · cases h
          · next n hcode =>
              split at h
              · cases h
              · split at h
                · cases h
                · next hversion =>
                    cases h
                    have hlt := parseInt_lt_pow hcode
                    rw [not_not.mp hlen] at hlt
                    obtain ⟨hmajor, hminor⟩ := parseHTTPVersion_le hversion
                    exact ⟨by dsimp only; omega, hmajor, hminor⟩

theorem length_pad3 {n : Nat} (h : n < 1000) : (pad3 n).length = 3 := by
  have hlen : (itoa n).length ≤ 3 := length_formatBase (by decide) (by decide) h
  rw [pad3, List.length_append, List.length_replicate]
  omega

/-- The code is read back from its three digits. -/
theorem parseInt_pad3 {n : Nat} (h : n < 1000) :
    parseInt (pad3 n) = some (n : Int) := by
  have hzeros : ∀ k, readDigits 10 decVal 0 (List.replicate k 48) = some 0 := by
    intro k
    induction k with
    | zero => rfl
    | succ k ih => exact ih
  refine parseInt_of_parseUint ?_ (by omega)
  have hne : pad3 n ≠ [] := fun hnil => by simpa [hnil] using length_pad3 h
  rw [parseUint, if_neg hne, pad3, readDigits_append (hzeros _),
    readDigits_itoa]

theorem statusLine_start {r : Response} (hcode : r.statusCode < 1000)
    (hmajor : r.protoMajor ≤ 1000000) (hminor : r.protoMinor ≤ 1000000) :
    ∃ l, statusLine (responseStart r) = .ok l ∧ l.statusCode = r.statusCode ∧
      l.major = r.protoMajor ∧ l.minor = r.protoMinor := by
  have hsp : sp ∉ pad3 r.statusCode := by
    intro hm
    obtain ⟨d, hd, heq⟩ := mem_pad3 hm
    exact absurd heq.symm ((by decide : ∀ d, d < 10 → digit d ≠ sp) d hd)
  unfold statusLine
  rw [responseStart, List.append_assoc, List.cons_append,
    cutByte_append (sp_notMem_versionText _ _)]
  dsimp only
  rw [dropWhile_of_head (head_pad3 _ _), cutByte_append hsp]
  dsimp only
  rw [if_neg (by rw [length_pad3 hcode]; decide), parseInt_pad3 hcode]
  dsimp only
  rw [if_neg (by omega), parseHTTPVersion_versionText hmajor hminor]
  exact ⟨_, rfl, by simp, rfl, rfl⟩

/-! ## What was read -/

/-- What is known about a response that was read. -/
structure ResponseFacts (r : Response) : Prop where
  code : r.statusCode < 1000
  version : r.protoMajor ≤ 1000000 ∧ r.protoMinor ≤ 1000000
  status : nl ∉ r.status
  header : PlainHeader r.header
  encoding : r.transferEncoding = encodings (chunked r.transferEncoding)
  noLength : bodyAllowedForStatus r.statusCode = false → r.contentLength = 0
  chunks : bodyAllowedForStatus r.statusCode = true →
    chunked r.transferEncoding = true → r.contentLength = -1
  length : chunked r.transferEncoding = false →
    r.contentLength = -1 ∨ (0 ≤ r.contentLength ∧ r.contentLength < 2 ^ 63)
  trailer : TrailerOf (chunked r.transferEncoding) r.trailer
  body : (responseFraming false r = .length 0 ∧ r.body = none) ∨
    (responseFraming false r ≠ .length 0 ∧ ∃ cl,
      r.body = some (bodyFor cl (responseFraming false r)))

theorem responseFacts {rd rd' : Reader Tee} {r : Response}
    (h : readResponse none rd = (.ok r, rd')) : ResponseFacts r := by
  obtain ⟨raw, l, hdr, rd₁, hraw, hline, hhdr, hfin⟩ := readResponse_parts h
  have hf := finishedResponse hfin
  obtain ⟨hcode, hversion⟩ := statusLine_range hline
  obtain ⟨rest, hsplit, _, hrest⟩ := statusLine_parts hline
  have hnl : nl ∉ l.status := by
    rw [hrest]
    intro hm
    refine (readLineSlice_ok hraw).2 ?_
    rw [hsplit]
    exact List.mem_append_right _
      (List.mem_cons_of_mem _ ((List.dropWhile_sublist _).mem hm))
  have hbody : (responseFraming false r = .length 0 ∧ r.body = none) ∨
      (responseFraming false r ≠ .length 0 ∧
        ∃ cl, r.body = some (bodyFor cl (responseFraming false r))) := by
    cases hb : r.body with
    | none => exact .inl ⟨(finishResponse_noBody hfin).mp hb, rfl⟩
    | some b =>
      have hfr : responseFraming false r ≠ .length 0 := fun hfr => by
        rw [(finishResponse_noBody hfin).mpr hfr] at hb
        cases hb
      obtain ⟨⟨cl, hcl⟩, _⟩ := finishResponse_body hfin hb hfr
      exact .inr ⟨hfr, cl, congrArg some hcl⟩
  rw [← hf.code] at hcode
  rw [← hf.major, ← hf.minor] at hversion
  rw [← hf.status] at hnl
  unfold finishResponse at hfin
  dsimp only at hfin
  split at hfin
  · cases hfin
  · next t ht =>
      obtain ⟨st, hacc⟩ := readTransfer_accepted
        (readMIMEHeader_plain hhdr).fixPragma ht
      have hcl : t.contentLength = st.realLength := by
        have := st.announced
        rw [if_neg (by decide)] at this
        exact (Except.ok.inj this).symm
      have hte : t.transferEncoding = st.te :=
        congrArg Transfer.transferEncoding st.eq
      cases hfin
      refine ⟨hcode, hversion, hnl, hacc.header, hacc.encoding, ?_, ?_, ?_,
        hacc.trailer, hbody⟩
      · intro hno
        exact hcl.trans (fixLength_of_status (by decide) hno st.length)
      · intro hallowed hch
        rw [hte] at hch
        exact hcl.trans (fixLength_of_chunked
          (by decide) hallowed hch st.length)
      · intro hch
        dsimp only
        rw [hcl]
        rcases hacc.length with h | h
        · exact .inr h
        · exact .inl h.1

/-! ## What is written -/

/-- The reader and the writer see the same framing: a chunked response has a
status that allows a body, and a version that has chunks. -/
def SeenAlike (r : Response) : Prop :=
  chunked r.transferEncoding = true →
    bodyAllowedForStatus r.statusCode = true ∧
      protoAtLeast r.protoMajor r.protoMinor 1 1 = true

instance (r : Response) : Decidable (SeenAlike r) :=
  inferInstanceAs (Decidable (_ → _))

/-- The response goes out with a length of zero that `writeHeader` left out. -/
def addsZero (r : Response) : Bool :=
  decide (r.contentLength = 0 ∧ !chunked r.transferEncoding ∧
    !(newResponseWriter r.toWrite).shouldSendContentLength ∧
      bodyAllowedForStatus r.statusCode)

/-- The length a response is read back with. -/
def returnedLength (r : Response) : Option Nat :=
  if (newResponseWriter r.toWrite).shouldSendContentLength then
    some (newResponseWriter r.toWrite).contentLength.toNat
  else if addsZero r then some 0 else none

section Again

variable {r : Response}

/-- The version of a chunked response, as `readTransfer` takes it. -/
theorem SeenAlike.version (hch : SeenAlike r) {major minor : Nat}
    (hmajor : major = r.protoMajor) (hminor : minor = r.protoMinor) :
    chunked r.transferEncoding = true →
      protoAtLeast (if major = 0 ∧ minor = 0 then 1 else major)
        (if major = 0 ∧ minor = 0 then 1 else minor) 1 1 = true := by
  intro hte
  by_cases hz : major = 0 ∧ minor = 0
  · rw [if_pos hz, if_pos hz]
    decide
  · rw [if_neg hz, if_neg hz, hmajor, hminor]
    exact (hch hte).2

theorem responseWriter_spec (h : ResponseFacts r) (hch : SeenAlike r) :
    chunked (newResponseWriter r.toWrite).transferEncoding =
      chunked r.transferEncoding ∧
      (newResponseWriter r.toWrite).trailer = r.trailer ∧
      (chunked r.transferEncoding = false →
        (newResponseWriter r.toWrite).contentLength = r.contentLength) := by
  have hsame : (newResponseWriter r.toWrite).transferEncoding =
      r.transferEncoding := by
    show (if protoAtLeast r.protoMajor r.protoMinor 1 1 then r.transferEncoding
      else []) = _
    cases hte : chunked r.transferEncoding with
    | true => rw [(hch hte).2, if_pos rfl]
    | false =>
      have hnil := h.encoding
      rw [hte] at hnil
      rw [hnil]
      exact ite_self _
  have htrailer : (newResponseWriter r.toWrite).trailer =
      if chunked (newResponseWriter r.toWrite).transferEncoding then r.trailer
        else none := rfl
  have hlength : (newResponseWriter r.toWrite).contentLength =
      if chunked (newResponseWriter r.toWrite).transferEncoding then -1
        else r.contentLength := rfl
  rw [htrailer, hlength, hsame]
  refine ⟨rfl, ?_, fun hte => by rw [hte, if_neg (by simp)]⟩
  rcases h.trailer with htr | ⟨hte, _⟩
  · rw [htr, ite_self]
  · rw [hte, if_pos rfl]

theorem SeenAlike.not_chunked (hch : SeenAlike r)
    (hfr : responseFraming false r ≠ .chunked) :
    chunked r.transferEncoding = false := by
  by_contra hc
  rw [Bool.not_eq_false] at hc
  exact hfr (by rw [responseFraming, (hch hc).1, if_neg (by simp), if_pos hc])

/-- A body that is not chunked has a length or lasts until the connection
closes. -/
theorem ResponseFacts.counted (h : ResponseFacts r)
    (hfr : responseFraming false r ≠ .length 0)
    (hc : chunked r.transferEncoding = false) :
    r.contentLength = -1 ∨ 0 < r.contentLength := by
  rcases h.length hc with hminus | hlen
  · exact .inl hminus
  · refine .inr ?_
    by_contra hle
    refine hfr ?_
    unfold responseFraming
    split
    · rfl
    · rw [if_neg (by simp [hc]), if_neg (by omega),
        Int.toNat_eq_zero.mpr (by omega)]

theorem ResponseFacts.trailerOf (h : ResponseFacts r) (hch : SeenAlike r) :
    TrailerOf (chunked r.transferEncoding)
      (newResponseWriter r.toWrite).trailer := by
  rw [(responseWriter_spec h hch).2.1]
  exact h.trailer

theorem ResponseFacts.start_nl (h : ResponseFacts r) :
    nl ∉ responseStart r := by
  have hdigit : ∀ d, d < 10 → digit d ≠ nl := by decide
  have hitoa : ∀ n, nl ∉ itoa n := fun n hm => by
    obtain ⟨d, hd, heq⟩ := mem_itoa hm
    exact hdigit d hd heq.symm
  have hpad : nl ∉ pad3 r.statusCode := fun hm => by
    obtain ⟨d, hd, heq⟩ := mem_pad3 hm
    exact hdigit d hd heq.symm
  have htext : nl ∉ r.statusText := by
    unfold Response.statusText
    dsimp only
    split
    · exact fun hm => h.status (List.mem_of_mem_drop hm)
    · exact h.status
  simp only [responseStart, versionText, List.mem_append, List.mem_cons, not_or]
  exact ⟨⟨⟨⟨by decide, hitoa _⟩, by decide, hitoa _⟩, by decide, hpad⟩, by
    decide, htext⟩

theorem ResponseFacts.lines (h : ResponseFacts r) (hch : SeenAlike r) :
    ∀ f ∈ responseLines r, FieldKey f.1 ∧ nl ∉ f.2 := by
  intro f hf
  simp only [responseLines, List.mem_append] at hf
  rcases hf with (hf | hf) | hf
  · exact frameLines_ok (h.trailerOf hch).keys.1 f hf
  · exact h.header.sendable.fieldLines f hf
  · split at hf
    · cases List.mem_singleton.mp hf
      exact ⟨⟨by decide +kernel, by decide +kernel, by decide +kernel, by
        decide +kernel⟩, by decide⟩
    · cases hf

theorem ResponseFacts.framed (h : ResponseFacts r) (hch : SeenAlike r) :
    FramedBy ((responseLines r).foldl addLine Header.empty)
      (chunked r.transferEncoding)
      (returnedLength r) (trailerKeys (newResponseWriter r.toWrite)) := by
  have hnone : ∀ f ∈ ([] : List (Bytes × Bytes)),
    isFramingKey (canonicalKey f.1) = false := by simp
  have hF := framedBy_lines (t := newResponseWriter r.toWrite)
    (addsZero r) hnone
    (h.header.sendable.unframed fun k hk => (isFramingKey_excluded hk).2)
    (fun hz => by
      have := (of_decide_eq_true hz).2.2.1
      simpa using this) (h.trailerOf hch).keys.1
  rw [(responseWriter_spec h hch).1, List.nil_append] at hF
  have hlines : responseLines r = frameLines (newResponseWriter r.toWrite) ++
      fieldLines respExcludeHeader r.header ++
        (if addsZero r then [(lit "Content-Length", itoa 0)] else []) := by
    unfold responseLines addsZero
    simp only [decide_eq_true_eq]
    rfl
  rw [hlines]
  exact hF

theorem ResponseFacts.returnedLength_spec (h : ResponseFacts r)
    (hch : SeenAlike r) :
    (chunked r.transferEncoding = true → returnedLength r = none) ∧
      (∀ n, returnedLength r = some n → n < 2 ^ 63) ∧
      (bodyAllowedForStatus r.statusCode = true →
        chunked r.transferEncoding = false →
        returnedLength r = if r.contentLength = -1 then none
          else some r.contentLength.toNat) := by
  obtain ⟨hte, _, hcl⟩ := responseWriter_spec h hch
  have hzero : addsZero r = true → chunked r.transferEncoding = false :=
      fun hz => by
    have := (of_decide_eq_true hz).2.1
    simpa using this
  -- the writer sends the length exactly if there is something to count
  have hsend : chunked r.transferEncoding = false →
      ((newResponseWriter r.toWrite).shouldSendContentLength = true ↔
        0 < r.contentLength) := by
    intro hno
    have hid : isIdentity (newResponseWriter r.toWrite).transferEncoding =
        false := by
      have hnil : r.transferEncoding = [] := by
        have := h.encoding
        rw [hno] at this
        exact this
      simp only [newResponseWriter, sanitizeTransfer, Response.toWrite, hnil,
        ite_self]
      rfl
    unfold TransferWriter.shouldSendContentLength
    rw [hte, hno, if_neg (by simp), hcl hno, hid]
    by_cases hpos : 0 < r.contentLength
    · simp [hpos]
    · rw [if_neg hpos]
      constructor
      · intro hs
        split at hs
        · cases hs
        · split at hs
          · next hmethod => exact absurd hmethod (by
              show ¬ (([] : Bytes) = _ ∨ ([] : Bytes) = _)
              decide)
          · cases hs
      · intro hp
        exact absurd hp hpos
  refine ⟨?_, ?_, ?_⟩
  · intro hc
    rw [returnedLength, shouldSend_of_chunked (hte.trans hc), if_neg (by simp),
      if_neg]
    intro hz
    rw [hzero hz] at hc
    cases hc
  · intro n hn
    unfold returnedLength at hn
    split at hn
    · next hs =>
        cases hc : chunked r.transferEncoding with
        | true =>
          rw [shouldSend_of_chunked (hte.trans hc)] at hs
          cases hs
        | false =>
          rw [hcl hc] at hn
          have hlen := h.length hc
          have := Option.some.inj hn
          omega
    · split at hn
      · cases hn
        decide
      · cases hn
  · intro hallowed hc
    have hlen := h.length hc
    unfold returnedLength
    by_cases hpos : 0 < r.contentLength
    · rw [if_pos ((hsend hc).mpr hpos), if_neg (by omega), hcl hc]
    · have hs : (newResponseWriter r.toWrite).shouldSendContentLength =
          false := by
        cases hs : (newResponseWriter r.toWrite).shouldSendContentLength with
        | true => exact absurd ((hsend hc).mp hs) hpos
        | false => rfl
      rw [hs, if_neg (by simp), addsZero, hs, hc, hallowed]
      by_cases hz : r.contentLength = 0
      · simp [hz]
      · rw [if_neg (by simp [hz]), if_pos (by omega)]

/-- The head that was written is read as its first line and its fields. -/
theorem ResponseFacts.parses (h : ResponseFacts r) (hch : SeenAlike r)
    {method : Option Bytes} {l : StatusLine} {r' : Response}
    (hline : statusLine (responseStart r) = .ok l)
    (hfin : finishResponse method l
      ((responseLines r).foldl addLine Header.empty) = .ok r')
    (rest : Bytes) :
    Parses (readResponse method) .eof
      (r.headPieces.flatten ++ rest) r' rest := by
  refine parses_of_gives _ ?_
  have hfirst : Gives 0xfff (readLineSlice : Parser Tee Err Bytes)
    (responseStart r ++ crlf ++
      (linesWire (responseLines r) ++ crlf ++ rest)) (responseStart r) _ :=
    gives_readLineSlice (by decide) h.start_nl
  rw [responseHead_flatten, show responseStart r ++ crlf ++
    linesWire (responseLines r) ++ crlf ++ rest = responseStart r ++ crlf ++
      (linesWire (responseLines r) ++ crlf ++ rest) by simp]
  refine Gives.mapError (hfirst.bind ?_) _
  rw [hline]
  refine Gives.bind .pure
    ((gives_readMIMEHeader (by decide) (h.lines hch)).bind ?_)
  rw [hfin]
  exact .pure

/-- A response that is written is read as one with the same code, the same
framing and the same announced trailer. -/
theorem ResponseFacts.again (h : ResponseFacts r) (hch : SeenAlike r) :
    ∃ r', r'.statusCode = r.statusCode ∧ responseFraming false r' =
      responseFraming false r ∧
      r'.trailer = (if trailerKeys (newResponseWriter r.toWrite) = [] then none
        else some (announce (trailerKeys (newResponseWriter r.toWrite)))) ∧
      ∀ rest, Parses (readResponse none) .eof
        (r.headPieces.flatten ++ rest) r' rest := by
  obtain ⟨l, hline, hcode, hmajor, hminor⟩ :=
    statusLine_start h.code h.version.1 h.version.2
  obtain ⟨hks, hkeys, _, _⟩ := (h.trailerOf hch).keys
  obtain ⟨hnone, hlt, hlen⟩ := h.returnedLength_spec hch
  have hproto := hch.version hmajor hminor
  obtain ⟨t, ht, htenc, htlen, httr⟩ :=
    readTransfer_framed true l.statusCode l.major l.minor false
    (h.framed hch).fixPragma hproto hnone hlt
    (show noResponseBodyExpected (lit "GET") = false by decide) hks hkeys
  have hfin : ∃ r', finishResponse none l
    ((responseLines r).foldl addLine Header.empty) = .ok r' ∧
      r'.statusCode = l.statusCode ∧ r'.transferEncoding = t.transferEncoding ∧
      r'.contentLength = t.contentLength ∧ r'.trailer = t.trailer := by
    unfold finishResponse
    dsimp only
    rw [show (none : Option Bytes).getD (lit "GET") = lit "GET" from rfl, ht]
    exact ⟨_, rfl, rfl, rfl, rfl, rfl⟩
  obtain ⟨r', hr', hcode', hte', hlen', htr'⟩ := hfin
  refine ⟨r', hcode'.trans hcode, ?_, htr'.trans httr, ?_⟩
  · unfold responseFraming
    rw [hcode', hcode, hte', htenc, chunked_encodings, hlen', htlen]
    cases hallowed : bodyAllowedForStatus r.statusCode with
    | false => rfl
    | true =>
      cases hte : chunked r.transferEncoding with
      | true => rfl
      | false =>
        have hback : lengthOf true l.statusCode false (returnedLength r) =
            r.contentLength := by
          unfold lengthOf
          rw [hcode, hlen hallowed hte, if_neg]
          · have := h.length hte
            by_cases hminus : r.contentLength = -1
            · simp [hminus]
            · simp only [hminus, Bool.false_eq_true, if_false]
              omega
          · simp only [bodyAllowedForStatus, Bool.and_eq_true,
              Bool.not_eq_true', bne_iff_ne,
              decide_eq_false_iff_not, Bool.and_eq_false_iff] at hallowed
            omega
        rw [hback]
  · exact fun rest => h.parses hch hline hr' rest

end Again

/-! ## Through the loop -/

/-- What the loop can be expected to preserve: a response that is no upgrade,
whose framing is seen alike, and whose trailer section, written again, is not
too long to be read. -/
structure Returnable (m : Message Response) : Prop where
  upgrade : toLower (m.head.header.get (lit "Connection")) ≠ lit "upgrade"
  alike : SeenAlike m.head
  fits : Fits m.head.trailer m.trailer

/-- The same code, the same body and, if it announces a trailer, the same
trailer fields up to the sanitizing of their values. -/
structure SameResponse (m m' : Message Response) : Prop where
  code : m'.head.statusCode = m.head.statusCode
  data : m'.data = m.data
  trailer : SameTrailers Response.trailer m m'

section Loop

variable {r : Response}

/-- What is written for a complete body. -/
theorem ResponseFacts.written (h : ResponseFacts r) (hch : SeenAlike r)
    {c : Copy Tee} {data rest : Bytes} {hdr : Option Header}
    (hbody : c.body = r.body) (htrailer : c.trailer = none)
    (hfails : NoFail c.out.fails) (hsize : c.rd.size = 0xfff)
    (hsizes : ∀ k ∈ c.sizes, k < 2 ^ 63)
    (hcarries : Carries c.rd.fin
      (responseFraming false r) c.rd.view data hdr rest) :
    (r.write c).2.rd.view = rest ∧ ∃ ps, ps.flatten = data ∧
      (∀ p ∈ ps, p ≠ [] ∧ p.length ≤ 2 ^ 63) ∧
      (r.write c).2.out.bytes = c.out.bytes ++ r.headPieces.flatten ++
        (piecesWire (newResponseWriter r.toWrite) ps ++
          endWire (newResponseWriter r.toWrite) hdr) := by
  obtain ⟨hte, _, _⟩ := responseWriter_spec h hch
  rw [responseWrite_eq r hfails, ← afterHead_bytes _ hfails]
  refine writeBody_carries ?_ ?_ htrailer
    (writeAll_ok _ hfails).2.2 hsize hsizes hcarries
  · rcases h.body with ⟨hfr, hb⟩ | ⟨hfr, cl, hb⟩
    · exact .inl ⟨hfr, hbody.trans hb,
        hte.trans (hch.not_chunked (by rw [hfr]; simp))⟩
    · refine .inr ⟨hfr, cl, hbody.trans hb, suits_response rfl hfr ?_ ?_⟩
      · intro hc
        exact h.chunks (hch hc).1 hc
      · exact h.counted hfr
  · intro hclose
    rw [hte]
    exact hch.not_chunked (by rw [hclose]; simp)

/-- What stands behind the head of a response that is written, read back. -/
theorem ResponseFacts.carries (h : ResponseFacts r) (hch : SeenAlike r)
    {ps : List Bytes} {hdr : Option Header}
    (hps : ∀ p ∈ ps, p ≠ [] ∧ p.length ≤ 2 ^ 63)
    (hh : ∀ t, hdr = some t → PlainHeader t)
    (hlen : ∀ n, responseFraming false r = .length n → ps.flatten.length = n)
    (hfit : Fits r.trailer hdr) (tail : Bytes)
    (hlast : responseFraming false r = .close → tail = []) :
    Carries .eof (responseFraming false r)
      (piecesWire (newResponseWriter r.toWrite) ps ++
        endWire (newResponseWriter r.toWrite) hdr ++ tail)
      ps.flatten
      (if chunked r.transferEncoding then
        (newResponseWriter r.toWrite).trailer.bind fun a => rereadTrailer a hdr
          else none) tail := by
  obtain ⟨hte, htr, _⟩ := responseWriter_spec h hch
  cases hc : chunked r.transferEncoding with
  | true =>
    have hfr : responseFraming false r = .chunked := by
      rw [responseFraming, (hch hc).1, if_neg (by simp), if_pos hc]
    rw [hfr, if_pos rfl]
    exact carries_chunked (hte.trans hc) hps (h.trailerOf hch) hh
      (by rw [htr]; exact hfit) tail
  | false =>
    rw [plainWire (hte.trans hc), if_neg (by simp)]
    cases hfr : responseFraming false r with
    | length n =>
      rw [← hlen n hfr]
      exact carries_length ps.flatten tail
    | chunked =>
      unfold responseFraming at hfr
      split at hfr
      · cases hfr
      · rw [if_neg (by simp [hc])] at hfr
        split at hfr <;> cases hfr
    | close =>
      rw [hlast hfr, List.append_nil]
      exact .close

theorem responseHandler_relays (head : Nat → Bool) (w : World) :
    Relays (responseHandler false head w) (fun _ => responseFraming false)
      (fun _ => readResponse none) (fun _ => responseFraming false)
        (fun _ => Returnable)
      SameResponse where
  conserves := responseHandler_conserves head w
  shrinks := shrinks_readResponse none
  proceeds hg := decide_eq_false hg.upgrade
  relays {m rd₀ rd rest s} hread hsize hfails hg hcarries := by
    have h := responseFacts hread
    rw [responseForward_eq]
    obtain ⟨hview, ps, hflat, hps, hbytes⟩ := h.written hg.alike
      (c := s.copy (responseHandler false head w) m.head rd) rfl rfl
        hfails hsize
      (w.sizes_lt s.count) hcarries
    obtain ⟨r', hcode, hfr', htr', hparse⟩ := h.again hg.alike
    have htrailer := (responseWriter_spec h hg.alike).2.1
    refine ⟨hview, m.head.headPieces.flatten ++
      (piecesWire (newResponseWriter m.head.toWrite) ps ++
        endWire (newResponseWriter m.head.toWrite) m.trailer),
      ⟨r', m.data, if chunked m.head.transferEncoding then
        (newResponseWriter m.head.toWrite).trailer.bind fun a =>
          rereadTrailer a m.trailer else none⟩,
      ?_, ⟨hcode, rfl, ?_⟩, ?_⟩
    · rw [hbytes, List.append_assoc]
      rfl
    · intro a ha
      rw [← htrailer] at ha
      obtain ⟨hne, _⟩ := (h.trailerOf hg.alike).keys.2.2.2 a ha
      have hc : chunked m.head.transferEncoding = true :=
        (h.trailerOf hg.alike).keys.2.1 hne
      refine ⟨_, by rw [htr', if_neg hne], ?_⟩
      rw [if_pos hc]
      exact (h.trailerOf hg.alike).same hcarries.plain ha
    · intro tail hlast
      refine ⟨_, by rw [List.append_assoc]; exact hparse _, ?_⟩
      dsimp only
      rw [hfr', ← hflat]
      exact h.carries hg.alike hps hcarries.plain
        (fun n hn => by rw [hflat]; exact hcarries.data_length hn) hg.fits tail
        (fun hclose => hlast (decide_eq_true hclose))

end Loop

/-- Every stream of complete responses that can be returned, cut in any way,
leaves `HandleResponse` as a stream of the same responses in the same order,
with nothing in between and nothing left over. -/
theorem responses_preserved (head : Nat → Bool) (w : World)
    (hfails : ∀ k, NoFail (w.fails k)) (conn : Conn)
    (ms : List (Message Response))
    (hms : Messages (fun _ => readResponse none)
      (fun _ => responseFraming false) conn.fin 0 ms conn.data)
    (hgood : ∀ m ∈ ms, Returnable m) :
    ∃ ms', Messages (fun _ => readResponse none)
      (fun _ => responseFraming false) .eof 0 ms'
        (handle (responseHandler false head w) (Loop.init conn)).out ∧
      List.Forall₂ SameResponse ms ms' :=
  relayed (responseHandler_relays head w) hfails hms
    fun _ m hm => hgood m (List.mem_of_getElem? hm)

/-! ## Where the two differ -/

/-- A chunked response whose status allows no body is read without one, but
written with the end of one, which is left for the next response to start
with. -/
theorem chunkEnd_written {r : Response} {c : Copy Tee}
    (hc : chunked r.transferEncoding = true)
    (hversion : protoAtLeast r.protoMajor r.protoMinor 1 1 = true)
    (hno : bodyAllowedForStatus r.statusCode = false) (hbody : c.body = none)
    (htrailer : c.trailer = none) (hfails : NoFail c.out.fails) :
    responseFraming false r = .length 0 ∧
      (r.write c).2.out.bytes = c.out.bytes ++ r.headPieces.flatten ++
        (lit "0\r\n" ++ trailerWire r.trailer ++ crlf) := by
  have hte : (newResponseWriter r.toWrite).transferEncoding =
      r.transferEncoding := by
    show (if protoAtLeast r.protoMajor r.protoMinor 1 1 then r.transferEncoding
      else []) = _
    rw [hversion, if_pos rfl]
  have htr : (newResponseWriter r.toWrite).trailer = r.trailer := by
    show (if chunked (newResponseWriter r.toWrite).transferEncoding then
      r.trailer else none) =
      _
    rw [hte, hc, if_pos rfl]
  have hmerged : mergedTrailer r.trailer none = r.trailer := by
    cases r.trailer <;> rfl
  refine ⟨by rw [responseFraming, hno]; rfl, ?_⟩
  rw [responseWrite_eq r hfails,
    writeBody_noBody_chunked (c := Copy.afterHead r.headPieces c) hbody
    htrailer (by rw [hte]; exact hc) (writeAll_ok _ hfails).2.2,
      afterHead_bytes _ hfails, htr, hmerged]

/-! ## Two streams

A carriage return inside a trailer value comes out as a blank; a chunked
response with a plain trailer, and one behind it that lasts until the connection
closes, come out as they went in. -/

/-- A chunked response that announces a trailer field, and what follows it. -/
def answerWithTrailer (value rest : Bytes) : Conn where
  data :=
    lit "HTTP/1.1 200 OK\r\nTransfer-Encoding: chunked\r\nTrailer: A\r\n\r\n" ++
    (lit "2\r\nhi\r\n0\r\nA: " ++ value ++ lit "\r\n\r\n" ++ rest)

/-- What the parser makes of it, and of what is written for it. -/
def IsOK (r : Response) : Prop :=
  r.statusCode = 200 ∧ r.header.get (lit "Connection") = [] ∧ SeenAlike r ∧
    responseFraming false r = .chunked ∧ r.trailer = some (announce [lit "A"])

instance (r : Response) : Decidable (IsOK r) :=
  inferInstanceAs (Decidable (_ ∧ _))

theorem answer_trailer_rewritten :
    ¬ ∀ (conn : Conn) (ms : List (Message Response)),
      Messages (fun _ => readResponse none)
        (fun _ => responseFraming false) conn.fin 0 ms conn.data →
      (∀ m ∈ ms, toLower (m.head.header.get (lit "Connection")) ≠
        lit "upgrade") →
      ∃ ms', Messages (fun _ => readResponse none)
        (fun _ => responseFraming false) .eof 0 ms'
          (handle (responseHandler false (fun _ => false) {})
            (Loop.init conn)).out ∧
        List.Forall₂ (fun m m' => m'.head.statusCode = m.head.statusCode ∧
          m'.data = m.data ∧
          ∀ a, m.head.trailer = some a → ∃ a', m'.head.trailer = some a' ∧
            ∀ k, (mergedWith a' m'.trailer).values k =
              (mergedWith a m.trailer).values k) ms ms' := by
  intro h
  obtain ⟨r, u, hparse, hp⟩ := exists_parses (readResponse none) .eof
    (answerWithTrailer (lit "x\ry") []).data
    (fun r u => decide (IsOK r ∧ u = lit "2\r\nhi\r\n0\r\nA: " ++ lit "x\ry" ++
      lit "\r\n\r\n" ++ []))
    (by decide +kernel)
  obtain ⟨⟨_, hconn, _, hfr, htrailer⟩, rfl⟩ := of_decide_eq_true hp
  have hcarries := carries_hi (lit "x\ry") [] (by decide +kernel)
    (by decide +kernel) (by decide +kernel)
  rw [← hfr] at hcarries
  obtain ⟨ms', hms', hsame⟩ := h (answerWithTrailer (lit "x\ry") [])
    [⟨r, lit "hi", some (fieldA (lit "x\ry"))⟩] (.cons hparse hcarries .nil) (by
      intro m hm
      cases List.mem_singleton.mp hm
      rw [hconn]
      decide)
  -- the one message that was written
  obtain ⟨r', u', hparse', hp'⟩ := exists_parses (readResponse none) .eof
    (handle (responseHandler false (fun _ => false) {})
      (Loop.init (answerWithTrailer (lit "x\ry") []))).out
    (fun r u => decide (IsOK r ∧ u = lit "2\r\nhi\r\n0\r\nA: " ++ lit "x y" ++
      lit "\r\n\r\n" ++ []))
    (by decide +kernel)
  obtain ⟨⟨_, _, _, hfr', htrailer'⟩, rfl⟩ := of_decide_eq_true hp'
  have hcarries' := carries_hi (lit "x y") [] (by decide +kernel)
    (by decide +kernel) (by decide +kernel)
  rw [← hfr'] at hcarries'
  have hone : Messages (fun _ => readResponse none)
    (fun _ => responseFraming false) .eof 0
      [⟨r', lit "hi", some (fieldA (lit "x y"))⟩] _ :=
        .cons hparse' hcarries' .nil
  cases hms'.unique (fun _ => shrinks_readResponse none) hone
  cases hsame with
  | cons hm _ =>
    obtain ⟨a', ha', hvalues⟩ := hm.2.2 _ htrailer
    rw [htrailer'] at ha'
    cases ha'
    have heq := hvalues (lit "A")
    dsimp only at heq
    exact absurd heq (by decide +kernel)

theorem responses_preserved_two :
    ∃ ms, Messages (fun _ => readResponse none)
      (fun _ => responseFraming false) .eof 0 ms
        (answerWithTrailer (lit "x") (lit "HTTP/1.1 404 No\r\n\r\nbye")).data ∧
          ms.length = 2 ∧
      ∃ ms', Messages (fun _ => readResponse none)
        (fun _ => responseFraming false) .eof 0 ms'
          (handle (responseHandler false (fun _ => false) {})
            (Loop.init (answerWithTrailer (lit "x")
              (lit "HTTP/1.1 404 No\r\n\r\nbye")))).out ∧
        List.Forall₂ SameResponse ms ms' := by
  obtain ⟨r, u, hparse, hp⟩ := exists_parses (readResponse none) .eof
    (answerWithTrailer (lit "x") (lit "HTTP/1.1 404 No\r\n\r\nbye")).data
    (fun r u => decide (IsOK r ∧ u = lit "2\r\nhi\r\n0\r\nA: " ++ lit "x" ++
      lit "\r\n\r\n" ++ lit "HTTP/1.1 404 No\r\n\r\nbye")) (by decide +kernel)
  obtain ⟨⟨_, hconn, halike, hfr, htrailer⟩, rfl⟩ := of_decide_eq_true hp
  obtain ⟨r₂, u₂, hparse₂, hp₂⟩ := exists_parses (readResponse none) .eof
    (lit "HTTP/1.1 404 No\r\n\r\nbye")
    (fun r u => decide (r.header.get (lit "Connection") = [] ∧ SeenAlike r ∧
      responseFraming false r = .close ∧ r.trailer = none ∧ u = lit "bye"))
        (by decide +kernel)
  obtain ⟨hconn₂, halike₂, hfr₂, htrailer₂, rfl⟩ := of_decide_eq_true hp₂
  have hcarries := carries_hi (lit "x") (lit "HTTP/1.1 404 No\r\n\r\nbye")
    (by decide +kernel) (by decide +kernel) (by decide +kernel)
  have hcarries₂ : Carries .eof .close (lit "bye") (lit "bye") none [] := .close
  rw [← hfr] at hcarries
  rw [← hfr₂] at hcarries₂
  have hms : Messages (fun _ => readResponse none)
    (fun _ => responseFraming false) .eof 0
      [⟨r, lit "hi", some (fieldA (lit "x"))⟩, ⟨r₂, lit "bye", none⟩]
      (answerWithTrailer (lit "x") (lit "HTTP/1.1 404 No\r\n\r\nbye")).data :=
    .cons hparse hcarries (.cons hparse₂ hcarries₂ .nil)
  refine ⟨_, hms, rfl, ?_⟩
  refine responses_preserved (fun _ => false) {} (fun k b hb => by cases hb)
    (answerWithTrailer (lit "x") (lit "HTTP/1.1 404 No\r\n\r\nbye")) _ hms ?_
  intro m hm
  simp only [List.mem_cons, List.not_mem_nil, or_false] at hm
  rcases hm with rfl | rfl
  · refine ⟨by rw [hconn]; decide, halike, ?_⟩
    dsimp only
    rw [htrailer]
    decide +kernel
  · refine ⟨by rw [hconn₂]; decide, halike₂, ?_⟩
    dsimp only
    rw [htrailer₂]
    decide +kernel

end Netramesh.Proofs
