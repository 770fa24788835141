import Netramesh.Net.Target
import Netramesh.Proofs.Bodies

/-!
# Requests arrive as they were sent

A stream of complete requests whose targets are paths is forwarded as a stream
of requests with the same methods, bodies and announced trailers. Each request
that was read satisfies `RequestFacts`; written again, with the fields the proxy
adds, it is read back with the same framing; and the loop goes from one message
boundary to the next.
-/

namespace Netramesh.Proofs

open Http Protocol Net Lib

/-! ## What was read -/

/-- What is known about a request that was read and whose target is a path. -/
structure RequestFacts (r : Request) : Prop where
  method : validMethod r.method = true
  url : parseRequestURI r.requestURI = some r.url
  blank : sp ∉ r.requestURI
  header : PlainHeader r.header
  host : nl ∉ r.host
  encoding : r.transferEncoding = encodings (chunked r.transferEncoding)
  length : chunked r.transferEncoding = false →
    0 ≤ r.contentLength ∧ r.contentLength < 2 ^ 63
  trailer : TrailerOf (chunked r.transferEncoding) r.trailer
  body : r.method ≠ methodHead →
    (requestFraming r = .length 0 ∧ r.body = none) ∨
    (requestFraming r ≠ .length 0 ∧ ∃ cl,
      r.body = some (bodyFor cl (requestFraming r)))

theorem requestLine_ok {s : Bytes} {l : RequestLine} (h : requestLine s = .ok l)
    (hroot : l.requestURI.head? = some 47) :
    validMethod l.method = true ∧ parseRequestURI l.requestURI = some l.url ∧
      sp ∉ l.requestURI := by
  unfold requestLine at h
  split at h
  · cases h
  · next method uri proto hparse =>
      have hsp : sp ∉ uri := by
        unfold parseRequestLine at hparse
        split at hparse
        · cases hparse
        · next m rest hcut =>
            obtain ⟨⟨uri', proto'⟩, hcut', heq⟩ :=
              Option.map_eq_some_iff.mp hparse
            cases heq
            exact (cutByte_eq_some.mp hcut').2
      split at h
      · cases h
      · next hvalid =>
          split at h
          · cases h
          · dsimp only at h
            split at h
            · cases h
            · next url hurl =>
                cases h
                dsimp only at hroot ⊢
                have hpath : ¬ (method = lit "CONNECT" ∧ uri.head? ≠ some 47) :=
                  fun h => h.2 hroot
                rw [if_neg hpath] at hurl ⊢
                exact ⟨by simpa using hvalid, hurl, hsp⟩

theorem readRequest_plain {rd rd' : Reader Tee} {r : Request}
    (h : readRequest rd = (.ok r, rd')) :
    PlainHeader r.header := by
  obtain ⟨_, l, hdr, _, _, _, hhdr, hfin⟩ := readRequest_parts h
  have hplain := readMIMEHeader_plain hhdr
  unfold finishRequest at hfin
  dsimp only at hfin
  split at hfin
  · cases hfin
  · next t ht =>
      obtain ⟨_, hacc⟩ :=
        readTransfer_accepted (((hplain.delete _).fixPragma).shouldClose _ _ _)
          ht
      cases hfin
      exact hacc.header

theorem requestFacts {rd rd' : Reader Tee} {r : Request}
    (h : readRequest rd = (.ok r, rd')) (hroot : r.requestURI.head? = some 47) :
    RequestFacts r := by
  obtain ⟨_, l, hdr, _, _, hline, hhdr, hfin⟩ := readRequest_parts h
  have hplain := readMIMEHeader_plain hhdr
  unfold finishRequest at hfin
  dsimp only at hfin
  split at hfin
  · cases hfin
  · next t ht =>
      have hheader : PlainHeader
          (shouldClose l.major l.minor
            (fixPragmaCacheControl (hdr.delete (lit "Host"))) false).2 :=
        ((hplain.delete _).fixPragma).shouldClose _ _ _
      obtain ⟨st, hacc⟩ := readTransfer_accepted hheader ht
      have hcl : t.contentLength = st.realLength := by
        have := st.announced
        simp only [Bool.false_and, Bool.false_eq_true, if_false,
          Except.ok.injEq] at this
        exact this.symm
      cases hfin
      obtain ⟨hvalid, hurl, hsp⟩ := requestLine_ok hline hroot
      obtain ⟨hhost, _, hstar, _⟩ := target_again hurl hroot hsp
      have hh2 : isH2Upgrade l t.header = false := by
        unfold isH2Upgrade
        rw [show (l.url.path == lit "*") = false from beq_false_of_ne hstar]
        simp
      have hlen : chunked t.transferEncoding = false →
          0 ≤ t.contentLength ∧ t.contentLength < 2 ^ 63 := by
        intro hch
        rw [hcl]
        rcases hacc.length with h | ⟨_, h | h⟩
        · exact h
        · rw [hch] at h
          cases h
        · cases h
      refine ⟨hvalid, hurl, hsp, hacc.header, ?_, hacc.encoding, ?_,
        hacc.trailer, ?_⟩
      · dsimp only
        rw [hhost, if_pos rfl, Header.first]
        cases hv : hdr.values (lit "Host") with
        | nil => simp
        | cons v vs => exact hplain.values_nl (k :=
            lit "Host") (by rw [hv]; exact List.mem_cons_self)
      · dsimp only
        rw [hh2]
        exact hlen
      · intro hmethod
        dsimp only [requestFraming] at hmethod ⊢
        rw [hh2, hacc.body, ← hcl, transferBody]
        have hno : noResponseBodyExpected l.method = false :=
          beq_false_of_ne hmethod
        cases hch : chunked t.transferEncoding with
        | true => exact .inr ⟨by simp,
            t.close, by simp [hno, bodyAllowedForStatus, bodyFor]⟩
        | false =>
          obtain ⟨h1, _⟩ := hlen hch
          simp only [Bool.false_eq_true, if_false]
          by_cases hz : t.contentLength = 0
          · rw [hz]
            exact .inl ⟨rfl, rfl⟩
          · refine .inr ⟨?_, t.close, ?_⟩
            · intro h
              have := Framing.length.inj h
              omega
            · rw [if_neg hz, if_pos (by omega)]
              rfl

/-! ## What is written -/

/-- A header that is written as it is meant: its names can be written, and only
the framing fields have framing names. -/
structure Sendable (h : Header) : Prop where
  key : ∀ e ∈ h.entries, FieldKey e.1
  honest : ∀ e ∈ h.entries, isFramingKey (canonicalKey e.1) = true →
    isFramingKey e.1 = true
  userAgent : ∀ v ∈ h.values (lit "User-Agent"), nl ∉ v

theorem PlainHeader.sendable {h : Header} (hh : PlainHeader h) :
    Sendable h where
  key e he := (hh e he).key
  honest e he := by rw [(hh e he).canonical]; exact id
  userAgent _ hv := hh.values_nl hv

theorem Sendable.put {h : Header} (hh : Sendable h) {k : Bytes}
    {vs : List Bytes} (hk : FieldKey k)
    (hhonest : isFramingKey (canonicalKey k) = true → isFramingKey k = true)
    (hua : k = lit "User-Agent" → ∀ v ∈ vs, nl ∉ v) :
    Sendable (h.put k vs) where
  key e he := by
    rcases Header.mem_put.mp he with he | rfl
    · exact hh.key e he.1
    · exact hk
  honest e he := by
    rcases Header.mem_put.mp he with he | rfl
    · exact hh.honest e he.1
    · exact hhonest
  userAgent v hv := by
    by_cases hkey : k = lit "User-Agent"
    · subst hkey
      rw [Header.values_put_self] at hv
      exact hua rfl v hv
    · rw [Header.values_put_of_ne (Ne.symm hkey)] at hv
      exact hh.userAgent v hv

theorem fieldKey_of_token {k : Bytes} (hk : k ≠ [] ∧ k.all isTokenByte = true) :
    FieldKey (canonicalKey k) := by
  have htok : (canonicalKey k).all isTokenByte = true := by
    unfold canonicalKey
    rw [if_pos hk.2]
    exact all_isTokenByte_capitalize hk.2 true
  exact (plainEntry_of_key (v := []) htok (canonicalKey_ne_nil hk.1)
    (canonicalKey_idem k)
    (by simp)).key

theorem Sendable.set {h : Header} (hh : Sendable h) (k : FieldName) {v : Bytes}
    (hv : nl ∉ v) :
    Sendable (h.set k.1 v) := by
  refine hh.put (fieldKey_of_token k.2) (by rw [canonicalKey_idem]; exact id) ?_
  intro _ w hw
  rw [List.mem_singleton.mp hw]
  exact hv

section Outgoing

variable {C : Type} (cfg : HTTPConfig) (isInbound : Bool) (tr : Tracer C)

theorem Sendable.editHeader {h : Header} (hh : Sendable h)
    (cache : List (Bytes × C)) (uuid : FieldValue) :
    Sendable (editHeader cfg isInbound tr cache uuid.1 h) := by
  have hid : Sendable (if cfg.requestId h = [] then
      h.set cfg.requestIdHeaderName.1 uuid.1 else h) := by
    split
    · exact hh.set cfg.requestIdHeaderName uuid.2.1
    · exact hh
  unfold Protocol.editHeader
  generalize (if cfg.requestId h = [] then
    h.set cfg.requestIdHeaderName.1 uuid.1 else h) = h₁ at hid
  have hsource : ∀ g : Header, Sendable g →
    Sendable (if g.get cfg.xSourceHeaderName.1 = [] then
      g.set cfg.xSourceHeaderName.1 cfg.xSourceValue.1 else g) := by
    intro g hg
    split
    · exact hg.set cfg.xSourceHeaderName cfg.xSourceValue.2.1
    · exact hg
  dsimp only
  split
  · exact hid
  · cases cache.lookup (cfg.requestId h₁) with
    | none => exact hsource _ hid
    | some ctx =>
      have hkey : FieldKey traceContextHeaderName :=
        ⟨by decide +kernel, by decide +kernel, by decide +kernel, by
          decide +kernel⟩
      exact hsource _ (hid.put hkey (by decide +kernel) fun h => by cases h)

theorem Sendable.outgoing {r : Request} (hh : Sendable r.header) (t : Trip C) :
    Sendable (outgoing cfg isInbound tr t r).header := by
  have hedit := hh.editHeader cfg isInbound tr t.cache t.uuid
  unfold Protocol.outgoing editRequest
  dsimp only
  split
  · exact hedit
  · refine hedit.put (fieldKey_of_token (by decide)) (by decide) ?_
    intro hkey
    cases hkey

end Outgoing

/-! ## The host -/

theorem cutLast_eq_some {c : UInt8} {s a b : Bytes}
    (h : cutLast c s = some (a, b)) :
    s = a ++ c :: b := by
  unfold cutLast at h
  obtain ⟨⟨x, y⟩, hcut, heq⟩ := Option.map_eq_some_iff.mp h
  cases heq
  have := congrArg List.reverse (cutByte_eq_some.mp hcut).1
  simpa using this

theorem splitHostPort_nl {s host port : Bytes} (hs : nl ∉ s)
    (h : splitHostPort s = some (host, port)) : nl ∉ host ∧ nl ∉ port := by
  unfold splitHostPort at h
  split at h
  · cases h
  · next front port' hcut =>
      have heq := cutLast_eq_some hcut
      rw [heq, List.mem_append, List.mem_cons, not_or, not_or] at hs
      split at h
      · split at h
        · cases h
        · next inside rest hcut' =>
            split at h
            · cases h
              refine ⟨fun hm => ?_, hs.2.2⟩
              have hmem : nl ∈ s := by
                rw [(cutByte_eq_some.mp hcut').1]
                exact List.mem_append_left _ (List.mem_of_mem_tail hm)
              rw [heq, List.mem_append, List.mem_cons] at hmem
              rcases hmem with h | h | h
              · exact hs.1 h
              · exact hs.2.1 h
              · exact hs.2.2 h
            · cases h
      · split at h
        · cases h
        · cases h
          exact ⟨hs.1, hs.2.2⟩

section Host

variable {idna : Bytes → Option Bytes} (hidna : ∀ v a, idna v = some a → nl ∉ a)

include hidna

theorem idnaASCII_nl {v a : Bytes} (hv : nl ∉ v)
    (h : idnaASCII idna v = some a) : nl ∉ a := by
  unfold idnaASCII at h
  split at h
  · cases h
    exact hv
  · exact hidna v a h

theorem cleanHost_nl {s : Bytes} (hs : nl ∉ s) : nl ∉ cleanHost idna s := by
  have hs' : nl ∉ s.takeWhile fun b => b != sp && b != 47 :=
    fun hm => hs ((List.takeWhile_sublist _).mem hm)
  unfold cleanHost
  dsimp only
  generalize s.takeWhile (fun b => b != sp && b != 47) = t at hs'
  split
  · cases ha : idnaASCII idna t with
    | none => exact hs'
    | some a => exact idnaASCII_nl hidna hs' ha
  · next host port hsplit =>
      obtain ⟨hhost, hport⟩ := splitHostPort_nl hs' hsplit
      split
      · exact hs'
      · next a ha =>
          have hna := idnaASCII_nl hidna hhost ha
          unfold joinHostPort
          split <;> simp +decide [hna, hport]

theorem outgoingHost_nl {r : Request} (hhost : nl ∉ r.host)
    (hurl : r.url.host = []) :
    nl ∉ r.outgoingHost idna := by
  have hclean : nl ∉ (if cleanHost idna r.host = [] then
    cleanHost idna r.url.host
      else cleanHost idna r.host) := by
    split
    · exact cleanHost_nl hidna (by rw [hurl]; simp)
    · exact cleanHost_nl hidna hhost
  unfold Request.outgoingHost removeZone
  dsimp only
  generalize (if cleanHost idna r.host = [] then cleanHost idna r.url.host
      else cleanHost idna r.host) = h at hclean
  split
  · exact hclean
  · split
    · exact hclean
    · next front back hcut =>
        rw [cutLast_eq_some hcut] at hclean
        split
        · rw [cutLast_eq_some hcut]
          exact hclean
        · next addr zone hcut' =>
            rw [cutLast_eq_some hcut'] at hclean
            simp only [List.mem_append, List.mem_cons, not_or] at hclean ⊢
            exact ⟨hclean.1.1, hclean.2⟩

end Host

/-! ## The head -/

/-- The fields of a request that is written. -/
def requestLines (idna : Bytes → Option Bytes) (r : Request) :
    List (Bytes × Bytes) :=
  [(lit "Host", r.outgoingHost idna)] ++
  (if r.outgoingUserAgent ≠ [] then [(lit "User-Agent", r.outgoingUserAgent)]
    else []) ++
  frameLines (newRequestWriter r) ++ fieldLines reqWriteExcludeHeader r.header

/-- Its first line. -/
def requestStart (idna : Bytes → Option Bytes) (r : Request) : Bytes :=
  r.method ++ sp :: r.outgoingURI idna ++ lit " HTTP/1.1"

theorem requestHead_flatten (idna : Bytes → Option Bytes) {r : Request}
    (hm : r.method ≠ []) :
    (r.headPieces idna).flatten =
      requestStart idna r ++ crlf ++ linesWire (requestLines idna r) ++
        crlf := by
  have hflush : ∀ b : Bool, (if b then [([] : Bytes)] else []).flatten =
      [] := by
    intro b
    cases b <;> rfl
  have hua : ∀ ua : Bytes, (if ua ≠ [] then [lit "User-Agent: " ++ ua ++ crlf]
    else []).flatten =
      linesWire (if ua ≠ [] then [(lit "User-Agent", ua)] else []) := by
    intro ua
    split
    · simp [linesWire, lineWire, lit]
    · rfl
  unfold Request.headPieces requestLines requestStart
  dsimp only
  rw [if_neg hm, List.flatten_append, hflush, List.append_nil,
    List.flatten_append,
    List.flatten_append, List.flatten_append, List.flatten_append, hua,
      headerPieces_flatten,
    linePieces_flatten, linesWire_append, linesWire_append, linesWire_append]
  simp [linesWire, lineWire, lit]

section Head

variable {idna : Bytes → Option Bytes} {r : Request}

/-- A request as it is written: what was read, with other fields added. -/
structure Outgoing (r : Request) : Prop where
  method : validMethod r.method = true
  url : parseRequestURI r.requestURI = some r.url
  rooted : r.requestURI.head? = some 47
  blank : sp ∉ r.requestURI
  header : Sendable r.header
  host : nl ∉ r.host
  encoding : r.transferEncoding = encodings (chunked r.transferEncoding)
  length : chunked r.transferEncoding = false →
    0 ≤ r.contentLength ∧ r.contentLength < 2 ^ 63
  trailer : TrailerOf (chunked r.transferEncoding) r.trailer
  body : (requestFraming r = .length 0 ∧ r.body = none) ∨
    (requestFraming r ≠ .length 0 ∧ ∃ cl,
      r.body = some (bodyFor cl (requestFraming r)))

theorem RequestFacts.outgoing {C : Type} {cfg : HTTPConfig} {isInbound : Bool}
    {tr : Tracer C} {t : Trip C} (h : RequestFacts r)
    (hroot : r.requestURI.head? = some 47) (hmethod : r.method ≠ methodHead) :
    Outgoing (outgoing cfg isInbound tr t r) := by
  have hs := h.header.sendable.outgoing cfg isInbound tr t
  rw [outgoing_eq]
  exact ⟨h.method, h.url, hroot, h.blank, hs, h.host, h.encoding, h.length,
    h.trailer, h.body hmethod⟩

theorem Outgoing.target (h : Outgoing r) (idna : Bytes → Option Bytes) :
    r.outgoingURI idna = r.url.requestURI ∧
    r.url.requestURI.head? = some 47 ∧ sp ∉ r.url.requestURI ∧
      nl ∉ r.url.requestURI ∧
      (parseRequestURI r.url.requestURI).isSome = true ∧ r.url.host = [] := by
  obtain ⟨hhost, hpath, _, hhead, hsp, hnl, hsome⟩ :=
    target_again h.url h.rooted h.blank
  refine ⟨?_, hhead, hsp, hnl, hsome, hhost⟩
  rw [Request.outgoingURI, if_neg fun hc => hpath hc.2]

theorem validMethod_iff {m : Bytes} (h : validMethod m = true) :
    m ≠ [] ∧ sp ∉ m ∧ nl ∉ m := by
  simp only [validMethod, ne_eq, Bool.and_eq_true, decide_eq_true_eq,
    List.all_eq_true] at h
  refine ⟨h.1, fun hm => ?_, fun hm => ?_⟩
  · exact absurd (h.2 sp hm) (by decide)
  · exact absurd (h.2 nl hm) (by decide)

/-- The first line is understood as it was meant. -/
theorem Outgoing.requestLine (h : Outgoing r) (idna : Bytes → Option Bytes) :
    ∃ l, requestLine (requestStart idna r) = .ok l ∧ l.method = r.method ∧
      l.major = 1 ∧ l.minor = 1 ∧ l.proto = lit "HTTP/1.1" := by
  obtain ⟨htarget, hhead, hsp, _, hsome, _⟩ := h.target idna
  obtain ⟨url, hurl⟩ := Option.isSome_iff_exists.mp hsome
  have hparse : parseRequestLine (requestStart idna r) =
      some (r.method, r.url.requestURI, lit "HTTP/1.1") := by
    rw [requestStart, htarget,
      show r.method ++ sp :: r.url.requestURI ++ lit " HTTP/1.1" =
      r.method ++ sp :: (r.url.requestURI ++ sp :: lit "HTTP/1.1") by
        simp [lit], parseRequestLine,
      cutByte_append (validMethod_iff h.method).2.1]
    dsimp only
    rw [cutByte_append hsp]
    rfl
  have hpath : ¬ (r.method = lit "CONNECT" ∧
      r.url.requestURI.head? ≠ some 47) :=
    fun hc => hc.2 hhead
  unfold Http.requestLine
  rw [hparse]
  dsimp only
  rw [h.method, if_neg (by simp),
    show parseHTTPVersion (lit "HTTP/1.1") = some (1, 1) by decide]
  dsimp only
  rw [if_neg hpath, hurl]
  exact ⟨_, rfl, rfl, rfl, rfl, rfl⟩

theorem Outgoing.start_nl (h : Outgoing r) (idna : Bytes → Option Bytes) :
    nl ∉ requestStart idna r := by
  obtain ⟨htarget, _, _, hnl, _⟩ := h.target idna
  rw [requestStart, htarget]
  simp only [List.mem_append, List.mem_cons, not_or]
  exact ⟨⟨(validMethod_iff h.method).2.2, by decide, hnl⟩, by decide⟩

theorem frameLines_ok {t : TransferWriter}
    (hks : ∀ k ∈ trailerKeys t, TrailerKey k) :
    ∀ f ∈ frameLines t, FieldKey f.1 ∧ nl ∉ f.2 := by
  have hkey : ∀ k ∈ [lit "Connection", lit "Content-Length",
    lit "Transfer-Encoding",
      lit "Trailer"], FieldKey k := by
    intro k hk
    simp only [List.mem_cons, List.not_mem_nil, or_false] at hk
    rcases hk with rfl | rfl | rfl | rfl <;>
      exact ⟨by decide +kernel, by decide +kernel, by decide +kernel, by
        decide +kernel⟩
  intro f hf
  simp only [frameLines, List.mem_append] at hf
  rcases hf with (hf | hf) | hf
  · split at hf
    · cases List.mem_singleton.mp hf
      exact ⟨hkey _ (by simp), by decide⟩
    · cases hf
  · split at hf
    · cases List.mem_singleton.mp hf
      refine ⟨hkey _ (by simp), fun hm => ?_⟩
      obtain ⟨d, hd, heq⟩ := mem_itoa hm
      exact absurd heq.symm ((by decide : ∀ d, d < 10 → digit d ≠ nl) d hd)
    · split at hf
      · cases List.mem_singleton.mp hf
        exact ⟨hkey _ (by simp), by decide⟩
      · cases hf
  · split at hf
    · cases hf
    · cases List.mem_singleton.mp hf
      refine ⟨hkey _ (by simp), fun hm => ?_⟩
      rcases mem_intercalate hm with h | ⟨k, hk, hb⟩
      · cases h
      · exact (hks k hk).nl hb

theorem Sendable.fieldLines {hd : Header} (hh : Sendable hd)
    {exclude : List Bytes} :
    ∀ f ∈ fieldLines exclude hd, FieldKey f.1 ∧ nl ∉ f.2 := by
  intro f hf
  obtain ⟨vs, hmem, _, v, _, hval⟩ := mem_fieldLines.mp hf
  exact ⟨hh.key _ hmem, by rw [hval]; exact nl_not_mem_sanitize v⟩

/-- The framing fields are not written from the header. -/
theorem Sendable.unframed {hd : Header} (hh : Sendable hd)
    {exclude : List Bytes} (hex : ∀ k, isFramingKey k = true → k ∈ exclude) :
    ∀ f ∈ Http.fieldLines exclude hd, isFramingKey (canonicalKey f.1) =
      false := by
  intro f hf
  obtain ⟨vs, hmem, hnot, _⟩ := mem_fieldLines.mp hf
  by_contra hframing
  exact hnot (hex f.1 (hh.honest _ hmem (by simpa using hframing)))

theorem isFramingKey_excluded {k : Bytes} (h : isFramingKey k = true) :
    k ∈ reqWriteExcludeHeader ∧ k ∈ respExcludeHeader := by
  simp only [isFramingKey, Bool.or_eq_true, beq_iff_eq] at h
  rcases h with (rfl | rfl) | rfl <;> decide

end Head

section Again

variable {idna : Bytes → Option Bytes} (hidna : ∀ v a,
  idna v = some a → nl ∉ a) {r : Request}

theorem Outgoing.writer (h : Outgoing r) :
    chunked (newRequestWriter r).transferEncoding = chunked r.transferEncoding ∧
      (newRequestWriter r).trailer = r.trailer ∧
      (chunked r.transferEncoding = false →
        (newRequestWriter r).contentLength = r.contentLength) := by
  refine ⟨rfl, ?_, ?_⟩
  · rcases h.trailer with htr | ⟨hte, _⟩
    · simp only [newRequestWriter, sanitizeTransfer, htr, ite_self]
    · simp only [newRequestWriter, sanitizeTransfer, if_true, hte]
  · intro hch
    simp only [newRequestWriter, sanitizeTransfer, if_true, hch,
      Bool.false_eq_true, if_false]
    have hlen := h.length hch
    unfold Request.outgoingLength
    rcases h.body with ⟨hfr, hb⟩ | ⟨hfr, cl, hb⟩
    · rw [hb]
      rw [requestFraming, if_neg (by simp [hch])] at hfr
      have := Framing.length.inj hfr
      dsimp only
      omega
    · rw [hb]
      dsimp only
      rw [if_pos]
      intro hz
      rw [requestFraming, if_neg (by simp [hch]), hz] at hfr
      exact hfr rfl

theorem Outgoing.trailerOf (h : Outgoing r) :
    TrailerOf (chunked r.transferEncoding) (newRequestWriter r).trailer := by
  rw [h.writer.2.1]
  exact h.trailer

theorem fieldKey_host : FieldKey (lit "Host") ∧ FieldKey (lit "User-Agent") :=
  ⟨⟨by decide +kernel, by decide +kernel, by decide +kernel, by decide +kernel⟩,
    ⟨by decide +kernel, by decide +kernel, by decide +kernel, by
      decide +kernel⟩⟩

theorem userAgent_nl (h : Sendable r.header) : nl ∉ r.outgoingUserAgent := by
  unfold Request.outgoingUserAgent
  split
  · rw [Header.first]
    cases hv : r.header.values (lit "User-Agent") with
    | nil => simp
    | cons v vs => exact h.userAgent v (by rw [hv]; exact List.mem_cons_self)
  · decide

include hidna in
theorem Outgoing.lines (h : Outgoing r) :
    ∀ f ∈ requestLines idna r, FieldKey f.1 ∧ nl ∉ f.2 := by
  intro f hf
  simp only [requestLines, List.mem_append] at hf
  rcases hf with ((hf | hf) | hf) | hf
  · cases List.mem_singleton.mp hf
    exact ⟨fieldKey_host.1,
      outgoingHost_nl hidna h.host (h.target idna).2.2.2.2.2⟩
  · split at hf
    · cases List.mem_singleton.mp hf
      exact ⟨fieldKey_host.2, userAgent_nl h.header⟩
    · cases hf
  · exact frameLines_ok h.trailerOf.keys.1 f hf
  · exact h.header.fieldLines f hf

/-- The length a request is read back with. -/
def resentLength (r : Request) : Option Nat :=
  if (newRequestWriter r).shouldSendContentLength then
    some (newRequestWriter r).contentLength.toNat
  else none

theorem Outgoing.framed (h : Outgoing r) (idna : Bytes → Option Bytes) :
    FramedBy ((requestLines idna r).foldl addLine Header.empty)
      (chunked r.transferEncoding)
      (resentLength r) (trailerKeys (newRequestWriter r)) := by
  have hpre : ∀ f ∈ [(lit "Host", r.outgoingHost idna)] ++
    (if r.outgoingUserAgent ≠ [] then
      [(lit "User-Agent", r.outgoingUserAgent)] else []),
        isFramingKey (canonicalKey f.1) = false := by
    intro f hf
    rcases List.mem_append.mp hf with hf | hf
    · cases List.mem_singleton.mp hf
      exact (by decide : isFramingKey (canonicalKey (lit "Host")) = false)
    · split at hf
      · cases List.mem_singleton.mp hf
        exact (by decide : isFramingKey (canonicalKey (lit "User-Agent")) =
          false)
      · cases hf
  have hF := framedBy_lines (t := newRequestWriter r) false hpre
    (h.header.unframed fun k hk => (isFramingKey_excluded hk).1)
    (fun hz => by cases hz) h.trailerOf.keys.1
  simp only [Bool.false_eq_true, if_false, List.append_nil] at hF
  exact hF

theorem Outgoing.resentLength_spec (h : Outgoing r) :
    (chunked r.transferEncoding = true → resentLength r = none) ∧
      (∀ n, resentLength r = some n → n < 2 ^ 63) ∧
      (chunked r.transferEncoding = false →
        lengthOf false 200 false (resentLength r) = r.contentLength) := by
  obtain ⟨hte, _, hcl⟩ := h.writer
  refine ⟨?_, ?_, ?_⟩
  · intro hch
    rw [resentLength, shouldSend_of_chunked (hte.trans hch), if_neg (by simp)]
  · intro n hn
    unfold resentLength at hn
    split at hn
    · next hsend =>
        cases hch : chunked r.transferEncoding with
        | true =>
          rw [shouldSend_of_chunked (hte.trans hch)] at hsend
          cases hsend
        | false =>
          have := h.length hch
          rw [hcl hch] at hn
          have := Option.some.inj hn
          omega
    · cases hn
  · intro hch
    have hlen := h.length hch
    unfold resentLength lengthOf
    rw [hcl hch]
    simp only [Nat.reduceDiv, Nat.reduceEqDiff, or_self, if_false,
      Bool.false_eq_true]
    cases hsend : (newRequestWriter r).shouldSendContentLength with
    | true =>
      simp only [if_true]
      omega
    | false =>
      -- only an empty body goes without a length
      simp only [Bool.false_eq_true, if_false]
      unfold TransferWriter.shouldSendContentLength at hsend
      rw [hte, hch, if_neg (by simp), hcl hch] at hsend
      split at hsend
      · cases hsend
      · omega

/-- A request that is written is read as one with the same method, the same
framing and the same announced trailer. -/
theorem Outgoing.again (hidna : ∀ v a, idna v = some a → nl ∉ a)
    (h : Outgoing r) (hmethod : r.method ≠ methodHead) :
    ∃ r', r'.method = r.method ∧ requestFraming r' = requestFraming r ∧
      r'.trailer = (if trailerKeys (newRequestWriter r) = [] then none
        else some (announce (trailerKeys (newRequestWriter r)))) ∧
      ∀ rest, Parses readRequest .eof
        ((r.headPieces idna).flatten ++ rest) r' rest := by
  obtain ⟨l, hline, hlm, hmajor, hminor, hproto⟩ := h.requestLine idna
  obtain ⟨hks, hte, _, _⟩ := h.trailerOf.keys
  obtain ⟨hnone, hlt, hlen⟩ := h.resentLength_spec
  have hF : FramedBy (shouldClose l.major l.minor (fixPragmaCacheControl
      (((requestLines idna r).foldl addLine Header.empty).delete (lit "Host")))
        false).2 _ _ _ :=
    (((h.framed idna).delete (by decide)).fixPragma).shouldClose l.major
      l.minor false
  obtain ⟨t, ht, htenc, htlen, httr⟩ :=
    readTransfer_framed false 200 l.major l.minor
    (shouldClose l.major l.minor (fixPragmaCacheControl
      (((requestLines idna r).foldl addLine Header.empty).delete (lit "Host")))
        false).1 hF
    (by rw [hmajor, hminor]; exact fun _ => by decide) hnone hlt
    (show noResponseBodyExpected l.method =
      false by rw [hlm]; exact beq_false_of_ne hmethod) hks hte
  have hh2 : isH2Upgrade l t.header = false := by
    unfold isH2Upgrade
    rw [hproto, show (lit "HTTP/1.1" == lit "HTTP/2.0") = false by decide,
      Bool.and_false]
  have hfin : ∃ r', finishRequest l
    ((requestLines idna r).foldl addLine Header.empty) = .ok r' ∧
      r'.method = l.method ∧ r'.transferEncoding = t.transferEncoding ∧
      r'.contentLength = t.contentLength ∧ r'.trailer = t.trailer := by
    unfold finishRequest
    dsimp only
    rw [ht]
    dsimp only
    rw [hh2]
    exact ⟨_, rfl, rfl, rfl, rfl, rfl⟩
  obtain ⟨r', hr', hm', hte', hlen', htr'⟩ := hfin
  refine ⟨r', hm'.trans hlm, ?_, htr'.trans httr, ?_⟩
  · unfold requestFraming
    rw [hte', htenc, chunked_encodings]
    cases hch : chunked r.transferEncoding with
    | true => rfl
    | false => rw [if_neg (by simp), if_neg (by simp), hlen', htlen, hch,
        hlen hch]
  · intro rest
    refine parses_of_gives _ ?_
    rw [requestHead_flatten idna (validMethod_iff h.method).1]
    have hfirst : Gives 0xfff (readLineSlice : Parser Tee Err Bytes)
      (requestStart idna r ++ crlf ++
        (linesWire (requestLines idna r) ++ crlf ++ rest))
          (requestStart idna r) _ :=
      gives_readLineSlice (by decide) (h.start_nl idna)
    rw [show requestStart idna r ++ crlf ++ linesWire (requestLines idna r) ++
      crlf ++ rest = requestStart idna r ++ crlf ++
        (linesWire (requestLines idna r) ++ crlf ++ rest) by simp]
    refine hfirst.bind (Gives.mapError ?_ _)
    rw [hline]
    refine Gives.bind .pure
      ((gives_readMIMEHeader (by decide) (h.lines hidna)).bind ?_)
    rw [hr']
    exact .pure

end Again

/-! ## Requests that arrive as they were sent -/

/-- What the loop can be expected to preserve: a request that is neither a HEAD
nor an upgrade, whose target is a path, and whose trailer section, written
again, is not too long to be read. -/
structure Forwardable (m : Message Request) : Prop where
  rooted : m.head.requestURI.head? = some 47
  method : m.head.method ≠ methodHead
  upgrade : toLower (m.head.header.get (lit "Connection")) ≠ lit "upgrade"
  fits : Fits m.head.trailer m.trailer

/-- The same method, the same body and, if it announces a trailer, the same
trailer fields up to the sanitizing of their values. -/
structure SameRequest (m m' : Message Request) : Prop where
  method : m'.head.method = m.head.method
  data : m'.data = m.data
  trailer : SameTrailers Request.trailer m m'

section Preserved

variable {C : Type} (cfg : HTTPConfig) (isInbound : Bool) (tr : Tracer C)
  (idna : Bytes → Option Bytes) (trips : Nat → Trip C) (w : World)

theorem requestFraming_outgoing (t : Trip C) (r : Request) :
    requestFraming (outgoing cfg isInbound tr t r) = requestFraming r := by
  rw [outgoing_eq]
  rfl

/-- What stands behind the head of a request that is written, read back. -/
theorem Outgoing.carries {r : Request} (h : Outgoing r) {ps : List Bytes}
    {hdr : Option Header} (hps : ∀ p ∈ ps, p ≠ [] ∧ p.length ≤ 2 ^ 63)
    (hh : ∀ t, hdr = some t → PlainHeader t)
    (hlen : ∀ n, requestFraming r = .length n → ps.flatten.length = n)
    (hfit : Fits r.trailer hdr) (tail : Bytes) :
    Carries .eof (requestFraming r)
      (piecesWire (newRequestWriter r) ps ++ endWire (newRequestWriter r) hdr ++
        tail) ps.flatten
      (if chunked r.transferEncoding then
        (newRequestWriter r).trailer.bind fun a => rereadTrailer a hdr
          else none) tail := by
  obtain ⟨hte, htr, _⟩ := h.writer
  cases hch : chunked r.transferEncoding with
  | true =>
    rw [requestFraming, if_pos hch, if_pos rfl]
    exact carries_chunked (hte.trans hch) hps h.trailerOf hh
      (by rw [htr]; exact hfit) tail
  | false =>
    have hfr : requestFraming r = .length r.contentLength.toNat := by
      rw [requestFraming, if_neg (by simp [hch])]
    rw [plainWire (hte.trans hch), if_neg (by simp), hfr, ← hlen _ hfr]
    exact carries_length ps.flatten tail

theorem Carries.data_length {fin : Err} {fr : Framing} {n : Nat}
    {v data rest : Bytes} {hdr : Option Header}
    (h : Carries fin fr v data hdr rest) (hfr : fr = .length n) :
    data.length = n := by
  subst hfr
  obtain ⟨hle, rfl, _⟩ := h.of_length
  rw [List.length_take]
  omega

/-- What is written for a complete body. -/
theorem Outgoing.written {r : Request} (h : Outgoing r) {c : Copy Tee}
    {data rest : Bytes} {hdr : Option Header} (hbody : c.body = r.body)
    (htrailer : c.trailer = none) (hfails : NoFail c.out.fails)
    (hsize : c.rd.size = 0xfff) (hsizes : ∀ k ∈ c.sizes, k < 2 ^ 63)
    (hcarries : Carries c.rd.fin (requestFraming r) c.rd.view data hdr rest) :
    (r.write idna c).2.rd.view = rest ∧ ∃ ps, ps.flatten = data ∧
      (∀ p ∈ ps, p ≠ [] ∧ p.length ≤ 2 ^ 63) ∧
      (r.write idna c).2.out.bytes = c.out.bytes ++
        (r.headPieces idna).flatten ++ (piecesWire (newRequestWriter r) ps ++
          endWire (newRequestWriter r) hdr) := by
  obtain ⟨hte, _, _⟩ := h.writer
  have hcounted : chunked r.transferEncoding = false →
      requestFraming r = .length r.contentLength.toNat := fun hch => by
    rw [requestFraming, if_neg (by simp [hch])]
  rw [requestWrite_eq idna r hfails, ← afterHead_bytes _ hfails]
  refine writeBody_carries ?_ ?_ htrailer
    (writeAll_ok _ hfails).2.2 hsize hsizes hcarries
  · rcases h.body with ⟨hfr, hb⟩ | ⟨hfr, cl, hb⟩
    · -- no body
      have hch : chunked r.transferEncoding = false := by
        by_contra hch
        rw [requestFraming, if_pos (by simpa using hch)] at hfr
        cases hfr
      exact .inl ⟨hfr, hbody.trans hb, hte.trans hch⟩
    · refine .inr ⟨hfr, cl, hbody.trans hb,
        suits_request (h := r.header) hb rfl fun hch => ?_⟩
      have hlen := h.length hch
      by_contra hle
      exact hfr (by rw [hcounted hch, Int.toNat_eq_zero.mpr (by omega)])
  · intro hclose
    unfold requestFraming at hclose
    split at hclose <;> cases hclose

theorem requestHandler_relays (hidna : ∀ v a, idna v = some a → nl ∉ a) :
    Relays (requestHandler cfg isInbound tr idna trips w)
      (fun _ => requestFraming)
      (fun _ => readRequest) (fun _ => requestFraming)
        (fun _ => Forwardable) SameRequest where
  conserves := requestHandler_conserves cfg isInbound tr idna trips w
  shrinks := shrinks_readRequest
  proceeds hg := decide_eq_false hg.upgrade
  relays {m rd₀ rd rest s} hread hsize hfails hg hcarries := by
    have hfacts := requestFacts hread hg.rooted
    have hout : Outgoing (outgoing cfg isInbound tr (trips s.count) m.head) :=
      hfacts.outgoing hg.rooted hg.method
    have heq := outgoing_eq cfg isInbound tr (trips s.count) m.head
    have hfr := requestFraming_outgoing cfg isInbound tr (trips s.count) m.head
    change ((outgoing cfg isInbound tr (trips s.count) m.head).write idna
      _).2.rd.view = _ ∧ ∃ w m',
        ((outgoing cfg isInbound tr (trips s.count) m.head).write idna
        _).2.out.bytes = _ ∧ _
    generalize outgoing cfg isInbound tr (trips s.count) m.head =
      r at hout heq hfr
    have hbody : r.body = m.head.body := by rw [heq]
    have htrailer : r.trailer = m.head.trailer := by rw [heq]
    have hmethod : r.method = m.head.method := by rw [heq]
    rw [← hfr] at hcarries
    obtain ⟨hview, ps, hflat, hps, hbytes⟩ := hout.written idna
      (c := s.copy (requestHandler cfg isInbound tr idna trips w) m.head rd)
        hbody.symm rfl hfails
      hsize (w.sizes_lt s.count) hcarries
    obtain ⟨r', hm', hfr', htr', hparse⟩ :=
      hout.again hidna (by rw [hmethod]; exact hg.method)
    refine ⟨hview, (r.headPieces idna).flatten ++
      (piecesWire (newRequestWriter r) ps ++
        endWire (newRequestWriter r) m.trailer),
      ⟨r', m.data, if chunked r.transferEncoding then
        (newRequestWriter r).trailer.bind fun a => rereadTrailer a m.trailer
          else none⟩,
      ?_, ⟨hm'.trans hmethod, rfl, ?_⟩, ?_⟩
    · rw [hbytes, List.append_assoc]
      rfl
    · intro a ha
      rw [← htrailer, ← hout.writer.2.1] at ha
      obtain ⟨hne, _⟩ := hout.trailerOf.keys.2.2.2 a ha
      have hch : chunked r.transferEncoding = true :=
        hout.trailerOf.keys.2.1 hne
      refine ⟨_, by rw [htr', if_neg hne], ?_⟩
      rw [if_pos hch]
      exact hout.trailerOf.same hcarries.plain ha
    · intro tail _
      refine ⟨_, by rw [List.append_assoc]; exact hparse _, ?_⟩
      dsimp only
      rw [hfr', ← hflat]
      exact hout.carries hps hcarries.plain
        (fun n hn => by rw [hflat]; exact hcarries.data_length hn)
        (by rw [htrailer]; exact hg.fits) tail

/-- Every stream of complete requests that can be forwarded, cut in any way,
leaves `HandleRequest` as a stream of the same requests in the same order, with
nothing in between and nothing left over. -/
theorem requests_preserved (hidna : ∀ v a, idna v = some a → nl ∉ a)
    (hfails : ∀ k, NoFail (w.fails k)) (conn : Conn)
    (ms : List (Message Request))
    (hms : Messages (fun _ => readRequest)
      (fun _ => requestFraming) conn.fin 0 ms conn.data)
    (hgood : ∀ m ∈ ms, Forwardable m) :
    ∃ ms', Messages (fun _ => readRequest) (fun _ => requestFraming) .eof 0 ms'
        (handle (requestHandler cfg isInbound tr idna trips w)
          (Loop.init conn)).out ∧
      List.Forall₂ SameRequest ms ms' :=
  relayed (requestHandler_relays cfg isInbound tr idna trips w hidna) hfails hms
    fun _ m hm => hgood m (List.mem_of_getElem? hm)

end Preserved

/-! ## Two streams

A carriage return inside a trailer value comes out as a blank; a chunked request
with a plain trailer and a second request behind it come out as they went in. -/

/-- A chunked request that announces a trailer field, and what follows it. -/
def withTrailer (value rest : Bytes) : Conn where
  data :=
    lit "POST / HTTP/1.1\r\nTransfer-Encoding: chunked\r\nTrailer: A\r\n\r\n" ++
    (lit "2\r\nhi\r\n0\r\nA: " ++ value ++ lit "\r\n\r\n" ++ rest)

/-- The header with this one field. -/
def fieldA (value : Bytes) : Header := Header.empty.put (lit "A") [value]

/-- What the parser makes of it, and of what is written for it. -/
def IsPost (r : Request) : Prop :=
  r.requestURI = lit "/" ∧ r.method = lit "POST" ∧
    r.header.get (lit "Connection") = [] ∧
    requestFraming r = .chunked ∧ r.trailer = some (announce [lit "A"])

instance (r : Request) : Decidable (IsPost r) :=
  inferInstanceAs (Decidable (_ ∧ _))

theorem carries_hi (value rest : Bytes)
    (hhead : chunkHead 0xfff (lit "2\r\nhi\r\n0\r\nA: " ++ value ++
      lit "\r\n\r\n" ++ rest) = some (2,
      lit "hi" ++ crlf ++ (lit "0\r\nA: " ++ value ++ lit "\r\n\r\n" ++ rest)))
    (hlast : chunkHead 0xfff (lit "0\r\nA: " ++ value ++ lit "\r\n\r\n" ++ rest)
      = some (0, lit "A: " ++ value ++ lit "\r\n\r\n" ++ rest))
    (htrailer : Parses readTrailer .eof
      (lit "A: " ++ value ++ lit "\r\n\r\n" ++ rest) (some (fieldA value)) rest)
    :
    Carries .eof .chunked (lit "2\r\nhi\r\n0\r\nA: " ++ value ++
      lit "\r\n\r\n" ++ rest) (lit "hi")
      (some (fieldA value)) rest :=
  .chunked (.chunk (d := lit "hi") (by decide) hhead (.last hlast)) htrailer

theorem trailer_value_rewritten :
    ¬ ∀ (conn : Conn) (ms : List (Message Request)),
      Messages (fun _ => readRequest)
        (fun _ => requestFraming) conn.fin 0 ms conn.data →
      (∀ m ∈ ms, m.head.requestURI.head? = some 47 ∧
        m.head.method ≠ methodHead ∧
        toLower (m.head.header.get (lit "Connection")) ≠ lit "upgrade") →
      ∃ ms', Messages (fun _ => readRequest)
        (fun _ => requestFraming) .eof 0 ms'
          (handle (plainRequests {}) (Loop.init conn)).out ∧
        List.Forall₂ (fun m m' => m'.head.method = m.head.method ∧
          m'.data = m.data ∧
          ∀ a, m.head.trailer = some a → ∃ a', m'.head.trailer = some a' ∧
            ∀ k, (mergedWith a' m'.trailer).values k =
              (mergedWith a m.trailer).values k) ms ms' := by
  intro h
  obtain ⟨r, u, hparse, hp⟩ :=
    exists_parses readRequest .eof (withTrailer (lit "x\ry") []).data
    (fun r u => decide (IsPost r ∧ u = lit "2\r\nhi\r\n0\r\nA: " ++
      lit "x\ry" ++ lit "\r\n\r\n" ++ []))
    (by decide +kernel)
  obtain ⟨⟨huri, hmethod, hconn, hfr, htrailer⟩, rfl⟩ := of_decide_eq_true hp
  have hcarries := carries_hi (lit "x\ry") [] (by decide +kernel)
    (by decide +kernel) (by decide +kernel)
  rw [← hfr] at hcarries
  obtain ⟨ms', hms', hsame⟩ := h (withTrailer (lit "x\ry") [])
    [⟨r, lit "hi", some (fieldA (lit "x\ry"))⟩] (.cons hparse hcarries .nil) (by
      intro m hm
      cases List.mem_singleton.mp hm
      rw [huri, hmethod, hconn]
      exact ⟨by decide, by decide, by decide⟩)
  -- the one message that was written
  obtain ⟨r', u', hparse', hp'⟩ := exists_parses readRequest .eof
    (handle (plainRequests {}) (Loop.init (withTrailer (lit "x\ry") []))).out
    (fun r u => decide (IsPost r ∧ u = lit "2\r\nhi\r\n0\r\nA: " ++ lit "x y" ++
      lit "\r\n\r\n" ++ []))
    (by decide +kernel)
  obtain ⟨⟨_, _, _, hfr', htrailer'⟩, rfl⟩ := of_decide_eq_true hp'
  have hcarries' := carries_hi (lit "x y") [] (by decide +kernel)
    (by decide +kernel) (by decide +kernel)
  rw [← hfr'] at hcarries'
  have hone : Messages (fun _ => readRequest) (fun _ => requestFraming) .eof 0
      [⟨r', lit "hi", some (fieldA (lit "x y"))⟩] _ :=
        .cons hparse' hcarries' .nil
  cases hms'.unique (fun _ => shrinks_readRequest) hone
  cases hsame with
  | cons hm _ =>
    obtain ⟨a', ha', hvalues⟩ := hm.2.2 _ htrailer
    rw [htrailer'] at ha'
    cases ha'
    have heq := hvalues (lit "A")
    dsimp only at heq
    exact absurd heq (by decide +kernel)

theorem requests_preserved_two :
    ∃ ms, Messages (fun _ => readRequest) (fun _ => requestFraming) .eof 0 ms
        (withTrailer (lit "x") (lit "GET /next HTTP/1.1\r\n\r\n")).data ∧
          ms.length = 2 ∧
      ∃ ms', Messages (fun _ => readRequest)
        (fun _ => requestFraming) .eof 0 ms'
          (handle (plainRequests {})
            (Loop.init (withTrailer (lit "x")
              (lit "GET /next HTTP/1.1\r\n\r\n")))).out ∧
        List.Forall₂ SameRequest ms ms' := by
  obtain ⟨r, u, hparse, hp⟩ := exists_parses readRequest .eof
    (withTrailer (lit "x") (lit "GET /next HTTP/1.1\r\n\r\n")).data
    (fun r u => decide (IsPost r ∧ u = lit "2\r\nhi\r\n0\r\nA: " ++ lit "x" ++
      lit "\r\n\r\n" ++ lit "GET /next HTTP/1.1\r\n\r\n")) (by decide +kernel)
  obtain ⟨⟨huri, hmethod, hconn, hfr, htrailer⟩, rfl⟩ := of_decide_eq_true hp
  obtain ⟨r₂, u₂, hparse₂, hp₂⟩ :=
    exists_parses readRequest .eof (lit "GET /next HTTP/1.1\r\n\r\n")
    (fun r u => decide (r.requestURI = lit "/next" ∧ r.method = lit "GET" ∧
      r.header.get (lit "Connection") = [] ∧ requestFraming r = .length 0 ∧
        r.trailer = none ∧
      u = [])) (by decide +kernel)
  obtain ⟨huri₂, hmethod₂, hconn₂, hfr₂, htrailer₂, rfl⟩ :=
    of_decide_eq_true hp₂
  have hcarries := carries_hi (lit "x") (lit "GET /next HTTP/1.1\r\n\r\n")
    (by decide +kernel) (by decide +kernel) (by decide +kernel)
  have hcarries₂ : Carries .eof (.length 0) [] [] none [] :=
    .length (Nat.zero_le _)
  rw [← hfr] at hcarries
  rw [← hfr₂] at hcarries₂
  have hms : Messages (fun _ => readRequest) (fun _ => requestFraming) .eof 0
      [⟨r, lit "hi", some (fieldA (lit "x"))⟩, ⟨r₂, [], none⟩]
      (withTrailer (lit "x") (lit "GET /next HTTP/1.1\r\n\r\n")).data :=
    .cons hparse hcarries (.cons hparse₂ hcarries₂ .nil)
  refine ⟨_, hms, rfl, ?_⟩
  refine requests_preserved HTTPConfig.default true plainTracer
    (fun _ => none) plainTrip {}
    (fun v a ha => by cases ha) (fun k b hb => by cases hb)
    (withTrailer (lit "x") (lit "GET /next HTTP/1.1\r\n\r\n")) _ hms ?_
  intro m hm
  simp only [List.mem_cons, List.not_mem_nil, or_false] at hm
  rcases hm with rfl | rfl
  · refine ⟨by rw [huri]; decide, by rw [hmethod]; decide, by
      rw [hconn]; decide, ?_⟩
    dsimp only
    rw [htrailer]
    decide +kernel
  · refine ⟨by rw [huri₂]; decide, by rw [hmethod₂]; decide, by
      rw [hconn₂]; decide, ?_⟩
    dsimp only
    rw [htrailer₂]
    decide +kernel

end Netramesh.Proofs
