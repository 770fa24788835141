import Netramesh.Proofs.Responses
import Netramesh.Proofs.Unaltered

/-!
# Messages that are read again

What one sidecar writes the next one reads. A request comes back with its path
and query, whatever escapes they were written with, and a message comes back
with the values of its fields, sanitized once and for all: reading and writing
it another time changes nothing more.
-/

namespace Netramesh.Proofs

open Http Net Protocol Lib

/-! ## The target -/

/-- A path that is written is read back as the same path with the same query. -/
theorem resource_again {uri : Bytes} {u u' : URL}
    (h : parseRequestURI uri = some u) (hslash : uri.head? = some 47)
    (h' : parseRequestURI u.requestURI = some u') :
    u'.path = u.path ∧ u'.querySuffix = u.querySuffix := by
  obtain ⟨e, qs, path, rfl, hhead, hmark, hqs, _, _, hop, hsuffix, hun, hpath,
      hraw⟩ :=
    rooted_parts h hslash
  obtain ⟨hcases, hhead', hmark', _⟩ :=
    escapedPath_again hhead hmark hun hpath hraw
  have hne : u.escapedPath ≠ [] := by
    intro hnil
    rw [hnil] at hhead'
    cases hhead'
  have huri : u.requestURI = u.escapedPath ++ qs := by
    rw [URL.requestURI, hop, if_pos rfl, if_neg hne, hsuffix]
  have hsame : unescape .path u.escapedPath = some path := by
    rcases hcases with hc | hc
    · rw [hc, hun]
    · rw [hc, unescape_escape]
  obtain ⟨u₁, _, _, hsuffix', hparse⟩ :=
    parseRequestURI_rooted hhead' hmark' hqs
  rw [huri, hparse] at h'
  split at h'
  · cases h'
  · obtain ⟨path', hun', rfl⟩ := Option.map_eq_some_iff.mp h'
    rw [hsame] at hun'
    cases hun'
    exact ⟨hpath.symm, hsuffix'.trans hsuffix.symm⟩

theorem requestLine_parse {raw : Bytes} {l : RequestLine}
    (h : requestLine raw = .ok l) :
    parseRequestLine raw = some (l.method, l.requestURI, l.proto) := by
  unfold requestLine at h
  split at h
  · cases h
  · next method uri proto hparse =>
      split at h
      · cases h
      · split at h
        · cases h
        · dsimp only at h
          split at h
          · cases h
          · cases h
            exact hparse

/-! ## The fields -/

/-- The names in a header are the ones they are read as, but for the name under
which a cached trace context is put. -/
def Spelled (h : Header) : Prop :=
  ∀ e ∈ h.entries, canonicalKey e.1 = e.1 ∨ e.1 = traceContextHeaderName

theorem Spelled.put {h : Header} (hh : Spelled h) {k : Bytes}
    (hk : canonicalKey k = k ∨ k = traceContextHeaderName) (vs : List Bytes) :
    Spelled (h.put k vs) := by
  intro e he
  rcases Header.mem_put.mp he with he | rfl
  · exact hh e he.1
  · exact hk

section Edited

variable {C : Type} (cfg : HTTPConfig) (isInbound : Bool) (tr : Tracer C)

theorem Spelled.editHeader {h : Header} (hh : Spelled h)
    (cache : List (Bytes × C)) (uuid : Bytes) :
    Spelled (editHeader cfg isInbound tr cache uuid h) := by
  have hset : ∀ {g : Header} (k v : Bytes), Spelled g → Spelled (g.set k v) :=
    fun k v hg => hg.put (.inl (canonicalKey_idem k)) [v]
  have hid : Spelled (if cfg.requestId h = [] then
      h.set cfg.requestIdHeaderName.1 uuid else h) := by
    split
    · exact hset _ _ hh
    · exact hh
  have hsource : ∀ g : Header, Spelled g →
    Spelled (if g.get cfg.xSourceHeaderName.1 = [] then
      g.set cfg.xSourceHeaderName.1 cfg.xSourceValue.1 else g) := by
    intro g hg
    split
    · exact hset _ _ hg
    · exact hg
  unfold Protocol.editHeader
  dsimp only
  split
  · exact hid
  · refine hsource _ ?_
    split
    · exact hid.put (.inr rfl) _
    · exact hid

theorem Spelled.outgoing {r : Request} (hh : Spelled r.header) (t : Trip C) :
    Spelled (outgoing cfg isInbound tr t r).header := by
  have hedit := hh.editHeader cfg isInbound tr t.cache t.uuid.1
  unfold Protocol.outgoing editRequest
  dsimp only
  split
  · exact hedit
  · exact hedit.put (.inl (canonicalKey_idem _)) _

end Edited

theorem mem_frameLines {t : TransferWriter} {f : Bytes × Bytes}
    (hf : f ∈ frameLines t) :
    f.1 = lit "Connection" ∨ f.1 = lit "Content-Length" ∨
      f.1 = lit "Transfer-Encoding" ∨ f.1 = lit "Trailer" := by
  simp only [frameLines, List.mem_append] at hf
  rcases hf with (hf | hf) | hf
  · split at hf
    · cases List.mem_singleton.mp hf
      exact .inl rfl
    · cases hf
  · split at hf
    · cases List.mem_singleton.mp hf
      exact .inr (.inl rfl)
    · split at hf
      · cases List.mem_singleton.mp hf
        exact .inr (.inr (.inl rfl))
      · cases hf
  · split at hf
    · cases hf
    · cases List.mem_singleton.mp hf
      exact .inr (.inr (.inr rfl))

theorem canonical_frameLines {t : TransferWriter} {f : Bytes × Bytes}
    (hf : f ∈ frameLines t) :
    canonicalKey f.1 = f.1 := by
  rcases mem_frameLines hf with h | h | h | h <;> rw [h] <;> rfl

/-- The lines of a request are read back under the names they were written
with. -/
theorem Spelled.lines {idna : Bytes → Option Bytes} {r : Request}
    (hh : Spelled r.header) {f : Bytes × Bytes} (hf : f ∈ requestLines idna r) :
    canonicalKey f.1 = f.1 ∨ f.1 = traceContextHeaderName := by
  simp only [requestLines, List.mem_append] at hf
  rcases hf with ((hf | hf) | hf) | hf
  · cases List.mem_singleton.mp hf
    exact .inl rfl
  · split at hf
    · cases List.mem_singleton.mp hf
      exact .inl rfl
    · cases hf
  · exact .inl (canonical_frameLines hf)
  · obtain ⟨vs, hmem, _⟩ := mem_fieldLines.mp hf
    exact hh _ hmem

/-- The values a field is read back with, if no other name is read as its
own. -/
theorem values_lines {fs : List (Bytes × Bytes)} {k : Bytes}
    (h : ∀ f ∈ fs, canonicalKey f.1 = k ↔ f.1 = k) :
    (fs.foldl addLine Header.empty).values k = (under k fs).map fieldValue := by
  have hfilter : fs.filter (fun f => canonicalKey f.1 = k) =
      fs.filter (fun f => f.1 = k) :=
    List.filter_congr fun f hf => decide_eq_decide.mpr (h f hf)
  rw [values_foldl_addLine, hfilter, under, List.map_map]
  exact List.nil_append _

theorem Spelled.values_again {idna : Bytes → Option Bytes} {r : Request}
    (hh : Spelled r.header) {k : Bytes} (hk : isTraceKey k = false) :
    ((requestLines idna r).foldl addLine Header.empty).values k =
      (under k (requestLines idna r)).map fieldValue := by
  refine values_lines fun f hf => ?_
  rcases hh.lines hf with heq | hraw
  · rw [heq]
  · -- the one name that changes is the tracer's before and after
    refine iff_of_false ?_ ?_
    · rintro rfl
      rw [hraw] at hk
      exact absurd hk (by decide)
    · rintro rfl
      rw [hraw] at hk
      exact absurd hk (by decide)

theorem fieldValue_sanitize (vs : List Bytes) :
    (vs.map sanitizeValue).map fieldValue = vs.map sanitizeValue := by
  rw [List.map_map]
  exact List.map_congr_left fun v _ =>
    fieldValue_of_trimmed (trimmed_sanitize v)

/-! ## The head -/

theorem Parses.runs {α : Type} {f : Parser Tee Err α} {fin : Err} {v u : Bytes}
    {a : α} (h : Parses f fin v a u) : ∃ rd, f (standing fin v) = (.ok a, rd) :=
  ⟨_, Prod.ext h.1 rfl⟩

/-- A head that was written is read as its first line and its fields. -/
theorem head_read {start rest raw : Bytes} {fs : List (Bytes × Bytes)}
    {hdr : Header} {rd₁ rd₂ : Reader Tee} (hstart : nl ∉ start)
    (hfs : ∀ f ∈ fs, FieldKey f.1 ∧ nl ∉ f.2)
    (hraw : readLineSlice (standing .eof (headWire start fs ++ rest)) =
      (.ok raw, rd₁))
    (hhdr : readMIMEHeader rd₁ = (.ok hdr, rd₂)) :
    raw = start ∧ hdr = fs.foldl addLine Header.empty := by
  have hwire : headWire start fs ++ rest =
      start ++ crlf ++ (linesWire fs ++ crlf ++ rest) := by
    simp [headWire]
  have hfirst : Gives 0xfff (readLineSlice : Parser Tee Err Bytes)
    (headWire start fs ++ rest) start
      (linesWire fs ++ crlf ++ rest) := by
    rw [hwire]
    exact gives_readLineSlice (by decide) hstart
  have hfields : Gives 0xfff (readMIMEHeader : Parser Tee Err Header)
    (linesWire fs ++ crlf ++ rest)
      (fs.foldl addLine Header.empty) rest :=
    gives_readMIMEHeader (by decide) hfs
  obtain ⟨rd, hraw', hsize, hview⟩ :=
    hfirst (standing .eof (headWire start fs ++ rest)) rfl rfl
  rw [hraw'] at hraw
  cases hraw
  obtain ⟨rd', hhdr', _⟩ := hfields rd₁ hsize hview
  rw [hhdr'] at hhdr
  cases hhdr
  exact ⟨rfl, rfl⟩

/-- A field that `Request.write` does not make up. -/
structure Plain (k : Bytes) : Prop where
  framing : isFramingKey k = false
  trace : isTraceKey k = false
  host : k ≠ lit "Host"
  userAgent : k ≠ lit "User-Agent"
  cacheControl : k ≠ lit "Cache-Control"

section Again

variable {idna : Bytes → Option Bytes} {r r' : Request} {rest u : Bytes}

/-- What the parser makes of the head of a request that was written. -/
theorem Outgoing.finished (h : Outgoing r)
    (hidna : ∀ v a, idna v = some a → nl ∉ a)
    (hp : Parses readRequest .eof
      (headWire (requestStart idna r) (requestLines idna r) ++ rest) r' u) :
    ∃ l, Http.requestLine (requestStart idna r) = .ok l ∧
      finishRequest l ((requestLines idna r).foldl addLine Header.empty) =
        .ok r' := by
  obtain ⟨rd₂, hrun⟩ := hp.runs
  obtain ⟨raw, l, hdr, rd₁, hraw, hline, hhdr, hfin⟩ := readRequest_parts hrun
  obtain ⟨rfl, rfl⟩ := head_read (h.start_nl idna) (h.lines hidna) hraw hhdr
  exact ⟨l, hline, hfin⟩

/-- The target is a path again, and the same one. -/
theorem Outgoing.target_read (h : Outgoing r)
    (hidna : ∀ v a, idna v = some a → nl ∉ a)
    (hp : Parses readRequest .eof
      (headWire (requestStart idna r) (requestLines idna r) ++ rest) r' u) :
    r'.requestURI.head? = some 47 ∧ r'.url.path = r.url.path ∧
      r'.url.querySuffix = r.url.querySuffix := by
  obtain ⟨l, hline, hfin⟩ := h.finished hidna hp
  obtain ⟨htarget, hhead, hsp, _⟩ := h.target idna
  have hparse : parseRequestLine (requestStart idna r) =
      some (r.method, r.url.requestURI, lit "HTTP/1.1") := by
    rw [requestStart, htarget,
      show r.method ++ sp :: r.url.requestURI ++ lit " HTTP/1.1" =
      r.method ++ sp :: (r.url.requestURI ++ sp :: lit "HTTP/1.1") by
        simp [lit], parseRequestLine,
      cutByte_append (validMethod_iff h.method).2.1]
    dsimp only
    rw [cutByte_append hsp]
    rfl
  have huri : l.requestURI = r.url.requestURI := by
    rw [requestLine_parse hline] at hparse
    exact (Prod.mk.inj (Prod.mk.inj (Option.some.inj hparse)).2).1
  have hroot : l.requestURI.head? = some 47 := by rw [huri]; exact hhead
  obtain ⟨_, hurl, _⟩ := requestLine_ok hline hroot
  rw [huri] at hurl
  have hsame : r'.requestURI = l.requestURI := by
    unfold finishRequest at hfin
    dsimp only at hfin
    split at hfin
    · cases hfin
    · cases hfin
      rfl
  rw [hsame, (finishedRequest hfin).url]
  exact ⟨hroot, resource_again h.url h.rooted hurl⟩

/-- A field is read back with the values it was written with. -/
theorem Outgoing.values_read (h : Outgoing r)
    (hidna : ∀ v a, idna v = some a → nl ∉ a) (hspelled : Spelled r.header)
    (hp : Parses readRequest .eof
      (headWire (requestStart idna r) (requestLines idna r) ++ rest) r' u)
    {k : Bytes} (hk : Plain k) :
    r'.header.values k =
      (if k = lit "Connection" ∧
        (r.close && !hasToken (r.header.first (lit "Connection")) (lit "close"))
        then [lit "close"] else []) ++
          (r.header.values k).map sanitizeValue := by
  obtain ⟨l, _, hfin⟩ := h.finished hidna hp
  have hlookup :=
    (finishedRequest hfin).lookup k hk.framing hk.host hk.cacheControl
  rw [Header.values, hlookup]
  change ((requestLines idna r).foldl addLine Header.empty).values k = _
  rw [hspelled.values_again hk.trace,
    under_requestLines_other idna r hk.framing hk.host hk.userAgent,
    List.map_append, fieldValue_sanitize]
  congr 1
  split <;> rfl

end Again

/-- A `Connection` that asks for no upgrade asks for none when it comes back. -/
theorem connection_again {vs vs' : List Bytes} {added : Prop} [Decidable added]
    (h : toLower (sanitizeValue (vs.headD [])) ≠ lit "upgrade")
    (hvs : vs' = (if added then [lit "close"] else []) ++ vs.map sanitizeValue)
    :
    toLower (vs'.headD []) ≠ lit "upgrade" ∧
      toLower (sanitizeValue (vs'.headD [])) ≠ lit "upgrade" := by
  rw [hvs]
  split
  · rw [List.singleton_append, List.headD_cons]
    exact ⟨by decide, by decide⟩
  · cases vs with
    | nil => exact ⟨by decide, by decide⟩
    | cons v vs =>
      rw [List.headD_cons] at h
      rw [List.nil_append, List.map_cons, List.headD_cons, sanitizeValue_idem]
      exact ⟨h, h⟩

/-! ## The trailer -/

theorem sanitize_twice (vs : List Bytes) :
    (vs.map sanitizeValue).map sanitizeValue = vs.map sanitizeValue := by
  rw [List.map_map]
  exact List.map_congr_left fun v _ => sanitizeValue_idem v

theorem SameFields.trans {t t' t'' : Header} (h : SameFields t t')
    (h' : SameFields t' t'') :
    SameFields t t'' := by
  intro k
  refine ⟨(h' k).1.trans (h k).1, ?_⟩
  rw [(h' k).2, (h k).2, sanitize_twice]

/-- The same fields take the same room. -/
theorem SameFields.wire_length {t t' : Header} (h : SameFields t t') :
    (linesWire (fieldLines [] t')).length =
      (linesWire (fieldLines [] t)).length := by
  have hperm : (fieldLines [] t').Perm (fieldLines [] t) := by
    rw [perm_iff_under]
    intro k
    rw [under_fieldLines t' List.not_mem_nil,
      under_fieldLines t List.not_mem_nil, (h k).2, sanitize_twice]
  exact (hperm.flatMap_right _).length_eq

theorem fits_again {μ : Type} {trailer : μ → Option Header} {m m' : Message μ}
    (h : SameTrailers trailer m m')
    (hnone : trailer m.head = none → trailer m'.head = none)
    (hfits : Fits (trailer m.head) m.trailer) :
    Fits (trailer m'.head) m'.trailer := by
  cases ht : trailer m.head with
  | none =>
    rw [hnone ht, Fits]
    exact (by decide : (trailerWire none ++ crlf).length ≤ 0xfff)
  | some a =>
    obtain ⟨a', ha', hsame⟩ := h a ht
    rw [ht, Fits, mergedTrailer_some, trailerWire, Option.elim_some,
      linePieces_flatten, List.length_append, ← hsame.wire_length] at hfits
    rw [ha', Fits, mergedTrailer_some, trailerWire, Option.elim_some,
      linePieces_flatten, List.length_append]
    exact hfits

theorem SameTrailers.trans {μ : Type} {trailer : μ → Option Header}
    {m m' m'' : Message μ} (h : SameTrailers trailer m m')
    (h' : SameTrailers trailer m' m'') :
    SameTrailers trailer m m'' := by
  intro a ha
  obtain ⟨a', ha', hsame⟩ := h a ha
  obtain ⟨a'', ha'', hsame'⟩ := h' a' ha'
  exact ⟨a'', ha'', hsame.trans hsame'⟩

theorem SameRequest.trans {m m' m'' : Message Request} (h : SameRequest m m')
    (h' : SameRequest m' m'') : SameRequest m m'' where
  method := h'.method.trans h.method
  data := h'.data.trans h.data
  trailer := h.trailer.trans h'.trailer

theorem SameResponse.trans {m m' m'' : Message Response} (h : SameResponse m m')
    (h' : SameResponse m' m'') : SameResponse m m'' where
  code := h'.code.trans h.code
  data := h'.data.trans h.data
  trailer := h.trailer.trans h'.trailer

/-! ## Responses -/

section Response

variable {r r' : Response} {rest u : Bytes}

/-- What the parser makes of the head of a response that was written. -/
theorem ResponseFacts.finished (h : ResponseFacts r) (hch : SeenAlike r)
    (hp : Parses (readResponse none) .eof
      (headWire (responseStart r) (responseLines r) ++ rest) r' u) :
    ∃ l, statusLine (responseStart r) = .ok l ∧
      finishResponse none l ((responseLines r).foldl addLine Header.empty) =
        .ok r' := by
  obtain ⟨rd₂, hrun⟩ := hp.runs
  obtain ⟨raw, l, hdr, rd₁, hraw, hline, hhdr, hfin⟩ := readResponse_parts hrun
  obtain ⟨rfl, rfl⟩ := head_read h.start_nl (h.lines hch) hraw hhdr
  exact ⟨l, hline, hfin⟩

/-- The two sides see the framing alike again. -/
theorem ResponseFacts.alike_read (h : ResponseFacts r) (hch : SeenAlike r)
    (hp : Parses (readResponse none) .eof
      (headWire (responseStart r) (responseLines r) ++ rest) r' u) :
    SeenAlike r' := by
  obtain ⟨l, hline, hfin⟩ := h.finished hch hp
  have hf := finishedResponse hfin
  obtain ⟨l', hline', hcode, hmajor, hminor⟩ :=
    statusLine_start h.code h.version.1 h.version.2
  rw [hline] at hline'
  cases hline'
  obtain ⟨hks, hkeys, _, _⟩ := (h.trailerOf hch).keys
  obtain ⟨hnone, hlt, _⟩ := h.returnedLength_spec hch
  obtain ⟨t, ht, htenc, _⟩ :=
    readTransfer_framed true l.statusCode l.major l.minor false
    (h.framed hch).fixPragma (hch.version hmajor hminor) hnone hlt
    (show noResponseBodyExpected (lit "GET") = false by decide) hks hkeys
  have hte : r'.transferEncoding = t.transferEncoding := by
    unfold finishResponse at hfin
    dsimp only at hfin
    rw [show (none : Option Bytes).getD (lit "GET") = lit "GET" from rfl,
      ht] at hfin
    cases hfin
    rfl
  intro hchunked
  rw [hte, htenc, chunked_encodings] at hchunked
  rw [hf.code, hcode, hf.major, hf.minor, hmajor, hminor]
  exact hch hchunked

theorem canonical_responseLines (h : ResponseFacts r) {f : Bytes × Bytes}
    (hf : f ∈ responseLines r) :
    canonicalKey f.1 = f.1 := by
  simp only [responseLines, List.mem_append] at hf
  rcases hf with (hf | hf) | hf
  · exact canonical_frameLines hf
  · obtain ⟨vs, hmem, _⟩ := mem_fieldLines.mp hf
    exact (h.header _ hmem).canonical
  · split at hf
    · cases List.mem_singleton.mp hf
      rfl
    · cases hf

/-- The values the lines of a response are read back with. -/
theorem ResponseFacts.values_again (h : ResponseFacts r) {k : Bytes}
    (hk : isFramingKey k = false) :
    ((responseLines r).foldl addLine Header.empty).values k =
      (if k = lit "Connection" ∧
          (r.toWrite.close && !hasToken (r.header.first (lit "Connection"))
            (lit "close"))
        then [lit "close"] else []) ++
          (r.header.values k).map sanitizeValue := by
  rw [values_lines fun f hf => by rw [canonical_responseLines h hf],
    under_responseLines r hk, List.map_append, fieldValue_sanitize]
  congr 1
  split <;> rfl

/-- A field that is neither the framing nor made up is read back with its
values. -/
theorem ResponseFacts.values_read (h : ResponseFacts r) (hch : SeenAlike r)
    (hp : Parses (readResponse none) .eof
      (headWire (responseStart r) (responseLines r) ++ rest) r' u)
    {k : Bytes} (hk : isFramingKey k = false) (hconn : k ≠ lit "Connection")
    (hcc : k ≠ lit "Cache-Control") :
    r'.header.values k = (r.header.values k).map sanitizeValue := by
  obtain ⟨l, _, hfin⟩ := h.finished hch hp
  rw [Header.values, (finishedResponse hfin).lookup k hk hconn hcc]
  change ((responseLines r).foldl addLine Header.empty).values k = _
  rw [h.values_again hk, if_neg fun hc => hconn hc.1, List.nil_append]

end Response

end Netramesh.Proofs
