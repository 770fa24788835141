import Netramesh.Proofs.Responses

/-!
# Keep-alive connections and HEAD

An answer to a HEAD ends with its header section, whatever length it announces.
`HandleResponse` reads every response without the request it answers, so it
takes the announced length for the length of a body, and the bytes of the next
answer for that body. A stream survives if every answer to a HEAD announces
nothing, or has nothing behind it.
-/

namespace Netramesh.Proofs

open Http Protocol Net Lib

/-! ## Reading with and without the method -/

/-- Only whether it is a HEAD matters. -/
theorem readTransfer_method {method : Bytes} (method' : Bytes)
    (h : (method == methodHead) = (method' == methodHead)) (isResponse : Bool)
    (status major minor : Nat) (close : Bool) (hd : Header) :
    readTransfer isResponse status method major minor close hd =
      readTransfer isResponse status method' major minor close hd := by
  have hlen : fixLength isResponse status method =
      fixLength isResponse status method' := by
    funext hd te
    unfold fixLength
    rw [noResponseBodyExpected, noResponseBodyExpected, h]
  have hbody : transferBody status method = transferBody status method' := by
    funext te n cl
    unfold transferBody
    rw [noResponseBodyExpected, noResponseBodyExpected, h]
  unfold readTransfer
  simp only [hlen, hbody, h]

theorem readResponse_of_ne {method : Bytes} (h : method ≠ methodHead) :
    (readResponse (some method) : Parser Tee Err Response) =
      readResponse none := by
  have hfin : ∀ l hd, finishResponse (some method) l hd =
      finishResponse none l hd := by
    intro l hd
    unfold finishResponse
    dsimp only
    rw [Option.getD_some, Option.getD_none,
      readTransfer_method (lit "GET") (by rw [beq_false_of_ne h]; rfl)]
  unfold readResponse
  simp only [hfin]

theorem readResponse_of_parts {method : Option Bytes} {rd rd₁ rd₂ : Reader Tee}
    {raw : Bytes} {l : StatusLine} {hdr : Header} {r : Response}
    (hraw : (readLineSlice : Parser Tee Err Bytes) rd = (.ok raw, rd₁))
    (hline : statusLine raw = .ok l)
    (hhdr : (readMIMEHeader : Parser Tee Err Header) rd₁ = (.ok hdr, rd₂))
    (hfin : finishResponse method l hdr = .ok r) :
    readResponse method rd = (.ok r, rd₂) := by
  rw [readResponse, Parser.mapError, Parser.bind_ok hraw, hline]
  rw [Parser.bind_ok (show (liftExcept (.ok l) :
    Parser Tee Err StatusLine) rd₁ = (.ok l, rd₁) from rfl),
    Parser.bind_ok hhdr, hfin]
  rfl

theorem dedup_values {h h' : Header} (hok : dedupContentLength h = .ok h') :
    h'.values (lit "Content-Length") = [] ∨ ∃ v,
      h'.values (lit "Content-Length") = [v] := by
  unfold dedupContentLength at hok
  split at hok
  · next first _ _ _ =>
    split at hok
    · cases hok
      refine .inr ⟨trimSpace first, ?_⟩
      show ((h.del (lit "Content-Length")).put
        (lit "Content-Length") _).values _ = _
      rw [Header.values_put_self]
      show (h.delete (lit "Content-Length")).values
        (lit "Content-Length") ++ _ = _
      rw [Header.values_delete_self]
      rfl
    · cases hok
  · next hother =>
      cases hok
      cases hv : h.values (lit "Content-Length") with
      | nil => exact .inl rfl
      | cons a rest =>
        cases rest with
        | nil => exact .inr ⟨a, rfl⟩
        | cons b rest => exact absurd hv (hother a b rest)

/-- The steps of a `readTransfer`, put together. -/
theorem readTransfer_of_steps {isResponse : Bool} (close : Bool) {close₀ : Bool}
    {status major minor : Nat} {method : Bytes} {h h₀ h₁ h₂ h₃ : Header}
    {te : List Bytes} {realLength contentLength : Int} {trailer : Option Header}
    (hclose : (if isResponse then shouldClose major minor h true
      else (close, h)) = (close₀, h₀))
    (hte : fixTransferEncoding (if major = 0 ∧ minor = 0 then 1 else major)
      (if major = 0 ∧ minor = 0 then 1 else minor) h₀ = .ok (te, h₁))
    (hlen : fixLength isResponse status method h₁ te = .ok (realLength, h₂))
    (hcl : (if isResponse && method == methodHead then
      parseContentLength (h₂.first (lit "Content-Length"))
      else .ok realLength) = .ok contentLength)
    (htr : fixTrailer h₂ te = .ok (trailer, h₃)) :
    ∃ t, readTransfer isResponse status method major minor close h = .ok t ∧
      t.header = h₃ ∧
      t.contentLength = contentLength ∧ t.transferEncoding = te ∧
        t.trailer = trailer := by
  have hpair : (if major = 0 ∧ minor = 0 then ((1, 1) : Nat × Nat)
    else (major, minor)) =
      (if major = 0 ∧ minor = 0 then 1 else major,
        if major = 0 ∧ minor = 0 then 1 else minor) := by
    split <;> rfl
  unfold readTransfer
  rw [hclose]
  dsimp only
  rw [hpair]
  dsimp only
  rw [hte]
  dsimp only
  rw [hlen]
  dsimp only
  rw [hcl]
  dsimp only
  rw [htr]
  exact ⟨_, rfl, rfl, rfl, rfl, rfl⟩

/-- The length of an answer to a HEAD, read as if it were none. -/
theorem fixLength_of_head (status : Nat) {h h' : Header} (te : List Bytes)
    {n : Int} (hdedup : dedupContentLength h = .ok h')
    (hcl : parseContentLength (h'.first (lit "Content-Length")) = .ok n) :
    ∃ n₀ h₀, fixLength true status (lit "GET") h te = .ok (n₀, h₀) ∧
      (bodyAllowedForStatus status = true → chunked te = false → n₀ = n) ∧
      ∀ k, k ≠ lit "Content-Length" → h₀.entries.lookup k =
        h'.entries.lookup k := by
  have hdel : ∀ k, k ≠ lit "Content-Length" →
      (h'.del (lit "Content-Length")).entries.lookup k = h'.entries.lookup k :=
    fun k hk => Header.lookup_delete_of_ne hk
  unfold fixLength
  rw [hdedup]
  dsimp only
  rw [show noResponseBodyExpected (lit "GET") = false by decide,
    if_neg (by simp)]
  split
  · next hno =>
      refine ⟨0, h', rfl, fun hallowed => ?_, fun _ _ => rfl⟩
      simp only [bodyAllowedForStatus, Bool.and_eq_true, Bool.not_eq_true',
        bne_iff_ne, decide_eq_false_iff_not, Bool.and_eq_false_iff] at hallowed
      omega
  · split
    · next hch =>
        refine ⟨-1, h', rfl, fun _ hno => ?_, fun _ _ => rfl⟩
        rw [hch] at hno
        cases hno
    · -- at most one value is left, and it is parsed the same way
      rcases dedup_values hdedup with hv | ⟨v, hv⟩
      · rw [Header.first, hv] at hcl
        cases hcl
        rw [hv]
        exact ⟨-1, _, rfl, fun _ _ => rfl, hdel⟩
      · rw [Header.first, hv] at hcl
        rw [hv]
        dsimp only
        by_cases hnil : trimSpace v = []
        · rw [if_neg (by simp [hnil])]
          unfold parseContentLength at hcl
          rw [show ([v] : List Bytes).headD [] = v from rfl] at hcl
          dsimp only at hcl
          rw [if_pos hnil] at hcl
          cases hcl
          exact ⟨-1, _, rfl, fun _ _ => rfl, hdel⟩
        · rw [if_pos hnil]
          have hsame : parseContentLength (trimSpace v) = .ok n := by
            rw [← hcl, parseContentLength, parseContentLength, trimSpace_idem]
            rfl
          rw [hsame]
          exact ⟨n, h', rfl, fun _ _ => rfl, fun _ _ => rfl⟩

theorem fixTrailer_congr {h h' h₃ : Header} {te : List Bytes}
    {trailer : Option Header}
    (heq : h'.entries.lookup (lit "Trailer") = h.entries.lookup (lit "Trailer"))
    (hok : fixTrailer h te = .ok (trailer, h₃)) :
    ∃ h₃', fixTrailer h' te = .ok (trailer, h₃') := by
  have hhas : h'.has (lit "Trailer") = h.has (lit "Trailer") := by
    rw [Header.has, Header.has, heq]
  have hvalues : h'.values (lit "Trailer") = h.values (lit "Trailer") := by
    rw [Header.values, Header.values, heq]
  unfold fixTrailer at hok ⊢
  rw [hhas, hvalues]
  dsimp only at hok ⊢
  split at hok
  · next hin =>
      rw [if_pos hin]
      split at hok
      · cases hok
      · split at hok
        · next hnil =>
            cases hok
            rw [if_pos hnil]
            exact ⟨_, rfl⟩
        · next hne =>
            rw [if_neg hne]
            split at hok
            · cases hok
            · next hch =>
                cases hok
                rw [if_neg hch]
                exact ⟨_, rfl⟩
  · next hin =>
      cases hok
      rw [if_neg hin]
      exact ⟨_, rfl⟩

/-- What the two readings of one head have in common. -/
structure ReadAlike (r₀ r : Response) : Prop where
  code : r₀.statusCode = r.statusCode
  major : r₀.protoMajor = r.protoMajor
  minor : r₀.protoMinor = r.protoMinor
  encoding : r₀.transferEncoding = r.transferEncoding
  trailer : r₀.trailer = r.trailer
  connection : r₀.header.get (lit "Connection") =
    r.header.get (lit "Connection")
  framing : responseFraming false r₀ = responseFraming false r

theorem finishResponse_head {l : StatusLine} {h : Header} {r : Response}
    (hr : finishResponse (some methodHead) l h = .ok r) :
    ∃ r₀, finishResponse none l h = .ok r₀ ∧ ReadAlike r₀ r := by
  unfold finishResponse at hr
  dsimp only at hr
  split at hr
  · cases hr
  · next t ht =>
      obtain ⟨st⟩ := readTransfer_eq_ok ht
      have hlen := st.length
      unfold fixLength at hlen
      split at hlen
      · cases hlen
      · next h' hdedup =>
          dsimp only at hlen
          rw [show noResponseBodyExpected ((some methodHead).getD (lit "GET")) =
            true by decide, if_pos rfl, if_neg (by simp)] at hlen
          have hh₂ : st.h₂ = h' := (Prod.mk.inj (Except.ok.inj hlen)).2.symm
          have hann := st.announced
          rw [show (true && (some methodHead).getD (lit "GET") == methodHead) =
            true by decide, if_pos rfl, hh₂] at hann
          obtain ⟨n₀, h₀, hfix, hn, hlookup⟩ :=
            fixLength_of_head l.statusCode st.te hdedup hann
          have htrailers := st.trailers
          rw [hh₂] at htrailers
          obtain ⟨h₃, htr⟩ := fixTrailer_congr
            (hlookup (lit "Trailer") (by decide)) htrailers
          obtain ⟨t₀, ht₀, hhd, hcl, hte, htr₀⟩ :=
            readTransfer_of_steps _ st.closes st.encodings hfix
            (by rw [show (true && lit "GET" == methodHead) = false by
              decide]; rfl) htr
          have henc : t.transferEncoding = st.te :=
            congrArg Transfer.transferEncoding st.eq
          have htrailer : t.trailer = st.trailer :=
            congrArg Transfer.trailer st.eq
          have hconn : t₀.header.values (lit "Connection") =
              t.header.values (lit "Connection") := by
            have hboth : ∀ {t' : Transfer} {method : Bytes}
                (st' : TransferSteps true l.statusCode method l.major
                  l.minor false
                  (fixPragmaCacheControl h) t'),
                    t'.header.values (lit "Connection") =
                (shouldClose l.major l.minor
                  (fixPragmaCacheControl h) true).2.values
                  (lit "Connection") := by
              intro t' method st'
              rw [(TransferSteps.reframed st').values (by decide)]
              have := congrArg Prod.snd st'.closes
              rw [if_pos rfl] at this
              rw [this]
            obtain ⟨st₀⟩ := readTransfer_eq_ok ht₀
            rw [hboth st₀, hboth st]
          cases hr
          unfold finishResponse
          dsimp only
          rw [show (none : Option Bytes).getD (lit "GET") = lit "GET" from
            rfl, ht₀]
          refine ⟨_, rfl, rfl, rfl, rfl, hte.trans henc.symm,
            htr₀.trans htrailer.symm, ?_, ?_⟩
          · exact congrArg (fun vs : List Bytes => vs.headD []) hconn
          · unfold responseFraming
            dsimp only
            rw [hte, henc, hcl]
            cases hallowed : bodyAllowedForStatus l.statusCode with
            | false => rfl
            | true =>
              cases hch : chunked st.te with
              | true => rfl
              | false => rw [hn hallowed hch]

/-- A head that can be read knowing the method can be read without, up to the
same place. -/
theorem readResponse_alike {method : Bytes} {fin : Err} {v u : Bytes}
    {r : Response} (h : Parses (readResponse (some method)) fin v r u) :
    ∃ r₀, Parses (readResponse none) fin v r₀ u ∧ ReadAlike r₀ r := by
  by_cases hm : method = methodHead
  · subst hm
    have hrun : readResponse (some methodHead) (standing fin v) =
        (.ok r, (readResponse (some methodHead) (standing fin v)).2) :=
          Prod.ext h.1 rfl
    obtain ⟨raw, l, hdr, rd₁, hraw, hline, hhdr, hfin⟩ :=
      readResponse_parts hrun
    obtain ⟨r₀, hr₀, halike⟩ := finishResponse_head hfin
    have hrun₀ := readResponse_of_parts hraw hline hhdr hr₀
    exact ⟨r₀, ⟨by rw [hrun₀], by rw [hrun₀]; exact h.2⟩, halike⟩
  · rw [readResponse_of_ne hm] at h
    exact ⟨r, h, rfl, rfl, rfl, rfl, rfl, rfl, rfl⟩

/-! ## Writing an answer to a HEAD -/

/-- The transfer of a head that was written, read knowing that it answers a
HEAD. -/
theorem readTransfer_framed_head {h : Header} {te : Bool} {cl : Option Nat}
    {ks : List Bytes} (status : Nat) {major minor : Nat}
    (hF : FramedBy h te cl ks)
    (hproto : te = true → protoAtLeast
      (if major = 0 ∧ minor = 0 then 1 else major)
      (if major = 0 ∧ minor = 0 then 1 else minor) 1 1 = true)
    (hcl : te = true → cl = none) (hlt : ∀ n, cl = some n → n < 2 ^ 63)
    (hks : ∀ k ∈ ks, TrailerKey k) (hte : ks ≠ [] → te = true) :
    ∃ t, readTransfer true status methodHead major minor false h = .ok t ∧
      t.trailer = (if ks = [] then none else some (announce ks)) := by
  obtain ⟨h₁, henc, hF₁⟩ :=
    (hF.shouldClose major minor true).fixTransferEncoding hproto hcl
  have hlen : fixLength true status methodHead h₁ (encodings te) =
      .ok (0, h₁) := by
    unfold fixLength
    rw [hF₁.dedup]
    dsimp only
    rw [show noResponseBodyExpected methodHead = true by decide, if_pos rfl,
      if_neg (by simp)]
  have hann : ∃ n, parseContentLength (h₁.first (lit "Content-Length")) =
      .ok n := by
    have hvalues : h₁.values (lit "Content-Length") =
        cl.elim [] fun n => [itoa n] := by
      rw [Header.values, hF₁.length]
      cases cl <;> rfl
    rw [Header.first, hvalues]
    cases hc : cl with
    | none => exact ⟨-1, rfl⟩
    | some n => exact ⟨n, parseContentLength_itoa (hlt n hc)⟩
  obtain ⟨n, hn⟩ := hann
  obtain ⟨h₃, htrailer⟩ := fixTrailer_of_lookup te hF₁.trailer hks hte
  obtain ⟨t, ht, _, _, _, htr⟩ :=
    readTransfer_of_steps false (if_pos rfl) henc hlen
    (by rw [show (true && methodHead == methodHead) = true by decide,
      if_pos rfl]; exact hn) htrailer
  exact ⟨t, ht, htr⟩

theorem ResponseFacts.againHead {r : Response} (h : ResponseFacts r)
    (hch : SeenAlike r) :
    ∃ r', r'.statusCode = r.statusCode ∧
      r'.trailer = (if trailerKeys (newResponseWriter r.toWrite) = [] then none
        else some (announce (trailerKeys (newResponseWriter r.toWrite)))) ∧
      ∀ rest, Parses (readResponse (some methodHead)) .eof
        (r.headPieces.flatten ++ rest) r' rest := by
  obtain ⟨l, hline, hcode, hmajor, hminor⟩ :=
    statusLine_start h.code h.version.1 h.version.2
  obtain ⟨hks, hkeys, _, _⟩ := (h.trailerOf hch).keys
  obtain ⟨hnone, hlt, _⟩ := h.returnedLength_spec hch
  obtain ⟨t, ht, htr⟩ := readTransfer_framed_head l.statusCode
    (h.framed hch).fixPragma
    (hch.version hmajor hminor) hnone hlt hks hkeys
  have hfin : ∃ r', finishResponse (some methodHead) l
    ((responseLines r).foldl addLine Header.empty) =
      .ok r' ∧ r'.statusCode = l.statusCode ∧ r'.trailer = t.trailer := by
    unfold finishResponse
    dsimp only
    rw [Option.getD_some, ht]
    exact ⟨_, rfl, rfl, rfl⟩
  obtain ⟨r', hr', hcode', htr'⟩ := hfin
  exact ⟨r', hcode'.trans hcode, htr'.trans htr,
    fun rest => h.parses hch hline hr' rest⟩

/-- An answer to a HEAD goes out as its head, if it has no body or nothing comes
that could be taken for one. -/
theorem ResponseFacts.writtenHead {r : Response} (h : ResponseFacts r)
    (hch : SeenAlike r) {c : Copy Tee} (hbody : c.body = r.body)
    (htrailer : c.trailer = none) (hfails : NoFail c.out.fails)
    (hsize : c.rd.size = 0xfff) (hsizes : ∀ k ∈ c.sizes, k < 2 ^ 63)
    (hnothing : responseFraming false r = .length 0 ∨ c.rd.view = []) :
    (r.write c).2.rd.view = c.rd.view ∧
      (r.write c).2.out.bytes = c.out.bytes ++ r.headPieces.flatten := by
  by_cases hfr : responseFraming false r = .length 0
  · have hcarries : Carries c.rd.fin (responseFraming false r) c.rd.view
        [] none c.rd.view := by
      rw [hfr]
      exact .length (Nat.zero_le _)
    obtain ⟨hview, ps, hflat, _, hout⟩ :=
      h.written hch hbody htrailer hfails hsize hsizes hcarries
    have hplain : chunked (newResponseWriter r.toWrite).transferEncoding =
        false :=
      (responseWriter_spec h hch).1.trans (hch.not_chunked (by rw [hfr]; simp))
    refine ⟨hview, ?_⟩
    rw [hout, plainWire hplain, hflat, List.append_nil]
  · have hv := hnothing.resolve_left hfr
    rcases h.body with ⟨hno, _⟩ | ⟨_, cl, hb⟩
    · exact absurd hno hfr
    · -- there is a body to read, but the stream is at its end
      obtain ⟨y, hy⟩ := reads_responseWrite r c
      refine ⟨?_, ?_⟩
      · have := hy.view
        rw [hv] at this ⊢
        exact (List.append_eq_nil_iff.mp this.symm).2
      · rw [responseWrite_eq r hfails, ← afterHead_bytes _ hfails]
        exact writeBody_nothing hfr (hbody.trans hb)
          (suits_response rfl hfr (fun hc => h.chunks (hch hc).1 hc)
            (h.counted hfr))
          (fun hclose => (responseWriter_spec h hch).1.trans
            (hch.not_chunked (by rw [hclose]; simp)))
          htrailer (writeAll_ok _ hfails).2.2 hsize hsizes hv

/-! ## Through the loop -/

section Rounds

variable {μ : Type} {H : Handler μ} {framing framing' framing₂ : Nat → μ →
  Framing}
  {read' : Nat → Parser Tee Err μ} {Good : Nat → Message μ → Prop}
  {Same : Message μ → Message μ → Prop}

/-- Where a loop that relays its messages is: behind some of them, with the
others to come. -/
structure Ahead (H : Handler μ) (framing framing₂ : Nat → μ → Framing)
    (Good : Nat → Message μ → Prop) (conn : Conn) (s : Loop) : Prop where
  size : s.rd.size = 0xfff
  fin : s.rd.fin = conn.fin
  place : Boundary H.read framing₂ conn.fin s.count conn.data s.rd.view
  messages : ∃ ms, Messages (fun _ => H.read) framing s.rd.fin s.count ms
    s.rd.view ∧ ∀ i m, ms[i]? = some m → Good (s.count + i) m

/-- Every round of a loop that relays its messages starts between two of
them. -/
theorem relayed_reaches (hR : Relays H framing read' framing' Good Same)
    (hfails : ∀ k, NoFail (H.world.fails k)) {conn : Conn}
    {ms : List (Message μ)}
    (hms : Messages (fun _ => H.read) framing conn.fin 0 ms conn.data)
    (hgood : ∀ k m, ms[k]? = some m → Good k m)
    (hends : ∀ {k m u rest}, Good k m →
      Carries conn.fin (framing k m.head) u m.data m.trailer rest →
      Ends conn.fin (framing₂ k m.head) u rest)
    {t : Loop} (h : Reaches (Rounds H) (Loop.init conn) t) :
    Boundary H.read framing₂ conn.fin t.count conn.data t.rd.view := by
  have hinit : Ahead H framing framing₂ Good conn (Loop.init conn) := by
    refine ⟨rfl, rfl, .start, ms, hms, fun i m hi => ?_⟩
    rw [show (Loop.init conn).count + i = i from Nat.zero_add i]
    exact hgood i m hi
  refine (Reaches.invariant (P :=
    Ahead H framing framing₂ Good conn) ?_ hinit h).place
  intro s t hs hturn
  obtain ⟨ms, hms, hgood⟩ := hs.messages
  cases ms with
  | nil =>
    -- there is nothing left that could be forwarded
    have hlt := next_view_lt hR.conserves hR.shrinks hturn
    generalize hv : s.rd.view = v at hms hlt
    cases hms
    exact absurd hlt (Nat.not_lt_zero _)
  | cons m ms =>
    obtain ⟨t', u, hturn', hcount, hfin, hsize, hparse, hcarries, hrest, _⟩ :=
      relayed_step hR (hfails _) hms (hgood 0 m rfl) hs.size
    have heq : t' = t := Round.next.inj (hturn'.symm.trans hturn)
    subst heq
    refine ⟨hsize, hfin.trans hs.fin, ?_,
      ms, by rw [hfin, hcount]; exact hrest, ?_⟩
    · rw [hs.fin] at hparse hcarries
      rw [hcount]
      exact .next hs.place hparse (hends (hgood 0 m rfl) hcarries)
    · intro i m' hi
      have := hgood (i + 1) m' hi
      rwa [show s.count + (i + 1) = t'.count + i by omega] at this

end Rounds

section Methods

variable (methods : Nat → Bytes)

/-- Where the `k`-th of `n` responses ends. The last answer to a HEAD is also
all that is left of the stream. -/
def headFraming (n k : Nat) (r : Response) : Framing :=
  if methods k == methodHead then (if k + 1 = n then .close else .length 0)
  else responseFraming false r

/-- What `HandleResponse` can be expected to keep of the `k`-th of `n`
responses: it is no upgrade, its framing is seen alike, its trailer fits; and if
it answers a HEAD, it announces nothing or is the last one. -/
structure SafeAnswer (n k : Nat) (m : Message Response) : Prop where
  upgrade : toLower (m.head.header.get (lit "Connection")) ≠ lit "upgrade"
  alike : SeenAlike m.head
  fits : methods k ≠ methodHead → Fits m.head.trailer m.trailer
  nothing : methods k = methodHead → responseFraming false m.head = .length 0 ∨
    k + 1 = n

/-- A conforming stream: each response to a HEAD is a header section only. -/
def Conforms (fin : Err) (ms : List (Message Response)) (v : Bytes) : Prop :=
  Messages (fun k => readResponse (some (methods k)))
    (fun k => responseFraming (methods k == methodHead)) fin 0 ms v

/-- `HandleResponse` starts every `ReadResponse` between two responses, and what
it writes, read with the methods known, is the same sequence of responses. -/
structure SurvivesHead (H : Handler Response) (conn : Conn)
    (ms : List (Message Response)) :
    Prop where
  boundary : ∀ t, Reaches (Rounds H) (Loop.init conn) t →
    Boundary H.read (fun k => responseFraming (methods k == methodHead))
      conn.fin t.count
      conn.data t.rd.view
  stream : ∃ ms', Conforms methods .eof ms' (handle H (Loop.init conn)).out ∧
    List.Forall₂ SameResponse ms ms'

variable {methods}

theorem ReadAlike.seenAlike {r₀ r : Response} (h : ReadAlike r₀ r) :
    SeenAlike r₀ ↔ SeenAlike r := by
  unfold SeenAlike
  rw [h.code, h.major, h.minor, h.encoding]

theorem headFraming_of_ne (n : Nat) {k : Nat} (h : methods k ≠ methodHead)
    (r : Response) :
    headFraming methods n k r = responseFraming false r := by
  rw [headFraming, beq_false_of_ne h, if_neg (by simp)]

/-- What is known of the messages of a conforming stream, read without the
methods. -/
def SafeHead (methods : Nat → Bytes) (n k : Nat) (m : Message Response) :
    Prop :=
  SafeAnswer methods n k m ∧
    (methods k = methodHead → m.data = [] ∧ m.trailer = none)

/-- The end of an answer to a HEAD is the end of its header section. -/
theorem ends_headFraming {fin : Err} {n k : Nat} {m : Message Response}
    {u rest : Bytes} (hg : SafeHead methods n k m)
    (hcarries : Carries fin (headFraming methods n k m.head) u m.data
      m.trailer rest) :
    Ends fin (responseFraming (methods k == methodHead) m.head) u rest ∧
      (methods k = methodHead → rest = u ∧ (k + 1 = n → u = [])) := by
  by_cases hk : methods k = methodHead
  · obtain ⟨hdata, _⟩ := hg.2 hk
    have hall : rest = u ∧ (k + 1 = n → u = []) := by
      rw [headFraming, hk, if_pos (by simp)] at hcarries
      split at hcarries
      · obtain ⟨hu, _, hrest⟩ := hcarries.of_close
        rw [hdata] at hu
        exact ⟨hrest.trans hu, fun _ => hu.symm⟩
      · next hn =>
          obtain ⟨_, _, _, hrest⟩ := hcarries.of_length
          exact ⟨hrest, fun h => absurd h hn⟩
    refine ⟨?_, fun _ => hall⟩
    rw [hall.1, hk, show responseFraming (methodHead == methodHead) m.head =
      .length 0 from rfl]
    exact ⟨_, _, .length (Nat.zero_le _)⟩
  · rw [headFraming_of_ne _ hk] at hcarries
    rw [beq_false_of_ne hk]
    exact ⟨⟨_, _, hcarries⟩, fun h => absurd h hk⟩

theorem keepAlive_relays (methods : Nat → Bytes) (n : Nat) (head : Nat → Bool)
    (w : World) :
    Relays (responseHandler false head w) (headFraming methods n)
      (fun k => readResponse (some (methods k)))
      (fun k => responseFraming (methods k == methodHead))
        (SafeHead methods n) SameResponse where
  conserves := responseHandler_conserves head w
  shrinks := shrinks_readResponse none
  proceeds hg := decide_eq_false hg.1.upgrade
  relays {m rd₀ rd rest s} hread hsize hfails hg hcarries := by
    by_cases hk : methods s.count = methodHead
    · have h := responseFacts hread
      obtain ⟨hrest, hlast⟩ := (ends_headFraming hg hcarries).2 hk
      obtain ⟨hdata, htrailer⟩ := hg.2 hk
      rw [responseForward_eq]
      obtain ⟨hview, hbytes⟩ := h.writtenHead hg.1.alike
        (c := s.copy (responseHandler false head w) m.head rd) rfl rfl
          hfails hsize
        (w.sizes_lt s.count) ((hg.1.nothing hk).imp_right hlast)
      obtain ⟨r', hcode, htr', hparse⟩ := h.againHead hg.1.alike
      have hkeys := (h.trailerOf hg.1.alike).keys
      refine ⟨hview.trans hrest.symm, m.head.headPieces.flatten, ⟨r', [], none⟩,
        hbytes, ⟨hcode, hdata.symm, ?_⟩, ?_⟩
      · intro a ha
        rw [← (responseWriter_spec h hg.1.alike).2.1] at ha
        obtain ⟨hne, hhas⟩ := hkeys.2.2.2 a ha
        refine ⟨_, by rw [htr', if_neg hne], ?_⟩
        rw [htrailer]
        intro k
        have hann := (h.trailerOf hg.1.alike).announced ha
        have hann' :
            Announced
            (announce (trailerKeys (newResponseWriter m.head.toWrite))) :=
          announced_announce fun k hk => (hkeys.1 k hk).canonical
        refine ⟨hhas k, ?_⟩
        show (announce _).values k = (a.values k).map sanitizeValue
        rw [hann'.values, hann.values, List.map_nil]
      · intro tail _
        refine ⟨tail, by rw [hk]; exact hparse tail, ?_⟩
        rw [hk]
        exact .length (Nat.zero_le _)
    · have hfr := headFraming_of_ne n hk
      rw [hfr m.head] at hcarries
      obtain ⟨hview, w', m', hbytes, hsame, hstands⟩ :=
        (responseHandler_relays head w).relays hread
        hsize hfails ⟨hg.1.upgrade, hg.1.alike, hg.1.fits hk⟩ hcarries
      refine ⟨hview, w', m', hbytes, hsame, ?_⟩
      rw [readResponse_of_ne hk, beq_false_of_ne hk, hfr m.head]
      exact hstands

/-- A conforming stream is one for the loop, which reads it without the
methods. -/
theorem messages_alike {n k : Nat} {fin : Err} {ms : List (Message Response)}
    {v : Bytes}
    (h : Messages (fun k => readResponse (some (methods k)))
      (fun k => responseFraming (methods k == methodHead)) fin k ms v)
    (hn : k + ms.length = n)
    (hsafe : ∀ i m, ms[i]? = some m → SafeAnswer methods n (k + i) m) :
    ∃ ms₀, Messages (fun _ => readResponse none)
      (headFraming methods n) fin k ms₀ v ∧
      List.Forall₂ (fun m₀ m => ReadAlike m₀.head m.head ∧ m₀.data = m.data ∧
        m₀.trailer = m.trailer) ms₀ ms ∧
      ∀ i m, ms₀[i]? = some m → SafeHead methods n (k + i) m := by
  induction h with
  | nil => exact ⟨[], .nil, .nil, fun i m hi => by simp at hi⟩
  | @cons k v u rest m ms hparse hcarries hrest ih =>
    obtain ⟨r₀, hparse₀, halike⟩ := readResponse_alike hparse
    obtain ⟨ms₀, hms₀, hall, hsafe₀⟩ :=
      ih (by rw [List.length_cons] at hn; omega) (by
      intro i m' hi
      have := hsafe (i + 1) m' hi
      rwa [show k + (i + 1) = k + 1 + i by omega] at this)
    have hm := hsafe 0 m rfl
    have hhead : methods k = methodHead → m.data = [] ∧ m.trailer = none ∧
        rest = u := by
      intro hk
      rw [hk] at hcarries
      obtain ⟨_, hdata, htrailer, hrest⟩ := Carries.of_length (n := 0) hcarries
      exact ⟨hdata, htrailer, hrest⟩
    refine ⟨⟨r₀, m.data, m.trailer⟩ :: ms₀, .cons hparse₀ ?_ hms₀,
      .cons ⟨halike, rfl, rfl⟩ hall, ?_⟩
    · by_cases hk : methods k = methodHead
      · obtain ⟨hdata, htrailer, hu⟩ := hhead hk
        dsimp only
        rw [headFraming, hk, if_pos (by simp), hdata, htrailer, hu]
        split
        · next hlast =>
            -- nothing comes behind the last one
            have hnil : ms = [] := List.eq_nil_of_length_eq_zero (by
              rw [List.length_cons] at hn
              omega)
            subst hnil
            cases hrest
            rw [← hu]
            exact .close
        · exact .length (Nat.zero_le _)
      · dsimp only
        rw [headFraming_of_ne _ hk, halike.framing]
        rw [beq_false_of_ne hk] at hcarries
        exact hcarries
    · intro i m' hi
      cases i with
      | zero =>
        cases hi
        refine ⟨⟨?_, halike.seenAlike.mpr hm.alike, ?_, ?_⟩,
          fun hk => ⟨(hhead hk).1, (hhead hk).2.1⟩⟩
        · rw [halike.connection]
          exact hm.upgrade
        · intro hk
          rw [halike.trailer]
          exact hm.fits hk
        · intro hk
          rw [halike.framing]
          exact hm.nothing hk
      | succ i =>
        have := hsafe₀ i m' hi
        rwa [show k + 1 + i = k + (i + 1) by omega] at this

/-- What is the same as the one reading is the same as the other. -/
theorem sameResponses_of_alike {ms₀ ms ms' : List (Message Response)}
    (hall : List.Forall₂ (fun m₀ m => ReadAlike m₀.head m.head ∧
      m₀.data = m.data ∧ m₀.trailer = m.trailer) ms₀ ms)
    (hsame : List.Forall₂ SameResponse ms₀ ms') :
    List.Forall₂ SameResponse ms ms' := by
  induction hall generalizing ms' with
  | nil =>
    cases hsame
    exact .nil
  | cons hm _ ih =>
    cases hsame with
    | cons hs hrest =>
      obtain ⟨halike, hdata, htrailer⟩ := hm
      refine .cons ⟨hs.code.trans halike.code, hs.data.trans hdata,
        fun a ha => ?_⟩ (ih hrest)
      rw [← halike.trailer] at ha
      obtain ⟨a', ha', hfields⟩ := hs.trailer a ha
      rw [htrailer] at hfields
      exact ⟨a', ha', hfields⟩

/-- A conforming and safe stream, read without the methods. -/
theorem Conforms.alike {fin : Err} {ms : List (Message Response)} {v : Bytes}
    (hms : Conforms methods fin ms v)
    (hsafe : ∀ k m, ms[k]? = some m → SafeAnswer methods ms.length k m) :
    ∃ ms₀, Messages (fun _ => readResponse none)
      (headFraming methods ms.length) fin 0 ms₀ v ∧
      List.Forall₂ (fun m₀ m => ReadAlike m₀.head m.head ∧ m₀.data = m.data ∧
        m₀.trailer = m.trailer) ms₀ ms ∧
      ∀ k m, ms₀[k]? = some m → SafeHead methods ms.length k m := by
  obtain ⟨ms₀, hms₀, hall, hsafe₀⟩ := messages_alike hms (Nat.zero_add _) (by
    intro i m hi
    rw [Nat.zero_add]
    exact hsafe i m hi)
  refine ⟨ms₀, hms₀, hall, fun k m hi => ?_⟩
  have := hsafe₀ k m hi
  rwa [Nat.zero_add] at this

/-- What is written for such a stream is the same responses. -/
theorem Conforms.relayed (head : Nat → Bool) (w : World)
    (hfails : ∀ k, NoFail (w.fails k)) {conn : Conn}
    {ms : List (Message Response)}
    (hms : Conforms methods conn.fin ms conn.data)
    (hsafe : ∀ k m, ms[k]? = some m → SafeAnswer methods ms.length k m) :
    ∃ ms', Conforms methods .eof ms'
      (handle (responseHandler false head w) (Loop.init conn)).out ∧
      List.Forall₂ SameResponse ms ms' := by
  obtain ⟨ms₀, hms₀, hall, hgood⟩ := hms.alike hsafe
  obtain ⟨ms', hms', hsame⟩ :=
    Proofs.relayed (keepAlive_relays methods ms.length head w) hfails hms₀ hgood
  exact ⟨ms', hms', sameResponses_of_alike hall hsame⟩

/-- Every conforming stream in which the answers to HEADs announce nothing, the
last one excepted, survives: whatever the methods, the cuts of the stream and
the state of the request queue. -/
theorem head_survived (methods : Nat → Bytes) (head : Nat → Bool) (w : World)
    (hfails : ∀ k, NoFail (w.fails k)) (conn : Conn)
    (ms : List (Message Response))
    (hms : Conforms methods conn.fin ms conn.data)
    (hsafe : ∀ k m, ms[k]? = some m → SafeAnswer methods ms.length k m) :
    SurvivesHead methods (responseHandler false head w) conn ms := by
  refine ⟨fun t ht => ?_, hms.relayed head w hfails hsafe⟩
  obtain ⟨ms₀, hms₀, _, hgood⟩ := hms.alike hsafe
  exact relayed_reaches (keepAlive_relays methods ms.length head w) hfails
    hms₀ hgood
    (fun hg hc => (ends_headFraming hg hc).1) ht

end Methods

/-! ## Two streams

The answer to a HEAD announces five bytes, and the first five of the next answer
are taken for them; if it announces none, both answers come through. -/

/-- A HEAD and a GET. -/
def headThenGet (k : Nat) : Bytes := if k = 0 then methodHead else lit "GET"

/-- An answer without a body. -/
def emptyAnswer : Bytes := lit "HTTP/1.1 200 OK\r\nContent-Length: 0\r\n\r\n"

/-- An answer to a HEAD with the given length, and an empty one behind it. -/
def headAnswer (length : Bytes) : Conn where
  data := lit "HTTP/1.1 200 OK\r\nContent-Length: " ++ length ++
    lit "\r\n\r\n" ++ emptyAnswer

/-- What the parser makes of either. -/
def IsEmptyAnswer (r : Response) : Prop :=
  r.header.get (lit "Connection") = [] ∧ SeenAlike r ∧
    responseFraming false r = .length 0 ∧ r.trailer = none

instance (r : Response) : Decidable (IsEmptyAnswer r) :=
  inferInstanceAs (Decidable (_ ∧ _))

theorem conforms_headAnswer {length : Bytes} {r r₂ : Response}
    (hparse : Parses (readResponse (some methodHead)) .eof
      (headAnswer length).data r emptyAnswer)
    (hparse₂ : Parses (readResponse (some (lit "GET"))) .eof emptyAnswer r₂ [])
    (hfr₂ : responseFraming false r₂ = .length 0) :
    Conforms headThenGet .eof [⟨r, [], none⟩,
      ⟨r₂, [], none⟩] (headAnswer length).data := by
  refine .cons hparse (.length (Nat.zero_le _)) (.cons hparse₂ ?_ .nil)
  show Carries .eof (responseFraming false r₂) [] [] none []
  rw [hfr₂]
  exact .length (Nat.zero_le _)

theorem parses_emptyAnswer :
    ∃ r₂, Parses (readResponse (some (lit "GET"))) .eof emptyAnswer r₂ [] ∧
    IsEmptyAnswer r₂ := by
  obtain ⟨r₂, u₂, hparse₂, hp₂⟩ :=
    exists_parses (readResponse (some (lit "GET"))) .eof emptyAnswer
    (fun r u => decide (IsEmptyAnswer r) && u == []) (by decide +kernel)
  rw [Bool.and_eq_true, beq_iff_eq] at hp₂
  obtain ⟨hempty, rfl⟩ := hp₂
  exact ⟨r₂, hparse₂, of_decide_eq_true hempty⟩

theorem next_answer_swallowed :
    ¬ ∀ (conn : Conn) (ms : List (Message Response)),
      Conforms headThenGet conn.fin ms conn.data →
      (∀ m ∈ ms, toLower (m.head.header.get (lit "Connection")) ≠
        lit "upgrade") →
      SurvivesHead headThenGet (responseHandler false (fun k => k == 0) {}) conn
        ms := by
  intro h
  obtain ⟨r, u, hparse, hp⟩ :=
    exists_parses (readResponse (some methodHead)) .eof
    (headAnswer (lit "5")).data
    (fun r u => r.header.get (lit "Connection") == [] && u == emptyAnswer)
      (by decide +kernel)
  rw [Bool.and_eq_true, beq_iff_eq, beq_iff_eq] at hp
  obtain ⟨hconn, rfl⟩ := hp
  obtain ⟨r₂, hparse₂, hconn₂, _, hfr₂, _⟩ := parses_emptyAnswer
  have hsurvives := h (headAnswer (lit "5")) _
    (conforms_headAnswer hparse hparse₂ hfr₂) (by
    intro m hm
    simp only [List.mem_cons, List.not_mem_nil, or_false] at hm
    rcases hm with rfl | rfl
    · rw [hconn]
      decide
    · rw [hconn₂]
      decide)
  -- the first round goes on reading inside the second answer
  have hany : (afterRound (responseHandler false (fun k => k == 0) {})
      (Loop.init (headAnswer (lit "5")))).any
      (fun s => decide (s.count = 1) && s.rd.view != emptyAnswer) = true := by
        decide +kernel
  obtain ⟨s, hs, hq⟩ := (Option.any_eq_true _ _).mp hany
  rw [Bool.and_eq_true, decide_eq_true_eq, bne_iff_ne] at hq
  have hb := hsurvives.boundary s
    (Relation.ReflTransGen.single (rounds_of_afterRound hs))
  rw [hq.1] at hb
  obtain ⟨v, u₁, m, h0, hparse₁, hends⟩ := hb.of_succ
  cases h0
  have hu := hparse₁.check (fun _ u => u == emptyAnswer) (by decide +kernel)
  obtain ⟨data, hdr, hcarries⟩ := hends
  obtain ⟨_, _, _, hview⟩ := Carries.of_length (n := 0) hcarries
  exact hq.2 (hview.trans (beq_iff_eq.mp hu))

theorem head_survived_empty :
    ∃ ms, Conforms headThenGet .eof ms (headAnswer (lit "0")).data ∧
      ms.length = 2 ∧
      SurvivesHead headThenGet (responseHandler false (fun k => k == 0) {})
        (headAnswer (lit "0")) ms := by
  obtain ⟨r, u, hparse, hp⟩ :=
    exists_parses (readResponse (some methodHead)) .eof
    (headAnswer (lit "0")).data
      (fun r u => decide (IsEmptyAnswer r) && u == emptyAnswer)
    (by decide +kernel)
  rw [Bool.and_eq_true, beq_iff_eq] at hp
  obtain ⟨hr, rfl⟩ := hp
  obtain ⟨hconn, halike, hfr, htrailer⟩ := of_decide_eq_true hr
  obtain ⟨r₂, hparse₂, hconn₂, halike₂, hfr₂, htrailer₂⟩ := parses_emptyAnswer
  have hconforms := conforms_headAnswer hparse hparse₂ hfr₂
  refine ⟨_, hconforms, rfl, ?_⟩
  refine head_survived headThenGet (fun k => k == 0) {}
    (fun k b hb => by cases hb) _ _ hconforms ?_
  intro k m hm
  match k, hm with
  | 0, hm =>
    cases hm
    exact ⟨by rw [hconn]; decide, halike, fun h => absurd rfl h,
      fun _ => .inl hfr⟩
  | 1, hm =>
    cases hm
    refine ⟨by rw [hconn₂]; decide, halike₂, fun _ => ?_, fun h => by cases h⟩
    dsimp only
    rw [htrailer₂]
    decide

end Netramesh.Proofs
