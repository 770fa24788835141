import Netramesh.Proofs.Reread

/-!
# Reading back the framing of a message

The head of a message goes out as a first line and a list of fields, some of
which `transferWriter` makes: the length or the encoding of the body, and the
announcement of its trailer. No other field has their names, so the framing
that is read back is the one that was written.
-/

namespace Netramesh.Proofs

open Http Protocol Net Lib

/-! ## The fields `transferWriter` makes -/

/-- The names announced for the trailer. -/
def trailerKeys (t : TransferWriter) : List Bytes :=
  match t.trailer with
  | none => []
  | some trailer => (trailer.keys.map canonicalKey).insertionSort fun a b =>
      bytesLE a b

/-- The fields of `writeHeader`. -/
def frameLines (t : TransferWriter) : List (Bytes × Bytes) :=
  (if t.close && !hasToken (t.header.first (lit "Connection"))
    (lit "close") then
    [(lit "Connection", lit "close")] else []) ++
  (if t.shouldSendContentLength then [(lit "Content-Length",
    itoa t.contentLength.toNat)]
  else if chunked t.transferEncoding then [(lit "Transfer-Encoding",
    lit "chunked")] else []) ++
  (if trailerKeys t = [] then []
    else [(lit "Trailer", List.intercalate [44] (trailerKeys t))])

theorem linesWire_append (fs gs : List (Bytes × Bytes)) :
    linesWire (fs ++ gs) = linesWire fs ++ linesWire gs := List.flatMap_append

theorem headerPieces_flatten (t : TransferWriter) :
    t.headerPieces.flatten = linesWire (frameLines t) := by
  unfold TransferWriter.headerPieces frameLines
  rw [List.flatten_append, List.flatten_append, linesWire_append,
    linesWire_append]
  congr 1
  · congr 1
    · split <;> rfl
    · split
      · simp [linesWire, lineWire, lit]
      · split <;> rfl
  · unfold trailerKeys
    cases t.trailer with
    | none => rfl
    | some trailer =>
      dsimp only
      split
      · rfl
      · simp [linesWire, lineWire, lit]

/-- Names that can be announced: what `fixTrailer` leaves of a `Trailer`
field. -/
structure TrailerKey (k : Bytes) : Prop where
  ne_nil : k ≠ []
  comma : 44 ∉ k
  nl : nl ∉ k
  trimmed : Trimmed isASCIISpace k
  canonical : canonicalKey k = k
  allowed : badTrailerKey k = false

theorem mem_intercalate {ks : List Bytes} {b : UInt8}
    (h : b ∈ List.intercalate [44] ks) :
    b = 44 ∨ ∃ k ∈ ks, b ∈ k := by
  induction ks with
  | nil => simp [List.intercalate_nil] at h
  | cons k ks ih =>
    cases ks with
    | nil =>
      rw [List.intercalate_singleton] at h
      exact .inr ⟨k, List.mem_cons_self, h⟩
    | cons k' ks =>
      rw [List.intercalate_cons_cons] at h
      simp only [List.mem_append, List.mem_singleton] at h
      rcases h with (h | h) | h
      · exact .inr ⟨k, List.mem_cons_self, h⟩
      · exact .inl h
      · rcases ih h with h | ⟨k'', hk, hb⟩
        · exact .inl h
        · exact .inr ⟨k'', List.mem_cons_of_mem _ hk, hb⟩

theorem trimmed_intercalate {p : UInt8 → Bool} {ks : List Bytes} (hne : ks ≠ [])
    (hks : ∀ k ∈ ks, k ≠ [] ∧ Trimmed p k) :
    List.intercalate [44] ks ≠ [] ∧ Trimmed p (List.intercalate [44] ks) := by
  induction ks with
  | nil => exact absurd rfl hne
  | cons k ks ih =>
    obtain ⟨hk, htrim⟩ := hks k List.mem_cons_self
    cases ks with
    | nil =>
      rw [List.intercalate_singleton]
      exact ⟨hk, htrim⟩
    | cons k' ks =>
      obtain ⟨hne', htrim'⟩ := ih (by simp) fun q hq =>
        hks q (List.mem_cons_of_mem _ hq)
      rw [List.intercalate_cons_cons]
      refine ⟨by simp, ?_, ?_⟩
      · obtain ⟨c, s, rfl⟩ := List.exists_cons_of_ne_nil hk
        exact fun b hb => htrim.head b hb
      · intro b hb
        rw [List.getLast?_append_of_ne_nil _ hne'] at hb
        exact htrim'.last b hb

/-- The names come back as they were announced. -/
theorem headerElements_intercalate {ks : List Bytes} (hne : ks ≠ [])
    (hks : ∀ k ∈ ks, TrailerKey k) :
    headerElements (List.intercalate [44] ks) = ks := by
  obtain ⟨_, htrim⟩ := trimmed_intercalate hne fun k hk =>
    ⟨(hks k hk).ne_nil, (hks k hk).trimmed⟩
  unfold headerElements
  rw [trimBy_of_trimmed htrim,
    List.splitOn_intercalate _ (fun k hk => (hks k hk).comma) hne]
  have hsome : ∀ k ∈ ks, (fun f => if trimBy isASCIISpace f = [] then none
      else some (trimBy isASCIISpace f)) k = some k := by
    intro k hk
    dsimp only
    rw [trimBy_of_trimmed (hks k hk).trimmed, if_neg (hks k hk).ne_nil]
  rw [List.filterMap_congr hsome]
  exact List.filterMap_some

/-- `fixTrailer`'s header of announced names. -/
def announce (ks : List Bytes) : Header :=
  ks.foldl (fun t k => t.put k []) Header.empty

theorem mem_foldl_announce {ks : List Bytes} {t : Header}
    {e : Bytes × List Bytes}
    (h : e ∈ (ks.foldl (fun t k => t.put k []) t).entries) :
    e ∈ t.entries ∨ (e.1 ∈ ks ∧ e.2 = []) := by
  induction ks generalizing t with
  | nil => exact .inl h
  | cons k ks ih =>
    rcases ih h with h | ⟨h, hnil⟩
    · rcases Header.mem_put.mp h with h | rfl
      · exact .inl h.1
      · exact .inr ⟨List.mem_cons_self, rfl⟩
    · exact .inr ⟨List.mem_cons_of_mem _ h, hnil⟩

theorem announced_announce {ks : List Bytes}
    (hks : ∀ k ∈ ks, canonicalKey k = k) :
    Announced (announce ks) := by
  intro e he
  rcases mem_foldl_announce he with h | ⟨h, hnil⟩
  · cases h
  · exact ⟨hks e.1 h, hnil⟩

theorem has_announce (ks : List Bytes) (k : Bytes) :
    (announce ks).has k = ks.elem k := by
  have hgen : ∀ t : Header, (ks.foldl (fun t k => t.put k []) t).has k =
      (ks.elem k || t.has k) := by
    induction ks with
    | nil => intro t; rfl
    | cons x xs ih =>
      intro t
      rw [List.foldl_cons, ih]
      by_cases hk : k = x
      · subst hk
        rw [Header.has_put_self]
        simp
      · rw [Header.has_put_of_ne hk, List.elem_cons, beq_false_of_ne hk]
  rw [announce, hgen]
  simp [Header.has, Header.empty]

/-- A trailer as `readTransfer` leaves it: none, or the names a chunked message
announces. -/
def TrailerOf (te : Bool) (t : Option Header) : Prop :=
  t = none ∨ (te = true ∧ ∃ ks,
    ks ≠ [] ∧ (∀ k ∈ ks, TrailerKey k) ∧ t = some (announce ks))

/-! ## The framing fields of a header -/

/-- The three fields that frame a message: whether it is chunked, its length,
and the names in its trailer. -/
structure FramedBy (h : Header) (te : Bool) (cl : Option Nat)
    (ks : List Bytes) : Prop where
  encoding : h.entries.lookup (lit "Transfer-Encoding") =
    if te then some [lit "chunked"] else none
  length : h.entries.lookup (lit "Content-Length") = cl.map fun n => [itoa n]
  trailer : h.entries.lookup (lit "Trailer") =
    if ks = [] then none else some [List.intercalate [44] ks]

def isFramingKey (k : Bytes) : Bool :=
  k == lit "Transfer-Encoding" || k == lit "Content-Length" || k ==
    lit "Trailer"

theorem FramedBy.congr {h h' : Header} {te : Bool} {cl : Option Nat}
    {ks : List Bytes} (hF : FramedBy h te cl ks)
    (heq : ∀ k, isFramingKey k = true → h'.entries.lookup k =
      h.entries.lookup k) :
    FramedBy h' te cl ks :=
  ⟨(heq _ (by decide)).trans hF.encoding, (heq _ (by decide)).trans hF.length,
    (heq _ (by decide)).trans hF.trailer⟩

theorem FramedBy.put {h : Header} {te : Bool} {cl : Option Nat}
    {ks : List Bytes} (hF : FramedBy h te cl ks) {k : Bytes}
    (hk : isFramingKey k = false) (vs : List Bytes) :
    FramedBy (h.put k vs) te cl ks := by
  refine hF.congr fun k' hk' => Header.lookup_put_of_ne ?_
  rintro rfl
  rw [hk] at hk'
  cases hk'

theorem FramedBy.delete {h : Header} {te : Bool} {cl : Option Nat}
    {ks : List Bytes} (hF : FramedBy h te cl ks) {k : Bytes}
    (hk : isFramingKey k = false) :
    FramedBy (h.delete k) te cl ks := by
  refine hF.congr fun k' hk' => Header.lookup_delete_of_ne ?_
  rintro rfl
  rw [hk] at hk'
  cases hk'

theorem FramedBy.fixPragma {h : Header} {te : Bool} {cl : Option Nat}
    {ks : List Bytes} (hF : FramedBy h te cl ks) :
    FramedBy (fixPragmaCacheControl h) te cl ks := by
  unfold fixPragmaCacheControl
  split
  · exact hF.put (by decide) _
  · exact hF

theorem FramedBy.shouldClose {h : Header} {te : Bool} {cl : Option Nat}
    {ks : List Bytes} (hF : FramedBy h te cl ks) (major minor : Nat)
    (remove : Bool) :
    FramedBy (shouldClose major minor h remove).2 te cl ks := by
  unfold Http.shouldClose
  split
  · exact hF
  · dsimp only
    split
    · exact hF
    · dsimp only
      split
      · exact hF.delete (by decide)
      · exact hF

/-! ## The framing that is read back -/

/-- The encodings of a message that is chunked or not. -/
def encodings (te : Bool) : List Bytes := if te then [lit "chunked"] else []

theorem chunked_encodings (te : Bool) : chunked (encodings te) = te := by
  cases te <;> rfl

/-- The length `readTransfer` finds. -/
def lengthOf (isResponse : Bool) (status : Nat) (te : Bool) (cl : Option Nat) :
    Int :=
  if status / 100 = 1 ∨ status = 204 ∨ status = 304 then 0
  else if te then -1
  else match cl with
    | some n => n
    | none => if isResponse then -1 else 0

section Framing

variable {h : Header} {te : Bool} {cl : Option Nat} {ks : List Bytes}
  {major minor : Nat}

theorem FramedBy.fixTransferEncoding (hF : FramedBy h te cl ks)
    (hproto : te = true → protoAtLeast major minor 1 1 = true)
    (hcl : te = true → cl = none) :
    ∃ h', Http.fixTransferEncoding major minor h = .ok (encodings te, h') ∧
      FramedBy h' false cl ks := by
  unfold Http.fixTransferEncoding
  have henc := hF.encoding
  cases te with
  | false =>
    rw [if_neg (by rw [Header.has, henc]; simp)]
    exact ⟨h, rfl, hF⟩
  | true =>
    have hvalues : h.values (lit "Transfer-Encoding") = [lit "chunked"] := by
      rw [Header.values, henc]
      rfl
    rw [if_pos (by rw [Header.has, henc]; rfl), hvalues]
    dsimp only
    rw [hproto rfl, if_neg (by simp),
      show transferEncodings (([lit "chunked"] : List Bytes).headD
        [] |>.splitOn 44) = .ok [lit "chunked"] by rfl]
    dsimp only
    rw [if_neg (by decide), if_pos (by decide)]
    refine ⟨_, rfl, ?_, ?_, ?_⟩
    · rw [Header.lookup_delete_of_ne (by decide), Header.lookup_delete_self]
      rfl
    · rw [Header.lookup_delete_self, hcl rfl]
      rfl
    · rw [Header.lookup_delete_of_ne (by decide),
        Header.lookup_delete_of_ne (by decide)]
      exact hF.trailer

theorem FramedBy.dedup (hF : FramedBy h te cl ks) :
    dedupContentLength h = .ok h := by
  have hvalues : h.values (lit "Content-Length") =
      cl.elim [] fun n => [itoa n] := by
    rw [Header.values, hF.length]
    cases cl <;> rfl
  unfold dedupContentLength
  rw [hvalues]
  cases cl <;> rfl

theorem parseContentLength_itoa {n : Nat} (hn : n < 2 ^ 63) :
    parseContentLength (itoa n) = .ok (n : Int) := by
  unfold parseContentLength
  rw [trimSpace_of_graphic isGraphic_itoa]
  dsimp only
  rw [if_neg (itoa_ne_nil n), parseInt_itoa hn]
  dsimp only
  rw [if_neg (by omega)]

theorem FramedBy.fixLength (isResponse : Bool) (status : Nat) (te : Bool)
    {method : Bytes} {b : Bool} (hF : FramedBy h b cl ks)
    (hmethod : noResponseBodyExpected method = false)
    (hlt : ∀ n, cl = some n → n < 2 ^ 63) :
    ∃ h', Http.fixLength isResponse status method h (encodings te) =
        .ok (lengthOf isResponse status te cl, h') ∧
      h'.entries.lookup (lit "Trailer") = h.entries.lookup (lit "Trailer") := by
  have hvalues : h.values (lit "Content-Length") =
      cl.elim [] fun n => [itoa n] := by
    rw [Header.values, hF.length]
    cases cl <;> rfl
  unfold Http.fixLength lengthOf
  rw [hF.dedup]
  dsimp only
  rw [hmethod, if_neg (by simp), hvalues, chunked_encodings]
  split
  · exact ⟨h, rfl, rfl⟩
  · split
    · exact ⟨h, rfl, rfl⟩
    · cases cl with
      | none =>
        refine ⟨h.del (lit "Content-Length"), ?_,
          Header.lookup_delete_of_ne (by decide)⟩
        simp only [Option.elim_none, ne_eq, not_true_eq_false, if_false]
        cases isResponse <;> rfl
      | some n =>
        refine ⟨h, ?_, rfl⟩
        simp only [Option.elim_some, trimSpace_of_graphic isGraphic_itoa]
        rw [if_pos (itoa_ne_nil n), parseContentLength_itoa (hlt n rfl)]
        rfl

theorem fixTrailer_of_lookup (te : Bool)
    (htr : h.entries.lookup (lit "Trailer") = if ks = [] then
      none else some [List.intercalate [44] ks])
    (hks : ∀ k ∈ ks, TrailerKey k) (hte : ks ≠ [] → te = true) :
    ∃ h', fixTrailer h (encodings te) =
      .ok (if ks = [] then none else some (announce ks), h') := by
  unfold fixTrailer
  by_cases hnil : ks = []
  · rw [if_pos hnil] at htr
    rw [if_neg (by rw [Header.has, htr]; simp), if_pos hnil]
    exact ⟨h, rfl⟩
  · rw [if_neg hnil] at htr
    have hvalues : h.values (lit "Trailer") = [List.intercalate [44] ks] := by
      rw [Header.values, htr]
      rfl
    have hkeys : ((h.values (lit "Trailer")).flatMap headerElements).map
        canonicalKey = ks := by
      rw [hvalues, List.flatMap_singleton, headerElements_intercalate hnil hks]
      have hid : ∀ k ∈ ks, canonicalKey k = id k :=
        fun k hk => (hks k hk).canonical
      rw [List.map_congr_left hid, List.map_id]
    have hfind : ks.find? badTrailerKey = none := by
      rw [List.find?_eq_none]
      intro k hk
      rw [(hks k hk).allowed]
      simp
    rw [if_pos (by rw [Header.has, htr]; rfl), if_neg hnil]
    dsimp only
    rw [hkeys, hfind]
    dsimp only
    rw [if_neg hnil, chunked_encodings, hte hnil, if_neg (by simp)]
    exact ⟨_, rfl⟩

/-- The framing of a message that was read back. -/
theorem readTransfer_framed (isResponse : Bool) (status major minor : Nat)
    (close : Bool) {method : Bytes} (hF : FramedBy h te cl ks)
    (hproto : te = true → protoAtLeast
      (if major = 0 ∧ minor = 0 then 1 else major)
      (if major = 0 ∧ minor = 0 then 1 else minor) 1 1 = true)
    (hcl : te = true → cl = none) (hlt : ∀ n, cl = some n → n < 2 ^ 63)
    (hmethod : noResponseBodyExpected method = false)
    (hks : ∀ k ∈ ks, TrailerKey k) (hte : ks ≠ [] → te = true) :
    ∃ t, readTransfer isResponse status method major minor close h = .ok t ∧
      t.transferEncoding = encodings te ∧ t.contentLength =
        lengthOf isResponse status te cl ∧
      t.trailer = (if ks = [] then none else some (announce ks)) := by
  have hF₀ : FramedBy (if isResponse then shouldClose major minor h true
    else (close, h)).2
      te cl ks := by
    split
    · exact hF.shouldClose major minor true
    · exact hF
  unfold readTransfer
  generalize (if isResponse then shouldClose major minor h true else (close, h))
    = p at hF₀
  obtain ⟨close₀, h₀⟩ := p
  obtain ⟨h₁, henc, hF₁⟩ := hF₀.fixTransferEncoding hproto hcl
  obtain ⟨h₂, hlen, htr⟩ := hF₁.fixLength isResponse status te hmethod hlt
  obtain ⟨h₃, htrailer⟩ := fixTrailer_of_lookup te
    (htr.trans hF₁.trailer) hks hte
  have hhead : (isResponse && method == methodHead) = false := by
    rw [show (method == methodHead) = false from hmethod, Bool.and_false]
  have hpair : (if major = 0 ∧ minor = 0 then ((1, 1) : Nat × Nat)
    else (major, minor)) =
      (if major = 0 ∧ minor = 0 then 1 else major,
        if major = 0 ∧ minor = 0 then 1 else minor) := by
    split <;> rfl
  dsimp only
  rw [hpair]
  dsimp only
  rw [henc]
  dsimp only
  rw [hlen]
  dsimp only
  rw [hhead]
  simp only [Bool.false_eq_true, if_false]
  rw [htrailer]
  exact ⟨_, rfl, rfl, rfl, rfl⟩

end Framing

/-! ## The framing that was written -/

theorem lookup_foldl_addLine (fs : List (Bytes × Bytes)) (k : Bytes) :
    (fs.foldl addLine Header.empty).entries.lookup k =
      if (fs.filter fun f => canonicalKey f.1 = k) = [] then none
      else some ((fs.filter fun f => canonicalKey f.1 = k).map fun f =>
        fieldValue f.2) := by
  have hv := values_foldl_addLine fs Header.empty k
  have hh := has_foldl_addLine fs Header.empty k
  change _ = [] ++ _ at hv
  change _ = (false || _) at hh
  rw [List.nil_append] at hv
  rw [Bool.false_or] at hh
  unfold Header.values at hv
  unfold Header.has at hh
  split
  · next hnil =>
      rw [List.filter_eq_nil_iff] at hnil
      have : (fs.any fun f => decide (canonicalKey f.1 = k)) = false := by
        rw [List.any_eq_false]
        exact hnil
      rw [this] at hh
      exact Option.isNone_iff_eq_none.mp (Option.isSome_eq_false_iff.mp hh)
  · next hne =>
      cases hl : (fs.foldl addLine Header.empty).entries.lookup k with
      | none =>
        rw [hl] at hv
        exact absurd (List.map_eq_nil_iff.mp hv.symm) hne
      | some vs =>
        rw [hl] at hv
        rw [← hv]
        rfl

theorem shouldSend_of_chunked {t : TransferWriter}
    (h : chunked t.transferEncoding = true) :
    t.shouldSendContentLength = false := by
  unfold TransferWriter.shouldSendContentLength
  rw [if_pos h]

/-- The fields of `writeHeader` under one of the framing keys. -/
theorem filter_frameLines (t : TransferWriter) :
    (frameLines t).filter (fun f => canonicalKey f.1 =
      lit "Transfer-Encoding") =
        (if chunked t.transferEncoding then [(lit "Transfer-Encoding",
          lit "chunked")] else []) ∧
      (frameLines t).filter (fun f => canonicalKey f.1 = lit "Content-Length") =
        (if t.shouldSendContentLength then [(lit "Content-Length",
          itoa t.contentLength.toNat)]
          else []) ∧
      (frameLines t).filter (fun f => canonicalKey f.1 = lit "Trailer") =
        (if trailerKeys t = [] then [] else
          [(lit "Trailer", List.intercalate [44] (trailerKeys t))]) := by
  have hch := shouldSend_of_chunked (t := t)
  unfold frameLines
  cases hsend : t.shouldSendContentLength
  all_goals
    cases hte : chunked t.transferEncoding
    all_goals
      by_cases hk : trailerKeys t = []
      all_goals
        cases hc : t.close && !hasToken (t.header.first (lit "Connection"))
          (lit "close")
        all_goals simp +decide [hk]
  all_goals
    rw [hch hte] at hsend
    cases hsend

theorem filter_of_none {fs : List (Bytes × Bytes)}
    (h : ∀ f ∈ fs, isFramingKey (canonicalKey f.1) = false) {k : Bytes}
    (hk : isFramingKey k = true) :
    fs.filter (fun f => canonicalKey f.1 = k) = [] := by
  rw [List.filter_eq_nil_iff]
  intro f hf heq
  rw [decide_eq_true_eq] at heq
  rw [← heq, h f hf] at hk
  cases hk

/-- The header read back from fields among which only those of `writeHeader`,
and perhaps a length of zero at the end, have framing keys. -/
theorem framedBy_lines {t : TransferWriter} {pre mid : List (Bytes × Bytes)}
    (zero : Bool) (hpre : ∀ f ∈ pre, isFramingKey (canonicalKey f.1) = false)
    (hmid : ∀ f ∈ mid, isFramingKey (canonicalKey f.1) = false)
    (hzero : zero = true → t.shouldSendContentLength = false)
    (hks : ∀ k ∈ trailerKeys t, TrailerKey k) :
    FramedBy ((pre ++ frameLines t ++ mid ++
        if zero then [(lit "Content-Length", itoa 0)] else []).foldl addLine
          Header.empty)
      (chunked t.transferEncoding)
      (if t.shouldSendContentLength then some t.contentLength.toNat
        else if zero then some 0 else none)
      (trailerKeys t) := by
  obtain ⟨h1, h2, h3⟩ := filter_frameLines t
  have hv2 : ∀ n, fieldValue (itoa n) = itoa n := by
    intro n
    have hows : ∀ c ∈ itoa n, isOWS c = false := by
      intro c hc
      obtain ⟨d, hd, rfl⟩ := mem_itoa hc
      exact (by decide : ∀ d, d < 10 → isOWS (digit d) = false) d hd
    exact fieldValue_of_trimmed ⟨fun b hb => hows b (List.mem_of_mem_head? hb),
      fun b hb => hows b (List.mem_of_mem_getLast? hb)⟩
  refine ⟨?_, ?_, ?_⟩
  · rw [lookup_foldl_addLine, List.filter_append, List.filter_append,
      List.filter_append,
      filter_of_none hpre (by decide), filter_of_none hmid (by decide), h1]
    cases chunked t.transferEncoding <;> cases zero <;> simp +decide
  · rw [lookup_foldl_addLine, List.filter_append, List.filter_append,
      List.filter_append,
      filter_of_none hpre (by decide), filter_of_none hmid (by decide), h2]
    cases hs : t.shouldSendContentLength
    all_goals
      cases hz : zero
      all_goals simp +decide [hv2]
    rw [hzero hz] at hs
    cases hs
  · rw [lookup_foldl_addLine, List.filter_append, List.filter_append,
      List.filter_append,
      filter_of_none hpre (by decide), filter_of_none hmid (by decide), h3]
    by_cases hk : trailerKeys t = []
    · cases zero <;> simp +decide [hk]
    · obtain ⟨_, htrim⟩ := trimmed_intercalate (p := isOWS) hk fun k hk =>
        ⟨(hks k hk).ne_nil, trimmed_ows (hks k hk).trimmed⟩
      cases zero <;> simp +decide [hk, fieldValue_of_trimmed htrim]

end Netramesh.Proofs
