import Netramesh.Proofs.Verbatim

/-!
# What a response keeps

The way of a response is that of a request, with its own turns: the status line
is put together from the numbers in it and the text behind the code, and a
`Connection` field that asks for the end of the connection is taken out and put
back as `close`.
-/

namespace Netramesh.Proofs

open Http Net Protocol Lib

/-! ## The head that is written -/

/-- The fields of a response that is written. -/
def responseLines (r : Response) : List (Bytes × Bytes) :=
  frameLines (newResponseWriter r.toWrite) ++
    fieldLines respExcludeHeader r.header ++
    if r.contentLength = 0 ∧ !chunked r.transferEncoding ∧
        !(newResponseWriter r.toWrite).shouldSendContentLength ∧
          bodyAllowedForStatus r.statusCode
      then [(lit "Content-Length", lit "0")] else []

/-- The version a response is written with. -/
def versionText (major minor : Nat) : Bytes :=
  lit "HTTP/" ++ itoa major ++ 46 :: itoa minor

/-- Its first line. -/
def responseStart (r : Response) : Bytes :=
  versionText r.protoMajor r.protoMinor ++ sp :: pad3 r.statusCode ++
    sp :: r.statusText

theorem responseHead_flatten (r : Response) :
    r.headPieces.flatten = responseStart r ++ crlf ++
      linesWire (responseLines r) ++ crlf := by
  have hzero : ∀ p : Prop, [Decidable p] →
    (if p then [lit "Content-Length: 0\r\n"] else []).flatten =
      linesWire (if p then [(lit "Content-Length", lit "0")] else []) := by
    intro p _
    split <;> rfl
  unfold Response.headPieces responseLines responseStart versionText
  dsimp only
  rw [List.flatten_append, List.flatten_append, List.flatten_append,
    List.flatten_append, hzero,
    headerPieces_flatten, linePieces_flatten, linesWire_append,
      linesWire_append]
  simp

/-! ## The status line -/

theorem three_le_length_itoa {n : Nat} : 3 ≤ (itoa n).length ↔ 100 ≤ n := by
  constructor
  · intro h
    by_contra hlt
    have : (itoa n).length ≤ 2 :=
      length_formatBase (by decide) (by decide) (by omega)
    omega
  · intro h
    by_contra hlt
    have hpow : n < 10 ^ (itoa n).length :=
      lt_pow_length_formatBase (by decide) (Nat.lt_succ_self n)
    have : 10 ^ (itoa n).length ≤ 10 ^ 2 :=
      Nat.pow_le_pow_right (by decide) (by omega)
    omega

theorem pad3_of_le {n : Nat} (h : 100 ≤ n) : pad3 n = itoa n := by
  have hlen := three_le_length_itoa.mpr h
  rw [pad3, Nat.sub_eq_zero_of_le hlen]
  rfl

theorem le_length_pad3 (n : Nat) : 3 ≤ (pad3 n).length := by
  rw [pad3, List.length_append, List.length_replicate]
  omega

theorem mem_pad3 {n : Nat} {b : UInt8} (h : b ∈ pad3 n) :
    ∃ d, d < 10 ∧ b = digit d := by
  rcases List.mem_append.mp h with h | h
  · exact ⟨0, by decide, List.eq_of_mem_replicate h⟩
  · exact mem_itoa h

/-- The code starts with a digit. -/
theorem head_pad3 (n : Nat) (s : Bytes) :
    ∀ b ∈ (pad3 n ++ s).head?, (b == sp) = false := by
  intro b hb
  cases hp : pad3 n with
  | nil =>
    have hlen := le_length_pad3 n
    rw [hp] at hlen
    cases hlen
  | cons c t =>
    rw [hp] at hb
    cases hb
    obtain ⟨d, hd, heq⟩ := mem_pad3 (b := b)
      (by rw [hp]; exact List.mem_cons_self)
    rw [heq]
    exact (by decide : ∀ d, d < 10 → (digit d == sp) = false) d hd

theorem sp_notMem_versionText (major minor : Nat) :
    sp ∉ versionText major minor := by
  have hitoa : ∀ n, sp ∉ itoa n :=
    fun n hm => absurd (isGraphic_itoa sp hm) (by decide)
  intro hm
  simp only [versionText, List.mem_append, List.mem_cons] at hm
  rcases hm with (hm | hm) | hm | hm
  · exact absurd hm (by decide)
  · exact hitoa _ hm
  · exact absurd hm (by decide)
  · exact hitoa _ hm

theorem statusLine_parts {raw : Bytes} {l : StatusLine}
    (h : statusLine raw = .ok l) :
    ∃ rest, raw = l.proto ++ sp :: rest ∧ sp ∉ l.proto ∧
      l.status = rest.dropWhile (· == sp) := by
  unfold statusLine at h
  split at h
  · cases h
  · next proto rest hcut =>
      obtain ⟨hraw, hproto⟩ := cutByte_eq_some.mp hcut
      dsimp only at h
      repeat' split at h
      all_goals cases h
      all_goals exact ⟨rest, hraw, hproto, rfl⟩

/-- The status line is kept exactly if it is written the usual way: the version
in plain numbers, one blank, a code of three digits that does not start with a
zero, and another blank. -/
def StatusKept (raw : Bytes) (l : StatusLine) : Prop :=
  raw = versionText l.major l.minor ++ sp :: l.status ∧ 100 ≤ l.statusCode ∧
    ∃ reason, l.status = itoa l.statusCode ++ sp :: reason

theorem status_iff {raw : Bytes} {l : StatusLine} (h : statusLine raw = .ok l)
    {r : Response} (hstatus : r.status = l.status)
    (hcode : r.statusCode = l.statusCode) (hmajor : r.protoMajor = l.major)
    (hminor : r.protoMinor = l.minor) :
    responseStart r = raw ↔ StatusKept raw l := by
  obtain ⟨rest, hraw, hproto, hrest⟩ := statusLine_parts h
  rw [responseStart, Response.statusText, hstatus, hcode, hmajor, hminor,
    StatusKept, List.append_assoc, List.cons_append]
  constructor
  · intro heq
    have hcut := congrArg (cutByte sp) (heq.trans hraw)
    rw [cutByte_append (sp_notMem_versionText _ _), cutByte_append hproto,
      Option.some.injEq, Prod.mk.injEq] at hcut
    obtain ⟨hversion, htail⟩ := hcut
    have hwhole : l.status = rest := by
      rw [hrest, ← htail]
      exact dropWhile_of_head (head_pad3 _ _)
    rw [← hwhole] at htail
    split at htail
    · next hprefix =>
        -- the code stands in front of the text with no padding
        obtain ⟨reason, hreason⟩ := List.isPrefixOf_iff_prefix.mp hprefix
        rw [← hreason, List.drop_left, List.append_assoc,
          List.singleton_append] at htail
        refine ⟨by rw [hraw, ← hversion, hwhole], ?_, reason, ?_⟩
        · have hlen := congrArg List.length htail
          rw [List.length_append, List.length_append] at hlen
          rw [← three_le_length_itoa]
          have := le_length_pad3 l.statusCode
          omega
        · rw [← hreason, List.append_assoc]
          rfl
    · have hlen := congrArg List.length htail
      rw [List.length_append, List.length_cons] at hlen
      omega
  · rintro ⟨hline, hge, reason, hreason⟩
    have hprefix : (itoa l.statusCode ++ [sp]).isPrefixOf l.status = true := by
      rw [List.isPrefixOf_iff_prefix, hreason]
      exact ⟨reason, by simp⟩
    rw [if_pos hprefix, pad3_of_le hge, hline]
    conv_rhs => rw [hreason]
    rw [hreason, List.drop_append]
    simp

/-! ## The fields -/

/-- `shouldClose` takes the `Connection` field out. -/
def dropsConnection (l : StatusLine) (h : Header) : Bool :=
  decide (1 ≤ l.major) && !(l.major == 1 && l.minor == 0) &&
    headerValuesContainsToken (h.values (lit "Connection")) (lit "close")

/-- The body goes on to the end of the connection: it is not chunked, has no
length, and the status allows it. -/
def UntilClose (l : StatusLine) (h : Header) : Prop :=
  ∃ te h₁ h₂,
    fixTransferEncoding (if l.major = 0 ∧ l.minor = 0 then 1 else l.major)
      (if l.major = 0 ∧ l.minor = 0 then 1 else l.minor)
      (shouldClose l.major l.minor (fixPragmaCacheControl h) true).2 =
        .ok (te, h₁) ∧
    chunked te = false ∧ fixLength true l.statusCode (lit "GET") h₁ te =
      .ok (-1, h₂)

theorem shouldClose_header (l : StatusLine) (h : Header) :
    (shouldClose l.major l.minor h true).2
      = if dropsConnection l h then h.delete (lit "Connection") else h := by
  unfold shouldClose dropsConnection
  split
  · next hlt => rw [if_neg (by simp; omega)]
  · next hge =>
      dsimp only
      split
      · next hten => rw [if_neg (by simp [hten])]
      · next hten =>
          have hleft : (decide (1 ≤ l.major) && !(l.major == 1 && l.minor == 0))
              = true := by
            simp only [Bool.and_eq_true, decide_eq_true_eq, Bool.not_eq_true',
              Bool.and_eq_false_iff, beq_eq_false_iff_ne]
            exact ⟨by omega, by omega⟩
          rw [hleft, Bool.true_and, Bool.and_true]
          rfl

/-- What is read of the `Connection` field is not what `fixPragmaCacheControl`
edits. -/
theorem shouldClose_fixPragma (l : StatusLine) (h : Header) :
    (shouldClose l.major l.minor (fixPragmaCacheControl h) true).1
        = (shouldClose l.major l.minor h true).1 ∧
      dropsConnection l (fixPragmaCacheControl h) = dropsConnection l h := by
  have hconn : (fixPragmaCacheControl h).values (lit "Connection") =
      h.values (lit "Connection") := by
    rw [Header.values, Header.values, fixPragma_lookup (by decide)]
  refine ⟨?_, by rw [dropsConnection, dropsConnection, hconn]⟩
  unfold shouldClose
  rw [hconn]
  split
  · rfl
  · dsimp only
    split <;> rfl

/-- A body without a length is one that the status allows. -/
theorem bodyAllowed_of_fixLength {status : Nat} {h h' : Header}
    {te : List Bytes}
    (hok : fixLength true status (lit "GET") h te = .ok (-1, h')) :
    bodyAllowedForStatus status = true := by
  unfold fixLength at hok
  split at hok
  · cases hok
  · dsimp only at hok
    rw [if_neg (by decide)] at hok
    split at hok
    · cases hok
    · next hstatus =>
        simp only [bodyAllowedForStatus, Bool.and_eq_true, Bool.not_eq_true',
          Bool.and_eq_false_iff, decide_eq_false_iff_not, bne_iff_ne]
        omega

/-- What becomes of the head of a response: the status line `l` and the fields
`h`. -/
structure FinishedResponse (l : StatusLine) (h : Header) (r : Response) :
    Prop where
  status : r.status = l.status
  code : r.statusCode = l.statusCode
  major : r.protoMajor = l.major
  minor : r.protoMinor = l.minor
  lookup : ∀ k, isFramingKey k = false → k ≠ lit "Connection" →
    k ≠ lit "Cache-Control" → r.header.entries.lookup k = h.entries.lookup k
  cacheControl : r.header.values (lit "Cache-Control") =
    if addsCacheControl h then [lit "no-cache"]
      else h.values (lit "Cache-Control")
  connection : r.header.values (lit "Connection") =
    if dropsConnection l h then [] else h.values (lit "Connection")
  close : r.toWrite.close = true ↔
    (shouldClose l.major l.minor h true).1 = true ∨ UntilClose l h

theorem finishedResponse {l : StatusLine} {h : Header} {r : Response}
    (hfin : finishResponse none l h = .ok r) : FinishedResponse l h r := by
  unfold finishResponse at hfin
  dsimp only at hfin
  split at hfin
  · cases hfin
  · next t ht =>
      obtain ⟨st⟩ := readTransfer_eq_ok ht
      cases hfin
      have hzero : st.h₀ = if dropsConnection l h then
          (fixPragmaCacheControl h).delete (lit "Connection")
            else fixPragmaCacheControl h := by
        have hstart := congrArg Prod.snd st.closes
        rw [if_pos rfl, shouldClose_header,
          (shouldClose_fixPragma l h).2] at hstart
        exact hstart.symm
      have hreframed := TransferSteps.reframed st
      have hother : ∀ k, k ≠ lit "Connection" →
          st.h₀.entries.lookup k = (fixPragmaCacheControl h).entries.lookup
            k := by
        intro k hk
        rw [hzero]
        split
        · exact Header.lookup_delete_of_ne hk
        · rfl
      refine ⟨rfl, rfl, rfl, rfl, ?_, ?_, ?_, ?_⟩
      · intro k hk hconn hcc
        rw [hreframed k hk, hother k hconn, fixPragma_lookup hcc]
      · rw [hreframed.values (by decide), Header.values, hother _ (by decide)]
        exact values_fixPragma h
      · rw [hreframed.values (by decide), hzero]
        split
        · exact Header.values_delete_self _ _
        · rw [Header.values, fixPragma_lookup (by decide)]
          rfl
      · have hclose := congrArg Transfer.close st.eq
        have hencoding : t.transferEncoding = st.te :=
          congrArg Transfer.transferEncoding st.eq
        have hlength : t.contentLength = st.realLength := by
          have := st.announced
          rw [if_neg (by decide)] at this
          exact (Except.ok.inj this).symm
        have hstart := congrArg Prod.fst st.closes
        rw [if_pos rfl, (shouldClose_fixPragma l h).1] at hstart
        have hend : st.realLength = -1 ∧ chunked st.te = false ↔
            UntilClose l h := by
          have hheader :
              (shouldClose l.major l.minor (fixPragmaCacheControl h) true).2 =
              st.h₀ :=
            congrArg Prod.snd st.closes
          have henc := st.encodings
          rw [← hheader] at henc
          constructor
          · rintro ⟨hminus, hch⟩
            have hlen := st.length
            rw [hminus] at hlen
            exact ⟨st.te, st.h₁, st.h₂, henc, hch, hlen⟩
          · rintro ⟨te, h₁, h₂, henc', hch, hlen⟩
            rw [henc, Except.ok.injEq, Prod.mk.injEq] at henc'
            obtain ⟨rfl, rfl⟩ := henc'
            have hminus := hlen.symm.trans st.length
            rw [Except.ok.injEq, Prod.mk.injEq] at hminus
            exact ⟨hminus.1.symm, hch⟩
        have hallowed : st.realLength = -1 → bodyAllowedForStatus l.statusCode =
            true := by
          intro hminus
          have hlen := st.length
          rw [hminus] at hlen
          exact bodyAllowed_of_fixLength hlen
        rw [← hend, hstart, Response.toWrite]
        dsimp only
        rw [hclose, hencoding, hlength]
        simp only [Bool.or_eq_true, Bool.and_eq_true, beq_iff_eq,
          Bool.not_eq_true', Bool.true_and]
        constructor
        · rintro ((h0 | ⟨⟨hminus, hch⟩, _⟩) | ⟨⟨hminus, _⟩, hch⟩)
          · exact .inl h0
          · exact .inr ⟨hminus, hch⟩
          · exact .inr ⟨hminus, hch⟩
        · rintro (h0 | ⟨hminus, hch⟩)
          · exact .inl (.inl h0)
          · exact .inl (.inr ⟨⟨hminus, hch⟩, hallowed hminus⟩)

/-! ## Responses that are kept -/

/-- The response `r` goes out with the head that was read: the line `raw` and,
but for framing, the fields `h`. -/
def SameResponseHead (raw : Bytes) (h : Header) (r : Response) : Prop :=
  responseStart r = raw ∧
    ((responseLines r).filter fun f => !isFramingKey f.1).Perm
      ((fieldsOf h.entries).filter fun f => !isFramingKey f.1)

/-- A `Connection: close` that comes in goes out again; none is added. -/
def ConnectionKept (l : StatusLine) (h : Header) : Prop :=
  if dropsConnection l h then h.values (lit "Connection") = [lit "close"]
  else (shouldClose l.major l.minor h true).1 = true ∨ UntilClose l h →
    hasToken (h.first (lit "Connection")) (lit "close") = true

/-- When it does. -/
structure KeptResponse (raw : Bytes) (l : StatusLine) (h : Header) : Prop where
  status : StatusKept raw l
  cacheControl : addsCacheControl h = false
  connection : ConnectionKept l h
  values : ∀ k, isFramingKey k = false → ∀ v ∈ h.values k, sanitizeValue v = v

theorem under_responseLines (r : Response) {k : Bytes}
    (hk : isFramingKey k = false) :
    under k (responseLines r) =
      (if k = lit "Connection" ∧
          (r.toWrite.close && !hasToken (r.header.first (lit "Connection"))
            (lit "close"))
        then [lit "close"] else []) ++
          (r.header.values k).map sanitizeValue := by
  have hexclude : k ∉ respExcludeHeader := by
    simp only [isFramingKey, Bool.or_eq_false_iff, beq_eq_false_iff_ne] at hk
    simp only [respExcludeHeader, List.mem_cons, List.not_mem_nil, or_false,
      not_or]
    exact ⟨hk.1.2, hk.1.1, hk.2⟩
  have hzero : ∀ p : Prop, [Decidable p] →
      under k (if p then [(lit "Content-Length", lit "0")] else []) = [] := by
    intro p _
    split
    · have hne : lit "Content-Length" ≠ k := by
        rintro rfl
        exact absurd hk (by decide)
      simp [under, hne]
    · rfl
  rw [responseLines, under_append, under_append, hzero, List.append_nil,
    under_frameLines _ hk, under_fieldLines _ hexclude]
  rfl

section Connection

variable {l : StatusLine} {h : Header} {r : Response}

/-- The fields under `Connection`. -/
theorem connection_iff (hf : FinishedResponse l h r) :
    (under (lit "Connection") (responseLines r)).Perm
      (h.values (lit "Connection")) ↔
      ConnectionKept l h ∧ ∀ v ∈ h.values (lit "Connection"), sanitizeValue v =
        v := by
  rw [under_responseLines r (by decide), Header.first, hf.connection,
    ConnectionKept]
  cases hdrop : dropsConnection l h with
  | true =>
    have hclose : r.toWrite.close = true := by
      refine hf.close.mpr (.inl ?_)
      simp only [dropsConnection, Bool.and_eq_true, decide_eq_true_eq,
        Bool.not_eq_true', Bool.and_eq_false_iff, beq_eq_false_iff_ne] at hdrop
      rw [shouldClose, if_neg (by omega)]
      dsimp only
      rw [if_neg (by omega)]
      exact hdrop.2
    rw [if_pos rfl, if_pos rfl, hclose, if_pos ⟨rfl, by decide⟩]
    constructor
    · intro hperm
      have heq := List.singleton_perm.mp hperm
      refine ⟨heq.symm, ?_⟩
      rw [← heq]
      decide
    · rintro ⟨heq, _⟩
      rw [heq]
      exact .refl _
  | false =>
    simp only [Bool.false_eq_true, if_false]
    rw [perm_added_iff, ← hf.close]
    refine and_congr ?_ Iff.rfl
    simp only [true_and, Bool.and_eq_true, Bool.not_eq_true', not_and,
      Bool.not_eq_false]
    rfl

/-- The fields under any other name. -/
theorem otherField_iff (hf : FinishedResponse l h r) {k : Bytes}
    (hk : isFramingKey k = false) (hconn : k ≠ lit "Connection") :
    (under k (responseLines r)).Perm (h.values k) ↔
      ¬ (k = lit "Cache-Control" ∧ addsCacheControl h = true) ∧
        ∀ v ∈ h.values k, sanitizeValue v = v := by
  rw [under_responseLines r hk, if_neg fun h => hconn h.1, List.nil_append]
  by_cases hkc : k = lit "Cache-Control"
  · subst hkc
    rw [hf.cacheControl]
    exact cacheControl_iff h
  · have hvalues : r.header.values k = h.values k := by
      rw [Header.values, Header.values, hf.lookup k hk hconn hkc]
    rw [hvalues, perm_sanitize_iff]
    exact (and_iff_right fun h => hkc h.1).symm

/-- A response keeps its head exactly if nothing in it calls for a change. -/
theorem responseHead_iff {raw : Bytes} (hline : statusLine raw = .ok l)
    (hfin : finishResponse none l h = .ok r) :
    SameResponseHead raw h r ↔ KeptResponse raw l h := by
  have hf := finishedResponse hfin
  have hunder : ∀ k, isFramingKey k = false →
      (under k ((responseLines r).filter fun f => !isFramingKey f.1) =
        under k (responseLines r) ∧
      under k ((fieldsOf h.entries).filter fun f => !isFramingKey f.1) =
        h.values k) := by
    intro k hk
    rw [under_filter fun k => !isFramingKey k,
      under_filter fun k => !isFramingKey k, hk, under_fieldsOf]
    exact ⟨rfl, rfl⟩
  unfold SameResponseHead
  rw [status_iff hline hf.status hf.code hf.major hf.minor, perm_iff_under]
  constructor
  · rintro ⟨hstatus, hperm⟩
    have hfor : ∀ k, isFramingKey k = false →
        (under k (responseLines r)).Perm (h.values k) := by
      intro k hk
      have := hperm k
      rw [(hunder k hk).1, (hunder k hk).2] at this
      exact this
    have hconn := (connection_iff hf).mp (hfor _ (by decide))
    refine ⟨hstatus, ?_, hconn.1, ?_⟩
    · have :=
        ((otherField_iff hf (by decide) (by decide)).mp
        (hfor (lit "Cache-Control") (by decide))).1
      cases hadd : addsCacheControl h with
      | true => exact absurd ⟨rfl, hadd⟩ this
      | false => rfl
    · intro k hk
      by_cases hkc : k = lit "Connection"
      · rw [hkc]
        exact hconn.2
      · exact ((otherField_iff hf hk hkc).mp (hfor k hk)).2
  · intro hkept
    refine ⟨hkept.status, fun k => ?_⟩
    cases hk : isFramingKey k with
    | true =>
      rw [under_filter fun k => !isFramingKey k,
        under_filter fun k => !isFramingKey k, hk]
      exact .refl _
    | false =>
      rw [(hunder k hk).1, (hunder k hk).2]
      by_cases hkc : k = lit "Connection"
      · subst hkc
        exact (connection_iff hf).mpr ⟨hkept.connection, hkept.values _ hk⟩
      · refine (otherField_iff hf hk hkc).mpr ⟨?_, hkept.values k hk⟩
        rintro ⟨_, hadd⟩
        rw [hkept.cacheControl] at hadd
        cases hadd

end Connection

end Netramesh.Proofs
