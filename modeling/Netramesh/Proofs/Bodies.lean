import Netramesh.Proofs.Accepted
import Netramesh.Proofs.Relay

/-!
# Reading back the body of a message

A body goes out in other chunks than it came in, and its trailer section is made
anew: the announced names and what came for them, the values sanitized. What is
read back is the same bytes and the same fields, as long as the new section is
not too long for the reader's buffer. The names are announced in sorted order.
-/

namespace Netramesh.Proofs

open Http Protocol Net Lib

theorem parses_of_gives {α : Type} {f : Parser Tee Err α} {v v' : Bytes} {a : α}
    (fin : Err) (h : Gives 0xfff f v a v') : Parses f fin v a v' := by
  obtain ⟨rd', hrun, _, hv⟩ := h (standing fin v) rfl rfl
  exact ⟨by rw [hrun], by rw [hrun, hv]⟩

/-! ## Trailers -/

theorem TrailerOf.announced {te : Bool} {t : Option Header} (h : TrailerOf te t)
    {a : Header} (ha : t = some a) : Announced a := by
  rcases h with h | ⟨_, ks, _, hks, h⟩
  · rw [h] at ha
    cases ha
  · rw [h] at ha
    cases ha
    exact announced_announce fun k hk => (hks k hk).canonical

/-- A trailer section that was read holds fields that can be written. -/
theorem readTrailer_plain {fin : Err} {v rest : Bytes} {h : Header}
    (hp : Parses readTrailer fin v (some h) rest) : PlainHeader h := by
  have hrun : readTrailer (standing fin v) =
      (.ok (some h), (readTrailer (standing fin v)).2) :=
    Prod.ext hp.1 rfl
  rw [readTrailer] at hrun
  obtain ⟨b, rd₁, _, hrun⟩ := Parser.bind_eq_ok hrun
  split at hrun
  · obtain ⟨_, rd₂, _, hrun⟩ := Parser.bind_eq_ok hrun
    cases hrun
  · split at hrun
    · cases hrun
    · obtain ⟨seen, rd₂, _, hrun⟩ := Parser.bind_eq_ok hrun
      split at hrun
      · cases hrun
      · obtain ⟨h', rd₃, hmime, hrun⟩ := Parser.bind_eq_ok hrun
        cases hrun
        rw [Parser.mapError] at hmime
        split at hmime
        · next hmime' =>
            cases hmime
            exact readMIMEHeader_plain hmime'
        · cases hmime

/-- The trailer section of a complete message. -/
theorem Carries.plain {fin : Err} {fr : Framing} {v data rest : Bytes}
    {hdr : Option Header} (h : Carries fin fr v data hdr rest) :
    ∀ t, hdr = some t → PlainHeader t := by
  intro t ht
  cases h with
  | length _ => cases ht
  | chunked _ hparse =>
    subst ht
    exact readTrailer_plain hparse
  | close => cases ht

/-- The trailer section a message is written with fits into the reader's
buffer. -/
def Fits (t hdr : Option Header) : Prop :=
  (trailerWire (mergedTrailer t hdr) ++ crlf).length ≤ 0xfff

instance (t hdr : Option Header) : Decidable (Fits t hdr) :=
  inferInstanceAs (Decidable (_ ≤ _))

theorem parses_trailer {te : Bool} {t hdr : Option Header} (ht : TrailerOf te t)
    (hh : ∀ h, hdr = some h → PlainHeader h) (hfit : Fits t hdr)
    (rest : Bytes) :
    Parses readTrailer .eof (trailerWire (mergedTrailer t hdr) ++ crlf ++ rest)
      (t.bind fun a => rereadTrailer a hdr) rest := by
  cases ha : t with
  | none => exact parses_of_gives _ (gives_readTrailer_nil (by decide))
  | some a =>
    have hann := ht.announced ha
    rw [Fits, ha, mergedTrailer_some, trailerWire, Option.elim_some,
      linePieces_flatten] at hfit
    rw [mergedTrailer_some, trailerWire, Option.elim_some, linePieces_flatten,
      Option.bind_some, rereadTrailer]
    split
    · next hnil =>
        rw [hnil]
        exact parses_of_gives _ (gives_readTrailer_nil (by decide))
    · next hne =>
        refine parses_of_gives _ (gives_readTrailer (by decide) hne ?_ hfit)
        intro f hf
        obtain ⟨vs, hmem, _, v, hv, hval⟩ := mem_fieldLines.mp hf
        refine ⟨?_, by rw [hval]; exact nl_not_mem_sanitize v⟩
        rcases mem_mergedWith hann hmem with ⟨_, hnil⟩ | ⟨h, hs, hmem'⟩
        · rw [show vs = [] from hnil] at hv
          cases hv
        · exact (hh h hs _ hmem').key

/-! ## Bodies -/

section Written

variable {t : TransferWriter} {ps : List Bytes}

theorem carries_chunked {te : Bool} {hdr : Option Header}
    (hte : chunked t.transferEncoding = true)
    (hps : ∀ p ∈ ps, p ≠ [] ∧ p.length ≤ 2 ^ 63) (ht : TrailerOf te t.trailer)
    (hh : ∀ h, hdr = some h → PlainHeader h) (hfit : Fits t.trailer hdr)
    (tail : Bytes) :
    Carries .eof .chunked (piecesWire t ps ++ endWire t hdr ++ tail) ps.flatten
      (t.trailer.bind fun a => rereadTrailer a hdr) tail := by
  have hwire : piecesWire t ps ++ endWire t hdr ++ tail =
    ps.flatMap chunk ++ (lit "0\r\n" ++
      (trailerWire (mergedTrailer t.trailer hdr) ++ crlf ++ tail)) := by
    rw [piecesWire, if_pos hte, endWire, if_pos hte]
    simp only [List.append_assoc]
  rw [hwire]
  exact .chunked (chunks_of_pieces ps hps) (parses_trailer ht hh hfit tail)

/-- What is not chunked is written as it is. -/
theorem plainWire (hte : chunked t.transferEncoding = false)
    (hdr : Option Header) :
    piecesWire t ps ++ endWire t hdr = ps.flatten := by
  rw [piecesWire, if_neg (by simp [hte]), endWire, if_neg (by simp [hte]),
    List.append_nil]

theorem carries_length (data tail : Bytes) :
    Carries .eof (.length data.length) (data ++ tail) data none tail := by
  have h : Carries .eof (.length data.length) (data ++ tail) _ none _ :=
    .length (by rw [List.length_append]; omega)
  rwa [List.take_left, List.drop_left] at h

end Written

/-- `writeBody` on a complete body that suits it, or on none: it stops where the
body ends, and has written its pieces. -/
theorem writeBody_carries {t : TransferWriter} {c : Copy Tee} {fr : Framing}
    {data rest : Bytes} {hdr : Option Header}
    (hbody : (fr = .length 0 ∧ c.body = none ∧
      chunked t.transferEncoding = false) ∨
      (fr ≠ .length 0 ∧ ∃ cl, c.body = some (bodyFor cl fr) ∧
      Suits t (bodyFor cl fr)))
    (hclose : fr = .close → chunked t.transferEncoding = false)
    (htrailer : c.trailer = none) (hfails : NoFail c.out.fails)
    (hsize : c.rd.size = 0xfff) (hsizes : ∀ k ∈ c.sizes, k < 2 ^ 63)
    (hcarries : Carries c.rd.fin fr c.rd.view data hdr rest) :
    (writeBody t c).2.rd.view = rest ∧ ∃ ps, ps.flatten = data ∧
      (∀ p ∈ ps, p ≠ [] ∧ p.length ≤ 2 ^ 63) ∧
      (writeBody t c).2.out.bytes = c.out.bytes ++
        (piecesWire t ps ++ endWire t hdr) := by
  rcases hbody with ⟨rfl, hnone, hte⟩ | ⟨hfr, cl, hb, hsuits⟩
  · obtain ⟨_, rfl, rfl, rfl⟩ := hcarries.of_length
    refine ⟨by rw [writeBody_noBody_rd hnone]; rfl, [], by simp, by simp, ?_⟩
    rw [writeBody_noBody_out hnone hte, plainWire hte]
    simp
  · rcases pending_of_carries cl hfr hcarries with hpending
      | ⟨rfl, _, rfl, hpending⟩
    · obtain ⟨ps, hw⟩ :=
        writeBody_spec hsuits htrailer hb hfails hsize hsizes hpending
      obtain ⟨_, hview, hout⟩ := hw.full rest hdr rfl
      exact ⟨hview, ps, hw.flat, hw.pieces, by rw [hout, List.append_assoc]⟩
    · -- an error ends the copy, but there is no end to write
      obtain ⟨ps, hw⟩ :=
        writeBody_spec hsuits htrailer hb hfails hsize hsizes hpending
      obtain ⟨_, hview, hout⟩ := hw.cut rfl
      refine ⟨hview, ps, hw.flat, hw.pieces, ?_⟩
      rw [hout, endWire, if_neg (by simp [hclose rfl]), List.append_nil]

/-- A body whose stream is at its end already: nothing is read and nothing
written. -/
theorem writeBody_nothing {t : TransferWriter} {c : Copy Tee} {fr : Framing}
    {cl : Bool} (hfr : fr ≠ .length 0) (hb : c.body = some (bodyFor cl fr))
    (hsuits : Suits t (bodyFor cl fr))
    (hclose : fr = .close → chunked t.transferEncoding = false)
    (htrailer : c.trailer = none) (hfails : NoFail c.out.fails)
    (hsize : c.rd.size = 0xfff) (hsizes : ∀ k ∈ c.sizes, k < 2 ^ 63)
    (hv : c.rd.view = []) : (writeBody t c).2.out.bytes = c.out.bytes := by
  have hpending : ∃ data o, Pending c.rd.fin (bodyFor cl fr) c.rd.view data o ∧
      ∀ rest hdr, o = some (rest, hdr) → fr = .close := by
    cases fr with
    | length n =>
      have hpos : 0 < n := Nat.pos_of_ne_zero fun hz => hfr (by rw [hz])
      have hcut : CutOff (.length n) c.rd.view :=
        .length (by rw [hv]; exact hpos)
      obtain ⟨data, hp⟩ := pending_of_cutOff c.rd.fin cl hcut
      exact ⟨data, none, hp, fun _ _ ho => by cases ho⟩
    | chunked =>
      have hcut : CutOff .chunked c.rd.view :=
        .chunked (.cutLine (by rw [hv]; decide) (by rw [hv]; simp))
      obtain ⟨data, hp⟩ := pending_of_cutOff c.rd.fin cl hcut
      exact ⟨data, none, hp, fun _ _ ho => by cases ho⟩
    | close => exact ⟨_, _, .wire, fun _ _ _ => rfl⟩
  obtain ⟨data, o, hp, hends⟩ := hpending
  have hdata : data = [] := by
    have := hp.length_le
    rw [hv] at this
    exact List.eq_nil_of_length_eq_zero (Nat.le_zero.mp this)
  obtain ⟨ps, hw⟩ := writeBody_spec hsuits htrailer hb hfails hsize hsizes hp
  have hnil : ps = [] := by
    have hflat := hw.flat
    rw [hdata] at hflat
    cases ps with
    | nil => rfl
    | cons p ps =>
      exact absurd (List.append_eq_nil_iff.mp hflat).1
        (hw.pieces p List.mem_cons_self).1
  have hpieces : piecesWire t ps = [] := by
    rw [hnil, piecesWire]
    split <;> rfl
  cases ho : o with
  | none => rw [(hw.cut ho).2.2, hpieces, List.append_nil]
  | some p =>
    -- a body without a length has no end to write
    rw [(hw.full p.1 p.2 ho).2.2, hpieces, endWire,
      if_neg (by simp [hclose (hends p.1 p.2 ho)]),
      List.append_nil, List.append_nil]

/-! ## Announcing again -/

section Announce

variable {ks : List Bytes} (hks : ∀ k ∈ ks, TrailerKey k)

/-- The announced names, in the order they are written. -/
def sortedKeys (a : Header) : List Bytes :=
  (a.keys.map canonicalKey).insertionSort fun a b => bytesLE a b

include hks

theorem mem_sortedKeys {k : Bytes} : k ∈ sortedKeys (announce ks) ↔ k ∈ ks := by
  have hkeys : ∀ k, k ∈ (announce ks).keys ↔ k ∈ ks := by
    intro k
    rw [← Header.has_iff, has_announce, List.elem_iff]
  rw [sortedKeys, List.mem_insertionSort, List.mem_map]
  constructor
  · rintro ⟨k', hk', rfl⟩
    have hmem := (hkeys k').mp hk'
    rw [(hks k' hmem).canonical]
    exact hmem
  · intro hk
    exact ⟨k, (hkeys k).mpr hk, (hks k hk).canonical⟩

theorem has_announce_sortedKeys (k : Bytes) :
    (announce (sortedKeys (announce ks))).has k = (announce ks).has k := by
  rw [has_announce, has_announce, Bool.eq_iff_iff, List.elem_iff, List.elem_iff]
  exact mem_sortedKeys hks

end Announce

theorem trailerKeys_eq (t : TransferWriter) :
    trailerKeys t = t.trailer.elim [] sortedKeys := by
  unfold trailerKeys
  cases t.trailer <;> rfl

/-- The announced names are announced again. -/
theorem TrailerOf.keys {te : Bool} {t : TransferWriter}
    (h : TrailerOf te t.trailer) :
    (∀ k ∈ trailerKeys t, TrailerKey k) ∧ (trailerKeys t ≠ [] → te = true) ∧
      (t.trailer = none → trailerKeys t = []) ∧
      ∀ a, t.trailer = some a → trailerKeys t ≠ [] ∧
        ∀ k, (announce (trailerKeys t)).has k = a.has k := by
  rw [trailerKeys_eq]
  rcases h with h | ⟨hte, ks, hne, hks, h⟩
  · rw [h]
    exact ⟨by simp, by simp, fun _ => rfl, fun a ha => by cases ha⟩
  · rw [h, Option.elim_some]
    refine ⟨fun k hk => hks k ((mem_sortedKeys hks).mp hk),
      fun _ => hte, by simp, ?_⟩
    intro a ha
    cases ha
    obtain ⟨k, hk⟩ := List.exists_mem_of_ne_nil _ hne
    exact ⟨List.ne_nil_of_mem ((mem_sortedKeys hks).mpr hk),
      has_announce_sortedKeys hks⟩

/-- The trailer of a message and of the one read back: if it announces fields,
the same come. -/
def SameTrailers {μ : Type} (trailer : μ → Option Header) (m m' : Message μ) :
    Prop :=
  ∀ a, trailer m.head = some a → ∃ a', trailer m'.head = some a' ∧
    SameFields (mergedWith a m.trailer) (mergedWith a' m'.trailer)

theorem TrailerOf.same {te : Bool} {t : TransferWriter} {hdr : Option Header}
    {a : Header} (h : TrailerOf te t.trailer)
    (hh : ∀ h, hdr = some h → PlainHeader h) (ha : t.trailer = some a) :
    SameFields (mergedWith a hdr) (mergedWith (announce (trailerKeys t))
      (t.trailer.bind fun a => rereadTrailer a hdr)) := by
  obtain ⟨hks, _, _, hsame⟩ := h.keys
  rw [ha, Option.bind_some]
  exact sameFields_reread (h.announced ha)
    (announced_announce fun k hk => (hks k hk).canonical) hh
    (hsame a ha).2

end Netramesh.Proofs
