import Netramesh.Proofs.Boundary
import Netramesh.Proofs.Fields

/-!
# Reading back a body

A body that went out in chunks comes back as the bytes of the chunks, wherever
they were cut, and the trailer section behind it comes back with its values
sanitized. For the section to be looked at it has to fit into the reader's
buffer together with the empty line behind it.
-/

namespace Netramesh.Proofs

open Http Protocol Net Lib

/-! ## Chunks -/

theorem chunkSizeField_hex (n : Nat) :
    chunkSizeField (hex n ++ crlf) = hex n := by
  have hmem : ∀ c ∈ hex n, isASCIISpace c = false ∧ c ≠ 59 := by
    intro c hc
    obtain ⟨d, hd, rfl⟩ := mem_hex hc
    exact (by decide : ∀ d,
      d < 16 → isASCIISpace (digit d) = false ∧ digit d ≠ 59) d hd
  have htrim : (hex n ++ crlf).rdropWhile isASCIISpace = hex n := by
    rw [show hex n ++ crlf = (hex n ++ [cr]) ++ [nl] by simp,
      List.rdropWhile_concat_pos _ _ _ (by decide),
        List.rdropWhile_concat_pos _ _ _ (by decide)]
    exact rdropWhile_of_last fun b hb =>
      (hmem b (List.mem_of_mem_getLast? hb)).1
  have hcut : cutByte 59 (hex n) = none :=
    cutByte_eq_none.mpr fun h => (hmem 59 h).2 rfl
  unfold chunkSizeField
  rw [htrim]
  dsimp only
  rw [hcut]

theorem parseHexUint_hex {n : Nat} (hn : n < 16 ^ 16) :
    parseHexUint (hex n) = .ok n := by
  have hlen : (hex n).length ≤ 16 :=
    length_formatBase (by decide) (by decide) hn
  unfold parseHexUint
  rw [List.take_of_length_le hlen, readDigits_hex, List.drop_of_length_le hlen]

/-- A size line comes back as the size. -/
theorem chunkHead_hex {n : Nat} {r : Bytes} (hn : n < 16 ^ 16) :
    chunkHead 0xfff (hex n ++ crlf ++ r) = some (n, r) := by
  have hlen : (hex n).length ≤ 16 :=
    length_formatBase (by decide) (by decide) hn
  have hnl : nl ∉ hex n ++ [cr] := by
    refine nl_not_mem_cr fun h => ?_
    obtain ⟨d, hd, hd'⟩ := mem_hex h
    exact (by decide : ∀ d, d < 16 → nl ≠ digit d) d hd hd'
  have htake : (hex n ++ crlf ++ r).take 0xfff =
      (hex n ++ [cr]) ++ nl :: r.take (0xfff - ((hex n).length + 2)) := by
    rw [List.take_append, List.take_of_length_le (by simp; omega)]
    simp
  have hdrop : (hex n ++ crlf ++ r).drop ((hex n ++ [cr]).length + 1) = r :=
    List.drop_left' (by simp)
  unfold chunkHead
  rw [htake, cutByte_append hnl]
  dsimp only
  rw [if_neg (by simp; omega),
    show hex n ++ [cr] ++ [nl] = hex n ++ crlf by simp,
    chunkSizeField_hex, parseHexUint_hex hn]
  dsimp only
  rw [hdrop]

theorem zeroChunk_eq : lit "0\r\n" = hex 0 ++ crlf := by decide

/-- Chunks come back as the bytes they were made of. -/
theorem chunks_of_pieces {tail : Bytes} (ps : List Bytes)
    (hps : ∀ p ∈ ps, p ≠ [] ∧ p.length ≤ 2 ^ 63) :
    Chunks 0xfff (ps.flatMap chunk ++ (lit "0\r\n" ++ tail)) ps.flatten
      (some tail) := by
  induction ps with
  | nil =>
    refine .last ?_
    rw [List.flatMap_nil, List.nil_append, zeroChunk_eq]
    exact chunkHead_hex (by decide)
  | cons p ps ih =>
    obtain ⟨hne, hlen⟩ := hps p List.mem_cons_self
    rw [List.flatten_cons]
    refine .chunk (r := ps.flatMap chunk ++ (lit "0\r\n" ++ tail)) hne ?_
      (ih fun q hq => hps q (List.mem_cons_of_mem _ hq))
    have hhead := chunkHead_hex (n := p.length)
      (r := p ++ crlf ++ (ps.flatMap chunk ++ (lit "0\r\n" ++ tail)))
      (Nat.lt_of_le_of_lt hlen (by decide))
    rw [← hhead, List.flatMap_cons, chunk]
    simp only [List.append_assoc]

/-! ## Sanitized values -/

theorem nl_not_mem_sanitize (v : Bytes) : nl ∉ sanitizeValue v := by
  intro h
  obtain ⟨b, _, hb⟩ := List.mem_map.mp (mem_of_mem_trimBy h)
  split at hb
  · cases hb
  · next hne => exact hne (.inl hb)

theorem trimmed_ows {s : Bytes} (h : Trimmed isASCIISpace s) :
    Trimmed isOWS s := by
  have hows : ∀ b, isASCIISpace b = false → isOWS b = false := by
    intro b hb
    simp only [isASCIISpace, Bool.or_eq_false_iff] at hb
    simp only [isOWS, Bool.or_eq_false_iff]
    exact hb.1.1
  exact ⟨fun b hb => hows b (h.head b hb), fun b hb => hows b (h.last b hb)⟩

theorem trimmed_sanitize (v : Bytes) : Trimmed isOWS (sanitizeValue v) :=
  trimmed_ows (trimmed_trimBy isASCIISpace _)

/-- A trimmed value without line breaks is left alone. -/
theorem sanitizeValue_of_plain {v : Bytes} (htrim : Trimmed isASCIISpace v)
    (hbreak : ∀ b ∈ v, b ≠ nl ∧ b ≠ cr) : sanitizeValue v = v := by
  have hmap : (v.map fun b => if b = nl ∨ b = cr then sp else b) = v := by
    conv_rhs => rw [← List.map_id v]
    refine List.map_congr_left fun b hb => ?_
    obtain ⟨hnl, hcr⟩ := hbreak b hb
    rw [if_neg (by simp [hnl, hcr])]
    rfl
  rw [sanitizeValue, hmap]
  exact trimBy_of_trimmed htrim

theorem sanitizeValue_idem (v : Bytes) :
    sanitizeValue (sanitizeValue v) = sanitizeValue v := by
  refine sanitizeValue_of_plain (trimmed_trimBy isASCIISpace _) fun b hb => ?_
  obtain ⟨c, _, rfl⟩ := List.mem_map.mp (mem_of_mem_trimBy hb)
  split
  · decide
  · next h =>
      rw [not_or] at h
      exact h

theorem linePieces_flatten (fs : List (Bytes × Bytes)) :
    (fs.flatMap linePieces).flatten = linesWire fs := by
  induction fs with
  | nil => rfl
  | cons f fs ih =>
    rw [List.flatMap_cons, List.flatten_append, ih, linesWire, linesWire,
      List.flatMap_cons]
    simp [linePieces, lineWire]

/-! ## The trailer section -/

theorem gives_seeDoubleCRLF {n k : Nat} {v w : Bytes}
    (hw : (w ++ doubleCRLF) <+: v) (hfit : (w ++ doubleCRLF).length ≤ n)
    (fuel : Nat) (hk : k ≤ (w ++ doubleCRLF).length)
    (hfuel : (w ++ doubleCRLF).length - k < fuel) :
    Gives n (seeDoubleCRLF fuel k : Parser Tee Err Bool) v true v := by
  induction fuel generalizing k with
  | zero => omega
  | succ fuel ih =>
    rw [seeDoubleCRLF]
    refine Gives.bind (gives_peek n k v) ?_
    rw [Nat.min_eq_left (by omega)]
    split
    · exact .pure
    · next hsuffix =>
        have hlen := hw.length_le
        rw [if_neg (by rw [List.length_take]; omega)]
        -- at the full length the peek ends with the two line ends
        have hlt : k < (w ++ doubleCRLF).length := by
          by_contra hge
          have hk' : k = (w ++ doubleCRLF).length := by omega
          obtain ⟨t, rfl⟩ := hw
          rw [hk', List.take_left] at hsuffix
          exact hsuffix (List.isSuffixOf_iff_suffix.mpr
            (List.suffix_append _ _))
        exact ih (by omega) (by omega)

theorem gives_readTrailer_nil {n : Nat} {rest : Bytes} (hn : 2 ≤ n) :
    Gives n (readTrailer : Parser Tee Err (Option Header))
      (crlf ++ rest) none rest := by
  refine Gives.bind (gives_peek n 2 _) ?_
  rw [Nat.min_eq_left hn, show (crlf ++ rest).take 2 = crlf from rfl,
    if_pos rfl]
  refine Gives.bind (a := ()) ?_ (.pure (v := rest))
  have := gives_discard (ρ := Tee) (ε := Err) n 2 (crlf ++ rest)
  rwa [Nat.min_eq_left hn] at this

/-- A trailer section with fields comes back as they were written. -/
theorem gives_readTrailer {n : Nat} {fs : List (Bytes × Bytes)} {rest : Bytes}
    (hn : 16 ≤ n) (hne : fs ≠ []) (hfs : ∀ f ∈ fs, FieldKey f.1 ∧ nl ∉ f.2)
    (hfit : (linesWire fs ++ crlf).length ≤ n) :
    Gives n (readTrailer : Parser Tee Err (Option Header))
      (linesWire fs ++ crlf ++ rest)
      (some (fs.foldl addLine Header.empty)) rest := by
  -- the section ends with two line ends
  obtain ⟨gs, f, rfl⟩ : ∃ gs f, fs = gs ++ [f] :=
    ⟨fs.dropLast, fs.getLast hne, (List.dropLast_append_getLast hne).symm⟩
  obtain ⟨w, hw⟩ : ∃ w, linesWire (gs ++ [f]) ++ crlf = w ++ doubleCRLF := by
    refine ⟨linesWire gs ++ (f.1 ++ lit ": " ++ f.2), ?_⟩
    simp [linesWire, lineWire, doubleCRLF]
  have hlen : 4 ≤ (linesWire (gs ++ [f]) ++ crlf).length := by
    rw [hw, List.length_append]
    simp [doubleCRLF]
  refine Gives.bind (gives_peek n 2 _) ?_
  rw [Nat.min_eq_left (by omega)]
  have htwo : ((linesWire (gs ++ [f]) ++ crlf ++ rest).take 2).length = 2 := by
    rw [List.length_take, List.length_append]
    omega
  have hnot : (linesWire (gs ++ [f]) ++ crlf ++ rest).take 2 ≠ crlf := by
    -- the first two bytes are a name's, or a name and its colon
    obtain ⟨g, gs', hg⟩ := List.exists_cons_of_ne_nil hne
    obtain ⟨hk, _⟩ := hfs g (by rw [hg]; exact List.mem_cons_self)
    obtain ⟨c, s, hcs⟩ := List.exists_cons_of_ne_nil hk.ne_nil
    rw [hg, linesWire, List.flatMap_cons, lineWire, hcs]
    cases s with
    | nil => simp [lit]
    | cons d s =>
      intro h
      have hd : d = nl := by
        have := congrArg (fun l : Bytes => l[1]?) h
        simpa using this
      exact hk.nl (by rw [hcs, hd]; simp)
  rw [if_neg hnot, if_neg (by rw [htwo]; omega)]
  have hsee : Gives n (seeUpcomingDoubleCRLF : Parser Tee Err Bool)
      (linesWire (gs ++ [f]) ++ crlf ++ rest) true
        (linesWire (gs ++ [f]) ++ crlf ++ rest) := by
    refine Gives.measured ?_
    rw [hw] at hfit hlen ⊢
    refine gives_seeDoubleCRLF (w := w) (List.prefix_append _ _) hfit _ hlen ?_
    simp only [List.length_append] at hlen ⊢
    omega
  refine hsee.bind ?_
  rw [if_neg (by simp)]
  exact Gives.bind ((gives_readMIMEHeader hn hfs).mapError _) .pure

/-! ## Lines and the header they make -/

theorem values_foldl_addLine (fs : List (Bytes × Bytes)) (m : Header)
    (k : Bytes) :
    (fs.foldl addLine m).values k =
      m.values k ++ (fs.filter fun f => canonicalKey f.1 = k).map fun f =>
        fieldValue f.2 := by
  induction fs generalizing m with
  | nil => simp
  | cons f fs ih =>
    rw [List.foldl_cons, ih, addLine, List.filter_cons]
    by_cases hk : canonicalKey f.1 = k
    · subst hk
      rw [Header.values_put_self, if_pos (by simp)]
      simp
    · rw [Header.values_put_of_ne (Ne.symm hk), if_neg (by simpa using hk)]

theorem has_foldl_addLine (fs : List (Bytes × Bytes)) (m : Header) (k : Bytes) :
    (fs.foldl addLine m).has k =
      (m.has k || fs.any fun f => canonicalKey f.1 = k) := by
  induction fs generalizing m with
  | nil => simp
  | cons f fs ih =>
    rw [List.foldl_cons, ih, addLine, List.any_cons]
    by_cases hk : canonicalKey f.1 = k
    · subst hk
      rw [Header.has_put_self]
      simp
    · rw [Header.has_put_of_ne (Ne.symm hk)]
      simp [hk]

/-- The entries of a header, sorted, are its entries. -/
theorem mem_sortedKeyValues {exclude : List Bytes} {h : Header}
    {e : Bytes × List Bytes} :
    e ∈ sortedKeyValues exclude h ↔ e ∈ h.entries ∧ e.1 ∉ exclude := by
  unfold sortedKeyValues
  rw [List.mem_insertionSort, List.mem_filter]
  simp

theorem nodup_sortedKeyValues (exclude : List Bytes) (h : Header) :
    ((sortedKeyValues exclude h).map Prod.fst).Nodup := by
  have hperm : (sortedKeyValues exclude h).Perm
      (h.entries.filter fun e => !exclude.elem e.1) :=
    List.perm_insertionSort _ _
  rw [(hperm.map Prod.fst).nodup_iff]
  exact (List.filter_sublist.map Prod.fst).nodup h.nodup

theorem mem_fieldLines {exclude : List Bytes} {h : Header} {f : Bytes × Bytes} :
    f ∈ fieldLines exclude h ↔
      ∃ vs, (f.1, vs) ∈ h.entries ∧ f.1 ∉ exclude ∧
        ∃ v ∈ vs, f.2 = sanitizeValue v := by
  unfold fieldLines
  rw [List.mem_flatMap]
  constructor
  · rintro ⟨⟨k, vs⟩, he, hf⟩
    obtain ⟨hmem, hex⟩ := mem_sortedKeyValues.mp he
    obtain ⟨v, hv, rfl⟩ := List.mem_map.mp hf
    exact ⟨vs, hmem, hex, v, hv, rfl⟩
  · rintro ⟨vs, hmem, hex, v, hv, hf⟩
    refine ⟨(f.1, vs), mem_sortedKeyValues.mpr ⟨hmem, hex⟩,
      List.mem_map.mpr ⟨v, hv, ?_⟩⟩
    rw [← hf]

/-- Among lines grouped by distinct keys, those of one key. -/
theorem filter_grouped (tidy : Bytes → Bytes) {es : List (Bytes × List Bytes)}
    (hn : (es.map Prod.fst).Nodup) (k : Bytes) :
    (es.flatMap fun e => e.2.map fun v => (e.1, tidy v)).filter
      (fun f => f.1 = k) =
      ((es.lookup k).getD []).map fun v => (k, tidy v) := by
  induction es with
  | nil => rfl
  | cons e es ih =>
    rw [List.map_cons, List.nodup_cons] at hn
    rw [List.flatMap_cons, List.filter_append, ih hn.2, List.lookup_cons]
    by_cases hk : k = e.1
    · subst hk
      have hnone : es.lookup e.1 = none := by
        rw [List.lookup_eq_none_iff]
        intro p hp
        have : p.1 ≠ e.1 := fun h => hn.1 (h ▸ List.mem_map_of_mem hp)
        simpa using Ne.symm this
      rw [hnone, beq_self_eq_true, List.filter_eq_self.mpr (by simp)]
      simp
    · rw [beq_false_of_ne hk, List.filter_eq_nil_iff.mpr]
      · rfl
      · intro f hf
        obtain ⟨v, _, rfl⟩ := List.mem_map.mp hf
        simpa using Ne.symm hk

theorem filter_fieldLines (h : Header) {exclude : List Bytes} {k : Bytes}
    (hk : k ∉ exclude) :
    (fieldLines exclude h).filter (fun f => f.1 = k) =
      (h.values k).map fun v => (k, sanitizeValue v) := by
  unfold fieldLines
  rw [filter_grouped sanitizeValue (nodup_sortedKeyValues exclude h)]
  congr 1
  -- sorting does not change what a key looks up
  let h' : Header := ⟨sortedKeyValues exclude h,
    nodup_sortedKeyValues exclude h⟩
  have hl : h'.entries.lookup k = h.entries.lookup k :=
    Header.lookup_ext fun vs => by simp [h', mem_sortedKeyValues, hk]
  rw [Header.values, ← hl]

/-- A header written line by line comes back with sanitized values. -/
theorem values_fieldLines {h : Header}
    (hh : ∀ e ∈ h.entries, e.2 ≠ [] → canonicalKey e.1 = e.1) (k : Bytes) :
    ((fieldLines [] h).foldl addLine Header.empty).values k =
      (h.values k).map sanitizeValue := by
  rw [values_foldl_addLine]
  have hfilter : (fieldLines [] h).filter (fun f => canonicalKey f.1 = k) =
      (fieldLines [] h).filter (fun f => f.1 = k) := by
    refine List.filter_congr fun f hf => ?_
    obtain ⟨vs, hmem, _, v, hv, _⟩ := mem_fieldLines.mp hf
    rw [hh _ hmem (List.ne_nil_of_mem hv)]
  rw [hfilter, filter_fieldLines h List.not_mem_nil, List.map_map]
  change [] ++ _ = _
  rw [List.nil_append]
  refine List.map_congr_left fun v _ => ?_
  exact fieldValue_of_trimmed (trimmed_sanitize v)

theorem has_fieldLines {h : Header}
    (hh : ∀ e ∈ h.entries, e.2 ≠ [] → canonicalKey e.1 = e.1) (k : Bytes) :
    ((fieldLines [] h).foldl addLine Header.empty).has k = true ↔
      h.values k ≠ [] := by
  rw [has_foldl_addLine]
  change (false || _) = true ↔ _
  rw [Bool.false_or, List.any_eq_true]
  constructor
  · rintro ⟨f, hf, hk⟩
    obtain ⟨vs, hmem, _, v, hv, _⟩ := mem_fieldLines.mp hf
    rw [hh _ hmem (List.ne_nil_of_mem hv), decide_eq_true_eq] at hk
    rw [← hk, Header.values_of_mem hmem]
    exact List.ne_nil_of_mem hv
  · intro hne
    obtain ⟨v, hv⟩ := List.exists_mem_of_ne_nil _ hne
    obtain ⟨vs, hmem, hv⟩ := Header.mem_of_mem_values hv
    refine ⟨(k, sanitizeValue v),
      mem_fieldLines.mpr ⟨vs, hmem, by simp, v, hv, rfl⟩, ?_⟩
    rw [hh _ hmem (List.ne_nil_of_mem hv), decide_eq_true_eq]

/-! ## Trailers -/

theorem lookup_merge (dst src : Header) (k : Bytes) :
    (dst.merge src).entries.lookup k =
      (src.entries.lookup k).or (dst.entries.lookup k) := by
  unfold Header.merge
  have hn := src.nodup
  generalize src.entries = l at hn
  induction l generalizing dst with
  | nil => rfl
  | cons e l ih =>
    rw [List.map_cons, List.nodup_cons] at hn
    rw [List.foldl_cons, ih _ hn.2, List.lookup_cons]
    by_cases hk : k = e.1
    · subst hk
      have hnone : l.lookup e.1 = none := by
        rw [List.lookup_eq_none_iff]
        intro p hp
        have : p.1 ≠ e.1 := fun h => hn.1 (h ▸ List.mem_map_of_mem hp)
        simpa using Ne.symm this
      rw [hnone, beq_self_eq_true, Header.lookup_put_self]
      rfl
    · rw [beq_false_of_ne hk, Header.lookup_put_of_ne hk]

theorem values_merge (dst src : Header) (k : Bytes) :
    (dst.merge src).values k = if src.has k then src.values k
      else dst.values k := by
  unfold Header.values Header.has
  rw [lookup_merge]
  cases src.entries.lookup k <;> rfl

theorem has_merge (dst src : Header) (k : Bytes) :
    (dst.merge src).has k = (src.has k || dst.has k) := by
  unfold Header.has
  rw [lookup_merge]
  cases src.entries.lookup k <;> simp

/-- The same fields, up to the sanitizing of their values. -/
def SameFields (t t' : Header) : Prop :=
  ∀ k, t'.has k = t.has k ∧ t'.values k = (t.values k).map sanitizeValue

/-- An announced trailer: canonical names without values. -/
def Announced (t : Header) : Prop :=
  ∀ e ∈ t.entries, canonicalKey e.1 = e.1 ∧ e.2 = []

theorem Announced.values {t : Header} (h : Announced t) (k : Bytes) :
    t.values k = [] := by
  by_contra hne
  obtain ⟨v, hv⟩ := List.exists_mem_of_ne_nil _ hne
  obtain ⟨vs, hmem, hv⟩ := Header.mem_of_mem_values hv
  have hnil : vs = [] := (h _ hmem).2
  rw [hnil] at hv
  cases hv

/-- What is written behind a body with the announced trailer `t`, of which `hdr`
came. -/
def mergedWith (t : Header) (hdr : Option Header) : Header :=
  match hdr with
  | some h => t.merge h
  | none => t

theorem mergedTrailer_some (t : Header) (hdr : Option Header) :
    mergedTrailer (some t) hdr = some (mergedWith t hdr) := by
  cases hdr <;> rfl

theorem mem_mergedWith {t : Header} {hdr : Option Header} (ht : Announced t)
    {e : Bytes × List Bytes} (he : e ∈ (mergedWith t hdr).entries) :
    (canonicalKey e.1 = e.1 ∧ e.2 = []) ∨ ∃ h, hdr = some h ∧
      e ∈ h.entries := by
  cases hdr with
  | none => exact .inl (ht e he)
  | some h =>
    have hl := Header.mem_iff_lookup.mp he
    rw [mergedWith, lookup_merge] at hl
    cases hs : h.entries.lookup e.1 with
    | some vs =>
      rw [hs, Option.some_or, Option.some.injEq] at hl
      subst hl
      exact .inr ⟨h, rfl, Header.mem_iff_lookup.mpr hs⟩
    | none =>
      rw [hs, Option.none_or] at hl
      exact .inl (ht e (Header.mem_iff_lookup.mpr hl))

theorem canonical_mergedWith {t : Header} {hdr : Option Header}
    (ht : Announced t) (hh : ∀ h, hdr = some h → PlainHeader h) :
    ∀ e ∈ (mergedWith t hdr).entries, e.2 ≠ [] → canonicalKey e.1 = e.1 := by
  intro e he _
  rcases mem_mergedWith ht he with h | ⟨h, hs, hmem⟩
  · exact h.1
  · exact (hh h hs e hmem).canonical

/-- The trailer section as it is read back. -/
def rereadTrailer (t : Header) (hdr : Option Header) : Option Header :=
  if fieldLines [] (mergedWith t hdr) = [] then none
  else some ((fieldLines [] (mergedWith t hdr)).foldl addLine Header.empty)

/-- An announced trailer keeps its fields. -/
theorem sameFields_reread {t t' : Header} {hdr : Option Header}
    (ht : Announced t) (ht' : Announced t')
    (hh : ∀ h, hdr = some h → PlainHeader h) (hkeys : ∀ k, t'.has k = t.has k) :
    SameFields (mergedWith t hdr) (mergedWith t' (rereadTrailer t hdr)) := by
  have hcanon := canonical_mergedWith ht hh
  -- the lines, read back into an empty header
  have hback : ∀ k, (mergedWith t' (rereadTrailer t hdr)).values k =
        ((fieldLines [] (mergedWith t hdr)).foldl addLine Header.empty).values k
          ∧
      (mergedWith t' (rereadTrailer t hdr)).has k =
        (((fieldLines [] (mergedWith t hdr)).foldl addLine Header.empty).has k
          || t'.has k) := by
    intro k
    unfold rereadTrailer
    split
    · next hnil =>
        rw [hnil]
        exact ⟨ht'.values k, rfl⟩
    · refine ⟨?_, has_merge _ _ _⟩
      rw [mergedWith, values_merge]
      split
      · rfl
      · next hhas =>
          rw [ht'.values k, Header.values_eq_nil_of_not_has
            (by simpa using hhas)]
  intro k
  obtain ⟨hv, hhas⟩ := hback k
  rw [hv, values_fieldLines hcanon]
  refine ⟨?_, rfl⟩
  rw [hhas, hkeys k, Bool.eq_iff_iff, Bool.or_eq_true, has_fieldLines hcanon]
  -- a field that came has a value
  cases hdr with
  | none =>
    rw [mergedWith, ht.values k]
    simp
  | some h =>
    rw [mergedWith, values_merge, has_merge, Bool.or_eq_true, ht.values k]
    cases hk : h.has k with
    | false => simp
    | true =>
      obtain ⟨⟨k', vs⟩, hmem, rfl⟩ := List.mem_map.mp (Header.has_iff.mp hk)
      simp [Header.values_of_mem hmem, (hh h rfl _ hmem).values_ne]

end Netramesh.Proofs
