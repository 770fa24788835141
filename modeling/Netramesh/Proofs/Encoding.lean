import Netramesh.Proofs.Reread
import Netramesh.Protocol.Jaeger

/-!
# Span contexts, written and read

A context comes back from its text with the same trace and the same span,
provided the flags come back at all: they are written in base 16 and read in
base 10. A text that is a context has no byte that a header writer would touch.
-/

namespace Netramesh.Proofs

open Http Net Protocol

/-! ## Numbers -/

theorem length_hex_le {n : Nat} (hn : n < 2 ^ 64) : (hex n).length ≤ 16 :=
  length_formatBase (by decide) (by decide) (by simpa using hn)

theorem parseHex64_of_digits {s : Bytes} (hs : s ≠ []) {u : UInt64}
    (h : readDigits 16 hexVal 0 s = some u.toNat) : parseHex64 s = some u := by
  rw [parseHex64, if_neg hs, h, Option.bind_some, if_pos u.toNat_lt,
    UInt64.ofNat_toNat]

theorem parseHex64_hex (u : UInt64) : parseHex64 (hex u.toNat) = some u :=
  parseHex64_of_digits (hex_ne_nil _) (readDigits_hex _)

theorem readDigits_zeros (k : Nat) (s : Bytes) :
    readDigits 16 hexVal 0 (List.replicate k 48 ++ s) =
      readDigits 16 hexVal 0 s := by
  induction k with
  | zero => rfl
  | succ k ih =>
      rw [List.replicate_succ, List.cons_append, readDigits]
      exact ih

theorem parseHex64_pad16 (u : UInt64) :
    parseHex64 (SpanContext.pad16 u.toNat) = some u := by
  refine parseHex64_of_digits ?_ ?_
  · simp [SpanContext.pad16, hex_ne_nil]
  · rw [SpanContext.pad16, readDigits_zeros, readDigits_hex]

theorem length_pad16 (u : UInt64) :
    (SpanContext.pad16 u.toNat).length = 16 := by
  have hlen := length_hex_le u.toNat_lt
  simp only [SpanContext.pad16, List.length_append, List.length_replicate]
  omega

/-! ## Contexts -/

theorem traceIDFromString_traceText (c : SpanContext) :
    traceIDFromString c.traceText = some (c.high, c.low) := by
  unfold SpanContext.traceText traceIDFromString
  split
  · next hzero =>
      have hlen := length_hex_le c.low.toNat_lt
      rw [if_neg (by omega), if_neg (by omega), parseHex64_hex, hzero]
      rfl
  · have hhigh := length_hex_le c.high.toNat_lt
    have hlow := length_pad16 c.low
    have hpos := List.length_pos_of_ne_nil (hex_ne_nil c.high.toNat)
    rw [if_neg (by rw [List.length_append]; omega),
      if_pos (by rw [List.length_append]; omega),
      List.length_append, hlow, Nat.add_sub_cancel, List.take_left,
        List.drop_left,
      parseHex64_hex, parseHex64_pad16]
    rfl

theorem spanIDFromString_hex (u : UInt64) :
    spanIDFromString (hex u.toNat) = some u := by
  have hlen := length_hex_le u.toNat_lt
  rw [spanIDFromString, if_neg (by omega), parseHex64_hex]

/-- What a context has become when it is read back. -/
def reread (c : SpanContext) : Option SpanContext :=
  (flagsFromString (hex c.flags.toNat)).map fun flags =>
    { high := c.high, low := c.low, spanID := c.spanID,
      parentID := c.parentID, flags := flags }

theorem colon_notMem_hex (n : Nat) : 58 ∉ hex n := by
  intro h
  obtain ⟨d, hd, heq⟩ := mem_hex h
  exact (by decide : ∀ d, d < 16 → (58 : UInt8) ≠ digit d) d hd heq

theorem colon_notMem_traceText (c : SpanContext) : 58 ∉ c.traceText := by
  unfold SpanContext.traceText
  split
  · exact colon_notMem_hex _
  · simp [SpanContext.pad16, colon_notMem_hex]

theorem contextFromString_string (c : SpanContext) :
    contextFromString c.string = reread c := by
  have hsplit : c.string.splitOn 58
      = [c.traceText, hex c.spanID.toNat, hex c.parentID.toNat,
        hex c.flags.toNat] := by
    simp only [SpanContext.string, List.append_assoc, List.cons_append,
      List.nil_append]
    rw [List.splitOn_append_cons_self_of_not_mem (colon_notMem_traceText c),
      List.splitOn_append_cons_self_of_not_mem (colon_notMem_hex _),
      List.splitOn_append_cons_self_of_not_mem (colon_notMem_hex _),
      List.splitOn_eq_singleton (colon_notMem_hex _)]
  rw [contextFromString, hsplit]
  simp only [traceIDFromString_traceText, spanIDFromString_hex,
    Option.bind_some]
  rfl

theorem unescape_of_plain {s : Bytes} (h : 37 ∉ s) :
    unescape .path s = some s := by
  induction s with
  | nil => rfl
  | cons b s ih =>
      have hb : b ≠ 37 := fun heq => h (heq ▸ List.mem_cons_self)
      have hs : 37 ∉ s := fun hm => h (List.mem_cons_of_mem _ hm)
      rw [unescape.eq_def]
      split
      · next heq => cases heq
      · next heq => exact absurd (List.cons.inj heq).1 hb
      · next c' s' _ heq =>
          obtain ⟨rfl, rfl⟩ := List.cons.inj heq
          rw [if_neg hb, if_neg (by simp), ih hs]
          rfl

/-! ## Plain text

Everything that is read as a context consists of hexadecimal digits and colons,
escaped or not. -/

theorem isGraphic_of_hexVal {b : UInt8} {n : Nat} (h : hexVal b = some n) :
    isGraphic b = true := by
  have hall : ∀ b, hexVal b ≠ none → isGraphic b = true :=
    forall_byte (by decide +kernel)
  exact hall b (by rw [h]; exact Option.some_ne_none n)

theorem isGraphic_of_decVal {b : UInt8} {n : Nat} (h : decVal b = some n) :
    isGraphic b = true := by
  have hall : ∀ b, decVal b ≠ none → isGraphic b = true :=
    forall_byte (by decide +kernel)
  exact hall b (by rw [h]; exact Option.some_ne_none n)

theorem mem_of_readDigits {base : Nat} {val : UInt8 → Option Nat} {acc n : Nat}
    {s : Bytes} (h : readDigits base val acc s = some n) :
    ∀ b ∈ s, ∃ d, val b = some d := by
  induction s generalizing acc with
  | nil => exact fun b hb => by cases hb
  | cons c s ih =>
      rw [readDigits] at h
      split at h
      · cases h
      · next d hd =>
          intro b hb
          rcases List.mem_cons.mp hb with rfl | hb
          · exact ⟨d, hd⟩
          · exact ih h b hb

theorem graphic_of_parseHex64 {s : Bytes} {u : UInt64}
    (h : parseHex64 s = some u) :
    ∀ b ∈ s, isGraphic b = true := by
  unfold parseHex64 at h
  split at h
  · cases h
  · obtain ⟨n, hn, _⟩ := Option.bind_eq_some_iff.mp h
    intro b hb
    obtain ⟨d, hd⟩ := mem_of_readDigits hn b hb
    exact isGraphic_of_hexVal hd

theorem graphic_of_traceID {s : Bytes} {t : UInt64 × UInt64}
    (h : traceIDFromString s = some t) :
    ∀ b ∈ s, isGraphic b = true := by
  unfold traceIDFromString at h
  split at h
  · cases h
  · split at h
    · obtain ⟨hi, hhi, h⟩ := Option.bind_eq_some_iff.mp h
      obtain ⟨lo, hlo, _⟩ := Option.map_eq_some_iff.mp h
      intro b hb
      rw [← List.take_append_drop (s.length - 16) s, List.mem_append] at hb
      rcases hb with hb | hb
      · exact graphic_of_parseHex64 hhi b hb
      · exact graphic_of_parseHex64 hlo b hb
    · obtain ⟨lo, hlo, _⟩ := Option.map_eq_some_iff.mp h
      exact graphic_of_parseHex64 hlo

theorem graphic_of_spanID {s : Bytes} {u : UInt64}
    (h : spanIDFromString s = some u) :
    ∀ b ∈ s, isGraphic b = true := by
  unfold spanIDFromString at h
  split at h
  · cases h
  · exact graphic_of_parseHex64 h

theorem graphic_of_flags {s : Bytes} {f : UInt8}
    (h : flagsFromString s = some f) :
    ∀ b ∈ s, isGraphic b = true := by
  obtain ⟨n, hn, _⟩ := Option.bind_eq_some_iff.mp h
  unfold parseUint at hn
  split at hn
  · cases hn
  · intro b hb
    obtain ⟨d, hd⟩ := mem_of_readDigits hn b hb
    exact isGraphic_of_decVal hd

theorem graphic_of_context {s : Bytes} {c : SpanContext}
    (h : contextFromString s = some c) :
    ∀ b ∈ s, isGraphic b = true := by
  unfold contextFromString at h
  split at h
  · next trace span parent flags hsplit =>
      obtain ⟨_, htrace, h⟩ := Option.bind_eq_some_iff.mp h
      obtain ⟨_, hspan, h⟩ := Option.bind_eq_some_iff.mp h
      obtain ⟨_, hparent, h⟩ := Option.bind_eq_some_iff.mp h
      obtain ⟨_, hflags, _⟩ := Option.map_eq_some_iff.mp h
      have hjoin : List.intercalate [58] (s.splitOn 58) = s :=
        List.intercalate_splitOn 58
      rw [← hjoin, hsplit]
      intro b hb
      simp only [List.intercalate, List.intersperse, List.flatten_cons,
        List.mem_append,
        List.mem_singleton, List.flatten_nil, List.not_mem_nil, or_false] at hb
      rcases hb with hb | rfl | hb | rfl | hb | rfl | hb
      · exact graphic_of_traceID htrace b hb
      · rfl
      · exact graphic_of_spanID hspan b hb
      · rfl
      · exact graphic_of_spanID hparent b hb
      · rfl
      · exact graphic_of_flags hflags b hb
  · cases h

/-- A byte that is not graphic is no part of an escape. -/
theorem mem_unescape {s t : Bytes} (h : unescape .path s = some t) {b : UInt8}
    (hb : b ∈ s) (hgraphic : isGraphic b = false) : b ∈ t := by
  have hne : ∀ {x : UInt8}, isGraphic x = true → b ≠ x := by
    rintro x hx rfl
    rw [hx] at hgraphic
    cases hgraphic
  have hstart : isGraphic 37 = true := by decide
  induction s using unescape.induct .path generalizing t with
  | case1 => cases hb
  | case2 hi lo s hv lv hlo hhi hallow ih =>
      rw [unescape, hhi, hlo] at h
      dsimp only at h
      rw [if_pos hallow] at h
      obtain ⟨t', ht', rfl⟩ := Option.map_eq_some_iff.mp h
      rcases List.mem_cons.mp hb with hb | hb
      · exact absurd hb (hne hstart)
      · rcases List.mem_cons.mp hb with hb | hb
        · exact absurd hb (hne (isGraphic_of_hexVal hhi))
        · rcases List.mem_cons.mp hb with hb | hb
          · exact absurd hb (hne (isGraphic_of_hexVal hlo))
          · exact List.mem_cons_of_mem _ (ih ht' hb)
  | case3 hi lo s hv lv hlo hhi hallow =>
      rw [unescape, hhi, hlo] at h
      dsimp only at h
      rw [if_neg hallow] at h
      cases h
  | case4 hi lo s hbad =>
      rw [unescape] at h
      split at h
      · next hv lv hhi hlo => exact absurd hlo (hbad hv lv hhi)
      · cases h
  | case5 s hshort =>
      rw [unescape.eq_def] at h
      split at h
      · next heq => cases heq
      · next heq => exact (hshort _ _ _ rfl (List.cons.inj heq).2).elim
      · next heq =>
          obtain ⟨rfl, rfl⟩ := List.cons.inj heq
          rw [if_pos rfl] at h
          cases h
  | case6 c s _ _ hbad => cases hbad
  | case7 c s _ hc _ ih =>
      rw [unescape.eq_def] at h
      split at h
      · next heq => cases heq
      · next heq => exact absurd (List.cons.inj heq).1 hc
      · next heq =>
          obtain ⟨rfl, rfl⟩ := List.cons.inj heq
          rw [if_neg hc, if_neg (by simp)] at h
          obtain ⟨t', ht', rfl⟩ := Option.map_eq_some_iff.mp h
          rcases List.mem_cons.mp hb with rfl | hb
          · exact List.mem_cons_self
          · exact List.mem_cons_of_mem _ (ih ht' hb)

/-- A value that holds a context has nothing in it to be trimmed or replaced. -/
theorem graphic_of_decodeContext {v : Bytes} {c : SpanContext}
    (h : decodeContext v = some c) :
    ∀ b ∈ v, isGraphic b = true := by
  have hall := graphic_of_context h
  intro b hb
  by_contra hnot
  rw [Bool.not_eq_true] at hnot
  have hin : b ∈ decodeValue v := by
    unfold decodeValue
    cases hq : queryUnescape v with
    | none => exact hb
    | some t =>
        refine mem_unescape hq (List.mem_map.mpr ⟨b, hb, ?_⟩) hnot
        rw [if_neg]
        rintro rfl
        cases hnot
  have htrue := hall b hin
  rw [hnot] at htrue
  cases htrue

theorem sanitizeValue_of_graphic {v : Bytes} (h : ∀ b ∈ v, isGraphic b = true) :
    sanitizeValue v = v := by
  have hspace : ∀ b, isGraphic b = true → isASCIISpace b = false ∧ b ≠ nl ∧
      b ≠ cr :=
    forall_byte (by decide +kernel)
  refine sanitizeValue_of_plain ⟨?_, ?_⟩ ?_
  · intro b hb
    exact (hspace b (h b (List.mem_of_mem_head? hb))).1
  · intro b hb
    exact (hspace b (h b (List.mem_of_mem_getLast? hb))).1
  · intro b hb
    exact (hspace b (h b hb)).2

/-- A context is written in digits and colons. -/
theorem mem_string {c : SpanContext} {b : UInt8} (h : b ∈ c.string) :
    b = 58 ∨ ∃ d, d < 16 ∧ b = digit d := by
  have hpad : ∀ n, b ∈ SpanContext.pad16 n → ∃ d, d < 16 ∧ b = digit d := by
    intro n hb
    rcases List.mem_append.mp hb with hb | hb
    · exact ⟨0, by decide, List.eq_of_mem_replicate hb⟩
    · exact mem_hex hb
  have htrace : b ∈ c.traceText → ∃ d, d < 16 ∧ b = digit d := by
    unfold SpanContext.traceText
    split
    · exact mem_hex
    · intro hb
      rcases List.mem_append.mp hb with hb | hb
      · exact mem_hex hb
      · exact hpad _ hb
  simp only [SpanContext.string, List.mem_append, List.mem_singleton] at h
  rcases h with (((((hb | hb) | hb) | hb) | hb) | hb) | hb
  · exact .inr (htrace hb)
  · exact .inl hb
  · exact .inr (mem_hex hb)
  · exact .inl hb
  · exact .inr (mem_hex hb)
  · exact .inl hb
  · exact .inr (mem_hex hb)

theorem graphic_string (c : SpanContext) :
    ∀ b ∈ c.string, isGraphic b = true := by
  intro b hb
  rcases mem_string hb with rfl | ⟨d, hd, rfl⟩
  · rfl
  · exact isGraphic_digit d hd

/-- There is nothing to unescape in a context as it is written. -/
theorem decodeContext_string (c : SpanContext) :
    decodeContext c.string = reread c := by
  have hplain : ∀ b ∈ c.string, b ≠ 37 ∧ b ≠ 43 := by
    intro b hb
    rcases mem_string hb with rfl | ⟨d, hd, rfl⟩
    · decide
    · exact (by decide : ∀ d, d < 16 → digit d ≠ 37 ∧ digit d ≠ 43) d hd
  have hmap : (c.string.map fun b => if b = 43 then 32 else b) = c.string := by
    conv_rhs => rw [← List.map_id c.string]
    refine List.map_congr_left fun b hb => ?_
    rw [if_neg (hplain b hb).2]
    rfl
  have hquery : queryUnescape c.string = some c.string := by
    rw [queryUnescape, hmap]
    exact unescape_of_plain fun h => (hplain 37 h).1 rfl
  rw [decodeContext, decodeValue, hquery]
  exact contextFromString_string c

end Netramesh.Proofs
