import Netramesh.Lib.Bytes

/-!
# Text that survives being read back

Numbers are read back from their digits, and text with nothing to trim at
either end is left alone by the functions that trim. Text that is split has a
part more than it has separators.
-/

namespace Netramesh

/-! ## Trimming -/

/-- Neither the first nor the last byte satisfies `p`. -/
structure Trimmed (p : UInt8 → Bool) (s : Bytes) : Prop where
  head : ∀ b ∈ s.head?, p b = false
  last : ∀ b ∈ s.getLast?, p b = false

theorem dropWhile_of_head {p : UInt8 → Bool} {s : Bytes}
    (h : ∀ b ∈ s.head?, p b = false) :
    s.dropWhile p = s := by
  cases s with
  | nil => rfl
  | cons b s => rw [List.dropWhile_cons, h b rfl, if_neg (by simp)]

theorem rdropWhile_of_last {p : UInt8 → Bool} {s : Bytes}
    (h : ∀ b ∈ s.getLast?, p b = false) :
    s.rdropWhile p = s := by
  rw [List.rdropWhile_eq_self_iff]
  intro hne
  simp [h _ (List.getLast?_eq_some_getLast hne)]

theorem trimBy_of_trimmed {p : UInt8 → Bool} {s : Bytes} (h : Trimmed p s) :
    trimBy p s = s := by
  rw [trimBy, dropWhile_of_head h.head, rdropWhile_of_last h.last]

theorem head_dropWhile {p : UInt8 → Bool} {s : Bytes} :
    ∀ b ∈ (s.dropWhile p).head?, p b = false := by
  induction s with
  | nil => intro b hb; cases hb
  | cons c s ih =>
      rw [List.dropWhile_cons]
      split
      · exact ih
      · next hc =>
          intro b hb
          cases hb
          simpa using hc

theorem head_of_front {s t : Bytes} (h : s <+: t) :
    ∀ b ∈ s.head?, b ∈ t.head? := by
  obtain ⟨u, rfl⟩ := h
  cases s with
  | nil => intro b hb; cases hb
  | cons c s => exact fun b hb => hb

theorem trimmed_trimBy (p : UInt8 → Bool) (s : Bytes) :
    Trimmed p (trimBy p s) := by
  refine ⟨fun b hb => ?_, fun b hb => ?_⟩
  · exact head_dropWhile b (head_of_front (List.rdropWhile_prefix p _) b hb)
  · unfold trimBy at hb
    have hne : (s.dropWhile p).rdropWhile p ≠ [] := by
      intro h
      rw [h] at hb
      cases hb
    rw [List.getLast?_eq_some_getLast hne] at hb
    cases hb
    simpa using List.rdropWhile_last_not p _ hne

theorem mem_of_mem_trimBy {p : UInt8 → Bool} {s : Bytes} {b : UInt8}
    (h : b ∈ trimBy p s) :
    b ∈ s :=
  (List.dropWhile_sublist p).mem ((List.rdropWhile_prefix p _).mem h)

/-- No byte of `trimSpace`'s runes is printable ASCII. -/
def isGraphic (b : UInt8) : Bool := 33 ≤ b && b ≤ 126

theorem dropRunes_of_head {rs : List Bytes}
    (hrs : ∀ r ∈ rs, ∃ c, r.head? = some c ∧ isGraphic c = false) {s : Bytes}
    (hs : ∀ b ∈ s.head?, isGraphic b = true) (fuel : Nat) :
    dropRunes rs fuel s = s := by
  cases fuel with
  | zero => rfl
  | succ fuel =>
    have hnone : rs.find? (·.isPrefixOf s) = none := by
      rw [List.find?_eq_none]
      intro r hr hpre
      obtain ⟨c, hc, hg⟩ := hrs r hr
      have := hs c (head_of_front (List.isPrefixOf_iff_prefix.mp hpre) c hc)
      rw [hg] at this
      cases this
    rw [dropRunes, hnone]

theorem spaceRunes_heads :
    ∀ r ∈ spaceRunes, ∃ c, r.head? = some c ∧ isGraphic c = false := by
  intro r hr
  have hall : ∀ r ∈ spaceRunes, (r.head?.any fun c => !isGraphic c) = true := by
    decide +kernel
  have h := hall r hr
  cases hc : r.head? with
  | none => rw [hc] at h; cases h
  | some c => exact ⟨c, rfl, by rw [hc] at h; simpa using h⟩

theorem spaceRunes_lasts :
    ∀ r ∈ spaceRunes.map List.reverse, ∃ c, r.head? = some c ∧
      isGraphic c = false := by
  intro r hr
  have hall : ∀ r ∈ spaceRunes.map List.reverse,
      (r.head?.any fun c => !isGraphic c) = true := by
    decide +kernel
  have h := hall r hr
  cases hc : r.head? with
  | none => rw [hc] at h; cases h
  | some c => exact ⟨c, rfl, by rw [hc] at h; simpa using h⟩

/-- `TrimSpace` leaves printable ASCII alone. -/
theorem trimSpace_of_graphic {s : Bytes} (h : ∀ b ∈ s, isGraphic b = true) :
    trimSpace s = s := by
  have hhead : ∀ b ∈ s.head?, isGraphic b = true :=
    fun b hb => h b (List.mem_of_mem_head? hb)
  have hlast : ∀ b ∈ s.reverse.head?, isGraphic b = true :=
    fun b hb => h b (List.mem_reverse.mp (List.mem_of_mem_head? hb))
  rw [trimSpace, dropRunes_of_head spaceRunes_heads hhead,
    dropRunes_of_head spaceRunes_lasts hlast, List.reverse_reverse]

/-- `dropRunes` stops in front of something that is none of the runes. -/
theorem dropRunes_stops {rs : List Bytes} (hrs : ∀ r ∈ rs, r ≠ []) {fuel : Nat}
    {s : Bytes} (hfuel : s.length ≤ fuel) :
    ∀ r ∈ rs, ¬ r <+: dropRunes rs fuel s := by
  induction fuel generalizing s with
  | zero =>
    have hnil : s = [] := List.eq_nil_of_length_eq_zero (by omega)
    subst hnil
    intro r hr hpre
    exact hrs r hr (List.prefix_nil.mp hpre)
  | succ fuel ih =>
    rw [dropRunes]
    cases hf : rs.find? (·.isPrefixOf s) with
    | none =>
      rw [List.find?_eq_none] at hf
      intro r hr hpre
      exact hf r hr (List.isPrefixOf_iff_prefix.mpr hpre)
    | some r =>
      have hpos := List.length_pos_of_ne_nil
        (hrs r (List.mem_of_find?_eq_some hf))
      exact ih (by rw [List.length_drop]; omega)

theorem dropRunes_of_stopped {rs : List Bytes} {s : Bytes}
    (h : ∀ r ∈ rs, ¬ r <+: s) (fuel : Nat) :
    dropRunes rs fuel s = s := by
  cases fuel with
  | zero => rfl
  | succ fuel =>
    have hnone : rs.find? (·.isPrefixOf s) = none := by
      rw [List.find?_eq_none]
      exact fun r hr hpre => h r hr (List.isPrefixOf_iff_prefix.mp hpre)
    rw [dropRunes, hnone]

theorem dropRunes_suffix (rs : List Bytes) (fuel : Nat) (s : Bytes) :
    dropRunes rs fuel s <:+ s := by
  induction fuel generalizing s with
  | zero => exact List.suffix_refl s
  | succ fuel ih =>
    rw [dropRunes]
    split
    · exact List.suffix_refl s
    · exact (ih _).trans (List.drop_suffix _ _)

/-- There is nothing to trim off trimmed text. -/
theorem trimSpace_idem (s : Bytes) : trimSpace (trimSpace s) = trimSpace s := by
  have hne : ∀ r ∈ spaceRunes, r ≠ [] := by decide
  have hne' : ∀ r ∈ spaceRunes.map List.reverse, r ≠ [] := by decide
  generalize ht : dropRunes spaceRunes s.length s = t
  have hleft : ∀ r ∈ spaceRunes, ¬ r <+: t :=
    ht ▸ dropRunes_stops hne (Nat.le_refl _)
  have hw : trimSpace s =
      (dropRunes (spaceRunes.map List.reverse) t.length t.reverse).reverse := by
    rw [trimSpace, ht]
  generalize hu : dropRunes (spaceRunes.map List.reverse) t.length t.reverse =
    u at hw
  have hright : ∀ r ∈ spaceRunes.map List.reverse, ¬ r <+: u :=
    hu ▸ dropRunes_stops hne' (by rw [List.length_reverse])
  have hpre : u.reverse <+: t := by
    have := dropRunes_suffix (spaceRunes.map List.reverse) t.length t.reverse
    rw [hu] at this
    simpa using List.reverse_prefix.mpr this
  rw [hw, trimSpace,
    dropRunes_of_stopped (fun r hr h => hleft r hr (h.trans hpre)),
    List.reverse_reverse, dropRunes_of_stopped hright]

/-! ## Digits -/

theorem readDigits_append {b : Nat} {val : UInt8 → Option Nat} {acc n : Nat}
    {s : Bytes} (h : readDigits b val acc s = some n) (t : Bytes) :
    readDigits b val acc (s ++ t) = readDigits b val n t := by
  induction s generalizing acc with
  | nil =>
    cases h
    rfl
  | cons c s ih =>
    rw [readDigits] at h
    rw [List.cons_append, readDigits]
    cases hc : val c with
    | none => rw [hc] at h; cases h
    | some d =>
      rw [hc] at h
      exact ih h

/-- More digits do not make a number smaller. -/
theorem le_of_readDigits {b : Nat} {val : UInt8 → Option Nat} (hb : 0 < b)
    {acc n : Nat} {s : Bytes} (h : readDigits b val acc s = some n) :
    acc ≤ n := by
  induction s generalizing acc with
  | nil =>
      cases h
      exact Nat.le_refl _
  | cons c s ih =>
      rw [readDigits] at h
      split at h
      · cases h
      · next d _ =>
          calc acc ≤ acc * b := Nat.le_mul_of_pos_right acc hb
            _ ≤ acc * b + d := Nat.le_add_right _ _
            _ ≤ n := ih h

/-- Digits bound the number they make. -/
theorem readDigits_lt {b : Nat} {val : UInt8 → Option Nat}
    (hval : ∀ c d, val c = some d → d < b) {acc n : Nat} {s : Bytes}
    (h : readDigits b val acc s = some n) :
    n < (acc + 1) * b ^ s.length := by
  induction s generalizing acc with
  | nil =>
    cases h
    simp
  | cons c s ih =>
    rw [readDigits] at h
    split at h
    · cases h
    · next d hd =>
        have hdigit := hval c d hd
        calc n < (acc * b + d + 1) * b ^ s.length := ih h
          _ ≤ ((acc + 1) * b) * b ^ s.length :=
              Nat.mul_le_mul_right _ (by rw [Nat.add_mul]; omega)
          _ = (acc + 1) * b ^ (c :: s).length := by
              rw [List.length_cons, Nat.pow_succ, Nat.mul_assoc, Nat.mul_comm b]

/-- Digits are read back as the number they were made from. -/
theorem readDigits_formatBase {b : Nat} {val : UInt8 → Option Nat} (hb : 2 ≤ b)
    (hval : ∀ d, d < b → val (digit d) = some d) (fuel n : Nat)
    (hn : n < fuel) :
    readDigits b val 0 (formatBase b fuel n) = some n := by
  induction fuel generalizing n with
  | zero => omega
  | succ fuel ih =>
    rw [formatBase]
    split
    · next hlt => simp [readDigits, hval n hlt]
    · next hge =>
        have hdiv : n / b < fuel := by
          have : n / b < n := Nat.div_lt_self (by omega) (by omega)
          omega
        rw [readDigits_append (ih _ hdiv)]
        simp only [readDigits, hval _ (Nat.mod_lt n (show 0 < b by omega))]
        rw [Nat.mul_comm, Nat.div_add_mod]

theorem formatBase_ne_nil {b fuel n : Nat} (hn : n < fuel) :
    formatBase b fuel n ≠ [] := by
  cases fuel with
  | zero => omega
  | succ fuel =>
    rw [formatBase]
    split <;> simp

theorem mem_formatBase {b fuel n : Nat} {c : UInt8} (hb : 0 < b)
    (h : c ∈ formatBase b fuel n) :
    ∃ d, d < b ∧ c = digit d := by
  induction fuel generalizing n with
  | zero => cases h
  | succ fuel ih =>
    rw [formatBase] at h
    split at h
    · next hlt => exact ⟨n, hlt, List.mem_singleton.mp h⟩
    · rcases List.mem_append.mp h with h | h
      · exact ih h
      · exact ⟨n % b, Nat.mod_lt _ hb, List.mem_singleton.mp h⟩

/-- A number has as many digits as it needs. -/
theorem lt_pow_length_formatBase {b fuel n : Nat} (hb : 2 ≤ b) (hn : n < fuel) :
    n < b ^ (formatBase b fuel n).length := by
  induction fuel generalizing n with
  | zero => omega
  | succ fuel ih =>
    rw [formatBase]
    split
    · next hlt => rw [List.length_singleton, Nat.pow_one]; exact hlt
    · next hge =>
        have hsmaller : n / b < n := Nat.div_lt_self (by omega) hb
        have hdiv := ih (n := n / b) (by omega)
        rw [List.length_append, List.length_singleton, Nat.pow_succ]
        exact (Nat.div_lt_iff_lt_mul (by omega)).mp hdiv

theorem length_formatBase {b fuel n k : Nat} (hb : 0 < b) (hk : 0 < k)
    (hn : n < b ^ k) :
    (formatBase b fuel n).length ≤ k := by
  induction fuel generalizing n k with
  | zero => exact Nat.zero_le _
  | succ fuel ih =>
    rw [formatBase]
    split
    · exact hk
    · next hge =>
        obtain ⟨k, rfl⟩ : ∃ j, k = j + 1 := ⟨k - 1, by omega⟩
        have hkpos : 0 < k := by
          rcases Nat.eq_zero_or_pos k with rfl | h
          · simp at hn
            omega
          · exact h
        have hdiv : n / b < b ^ k := by
          rw [Nat.div_lt_iff_lt_mul hb, ← Nat.pow_succ]
          exact hn
        have := ih hkpos hdiv
        rw [List.length_append, List.length_singleton]
        omega

theorem hexVal_digit : ∀ d, d < 16 → hexVal (digit d) = some d := by decide

theorem decVal_digit : ∀ d, d < 10 → decVal (digit d) = some d := by decide

theorem decVal_lt {c : UInt8} {d : Nat} (h : decVal c = some d) : d < 10 := by
  unfold decVal at h
  split at h
  · next hc =>
      cases h
      have : c.toNat ≤ 57 := hc.2
      omega
  · cases h

theorem isGraphic_digit : ∀ d, d < 16 → isGraphic (digit d) = true := by decide

theorem itoa_ne_nil (n : Nat) : itoa n ≠ [] :=
  formatBase_ne_nil (Nat.lt_succ_self n)

theorem hex_ne_nil (n : Nat) : hex n ≠ [] :=
  formatBase_ne_nil (Nat.lt_succ_self n)

theorem mem_itoa {n : Nat} {c : UInt8} (h : c ∈ itoa n) :
    ∃ d, d < 10 ∧ c = digit d :=
  mem_formatBase (by decide) h

theorem mem_hex {n : Nat} {c : UInt8} (h : c ∈ hex n) :
    ∃ d, d < 16 ∧ c = digit d :=
  mem_formatBase (by decide) h

theorem isGraphic_itoa {n : Nat} : ∀ c ∈ itoa n, isGraphic c = true := by
  intro c hc
  obtain ⟨d, hd, rfl⟩ := mem_itoa hc
  exact isGraphic_digit d (by omega)

theorem readDigits_itoa (n : Nat) : readDigits 10 decVal 0 (itoa n) = some n :=
  readDigits_formatBase (by decide) decVal_digit _ _ (Nat.lt_succ_self n)

theorem readDigits_hex (n : Nat) : readDigits 16 hexVal 0 (hex n) = some n :=
  readDigits_formatBase (by decide) hexVal_digit _ _ (Nat.lt_succ_self n)

/-- A number without a sign. -/
theorem parseInt_of_parseUint {s : Bytes} {n : Nat} (h : parseUint s = some n)
    (hn : n < 2 ^ 63) : parseInt s = some (n : Int) := by
  unfold parseInt
  split
  · next ds =>
      rw [parseUint, if_neg (by simp), readDigits,
        show decVal 43 = none by decide] at h
      cases h
  · next ds =>
      rw [parseUint, if_neg (by simp), readDigits,
        show decVal 45 = none by decide] at h
      cases h
  · rw [h, Option.bind_some, if_pos hn]

/-- `Atoi` undoes `Itoa`. -/
theorem parseInt_itoa {n : Nat} (hn : n < 2 ^ 63) :
    parseInt (itoa n) = some (n : Int) := by
  refine parseInt_of_parseUint ?_ hn
  rw [parseUint, if_neg (itoa_ne_nil n), readDigits_itoa]

/-- `Atoi` answers with an `int`. -/
theorem parseInt_lt {s : Bytes} {n : Int} (h : parseInt s = some n) :
    n < 2 ^ 63 := by
  unfold parseInt at h
  split at h
  all_goals
    obtain ⟨m, _, h⟩ := Option.bind_eq_some_iff.mp h
    split at h
    · cases h
      omega
    · cases h

/-- A number is bounded by how many bytes it is written in. -/
theorem parseInt_lt_pow {s : Bytes} {n : Int} (h : parseInt s = some n) :
    n < (10 ^ s.length : Nat) := by
  have hdigits : ∀ {t : Bytes} {m : Nat}, parseUint t = some m →
      m < 10 ^ t.length := by
    intro t m hm
    unfold parseUint at hm
    split at hm
    · cases hm
    · simpa using readDigits_lt (fun c d => decVal_lt) hm
  have hsign : ∀ {c : UInt8} {t : Bytes} {m : Nat}, parseUint t = some m →
      m < 10 ^ (c :: t).length := by
    intro c t m hm
    exact (hdigits hm).trans_le (Nat.pow_le_pow_right (by decide) (by simp))
  unfold parseInt at h
  split at h
  · obtain ⟨m, hm, h⟩ := Option.bind_eq_some_iff.mp h
    split at h
    · cases h
      exact Int.ofNat_lt.mpr (hsign hm)
    · cases h
  · obtain ⟨m, hm, h⟩ := Option.bind_eq_some_iff.mp h
    split at h
    · cases h
      have := hsign (c := 45) hm
      omega
    · cases h
  · obtain ⟨m, hm, h⟩ := Option.bind_eq_some_iff.mp h
    split at h
    · cases h
      exact Int.ofNat_lt.mpr (hdigits hm)
    · cases h

/-! ## Splitting -/

/-- `strings.Split` finds one part more than there are separators. -/
theorem length_splitOn (c : UInt8) (s : Bytes) :
    (s.splitOn c).length = s.count c + 1 := by
  induction s with
  | nil => simp
  | cons b s ih =>
      rw [List.splitOn_cons_eq_if_modifyHead, List.count_cons]
      split
      · rw [List.length_cons, ih]
      · rw [List.length_modifyHead, ih]

end Netramesh
