import Netramesh.Http.Lines

/-!
# What a header section can hold

Whatever a peer sends, a header section that was accepted holds fields that can
be written again: names that are not empty, hold no colon and no line feed and
do not begin with a blank. The last one is the subtle part. A line that begins
with a blank continues the line before it, so a name begins with a blank only if
the reader were to stop in front of one, and it never does.
-/

namespace Netramesh.Proofs

open Http Net Lib Parser

variable {ρ : Type} [Source Err ρ]

/-! ## Lines -/

/-- The next byte is no blank. -/
def StartsPlain (v : Bytes) : Prop := ∀ b ∈ v.head?, isOWS b = false

theorem nl_not_mem_dropEOL {l : Bytes} (h : nl ∉ l) :
    nl ∉ Reader.dropEOL (l ++ [nl]) := by
  unfold Reader.dropEOL
  rw [List.dropLast_concat]
  dsimp only
  split
  · exact fun hm => h (List.dropLast_sublist l |>.mem hm)
  · exact h

theorem dropEOL_front (l : Bytes) : Reader.dropEOL l <+: l := by
  unfold Reader.dropEOL
  dsimp only
  split
  · exact (List.dropLast_prefix _).trans (List.dropLast_prefix _)
  · exact List.dropLast_prefix _

/-- A line or a part of one is the front of the stream, without a line feed; a
part is exactly what was consumed. -/
theorem lineOf_prefix {n : Nat} {fin : Err} {v a : Bytes} {more : Bool}
    (h : lineOf n fin v = .ok (a, more)) :
    a <+: v ∧ nl ∉ a ∧ (more = true → lineBytes n fin v = a) := by
  unfold lineOf lineBytes at *
  cases hs : sliceOf nl n fin v with
  | line l =>
    rw [hs] at h
    cases h
    unfold sliceOf at hs
    split at hs
    · next x y hcut =>
        cases hs
        obtain ⟨htake, hnot⟩ := cutByte_eq_some.mp hcut
        refine ⟨(dropEOL_front _).trans ?_, nl_not_mem_dropEOL hnot, by simp⟩
        have : x ++ [nl] <+: v.take n := ⟨y, by rw [htake]; simp⟩
        exact this.trans (List.take_prefix _ _)
    · split at hs <;> cases hs
  | full l =>
    rw [hs] at h
    unfold sliceOf at hs
    split at hs
    · cases hs
    · next hcut =>
        split at hs
        · cases hs
          have hnot := cutByte_eq_none.mp hcut
          dsimp only at h ⊢
          split at h
          · next hlast =>
              cases h
              rw [if_pos hlast]
              exact ⟨(List.dropLast_prefix _).trans (List.take_prefix _ _),
                fun hm => hnot (List.dropLast_sublist _ |>.mem hm),
                  fun _ => rfl⟩
          · next hlast =>
              cases h
              rw [if_neg hlast]
              exact ⟨List.take_prefix _ _, hnot, fun _ => rfl⟩
        · cases hs
  | ended l e =>
    rw [hs] at h
    unfold sliceOf at hs
    split at hs
    · cases hs
    · next hcut =>
        split at hs
        · cases hs
        · next hlen =>
            cases hs
            dsimp only at h
            split at h
            · cases h
            · cases h
              rw [List.take_of_length_le (by omega)] at hcut
              exact ⟨List.prefix_refl _, cutByte_eq_none.mp hcut, by simp⟩

/-- `ReadLine` fails only at the end of the stream. -/
theorem lineOf_error {n : Nat} {fin e : Err} {v : Bytes}
    (h : lineOf n fin v = .error e) :
    v = [] := by
  unfold lineOf at h
  cases hs : sliceOf nl n fin v with
  | line l => rw [hs] at h; cases h
  | full l =>
    rw [hs] at h
    dsimp only at h
    split at h <;> cases h
  | ended l e =>
    rw [hs] at h
    unfold sliceOf at hs
    split at hs
    · cases hs
    · split at hs
      · cases hs
      · cases hs
        dsimp only at h
        split at h
        · next hnil => exact hnil
        · cases h

theorem readLineParts_ok {fuel : Nat} {acc r : Bytes} {rd rd' : Reader ρ}
    (h : (readLineParts fuel acc : Parser ρ Err Bytes) rd = (.ok r, rd')) :
    ∃ l, r = acc ++ l ∧ l <+: rd.view ∧ nl ∉ l := by
  induction fuel generalizing acc rd with
  | zero =>
    cases h
    exact ⟨[], (List.append_nil _).symm, List.nil_prefix, by simp⟩
  | succ fuel ih =>
    rw [readLineParts] at h
    obtain ⟨⟨a, more⟩, rd₁, hline, h⟩ := bind_eq_ok h
    obtain ⟨hans, hreads⟩ := readLine_spec rd
    rw [show (rd.readLine).1 = .ok (a, more) from
      congrArg Prod.fst hline] at hans
    rw [show (rd.readLine).2 = rd₁ from congrArg Prod.snd hline] at hreads
    obtain ⟨hpre, hnl, hmore⟩ := lineOf_prefix hans.symm
    dsimp only at h
    cases more with
    | false =>
      cases h
      exact ⟨a, rfl, hpre, hnl⟩
    | true =>
      obtain ⟨l, rfl, hl, hnl'⟩ := ih h
      rw [hmore rfl] at hreads
      refine ⟨a ++ l, List.append_assoc _ _ _, ?_, ?_⟩
      · rw [hreads.view]
        exact (List.prefix_append_right_inj a).mpr hl
      · rw [List.mem_append]
        exact fun h => h.elim hnl hnl'

theorem readLineParts_error {fuel : Nat} {acc : Bytes} {e : Err}
    {rd rd' : Reader ρ}
    (h : (readLineParts fuel acc : Parser ρ Err Bytes) rd = (.error e, rd')) :
    rd'.view = [] := by
  induction fuel generalizing acc rd with
  | zero => cases h
  | succ fuel ih =>
    obtain ⟨hans, hreads⟩ := readLine_spec rd
    rw [readLineParts, bind_run] at h
    cases hline : (readLine : Parser ρ Err _) rd with
    | mk res rd₁ =>
      rw [hline] at h
      rw [show (rd.readLine).1 = res from congrArg Prod.fst hline] at hans
      rw [show (rd.readLine).2 = rd₁ from congrArg Prod.snd hline] at hreads
      cases res with
      | error e' =>
        cases h
        have hnil := lineOf_error hans.symm
        have hv := hreads.view
        rw [hnil] at hv
        exact (List.append_eq_nil_iff.mp hv.symm).2
      | ok p =>
        obtain ⟨a, more⟩ := p
        dsimp only at h
        cases more with
        | false => cases h
        | true => exact ih h

/-- A line is the front of the stream, without a line feed. -/
theorem readLineSlice_ok {l : Bytes} {rd rd' : Reader ρ}
    (h : (readLineSlice : Parser ρ Err Bytes) rd = (.ok l, rd')) :
    l <+: rd.view ∧ nl ∉ l := by
  rw [readLineSlice, measured_run] at h
  obtain ⟨l', rfl, hpre, hnl⟩ := readLineParts_ok h
  exact ⟨hpre, hnl⟩

theorem lineBytes_ne_nil {n : Nat} {fin : Err} {v : Bytes} {a : Bytes × Bool}
    (hn : 16 ≤ n) (h : lineOf n fin v = .ok a) : lineBytes n fin v ≠ [] := by
  unfold lineOf at h
  unfold lineBytes
  cases hs : sliceOf nl n fin v with
  | line l =>
    unfold sliceOf at hs
    split at hs
    · cases hs
      simp
    · split at hs <;> cases hs
  | full l =>
    have hlen : l.length = n := by
      unfold sliceOf at hs
      split at hs
      · cases hs
      · split at hs
        · cases hs
          rw [List.length_take]
          omega
        · cases hs
    intro hnil
    have := congrArg List.length hnil
    dsimp only at this
    split at this
    · rw [List.length_dropLast, List.length_nil] at this
      omega
    · rw [List.length_nil] at this
      omega
  | ended l e =>
    rw [hs] at h
    dsimp only at h
    split at h
    · cases h
    · next hne => exact hne

theorem shrinks_readLine :
    Shrinks (Parser.readLine : Parser ρ Err (Bytes × Bool)) := by
  intro rd a rd' h
  obtain ⟨hans, hreads⟩ := readLine_spec rd
  rw [show (rd.readLine).1 = .ok a from congrArg Prod.fst h] at hans
  rw [show (rd.readLine).2 = rd' from congrArg Prod.snd h] at hreads
  have hpos := List.length_pos_of_ne_nil (lineBytes_ne_nil rd.size_ge hans.symm)
  rw [hreads.view, List.length_append]
  omega

theorem shrinks_readLineSlice :
    Shrinks (readLineSlice : Parser ρ Err Bytes) := by
  intro rd a rd' h
  rw [readLineSlice, measured_run, readLineParts] at h
  refine shrinks_readLine.bind (fun p => ?_) rd a rd' h
  exact .ite (lawful_readLineParts _ _) (.pure _)

/-! ## Continued lines -/

theorem skipSpaces_ok {fuel k n : Nat} {rd rd' : Reader ρ}
    (hfuel : rd.view.length < fuel)
    (h : (skipSpaces fuel k : Parser ρ Err Nat) rd = (.ok n, rd')) :
    StartsPlain rd'.view ∧ k ≤ n ∧ (k < n → rd'.view.length < rd.view.length) ∧
      (n = k → rd'.view = rd.view) := by
  induction fuel generalizing k rd with
  | zero => omega
  | succ fuel ih =>
    rw [skipSpaces] at h
    obtain ⟨b, rd₁, hacc, h⟩ := bind_eq_ok h
    have hb : (rd.acceptByte isOWS).1 = b :=
      Except.ok.inj (congrArg Prod.fst hacc)
    have hrd : (rd.acceptByte isOWS).2 = rd₁ := congrArg Prod.snd hacc
    rcases acceptByte_spec isOWS rd with ⟨c, v, hv, _, hres, hreads⟩
      | ⟨hnone, hres, hreads⟩
    · rw [hb] at hres
      rw [hrd] at hreads
      subst hres
      have hv₁ : rd₁.view = v := by
        have := hreads.view
        rw [hv] at this
        exact (List.cons.inj this).2.symm
      rw [if_pos rfl] at h
      have hlen : rd.view.length = v.length + 1 := by rw [hv, List.length_cons]
      obtain ⟨h1, h2, h3, h4⟩ := ih (by rw [hv₁]; omega) h
      refine ⟨h1, by omega, fun _ => ?_, fun hk => by omega⟩
      by_cases hlt : k + 1 < n
      · have := h3 hlt
        rw [hv₁] at this
        omega
      · rw [h4 (by omega), hv₁]
        omega
    · rw [hb] at hres
      rw [hrd] at hreads
      subst hres
      cases h
      have hview : rd'.view = rd.view := hreads.sim.view.symm
      refine ⟨?_, Nat.le_refl _, fun h => absurd h (Nat.lt_irrefl _),
        fun _ => hview⟩
      intro c hc
      rw [hview] at hc
      cases hv : rd.view with
      | nil => rw [hv] at hc; cases hc
      | cons b v =>
        rw [hv] at hc
        cases hc
        exact hnone _ _ hv

theorem readContinuation_ok {fuel : Nat} {acc r : Bytes} {rd rd' : Reader ρ}
    (hfuel : rd.view.length < fuel)
    (h : (readContinuation fuel acc : Parser ρ Err Bytes) rd = (.ok r, rd')) :
    StartsPlain rd'.view ∧ ∃ t, r = acc ++ t ∧ nl ∉ t := by
  induction fuel generalizing acc rd with
  | zero => omega
  | succ fuel ih =>
    rw [readContinuation] at h
    obtain ⟨n, rd₁, hskip, h⟩ := bind_eq_ok h
    obtain ⟨hplain, _, hlt, _⟩ := skipSpaces_ok (Nat.lt_succ_self _) hskip
    split at h
    · cases h
      exact ⟨hplain, [], (List.append_nil _).symm, by simp⟩
    · next hn =>
        obtain ⟨res, rd₂, hatt, h⟩ := bind_eq_ok h
        have hres : ((readLineSlice : Parser ρ Err Bytes) rd₁).1 = res :=
          Except.ok.inj (congrArg Prod.fst hatt)
        have hrd₂ : ((readLineSlice : Parser ρ Err Bytes) rd₁).2 = rd₂ :=
          congrArg Prod.snd hatt
        cases res with
        | error e =>
          cases h
          have hnil : rd'.view = [] := readLineParts_error (Prod.ext hres hrd₂)
          refine ⟨?_, [], (List.append_nil _).symm, by simp⟩
          intro b hb
          rw [hnil] at hb
          cases hb
        | ok l =>
          obtain ⟨_, hnl⟩ := readLineSlice_ok (Prod.ext hres hrd₂)
          have hle : rd₂.view.length ≤ rd₁.view.length := by
            have := (lawful_readLineSlice (ρ := ρ)).view_suffix rd₁
            rw [hrd₂] at this
            exact this.length_le
          obtain ⟨hplain', t, rfl, ht⟩ :=
            ih (by have := hlt (by omega); omega) h
          refine ⟨hplain', [sp] ++ trimOWS l ++ t, by simp, ?_⟩
          simp only [List.mem_append, not_or]
          exact ⟨⟨by decide, fun hm => hnl (mem_of_mem_trimBy hm)⟩, ht⟩

theorem head_trimOWS {l : Bytes} {b : UInt8} (h : b ∈ (trimOWS l).head?) :
    isOWS b = false :=
  (trimmed_trimBy isOWS l).head b h

/-- A continued line leaves the reader in front of a byte that is no blank, and
begins with none unless the stream did. -/
theorem readContinuedLineSlice_ok {kv : Bytes} {rd rd' : Reader ρ}
    (hplain : StartsPlain rd.view)
    (h : (readContinuedLineSlice : Parser ρ Err Bytes) rd = (.ok kv, rd')) :
    nl ∉ kv ∧ (kv ≠ [] → StartsPlain rd'.view ∧ ∀ b ∈ kv.head?,
      isOWS b = false) := by
  rw [readContinuedLineSlice] at h
  obtain ⟨l, rd₁, hline, h⟩ := bind_eq_ok h
  obtain ⟨hpre, hnl⟩ := readLineSlice_ok hline
  split at h
  · next hnil =>
      cases h
      exact ⟨hnl, fun hne => absurd hnil hne⟩
  · next hne =>
      -- the line begins with a byte that is no blank, so something is left of
      -- it
      have hhead : ∀ b ∈ l.head?, isOWS b = false :=
        fun b hb => hplain b (head_of_front hpre b hb)
      have htrim : trimOWS l ≠ [] := by
        obtain ⟨c, s, rfl⟩ := List.exists_cons_of_ne_nil hne
        unfold trimOWS trimBy
        rw [dropWhile_of_head hhead]
        intro hnil
        have := List.rdropWhile_eq_nil_iff.mp hnil c List.mem_cons_self
        rw [hhead c rfl] at this
        cases this
      have hfront : ∀ t : Bytes, ∀ b ∈ (trimOWS l ++ t).head?, isOWS b =
          false := by
        intro t b hb
        obtain ⟨c, s, hcs⟩ := List.exists_cons_of_ne_nil htrim
        refine head_trimOWS (l := l) ?_
        rw [hcs] at hb ⊢
        exact hb
      have hnl' : nl ∉ trimOWS l := fun hm => hnl (mem_of_mem_trimBy hm)
      obtain ⟨seen, rd₂, hseen, h⟩ := bind_eq_ok h
      have hrd₂ : rd₁ = rd₂ := congrArg Prod.snd hseen
      subst hrd₂
      cases seen with
      | true =>
        cases h
        refine ⟨hnl', fun _ => ⟨?_, by simpa using hfront []⟩⟩
        obtain ⟨c, v, hv, hc⟩ := letterBuffered_view rd' hseen
        intro b hb
        rw [hv] at hb
        cases hb
        exact isOWS_of_letter hc
      | false =>
        rw [if_neg (by simp), measured_run] at h
        obtain ⟨hplain', t, rfl, ht⟩ :=
          readContinuation_ok (Nat.lt_succ_self _) h
        refine ⟨?_, fun _ => ⟨hplain', hfront t⟩⟩
        rw [List.mem_append]
        exact fun h => h.elim hnl' ht

/-! ## Header sections -/

/-- A header as a peer can send it. -/
structure PlainEntry (e : Bytes × List Bytes) : Prop where
  key : FieldKey e.1
  canonical : canonicalKey e.1 = e.1
  values_ne : e.2 ≠ []
  values_nl : ∀ v ∈ e.2, nl ∉ v

def PlainHeader (h : Header) : Prop := ∀ e ∈ h.entries, PlainEntry e

theorem plainHeader_empty : PlainHeader Header.empty := by
  intro e he
  cases he

theorem PlainHeader.delete {h : Header} (hh : PlainHeader h) (k : Bytes) :
    PlainHeader (h.delete k) := by
  intro e he
  exact hh e (Header.mem_delete.mp he).1

theorem PlainHeader.put {h : Header} (hh : PlainHeader h) {k : Bytes}
    {vs : List Bytes} (he : PlainEntry (k, vs)) : PlainHeader (h.put k vs) := by
  intro e hmem
  rcases Header.mem_put.mp hmem with hmem | rfl
  · exact hh e hmem.1
  · exact he

theorem PlainHeader.values_nl {h : Header} (hh : PlainHeader h) {k v : Bytes}
    (hv : v ∈ h.values k) :
    nl ∉ v := by
  obtain ⟨vs, hmem, hv⟩ := Header.mem_of_mem_values hv
  exact (hh _ hmem).values_nl v hv

/-- Changing case moves letters to letters. -/
theorem recase_of_mark (upper : Bool) {c : UInt8}
    (h : isASCIILetter (recase upper c) = false) :
    recase upper c = c := by
  have hall : ∀ c : UInt8, isASCIILetter (recase upper c) = false →
      recase upper c = c :=
    forall_byte (by cases upper <;> decide +kernel)
  exact hall c h

theorem mem_capitalize {upper : Bool} {s : Bytes} {x : UInt8}
    (hx : isASCIILetter x = false) (h : x ∈ capitalize upper s) : x ∈ s := by
  induction s generalizing upper with
  | nil => cases h
  | cons c s ih =>
    rw [capitalize] at h
    rcases List.mem_cons.mp h with h | h
    · have hc : c = x := by
        rw [h] at hx ⊢
        exact (recase_of_mark upper hx).symm
      exact hc ▸ List.mem_cons_self
    · exact List.mem_cons_of_mem _ (ih h)

theorem mem_canonicalKey {k : Bytes} {x : UInt8} (hx : isASCIILetter x = false)
    (h : x ∈ canonicalKey k) : x ∈ k := by
  unfold canonicalKey at h
  split at h
  · exact mem_capitalize hx h
  · exact h

/-- A predicate that no letter satisfies is not changed by changing case. -/
theorem recase_of_pred {p : UInt8 → Bool}
    (hp : ∀ b, p b = true → isASCIILetter b = false) {upper : Bool} {c : UInt8}
    (hc : p c = false) : p (recase upper c) = false := by
  cases h : p (recase upper c) with
  | false => rfl
  | true =>
    rw [recase_of_mark upper (hp _ h), hc] at h
    cases h

theorem last_capitalize {p : UInt8 → Bool}
    (hp : ∀ b, p b = true → isASCIILetter b = false) {upper : Bool} {s : Bytes}
    (h : ∀ b ∈ s.getLast?, p b = false) :
    ∀ b ∈ (capitalize upper s).getLast?, p b = false := by
  induction s generalizing upper with
  | nil => exact h
  | cons c s ih =>
    cases s with
    | nil =>
      intro b hb
      cases hb
      exact recase_of_pred hp (h c rfl)
    | cons d s =>
      rw [capitalize, capitalize, List.getLast?_cons_cons]
      rw [List.getLast?_cons_cons] at h
      exact ih h

/-- Nor does it change what there is to trim. -/
theorem trimmed_canonicalKey {p : UInt8 → Bool}
    (hp : ∀ b, p b = true → isASCIILetter b = false) {k : Bytes}
    (h : Trimmed p k) : Trimmed p (canonicalKey k) := by
  unfold canonicalKey
  split
  · refine ⟨?_, last_capitalize hp h.last⟩
    cases k with
    | nil => exact h.head
    | cons c s =>
      intro b hb
      cases hb
      exact recase_of_pred hp (h.head c rfl)
  · exact h

theorem isOWS_not_letter : ∀ b, isOWS b = true → isASCIILetter b = false :=
  forall_byte (by decide +kernel)

theorem isASCIISpace_not_letter :
    ∀ b, isASCIISpace b = true → isASCIILetter b = false :=
  forall_byte (by decide +kernel)

/-- The canonical form of a name that can be written can be written. -/
theorem fieldKey_canonical {k : Bytes} (hk : FieldKey k) :
    FieldKey (canonicalKey k) := by
  refine ⟨canonicalKey_ne_nil hk.ne_nil, ?_,
    fun h => hk.colon (mem_canonicalKey (by decide) h),
    fun h => hk.nl (mem_canonicalKey (by decide) h)⟩
  unfold canonicalKey
  split
  · obtain ⟨c, s, rfl⟩ := List.exists_cons_of_ne_nil hk.ne_nil
    intro b hb
    cases hb
    exact recase_of_pred isOWS_not_letter (hk.head c rfl)
  · exact hk.head

theorem addField_plain {m m' : Header} {kv : Bytes} (hm : PlainHeader m)
    (hnl : nl ∉ kv) (hhead : ∀ b ∈ kv.head?, isOWS b = false)
    (h : addField m kv = .ok m') : PlainHeader m' := by
  unfold addField at h
  split at h
  · cases h
  · next k v hcut =>
      obtain ⟨rfl, hcolon⟩ := cutByte_eq_some.mp hcut
      dsimp only at h
      split at h
      · cases h
        exact hm
      · next hne =>
          cases h
          simp only [List.mem_append, List.mem_cons, not_or] at hnl
          have hkne : k ≠ [] := by
            rintro rfl
            exact hne rfl
          have hk : FieldKey k := by
            refine ⟨hkne, ?_, hcolon, hnl.1⟩
            obtain ⟨c, s, rfl⟩ := List.exists_cons_of_ne_nil hkne
            exact hhead
          refine hm.put ⟨fieldKey_canonical hk,
            canonicalKey_idem k, by simp, ?_⟩
          intro w hw
          rcases List.mem_append.mp hw with hw | hw
          · exact hm.values_nl hw
          · rw [List.mem_singleton.mp hw]
            exact fun hm => hnl.2.2 ((List.dropWhile_sublist _).mem hm)

theorem readFields_plain {fuel : Nat} {m h : Header} {rd rd' : Reader ρ}
    (hm : PlainHeader m) (hplain : StartsPlain rd.view)
    (hrun : (readFields fuel m : Parser ρ Err Header) rd = (.ok h, rd')) :
    PlainHeader h := by
  induction fuel generalizing m rd with
  | zero =>
    cases hrun
    exact hm
  | succ fuel ih =>
    rw [readFields] at hrun
    obtain ⟨kv, rd₁, hline, hrun⟩ := bind_eq_ok hrun
    obtain ⟨hnl, hnext⟩ := readContinuedLineSlice_ok hplain hline
    split at hrun
    · cases hrun
      exact hm
    · next hne =>
        obtain ⟨hplain', hhead⟩ := hnext hne
        cases hadd : addField m kv with
        | error e => rw [hadd] at hrun; cases hrun
        | ok m' =>
          rw [hadd] at hrun
          exact ih (addField_plain hm hnl hhead hadd) hplain' hrun

/-- Every header section that was read can be written again. -/
theorem readMIMEHeader_plain {h : Header} {rd rd' : Reader ρ}
    (hrun : (readMIMEHeader : Parser ρ Err Header) rd = (.ok h, rd')) :
    PlainHeader h := by
  rw [readMIMEHeader] at hrun
  obtain ⟨b, rd₁, hpeek, hrun⟩ := bind_eq_ok hrun
  have hb : (rd.peek 1).1 = b := Except.ok.inj (congrArg Prod.fst hpeek)
  have hrd₁ : (rd.peek 1).2 = rd₁ := congrArg Prod.snd hpeek
  obtain ⟨hview, hreads⟩ := peek_spec 1 rd
  split at hrun
  · obtain ⟨_, _, _, hrun⟩ := bind_eq_ok hrun
    cases hrun
  · next hows =>
      rw [measured_run] at hrun
      refine readFields_plain plainHeader_empty ?_ hrun
      have hsize := rd.size_ge
      rw [Nat.min_eq_left (by omega), hb] at hview
      rw [hrd₁] at hreads
      intro c hc
      rw [← hreads.sim.view] at hc
      cases hv : rd.view with
      | nil => rw [hv] at hc; cases hc
      | cons d v =>
        rw [hv] at hc hview
        cases hc
        rw [hview] at hows
        simpa using hows

end Netramesh.Proofs
