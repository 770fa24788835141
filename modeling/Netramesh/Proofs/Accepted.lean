import Netramesh.Proofs.Heads

/-!
# What an accepted message looks like

`readTransfer` edits the header it is given, but takes fields out of it or puts
in fields that can be written. Of the encodings it leaves `chunked` or none, the
length it finds is a number or unknown, and a trailer is announced only for a
chunked body.
-/

namespace Netramesh.Proofs

open Http Protocol Net Lib

theorem mem_of_mem_trimSpace {s : Bytes} {b : UInt8} (h : b ∈ trimSpace s) :
    b ∈ s := by
  unfold trimSpace at h
  dsimp only at h
  rw [List.mem_reverse] at h
  have h1 := (dropRunes_suffix _ _ _).mem h
  rw [List.mem_reverse] at h1
  exact (dropRunes_suffix _ _ _).mem h1

theorem plainEntry_of_key {k v : Bytes} (hk : k.all isTokenByte = true)
    (hne : k ≠ []) (hcanon : canonicalKey k = k) (hv : nl ∉ v) :
    PlainEntry (k, [v]) := by
  have htok : ∀ b ∈ k, isTokenByte b = true := List.all_eq_true.mp hk
  have hbyte : ∀ b, isTokenByte b = true → isOWS b = false ∧ b ≠ 58 ∧ b ≠ nl :=
    forall_byte (by decide +kernel)
  refine ⟨⟨hne, fun b hb => (hbyte b (htok b (List.mem_of_mem_head? hb))).1,
    fun h => (hbyte _ (htok _ h)).2.1 rfl,
      fun h => (hbyte _ (htok _ h)).2.2 rfl⟩, hcanon, by simp, ?_⟩
  intro w hw
  rw [List.mem_singleton.mp hw]
  exact hv

/-! ## The header -/

theorem PlainHeader.fixPragma {h : Header} (hh : PlainHeader h) :
    PlainHeader (fixPragmaCacheControl h) := by
  unfold fixPragmaCacheControl
  split
  · exact hh.put (plainEntry_of_key
      (by decide) (by decide) (by decide) (by decide))
  · exact hh

theorem PlainHeader.shouldClose {h : Header} (hh : PlainHeader h)
    (major minor : Nat) (remove : Bool) :
    PlainHeader (shouldClose major minor h remove).2 := by
  unfold Http.shouldClose
  split
  · exact hh
  · dsimp only
    split
    · exact hh
    · dsimp only
      split
      · exact hh.delete _
      · exact hh

theorem fixTransferEncoding_ok {major minor : Nat} {h h' : Header}
    {te : List Bytes} (hh : PlainHeader h)
    (hok : fixTransferEncoding major minor h = .ok (te, h')) :
    PlainHeader h' ∧ te = encodings (chunked te) := by
  unfold fixTransferEncoding at hok
  split at hok
  · dsimp only at hok
    split at hok
    · cases hok
      exact ⟨hh.delete _, rfl⟩
    · split at hok
      · cases hok
      · next te' hte =>
          split at hok
          · cases hok
          · next hlen =>
              split at hok
              · next hne =>
                  cases hok
                  refine ⟨(hh.delete _).delete _, ?_⟩
                  -- at most one encoding, and none but `chunked` is let through
                  have hall : ∀ ts te', transferEncodings ts = .ok te' →
                      ∀ e ∈ te', e = lit "chunked" := by
                    intro ts
                    induction ts with
                    | nil =>
                      intro te' h e he
                      cases h
                      cases he
                    | cons t ts ih =>
                      intro te' h e he
                      rw [transferEncodings] at h
                      split at h
                      · cases h
                        cases he
                      · split at h
                        · cases h
                        · next hch =>
                            cases hrec : transferEncodings ts with
                            | error e => rw [hrec] at h; cases h
                            | ok te'' =>
                              rw [hrec] at h
                              cases h
                              rcases List.mem_cons.mp he with rfl | he
                              · simpa using hch
                              · exact ih te'' hrec e he
                  match te, hne, hlen with
                  | [e], _, _ =>
                    rw [hall _ _ hte e List.mem_cons_self]
                    rfl
                  | e :: e' :: es, _, hlen => simp at hlen
              · cases hok
                exact ⟨hh.delete _, rfl⟩
  · cases hok
    exact ⟨hh, rfl⟩

theorem dedupContentLength_plain {h h' : Header} (hh : PlainHeader h)
    (hok : dedupContentLength h = .ok h') : PlainHeader h' := by
  unfold dedupContentLength at hok
  split at hok
  · next first second rest hvalues =>
      split at hok
      · cases hok
        have hv : nl ∉ trimSpace first := by
          intro hm
          exact hh.values_nl (k := lit "Content-Length")
            (by rw [hvalues]; exact List.mem_cons_self)
            (mem_of_mem_trimSpace hm)
        have hnone :
          ((h.del (lit "Content-Length")).values
          (canonicalKey (lit "Content-Length"))) =
            [] := Header.values_delete_self _ _
        rw [Header.add, hnone]
        exact (hh.delete _).put (plainEntry_of_key
          (by decide) (by decide) (by decide) hv)
      · cases hok
  · cases hok
    exact hh

theorem parseContentLength_range {cl : Bytes} {n : Int}
    (h : parseContentLength cl = .ok n) :
    (n = -1 ∧ trimSpace cl = []) ∨ (0 ≤ n ∧ n < 2 ^ 63) := by
  unfold parseContentLength at h
  dsimp only at h
  split at h
  · next hnil =>
      cases h
      exact .inl ⟨rfl, hnil⟩
  · split at h
    · next hp =>
        split at h
        · cases h
        · next hneg =>
            cases h
            exact .inr ⟨by omega, parseInt_lt hp⟩
    · cases h

/-- The text of a length that `fixLength` parses. -/
def lengthValue (contentLens : List Bytes) : Bytes :=
  match contentLens with
  | [v] => trimSpace v
  | _ => []

theorem trimSpace_lengthValue (contentLens : List Bytes) :
    trimSpace (lengthValue contentLens) = lengthValue contentLens := by
  unfold lengthValue
  split
  · exact trimSpace_idem _
  · rfl

theorem map_eq_ok {α β : Type} {r : Except Err α} {f : α → β} {b : β}
    (h : r.map f = .ok b) :
    ∃ a, r = .ok a ∧ f a = b := by
  cases r with
  | error e => cases h
  | ok a => exact ⟨a, rfl, Except.ok.inj h⟩

theorem fixLength_plain {isResponse : Bool} {status : Nat} {method : Bytes}
    {h h' : Header} {te : List Bytes} {n : Int} (hh : PlainHeader h)
    (hok : fixLength isResponse status method h te = .ok (n, h')) :
    PlainHeader h' := by
  unfold fixLength at hok
  split at hok
  · cases hok
  · next h₁ hdedup =>
      have hh₁ := dedupContentLength_plain hh hdedup
      dsimp only at hok
      split at hok
      · split at hok
        · cases hok
        · cases hok
          exact hh₁
      · split at hok
        · cases hok
          exact hh₁
        · split at hok
          · cases hok
            exact hh₁
          · split at hok
            all_goals
              split at hok
              · next hne =>
                  obtain ⟨m, _, hm⟩ := map_eq_ok hok
                  cases hm
                  exact hh₁
              · split at hok <;> (cases hok; exact hh₁.delete _)

/-- The length of a message. A request without one has none, a response without
one goes on to the end of the connection. -/
theorem fixLength_range {isResponse : Bool} {status : Nat} {method : Bytes}
    {h h' : Header} {te : List Bytes} {n : Int}
    (hok : fixLength isResponse status method h te = .ok (n, h')) :
    (0 ≤ n ∧ n < 2 ^ 63) ∨ (n = -1 ∧
      (chunked te = true ∨ isResponse = true)) := by
  unfold fixLength at hok
  split at hok
  · cases hok
  · next h₁ hdedup =>
      dsimp only at hok
      split at hok
      · split at hok
        · cases hok
        · cases hok
          exact .inl ⟨by omega, by omega⟩
      · split at hok
        · cases hok
          exact .inl ⟨by omega, by omega⟩
        · split at hok
          · next hch =>
              cases hok
              exact .inr ⟨rfl, .inl hch⟩
          · -- the value was trimmed, so if there is one there is something to
            -- parse
            have hcl := trimSpace_lengthValue (h₁.values (lit "Content-Length"))
            change (if lengthValue (h₁.values (lit "Content-Length")) ≠ [] then
              (parseContentLength (lengthValue
                (h₁.values (lit "Content-Length")))).map
                fun n => (n, h₁) else _) = _ at hok
            generalize lengthValue (h₁.values (lit "Content-Length")) =
              cl at hok hcl
            split at hok
            · next hne =>
                obtain ⟨m, hp, hm⟩ := map_eq_ok hok
                cases hm
                rcases parseContentLength_range hp with ⟨_, hnil⟩ | h
                · rw [hcl] at hnil
                  exact absurd hnil hne
                · exact .inl h
            · split at hok
              · cases hok
                exact .inl ⟨by omega, by omega⟩
              · next hresp =>
                  cases hok
                  exact .inr ⟨rfl, .inr (by simpa using hresp)⟩

/-! ## The trailer -/

theorem mem_splitOn {c : UInt8} {s f : Bytes} (h : f ∈ s.splitOn c) :
    c ∉ f ∧ ∀ b ∈ f, b ∈ s := by
  induction s generalizing f with
  | nil =>
    rw [List.splitOn_nil, List.mem_singleton] at h
    subst h
    exact ⟨by simp, by simp⟩
  | cons b s ih =>
    rw [List.splitOn_cons_eq_if_modifyHead] at h
    split at h
    · rcases List.mem_cons.mp h with rfl | h
      · exact ⟨by simp, by simp⟩
      · exact ⟨(ih h).1, fun x hx => List.mem_cons_of_mem _ ((ih h).2 x hx)⟩
    · next hb =>
        obtain ⟨g, gs, hg⟩ := List.exists_cons_of_ne_nil
          (List.splitOn_ne_nil c s)
        rw [hg, List.modifyHead_cons] at h
        rw [hg] at ih
        rcases List.mem_cons.mp h with rfl | h
        · obtain ⟨h1, h2⟩ := ih List.mem_cons_self
          refine ⟨?_, ?_⟩
          · rw [List.mem_cons, not_or]
            exact ⟨fun hc => hb (by simp [hc]), h1⟩
          · intro x hx
            rcases List.mem_cons.mp hx with rfl | hx
            · exact List.mem_cons_self
            · exact List.mem_cons_of_mem _ (h2 x hx)
        · obtain ⟨h1, h2⟩ := ih (List.mem_cons_of_mem _ h)
          exact ⟨h1, fun x hx => List.mem_cons_of_mem _ (h2 x hx)⟩

theorem headerElements_mem {v f : Bytes} (h : f ∈ headerElements v) :
    f ≠ [] ∧ 44 ∉ f ∧ Trimmed isASCIISpace f ∧ ∀ b ∈ f, b ∈ v := by
  unfold headerElements at h
  obtain ⟨g, hg, hf⟩ := List.mem_filterMap.mp h
  obtain ⟨hcomma, hsub⟩ := mem_splitOn hg
  dsimp only at hf
  split at hf
  · cases hf
  · next hne =>
      cases hf
      exact ⟨hne, fun hm => hcomma (mem_of_mem_trimBy hm), trimmed_trimBy _ _,
        fun b hb => mem_of_mem_trimBy (hsub b (mem_of_mem_trimBy hb))⟩

theorem fixTrailer_ok {h h' : Header} {te : List Bytes}
    {trailer : Option Header} (hh : PlainHeader h)
    (hok : fixTrailer h te = .ok (trailer, h')) :
    PlainHeader h' ∧ (trailer = none ∨ (chunked te = true ∧
      ∃ ks, ks ≠ [] ∧ (∀ k ∈ ks, TrailerKey k) ∧
        trailer = some (announce ks))) := by
  unfold fixTrailer at hok
  split at hok
  · dsimp only at hok
    split at hok
    · cases hok
    · next hfind =>
        split at hok
        · cases hok
          exact ⟨hh.delete _, .inl rfl⟩
        · next hne =>
            split at hok
            · cases hok
            · next hte =>
                cases hok
                refine ⟨hh.delete _, .inr ⟨by simpa using hte, _, hne, ?_, rfl⟩⟩
                intro k hk
                have hallowed := List.find?_eq_none.mp hfind k hk
                obtain ⟨f, hf, rfl⟩ := List.mem_map.mp hk
                obtain ⟨v, hv, hf⟩ := List.mem_flatMap.mp hf
                obtain ⟨hfne, hcomma, htrim, hsub⟩ := headerElements_mem hf
                have hnl := hh.values_nl hv
                exact ⟨canonicalKey_ne_nil hfne,
                  fun hm => hcomma (mem_canonicalKey (by decide) hm),
                  fun hm => hnl (hsub _ (mem_canonicalKey (by decide) hm)),
                  trimmed_canonicalKey isASCIISpace_not_letter htrim,
                    canonicalKey_idem f,
                  by simpa using hallowed⟩
  · cases hok
    exact ⟨hh, .inl rfl⟩

/-! ## Together -/

/-- The transfer of a message that was read. -/
structure Accepted (isResponse : Bool) (status : Nat) (method : Bytes)
    (t : Transfer) (realLength : Int) : Prop where
  header : PlainHeader t.header
  encoding : t.transferEncoding = encodings (chunked t.transferEncoding)
  length : (0 ≤ realLength ∧ realLength < 2 ^ 63) ∨
    (realLength = -1 ∧ (chunked t.transferEncoding = true ∨ isResponse = true))
  trailer : TrailerOf (chunked t.transferEncoding) t.trailer
  body : t.body = transferBody status method t.transferEncoding realLength
    t.close

theorem readTransfer_accepted {isResponse close : Bool} {status : Nat}
    {method : Bytes} {major minor : Nat} {h : Header} {t : Transfer}
    (hh : PlainHeader h)
    (hok : readTransfer isResponse status method major minor close h = .ok t) :
    ∃ st : TransferSteps isResponse status method major minor close h t,
      Accepted isResponse status method t st.realLength := by
  obtain ⟨st⟩ := readTransfer_eq_ok hok
  have hh₀ : PlainHeader st.h₀ := by
    have : (if isResponse then shouldClose major minor h true else (close, h)).2
        = st.h₀ := by
      rw [st.closes]
    rw [← this]
    split
    · exact hh.shouldClose _ _ _
    · exact hh
  obtain ⟨hh₁, hte⟩ := fixTransferEncoding_ok hh₀ st.encodings
  have hh₂ := fixLength_plain hh₁ st.length
  have hlen := fixLength_range st.length
  obtain ⟨hh₃, htr⟩ := fixTrailer_ok hh₂ st.trailers
  have h1 : t.header = st.h₃ := congrArg Transfer.header st.eq
  have h2 : t.transferEncoding = st.te :=
    congrArg Transfer.transferEncoding st.eq
  have h3 : t.trailer = st.trailer := congrArg Transfer.trailer st.eq
  have h4 : t.body = transferBody status method st.te st.realLength t.close :=
    congrArg Transfer.body st.eq
  exact ⟨st, by rw [h1]; exact hh₃, by rw [h2]; exact hte, by
    rw [h2]; exact hlen, by rw [h2, h3]; exact htr, by rw [h2]; exact h4⟩

/-- A response has no body exactly if it announces none. -/
theorem finishResponse_noBody {l : StatusLine} {h : Header} {r : Response}
    (hr : finishResponse none l h = .ok r) :
    r.body = none ↔ responseFraming false r = .length 0 := by
  unfold finishResponse at hr
  dsimp only at hr
  split at hr
  · cases hr
  · next t ht =>
      obtain ⟨st⟩ := readTransfer_eq_ok ht
      have hcl : t.contentLength = st.realLength := by
        have := st.announced
        rw [if_neg (by decide)] at this
        exact (Except.ok.inj this).symm
      have hte : t.transferEncoding = st.te :=
        congrArg Transfer.transferEncoding st.eq
      have hclose : t.close = (st.close₀ || (true && st.realLength == -1 &&
          !chunked st.te && bodyAllowedForStatus l.statusCode)) :=
        congrArg Transfer.close st.eq
      have hbody : t.body =
          transferBody l.statusCode (lit "GET") st.te st.realLength t.close :=
        congrArg Transfer.body st.eq
      have hrange := fixLength_range st.length
      cases hr
      dsimp only [responseFraming]
      rw [hbody, transferBody, hcl, hte,
        show noResponseBodyExpected (lit "GET") = false by decide]
      cases hallowed : bodyAllowedForStatus l.statusCode with
      | false =>
        rw [fixLength_of_status (by decide) hallowed st.length]
        simp
      | true =>
        cases hch : chunked st.te with
        | true => simp
        | false =>
          rcases hrange with ⟨h0, _⟩ | ⟨hminus, _⟩
          · by_cases hzero : st.realLength = 0
            · simp [hzero]
            · have hpos : 0 < st.realLength := by omega
              have hne : st.realLength ≠ -1 := by omega
              simp [hzero, hpos, hne]
          · rw [hch, hallowed, hminus] at hclose
            simp [hminus, hclose]

end Netramesh.Proofs
