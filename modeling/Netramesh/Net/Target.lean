import Netramesh.Lib.Text
import Netramesh.Net.Url

/-!
# Targets that are paths

A request target that begins with a slash is a path and a query. Writing it
again may escape the path differently, but what is written begins with a slash,
holds no blank and no control byte, and is accepted again.
-/

namespace Netramesh.Net

/-! ## Escaping -/

theorem upperHex_graphic :
    ∀ d, d < 16 → isGraphic (upperHex d) = true ∧ upperHex d ≠ 63 ∧
    hexVal (upperHex d) = some d := by decide

theorem notEscaped_graphic : ∀ c : UInt8, shouldEscape c .path = false →
    isGraphic c = true ∧ c ≠ 63 ∧ c ≠ 37 :=
  forall_byte (by decide +kernel)

/-- What `escape` writes is printable and holds no question mark. -/
theorem mem_escape {s : Bytes} {b : UInt8} (h : b ∈ escape .path s) :
    isGraphic b = true ∧ b ≠ 63 := by
  induction s with
  | nil => cases h
  | cons c s ih =>
    rw [escape] at h
    have hlt := c.toNat_lt
    split at h
    · simp only [List.mem_cons] at h
      rcases h with rfl | rfl | rfl | h
      · decide
      · have := upperHex_graphic (c.toNat / 16) (by omega)
        exact ⟨this.1, this.2.1⟩
      · have := upperHex_graphic (c.toNat % 16) (by omega)
        exact ⟨this.1, this.2.1⟩
      · exact ih h
    · next hesc =>
        rcases List.mem_cons.mp h with rfl | h
        · have := notEscaped_graphic b (by simpa using hesc)
          exact ⟨this.1, this.2.1⟩
        · exact ih h

theorem unescape_cons {c : UInt8} (hc : c ≠ 37) (s : Bytes) :
    unescape .path (c :: s) = (unescape .path s).map (c :: ·) := by
  rw [unescape.eq_def]
  split
  · next h => cases h
  · next h => cases h; exact absurd rfl hc
  · next c' s' _ h =>
      cases h
      rw [if_neg hc]
      simp

theorem unescape_percent {h l : UInt8} {hv lv : Nat} (hh : hexVal h = some hv)
    (hl : hexVal l = some lv) (s : Bytes) :
    unescape .path (37 :: h :: l :: s) =
      (unescape .path s).map (UInt8.ofNat (hv * 16 + lv) :: ·) := by
  rw [unescape, hh, hl]
  simp [escapeAllowed]

/-- `unescape` undoes `escape`. -/
theorem unescape_escape (s : Bytes) :
    unescape .path (escape .path s) = some s := by
  induction s with
  | nil => rfl
  | cons c s ih =>
    have hlt := c.toNat_lt
    rw [escape]
    split
    · have h1 := (upperHex_graphic (c.toNat / 16) (by omega)).2.2
      have h2 := (upperHex_graphic (c.toNat % 16) (by omega)).2.2
      rw [unescape_percent h1 h2, ih, Nat.mul_comm, Nat.div_add_mod,
        UInt8.ofNat_toNat]
      rfl
    · next hesc =>
        rw [unescape_cons (notEscaped_graphic c (by simpa using hesc)).2.2, ih]
        rfl

/-! ## Parsing -/

/-- A path and what follows it: nothing, or a question mark and a query. -/
theorem parseRequestURI_rooted {e qs : Bytes} (hhead : e.head? = some 47)
    (hmark : 63 ∉ e) (hqs : qs = [] ∨ ∃ q, qs = 63 :: q) :
    ∃ u : URL, u.host = [] ∧ u.opaqueData = [] ∧ u.querySuffix = qs ∧
      parseRequestURI (e ++ qs) = if containsCTL (e ++ qs) then none
        else u.setPath e := by
  obtain ⟨s, rfl⟩ : ∃ s, e = 47 :: s := by
    cases e with
    | nil => cases hhead
    | cons c s => cases hhead; exact ⟨s, rfl⟩
  have hscheme : getscheme (47 :: s ++ qs) = some ([], 47 :: s ++ qs) := rfl
  have hslash : (lit "/").isPrefixOf (47 :: s) = true := rfl
  rcases hqs with rfl | ⟨q, rfl⟩
  · refine ⟨{}, rfl, rfl, rfl, ?_⟩
    have hsplit : splitQuery (47 :: s ++ []) = (47 :: s, false, []) := by
      rw [List.append_nil, splitQuery, cutByte_eq_none.mpr hmark]
    unfold parseRequestURI
    rw [hscheme]
    dsimp only
    rw [hsplit]
    dsimp only
    rw [hslash]
    simp [lit, toLower]
  · refine ⟨{ forceQuery := q = [], rawQuery := q }, rfl, rfl, ?_, ?_⟩
    · unfold URL.querySuffix
      by_cases hq : q = [] <;> simp [hq]
    · have hsplit : splitQuery (47 :: s ++ 63 :: q) =
          (47 :: s, decide (q = []), q) := by
        rw [splitQuery, cutByte_append hmark]
        cases q <;> simp
      unfold parseRequestURI
      rw [hscheme]
      dsimp only
      rw [hsplit]
      dsimp only
      rw [hslash]
      simp [lit, toLower]

/-- A target that begins with a slash, taken apart. -/
theorem split_rooted {uri : Bytes} (h : uri.head? = some 47) :
    ∃ e qs, uri = e ++ qs ∧ e.head? = some 47 ∧ 63 ∉ e ∧
      (qs = [] ∨ ∃ q, qs = 63 :: q) := by
  cases hcut : cutByte 63 uri with
  | none => exact ⟨uri, [], (List.append_nil _).symm, h,
      cutByte_eq_none.mp hcut, .inl rfl⟩
  | some p =>
    obtain ⟨rfl, hnot⟩ := cutByte_eq_some.mp hcut
    refine ⟨p.1, 63 :: p.2, rfl, ?_, hnot, .inr ⟨_, rfl⟩⟩
    cases hp : p.1 with
    | nil =>
      rw [hp] at h
      cases h
    | cons c s =>
      rw [hp] at h
      exact h

theorem unescape_head {e path : Bytes} (hhead : e.head? = some 47)
    (h : unescape .path e = some path) : path.head? = some 47 := by
  cases e with
  | nil => cases hhead
  | cons c s =>
    cases hhead
    rw [unescape_cons (by decide)] at h
    obtain ⟨t, _, rfl⟩ := Option.map_eq_some_iff.mp h
    rfl

/-- What `EscapedPath` writes for a path that was read. -/
theorem escapedPath_again {e path : Bytes} {u : URL} (hhead : e.head? = some 47)
    (hmark : 63 ∉ e) (hun : unescape .path e = some path)
    (hpath : u.path = path)
    (hraw : u.rawPath = if e = escape .path path then [] else e) :
    (u.escapedPath = e ∨ u.escapedPath = escape .path path) ∧
      u.escapedPath.head? = some 47 ∧
      63 ∉ u.escapedPath ∧ (unescape .path u.escapedPath).isSome = true := by
  have hph := unescape_head hhead hun
  have hcases : u.escapedPath = e ∨ u.escapedPath = escape .path path := by
    unfold URL.escapedPath
    split
    · next h =>
        left
        rw [hraw]
        split
        · next heq =>
            rw [hraw, if_pos heq] at h
            simp at h
        · rfl
    · right
      rw [hpath, if_neg]
      intro hstar
      rw [hstar] at hph
      cases hph
  refine ⟨hcases, ?_⟩
  rcases hcases with h | h
  · rw [h, hun]
    exact ⟨hhead, hmark, rfl⟩
  · rw [h, unescape_escape]
    refine ⟨?_, fun hm => (mem_escape hm).2 rfl, rfl⟩
    cases path with
    | nil => cases hph
    | cons c s =>
      cases hph
      rfl

theorem containsCTL_append {s t : Bytes} :
    containsCTL (s ++ t) = (containsCTL s || containsCTL t) := List.any_append

theorem not_ctl_of_graphic {s : Bytes} (h : ∀ b ∈ s, isGraphic b = true) :
    containsCTL s = false ∧ sp ∉ s := by
  have hbyte : ∀ b : UInt8, isGraphic b = true →
      (b < 32 || b == 127) = false ∧ b ≠ sp :=
    forall_byte (by decide +kernel)
  constructor
  · unfold containsCTL
    rw [List.any_eq_false]
    intro b hb
    simp [(hbyte b (h b hb)).1]
  · exact fun hm => (hbyte sp (h sp hm)).2 rfl

/-- The parts of a rooted target. -/
theorem rooted_parts {uri : Bytes} {u : URL} (h : parseRequestURI uri = some u)
    (hslash : uri.head? = some 47) :
    ∃ e qs path, uri = e ++ qs ∧ e.head? = some 47 ∧ 63 ∉ e ∧
      (qs = [] ∨ ∃ q, qs = 63 :: q) ∧
      containsCTL uri = false ∧ u.host = [] ∧ u.opaqueData = [] ∧
        u.querySuffix = qs ∧
      unescape .path e = some path ∧ u.path = path ∧
      u.rawPath = if e = escape .path path then [] else e := by
  obtain ⟨e, qs, rfl, hhead, hmark, hqs⟩ := split_rooted hslash
  obtain ⟨u₀, hhost, hop, hsuffix, hparse⟩ :=
    parseRequestURI_rooted hhead hmark hqs
  rw [hparse] at h
  split at h
  · cases h
  · next hctl =>
      obtain ⟨path, hun, rfl⟩ := Option.map_eq_some_iff.mp h
      exact ⟨e, qs, path, rfl, hhead, hmark, hqs, by simpa using hctl, hhost,
        hop, hsuffix, hun, rfl, rfl⟩

/-- A target that begins with a slash is written as one that begins with a slash
and is accepted again. -/
theorem target_again {uri : Bytes} {u : URL} (h : parseRequestURI uri = some u)
    (hslash : uri.head? = some 47) (hsp : sp ∉ uri) :
    u.host = [] ∧ u.path ≠ [] ∧ u.path ≠ lit "*" ∧
      u.requestURI.head? = some 47 ∧ sp ∉ u.requestURI ∧ nl ∉ u.requestURI ∧
        (parseRequestURI u.requestURI).isSome = true := by
  obtain ⟨e, qs, path, rfl, hhead, hmark, hqs, hctl, hhost, hop, hsuffix, hun,
      hpath, hraw⟩ :=
    rooted_parts h hslash
  have hph := unescape_head hhead hun
  obtain ⟨hcases, hhead', hmark', hsome⟩ :=
    escapedPath_again hhead hmark hun hpath hraw
  have hne : u.escapedPath ≠ [] := by
    intro hnil
    rw [hnil] at hhead'
    cases hhead'
  have huri : u.requestURI = u.escapedPath ++ qs := by
    rw [URL.requestURI, hop, if_pos rfl, if_neg hne, hsuffix]
  -- neither form of the path brings in a blank or a control byte
  have hclean : containsCTL (u.escapedPath ++ qs) = false ∧
      sp ∉ u.escapedPath ++ qs := by
    rw [containsCTL_append, Bool.or_eq_false_iff] at hctl
    rw [List.mem_append, not_or] at hsp
    rw [containsCTL_append, List.mem_append, not_or]
    rcases hcases with hc | hc
    · rw [hc]
      exact ⟨by rw [hctl.1, hctl.2]; rfl, hsp⟩
    · have hg := not_ctl_of_graphic (s := escape .path path) fun b hb =>
        (mem_escape hb).1
      rw [hc]
      exact ⟨by rw [hg.1, hctl.2]; rfl, hg.2, hsp.2⟩
  obtain ⟨u₁, _, _, _, hparse'⟩ := parseRequestURI_rooted hhead' hmark' hqs
  refine ⟨hhost, ?_, ?_, ?_, ?_, ?_, ?_⟩
  · rw [hpath]
    rintro rfl
    cases hph
  · rw [hpath]
    rintro rfl
    cases hph
  · rw [huri, List.head?_append, hhead']
    rfl
  · rw [huri]
    exact hclean.2
  · rw [huri]
    intro hm
    have := List.any_eq_false.mp hclean.1 nl hm
    exact this (by decide)
  · rw [huri, hparse', hclean.1, if_neg (by simp), URL.setPath,
      Option.isSome_map]
    exact hsome

/-! ## Targets that are written as they were read -/

theorem validEncodedPath_escape (s : Bytes) :
    validEncodedPath (escape .path s) = true := by
  have hhex : ∀ d, d < 16 → ((lit "!$&'()*+,;=:@[]%").contains (upperHex d) ||
      !shouldEscape (upperHex d) .path) = true := by decide
  unfold validEncodedPath
  rw [List.all_eq_true]
  intro b hb
  induction s with
  | nil => cases hb
  | cons c s ih =>
      have hlt := c.toNat_lt
      rw [escape] at hb
      split at hb
      · rcases List.mem_cons.mp hb with rfl | hb
        · decide
        · rcases List.mem_cons.mp hb with rfl | hb
          · exact hhex (c.toNat / 16) (by omega)
          · rcases List.mem_cons.mp hb with rfl | hb
            · exact hhex (c.toNat % 16) (by omega)
            · exact ih hb
      · next hc =>
          rcases List.mem_cons.mp hb with rfl | hb
          · rw [Bool.not_eq_true] at hc
            rw [hc, Bool.not_false, Bool.or_true]
          · exact ih hb

/-- A rooted path is kept exactly if it is validly encoded. -/
theorem escapedPath_eq_iff {e path : Bytes} {u : URL}
    (hhead : e.head? = some 47) (hun : unescape .path e = some path)
    (hpath : u.path = path)
    (hraw : u.rawPath = if e = escape .path path then [] else e) :
    u.escapedPath = e ↔ validEncodedPath e = true := by
  have hne : e ≠ [] := by
    rintro rfl
    cases hhead
  have hstar : path ≠ lit "*" := by
    rintro rfl
    exact absurd (unescape_head hhead hun) (by decide)
  unfold URL.escapedPath
  rw [hpath, hraw]
  by_cases heq : e = escape .path path
  · rw [if_pos heq, if_neg (by simp), if_neg hstar]
    exact iff_of_true heq.symm (by rw [heq]; exact validEncodedPath_escape path)
  · rw [if_neg heq, hun, beq_self_eq_true, Bool.and_true]
    by_cases hvalid : validEncodedPath e = true
    · rw [if_pos (by simp [hne, hvalid])]
      exact iff_of_true rfl hvalid
    · rw [if_neg (by simp [hvalid]), if_neg hstar]
      exact iff_of_false (fun h => heq h.symm) hvalid

theorem splitQuery_rooted {e qs : Bytes} (hmark : 63 ∉ e)
    (hqs : qs = [] ∨ ∃ q, qs = 63 :: q) :
    (splitQuery (e ++ qs)).1 = e := by
  rcases hqs with rfl | ⟨q, rfl⟩
  · rw [List.append_nil, splitQuery, cutByte_eq_none.mpr hmark]
  · rw [splitQuery, cutByte_append hmark]
    cases q <;> rfl

theorem requestURI_rooted_iff {uri : Bytes} {u : URL}
    (h : parseRequestURI uri = some u) (hslash : uri.head? = some 47) :
    u.requestURI = uri ↔ validEncodedPath (splitQuery uri).1 = true := by
  obtain ⟨e, qs, path, rfl, hhead, hmark, hqs, _, _, hop, hsuffix, hun, hpath,
      hraw⟩ :=
    rooted_parts h hslash
  obtain ⟨_, hhead', _⟩ := escapedPath_again hhead hmark hun hpath hraw
  have hne : u.escapedPath ≠ [] := by
    intro hnil
    rw [hnil] at hhead'
    cases hhead'
  rw [URL.requestURI, hop, if_pos rfl, if_neg hne, hsuffix,
    splitQuery_rooted hmark hqs, List.append_left_inj]
  exact escapedPath_eq_iff hhead hun hpath hraw

theorem getscheme_go {whole s scheme rest : Bytes} (seen : Bytes)
    (hwhole : whole = seen ++ s)
    (h : getscheme.go whole s seen = some (scheme, rest)) :
    (scheme = [] ∧ rest = whole) ∨
      (scheme ≠ [] ∧ whole = scheme ++ 58 :: rest) := by
  induction s generalizing seen with
  | nil =>
      cases h
      exact .inl ⟨rfl, rfl⟩
  | cons c s ih =>
      have hnext : whole = (seen ++ [c]) ++ s := by
        rw [hwhole, List.append_assoc]; rfl
      rw [getscheme.go] at h
      split at h
      · exact ih _ hnext h
      · split at h
        · split at h
          · cases h
            exact .inl ⟨rfl, rfl⟩
          · exact ih _ hnext h
        · split at h
          · next hcolon =>
              split at h
              · cases h
              · next hseen =>
                  cases h
                  exact .inr ⟨hseen, by rw [hwhole, hcolon]⟩
          · cases h
            exact .inl ⟨rfl, rfl⟩

/-- What is split off is put back. -/
theorem splitQuery_suffix (rest : Bytes) (u : URL)
    (hforce : u.forceQuery = (splitQuery rest).2.1)
    (hraw : u.rawQuery = (splitQuery rest).2.2) :
    (splitQuery rest).1 ++ u.querySuffix = rest ∧ 63 ∉ (splitQuery rest).1 := by
  rw [URL.querySuffix, hforce, hraw]
  unfold splitQuery
  split
  · next hnone => exact ⟨by simp, cutByte_eq_none.mp hnone⟩
  · next p hcut =>
      obtain ⟨hrest, hnot⟩ := cutByte_eq_some.mp hcut
      exact ⟨by rw [hrest]; rfl, hnot⟩
  · next p q hne hcut =>
      obtain ⟨hrest, hnot⟩ := cutByte_eq_some.mp hcut
      refine ⟨?_, hnot⟩
      dsimp only
      rw [if_pos (by simpa using hne), hrest]

/-- A path that begins with a slash or is not there is written with one. -/
theorem head_requestURI {u : URL} (hop : u.opaqueData = [])
    (hpath : u.escapedPath = [] ∨ u.escapedPath.head? = some 47) :
    u.requestURI.head? = some 47 := by
  rw [URL.requestURI, hop, if_pos rfl]
  rcases hpath with hnil | hhead
  · rw [hnil]
    rfl
  · rw [if_neg, List.head?_append, hhead]
    · rfl
    · intro hnil
      rw [hnil] at hhead
      cases hhead

theorem head_requestURI_setPath {u₀ u : URL} {p : Bytes}
    (hop : u₀.opaqueData = []) (hp : p = [] ∨ p.head? = some 47)
    (hmark : 63 ∉ p) (h : u₀.setPath p = some u) :
    u.opaqueData = [] ∧ u.requestURI.head? = some 47 := by
  obtain ⟨path, hun, rfl⟩ := Option.map_eq_some_iff.mp h
  refine ⟨hop, head_requestURI hop ?_⟩
  rcases hp with rfl | hhead
  · cases hun
    exact .inl rfl
  · exact .inr (escapedPath_again hhead hmark hun rfl rfl).2.1

theorem slash_isPrefixOf {s : Bytes} :
    (lit "/").isPrefixOf s = true ↔ s.head? = some 47 := by
  cases s with
  | nil => decide
  | cons c s =>
      have hiff : (lit "/").isPrefixOf (c :: s) = (47 == c) := by
        simp [lit, List.isPrefixOf]
      rw [hiff, beq_iff_eq, List.head?_cons, Option.some.injEq, eq_comm]

/-- A target is written with a slash at its front, or without its scheme. -/
theorem requestURI_cases {uri : Bytes} {u : URL}
    (h : parseRequestURI uri = some u) :
    uri = lit "*" ∨ ∃ scheme after, getscheme uri = some (scheme, after) ∧
      ((u.opaqueData = [] ∧ u.requestURI.head? = some 47) ∨
        (scheme ≠ [] ∧ after.head? ≠ some 47 ∧ u.requestURI = after)) := by
  unfold parseRequestURI at h
  split at h
  · cases h
  · split at h
    · next hstar => exact .inl hstar
    · split at h
      · cases h
      · next scheme after hscheme =>
          refine .inr ⟨scheme, after, hscheme, ?_⟩
          obtain ⟨hjoin, hmark⟩ := splitQuery_suffix after
            { scheme := toLower scheme, opaqueData := (splitQuery after).1
              forceQuery := (splitQuery after).2.1,
                rawQuery := (splitQuery after).2.2 } rfl rfl
          dsimp only at h
          split at h
          · next hroot =>
              split at h
              · next hne =>
                  cases h
                  by_cases hnil : (splitQuery after).1 = []
                  · exact .inl ⟨hnil, head_requestURI hnil (.inl rfl)⟩
                  · have hslash : ¬ (lit "//").isPrefixOf (splitQuery after).1 =
                        true := by
                      cases hs : (splitQuery after).1 with
                      | nil => decide
                      | cons c s =>
                        rw [hs] at hroot
                        simp [lit, List.isPrefixOf] at hroot ⊢
                        exact fun hc => absurd hc hroot
                    have hafter : after.head? ≠ some 47 := by
                      have hrest : (splitQuery after).1.head? ≠ some 47 := by
                        intro hhead
                        rw [slash_isPrefixOf.mpr hhead] at hroot
                        cases hroot
                      rw [← hjoin]
                      cases hs : (splitQuery after).1 with
                      | nil => exact absurd hs hnil
                      | cons c s =>
                        rw [hs] at hrest
                        exact hrest
                    refine .inr ⟨hne, hafter, ?_⟩
                    rw [URL.requestURI]
                    dsimp only
                    rw [if_neg hnil, if_neg hslash]
                    exact hjoin
              · cases h
          · next hroot =>
              have hhead : (splitQuery after).1.head? = some 47 := by
                rw [← slash_isPrefixOf]
                simpa using hroot
              refine .inl ?_
              split at h
              · -- behind an authority
                split at h
                · cases h
                · next user host _ =>
                    refine head_requestURI_setPath rfl ?_ ?_ h
                    · split
                      · exact .inl rfl
                      · exact .inr rfl
                    · intro hm
                      refine hmark (List.mem_of_mem_drop (i := 2) ?_)
                      split at hm
                      · cases hm
                      · next a p hcut =>
                          rw [(cutByte_eq_some.mp hcut).1]
                          exact List.mem_append_right _ hm
              · exact head_requestURI_setPath rfl (.inr hhead) hmark h

/-- A target that is no path and no asterisk is not kept. -/
theorem requestURI_unrooted {uri : Bytes} {u : URL}
    (h : parseRequestURI uri = some u) (hslash : uri.head? ≠ some 47)
    (hstar : uri ≠ lit "*") : u.requestURI ≠ uri := by
  intro heq
  rcases requestURI_cases h with hs | ⟨scheme, after, hscheme,
    ⟨_, hhead⟩ | ⟨hne, _, hafter⟩⟩
  · exact hstar hs
  · rw [heq] at hhead
    exact hslash hhead
  · rcases getscheme_go [] rfl hscheme with ⟨hnil, _⟩ | ⟨_, huri⟩
    · exact hne hnil
    · have hlen := congrArg List.length huri
      rw [List.nil_append, ← heq, hafter, List.length_append,
        List.length_cons] at hlen
      omega

/-- A target is kept exactly if it is a validly encoded path or an asterisk. -/
theorem requestURI_eq_iff {uri : Bytes} {u : URL}
    (h : parseRequestURI uri = some u) :
    u.requestURI = uri ↔
      (uri.head? = some 47 ∧ validEncodedPath (splitQuery uri).1 = true) ∨
        uri = lit "*" := by
  by_cases hslash : uri.head? = some 47
  · have hstar : uri ≠ lit "*" := by
      rintro rfl
      exact absurd hslash (by decide)
    rw [requestURI_rooted_iff h hslash, and_iff_right hslash, or_iff_left hstar]
  · by_cases hstar : uri = lit "*"
    · subst hstar
      cases h
      exact iff_of_true (by decide) (.inr rfl)
    · refine iff_of_false (requestURI_unrooted h hslash hstar) ?_
      rintro (⟨hs, _⟩ | hs)
      · exact hslash hs
      · exact hstar hs

end Netramesh.Net
