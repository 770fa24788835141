import Netramesh.Config.Global
import Netramesh.Proofs.Verbatim

/-!
# Configured tags

`StartRequest` sets the tags configured for headers and cookies on the span of
an inbound request, but only in the branch for a request without a trace
context. A request that brings one, as every request from a traced caller does,
gets a child span with none of them.

In the other branch the tags come from the header as the parser and
`HandleRequest` have left it. `Host`, the encodings and the announced trailer
are not in it any more, and an id that was generated is.
-/

namespace Netramesh.Proofs

open Http Protocol Config Lib

variable {C : Type}

/-- The tags that the maps ask for on the span of a request with the fields
`h`. -/
def Wanted (headersMap cookiesMap : List (Bytes × Bytes)) (h : Header)
    (tag : Bytes) (val : TagValue) : Prop :=
  (∃ name, (name, tag) ∈ headersMap ∧ h.get name ≠ [] ∧
    val = .str (h.get name)) ∨
    ∃ c ∈ readCookies h [], (c.1, tag) ∈ cookiesMap ∧ val = .str c.2

/-- The span carries the tags the configuration asks for, and no others. -/
def TagsMatch (g : Global) (h : Header) (span : Span C) : Prop :=
  ∀ tag val, (tag, val) ∈ span.tags ↔ Wanted g.headersMap g.cookiesMap h tag val

/-- Nothing in the request is configured as a tag. -/
def Untagged (g : Global) (h : Header) : Prop :=
  (∀ m ∈ g.headersMap, h.get m.1 = []) ∧
    ∀ m ∈ g.cookiesMap, ∀ c ∈ readCookies h [], c.1 ≠ m.1

instance (g : Global) (h : Header) : Decidable (Untagged g h) :=
  inferInstanceAs (Decidable (_ ∧ _))

/-! ## The header that is looked at -/

/-- What the parser leaves of the field `k` of a request with the fields `h`, as
`Get` finds it. -/
def parsedFirst (l : RequestLine) (h : Header) (k : Bytes) : Bytes :=
  if k = lit "Host" ∨ k = lit "Transfer-Encoding" ∨ k = lit "Trailer" then []
  else if k = lit "Content-Length" then
    if hasEncodings l.major l.minor && listsChunked h && !identityFirst h then []
    else if 1 < (h.values k).length ∨ trimSpace (h.first k) = [] then
      trimSpace (h.first k)
    else h.first k
  else if k = lit "Cache-Control" ∧ addsCacheControl h = true then
    lit "no-cache"
  else h.first k

/-- What was received under the name `k` is what `StartRequest` finds there: the
parser has left it, and it is not the id that was generated. -/
def Legible (cfg : HTTPConfig) (l : RequestLine) (h : Header) (uuid k : Bytes) :
    Prop :=
  (if k = canonicalKey cfg.requestIdHeaderName.1 ∧ parsedFirst l h k = [] then
    uuid else parsedFirst l h k) = h.first k

/-- Every configured header can be read as it was received, and so can the
cookies; a generated id is in their way only if the id is looked for under
`Cookie`. -/
structure AllLegible (g : Global) (cfg : HTTPConfig) (l : RequestLine)
    (h : Header) (uuid : Bytes) : Prop where
  headers : ∀ m ∈ g.headersMap, Legible cfg l h uuid (canonicalKey m.1)
  cookies : canonicalKey cfg.requestIdHeaderName.1 = lit "Cookie" →
    h.first (lit "Cookie") = [] → ∀ m ∈ g.cookiesMap, ∀ v, (m.1,
      v) ∈ readCookies (h.set (lit "Cookie") uuid) [] ↔
      (m.1, v) ∈ readCookies h []

theorem dedupContentLength_other {h h' : Header}
    (hok : dedupContentLength h = .ok h') {k : Bytes}
    (hk : k ≠ lit "Content-Length") : h'.values k = h.values k := by
  unfold dedupContentLength at hok
  split at hok
  · split at hok
    · cases hok
      exact (Header.values_put_of_ne hk).trans (Header.values_delete_of_ne hk)
    · cases hok
  · cases hok
    rfl

/-- What `fixLength` leaves of the fields of a request: the length goes if it is
blank. -/
theorem fixLength_header {method : Bytes} {h h' : Header} {te : List Bytes}
    {n : Int} (hte : chunked te = true → h.values (lit "Content-Length") = [])
    (hok : fixLength false 200 method h te = .ok (n, h')) :
    ∃ h₁, dedupContentLength h = .ok h₁ ∧
      ((h' = h₁ ∧ (trimSpace (h.first (lit "Content-Length")) = [] →
          h₁.values (lit "Content-Length") = [])) ∨
        (h' = h₁.del (lit "Content-Length") ∧
          trimSpace (h.first (lit "Content-Length")) = [])) := by
  unfold fixLength at hok
  split at hok
  · cases hok
  · next h₁ hdedup =>
      refine ⟨h₁, hdedup, ?_⟩
      have hvalues := dedupContentLength_values hdedup
      have hcl : ∀ {cl : Bytes}, cl =
        trimSpace (h.first (lit "Content-Length")) →
          (if cl ≠ [] then (parseContentLength cl).map fun n => (n, h₁)
            else .ok (0, h₁.del (lit "Content-Length"))) = .ok (n, h') →
          (h' = h₁ ∧ (trimSpace (h.first (lit "Content-Length")) = [] →
              h₁.values (lit "Content-Length") = [])) ∨
            (h' = h₁.del (lit "Content-Length") ∧
              trimSpace (h.first (lit "Content-Length")) = []) := by
        rintro cl rfl hok
        split at hok
        · next hne =>
            obtain ⟨_, _, heq⟩ := map_eq_ok hok
            cases heq
            exact .inl ⟨rfl, fun hnil => absurd hnil hne⟩
        · next hnil =>
            cases hok
            exact .inr ⟨rfl, Decidable.not_not.mp hnil⟩
      dsimp only at hok
      split at hok
      · split at hok
        · cases hok
        · next hbad =>
            cases hok
            refine .inl ⟨rfl, fun hnil => ?_⟩
            rcases hvalues with ⟨hv, _⟩ | ⟨v, hv, htrim⟩
            · exact hv
            · -- a HEAD that announces a length of zero
              rw [hv] at hbad
              obtain rfl : v = lit "0" := by
                by_contra hne
                exact hbad (by simp [hne])
              rw [hnil] at htrim
              cases htrim
      · rw [if_neg (by decide)] at hok
        split at hok
        · next hch =>
            cases hok
            refine .inl ⟨rfl, fun _ => ?_⟩
            rw [dedupContentLength_eq hdedup, hte hch]
            rfl
        · rcases hvalues with ⟨hv, hnil⟩ | ⟨v, hv, htrim⟩
          · rw [hv] at hok
            exact hcl (by rw [hnil]; rfl) hok
          · rw [hv] at hok
            exact hcl htrim hok

theorem fixLength_other {method : Bytes} {h h' : Header} {te : List Bytes}
    {n : Int} (hte : chunked te = true → h.values (lit "Content-Length") = [])
    (hok : fixLength false 200 method h te = .ok (n, h')) {k : Bytes}
    (hk : k ≠ lit "Content-Length") : h'.values k = h.values k := by
  obtain ⟨h₁, hdedup, ⟨rfl, _⟩ | ⟨rfl, _⟩⟩ := fixLength_header hte hok
  · exact dedupContentLength_other hdedup hk
  · exact (Header.values_delete_of_ne hk).trans
      (dedupContentLength_other hdedup hk)

theorem fixLength_first {method : Bytes} {h h' : Header} {te : List Bytes}
    {n : Int} (hte : chunked te = true → h.values (lit "Content-Length") = [])
    (hok : fixLength false 200 method h te = .ok (n, h')) :
    h'.first (lit "Content-Length") =
      if 1 < (h.values (lit "Content-Length")).length ∨
          trimSpace (h.first (lit "Content-Length")) = [] then
        trimSpace (h.first (lit "Content-Length"))
      else h.first (lit "Content-Length") := by
  obtain ⟨h₁, hdedup, ⟨rfl, hblank⟩ | ⟨rfl, hnil⟩⟩ := fixLength_header hte hok
  · by_cases hnil : trimSpace (h.first (lit "Content-Length")) = []
    · rw [Header.first, hblank hnil, if_pos (.inr hnil), hnil]
      rfl
    · rw [Header.first, dedupContentLength_eq hdedup]
      by_cases hlong : 1 < (h.values (lit "Content-Length")).length
      · rw [if_pos hlong, if_pos (.inl hlong)]
        rfl
      · rw [if_neg hlong, if_neg (not_or.mpr ⟨hlong, hnil⟩)]
        rfl
  · rw [if_pos (.inr hnil), hnil, Header.first, Header.del]
    exact congrArg (List.headD · []) (Header.values_delete_self _ _)

theorem fixTransferEncoding_gone {major minor : Nat} {h h' : Header}
    {te : List Bytes} (hok : fixTransferEncoding major minor h = .ok (te, h')) :
    h'.values (lit "Transfer-Encoding") = [] ∧
      h'.values (lit "Trailer") = h.values (lit "Trailer") := by
  have hdel : (h.delete (lit "Transfer-Encoding")).values (lit "Trailer") =
      h.values (lit "Trailer") :=
    Header.values_delete_of_ne (by decide)
  unfold fixTransferEncoding at hok
  split at hok
  · dsimp only at hok
    split at hok
    · cases hok
      exact ⟨Header.values_delete_self _ _, hdel⟩
    · split at hok
      · cases hok
      · split at hok
        · cases hok
        · split at hok
          · cases hok
            refine ⟨(Header.values_delete_of_ne
              (by decide)).trans (Header.values_delete_self _ _), ?_⟩
            exact (Header.values_delete_of_ne (by decide)).trans hdel
          · cases hok
            exact ⟨Header.values_delete_self _ _, hdel⟩
  · next hhas =>
      cases hok
      exact ⟨Header.values_eq_nil_of_not_has (Bool.not_eq_true _ ▸ hhas), rfl⟩

theorem fixTrailer_gone {h h' : Header} {te : List Bytes}
    {trailer : Option Header} (hok : fixTrailer h te = .ok (trailer, h')) :
    h'.values (lit "Trailer") = [] := by
  unfold fixTrailer at hok
  split at hok
  · dsimp only at hok
    split at hok
    · cases hok
    · split at hok
      · cases hok
        exact Header.values_delete_self _ _
      · split at hok
        · cases hok
        · cases hok
          exact Header.values_delete_self _ _
  · next hhas =>
      cases hok
      exact Header.values_eq_nil_of_not_has (Bool.not_eq_true _ ▸ hhas)

/-- The header of a request that was read, field by field. -/
theorem first_parsed {l : RequestLine} {h : Header} {r : Request}
    (hr : finishRequest l h = .ok r) (k : Bytes) :
    r.header.first k = parsedFirst l h k := by
  have hfin := finishedRequest hr
  unfold finishRequest at hr
  dsimp only at hr
  split at hr
  · cases hr
  · next t ht =>
      obtain ⟨st⟩ := readTransfer_eq_ok ht
      have hlook : ∀ {k : Bytes}, k ≠ lit "Connection" →
        k ≠ lit "Cache-Control" →
          k ≠ lit "Host" → st.h₀.values k = h.values k := by
        intro k hc hp hh
        have hclosed : _ = st.h₀ := congrArg Prod.snd st.closes
        rw [← hclosed, Header.values, Header.values]
        refine congrArg (Option.getD · []) ?_
        exact (shouldClose_lookup hc).trans
          ((fixPragma_lookup hp).trans (Header.lookup_delete_of_ne hh))
      have hheader : r.header = st.h₃ := by
        cases hr
        exact congrArg Transfer.header st.eq
      obtain ⟨hlist, hid⟩ := listsChunked_congr
        (hlook (k := lit "Transfer-Encoding")
          (by decide) (by decide) (by decide))
      have hcl := hlook (k := lit "Content-Length")
        (by decide) (by decide) (by decide)
      have hencodings := fixTransferEncoding_received st.encodings
      rw [hlist, hid, hcl] at hencodings
      have hte : chunked st.te = true → st.h₁.values (lit "Content-Length") =
          [] := by
        intro hch
        rcases hencodings with ⟨_, _, _, _, hnil⟩ | ⟨hnil, _⟩
        · exact hnil
        · rw [hnil] at hch
          cases hch
      unfold parsedFirst
      split
      · next hgone =>
          rw [Header.first]
          rcases hgone with rfl | rfl | rfl
          · rw [hfin.noHost]
            rfl
          · rw [hheader, fixTrailer_values st.trailers (by decide),
              fixLength_other hte st.length (by decide),
                (fixTransferEncoding_gone st.encodings).1]
            rfl
          · rw [hheader, fixTrailer_gone st.trailers]
            rfl
      · next hkept =>
          rw [not_or, not_or] at hkept
          split
          · next hk =>
              subst hk
              rw [hheader, Header.first,
                fixTrailer_values st.trailers (by decide)]
              have hfirst := fixLength_first hte st.length
              rw [Header.first] at hfirst
              rcases hencodings with ⟨_, hversion, hlists, hident, hnil⟩
                | ⟨_, hmixed, hsame⟩
              · rw [hversion, hlists, hident, if_pos (by decide), hfirst,
                  Header.first, hnil]
                rfl
              · rw [if_neg, hfirst, Header.first, Header.first, hsame]
                intro hch
                rw [Bool.and_eq_true, Bool.and_eq_true,
                  Bool.not_eq_true'] at hch
                rw [hmixed hch.1.1 hch.1.2] at hch
                exact absurd hch.2 (by decide)
          · next hlen =>
              have hframing : isFramingKey k = false := by
                simp only [isFramingKey, Bool.or_eq_false_iff,
                  beq_eq_false_iff_ne]
                exact ⟨⟨hkept.2.1, hlen⟩, hkept.2.2⟩
              split
              · next hadd =>
                  obtain ⟨rfl, hadd⟩ := hadd
                  rw [Header.first, hfin.cacheControl, if_pos hadd]
                  rfl
              · next hadd =>
                  by_cases hcc : k = lit "Cache-Control"
                  · subst hcc
                    rw [Header.first, hfin.cacheControl,
                      if_neg fun h => hadd ⟨rfl, h⟩]
                    rfl
                  · rw [Header.first, Header.values,
                      hfin.lookup k hframing hkept.1 hcc]
                    rfl

section Edited

variable {cfg : HTTPConfig} {tr : Tracer C} {cache : List (Bytes × C)}
  {uuid : Bytes}

/-- On an inbound connection the header is changed for an id only. -/
theorem first_edited (g : Header) (k : Bytes) :
    (editHeader cfg true tr cache uuid g).first k =
      if k = canonicalKey cfg.requestIdHeaderName.1 ∧ g.first k = [] then uuid
      else g.first k := by
  have hid : cfg.requestId g =
    g.first (canonicalKey cfg.requestIdHeaderName.1) := rfl
  unfold editHeader
  dsimp only
  rw [if_pos rfl, hid]
  by_cases hk : k = canonicalKey cfg.requestIdHeaderName.1
  · subst hk
    by_cases hnil : g.first (canonicalKey cfg.requestIdHeaderName.1) = []
    · rw [if_pos hnil, if_pos ⟨rfl, hnil⟩, Header.first, Header.set,
        Header.values_put_self]
      rfl
    · rw [if_neg hnil, if_neg fun h => hnil h.2]
  · have hno : ¬ (k = canonicalKey cfg.requestIdHeaderName.1 ∧
      g.first k = []) := fun h => hk h.1
    rw [if_neg hno]
    split
    · rw [Header.first, Header.set, Header.values_put_of_ne hk]
      rfl
    · rfl

theorem readCookies_congr {g h : Header}
    (hv : g.values (lit "Cookie") = h.values (lit "Cookie")) :
    readCookies g [] = readCookies h [] := by
  rw [readCookies, readCookies, hv]

theorem readCookies_edited {l : RequestLine} {h : Header} {r : Request}
    (hr : finishRequest l h = .ok r) :
    readCookies (editHeader cfg true tr cache uuid r.header) [] =
      if canonicalKey cfg.requestIdHeaderName.1 = lit "Cookie" ∧
        h.first (lit "Cookie") = [] then
        readCookies (h.set (lit "Cookie") uuid) []
      else readCookies h [] := by
  have hvalues : r.header.values (lit "Cookie") = h.values (lit "Cookie") := by
    rw [Header.values, Header.values,
      (finishedRequest hr).lookup _ (by decide) (by decide)
      (by decide)]
  have hid : cfg.requestId r.header =
    r.header.first (canonicalKey cfg.requestIdHeaderName.1) := rfl
  unfold editHeader
  dsimp only
  rw [if_pos rfl, hid]
  by_cases hk : canonicalKey cfg.requestIdHeaderName.1 = lit "Cookie"
  · rw [hk, Header.first, hvalues, ← Header.first]
    by_cases hnil : h.first (lit "Cookie") = []
    · rw [if_pos hnil, if_pos ⟨rfl, hnil⟩]
      refine readCookies_congr ?_
      rw [Header.set, Header.set, hk, Header.values_put_self]
      exact (Header.values_put_self _ _ _).symm
    · rw [if_neg hnil, if_neg fun h => hnil h.2]
      exact readCookies_congr hvalues
  · have hno : ¬ (canonicalKey cfg.requestIdHeaderName.1 = lit "Cookie" ∧
        h.first (lit "Cookie") = []) := fun h => hk h.1
    rw [if_neg hno]
    refine readCookies_congr ?_
    split
    · rw [Header.set, Header.values_put_of_ne (Ne.symm hk)]
      exact hvalues
    · exact hvalues

end Edited

/-! ## The tags of a span -/

theorem lookup_eq_some_iff_mem {m : List (Bytes × Bytes)}
    (h : (m.map Prod.fst).Nodup) {k v : Bytes} :
    m.lookup k = some v ↔ (k, v) ∈ m := by
  induction m with
  | nil => simp
  | cons e m ih =>
      obtain ⟨k', v'⟩ := e
      rw [List.map_cons, List.nodup_cons] at h
      rw [List.lookup_cons, List.mem_cons, ← ih h.2]
      by_cases hk : k = k'
      · subst hk
        have hnone : m.lookup k = none := by
          rw [List.lookup_eq_none_iff]
          intro p hp
          rw [bne_iff_ne]
          intro hkey
          exact h.1 (List.mem_map.mpr ⟨p, hp, hkey.symm⟩)
        simp [hnone, eq_comm]
      · have hbeq : (k == k') = false := beq_eq_false_iff_ne.mpr hk
        simp [hbeq, hk]

/-- The tags of a root span are the configured ones, in whatever order the maps
are gone through. -/
theorem mem_requestTags {g : Global} {cfg : HTTPConfig}
    (hheaders : cfg.headersMap.Perm g.headersMap)
    (hcookies : cfg.cookiesMap.Perm g.cookiesMap)
    (hnodup : (g.cookiesMap.map Prod.fst).Nodup) (r : Request) (tag : Bytes)
    (val : TagValue) :
    (tag, val) ∈ requestTags cfg r ↔
      Wanted g.headersMap g.cookiesMap r.header tag val := by
  have hkeys : (cfg.cookiesMap.map Prod.fst).Nodup :=
    (hcookies.map Prod.fst).nodup_iff.mpr hnodup
  rw [requestTags, List.mem_append, List.mem_filterMap, List.mem_filterMap]
  refine or_congr ?_ ?_
  · constructor
    · rintro ⟨⟨name, tag'⟩, hm, heq⟩
      dsimp only at heq
      split at heq
      · next hne =>
          cases heq
          exact ⟨name, hheaders.mem_iff.mp hm, hne, rfl⟩
      · cases heq
    · rintro ⟨name, hm, hne, rfl⟩
      refine ⟨(name, tag), hheaders.mem_iff.mpr hm, ?_⟩
      dsimp only
      rw [if_pos hne]
  · constructor
    · rintro ⟨c, hc, heq⟩
      obtain ⟨tag', hlookup, heq⟩ := Option.map_eq_some_iff.mp heq
      cases heq
      exact ⟨c, hc,
        hcookies.mem_iff.mp ((lookup_eq_some_iff_mem hkeys).mp hlookup), rfl⟩
    · rintro ⟨c, hc, hm, rfl⟩
      refine ⟨c, hc, ?_⟩
      rw [(lookup_eq_some_iff_mem hkeys).mpr (hcookies.mem_iff.mpr hm)]
      rfl

/-- Nothing is wanted exactly of an untagged request. -/
theorem untagged_iff {g : Global} {h : Header} :
    Untagged g h ↔ ∀ tag val, ¬ Wanted g.headersMap g.cookiesMap h tag val := by
  constructor
  · rintro ⟨hh, hc⟩ tag val (⟨name, hm, hne, _⟩ | ⟨c, hmem, hm, _⟩)
    · exact hne (hh _ hm)
    · exact hc _ hm c hmem rfl
  · intro h
    refine ⟨?_, ?_⟩
    · intro m hm
      by_contra hne
      exact h m.2 _ (.inl ⟨m.1, hm, hne, rfl⟩)
    · rintro m hm c hmem heq
      exact h m.2 _ (.inr ⟨c, hmem, by rw [heq]; exact hm, rfl⟩)

/-- No tag is given to two headers or cookies. -/
def DistinctTags (g : Global) : Prop :=
  ((g.headersMap ++ g.cookiesMap).map Prod.snd).Nodup

instance (g : Global) : Decidable (DistinctTags g) :=
  inferInstanceAs (Decidable (List.Nodup _))

section Distinct

variable {g : Global} (hd : DistinctTags g) {h : Header} {name tag : Bytes}
include hd

theorem wanted_header (hm : (name, tag) ∈ g.headersMap) (val : TagValue) :
    Wanted g.headersMap g.cookiesMap h tag val ↔
      h.get name ≠ [] ∧ val = .str (h.get name) := by
  constructor
  · rintro (⟨name', hm', hne, hval⟩ | ⟨c, _, hm', _⟩)
    · have heq := List.inj_on_of_nodup_map hd (List.mem_append_left _ hm)
        (List.mem_append_left _ hm') rfl
      cases heq
      exact ⟨hne, hval⟩
    · rw [DistinctTags, List.map_append, List.nodup_append] at hd
      exact absurd rfl (hd.2.2 tag (List.mem_map.mpr ⟨_, hm, rfl⟩) tag
        (List.mem_map.mpr ⟨_, hm', rfl⟩))
  · rintro ⟨hne, hval⟩
    exact .inl ⟨name, hm, hne, hval⟩

theorem wanted_cookie (hm : (name, tag) ∈ g.cookiesMap) (val : TagValue) :
    Wanted g.headersMap g.cookiesMap h tag val ↔
      ∃ v, (name, v) ∈ readCookies h [] ∧ val = .str v := by
  constructor
  · rintro (⟨name', hm', _, _⟩ | ⟨c, hc, hm', hval⟩)
    · rw [DistinctTags, List.map_append, List.nodup_append] at hd
      exact absurd rfl (hd.2.2 tag (List.mem_map.mpr ⟨_, hm', rfl⟩) tag
        (List.mem_map.mpr ⟨_, hm, rfl⟩))
    · have heq := List.inj_on_of_nodup_map hd (List.mem_append_right _ hm)
        (List.mem_append_right _ hm') rfl
      obtain ⟨c₁, c₂⟩ := c
      cases heq
      exact ⟨c₂, hc, hval⟩
  · rintro ⟨v, hv, hval⟩
    exact .inr ⟨(name, v), hv, hm, hval⟩

/-- Two headers ask for the same tags exactly if all that is configured is the
same. -/
theorem wanted_congr_iff {h' : Header} :
    (∀ tag val, Wanted g.headersMap g.cookiesMap h' tag val ↔
        Wanted g.headersMap g.cookiesMap h tag val) ↔
      (∀ m ∈ g.headersMap, h'.get m.1 = h.get m.1) ∧
        ∀ m ∈ g.cookiesMap, ∀ v, (m.1, v) ∈ readCookies h' [] ↔
          (m.1, v) ∈ readCookies h [] := by
  constructor
  · intro hall
    refine ⟨?_, ?_⟩
    · rintro ⟨name, tag⟩ hm
      have hiff := fun val => (wanted_header hd (h := h') hm val).symm.trans
        ((hall tag val).trans (wanted_header hd hm val))
      by_cases hnil : h.get name = []
      · by_contra hne
        have hne' : h'.get name ≠ [] := fun hnil' => hne (hnil'.trans hnil.symm)
        exact ((hiff _).mp ⟨hne', rfl⟩).1 hnil
      · have heq := ((hiff (.str (h.get name))).mpr ⟨hnil, rfl⟩).2
        exact (TagValue.str.inj heq).symm
    · rintro ⟨name, tag⟩ hm v
      have hiff := (wanted_cookie hd (h := h') hm (.str v)).symm.trans
        ((hall tag (.str v)).trans (wanted_cookie hd hm (.str v)))
      constructor
      · intro hv
        obtain ⟨v', hv', heq⟩ := hiff.mp ⟨v, hv, rfl⟩
        rw [TagValue.str.inj heq]
        exact hv'
      · intro hv
        obtain ⟨v', hv', heq⟩ := hiff.mpr ⟨v, hv, rfl⟩
        rw [TagValue.str.inj heq]
        exact hv'
  · rintro ⟨hheaders, hcookies⟩ tag val
    refine or_congr ?_ ?_
    · refine exists_congr fun name => and_congr_right fun hm => ?_
      rw [hheaders _ hm]
    · constructor
      · rintro ⟨c, hc, hm, hval⟩
        exact ⟨c, (hcookies _ hm c.2).mp hc, hm, hval⟩
      · rintro ⟨c, hc, hm, hval⟩
        exact ⟨c, (hcookies _ hm c.2).mpr hc, hm, hval⟩

end Distinct

/-- A span of an inbound request has the tags configured for what was received
exactly if it is a root span and all of that can be read, or there is nothing to
tag. -/
theorem tagsMatch_startSpan {getenv : Bytes → Bytes} {g : Global}
    (hload : globalConfigFromENV getenv = .ok g) (hd : DistinctTags g)
    {cfg : HTTPConfig} (hheaders : cfg.headersMap.Perm g.headersMap)
    (hcookies : cfg.cookiesMap.Perm g.cookiesMap) (tr : Tracer C) (n : Nat)
    {l : RequestLine} {h : Header} {r : Request}
    (hr : finishRequest l h = .ok r) (cache : List (Bytes × C)) (uuid : Bytes) :
    TagsMatch g h (startSpan cfg true tr n
      (editRequest cfg true tr cache uuid r)) ↔
      if tr.extract n (editRequest cfg true tr cache uuid r).header = none then
        AllLegible g cfg l h uuid
      else Untagged g h := by
  have hnodup : (g.cookiesMap.map Prod.fst).Nodup := by
    rw [(globalConfigFromENV_eq_ok hload).2.2]
    exact nodup_tagMap _
  have htags :
    (startSpan cfg true tr n (editRequest cfg true tr cache uuid r)).tags =
      if tr.extract n (editRequest cfg true tr cache uuid r).header = none then
        requestTags cfg (editRequest cfg true tr cache uuid r) else [] := by
    simp [startSpan]
  unfold TagsMatch
  rw [htags]
  split
  · have hmem := mem_requestTags hheaders hcookies hnodup
      (editRequest cfg true tr cache uuid r)
    have hsame : ∀ k, (editRequest cfg true tr cache uuid r).header.first k =
      h.first k ↔
        Legible cfg l h uuid k := by
      intro k
      have hedit : (editHeader cfg true tr cache uuid r.header).first k = _ :=
        first_edited r.header k
      rw [Legible, ← first_parsed hr, ← hedit]
      rfl
    simp only [hmem, wanted_congr_iff hd]
    rw [show (editRequest cfg true tr cache uuid r).header =
      editHeader cfg true tr cache uuid r.header from rfl,
        readCookies_edited hr]
    constructor
    · rintro ⟨hall, hcookie⟩
      refine ⟨fun m hm => (hsame _).mp (hall m hm), fun hid hnil m hm v => ?_⟩
      have hiff := hcookie m hm v
      rw [if_pos ⟨hid, hnil⟩] at hiff
      exact hiff
    · rintro ⟨hall, hcookie⟩
      refine ⟨fun m hm => (hsame _).mpr (hall m hm), fun m hm v => ?_⟩
      split
      · next hid => exact hcookie hid.1 hid.2 m hm v
      · exact Iff.rfl
  · simp only [List.not_mem_nil, false_iff]
    exact untagged_iff.symm

/-- The environment with the header `x-session` mapped to a tag. -/
def sessionEnv (name : Bytes) : Bytes :=
  if name = lit "HTTP_HEADER_TAG_MAP" then lit "x-session:http.session" else []

/-- The configuration it leads to. -/
def sessionGlobal : Global where
  headersMap := [(lit "x-session", lit "http.session")]

def sessionConfig : HTTPConfig :=
  { HTTPConfig.default with
    headersMap := [(lit "x-session", lit "http.session")] }

theorem sessionEnv_loads : globalConfigFromENV sessionEnv = .ok sessionGlobal :=
  rfl

theorem sessionGlobal_distinct : DistinctTags sessionGlobal := by decide +kernel

theorem sessionConfig_headers :
    sessionConfig.headersMap.Perm sessionGlobal.headersMap := .refl _

theorem sessionConfig_cookies :
    sessionConfig.cookiesMap.Perm sessionGlobal.cookiesMap := .refl _

/-- The reader before a request with a session and the given fields. -/
def sessionReader (fields : Bytes) : Reader Tee :=
  (Loop.init { data := lit "GET /a HTTP/1.1\r\nX-Session: 7\r\n" ++ fields ++
    crlf }).rd

/-- A request that was read is one whose head was received. -/
theorem received_entries {rd : Reader Tee} {raw : Bytes}
    {entries : List (Bytes × List Bytes)}
    (hok : (readRequest (onTmp TempWriter.start rd) :
      Except Net.Err Request × Reader Tee).1.isOk = true)
    (hline : (readLineSlice (onTmp TempWriter.start rd) :
      Except Net.Err Bytes × Reader Tee).1.toOption = some raw)
    (hfields : (readMIMEHeader (readLineSlice (onTmp TempWriter.start rd)).2 :
      Except Net.Err Header × Reader Tee).1.toOption.map Header.entries =
      some entries) :
    ∃ l h r rd', RequestReceived rd raw l h ∧
      readRequest (onTmp TempWriter.start rd) = (.ok r, rd') ∧
        h.entries = entries := by
  obtain ⟨r, hr⟩ := exists_of_isOk hok
  have hread : readRequest (onTmp TempWriter.start rd) =
      (.ok r, (readRequest (onTmp TempWriter.start rd)).2) := Prod.ext hr rfl
  obtain ⟨raw', l, h, hreceived⟩ := received_of_read hread
  obtain ⟨rfl, hentries⟩ := received_known _ _ hreceived hline hfields
  exact ⟨l, h, r, _, hreceived, hread, hentries⟩

theorem session_untraced_read : ∃ l h r rd',
    RequestReceived (sessionReader []) (lit "GET /a HTTP/1.1") l h ∧
      readRequest (onTmp TempWriter.start (sessionReader [])) = (.ok r, rd') ∧
      h.entries = [(lit "X-Session", [lit "7"])] :=
  received_entries (by decide +kernel) (by decide +kernel) (by decide +kernel)

theorem session_traced_read : ∃ l h r rd',
    RequestReceived (sessionReader (lit "Uber-Trace-Id: 1:2:0:1\r\n"))
      (lit "GET /a HTTP/1.1") l h ∧ readRequest (onTmp TempWriter.start
        (sessionReader (lit "Uber-Trace-Id: 1:2:0:1\r\n"))) =
        (.ok r, rd') ∧
      h.entries = [(lit "X-Session", [lit "7"]),
        (lit "Uber-Trace-Id", [lit "1:2:0:1"])] :=
  received_entries (by decide +kernel) (by decide +kernel) (by decide +kernel)

/-- The tracer finds what was received under its name. -/
theorem extract_received {l : RequestLine} {h : Header} {r : Request}
    (hr : finishRequest l h = .ok r) (n : Nat) (uuid : Bytes) :
    plainTracer.extract n (editRequest sessionConfig true plainTracer
      [] uuid r).header = none ↔
      h.first (lit "Uber-Trace-Id") = [] := by
  have hfirst :
    (editRequest sessionConfig true plainTracer [] uuid r).header.get
      traceContextHeaderName = h.first (lit "Uber-Trace-Id") := by
    have hkey : canonicalKey traceContextHeaderName = lit "Uber-Trace-Id" := by
      decide
    have hid : lit "Uber-Trace-Id" ≠
      canonicalKey sessionConfig.requestIdHeaderName.1 := by decide
    rw [Header.get, hkey, editRequest, first_edited, if_neg fun h => hid h.1,
      first_parsed hr, parsedFirst, if_neg (by decide), if_neg (by decide),
        if_neg fun h => absurd h.1 (by decide)]
  rw [← hfirst]
  unfold plainTracer
  dsimp only
  split
  · next hnil => exact iff_of_true rfl hnil
  · next hne => exact iff_of_false (Option.some_ne_none _) hne

/-- A session is legible. -/
theorem session_legible (l : RequestLine) (h : Header) (uuid : Bytes) :
    AllLegible sessionGlobal sessionConfig l h uuid := by
  refine ⟨fun m hm => ?_, fun hid => absurd hid (by decide)⟩
  have hkey : canonicalKey m.1 = lit "X-Session" := by
    rw [List.mem_singleton.mp hm]
    decide
  have hid : lit "X-Session" ≠
    canonicalKey sessionConfig.requestIdHeaderName.1 := by decide
  rw [hkey, Legible, if_neg fun h => hid h.1, parsedFirst, if_neg (by decide),
    if_neg (by decide), if_neg fun h => absurd h.1 (by decide)]

end Netramesh.Proofs
