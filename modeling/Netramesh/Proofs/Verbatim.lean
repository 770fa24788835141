import Netramesh.Proofs.Names
import Netramesh.Proofs.Requests
import Netramesh.Protocol.Routing

/-!
# What a message keeps on its way

A message is read into a header map and written from it again. On the way in the
fields that frame it are taken out, `Host` becomes a field of its own, a
`Pragma: no-cache` gains a `Cache-Control`; on the way out the target is put
together from the parsed URL, the host is cleaned, a `User-Agent` is made up and
a `Connection: close` is added. Everything else stays, and this file says so
name by name.
-/

namespace Netramesh.Proofs

open Http Net Protocol Lib

/-! ## The other fields -/

/-- Only the fields that frame a message have changed. -/
def Reframed (h h' : Header) : Prop :=
  ∀ k, isFramingKey k = false → h'.entries.lookup k = h.entries.lookup k

namespace Reframed

variable {h h' h'' : Header}

theorem refl (h : Header) : Reframed h h := fun _ _ => rfl

theorem trans (hr : Reframed h h') (hr' : Reframed h' h'') : Reframed h h'' :=
  fun k hk => (hr' k hk).trans (hr k hk)

theorem delete (h : Header) {k : Bytes} (hk : isFramingKey k = true) :
    Reframed h (h.delete k) := by
  intro k' hk'
  refine Header.lookup_delete_of_ne ?_
  rintro rfl
  rw [hk] at hk'
  cases hk'

theorem put (h : Header) {k : Bytes} (hk : isFramingKey k = true)
    (vs : List Bytes) :
    Reframed h (h.put k vs) := by
  intro k' hk'
  refine Header.lookup_put_of_ne ?_
  rintro rfl
  rw [hk] at hk'
  cases hk'

theorem values (hr : Reframed h h') {k : Bytes} (hk : isFramingKey k = false) :
    h'.values k = h.values k := by
  rw [Header.values, Header.values, hr k hk]

end Reframed

theorem fixTransferEncoding_reframed {major minor : Nat} {h h' : Header}
    {te : List Bytes} (hok : fixTransferEncoding major minor h = .ok (te, h')) :
    Reframed h h' := by
  unfold fixTransferEncoding at hok
  split at hok
  · dsimp only at hok
    have hdel := Reframed.delete h (k := lit "Transfer-Encoding") (by decide)
    split at hok
    · cases hok
      exact hdel
    · split at hok
      · cases hok
      · split at hok
        · cases hok
        · split at hok
          · cases hok
            exact hdel.trans (.delete _ (by decide))
          · cases hok
            exact hdel
  · cases hok
    exact .refl h

theorem dedupContentLength_reframed {h h' : Header}
    (hok : dedupContentLength h = .ok h') :
    Reframed h h' := by
  unfold dedupContentLength at hok
  split at hok
  · split at hok
    · cases hok
      have hdel : Reframed h (h.del (lit "Content-Length")) :=
        .delete _ (by decide)
      exact hdel.trans (.put _ (by decide) _)
    · cases hok
  · cases hok
    exact .refl h

theorem fixLength_reframed {isResponse : Bool} {status : Nat} {method : Bytes}
    {h h' : Header} {te : List Bytes} {n : Int}
    (hok : fixLength isResponse status method h te = .ok (n, h')) :
    Reframed h h' := by
  unfold fixLength at hok
  split at hok
  · cases hok
  · next h₁ hdedup =>
      have hh₁ := dedupContentLength_reframed hdedup
      dsimp only at hok
      split at hok
      · split at hok
        · cases hok
        · cases hok
          exact hh₁
      · split at hok
        · cases hok
          exact hh₁
        · split at hok
          · cases hok
            exact hh₁
          · split at hok
            all_goals
              split at hok
              · obtain ⟨m, _, hm⟩ := map_eq_ok hok
                cases hm
                exact hh₁
              · split at hok
                  <;> (cases hok; exact hh₁.trans (.delete _ (by decide)))

theorem fixTrailer_reframed {h h' : Header} {te : List Bytes}
    {trailer : Option Header} (hok : fixTrailer h te = .ok (trailer, h')) :
    Reframed h h' := by
  unfold fixTrailer at hok
  have hdel : Reframed h (h.del (lit "Trailer")) := .delete _ (by decide)
  split at hok
  · dsimp only at hok
    split at hok
    · cases hok
    · split at hok
      · cases hok
        exact hdel
      · split at hok
        · cases hok
        · cases hok
          exact hdel
  · cases hok
    exact .refl h

/-- `readTransfer` takes nothing out but framing, once `shouldClose` is done. -/
theorem TransferSteps.reframed {isResponse close : Bool} {status : Nat}
    {method : Bytes} {major minor : Nat} {h : Header} {t : Transfer}
    (st : TransferSteps isResponse status method major minor close h t) :
    Reframed st.h₀ t.header := by
  have hheader : t.header = st.h₃ := congrArg Transfer.header st.eq
  rw [hheader]
  exact ((fixTransferEncoding_reframed st.encodings).trans
    (fixLength_reframed st.length)).trans
    (fixTrailer_reframed st.trailers)

/-- A `Cache-Control` is made up. -/
def addsCacheControl (h : Header) : Bool :=
  h.first (lit "Pragma") == lit "no-cache" && !h.has (lit "Cache-Control")

theorem values_fixPragma (h : Header) :
    (fixPragmaCacheControl h).values (lit "Cache-Control")
      = if addsCacheControl h then [lit "no-cache"]
        else h.values (lit "Cache-Control") := by
  unfold fixPragmaCacheControl addsCacheControl
  split
  · next hadd =>
      rw [if_pos (by simpa using hadd), Header.values_put_self]
  · next hadd => rw [if_neg (by simpa using hadd)]

/-- A made-up `Cache-Control` shows. -/
theorem cacheControl_iff (h : Header) :
    ((if addsCacheControl h then [lit "no-cache"]
      else h.values (lit "Cache-Control")).map
        sanitizeValue).Perm (h.values (lit "Cache-Control")) ↔
      ¬ (lit "Cache-Control" = lit "Cache-Control" ∧
        addsCacheControl h = true) ∧
        ∀ v ∈ h.values (lit "Cache-Control"), sanitizeValue v = v := by
  cases hadd : addsCacheControl h with
  | true =>
    have hnil : h.values (lit "Cache-Control") = [] := by
      refine Header.values_eq_nil_of_not_has ?_
      simp only [addsCacheControl, Bool.and_eq_true, Bool.not_eq_true'] at hadd
      exact hadd.2
    rw [if_pos rfl, hnil]
    refine iff_of_false (fun hperm => ?_) fun hnot => hnot.1 ⟨rfl, rfl⟩
    exact absurd hperm.length_eq (by decide)
  | false =>
    rw [if_neg (by simp), perm_sanitize_iff]
    exact (and_iff_right (by simp)).symm

/-! ## Requests -/

section Request

variable {C : Type} (cfg : HTTPConfig) (route : FieldName)

/-- A field that is neither framing nor one of the headers the proxy sets. -/
def foreign (k : Bytes) : Bool :=
  !isFramingKey k && !isTraceKey k &&
    k != canonicalKey cfg.requestIdHeaderName.1 &&
    k != canonicalKey cfg.xSourceHeaderName.1 && k != canonicalKey route.1

variable {cfg route}

theorem foreign_iff {k : Bytes} : foreign cfg route k = true ↔
    isFramingKey k = false ∧ isTraceKey k = false ∧
      k ≠ canonicalKey cfg.requestIdHeaderName.1 ∧
      k ≠ canonicalKey cfg.xSourceHeaderName.1 ∧ k ≠ canonicalKey route.1 := by
  simp only [foreign, Bool.and_eq_true, Bool.not_eq_true', bne_iff_ne,
    and_assoc]

variable {isInbound : Bool} {tr : Tracer C}

theorem editHeader_lookup {k : Bytes} (hk : foreign cfg route k = true)
    (cache : List (Bytes × C)) (uuid : Bytes) (h : Header) :
    (editHeader cfg isInbound tr cache uuid h).entries.lookup k =
      h.entries.lookup k := by
  obtain ⟨_, htrace, hid, hsource, _⟩ := foreign_iff.mp hk
  have hraw : k ≠ traceContextHeaderName := by
    rintro rfl
    exact absurd htrace (by decide)
  unfold editHeader
  dsimp only
  split
  · split
    · exact Header.lookup_put_of_ne hid
    · rfl
  · have hlast : ∀ h' : Header, (if h'.get cfg.xSourceHeaderName.1 = [] then
        h'.set cfg.xSourceHeaderName.1 cfg.xSourceValue.1
          else h').entries.lookup k
        = h'.entries.lookup k := by
      intro h'
      split
      · exact Header.lookup_put_of_ne hsource
      · rfl
    have hfirst : (if cfg.requestId h = [] then
      h.set cfg.requestIdHeaderName.1 uuid
        else h).entries.lookup k = h.entries.lookup k := by
      split
      · exact Header.lookup_put_of_ne hid
      · rfl
    rw [hlast]
    split
    · rw [Header.lookup_put_of_ne hraw, hfirst]
    · exact hfirst

/-- What the proxy sets on a request leaves its other fields alone. -/
theorem outgoing_lookup {k : Bytes} (hk : foreign cfg route k = true)
    (t : Trip C) (value : Option Bytes) (r : Request) :
    (outgoing cfg isInbound tr t
      (withRoute route value r)).header.entries.lookup k
      = r.header.entries.lookup k := by
  obtain ⟨_, htrace, _, _, hroute⟩ := foreign_iff.mp hk
  have hcanonical : k ≠ canonicalKey traceContextHeaderName := by
    rintro rfl
    exact absurd htrace (by decide)
  have hrouted : (withRoute route value r).header.entries.lookup k =
      r.header.entries.lookup k := by
    cases value with
    | none => rfl
    | some v => exact Header.lookup_put_of_ne hroute
  rw [← hrouted]
  unfold outgoing
  dsimp only
  split
  · exact editHeader_lookup hk _ _ _
  · refine (Header.lookup_put_of_ne hcanonical).trans ?_
    exact editHeader_lookup hk _ _ _

variable (cfg route isInbound tr) in
theorem outgoing_same (t : Trip C) (value : Option Bytes) (r : Request) :
    let r' := outgoing cfg isInbound tr t (withRoute route value r)
    r'.method = r.method ∧ r'.url = r.url ∧ r'.host = r.host ∧
      r'.close = r.close := by
  cases value <;> (unfold outgoing; dsimp only; split
    <;> exact ⟨rfl, rfl, rfl, rfl⟩)

end Request

/-! ### The first line -/

/-- The way through `requestLine`. -/
theorem requestLine_cases {raw : Bytes} {l : RequestLine}
    (h : requestLine raw = .ok l) :
    l.method ≠ [] ∧ parseHTTPVersion l.proto = some (l.major, l.minor) ∧
      ((l.method = lit "CONNECT" ∧ l.requestURI.head? ≠ some 47 ∧
          ∃ u, parseRequestURI (lit "http://" ++ l.requestURI) = some u ∧
            l.url = { u with scheme := [] }) ∨
        (¬ (l.method = lit "CONNECT" ∧ l.requestURI.head? ≠ some 47) ∧
          parseRequestURI l.requestURI = some l.url)) := by
  unfold requestLine at h
  split at h
  · cases h
  · next method uri proto hparse =>
      split at h
      · cases h
      · next hvalid =>
          have hmethod : method ≠ [] := by
            rintro rfl
            exact hvalid rfl
          split at h
          · cases h
          · next major minor hversion =>
              dsimp only at h
              split at h
              · cases h
              · next url hurl =>
                  cases h
                  refine ⟨hmethod, hversion, ?_⟩
                  by_cases hauth : method = lit "CONNECT" ∧ uri.head? ≠ some 47
                  · rw [if_pos hauth] at hurl
                    refine .inl ⟨hauth.1, hauth.2, url, hurl, ?_⟩
                    dsimp only
                    rw [if_pos hauth]
                  · rw [if_neg hauth] at hurl
                    refine .inr ⟨hauth, ?_⟩
                    dsimp only
                    rw [if_neg hauth]
                    exact hurl

/-- A target that is written as it was read: a validly encoded path, an
asterisk, or the authority of a `CONNECT` that is the host itself. -/
def TargetKept (l : RequestLine) (host : Bytes) : Prop :=
  (l.requestURI.head? = some 47 ∧ validEncodedPath (splitQuery l.requestURI).1 =
    true) ∨ (l.method ≠ lit "CONNECT" ∧ l.requestURI = lit "*") ∨
    (l.method = lit "CONNECT" ∧ l.requestURI.head? ≠ some 47 ∧ l.url.path = [] ∧
      l.requestURI = host)

theorem target_iff {raw : Bytes} {l : RequestLine} (h : requestLine raw = .ok l)
    (host : Bytes) :
    (if l.method = lit "CONNECT" ∧ l.url.path =
      [] then host else l.url.requestURI) = l.requestURI ↔
      TargetKept l host := by
  obtain ⟨_, _, ⟨hconnect, hslash, u, hu, hurl⟩ | ⟨hplain, hu⟩⟩ :=
    requestLine_cases h
  · by_cases hpath : l.url.path = []
    · rw [if_pos ⟨hconnect, hpath⟩]
      constructor
      · exact fun heq => .inr (.inr ⟨hconnect, hslash, hpath, heq.symm⟩)
      · rintro (⟨hs, _⟩ | ⟨hne, _⟩ | ⟨_, _, _, heq⟩)
        · exact absurd hs hslash
        · exact absurd hconnect hne
        · exact heq.symm
    · rw [if_neg fun h => hpath h.2]
      have hhead : l.url.requestURI.head? = some 47 := by
        rcases requestURI_cases hu with hstar | ⟨scheme, after, hscheme,
          ⟨hop, hhead⟩ | ⟨_, hne, _⟩⟩
        · cases hstar
        · rw [hurl]
          unfold URL.requestURI at hhead ⊢
          dsimp only
          rw [hop, if_pos rfl] at hhead ⊢
          exact hhead
        · have hafter : getscheme (lit "http://" ++ l.requestURI)
              = some (lit "http", lit "//" ++ l.requestURI) := rfl
          rw [hafter] at hscheme
          cases hscheme
          exact absurd rfl hne
      refine iff_of_false ?_ ?_
      · intro heq
        rw [heq] at hhead
        exact hslash hhead
      · rintro (⟨hs, _⟩ | ⟨hne, _⟩ | ⟨_, _, hnil, _⟩)
        · exact hslash hs
        · exact hne hconnect
        · exact hpath hnil
  · have hbranch : ¬ (l.method = lit "CONNECT" ∧ l.url.path = []) := by
      rintro ⟨hconnect, hpath⟩
      have hslash : l.requestURI.head? = some 47 := by
        by_contra hs
        exact hplain ⟨hconnect, hs⟩
      obtain ⟨e, _, path, _, hhead, _, _, _, _, _, _, hun, hp, _⟩ :=
        rooted_parts hu hslash
      have := unescape_head hhead hun
      rw [← hp, hpath] at this
      cases this
    rw [if_neg hbranch, requestURI_eq_iff hu]
    constructor
    · rintro (hrooted | hstar)
      · exact .inl hrooted
      · refine .inr (.inl ⟨fun hconnect => hplain ⟨hconnect, ?_⟩, hstar⟩)
        rw [hstar]
        decide
    · rintro (hrooted | ⟨_, hstar⟩ | ⟨hconnect, hslash, _⟩)
      · exact .inl hrooted
      · exact .inr hstar
      · exact absurd ⟨hconnect, hslash⟩ hplain

/-! ### The fields -/

/-- `Connection: close` is the only field of `writeHeader` that is not
framing. -/
theorem under_frameLines (t : TransferWriter) {k : Bytes}
    (hk : isFramingKey k = false) :
    under k (frameLines t) =
      if k = lit "Connection" ∧ (t.close &&
        !hasToken (t.header.first (lit "Connection")) (lit "close"))
        then [lit "close"] else [] := by
  have hother : ∀ k' v, isFramingKey k' = true → under k [(k', v)] = [] := by
    intro k' v hk'
    have hne : k' ≠ k := by
      rintro rfl
      rw [hk] at hk'
      cases hk'
    simp [under, hne]
  have hlength : under k (if t.shouldSendContentLength then
      [(lit "Content-Length", itoa t.contentLength.toNat)]
      else if chunked t.transferEncoding then [(lit "Transfer-Encoding",
        lit "chunked")] else [])
      = [] := by
    split
    · exact hother _ _ (by decide)
    · split
      · exact hother _ _ (by decide)
      · rfl
  have htrailer : under k (if trailerKeys t = [] then []
      else [(lit "Trailer", List.intercalate [44] (trailerKeys t))]) = [] := by
    split
    · rfl
    · exact hother _ _ (by decide)
  rw [frameLines, under_append, under_append, hlength, htrailer,
    List.append_nil, List.append_nil]
  by_cases hclose : (t.close &&
    !hasToken (t.header.first (lit "Connection")) (lit "close")) = true
  · rw [if_pos hclose]
    by_cases hconn : k = lit "Connection"
    · rw [if_pos ⟨hconn, hclose⟩, hconn]
      rfl
    · rw [if_neg fun h => hconn h.1]
      simp [under, Ne.symm hconn]
  · rw [if_neg hclose, if_neg fun h => hclose h.2]
    rfl

/-- The headers the proxy sets are none that `Request.write` makes up. -/
structure ForeignNames (cfg : HTTPConfig) (route : FieldName) : Prop where
  host : foreign cfg route (lit "Host") = true
  userAgent : foreign cfg route (lit "User-Agent") = true
  connection : foreign cfg route (lit "Connection") = true
  cacheControl : foreign cfg route (lit "Cache-Control") = true

/-- The host a request is written with. -/
def sentHost (idna : Bytes → Option Bytes) (l : RequestLine) (h : Header) :
    Bytes :=
  let host := cleanHost idna
    (if l.url.host = [] then h.first (lit "Host") else l.url.host)
  removeZone (if host = [] then cleanHost idna l.url.host else host)

/-- What becomes of the head that was read: the request line `l` and the fields
`h`. -/
structure FinishedRequest (l : RequestLine) (h : Header) (r : Request) :
    Prop where
  method : r.method = l.method
  url : r.url = l.url
  host : r.host = if l.url.host = [] then h.first (lit "Host") else l.url.host
  noHost : r.header.values (lit "Host") = []
  lookup : ∀ k, isFramingKey k = false → k ≠ lit "Host" →
    k ≠ lit "Cache-Control" → r.header.entries.lookup k = h.entries.lookup k
  cacheControl : r.header.values (lit "Cache-Control") =
    if addsCacheControl h then [lit "no-cache"]
      else h.values (lit "Cache-Control")
  close : l.proto = lit "HTTP/1.1" → l.major = 1 → l.minor = 1 →
    r.close = headerValuesContainsToken (h.values (lit "Connection"))
      (lit "close")

theorem finishedRequest {l : RequestLine} {h : Header} {r : Request}
    (hfin : finishRequest l h = .ok r) : FinishedRequest l h r := by
  unfold finishRequest at hfin
  dsimp only at hfin
  split at hfin
  · cases hfin
  · next t ht =>
      obtain ⟨st⟩ := readTransfer_eq_ok ht
      cases hfin
      have hshould :
        (shouldClose l.major l.minor
        (fixPragmaCacheControl (h.delete (lit "Host")))
          false).2 = fixPragmaCacheControl (h.delete (lit "Host")) := by
        unfold shouldClose
        split
        · rfl
        · dsimp only
          split
          · rfl
          · rw [Bool.and_false, if_neg (by simp)]
      have hreframed := TransferSteps.reframed st
      have hzero : st.h₀ = fixPragmaCacheControl (h.delete (lit "Host")) := by
        have := congrArg Prod.snd st.closes
        rw [if_neg (by simp)] at this
        exact this.symm.trans hshould
      rw [hzero] at hreframed
      refine ⟨rfl, rfl, rfl, ?_, ?_, ?_, ?_⟩
      · rw [hreframed.values (by decide), Header.values,
          fixPragma_lookup (by decide)]
        exact Header.values_delete_self _ _
      · intro k hk hhost hcc
        rw [hreframed k hk, fixPragma_lookup hcc,
          Header.lookup_delete_of_ne hhost]
      · have hadds : addsCacheControl (h.delete (lit "Host")) =
            addsCacheControl h := by
          rw [addsCacheControl, addsCacheControl, Header.first, Header.first,
            Header.values_delete_of_ne (by decide),
              Header.has_delete_of_ne (by decide)]
        rw [hreframed.values (by decide), values_fixPragma, hadds,
          Header.values_delete_of_ne (by decide)]
      · intro hproto hmajor hminor
        have hclose : t.close = (shouldClose l.major l.minor
            (fixPragmaCacheControl (h.delete (lit "Host"))) false).1 := by
          have hstart := congrArg Prod.fst st.closes
          rw [if_neg (by simp)] at hstart
          have := congrArg Transfer.close st.eq
          simp only [Bool.false_and, Bool.or_false] at this
          exact this.trans hstart.symm
        have hh2 : isH2Upgrade l t.header = false := by
          rw [isH2Upgrade, hproto]
          simp [lit]
        dsimp only
        rw [hclose, hh2, Bool.or_false, hmajor, hminor, shouldClose,
          if_neg (by decide), if_neg (by decide)]
        have hconn : (fixPragmaCacheControl (h.delete (lit "Host"))).values
          (lit "Connection")
            = h.values (lit "Connection") := by
          rw [Header.values, fixPragma_lookup (by decide)]
          exact Header.values_delete_of_ne (by decide)
        rw [hconn]

/-! ### Name by name -/

theorem under_requestLines_host (idna : Bytes → Option Bytes) (r : Request) :
    under (lit "Host") (requestLines idna r) = [r.outgoingHost idna] := by
  have hua : under (lit "Host") (if r.outgoingUserAgent ≠ [] then
      [(lit "User-Agent", r.outgoingUserAgent)] else []) = [] := by
    split <;> rfl
  rw [requestLines, under_append, under_append, under_append, hua,
    under_frameLines _ (by decide),
    if_neg (by simp [lit]), under_fieldLines_excluded _ (by decide)]
  rfl

theorem under_requestLines_userAgent (idna : Bytes → Option Bytes)
    (r : Request) :
    under (lit "User-Agent") (requestLines idna r)
      = if r.outgoingUserAgent ≠ [] then [r.outgoingUserAgent] else [] := by
  have hhost : under (lit "User-Agent") [(lit "Host", r.outgoingHost idna)] =
    [] := rfl
  have hframe : under (lit "User-Agent") (frameLines (newRequestWriter r)) =
      [] := by
    rw [under_frameLines _ (by decide), if_neg (by simp [lit])]
  rw [requestLines, under_append, under_append, under_append, hhost, hframe,
    under_fieldLines_excluded _ (by decide), List.append_nil, List.append_nil,
      List.nil_append]
  split <;> rfl

theorem under_requestLines_other (idna : Bytes → Option Bytes) (r : Request)
    {k : Bytes} (hk : isFramingKey k = false) (hhost : k ≠ lit "Host")
    (hua : k ≠ lit "User-Agent") :
    under k (requestLines idna r) =
      (if k = lit "Connection" ∧
        (r.close && !hasToken (r.header.first (lit "Connection")) (lit "close"))
        then [lit "close"] else []) ++
          (r.header.values k).map sanitizeValue := by
  have hexclude : k ∉ reqWriteExcludeHeader := by
    simp only [isFramingKey, Bool.or_eq_false_iff, beq_eq_false_iff_ne] at hk
    simp only [reqWriteExcludeHeader, List.mem_cons, List.not_mem_nil, or_false,
      not_or]
    exact ⟨hhost, hua, hk.1.2, hk.1.1, hk.2⟩
  have hfirst : under k [(lit "Host", r.outgoingHost idna)] = [] := by
    simp [under, Ne.symm hhost]
  have hsecond : under k (if r.outgoingUserAgent ≠ [] then
      [(lit "User-Agent", r.outgoingUserAgent)] else []) = [] := by
    split
    · simp [under, Ne.symm hua]
    · rfl
  rw [requestLines, under_append, under_append, under_append, hfirst, hsecond,
    under_frameLines _ hk, under_fieldLines _ hexclude]
  rfl

/-- An added value shows, and so does a changed one. -/
theorem perm_added_iff {added : Prop} [Decidable added] {v : Bytes}
    {vs : List Bytes} :
    ((if added then [v] else []) ++ vs.map sanitizeValue).Perm vs ↔
      ¬ added ∧ ∀ v ∈ vs, sanitizeValue v = v := by
  by_cases h : added
  · rw [if_pos h]
    refine iff_of_false (fun hperm => ?_) fun hnot => hnot.1 h
    have hlen := hperm.length_eq
    rw [List.length_append, List.length_map] at hlen
    simp at hlen
  · rw [if_neg h, List.nil_append, perm_sanitize_iff]
    exact (and_iff_right h).symm

/-- The `User-Agent` is kept exactly if there is one and it is not empty. -/
theorem userAgent_iff {h : Header} (hh : PlainHeader h) {r : Request}
    (hlookup : r.header.entries.lookup (lit "User-Agent") =
      h.entries.lookup (lit "User-Agent")) :
    (if r.outgoingUserAgent ≠ [] then [r.outgoingUserAgent] else []).Perm
        (h.values (lit "User-Agent")) ↔
      ∃ ua, ua ≠ [] ∧ h.values (lit "User-Agent") = [ua] := by
  have hua : r.outgoingUserAgent =
    if h.has (lit "User-Agent") then h.first (lit "User-Agent")
      else lit "Go-http-client/1.1" := by
    rw [Request.outgoingUserAgent, Header.has, Header.first, Header.values,
      hlookup]
    rfl
  cases hhas : h.has (lit "User-Agent") with
  | false =>
    rw [hhas, if_neg (by simp)] at hua
    rw [hua, Header.values_eq_nil_of_not_has hhas]
    refine iff_of_false (fun hperm => ?_) ?_
    · exact absurd hperm.length_eq (by decide)
    · rintro ⟨ua, _, hnil⟩
      cases hnil
  | true =>
    rw [hhas, if_pos rfl, Header.first] at hua
    rw [hua]
    obtain ⟨vs, hmem⟩ : ∃ vs, (lit "User-Agent", vs) ∈ h.entries := by
      obtain ⟨vs, hvs⟩ := Option.isSome_iff_exists.mp hhas
      exact ⟨vs, Header.mem_iff_lookup.mpr hvs⟩
    rw [Header.values_of_mem hmem]
    obtain ⟨v, rest, rfl⟩ := List.exists_cons_of_ne_nil (hh _ hmem).values_ne
    rw [List.headD_cons]
    by_cases hv : v = []
    · rw [if_neg (by simp [hv])]
      refine iff_of_false (fun hperm => ?_) ?_
      · exact absurd hperm.length_eq (by simp)
      · rintro ⟨ua, hne, heq⟩
        exact hne ((List.cons.inj heq).1.symm.trans hv)
    · rw [if_pos hv]
      constructor
      · intro hperm
        exact ⟨v, hv, (List.singleton_perm.mp hperm).symm⟩
      · rintro ⟨ua, _, heq⟩
        obtain ⟨rfl, rfl⟩ := List.cons.inj heq
        exact .refl _

/-! ### Requests that are kept -/

section Written

variable {C : Type} (idna : Bytes → Option Bytes) (cfg : HTTPConfig)
  (route : FieldName)

/-- The request `r` goes out with the head that was read: the line `l` and, but
for framing and the headers the proxy sets, the fields `h`. -/
def SameRequestHead (l : RequestLine) (h : Header) (r : Request) : Prop :=
  (r.method = l.method ∧ r.outgoingURI idna = l.requestURI ∧
    l.proto = lit "HTTP/1.1") ∧
    ((requestLines idna r).filter fun f => foreign cfg route f.1).Perm
      ((fieldsOf h.entries).filter fun f => foreign cfg route f.1)

/-- When it does. -/
structure KeptRequest (l : RequestLine) (h : Header) : Prop where
  version : l.proto = lit "HTTP/1.1"
  target : TargetKept l (sentHost idna l h)
  host : h.values (lit "Host") = [sentHost idna l h]
  userAgent : ∃ ua, ua ≠ [] ∧ h.values (lit "User-Agent") = [ua]
  cacheControl : addsCacheControl h = false
  connection : headerValuesContainsToken (h.values (lit "Connection"))
    (lit "close") = true →
    hasToken (h.first (lit "Connection")) (lit "close") = true
  values : ∀ k, foreign cfg route k = true → k ≠ lit "Host" →
    k ≠ lit "User-Agent" → ∀ v ∈ h.values k, sanitizeValue v = v

variable {idna cfg route} {isInbound : Bool} {tr : Tracer C}

/-- The fields, name by name. -/
theorem fields_iff {l : RequestLine} {h : Header} {r : Request}
    (hh : PlainHeader h) (hnames : ForeignNames cfg route)
    (hhost : r.outgoingHost idna = sentHost idna l h)
    (hlookup : ∀ k, foreign cfg route k = true → k ≠ lit "Host" →
      k ≠ lit "Cache-Control" → r.header.entries.lookup k = h.entries.lookup k)
    (hcc : r.header.values (lit "Cache-Control") =
      if addsCacheControl h then [lit "no-cache"]
      else h.values (lit "Cache-Control"))
    (hclose : r.close = headerValuesContainsToken (h.values (lit "Connection"))
      (lit "close")) :
    ((requestLines idna r).filter fun f => foreign cfg route f.1).Perm
        ((fieldsOf h.entries).filter fun f => foreign cfg route f.1) ↔
      h.values (lit "Host") = [sentHost idna l h] ∧
      (∃ ua, ua ≠ [] ∧ h.values (lit "User-Agent") = [ua]) ∧
      addsCacheControl h = false ∧
      (headerValuesContainsToken (h.values (lit "Connection")) (lit "close") =
        true → hasToken (h.first (lit "Connection")) (lit "close") = true) ∧
      ∀ k, foreign cfg route k = true → k ≠ lit "Host" → k ≠ lit "User-Agent" →
        ∀ v ∈ h.values k, sanitizeValue v = v := by
  have hfirst : r.header.first (lit "Connection") =
      h.first (lit "Connection") := by
    rw [Header.first, Header.first, Header.values, Header.values,
      hlookup _ hnames.connection (by decide) (by decide)]
  have hunder : ∀ k, foreign cfg route k = true →
      (under k ((requestLines idna r).filter fun f => foreign cfg route f.1) =
        under k (requestLines idna r) ∧
      under k ((fieldsOf h.entries).filter fun f => foreign cfg route f.1) =
        h.values k) := by
    intro k hk
    rw [under_filter, under_filter, if_pos hk, if_pos hk, under_fieldsOf]
    exact ⟨rfl, rfl⟩
  -- a name of its own kind
  have hother : ∀ k, foreign cfg route k = true → k ≠ lit "Host" →
    k ≠ lit "User-Agent" →
      ((under k (requestLines idna r)).Perm (h.values k) ↔
        ¬ (k = lit "Connection" ∧ (r.close &&
          !hasToken (h.first (lit "Connection")) (lit "close")) = true) ∧
        ¬ (k = lit "Cache-Control" ∧ addsCacheControl h = true) ∧
        ∀ v ∈ h.values k, sanitizeValue v = v) := by
    intro k hk hkh hku
    rw [under_requestLines_other idna r (foreign_iff.mp hk).1 hkh hku, hfirst]
    by_cases hkc : k = lit "Cache-Control"
    · subst hkc
      rw [hcc, if_neg (by simp [lit]), List.nil_append, cacheControl_iff]
      exact (and_iff_right (by simp [lit])).symm
    · have hvalues : r.header.values k = h.values k := by
        rw [Header.values, Header.values, hlookup k hk hkh hkc]
      rw [hvalues, perm_added_iff]
      constructor
      · exact fun h => ⟨h.1, fun hc => hkc hc.1, h.2⟩
      · exact fun h => ⟨h.1, h.2.2⟩
  rw [perm_iff_under]
  constructor
  · intro hperm
    have hfor : ∀ k, foreign cfg route k = true →
        (under k (requestLines idna r)).Perm (h.values k) := by
      intro k hk
      have := hperm k
      rw [(hunder k hk).1, (hunder k hk).2] at this
      exact this
    refine ⟨?_, ?_, ?_, ?_, ?_⟩
    · have := hfor _ hnames.host
      rw [under_requestLines_host, hhost] at this
      exact (List.singleton_perm.mp this).symm
    · have := hfor _ hnames.userAgent
      rw [under_requestLines_userAgent] at this
      exact (userAgent_iff hh (hlookup _ hnames.userAgent
        (by decide) (by decide))).mp this
    · have := ((hother _ hnames.cacheControl (by decide) (by decide)).mp
        (hfor _ hnames.cacheControl)).2.1
      cases hadd : addsCacheControl h with
      | true => exact absurd ⟨rfl, hadd⟩ this
      | false => rfl
    · intro htoken
      have := ((hother _ hnames.connection (by decide) (by decide)).mp
        (hfor _ hnames.connection)).1
      by_contra hno
      rw [Bool.not_eq_true] at hno
      exact this ⟨rfl, by rw [hclose, htoken, hno]; rfl⟩
    · intro k hk hkh hku
      exact ((hother k hk hkh hku).mp (hfor k hk)).2.2
  · rintro ⟨hhosts, hagent, hadds, hconn, hclean⟩ k
    cases hk : foreign cfg route k with
    | false =>
      rw [under_filter, under_filter, hk]
      exact .refl _
    | true =>
      rw [(hunder k hk).1, (hunder k hk).2]
      by_cases hkh : k = lit "Host"
      · subst hkh
        rw [under_requestLines_host, hhost, hhosts]
      · by_cases hku : k = lit "User-Agent"
        · subst hku
          rw [under_requestLines_userAgent]
          exact (userAgent_iff hh (hlookup _ hk
            (by decide) (by decide))).mpr hagent
        · refine (hother k hk hkh hku).mpr ⟨?_, ?_, hclean k hk hkh hku⟩
          · rintro ⟨_, hadded⟩
            rw [Bool.and_eq_true, hclose] at hadded
            rw [hconn hadded.1] at hadded
            cases hadded.2
          · rintro ⟨_, hadd⟩
            rw [hadds] at hadd
            cases hadd

/-- A request keeps its head exactly if nothing in it calls for a change. -/
theorem requestHead_iff (hnames : ForeignNames cfg route) {raw : Bytes}
    {l : RequestLine} {h : Header} {r : Request}
    (hline : requestLine raw = .ok l) (hh : PlainHeader h)
    (hfin : finishRequest l h = .ok r) (t : Trip C) (value : Option Bytes) :
    SameRequestHead idna cfg route l h
      (outgoing cfg isInbound tr t (withRoute route value r)) ↔
      KeptRequest idna cfg route l h := by
  have hf := finishedRequest hfin
  obtain ⟨hmethod, hurl, hhost, hclose⟩ :=
    outgoing_same cfg route isInbound tr t value r
  generalize hr : outgoing cfg isInbound tr t (withRoute route value r) =
    r' at *
  have hlookup : ∀ k, foreign cfg route k = true → r'.header.entries.lookup k
      = r.header.entries.lookup k := by
    intro k hk
    rw [← hr]
    exact outgoing_lookup hk t value r
  have hsent : r'.outgoingHost idna = sentHost idna l h := by
    rw [Request.outgoingHost, hhost, hurl, hf.host, hf.url]
    rfl
  have htarget : r'.outgoingURI idna = l.requestURI ↔
      TargetKept l (sentHost idna l h) := by
    rw [Request.outgoingURI, hmethod, hurl, hf.method, hf.url, hsent]
    exact target_iff hline _
  have hfields := fun hversion : l.proto = lit "HTTP/1.1" => by
    obtain ⟨_, hparse, _⟩ := requestLine_cases hline
    rw [hversion] at hparse
    obtain ⟨hmajor, hminor⟩ := Prod.mk.inj (Option.some.inj hparse)
    refine fields_iff (r := r') (l := l) hh hnames hsent ?_ ?_ ?_
    · intro k hk hkh hkc
      rw [hlookup k hk, hf.lookup k (foreign_iff.mp hk).1 hkh hkc]
    · rw [Header.values, hlookup _ hnames.cacheControl]
      exact hf.cacheControl
    · rw [hclose]
      exact hf.close hversion hmajor.symm hminor.symm
  constructor
  · rintro ⟨⟨_, huri, hversion⟩, hperm⟩
    obtain ⟨h1, h2, h3, h4, h5⟩ := (hfields hversion).mp hperm
    exact ⟨hversion, htarget.mp huri, h1, h2, h3, h4, h5⟩
  · intro hk
    refine ⟨⟨hmethod.trans hf.method, htarget.mpr hk.target, hk.version⟩, ?_⟩
    exact (hfields hk.version).mpr
      ⟨hk.host, hk.userAgent, hk.cacheControl, hk.connection, hk.values⟩

end Written

end Netramesh.Proofs
