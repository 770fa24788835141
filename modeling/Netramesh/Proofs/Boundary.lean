import Netramesh.Proofs.Fallback
import Netramesh.Proofs.Fields
import Netramesh.Proofs.Received

/-!
# Messages start where messages end

A message ends where its header says: after so many bytes, behind the trailer of
a chunked body, or with the connection. The loops read the next message from
wherever the copy of the body stopped, and that is the same place if the copy
went through. It need not go through. A chunk that cannot be decoded, a write
that fails, a body the header announces and the parser does not hand out (a
chunked HEAD request) or hands out although there is none (the answer to a
HEAD), encodings of which the parser sees only the first: after each of these
the loop goes on inside the message.
-/

namespace Netramesh.Proofs

open Http Protocol Net Lib

/-! ## The end of a message -/

/-- At the front of `v` stands the complete body `data` with the trailer section
`hdr`, and behind it comes `rest`. -/
inductive Carries (fin : Err) : Framing → Bytes → Bytes → Option Header →
    Bytes → Prop
  | length {n : Nat} {v : Bytes} : n ≤ v.length →
      Carries fin (.length n) v (v.take n) none (v.drop n)
  | chunked {v data r rest : Bytes} {hdr : Option Header} :
      Chunks 0xfff v data (some r) →
      Parses readTrailer fin r hdr rest → Carries fin .chunked v data hdr rest
  | close {v : Bytes} : Carries fin .close v v none []

theorem Carries.of_close {fin : Err} {v data rest : Bytes} {hdr : Option Header}
    (h : Carries fin .close v data hdr rest) :
    data = v ∧ hdr = none ∧ rest = [] := by
  generalize hfr : Framing.close = fr at h
  cases h with
  | length _ => cases hfr
  | chunked _ _ => cases hfr
  | close => exact ⟨rfl, rfl, rfl⟩

theorem Carries.of_length {fin : Err} {n : Nat} {v data rest : Bytes}
    {hdr : Option Header} (h : Carries fin (.length n) v data hdr rest) :
    n ≤ v.length ∧ data = v.take n ∧ hdr = none ∧ rest = v.drop n := by
  generalize hfr : Framing.length n = fr at h
  cases h with
  | length hle =>
    cases hfr
    exact ⟨hle, rfl, rfl, rfl⟩
  | chunked _ _ => cases hfr
  | close => cases hfr

theorem Carries.of_chunked {fin : Err} {v data rest : Bytes}
    {hdr : Option Header} (h : Carries fin .chunked v data hdr rest) :
    ∃ r, Chunks 0xfff v data (some r) ∧ Parses readTrailer fin r hdr rest := by
  generalize hfr : Framing.chunked = fr at h
  cases h with
  | length _ => cases hfr
  | chunked hchunks hparse => exact ⟨_, hchunks, hparse⟩
  | close => cases hfr

/-- A complete body stands at the front of `v`, and `rest` behind it. -/
def Ends (fin : Err) (fr : Framing) (v rest : Bytes) : Prop :=
  ∃ data hdr, Carries fin fr v data hdr rest

/-- The stream ends inside the body, or right behind the last chunk. -/
inductive CutOff : Framing → Bytes → Prop
  | length {n : Nat} {v : Bytes} : v.length < n → CutOff (.length n) v
  | chunked {v data : Bytes} : Chunks 0xfff v data none → CutOff .chunked v
  | last {v data : Bytes} : Chunks 0xfff v data (some []) → CutOff .chunked v

/-- `rest` comes behind the first `k` messages of the stream `v`. -/
inductive Boundary {μ : Type} (read : Parser Tee Err μ)
    (framing : Nat → μ → Framing) (fin : Err) :
    Nat → Bytes → Bytes → Prop
  | start {v : Bytes} : Boundary read framing fin 0 v v
  | next {k : Nat} {v u u₁ u₂ : Bytes} {m : μ} :
      Boundary read framing fin k v u →
      Parses read fin u m u₁ → Ends fin (framing k m) u₁ u₂ →
        Boundary read framing fin (k + 1) v u₂

/-- The body behind the head is copied to its end: there is none, or no write
fails and it is complete or the stream ends with it. -/
def BodySound (fin : Err) (fr : Framing) (fails : List Bool) (v : Bytes) :
    Prop :=
  fr = .length 0 ∨ (NoFail fails ∧ ((∃ rest, Ends fin fr v rest) ∨ CutOff fr v))

/-- What is wanted of a request, whose head leaves `v`: nothing comes behind it,
or its encodings are not mixed up, it is no HEAD with a body, and the body is
sound. -/
def RequestSound (fin : Err) (fails : List Bool) (a : RequestLine × Header)
    (v : Bytes) : Prop :=
  v = [] ∨
    (Unmixed a.2 ∧ (a.1.method = methodHead →
    receivedRequest a.1 a.2 = .length 0) ∧
    BodySound fin (receivedRequest a.1 a.2) fails v)

/-- What is wanted of a response: an answer to a HEAD does not announce a
body. -/
def ResponseSound (answersHead : Bool) (fin : Err) (fails : List Bool)
    (a : StatusLine × Header) (v : Bytes) : Prop :=
  v = [] ∨
    (Unmixed a.2 ∧ (answersHead = true → receivedResponse false a.1 a.2 =
    .length 0) ∧ BodySound fin (receivedResponse answersHead a.1 a.2) fails v)

/-- What the copy needs of a message: it has a body exactly if the parser hands
one out; and then no write fails, and the body is complete or the stream ends
with it. -/
def Handed (fin : Err) (fr : Framing) (body : Option Body) (fails : List Bool)
    (v : Bytes) : Prop :=
  v = [] ∨ (fr = .length 0 ∧ body = none) ∨
    (fr ≠ .length 0 ∧ body ≠ none ∧ NoFail fails ∧
      ((∃ rest, Ends fin fr v rest) ∨ CutOff fr v))

/-- The body reader for a framing. -/
def bodyFor (cl : Bool) : Framing → Body
  | .length n => { src := .limited n, hdr := false, closing := cl }
  | .chunked => { src := .chunked {}, hdr := true, closing := cl }
  | .close => { src := .wire, hdr := false, closing := cl }

/-- A connection that does not end with `io.EOF` ends every body that lasts to
its end with an error. -/
theorem pending_of_carries {fin : Err} {fr : Framing} {v data rest : Bytes}
    {hdr : Option Header} (cl : Bool) (hfr : fr ≠ .length 0)
    (h : Carries fin fr v data hdr rest) :
    Pending fin (bodyFor cl fr) v data (some (rest, hdr)) ∨
      (fr = .close ∧ fin ≠ .eof ∧ rest = [] ∧
        Pending fin (bodyFor cl fr) v data none) := by
  cases h with
  | length hle =>
      exact .inl (.limited (Nat.pos_of_ne_zero fun h => hfr (by rw [h])) hle)
  | chunked hchunks hparse =>
      exact .inl (.chunked rfl (.line hchunks) (.full hparse))
  | close =>
    have hwire : Pending fin (bodyFor cl .close) v v _ := .wire
    by_cases hfin : fin = .eof
    · rw [if_pos hfin] at hwire
      exact .inl hwire
    · rw [if_neg hfin] at hwire
      exact .inr ⟨rfl, hfin, rfl, hwire⟩

theorem pending_of_cutOff (fin : Err) {fr : Framing} {v : Bytes} (cl : Bool)
    (h : CutOff fr v) :
    ∃ data, Pending fin (bodyFor cl fr) v data none := by
  cases h with
  | length hlt => exact ⟨_, .limitedCut hlt⟩
  | chunked hchunks => exact ⟨_, .chunked rfl (.line hchunks) .cut⟩
  | last hchunks => exact ⟨_, .chunked rfl (.line hchunks) .none⟩

/-! ## What the parsers hand out -/

/-- The body of a request that announces one. -/
theorem finishRequest_body {l : RequestLine} {h : Header} {r : Request}
    {b : Body} (hr : finishRequest l h = .ok r) (hb : r.body = some b)
    (hfr : requestFraming r ≠ .length 0) :
    (∃ cl, b = bodyFor cl (requestFraming r)) ∧
      (chunked r.transferEncoding = false → 0 < r.contentLength) := by
  unfold finishRequest at hr
  dsimp only at hr
  split at hr
  · cases hr
  · next t ht =>
      obtain ⟨st⟩ := readTransfer_eq_ok ht
      have hcl : t.contentLength = st.realLength := by
        have := st.announced
        simp only [Bool.false_and, Bool.false_eq_true, if_false,
          Except.ok.injEq] at this
        exact this.symm
      have hbody : t.body = transferBody 200 l.method t.transferEncoding
          t.contentLength t.close := by
        rw [hcl, congrArg Transfer.body st.eq,
          congrArg Transfer.transferEncoding st.eq]
      cases hr
      dsimp only [requestFraming] at hb hfr ⊢
      rw [hbody, transferBody] at hb
      cases hch : chunked t.transferEncoding with
      | true =>
        rw [hch] at hb
        simp only [if_true] at hb ⊢
        split at hb
        · cases hb
        · cases hb
          exact ⟨⟨_, rfl⟩, by simp⟩
      | false =>
        rw [hch] at hb hfr
        simp only [Bool.false_eq_true, if_false] at hb hfr ⊢
        -- a length that is not zero is the announced one
        split at hfr
        · exact absurd rfl hfr
        · next hh2 =>
            have hpos : 0 < t.contentLength := by
              by_contra hle
              exact hfr (by rw [Int.toNat_eq_zero.mpr (by omega)])
            rw [if_neg (by omega), if_pos hpos] at hb
            cases hb
            rw [if_neg hh2]
            exact ⟨⟨_, rfl⟩, fun _ => hpos⟩

theorem fixLength_of_chunked {isResponse : Bool} {status : Nat} {method : Bytes}
    {h h' : Header} {te : List Bytes} {n : Int}
    (hmethod : noResponseBodyExpected method = false)
    (hstatus : bodyAllowedForStatus status = true) (hte : chunked te = true)
    (hlen : fixLength isResponse status method h te = .ok (n, h')) :
    n = -1 := by
  have hno : ¬ (status / 100 = 1 ∨ status = 204 ∨ status = 304) := by
    simp only [bodyAllowedForStatus, Bool.and_eq_true, Bool.not_eq_true',
      bne_iff_ne, decide_eq_false_iff_not, Bool.and_eq_false_iff] at hstatus
    omega
  unfold fixLength at hlen
  split at hlen
  · cases hlen
  · dsimp only at hlen
    rw [hmethod, if_neg (by simp), if_neg hno, if_pos hte] at hlen
    cases hlen
    rfl

/-- The body of a response that announces one. -/
theorem finishResponse_body {l : StatusLine} {h : Header} {r : Response}
    {b : Body} {answersHead : Bool} (hr : finishResponse none l h = .ok r)
    (hb : r.body = some b) (hfr : responseFraming answersHead r ≠ .length 0) :
    (∃ cl, b = bodyFor cl (responseFraming answersHead r)) ∧
      (chunked r.transferEncoding = true → r.contentLength = -1) ∧
      (chunked r.transferEncoding = false → r.contentLength = -1 ∨
        0 < r.contentLength) := by
  unfold finishResponse at hr
  dsimp only at hr
  split at hr
  · cases hr
  · next t ht =>
      obtain ⟨st⟩ := readTransfer_eq_ok ht
      have hcl : t.contentLength = st.realLength := by
        have := st.announced
        rw [if_neg (by decide)] at this
        exact (Except.ok.inj this).symm
      have hte : t.transferEncoding = st.te :=
        congrArg Transfer.transferEncoding st.eq
      have hbody : t.body =
          transferBody l.statusCode (lit "GET") t.transferEncoding
            t.contentLength t.close := by
        rw [hcl, congrArg Transfer.body st.eq, hte]
        rfl
      cases hr
      dsimp only [responseFraming] at hb hfr ⊢
      rw [hbody, transferBody] at hb
      -- no HEAD, and a status that allows a body
      split at hfr
      · exact absurd rfl hfr
      · next hallowed =>
          rw [if_neg hallowed]
          simp only [Bool.or_eq_true, Bool.not_eq_true', not_or,
            Bool.not_eq_false] at hallowed
          cases hch : chunked t.transferEncoding with
          | true =>
            rw [hch, if_pos rfl, hallowed.2, if_neg (by decide)] at hb
            cases hb
            refine ⟨⟨_, rfl⟩, fun _ => ?_, by simp⟩
            rw [hcl]
            rw [hte] at hch
            exact fixLength_of_chunked (by decide) hallowed.2 hch st.length
          | false =>
            rw [hch] at hb hfr
            simp only [Bool.false_eq_true, if_false] at hb hfr ⊢
            split at hfr
            · next hminus =>
                rw [if_neg (by omega), if_neg (by omega)] at hb
                split at hb
                · cases hb
                  rw [if_pos hminus]
                  exact ⟨⟨_, rfl⟩, by simp, fun _ => .inl hminus⟩
                · cases hb
            · next hminus =>
                have hpos : 0 < t.contentLength := by
                  by_contra hle
                  exact hfr (by rw [Int.toNat_eq_zero.mpr (by omega)])
                rw [if_neg (by omega), if_pos hpos] at hb
                cases hb
                rw [if_neg hminus]
                exact ⟨⟨_, rfl⟩, by simp, fun _ => .inr hpos⟩

/-! ## The loops -/

/-- A loop whose messages end as `framing` says. -/
structure Frames {μ : Type} (H : Handler μ) (framing : Nat → μ → Framing) :
    Prop where
  conserves : Conserves H
  shrinks : Shrinks H.read
  stays : ∀ k m (c : Copy Tee), c.body = none → (H.forward k m c).2.rd = c.rd
  body : ∀ {k m rd rd' b}, H.read rd = (.ok m, rd') → H.body m = some b →
    framing k m ≠ .length 0 → ∃ cl, b = bodyFor cl (framing k m)
  drains : ∀ {k m rd rd' b c data o}, H.read rd = (.ok m, rd') →
    H.body m = some b → framing k m ≠ .length 0 → Ready c b data o →
    (H.forward k m c).2.rd.view = (o.map Prod.fst).getD []

theorem shrinks_readRequest :
    Shrinks (readRequest : Parser Tee Err Request) := by
  refine shrinks_readLineSlice.bind fun s => Lawful.mapError ?_ _
  refine (lawful_liftExcept _).bind fun l => ?_
  exact lawful_readMIMEHeader.bind fun h => lawful_liftExcept _

theorem shrinks_readResponse (method : Option Bytes) :
    Shrinks (readResponse method : Parser Tee Err Response) := by
  refine Shrinks.mapError (shrinks_readLineSlice.bind fun s => ?_) _
  refine (lawful_liftExcept _).bind fun l => ?_
  exact lawful_readMIMEHeader.bind fun h => lawful_liftExcept _

theorem bodyFor_left {cl : Bool} {fr : Framing} :
    Body.left (bodyFor cl fr) =
      match fr with | .length n => some n | _ => none := by
  cases fr <;> rfl

section Requests

variable {C : Type} (cfg : HTTPConfig) (isInbound : Bool) (tr : Tracer C)
  (idna : Bytes → Option Bytes) (trips : Nat → Trip C) (w : World)

/-- Editing the header leaves everything else of the request. -/
theorem outgoing_eq (t : Trip C) (r : Request) :
    outgoing cfg isInbound tr t r =
      { r with header := (outgoing cfg isInbound tr t r).header } := by
  unfold outgoing editRequest
  dsimp only
  split <;> rfl

theorem suits_request {r : Request} {b : Body} {cl : Bool} {h : Header}
    (hb : r.body = some b) (heq : b = bodyFor cl (requestFraming r))
    (hpos : chunked r.transferEncoding = false → 0 < r.contentLength) :
    Suits (newRequestWriter { r with header := h }) b := by
  cases hch : chunked r.transferEncoding with
  | true => exact .inl hch
  | false =>
    have hlen : (newRequestWriter { r with header := h }).contentLength =
        r.contentLength := by
      have := hpos hch
      simp only [newRequestWriter, sanitizeTransfer, Request.outgoingLength,
        if_true, hch, Bool.false_eq_true, if_false, hb]
      rw [if_pos (by omega)]
    have := hpos hch
    refine .inr (.inr ?_)
    rw [hlen, heq, bodyFor_left, requestFraming, if_neg (by simp [hch])]
    exact ⟨by omega, rfl⟩

theorem requestHandler_frames :
    Frames (requestHandler cfg isInbound tr idna trips w) fun _ =>
      requestFraming where
  conserves := requestHandler_conserves cfg isInbound tr idna trips w
  shrinks := shrinks_readRequest
  stays k m c hb := requestWrite_noBody_rd idna _ hb
  body hread hb hfr := by
    obtain ⟨_, l, h, _, _, _, _, hr⟩ := readRequest_parts hread
    exact (finishRequest_body hr hb hfr).1
  drains {k m rd rd' b c data o} hread hb hfr hready := by
    obtain ⟨_, l, h, _, _, _, _, hr⟩ := readRequest_parts hread
    obtain ⟨⟨cl, heq⟩, hpos⟩ := finishRequest_body hr hb hfr
    have hsuits :
        Suits (newRequestWriter (outgoing cfg isInbound tr (trips k) m)) b := by
      rw [outgoing_eq]
      exact suits_request hb heq hpos
    change ((outgoing cfg isInbound tr (trips k) m).write idna c).2.rd.view = _
    rw [requestWrite_eq idna _ hready.noFail]
    obtain ⟨ps, hw⟩ := (hready.afterHead _).writeBody hsuits
    exact hw.view

end Requests

theorem suits_response {r : Response} {b : Body} {cl answersHead : Bool}
    (heq : b = bodyFor cl (responseFraming answersHead r))
    (hfr : responseFraming answersHead r ≠ .length 0)
    (hch : chunked r.transferEncoding = true → r.contentLength = -1)
    (hno : chunked r.transferEncoding = false →
      r.contentLength = -1 ∨ 0 < r.contentLength) :
    Suits (newResponseWriter r.toWrite) b := by
  cases hte : chunked (newResponseWriter r.toWrite).transferEncoding with
  | true => exact .inl hte
  | false =>
    have hlen : (newResponseWriter r.toWrite).contentLength =
        r.contentLength := by
      have hte' := hte
      simp only [newResponseWriter, sanitizeTransfer] at hte' ⊢
      rw [hte', if_neg (by simp)]
      rfl
    right
    rw [hlen]
    cases hc : chunked r.transferEncoding with
    | true => exact .inl (hch hc)
    | false =>
      rcases hno hc with h | h
      · exact .inl h
      · refine .inr ⟨by omega, ?_⟩
        have hfr' := hfr
        unfold responseFraming at hfr'
        split at hfr'
        · exact absurd rfl hfr'
        · next hallowed =>
            rw [heq, bodyFor_left, responseFraming, if_neg hallowed,
              if_neg (by simp [hc]), if_neg (by omega)]

/-- Without `forceClose` the copy is all `HandleResponse` does to the reader. -/
theorem responseForward_eq (head : Nat → Bool) (w : World) (k : Nat)
    (r : Response) (c : Copy Tee) :
    (responseHandler false head w).forward k r c = r.write c := by
  simp only [responseHandler, Bool.false_and, Bool.and_false,
    Bool.false_eq_true, if_false]

theorem responseHandler_frames (head answersHead : Nat → Bool) (w : World) :
    Frames (responseHandler false head w) fun k =>
      responseFraming (answersHead k) where
  conserves := responseHandler_conserves head w
  shrinks := shrinks_readResponse none
  stays k m c hb := by
    rw [responseForward_eq]
    exact responseWrite_noBody_rd m hb
  body hread hb hfr := by
    obtain ⟨_, l, h, _, _, _, _, hr⟩ := readResponse_parts hread
    exact (finishResponse_body hr hb hfr).1
  drains {k m rd rd' b c data o} hread hb hfr hready := by
    obtain ⟨_, l, h, _, _, _, _, hr⟩ := readResponse_parts hread
    obtain ⟨⟨cl, heq⟩, hch, hno⟩ := finishResponse_body hr hb hfr
    rw [responseForward_eq, responseWrite_eq _ hready.noFail]
    obtain ⟨ps, hw⟩ := (hready.afterHead _).writeBody
      (suits_response heq hfr hch hno)
    exact hw.view

/-! ## Runs -/

section Runs

variable {μ ν : Type} {H : Handler μ} {framing : Nat → μ → Framing}
  {head : Parser Tee Err ν}
  {received : Nat → ν → Framing} {wanted : Nat → Err → List Bool → ν →
    Bytes → Prop}

/-- The heads of the messages that the loop parses, and what is wanted of them
so that the copy comes to the end their fields announce. -/
structure Heads (H : Handler μ) (framing : Nat → μ → Framing)
    (head : Parser Tee Err ν) (received : Nat → ν → Framing)
    (wanted : Nat → Err → List Bool → ν → Bytes → Prop) :
    Prop where
  lawful : Lawful head
  reads : ∀ {m rd rd'}, H.read rd = (.ok m, rd') → ∃ a, head rd = (.ok a, rd') ∧
    ∀ k fails, wanted k rd'.fin fails a rd'.view → rd'.view = [] ∨
      framing k m = received k a ∧
        Handed rd'.fin (framing k m) (H.body m) fails rd'.view

/-- The message of the coming round, if there is one, is as it should be. -/
def RoundSound (H : Handler μ) (head : Parser Tee Err ν)
    (wanted : Nat → Err → List Bool → ν → Bytes → Prop) (s : Loop) : Prop :=
  ∀ m a rd, H.read (onTmp .start s.rd) = (.ok m, rd) →
    head (onTmp .start s.rd) = (.ok a, rd) →
    wanted s.count rd.fin (H.world.fails s.count) a rd.view

/-- The reader stands between two messages, or there is no message to come. -/
def AtBoundary (H : Handler μ) (head : Parser Tee Err ν)
    (received : Nat → ν → Framing) (stream : Bytes) (s : Loop) : Prop :=
  Boundary head received s.rd.fin s.count stream s.rd.view ∨
    ∀ m, (H.read (onTmp .start s.rd)).1 ≠ .ok m

/-- What a run keeps: the size of the buffer, and the place in the stream. -/
structure InPlace (head : Parser Tee Err ν) (received : Nat → ν → Framing)
    (stream : Bytes) (s : Loop) : Prop where
  size : s.rd.size = 0xfff
  place : Boundary head received s.rd.fin s.count stream s.rd.view ∨
    s.rd.view = []

theorem InPlace.atBoundary (hF : Frames H framing) {stream : Bytes} {s : Loop}
    (h : InPlace head received stream s) :
    AtBoundary H head received stream s := by
  rcases h.place with h | h
  · exact .inl h
  · exact .inr (hF.shrinks.nil (onTmp .start s.rd) h)

/-- The copy of a complete body stops where the body ends. -/
theorem forward_rest (hF : Frames H framing) {s : Loop} {m : μ}
    {rd rd₀ : Reader Tee} {rest : Bytes} (hread : H.read rd₀ = (.ok m, rd))
    (hsize : rd.size = 0xfff) (hfr : framing s.count m ≠ .length 0)
    (hbody : H.body m ≠ none) (hfails : NoFail (H.world.fails s.count))
    (hends : Ends rd.fin (framing s.count m) rd.view rest) :
    (H.forward s.count m (s.copy H m rd)).2.rd.view = rest := by
  obtain ⟨data, hdr, hcarries⟩ := hends
  obtain ⟨b, hb⟩ := Option.ne_none_iff_exists'.mp hbody
  obtain ⟨cl, heq⟩ := hF.body hread hb hfr
  have hready : ∀ o, Pending rd.fin b rd.view data o →
      Ready (s.copy H m rd) b data o :=
    fun o hh => ⟨hb, rfl, hfails, hsize, H.world.sizes_lt s.count, hh⟩
  rcases pending_of_carries cl hfr hcarries with hholds | ⟨_, _, rfl, hholds⟩
  · rw [← heq] at hholds
    exact hF.drains hread hb hfr (hready _ hholds)
  · rw [← heq] at hholds
    exact hF.drains hread hb hfr (hready none hholds)

/-- Where the copy of a message stops. -/
theorem forward_view (hF : Frames H framing) {s : Loop} {m : μ}
    {rd : Reader Tee} {rd₀ : Reader Tee} (hread : H.read rd₀ = (.ok m, rd))
    (hsize : rd.size = 0xfff)
    (hs : Handed rd.fin (framing s.count m) (H.body m)
      (H.world.fails s.count) rd.view) :
    Ends rd.fin (framing s.count m) rd.view
      (H.forward s.count m (s.copy H m rd)).2.rd.view ∨
      (H.forward s.count m (s.copy H m rd)).2.rd.view = [] := by
  rcases hs with hnil | ⟨hfr, hbody⟩ | ⟨hfr, hbody, hfails, hend⟩
  · obtain ⟨x, hx⟩ := hF.conserves.forward s.count m (s.copy H m rd)
    have hv := hx.view
    rw [show (s.copy H m rd).rd.view = rd.view from rfl, hnil] at hv
    exact .inr (List.append_eq_nil_iff.mp hv.symm).2
  · left
    rw [hF.stays s.count m (s.copy H m rd) hbody, hfr]
    exact ⟨_, _, .length (Nat.zero_le _)⟩
  · rcases hend with ⟨rest, hends⟩ | hcut
    · rw [forward_rest hF hread hsize hfr hbody hfails hends]
      exact .inl hends
    · obtain ⟨b, hb⟩ := Option.ne_none_iff_exists'.mp hbody
      obtain ⟨cl, heq⟩ := hF.body hread hb hfr
      obtain ⟨data, hholds⟩ := pending_of_cutOff rd.fin cl hcut
      rw [← heq] at hholds
      rw [hF.drains hread hb hfr
        ⟨hb, rfl, hfails, hsize, H.world.sizes_lt s.count, hholds⟩]
      exact .inr rfl

/-- Forwarding a sound message leads from one place to the next. -/
theorem inPlace_forward (hF : Frames H framing)
    (hH : Heads H framing head received wanted) {stream : Bytes} {s : Loop}
    (hs : InPlace head received stream s) (hsound : RoundSound H head wanted s)
    {m : μ} {rd : Reader Tee} (hread : H.read (onTmp .start s.rd) = (.ok m, rd))
    (out : Bytes) :
    InPlace head received stream
      { rd := (H.forward s.count m (s.copy H m rd)).2.rd, out := out,
        count := s.count + 1 } := by
  obtain ⟨x, hx⟩ := Reads.of_lawful hF.conserves.read hread
  obtain ⟨y, hy⟩ := hF.conserves.forward s.count m (s.copy H m rd)
  obtain ⟨a, hhead, hwanted⟩ := hH.reads hread
  have hsize : rd.size = 0xfff := hx.size.trans hs.size
  have hfin : (H.forward s.count m (s.copy H m rd)).2.rd.fin = rd.fin := hy.fin
  have hfin' : rd.fin = s.rd.fin := hx.fin
  refine ⟨hy.size.trans hsize, ?_⟩
  rcases hwanted s.count _ (hsound m a rd hread hhead) with hnil
    | ⟨hfr, hhanded⟩
  · have hv := hy.view
    rw [show (s.copy H m rd).rd.view = rd.view from rfl, hnil] at hv
    exact .inr (List.append_eq_nil_iff.mp hv.symm).2
  · have hview := forward_view hF hread hsize hhanded
    rw [hfr] at hview
    rcases hview with hends | hnil
    · rcases hs.place with hplace | hnil
      · left
        have hparse := parses_of_run hH.lawful hhead hs.size
        dsimp only
        rw [hfin, hfin']
        rw [hfin'] at hends
        exact .next hplace hparse hends
      · exact absurd (by rw [hread]) (hF.shrinks.nil (onTmp .start s.rd) hnil m)
    · exact .inr hnil

theorem inPlace_next (hF : Frames H framing)
    (hH : Heads H framing head received wanted) {stream : Bytes} {s t : Loop}
    (hs : InPlace head received stream s) (hsound : RoundSound H head wanted s)
    (h : turn H s = .next t) :
    InPlace head received stream t := by
  obtain ⟨m, rd, c, hread, _, rfl, rfl⟩ := turn_next h
  exact inPlace_forward hF hH hs hsound hread _

theorem inPlace_reaches (hF : Frames H framing)
    (hH : Heads H framing head received wanted) {conn : Conn} {s : Loop}
    (h : Reaches (fun s t => Rounds H s t ∧ RoundSound H head wanted s)
      (Loop.init conn) s) :
    InPlace head received conn.data s :=
  Reaches.invariant (fun _ _ hs ht => inPlace_next hF hH hs ht.2 ht.1) ⟨rfl,
    .inl .start⟩ h

end Runs

/-! ## The two handlers -/

/-- A request that is no HEAD with a body is handed out with a body exactly if
it has one. -/
theorem finishRequest_handed {l : RequestLine} {h : Header} {r : Request}
    (hr : finishRequest l h = .ok r)
    (hhead : l.method = methodHead → requestFraming r = .length 0) :
    requestFraming r = .length 0 ↔ r.body = none := by
  unfold finishRequest at hr
  dsimp only at hr
  split at hr
  · cases hr
  · next t ht =>
      obtain ⟨st⟩ := readTransfer_eq_ok ht
      have hte : t.transferEncoding = st.te :=
        congrArg Transfer.transferEncoding st.eq
      have hcl : t.contentLength = st.realLength := by
        have := st.announced
        simp only [Bool.false_and, Bool.false_eq_true, if_false,
          Except.ok.injEq] at this
        exact this.symm
      have hbody : t.body = transferBody 200 l.method st.te st.realLength
          t.close :=
        congrArg Transfer.body st.eq
      cases hr
      dsimp only [requestFraming] at hhead ⊢
      rw [hbody, transferBody]
      rw [hte] at hhead ⊢
      cases hch : chunked st.te with
      | true =>
        rw [hch, if_pos rfl] at hhead
        have hmethod : noResponseBodyExpected l.method = false := by
          rw [noResponseBodyExpected, beq_eq_false_iff_ne]
          exact fun hm => absurd (hhead hm) (by decide)
        rw [if_pos rfl, if_pos rfl, hmethod, if_neg (by decide)]
        exact iff_of_false (by decide) (Option.some_ne_none _)
      | false =>
        simp only [Bool.false_eq_true, if_false]
        rcases fixLength_received hch
          (by decide) (fun h => absurd h (by decide)) st.length with
          ⟨_, hpos, hkept⟩ | ⟨_, hzero⟩
        · -- the preface of HTTP/2 has no fields
          have hh2 : isH2Upgrade l t.header = false := by
            rw [congrArg Transfer.header st.eq, isH2Upgrade]
            rw [← fixTrailer_values st.trailers (by decide)] at hkept
            cases he : st.h₃.entries with
            | nil =>
              rw [Header.values, he] at hkept
              exact absurd rfl hkept
            | cons e es => simp
          rw [hh2, if_neg Bool.false_ne_true, hcl]
          rcases hpos.lt_or_eq with hlt | heq
          · rw [if_neg (by omega), if_pos hlt]
            refine iff_of_false (fun hfr => ?_) (Option.some_ne_none _)
            rw [Framing.length.injEq] at hfr
            omega
          · rw [← heq]
            exact iff_of_true rfl rfl
        · rw [hcl, hzero]
          refine iff_of_true ?_ rfl
          cases isH2Upgrade l t.header <;> rfl

/-- A message whose status allows no body has none. -/
theorem fixLength_of_status {isResponse : Bool} {status : Nat} {method : Bytes}
    {h h' : Header} {te : List Bytes} {n : Int}
    (hmethod : noResponseBodyExpected method = false)
    (hstatus : bodyAllowedForStatus status = false)
    (hlen : fixLength isResponse status method h te = .ok (n, h')) : n = 0 := by
  have hno : status / 100 = 1 ∨ status = 204 ∨ status = 304 := by
    simp only [bodyAllowedForStatus, Bool.and_eq_false_iff, Bool.not_eq_false',
      bne_eq_false_iff_eq, Bool.and_eq_true, decide_eq_true_eq] at hstatus
    omega
  unfold fixLength at hlen
  split at hlen
  · cases hlen
  · dsimp only at hlen
    rw [hmethod, if_neg (by simp), if_pos hno] at hlen
    cases hlen
    rfl

/-- A response is handed out with a body exactly if it announces one. -/
theorem finishResponse_handed {l : StatusLine} {h : Header} {r : Response}
    (hr : finishResponse none l h = .ok r) :
    responseFraming false r = .length 0 ↔ r.body = none := by
  unfold finishResponse at hr
  dsimp only at hr
  split at hr
  · cases hr
  · next t ht =>
      obtain ⟨st⟩ := readTransfer_eq_ok ht
      have hte : t.transferEncoding = st.te :=
        congrArg Transfer.transferEncoding st.eq
      have hcl : t.contentLength = st.realLength := by
        have := st.announced
        rw [if_neg (by decide)] at this
        exact (Except.ok.inj this).symm
      have hbody : t.body = transferBody l.statusCode
          (lit "GET") st.te st.realLength t.close :=
        congrArg Transfer.body st.eq
      have hclose : t.close = _ := congrArg Transfer.close st.eq
      cases hr
      dsimp only [responseFraming]
      rw [hbody, transferBody, hte, Bool.false_or]
      cases hstatus : bodyAllowedForStatus l.statusCode with
      | false =>
        rw [fixLength_of_status (by decide) hstatus st.length]
        refine iff_of_true rfl ?_
        cases chunked st.te <;> rfl
      | true =>
        rw [if_neg (by decide)]
        cases hch : chunked st.te with
        | true =>
          simp only [if_true]
          exact iff_of_false (by decide) (Option.some_ne_none _)
        | false =>
          simp only [Bool.false_eq_true, if_false]
          rw [hcl]
          rcases fixLength_received hch hstatus
            (fun _ => by decide) st.length with
            ⟨_, hpos, _⟩ | ⟨_, hminus⟩
          · rw [if_neg (by omega)]
            rcases hpos.lt_or_eq with hlt | heq
            · rw [if_neg (by omega), if_pos hlt]
              refine iff_of_false (fun hfr => ?_) (Option.some_ne_none _)
              rw [Framing.length.injEq] at hfr
              omega
            · rw [← heq]
              exact iff_of_true rfl rfl
          · rw [hminus, hch, hstatus] at hclose
            have hcloses : t.close = true := by
              rw [hclose]
              simp
            rw [hminus, hcloses]
            simp

section Handlers

variable {C : Type} (cfg : HTTPConfig) (isInbound : Bool) (tr : Tracer C)
  (idna : Bytes → Option Bytes) (trips : Nat → Trip C)
    (head answersHead : Nat → Bool) (w : World)

theorem requestHandler_heads :
    Heads (requestHandler cfg isInbound tr idna trips w)
    (fun _ => requestFraming) requestHead (fun _ a => receivedRequest a.1 a.2)
    fun _ => RequestSound where
  lawful := lawful_requestHead
  reads {m rd rd'} hread := by
    obtain ⟨l, h, hhead, hfin⟩ := requestHead_of_read hread
    refine ⟨(l, h), hhead, fun k fails hwanted => ?_⟩
    rcases hwanted with hnil | ⟨hmix, hmethod, hbody⟩
    · exact .inl hnil
    · have hfr := requestFraming_received hmix hfin
      rw [← hfr] at hmethod hbody
      have hiff := finishRequest_handed hfin hmethod
      refine .inr ⟨hfr, ?_⟩
      rcases hbody with hzero | ⟨hok, hend⟩
      · exact .inr (.inl ⟨hzero, hiff.mp hzero⟩)
      · by_cases hzero : requestFraming m = .length 0
        · exact .inr (.inl ⟨hzero, hiff.mp hzero⟩)
        · exact .inr (.inr ⟨hzero, fun hnone => hzero (hiff.mpr hnone), hok,
            hend⟩)

theorem responseHandler_heads : Heads (responseHandler false head w)
    (fun k => responseFraming (answersHead k)) responseHead
    (fun k a => receivedResponse (answersHead k) a.1 a.2) fun k =>
      ResponseSound (answersHead k) where
  lawful := lawful_responseHead
  reads {m rd rd'} hread := by
    obtain ⟨l, h, hhead, hfin⟩ := responseHead_of_read hread
    refine ⟨(l, h), hhead, fun k fails hwanted => ?_⟩
    rcases hwanted with hnil | ⟨hmix, hanswers, hbody⟩
    · exact .inl hnil
    · have hfr : ∀ answers, responseFraming answers m =
          receivedResponse answers l h :=
        fun _ => responseFraming_received hmix hfin
      have hiff := finishResponse_handed hfin
      rw [← hfr] at hanswers hbody
      refine .inr ⟨hfr _, ?_⟩
      -- an answer to a HEAD that announces nothing, or no answer to a HEAD
      have hsame : responseFraming (answersHead k) m =
          responseFraming false m := by
        cases hk : answersHead k with
        | false => rfl
        | true =>
          rw [hanswers hk]
          rfl
      rw [hsame] at hbody ⊢
      rcases hbody with hzero | ⟨hok, hend⟩
      · exact .inr (.inl ⟨hzero, hiff.mp hzero⟩)
      · by_cases hzero : responseFraming false m = .length 0
        · exact .inr (.inl ⟨hzero, hiff.mp hzero⟩)
        · exact .inr (.inr ⟨hzero, fun hnone => hzero (hiff.mpr hnone), hok,
            hend⟩)

end Handlers

/-! ## Two streams

A chunked request with another one behind it, and one whose first chunk has no
size: what follows is taken for a request of its own. -/

/-- What the parser makes of the stream, if it makes anything of it. -/
theorem Parses.check {α : Type} {f : Parser Tee Err α} {fin : Err}
    {v v' : Bytes} {a : α} (h : Parses f fin v a v') (p : α → Bytes → Bool)
    (hp :
      (match f (standing fin v) with | (.ok a, rd) => p a rd.view | _ => false)
      = true) :
    p a v' = true := by
  obtain ⟨h1, h2⟩ := h
  cases hr : f (standing fin v) with
  | mk r rd =>
    rw [hr] at h1 h2 hp
    dsimp only at h1 h2
    subst h1 h2
    exact hp

theorem exists_of_isOk {α : Type} {r : Except Err α} (h : r.isOk = true) :
    ∃ a, r = .ok a := by
  cases r with
  | ok a => exact ⟨a, rfl⟩
  | error e => cases h

theorem Boundary.of_succ {μ : Type} {read : Parser Tee Err μ}
    {framing : Nat → μ → Framing} {fin : Err} {k : Nat} {v u₂ : Bytes}
    (h : Boundary read framing fin (k + 1) v u₂) :
    ∃ u u₁ m, Boundary read framing fin k v u ∧ Parses read fin u m u₁ ∧
      Ends fin (framing k m) u₁ u₂ := by
  cases h with
  | next h1 h2 h3 => exact ⟨_, _, _, h1, h2, h3⟩

/-- Nothing is chunked that does not begin with a size line. -/
theorem Chunks.false_of_head {size : Nat} {v data r : Bytes}
    (h : Chunks size v data (some r)) (hhead : chunkHead size v = none) :
    False := by
  cases h with
  | last h => rw [hhead] at h; cases h
  | chunk _ h _ => rw [hhead] at h; cases h

/-- A chunked request with the given body, and a request behind it. -/
def chunkedThenGet (body : Bytes) : Conn where
  data := lit "POST / HTTP/1.1\r\nTransfer-Encoding: chunked\r\n\r\n" ++ body ++
    lit "GET /x HTTP/1.1\r\n\r\n"

end Netramesh.Proofs
