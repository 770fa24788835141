import Netramesh.Proofs.KeepAlive
import Netramesh.Proofs.Final
import Netramesh.Transport.RoutedHttp

/-!
# What a response routine leaves behind

A client reads the answer to a request as interim responses and one final
response (`Answer`). A routine leaves the client where the next answer can start
exactly if what it wrote is such an answer, whatever comes behind it
(`Settles`); where it stops earlier, the most that can be said is that what it
wrote could go on to become one (`Begins`).

A whole answer settles the request. One that is cut off, in a head
or in a body, still leaves the beginning of an answer: the head that went out
with the body announces how the body would have ended.
-/

namespace Netramesh.Proofs

open Http Protocol Transport Net Lib

/-! ## Answers, as a client reads them -/

/-- At the front of `v` stands the answer to a request of this method, and
behind it comes `rest`. -/
inductive Answer (method : Bytes) : Bytes → Bytes → Prop
  | final {v u rest : Bytes} {f : Response} :
      Parses (readResponse (some method)) .eof v f u → 200 ≤ f.statusCode →
      Ends .eof (responseFraming (method == methodHead) f) u rest →
        Answer method v rest
  | interim {v u rest : Bytes} {m : Response} :
      Parses (readResponse (some method)) .eof v m u → interim m = true →
        Answer method u rest →
      Answer method v rest

/-- These bytes are an answer, whatever is behind them. -/
def Settles (method : Bytes) (b : Bytes) : Prop :=
  ∀ rest, Answer method (b ++ rest) rest

/-- These bytes can go on to become an answer. -/
def Begins (method : Bytes) (b : Bytes) : Prop :=
  ∃ more, Answer method (b ++ more) []

theorem Settles.begins {method b : Bytes} (h : Settles method b) :
    Begins method b :=
  ⟨[], h []⟩

theorem Begins.shorten {method b b' : Bytes} (h : Begins method b)
    (hb : b' <+: b) :
    Begins method b' := by
  obtain ⟨more, hmore⟩ := h
  obtain ⟨x, rfl⟩ := hb
  exact ⟨x ++ more, by rwa [← List.append_assoc]⟩

/-- One answer for each request. -/
inductive AnswersTo : List Bytes → Bytes → Prop
  | nil : AnswersTo [] []
  | cons {method : Bytes} {methods : List Bytes} {v rest : Bytes} :
      Answer method v rest →
      AnswersTo methods rest → AnswersTo (method :: methods) v

/-! ## Responses that are written -/

section Written

variable {r : Response}

/-- A response that is written, read back with the method known. -/
theorem ResponseFacts.reread (h : ResponseFacts r) (hch : SeenAlike r)
    (method : Bytes) :
    ∃ r', r'.statusCode = r.statusCode ∧
      responseFraming (method == methodHead) r' =
        responseFraming (method == methodHead) r ∧
      ∀ rest, Parses (readResponse (some method)) .eof
        (r.headPieces.flatten ++ rest) r' rest := by
  by_cases hm : method = methodHead
  · obtain ⟨r', hcode, _, hparse⟩ := h.againHead hch
    subst hm
    exact ⟨r', hcode, rfl, hparse⟩
  · obtain ⟨r', hcode, hfr, _, hparse⟩ := h.again hch
    rw [beq_false_of_ne hm, readResponse_of_ne hm]
    exact ⟨r', hcode, hfr, hparse⟩

/-- A 100 in front of an answer is part of it. -/
theorem ResponseFacts.announces (h : ResponseFacts r) (hch : SeenAlike r)
    (h100 : r.statusCode = 100) {method v rest : Bytes}
    (hv : Answer method v rest) :
    Answer method (r.headPieces.flatten ++ v) rest := by
  obtain ⟨r', hcode, _, hparse⟩ := h.reread hch method
  refine .interim (hparse v) ?_ hv
  rw [interim, hcode, h100]
  rfl

/-- A final response to a request that is no HEAD, with a body that has an
end. -/
theorem ResponseFacts.delivers (h : ResponseFacts r) (hch : SeenAlike r)
    {method : Bytes} (hm : method ≠ methodHead) (hstatus : 200 ≤ r.statusCode)
    {ps : List Bytes} {hdr : Option Header}
    (hps : ∀ p ∈ ps, p ≠ [] ∧ p.length ≤ 2 ^ 63)
    (hh : ∀ t, hdr = some t → PlainHeader t)
    (hlen : ∀ n, responseFraming false r = .length n → ps.flatten.length = n)
    (hfit : Fits r.trailer hdr) (rest : Bytes)
    (hlast : responseFraming false r = .close → rest = []) :
    Answer method (r.headPieces.flatten ++
      (piecesWire (newResponseWriter r.toWrite) ps ++
      endWire (newResponseWriter r.toWrite) hdr) ++ rest) rest := by
  obtain ⟨r', hcode, hfr, hparse⟩ := h.reread hch method
  rw [List.append_assoc]
  refine .final (hparse _) (by rw [hcode]; exact hstatus) ?_
  rw [hfr, beq_false_of_ne hm]
  exact ⟨_, _, h.carries hch hps hh hlen hfit rest hlast⟩

/-- The final response to a HEAD. -/
theorem ResponseFacts.deliversHead (h : ResponseFacts r) (hch : SeenAlike r)
    (hstatus : 200 ≤ r.statusCode) :
    Settles methodHead r.headPieces.flatten := by
  intro rest
  obtain ⟨r', hcode, hfr, hparse⟩ := h.reread hch methodHead
  refine .final (hparse _) (by rw [hcode]; exact hstatus) ?_
  exact ⟨_, _, .length (Nat.zero_le _)⟩

theorem fits_none {te : Bool} {t : Option Header} (ht : TrailerOf te t) :
    Fits t none := by
  have hnil : trailerWire (mergedTrailer t none) = [] := by
    cases ha : t with
    | none => rfl
    | some a =>
      show ((fieldLines [] a).flatMap linePieces).flatten = []
      have hlines : fieldLines [] a = [] := by
        refine List.eq_nil_iff_forall_not_mem.mpr fun f hf => ?_
        obtain ⟨vs, hmem, _, v, hv, _⟩ := mem_fieldLines.mp hf
        rw [show vs = [] from (ht.announced ha _ hmem).2] at hv
        cases hv
      rw [hlines]
      rfl
  rw [Fits, hnil]
  decide

theorem piecesWire_append (t : TransferWriter) (ps qs : List Bytes) :
    piecesWire t (ps ++ qs) = piecesWire t ps ++ piecesWire t qs := by
  unfold piecesWire
  split
  · exact List.flatMap_append
  · exact List.flatten_append

theorem ResponseFacts.length_lt (h : ResponseFacts r) {n : Nat}
    (hfr : responseFraming false r = .length n) : n < 2 ^ 63 := by
  unfold responseFraming at hfr
  split at hfr
  · cases hfr
    decide
  · split at hfr
    · cases hfr
    · next hc =>
        have := h.length (by simpa using hc)
        split at hfr
        · cases hfr
        · cases hfr
          omega

/-- A final response whose body stops too early: what its head announces can
still come. -/
theorem ResponseFacts.beginsCut (h : ResponseFacts r) (hch : SeenAlike r)
    {method : Bytes} (hm : method ≠ methodHead) (hstatus : 200 ≤ r.statusCode)
    {ps : List Bytes} (hps : ∀ p ∈ ps, p ≠ [] ∧ p.length ≤ 2 ^ 63)
    (hlen : ∀ n, responseFraming false r = .length n → ps.flatten.length ≤ n) :
    Begins method (r.headPieces.flatten ++
      piecesWire (newResponseWriter r.toWrite) ps) := by
  have hfit : Fits r.trailer none := fits_none h.trailer
  -- the missing bytes of a counted body may be any
  obtain ⟨qs, hqs, hfill⟩ : ∃ qs : List Bytes,
    (∀ q ∈ qs, q ≠ [] ∧ q.length ≤ 2 ^ 63) ∧
      ∀ n, responseFraming false r = .length n →
        (ps ++ qs).flatten.length = n := by
    cases hfr : responseFraming false r with
    | length n =>
      have hle := hlen n hfr
      have hn : n < 2 ^ 63 := h.length_lt hfr
      by_cases heq : ps.flatten.length = n
      · exact ⟨[], by simp, fun n' hn' => by cases hn'; simpa using heq⟩
      · refine ⟨[List.replicate (n - ps.flatten.length) 0], ?_, ?_⟩
        · intro q hq
          rw [List.mem_singleton.mp hq, List.length_replicate]
          refine ⟨fun hnil => ?_, by omega⟩
          rw [List.replicate_eq_nil_iff] at hnil
          omega
        · intro n' hn'
          cases hn'
          rw [List.flatten_append, List.length_append, List.flatten_singleton,
            List.length_replicate]
          omega
    | chunked => exact ⟨[], by simp, fun n hn => by cases hn⟩
    | close => exact ⟨[], by simp, fun n hn => by cases hn⟩
  have hall : ∀ p ∈ ps ++ qs, p ≠ [] ∧ p.length ≤ 2 ^ 63 := by
    intro p hp
    exact (List.mem_append.mp hp).elim (hps p) (hqs p)
  have hanswer := h.delivers hch hm hstatus hall
    (fun t ht => by cases ht) hfill hfit []
    fun _ => rfl
  refine ⟨piecesWire (newResponseWriter r.toWrite) qs ++
    endWire (newResponseWriter r.toWrite) none, ?_⟩
  rw [List.append_nil, piecesWire_append] at hanswer
  simpa only [List.append_assoc] using hanswer

end Written

/-! ## Rounds -/

section Target

variable {t : Target}

theorem noFail_world (t : Target) (k : Nat) : NoFail (t.world.fails k) := by
  intro b hb
  cases hb

/-- A 100 goes out as its head. -/
theorem hundred_written {s u : Loop} {m : Response} {rd : Reader Tee}
    (hread : readResponse none (onTmp .start s.rd) = (.ok m, rd))
    (h100 : m.statusCode = 100) (halike : SeenAlike m) (hs : Between s)
    (h : turn t.handler s = .next u) :
    u.out = s.out ++ m.headPieces.flatten := by
  obtain ⟨_, hout⟩ := responseTurn_next hread h
  rw [if_pos h100] at hout
  obtain ⟨c, hreads⟩ := Reads.of_lawful
    (responseHandler_conserves t.head t.world).read hread
  have hfr : responseFraming false m = .length 0 := by
    rw [responseFraming, show bodyAllowedForStatus m.statusCode =
      false by rw [h100]; rfl]
    rfl
  obtain ⟨_, hbytes⟩ := (responseFacts hread).writtenHead halike (c :=
    s.copy t.handler m rd) rfl rfl
    (noFail_world t s.count) (hreads.size.trans hs.size)
      (t.world.sizes_lt s.count) (.inl hfr)
  exact hout.trans hbytes

/-- The 100s in front of a final response become part of the answer. -/
theorem Forwards.announces {ms : List Response} {s u : Loop}
    (h : Forwards t.handler ms s u)
    (hms : ∀ m ∈ ms, m.statusCode = 100 ∧ SeenAlike m) (hs : Between s) :
    Between u ∧ ∃ w, u.out = s.out ++ w ∧
      ∀ v rest, Answer t.method v rest → Answer t.method (w ++ v) rest := by
  induction h with
  | nil => exact ⟨hs, [], by simp, fun v rest hv => hv⟩
  | @cons m ms s u x hread hturn _ ih =>
    obtain ⟨h100, halike⟩ := hms m List.mem_cons_self
    obtain ⟨rd, hrun⟩ := forwards_read hread
    have hout := hundred_written hrun h100 halike hs hturn
    obtain ⟨hlast, w, hw, hanswer⟩ :=
      ih (fun m' hm => hms m' (List.mem_cons_of_mem _ hm))
      (between_next hs hturn)
    refine ⟨hlast, m.headPieces.flatten ++
      w, by rw [hw, hout, List.append_assoc], ?_⟩
    intro v rest hv
    rw [List.append_assoc]
    exact (responseFacts hrun).announces halike h100 (hanswer v rest hv)

/-- Behind any other response the target is closed, and if what is left in the
buffer is harmless, nothing more is written. -/
theorem out_of_final {s u : Loop} {f : Response} {rd : Reader Tee}
    (hreaches : Reaches (Rounds t.handler) (Loop.init t.conn) s)
    (hs : Between s)
    (hread : readResponse none (onTmp .start s.rd) = (.ok f, rd))
    (h100 : f.statusCode ≠ 100) (hturn : turn t.handler s = .next u)
    (hbuf : Harmless u.rd.buf) :
    t.out = (f.write (startCopy t.head t.world s f rd)).2.out.bytes := by
  obtain ⟨hrd, hout⟩ := responseTurn_next hread hturn
  rw [if_neg h100] at hrd hout
  have hs' := between_next hs hturn
  have hconn : u.rd.src.conn = { data := [], fin := .closedConn } := by
    rw [hrd]
    rfl
  have hquiet : (written t.handler u = [] ∧ ∀ x, turn t.handler u ≠ .next x) ↔
      Harmless u.rd.buf :=
    quiet_iff (noFail_world t u.count) hs'.size hconn hs'.empty
  obtain ⟨hwritten, hlast⟩ := hquiet.mpr hbuf
  rw [← hout]
  exact out_of_quiet responseTurn_lt (hreaches.tail hturn)
    (noFail_world t _) hwritten hlast

/-! ## Whole answers -/

/-- The target sends 100s and a final response, and nothing that was read ahead
behind it matters; the test for HEAD is right; the framing of each response is
seen alike by the client; the body has an end of its own and a trailer that can
be read again. -/
structure Whole (t : Target) (ms : List Response) (f : Response)
    (rest : Bytes) : Prop where
  answers : Answers t.head t.conn.fin f rest 0 ms t.conn.data
  tame : Tame t.head t.world t.conn ms f
  alike : ∀ m ∈ f :: ms, SeenAlike m
  test : t.head ms.length = (t.method == methodHead)
  delimited : t.method ≠ methodHead → responseFraming false f ≠ .close
  fits : t.method ≠ methodHead →
    ∀ s, afterRounds t.handler ms.length (Loop.init t.conn) = some s →
    ∀ u data hdr, Parses (readResponse none) t.conn.fin s.rd.view f u →
      Carries t.conn.fin (responseFraming false f) u data hdr rest →
        Fits f.trailer hdr

theorem Forwards.count {μ : Type} {H : Handler μ} {ms : List μ} {s u : Loop}
    (h : Forwards H ms s u) : u.count = s.count + ms.length := by
  induction h with
  | nil => rfl
  | cons _ hturn _ ih =>
    obtain ⟨_, _, _, _, _, _, rfl⟩ := turn_next hturn
    rw [ih, List.length_cons]
    dsimp only
    omega

/-- A whole answer settles the request. -/
theorem Whole.settles {ms : List Response} {f : Response} {rest : Bytes}
    (h : Whole t ms f rest) : Settles t.method t.out := by
  obtain ⟨s, hforwards, hat⟩ :=
    forwards_of_hundreds (w := t.world) h.answers h.tame.interim
    (s := Loop.init t.conn) rfl rfl rfl rfl
  have hms : ∀ m ∈ ms, m.statusCode = 100 ∧ SeenAlike m := fun m hm =>
    ⟨h.tame.interim m hm, h.alike m (List.mem_cons_of_mem _ hm)⟩
  obtain ⟨hs, w, hw, hanswer⟩ :=
    Forwards.announces (t := t) hforwards hms (between_init t.conn)
  rw [show (Loop.init t.conn).out ++ w = w from rfl] at hw
  obtain ⟨u, hparse, hends⟩ := hat.parses
  have hstart : Parses (readResponse none) (onTmp .start s.rd).fin
      (onTmp .start s.rd).view f u := by
    rw [show (onTmp TempWriter.start s.rd).fin = t.conn.fin from hat.fin_eq]
    exact hparse
  obtain ⟨rd, c, hread, hreads, hview⟩ :=
    hstart.run (responseHandler_conserves t.head t.world).read hat.size
  obtain ⟨x, hturn, _⟩ := responseTurn_eq t.head t.world hread hat.proceeds
  have h100 : f.statusCode ≠ 100 := by
    have := hat.status
    omega
  rw [out_of_final (t := t) hforwards.reaches hs hread h100 hturn
    (h.tame.readAhead x (hforwards.after_next hturn))]
  have hfacts := responseFacts hread
  have halike := h.alike f List.mem_cons_self
  have htest : t.head s.count = (t.method == methodHead) := by
    rw [hforwards.count, show (Loop.init t.conn).count + ms.length =
      ms.length from Nat.zero_add _]
    exact h.test
  have hsize : rd.size = 0xfff := hreads.size.trans hat.size
  intro tail
  by_cases hm : t.method = methodHead
  · rw [hm, show (methodHead == methodHead) = true from rfl] at htest
    have hcopy : startCopy t.head t.world s f rd =
        { s.copy t.handler f rd with rd := closeRead (onTmp .stop rd) } :=
      startCopy_of_head htest f rd
    have hbuf : (closeRead (onTmp TempWriter.stop rd)).view = rd.buf :=
      List.append_nil _
    obtain ⟨_, hbytes⟩ := hfacts.writtenHead halike (c :=
      startCopy t.head t.world s f rd)
      (by rw [hcopy]; rfl) (by rw [hcopy]; rfl)
        (by rw [hcopy]; exact noFail_world t s.count)
      (by rw [hcopy]; exact hsize)
        (by rw [hcopy]; exact t.world.sizes_lt s.count)
      (by
        rw [hcopy]
        rcases h.tame.toHead s rd hforwards.after hread htest with hnone | hnil
        · rcases hfacts.body with ⟨hfr, _⟩ | ⟨_, cl, hb⟩
          · exact .inl hfr
          · rw [hb] at hnone
            cases hnone
        · exact .inr (hbuf.trans hnil))
    rw [hbytes, show (startCopy t.head t.world s f rd).out.bytes =
      s.out by rw [hcopy]; rfl, hw, List.append_assoc]
    refine hanswer _ _ ?_
    rw [hm]
    exact hfacts.deliversHead halike hat.status tail
  · rw [beq_false_of_ne hm] at htest
    have hcopy : startCopy t.head t.world s f rd = s.copy t.handler f rd :=
      startCopy_of_not_head htest f rd
    rw [htest] at hends
    obtain ⟨data, hdr, hcarries⟩ := hends
    have hfit := h.fits hm s hforwards.after u data hdr hparse hcarries
    have hcarries' : Carries rd.fin
        (responseFraming false f) rd.view data hdr rest := by
      rw [hview, show rd.fin = t.conn.fin from hreads.fin.trans hat.fin_eq]
      exact hcarries
    obtain ⟨_, ps, hflat, hps, hbytes⟩ :=
      hfacts.written halike (c := s.copy t.handler f rd) rfl rfl
      (noFail_world t s.count) hsize (t.world.sizes_lt s.count) hcarries'
    rw [hcopy, hbytes, show (s.copy t.handler f rd).out.bytes = s.out from rfl,
      hw, List.append_assoc, List.append_assoc]
    refine hanswer _ _ ?_
    rw [← List.append_assoc]
    exact hfacts.delivers halike hm hat.status hps hcarries.plain
      (fun n hn => by rw [hflat]; exact hcarries.data_length hn) hfit tail
      (fun hclose => absurd hclose (h.delimited hm))

/-! ## Answers that break off -/

/-- Where an answer breaks off: `ReadResponse` fails and nothing is written; or
it fails on the beginning of an answer of which no part was read ahead, which is
copied as it is; or the head is read, and the body is cut off or has no end of
its own. -/
inductive Stops (t : Target) (s : Loop) : Prop
  | silent {e : Err} {rd : Reader Tee} :
      readResponse none (onTmp .start s.rd) = (.error e, rd) →
      (e = .eof ∨ e.mentionsClosed = true ∨
        (s.rd.src.conn.data = [] ∧ rd.view = [])) → Stops t s
  | head {e : Err} {rd : Reader Tee} :
      readResponse none (onTmp .start s.rd) = (.error e, rd) →
      fetched s.rd rd = consumed s.rd rd → Begins t.method s.rd.view → Stops t s
  | body {f : Response} {rd : Reader Tee} :
      readResponse none (onTmp .start s.rd) = (.ok f, rd) →
        isUpgrade f.header = false →
      200 ≤ f.statusCode → SeenAlike f → t.method ≠ methodHead →
        t.head s.count = false →
      (CutOff (responseFraming false f) rd.view ∨
        responseFraming false f = .close) → Stops t s

/-- The target sends 100s, and then its answer breaks off. -/
def Breaks (t : Target) : Prop :=
  ∃ ms s, Forwards t.handler ms (Loop.init t.conn) s ∧
    (∀ m ∈ ms, m.statusCode = 100 ∧ SeenAlike m) ∧ Stops t s

theorem Parses.responseFacts {fin : Err} {v u : Bytes} {r : Response}
    (h : Parses (readResponse none) fin v r u) : ResponseFacts r :=
  Proofs.responseFacts (Prod.ext h.1 rfl)

/-- There is an answer to every request. -/
theorem exists_answer (method : Bytes) : ∃ v, Answer method v [] := by
  obtain ⟨f, u, hparse, hf⟩ := exists_parses (readResponse none) .eof emptyOk
    (fun f _ => decide (200 ≤ f.statusCode ∧
      responseFraming false f = .length 0) &&
      !chunked f.transferEncoding) (by decide +kernel)
  rw [Bool.and_eq_true, Bool.not_eq_true'] at hf
  obtain ⟨hstatus, hfr⟩ := of_decide_eq_true hf.1
  have halike : SeenAlike f := fun hc => by rw [hf.2] at hc; cases hc
  obtain ⟨f', hcode, hfr', hparse'⟩ := hparse.responseFacts.reread halike method
  refine ⟨f.headPieces.flatten ++ [],
    .final (hparse' []) (by rw [hcode]; exact hstatus) ?_⟩
  have hlen : responseFraming (method == methodHead) f' = .length 0 := by
    rw [hfr']
    cases hm : method == methodHead with
    | true => rfl
    | false => exact hfr
  rw [hlen]
  exact ⟨_, _, .length (Nat.zero_le _)⟩

/-- What the last round of a call writes, if it reads no response. -/
theorem out_of_error {s : Loop} {e : Err} {rd : Reader Tee}
    (hreaches : Reaches (Rounds t.handler) (Loop.init t.conn) s)
    (hread : readResponse none (onTmp .start s.rd) = (.error e, rd)) :
    t.out = s.out ++ if e = .eof ∨ e.mentionsClosed then []
      else rd.src.tmp.buf ++ rd.view := by
  have hturn : turn t.handler s = if e = .eof ∨ e.mentionsClosed then
    .returned { s with rd := rd }
      else .copied (fallback t.handler s rd) := by
    rw [turn, show t.handler.read (onTmp .start s.rd) = _ from hread]
  rw [Target.out]
  split at hturn
  · next he =>
      rw [show handle t.handler (Loop.init t.conn) = _ from
        handle_of_shrinking responseTurn_lt hreaches (.inr hturn), if_pos he,
          List.append_nil]
  · next he =>
      rw [show handle t.handler (Loop.init t.conn) = _ from
        handle_of_shrinking responseTurn_lt hreaches (.inl hturn), if_neg he,
        fallback_bytes (noFail_world t s.count)]

/-- A body that breaks off, or has no end of its own, leaves nothing behind. -/
theorem written_of_stop {f : Response} {c : Copy Tee} (h : ResponseFacts f)
    (hch : SeenAlike f) (hbody : c.body = f.body) (htrailer : c.trailer = none)
    (hfails : NoFail c.out.fails) (hsize : c.rd.size = 0xfff)
    (hsizes : ∀ k ∈ c.sizes, k < 2 ^ 63)
    (hstop : CutOff (responseFraming false f) c.rd.view ∨
      responseFraming false f = .close) :
    (f.write c).2.rd.view = [] ∧ ∃ ps, (∀ p ∈ ps, p ≠ [] ∧ p.length ≤ 2 ^ 63) ∧
      (∀ n, responseFraming false f = .length n → ps.flatten.length ≤ n) ∧
      (f.write c).2.out.bytes =
        c.out.bytes ++ (f.headPieces.flatten ++
          piecesWire (newResponseWriter f.toWrite) ps) := by
  have hfr : responseFraming false f ≠ .length 0 := by
    intro hzero
    rw [hzero] at hstop
    rcases hstop with hcut | hclose
    · cases hcut with
      | length hlt => exact absurd hlt (Nat.not_lt_zero _)
    · cases hclose
  rcases h.body with ⟨hno, _⟩ | ⟨_, cl, hb⟩
  · exact absurd hno hfr
  · have hpending : ∃ data o,
      Pending c.rd.fin (bodyFor cl (responseFraming false f)) c.rd.view data o ∧
        (∀ n, responseFraming false f = .length n → data.length ≤ n) ∧
        ∀ rest hdr, o = some (rest, hdr) → rest = [] ∧
          responseFraming false f = .close := by
      rcases hstop with hcut | hclose
      · obtain ⟨data, hp⟩ := pending_of_cutOff c.rd.fin cl hcut
        refine ⟨data, none, hp, fun n hn => ?_, fun _ _ ho => by cases ho⟩
        have hle := hp.length_le
        rw [hn] at hcut
        cases hcut with
        | length hlt => omega
      · rw [hclose]
        refine ⟨_, _, .wire, (fun n hn => by cases hn),
          fun rest hdr ho => ⟨?_, rfl⟩⟩
        split at ho
        · cases ho
          rfl
        · cases ho
    obtain ⟨data, o, hp, hlen, hfull⟩ := hpending
    have hready : Ready c (bodyFor cl (responseFraming false f)) data o :=
      ⟨hbody.trans hb, htrailer, hfails, hsize, hsizes, hp⟩
    obtain ⟨ps, hw⟩ := (hready.afterHead f.headPieces).writeBody
      (suits_response rfl hfr (fun hc => h.chunks (hch hc).1 hc)
        (h.counted hfr))
    rw [responseWrite_eq f hfails]
    refine ⟨?_, ps, hw.pieces, fun n hn => by rw [hw.flat]; exact hlen n hn, ?_⟩
    · rw [hw.view]
      cases o with
      | none => rfl
      | some p => exact (hfull p.1 p.2 rfl).1
    · rw [← List.append_assoc, ← afterHead_bytes _ hfails]
      cases o with
      | none => exact (hw.cut rfl).2.2
      | some p =>
        -- a body without a length has no end to write
        have hplain : chunked (newResponseWriter f.toWrite).transferEncoding =
            false :=
          (responseWriter_spec h hch).1.trans
            (hch.not_chunked (by rw [(hfull p.1 p.2 rfl).2]; simp))
        rw [(hw.full p.1 p.2 rfl).2.2, endWire, if_neg (by simp [hplain]),
          List.append_nil]

/-- An answer that breaks off has begun. -/
theorem Breaks.begins (h : Breaks t) : Begins t.method t.out := by
  obtain ⟨ms, s, hforwards, hms, hstops⟩ := h
  obtain ⟨hs, w, hw, hanswer⟩ := hforwards.announces hms (between_init t.conn)
  rw [show (Loop.init t.conn).out ++ w = w from rfl] at hw
  -- it is enough that what the last round writes has
  suffices hlast : ∃ b, t.out = s.out ++ b ∧ Begins t.method b by
    obtain ⟨b, hb, more, hmore⟩ := hlast
    refine ⟨more, ?_⟩
    rw [hb, hw, List.append_assoc]
    exact hanswer _ _ hmore
  have hnothing : Begins t.method [] := exists_answer t.method
  cases hstops with
  | @silent e rd hread hsilent =>
    refine ⟨_, out_of_error hforwards.reaches hread, ?_⟩
    split
    · exact hnothing
    · next he =>
        rw [not_or] at he
        obtain ⟨hdata, hview⟩ := (hsilent.resolve_left he.1).resolve_left he.2
        obtain ⟨c, hc⟩ := Reads.of_lawful
          (responseHandler_conserves t.head t.world).read hread
        rw [(fetched_and_rest hs.empty hc).1, fetched, hdata, List.take_nil,
          hview]
        exact hnothing
  | @head e rd hread haligned hbegins =>
    refine ⟨_, out_of_error hforwards.reaches hread, ?_⟩
    split
    · exact hnothing
    · obtain ⟨c, hc⟩ := Reads.of_lawful
        (responseHandler_conserves t.head t.world).read hread
      rw [(fallback_eq_iff hs.empty hc).mpr haligned]
      exact hbegins
  | @body f rd hread hup hstatus halike hm htest hstop =>
    obtain ⟨c, hc⟩ := Reads.of_lawful
      (responseHandler_conserves t.head t.world).read hread
    have hcopy : startCopy t.head t.world s f rd = s.copy t.handler f rd :=
      startCopy_of_not_head htest f rd
    obtain ⟨hview, ps, hps, hlen, hbytes⟩ :=
      written_of_stop (c := s.copy t.handler f rd)
      (responseFacts hread) halike rfl rfl (noFail_world t s.count)
        (hc.size.trans hs.size)
      (t.world.sizes_lt s.count) hstop
    obtain ⟨u, hturn, _, hrd⟩ := responseTurn_eq t.head t.world hread hup
    have hbuf : u.rd.buf = [] := by
      rw [hrd, if_neg (by omega), hcopy]
      exact (List.append_eq_nil_iff.mp hview).1
    refine ⟨f.headPieces.flatten ++ piecesWire (newResponseWriter f.toWrite) ps,
      ?_, (responseFacts hread).beginsCut halike hm hstatus hps hlen⟩
    rw [out_of_final hforwards.reaches hs hread (by omega) hturn
      (by rw [hbuf]; decide +kernel), hcopy]
    exact hbytes

end Target

end Netramesh.Proofs
