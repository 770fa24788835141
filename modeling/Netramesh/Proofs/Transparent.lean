import Netramesh.Lib.Pace
import Netramesh.Proofs.Boundary

/-!
# When falling back is transparent

What the handler writes when it gives up is the stream from the place where the
reader stands, if just as much was fetched in this round as was parsed
(`written_eq_iff`). Here that is traced back to what can be said before the
round: the reader has nothing in its buffer, and the network pauses where the
parser stops. And the reader stands where the last message ends, as its fields
delimit it, if the messages before were sound.
-/

namespace Netramesh.Proofs

open Http Protocol Net Lib

/-! ## Pauses of a connection -/

/-- How much the reads up to these cuts fetch. -/
def cutLength : List Nat → Nat
  | [] => 0
  | cut :: cuts => cut + 1 + cutLength cuts

/-- A read ends when `m` bytes are still to come: at the end of the stream, or
at a cut. -/
def Conn.Pauses (m : Nat) (c : Conn) : Prop :=
  m = 0 ∨ ∃ k, k ≤ c.cuts.length ∧ cutLength (c.cuts.take k) + m = c.data.length

theorem Conn.pauses_read {m n : Nat} {c c' : Conn}
    {p : { p : Bytes // p.length ≤ n }} (h : Conn.Pauses m c)
    (hm : m < c.data.length) (hread : c.read n = some (p, c')) :
    Conn.Pauses m c' := by
  rcases h with rfl | ⟨k, hk, hsum⟩
  · exact .inl rfl
  · right
    unfold Conn.read at hread
    split at hread
    · cases hread
    · simp only [Option.some.injEq, Prod.mk.injEq] at hread
      obtain ⟨_, rfl⟩ := hread
      cases hcuts : c.cuts with
      | nil =>
        rw [hcuts, List.take_nil, cutLength] at hsum
        omega
      | cons cut cuts =>
        obtain ⟨k, rfl⟩ : ∃ j, k = j + 1 := by
          refine ⟨k - 1, ?_⟩
          have hpos : k ≠ 0 := by
            rintro rfl
            rw [List.take_zero, cutLength] at hsum
            omega
          omega
        rw [hcuts, List.length_cons] at hk
        rw [hcuts, List.take_succ_cons, cutLength] at hsum
        by_cases hfits : cut < n
        · refine ⟨k, ?_, ?_⟩
          · simp only [Conn.cutsAfter, if_pos hfits]
            omega
          · simp only [Conn.cutsAfter, if_pos hfits, List.length_drop]
            rw [Nat.min_eq_right (by omega)]
            omega
        · -- the cut is longer than there is room, and goes on
          refine ⟨k + 1, ?_, ?_⟩
          · simp only [Conn.cutsAfter, if_neg hfits, List.length_cons]
            omega
          · simp only [Conn.cutsAfter, if_neg hfits, List.length_drop,
              List.take_succ_cons, cutLength]
            rw [Nat.min_eq_left (by omega)]
            omega

theorem Conn.single_read {n : Nat} {c c' : Conn}
    {p : { p : Bytes // p.length ≤ n }} (hn : 0 < n)
    (h : c.cuts = List.replicate c.data.length 0)
    (hread : c.read n = some (p, c')) :
    p.1.length = 1 ∧ c'.cuts = List.replicate c'.data.length 0 := by
  unfold Conn.read at hread
  split at hread
  · cases hread
  · next hne =>
      simp only [Option.some.injEq, Prod.mk.injEq] at hread
      obtain ⟨rfl, rfl⟩ := hread
      obtain ⟨b, bs, hdata⟩ := List.exists_cons_of_ne_nil hne
      rw [hdata, List.length_cons, List.replicate_succ] at h
      have hk : min n (0 + 1) = 1 := by omega
      simp only [h, hk, hdata, Conn.cutsAfter, if_pos hn]
      exact ⟨rfl, rfl⟩

/-- The pace of a connection behind its tee. -/
def teePace : Pace Tee where
  Single s := s.conn.cuts = List.replicate s.conn.data.length 0
  single_read := by
    intro s n p t hn h hread
    obtain ⟨⟨p', c'⟩, hread', heq⟩ := Option.map_eq_some_iff.mp hread
    cases heq
    exact Conn.single_read hn h hread'
  Pauses m s := Conn.Pauses m s.conn
  pauses_le := by
    intro m s h
    rcases h with rfl | ⟨k, _, hsum⟩
    · exact Nat.zero_le _
    · show m ≤ s.conn.data.length
      omega
  pauses_read := by
    intro m s n p t _ h hm hread
    obtain ⟨⟨p', c'⟩, hread', heq⟩ := Option.map_eq_some_iff.mp hread
    cases heq
    exact Conn.pauses_read h hm hread'

/-! ## The parsers are frugal -/

section Parsers

variable {ρ : Type} [Source Err ρ] (P : Pace ρ)

theorem frugal_readLineParts (fuel : Nat) (acc : Bytes) :
    Frugal P (readLineParts fuel acc : Parser ρ Err Bytes) := by
  induction fuel generalizing acc with
  | zero => exact .pure acc
  | succ fuel ih =>
    rw [readLineParts]
    exact (frugal_readLine P).bind fun r => .ite (ih _) (.pure _)

theorem frugal_readLineSlice : Frugal P (readLineSlice : Parser ρ Err Bytes) :=
  .measured fun _ => frugal_readLineParts P _ _

theorem frugal_skipSpaces (fuel n : Nat) :
    Frugal P (skipSpaces fuel n : Parser ρ Err Nat) := by
  induction fuel generalizing n with
  | zero => exact .pure n
  | succ fuel ih =>
    rw [skipSpaces]
    exact (frugal_acceptByte P _).bind fun b => .ite (ih _) (.pure _)

theorem frugal_skipSpace : Frugal P (skipSpace : Parser ρ Err Nat) :=
  .measured fun _ => frugal_skipSpaces P _ _

theorem frugal_readContinuation (fuel : Nat) (acc : Bytes) :
    Frugal P (readContinuation fuel acc : Parser ρ Err Bytes) := by
  induction fuel generalizing acc with
  | zero => exact .pure acc
  | succ fuel ih =>
    rw [readContinuation]
    refine (frugal_skipSpace P).bind fun n => .ite (.pure _) ?_
    refine (frugal_readLineSlice P).attempt.bind fun r => ?_
    cases r with
    | error e => exact .pure _
    | ok l => exact ih _

/-- A letter that is in the buffer is looked at there. -/
theorem readContinuation_buffered (acc : Bytes) {rd : Reader ρ} {c : UInt8}
    {cs : Bytes} (hbuf : rd.buf = c :: cs) (hc : isASCIILetter c = true) :
    (Parser.measured fun fuel =>
      (readContinuation fuel acc : Parser ρ Err Bytes)) rd =
      (.ok acc, rd) := by
  have hawait : rd.await (fun b => !b.isEmpty) = rd := by
    rw [Reader.await, Reader.fillUntil, if_pos (by rw [hbuf]; rfl)]
  have haccept : (Parser.acceptByte isOWS : Parser ρ Err Bool) rd =
      (.ok false, rd) := by
    simp only [Parser.acceptByte, Reader.acceptByte, hawait, hbuf,
      isOWS_of_letter hc, Bool.false_eq_true, if_false]
  have hskip : (skipSpace : Parser ρ Err Nat) rd = (.ok 0, rd) := by
    rw [skipSpace, Parser.measured_run, skipSpaces, Parser.bind_ok haccept]
    rfl
  rw [Parser.measured_run, readContinuation, Parser.bind_ok hskip]
  rfl

/-- The look into the buffer saves no read. -/
theorem readContinuedLineSlice_eq :
    (readContinuedLineSlice : Parser ρ Err Bytes) = (do
    let line ← readLineSlice
    if line = [] then pure line
    else Parser.measured fun fuel => readContinuation fuel (trimOWS line)) := by
  unfold readContinuedLineSlice
  congr 1
  funext line
  split
  · rfl
  · funext rd
    rw [Parser.bind_ok (show (letterBuffered : Parser ρ Err Bool) rd =
      (.ok (decide (1 < rd.buffered) && rd.buf.head?.any isASCIILetter), rd)
        from rfl)]
    split
    · next h =>
        rw [Bool.and_eq_true] at h
        obtain ⟨c, hc, hletter⟩ := Option.any_eq_true _ _ |>.mp h.2
        obtain ⟨cs, hbuf⟩ := List.head?_eq_some_iff.mp hc
        exact (readContinuation_buffered _ hbuf hletter).symm
    · rfl

theorem frugal_readContinuedLineSlice :
    Frugal P (readContinuedLineSlice : Parser ρ Err Bytes) := by
  rw [readContinuedLineSlice_eq]
  exact (frugal_readLineSlice P).bind fun line =>
    .ite (.pure _) (.measured fun _ => frugal_readContinuation P _ _)

theorem frugal_readFields (fuel : Nat) (m : Header) :
    Frugal P (readFields fuel m : Parser ρ Err Header) := by
  induction fuel generalizing m with
  | zero => exact .pure m
  | succ fuel ih =>
    rw [readFields]
    refine (frugal_readContinuedLineSlice P).bind fun kv => .ite (.pure _) ?_
    split
    · exact .fail _
    · exact ih _

theorem frugal_readMIMEHeader :
    Frugal P (readMIMEHeader : Parser ρ Err Header) := by
  unfold readMIMEHeader
  refine (frugal_peek P 1).bind fun b => .ite ?_ ?_
  · exact (frugal_readLineSlice P).bind fun _ => .fail _
  · exact .measured fun _ => frugal_readFields P _ _

theorem frugal_liftExcept {α : Type} (r : Except Err α) :
    Frugal P (liftExcept r : Parser ρ Err α) := by
  cases r with
  | error e => exact .fail e
  | ok a => exact .pure a

theorem frugal_readRequest : Frugal P (readRequest : Parser ρ Err Request) := by
  unfold readRequest
  refine (frugal_readLineSlice P).bind fun s => .mapError ?_ _
  refine (frugal_liftExcept P _).bind fun l => ?_
  exact (frugal_readMIMEHeader P).bind fun h => frugal_liftExcept P _

theorem frugal_readResponse (method : Option Bytes) :
    Frugal P (readResponse method : Parser ρ Err Response) := by
  unfold readResponse
  refine .mapError ?_ _
  refine (frugal_readLineSlice P).bind fun s =>
    (frugal_liftExcept P _).bind fun l => ?_
  exact (frugal_readMIMEHeader P).bind fun h => frugal_liftExcept P _

end Parsers

/-! ## Before the round -/

section Rounds

variable {μ : Type}

/-- A reader that gets the stream byte by byte. -/
def byteFed (fin : Err) (v : Bytes) : Reader Tee :=
  (Loop.init { data := v, cuts := List.replicate v.length 0, fin := fin }).rd

/-- An error that makes the handler return without copying. -/
def EndsCall (e : Err) : Prop := e = .eof ∨ e.mentionsClosed = true

/-- What is wanted of a round that gives up, before it starts: nothing is in the
reader's buffer; the parser, fed byte by byte, fetches no more of the stream
than it consumes, and a read ends where it stops; and it does not fail with an
error that makes the handler return while bytes are pending. -/
structure Paused (H : Handler μ) (s : Loop) : Prop where
  empty : s.rd.buf = []
  asks : (H.read (byteFed s.rd.fin s.rd.view)).2.buf = []
  pause : Conn.Pauses (H.read (byteFed s.rd.fin s.rd.view)).2.view.length
    s.rd.src.conn
  stays : ∀ e, (H.read (byteFed s.rd.fin s.rd.view)).1 = .error e → EndsCall e →
    s.rd.view = []

theorem leads_byteFed {s : Loop} (hsize : s.rd.size = 0xfff) :
    Leads teePace (onTmp .start s.rd) (byteFed s.rd.fin s.rd.view) := by
  refine ⟨⟨hsize, ?_, rfl⟩, rfl, Nat.zero_le _⟩
  show s.rd.view = [] ++ s.rd.view
  rw [List.nil_append]

/-- Then the bytes fetched are the bytes consumed. -/
theorem aligned_of_paused {H : Handler μ} (hH : Conserves H)
    (hF : Frugal teePace H.read) {s : Loop} (hsize : s.rd.size = 0xfff)
    (h : Paused H s) : Aligned H s := by
  have hleads := leads_byteFed hsize
  have hahead : (H.read (onTmp .start s.rd)).2.buf = [] :=
    hF.nothing_ahead hleads h.asks h.pause
  have hresult : (H.read (onTmp .start s.rd)).1 =
      (H.read (byteFed s.rd.fin s.rd.view)).1 :=
    (hH.read.sim _ _ hleads.sim).1
  unfold Aligned
  cases hread : H.read (onTmp .start s.rd) with
  | mk r rd =>
    rw [hread] at hahead hresult
    -- neither reader holds a byte, so both differ from the connection by the
    -- same bytes
    have hsame : fetched s.rd rd = consumed s.rd rd := by
      have hview : ∀ rd' : Reader Tee, rd'.buf = [] →
          rd'.view = rd'.src.conn.data := by
        intro rd' hnil
        show rd'.buf ++ rd'.src.conn.data = _
        rw [hnil, List.nil_append]
      unfold fetched consumed
      rw [hview _ h.empty, hview _ hahead]
    cases r with
    | error e =>
      dsimp only
      split
      · next he => exact h.stays e hresult.symm he
      · exact hsame
    | ok m => exact hsame

/-- Such a round copies, if there is anything to copy. -/
theorem copied_of_paused {H : Handler μ} (hH : Conserves H) {s : Loop}
    (hsize : s.rd.size = 0xfff) (hne : s.rd.view ≠ []) (hg : GivesUp H s)
    (hp : Paused H s) :
    turn H s = .copied (fallback H s (H.read (onTmp .start s.rd)).2) := by
  have hresult : (H.read (onTmp .start s.rd)).1 =
      (H.read (byteFed s.rd.fin s.rd.view)).1 :=
    (hH.read.sim _ _ (leads_byteFed hsize).sim).1
  unfold GivesUp at hg
  unfold turn
  cases hread : H.read (onTmp .start s.rd) with
  | mk r rd =>
    rw [hread] at hresult hg
    cases r with
    | error e =>
      dsimp only
      exact if_neg fun he => hne (hp.stays e hresult.symm he)
    | ok m =>
      dsimp only at hg ⊢
      rw [if_pos hg]

end Rounds

section Handlers

variable {C : Type} (cfg : HTTPConfig) (isInbound : Bool) (tr : Tracer C)
  (idna : Bytes → Option Bytes) (trips : Nat → Trip C)
    (head answersHead : Nat → Bool) (w : World)

/-- What a round writes that gives up is what comes behind the messages that
were forwarded, as their fields delimit them; or there is nothing left to
write. -/
def WritesRest {μ α : Type} (H : Handler μ) (parse : Parser Tee Err α)
    (received : Nat → α → Framing) (stream : Bytes) (s : Loop) : Prop :=
  Boundary parse received s.rd.fin s.count stream (written H s) ∨
    (s.rd.view = [] ∧ written H s = [])

theorem InPlace.writesRest {μ α : Type} {H : Handler μ} (hH : Conserves H)
    (hF : Frugal teePace H.read) {parse : Parser Tee Err α}
    {received : Nat → α → Framing} {stream : Bytes} {s : Loop}
    (hs : InPlace parse received stream s) (htop : Top stream s)
    (hok : NoFail (H.world.fails s.count)) (hg : GivesUp H s)
    (hp : Paused H s) :
    WritesRest H parse received stream s := by
  have heq := (written_eq_iff hH htop hok hg).mpr
    (aligned_of_paused hH hF hs.size hp)
  rcases hs.place with hplace | hnil
  · left
    rw [heq]
    exact hplace
  · exact .inr ⟨hnil, heq.trans hnil⟩

theorem top_of_sound {μ α : Type} {H : Handler μ} (hH : Conserves H)
    {parse : Parser Tee Err α}
    {wanted : Nat → Err → List Bool → α → Bytes → Prop} {conn : Conn} {s : Loop}
    (h : Reaches (fun s t => Rounds H s t ∧ RoundSound H parse wanted s)
      (Loop.init conn) s) :
    Top conn.data s :=
  Reaches.invariant (fun _ _ hs ht => top_next hH hs ht.1) (top_init conn) h

/-- In every run of `HandleRequest` and of `HandleResponse` whose messages are
sound, for any cuts of the stream: a round that gives up parsing, started with
an empty buffer where the network pauses at the end of what the parser takes,
writes the stream from the end of the last forwarded message on. -/
theorem fallback_transparent (conn : Conn) (s : Loop)
    (hok : NoFail (w.fails s.count)) :
    (Reaches (fun s t => Rounds
      (requestHandler cfg isInbound tr idna trips w) s t ∧
        RoundSound (requestHandler cfg isInbound tr idna trips w) requestHead
          (fun _ => RequestSound) s) (Loop.init conn) s →
      GivesUp (requestHandler cfg isInbound tr idna trips w) s →
      Paused (requestHandler cfg isInbound tr idna trips w) s →
      WritesRest (requestHandler cfg isInbound tr idna trips w) requestHead
        (fun _ a => receivedRequest a.1 a.2) conn.data s) ∧
    (Reaches (fun s t => Rounds (responseHandler false head w) s t ∧
        RoundSound (responseHandler false head w) responseHead
          (fun k => ResponseSound (answersHead k)) s) (Loop.init conn) s →
      GivesUp (responseHandler false head w) s →
      Paused (responseHandler false head w) s →
      WritesRest (responseHandler false head w) responseHead
        (fun k a => receivedResponse (answersHead k) a.1 a.2) conn.data s) := by
  constructor
  · intro h hg hp
    have hF := requestHandler_frames cfg isInbound tr idna trips w
    exact (inPlace_reaches hF (requestHandler_heads cfg isInbound tr idna trips
      w) h).writesRest
      hF.conserves (frugal_readRequest teePace)
        (top_of_sound hF.conserves h) hok hg hp
  · intro h hg hp
    have hF := responseHandler_frames head answersHead w
    exact (inPlace_reaches hF (responseHandler_heads head answersHead w)
      h).writesRest
      hF.conserves (frugal_readResponse teePace none)
        (top_of_sound hF.conserves h) hok hg hp

end Handlers

/-! ## Two streams

In the first one read brings more than the parser takes. In the second the line
that cannot be parsed comes in a read of its own, behind a request. -/

theorem fallback_repeats_read_ahead :
    ¬ ∀ (conn : Conn) (s : Loop),
      Reaches (fun s t => Rounds (plainRequests {}) s t ∧
        RoundSound (plainRequests {}) requestHead (fun _ => RequestSound) s)
          (Loop.init conn) s →
      GivesUp (plainRequests {}) s →
      WritesRest (plainRequests {}) requestHead
        (fun _ a => receivedRequest a.1 a.2) conn.data s := by
  intro h
  rcases h { data := lit "garbage\r\nmore" } _ .refl (by decide +kernel) with hb
    | ⟨hnil, _⟩
  · -- nothing was forwarded, so what is written should be the stream
    have heq : ∀ {v u : Bytes},
      Boundary requestHead (fun _ a => receivedRequest a.1 a.2) .eof 0 v u →
        u = v := by
      intro v u hb
      cases hb
      rfl
    exact absurd (heq hb) (by decide +kernel)
  · exact absurd hnil (by decide)

/-- A request that is forwarded, then a line that is none, each in a read of its
own. -/
def separateReads : Conn where
  data := lit "GET / HTTP/1.1\r\n\r\n" ++ lit "garbage\r\n" ++ lit "more"
  cuts := [17, 8]

/-- Its first request has no body. -/
theorem sound_separate (H : Handler Request) :
    RoundSound H requestHead (fun _ => RequestSound)
    (Loop.init separateReads) := by
  intro m a rd _ hread
  have hparse := parses_of_run lawful_requestHead hread rfl
  have hm :=
    hparse.check (fun a v => decide (receivedRequest a.1 a.2 = .length 0 ∧
    Unmixed a.2)) (by decide +kernel)
  obtain ⟨hfr, hmix⟩ := of_decide_eq_true hm
  exact .inr ⟨hmix, fun _ => hfr, .inl hfr⟩

instance (m : Nat) (c : Conn) : Decidable (Conn.Pauses m c) :=
  decidable_of_iff (m = 0 ∨ ∃ k < c.cuts.length + 1,
      cutLength (c.cuts.take k) + m = c.data.length) (by
    simp only [Conn.Pauses, Nat.lt_succ_iff])

instance (e : Err) : Decidable (EndsCall e) :=
  inferInstanceAs (Decidable (_ ∨ _))

/-- A check for `Paused`. -/
def isPaused {μ : Type} (H : Handler μ) (s : Loop) : Bool :=
  let (r, rd) := H.read (byteFed s.rd.fin s.rd.view)
  s.rd.buf.isEmpty && rd.buf.isEmpty &&
    decide (Conn.Pauses rd.view.length s.rd.src.conn) &&
    ((r.map fun _ => true).tryCatch fun e => .ok !decide (EndsCall e)).toOption
      == some true

theorem paused_of_check {μ : Type} {H : Handler μ} {s : Loop}
    (h : isPaused H s = true) :
    Paused H s := by
  unfold isPaused at h
  cases hr : H.read (byteFed s.rd.fin s.rd.view) with
  | mk r rd =>
    rw [hr] at h
    simp only [Bool.and_eq_true, List.isEmpty_iff, decide_eq_true_eq] at h
    obtain ⟨⟨⟨hbuf, hasks⟩, hpause⟩, hstays⟩ := h
    refine ⟨hbuf, by rw [hr]; exact hasks, by rw [hr]; exact hpause,
      fun e he hl => ?_⟩
    rw [hr] at he
    dsimp only at he
    subst he
    simp [Except.map, Except.tryCatch, Except.toOption, hl] at hstays

theorem fallback_transparent_separate :
    (∃ s, Reaches (Rounds (plainRequests {})) (Loop.init separateReads) s ∧
      s.count = 1 ∧ WritesRest (plainRequests {}) requestHead
        (fun _ a => receivedRequest a.1 a.2)
        separateReads.data s ∧
      written (plainRequests {}) s = lit "garbage\r\nmore") ∧
    WritesRest (plainResponses {}) responseHead
      (fun _ a => receivedResponse false a.1 a.2)
      (lit "garbage\r\n") (Loop.init { data := lit "garbage\r\n" }) := by
  have htransparent := fallback_transparent HTTPConfig.default true plainTracer
    (fun _ => none)
    plainTrip (fun _ => false) (fun _ => false) {}
  have hok : ∀ k, NoFail (({} : World).fails k) := by
    intro k b hb
    cases hb
  constructor
  · have hany : (afterRound (plainRequests {}) (Loop.init separateReads)).any
        (fun s =>
        decide (s.count = 1 ∧ GivesUp (plainRequests {}) s ∧
          written (plainRequests {}) s = lit "garbage\r\nmore") &&
        isPaused (plainRequests {}) s) = true := by decide +kernel
    obtain ⟨s, hs, hp⟩ := (Option.any_eq_true _ _).mp hany
    rw [Bool.and_eq_true] at hp
    obtain ⟨hcount, hg, hwritten⟩ := of_decide_eq_true hp.1
    have hround := rounds_of_afterRound hs
    exact ⟨s, Relation.ReflTransGen.single hround, hcount,
      (htransparent separateReads s (hok _)).1
        (.single ⟨hround, sound_separate _⟩) hg
        (paused_of_check hp.2),
      hwritten⟩
  · exact (htransparent { data := lit "garbage\r\n" } _ (hok _)).2 .refl
      (by decide +kernel)
      (paused_of_check (by decide +kernel))

end Netramesh.Proofs
