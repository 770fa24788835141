import Netramesh.Proofs.Bodies
import Netramesh.Proofs.Upgrade

/-!
# One final response for each target

With routing on, a target's connection serves one request, so `HandleResponse`
closes it behind the response. It closes it behind every response but a 100,
also behind an interim one that is not the last to come; and the loop goes on
over what was read ahead, where it may find another response.

The stream of a target is here its interim responses, its first final response
and whatever follows (`Answers`). The loop hands on just these responses exactly
if every interim response is a 100 and what was read ahead of the rest is
harmless.
-/

namespace Netramesh.Proofs

open Http Protocol Net Lib

/-! ## A body takes at least a byte -/

theorem sliceOf_ne_nil {n : Nat} {fin : Err} {v : Bytes} (hn : 0 < n)
    (hv : v ≠ []) :
    (sliceOf nl n fin v).bytes ≠ [] := by
  unfold sliceOf
  split
  · simp [Reader.Slice.bytes]
  · split
    · simp only [Reader.Slice.bytes, ne_eq, List.take_eq_nil_iff, not_or]
      exact ⟨by omega, hv⟩
    · exact hv

theorem takes_readChunkLine {rd : Reader Tee} (hv : rd.view ≠ []) :
    ∃ x, x ≠ [] ∧ Reads rd x (readChunkLine rd).2 := by
  obtain ⟨hslice, hreads⟩ := readSlice_spec nl rd
  have hsize := rd.size_ge
  have hne : ((rd.readSlice nl).1).bytes ≠ [] := by
    rw [hslice]
    exact sliceOf_ne_nil (by omega) hv
  refine ⟨_, hne, ?_⟩
  have hrd : (readChunkLine rd).2 = (rd.readSlice nl).2 := by
    rw [readChunkLine,
      Parser.bind_ok (show Parser.readSlice nl rd = (.ok (rd.readSlice nl).1,
      (rd.readSlice nl).2) from rfl)]
    cases (rd.readSlice nl).1 with
    | full l => rfl
    | ended l e => rfl
    | line l =>
      dsimp only
      split <;> rfl
  rw [hrd]
  exact hreads

theorem takes_read {n : Nat} (hn : 0 < n) {rd : Reader Tee}
    (hv : rd.view ≠ []) :
    ∃ x, x ≠ [] ∧ Reads rd x (rd.read n).2 := by
  rcases read_spec hn rd with ⟨_, hnil, _⟩ | ⟨p, _, hne, _, hreads⟩
  · exact absurd hnil hv
  · exact ⟨p, hne, hreads⟩

/-- The first read of a body takes something of what there is. -/
theorem takes_srcRead {n : Nat} (hn : 0 < n) {cl : Bool} {fr : Framing}
    (hfr : fr ≠ .length 0) {rd : Reader Tee} (hv : rd.view ≠ []) :
    ∃ x, x ≠ [] ∧ Reads rd x ((bodyFor cl fr).src.read n rd).2.2 := by
  cases fr with
  | length k =>
    have hk : k ≠ 0 := fun h => hfr (by rw [h])
    obtain ⟨x, hne, hx⟩ := takes_read (n := min n k) (by omega) hv
    refine ⟨x, hne, ?_⟩
    show Reads rd x (BodySrc.read n rd (.limited k)).2.2
    rw [BodySrc.read, if_neg hk]
    split
    all_goals
      next h =>
        rw [h] at hx
        exact hx
  | close =>
    obtain ⟨x, hne, hx⟩ := takes_read hn hv
    refine ⟨x, hne, ?_⟩
    show Reads rd x (BodySrc.read n rd .wire).2.2
    rw [BodySrc.read]
    split
    all_goals
      next h =>
        rw [h] at hx
        exact hx
  | chunked =>
    obtain ⟨x, hne, hx⟩ := takes_readChunkLine hv
    -- the decoder starts with the line of a chunk
    have hbegin : (beginChunk {} rd).2 = (readChunkLine rd).2 := by
      unfold beginChunk
      split
      · next h => rw [h]
      · next h => split <;> rw [h]
    rw [← hbegin] at hx
    obtain ⟨y, hy⟩ := reads_chunkLoop (rd.view.length + 1) n []
      (beginChunk {} rd).1
      (beginChunk {} rd).2
    exact ⟨x ++ y, by simp [hne], hx.trans hy⟩

theorem takes_copyRead {limit : Option Nat} (hl : limit ≠ some 0) {c : Copy Tee}
    {cl : Bool} {fr : Framing} (hb : c.body = some (bodyFor cl fr))
    (hfr : fr ≠ .length 0) (hsizes : ∀ k ∈ c.sizes, k < 2 ^ 63)
    (hv : c.rd.view ≠ []) :
    ∃ x, x ≠ [] ∧ Reads c.rd x (c.read limit).2.rd := by
  obtain ⟨n, hn, _, hread⟩ := copyRead_eq hb hl hsizes
  obtain ⟨x, hne, hx⟩ := takes_srcRead hn hfr hv
  obtain ⟨y, hy⟩ := reads_bodyRead_then
    (by cases fr <;> rfl) (by cases fr <;> rfl) hx
  rw [hread]
  exact ⟨x ++ y, by simp [hne], hy⟩

/-- Writing a response that has a body reads at least a byte, if there is
one. -/
theorem takes_responseWrite {r : Response} {c : Copy Tee} {cl : Bool}
    {fr : Framing} (hok : NoFail c.out.fails)
    (hb : c.body = some (bodyFor cl fr)) (hfr : fr ≠ .length 0)
    (hsuits : Suits (newResponseWriter r.toWrite) (bodyFor cl fr))
    (hsizes : ∀ k ∈ c.sizes, k < 2 ^ 63) (hv : c.rd.view ≠ []) :
    ∃ x, x ≠ [] ∧ Reads c.rd x (r.write c).2.rd := by
  rw [responseWrite_eq r hok]
  refine reads_writeBody_of (P := fun x => x ≠ []) (fun h => by simp [h]) _ ?_
    (c := Copy.afterHead r.headPieces c)
  intro put limit hlimit
  have hl : limit ≠ some 0 := by
    rcases hlimit with rfl | ⟨hte, hcl, rfl⟩
    · exact nofun
    · -- a counted body has as many bytes to go as are announced
      rcases hsuits with h | h | ⟨_, hleft⟩
      · rw [hte] at h
        cases h
      · exact absurd h hcl
      · rw [bodyFor_left] at hleft
        rw [← hleft]
        cases fr with
        | length k =>
            exact fun h => hfr (congrArg Framing.length (Option.some.inj h))
        | chunked => cases hleft
        | close => cases hleft
  obtain ⟨x, hne, hx⟩ := takes_copyRead (c :=
    Copy.afterHead r.headPieces c) hl hb hfr hsizes
    hv
  obtain ⟨y, hy⟩ := reads_copyLoop_then put (c.rd.view.length + 1) 0 hl hx
  exact ⟨x ++ y, by simp [hne], hy⟩

/-! ## The stream of a target -/

/-- The stream `v` consists of the interim responses `ms`, the final response
`f` and `rest`; the first of them is the `k`-th of the loop. -/
inductive Answers (head : Nat → Bool) (fin : Err) (f : Response)
    (rest : Bytes) :
    Nat → List Response → Bytes → Prop
  | final {k : Nat} {v u : Bytes} : Parses (readResponse none) fin v f u →
      200 ≤ f.statusCode → isUpgrade f.header = false →
        Ends fin (responseFraming (head k) f) u rest →
      Answers head fin f rest k [] v
  | interim {k : Nat} {v u : Bytes} {m : Response} {ms : List Response} :
      Parses (readResponse none) fin v m u → m.statusCode / 100 = 1 →
      isUpgrade m.header = false → Answers head fin f rest (k + 1) ms u →
      Answers head fin f rest k (m :: ms) v

/-- Rounds that forward these messages, in this order. -/
inductive Forwards {μ : Type} (H : Handler μ) : List μ → Loop → Loop → Prop
  | nil {s : Loop} : Forwards H [] s s
  | cons {m : μ} {ms : List μ} {s t u : Loop} : (H.read (onTmp .start s.rd)).1 =
      .ok m → turn H s = .next t → Forwards H ms t u → Forwards H (m :: ms) s u

/-- A response as it is written: its head, the pieces of its body and what
stands behind them. -/
def responseWire (r : Response) (ps : List Bytes) (hdr : Option Header) :
    Bytes :=
  r.headPieces.flatten ++
    (piecesWire (newResponseWriter r.toWrite) ps ++
      endWire (newResponseWriter r.toWrite) hdr)

/-- The final response as it is written. Of the answer to a HEAD that announces
a body only the head is. -/
def finalWire (answersHead : Bool) (f : Response) (ps : List Bytes)
    (hdr : Option Header) :
    Bytes :=
  if answersHead && f.body.isSome then f.headPieces.flatten
    else responseWire f ps hdr

section OneFinal

variable (head : Nat → Bool) (w : World)

/-- The copy of a response as it starts: the answer to a HEAD is written from a
connection that is closed already. -/
def startCopy (s : Loop) (f : Response) (rd : Reader Tee) : Copy Tee :=
  let c := s.copy (responseHandler true head w) f rd
  if head s.count then { c with rd := closeRead c.rd } else c

/-- `HandleResponse` forwards the interim responses and the final one, in order:
the connection is open when the final one is read, and its copy stops where it
ends. What is written is the interim responses and the final one with the body
`data` that was sent behind it, in pieces `ps`, and nothing else. -/
def OneFinal (conn : Conn) (ms : List Response) (f : Response) : Prop :=
  ∃ s rd t data hdr ps, Forwards (responseHandler true head w) ms
    (Loop.init conn) s ∧ s.rd.view <:+ conn.data ∧ s.rd.fin = conn.fin ∧
    readResponse none (onTmp .start s.rd) = (.ok f, rd) ∧
    turn (responseHandler true head w) s = .next t ∧
    Carries (startCopy head w s f rd).rd.fin (responseFraming (head s.count) f)
      (startCopy head w s f rd).rd.view data hdr
        (f.write (startCopy head w s f rd)).2.rd.view ∧
    ps.flatten = data ∧
    (handle (responseHandler true head w) (Loop.init conn)).out =
      ms.flatMap (fun m => responseWire m [] none) ++
        finalWire (head s.count) f ps hdr ∧
    written (responseHandler true head w) t = [] ∧
    ∀ u, turn (responseHandler true head w) t ≠ .next u

/-- Nothing comes of these bytes when a closed connection has left them in the
buffer: they do not begin with a response, and an error that makes the handler
copy leaves nothing to copy. -/
def Harmless (b : Bytes) : Prop :=
  match readResponse none (standing .closedConn b) with
  | (.error e, rd) => e = .eof ∨ e.mentionsClosed = true ∨ rd.view = []
  | (.ok m, rd) => isUpgrade m.header = true ∧ rd.view = []

/-- The state after so many forwarded messages. -/
def afterRounds {μ : Type} (H : Handler μ) : Nat → Loop → Option Loop
  | 0, s => some s
  | n + 1, s => (afterRound H s).bind (afterRounds H n)

/-- The condition: the interim responses are 100s; the answer to a HEAD has no
body, or nothing was read ahead of what follows its header; and what was read
ahead behind the final response is harmless. -/
structure Tame (conn : Conn) (ms : List Response) (f : Response) : Prop where
  interim : ∀ m ∈ ms, m.statusCode = 100
  toHead : ∀ s rd, afterRounds (responseHandler true head w) ms.length
    (Loop.init conn) = some s →
    readResponse none (onTmp .start s.rd) = (.ok f, rd) → head s.count = true →
    f.body = none ∨ rd.buf = []
  readAhead : ∀ t, afterRounds (responseHandler true head w) (ms.length + 1)
    (Loop.init conn) = some t → Harmless t.rd.buf

end OneFinal

theorem afterRound_of_rounds {μ : Type} {H : Handler μ} {s t : Loop}
    (h : turn H s = .next t) :
    afterRound H s = some t := by
  rw [afterRound, h]

theorem Forwards.after {μ : Type} {H : Handler μ} {ms : List μ} {s t : Loop}
    (h : Forwards H ms s t) : afterRounds H ms.length s = some t := by
  induction h with
  | nil => rfl
  | cons _ hturn _ ih =>
    show (afterRound H _).bind _ = _
    rw [afterRound_of_rounds hturn]
    exact ih

theorem Forwards.after_next {μ : Type} {H : Handler μ} {ms : List μ}
    {s t u : Loop} (h : Forwards H ms s t) (hu : turn H t = .next u) :
    afterRounds H (ms.length + 1) s = some u := by
  induction h with
  | nil =>
    show (afterRound H _).bind _ = _
    rw [afterRound_of_rounds hu]
    rfl
  | cons _ hturn _ ih =>
    show (afterRound H _).bind _ = _
    rw [afterRound_of_rounds hturn]
    exact ih hu

/-! ## Rounds -/

section Rounds

variable {head : Nat → Bool} {w : World}

/-- What `HandleResponse` does with a response it has read. -/
theorem responseTurn_eq (head : Nat → Bool) (w : World) {s : Loop}
    {m : Response} {rd : Reader Tee}
    (hread : readResponse none (onTmp .start s.rd) = (.ok m, rd))
    (hup : isUpgrade m.header = false) :
    ∃ t, turn (responseHandler true head w) s = .next t ∧
      t.count = s.count + 1 ∧ t.rd = if m.statusCode = 100 then
        (m.write (s.copy (responseHandler true head w) m rd)).2.rd
        else closeRead (m.write (startCopy head w s m rd)).2.rd := by
  have hup' : (responseHandler true head w).isUpgrade m = false := hup
  have hturn : turn (responseHandler true head w) s = .next
      { rd := ((responseHandler true head w).forward s.count m
          (s.copy (responseHandler true head w) m rd)).2.rd
        out := ((responseHandler true head w).forward s.count m
          (s.copy (responseHandler true head w) m rd)).2.out.bytes
        count := s.count + 1 } := by
    rw [turn, show (responseHandler true head w).read _ = _ from hread]
    dsimp only
    rw [if_neg (by simp [hup'])]
  refine ⟨_, hturn, rfl, ?_⟩
  by_cases h100 : m.statusCode = 100
  · simp [responseHandler, h100]
  · simp [responseHandler, startCopy, h100]

theorem Forwards.reaches {μ : Type} {H : Handler μ} {ms : List μ} {s u : Loop}
    (h : Forwards H ms s u) : Reaches (Rounds H) s u := by
  induction h with
  | nil => exact .refl
  | cons _ hturn _ ih => exact .head hturn ih

/-- A call whose last round writes nothing has written what the rounds before it
did. -/
theorem out_of_quiet {μ : Type} {H : Handler μ}
    (hlt : ∀ {s t : Loop}, turn H s = .next t →
      t.rd.view.length < s.rd.view.length)
    {s u : Loop} (h : Reaches (Rounds H) s u)
    (hok : NoFail (H.world.fails u.count)) (hwritten : written H u = [])
    (hlast : ∀ x, turn H u ≠ .next x) : (handle H s).out = u.out := by
  unfold written at hwritten
  cases hturn : turn H u with
  | next x => exact absurd hturn (hlast x)
  | returned x =>
    rw [handle_of_shrinking hlt h (.inr hturn)]
    unfold turn at hturn
    split at hturn
    · split at hturn <;> cases hturn
      rfl
    · split at hturn <;> cases hturn
  | copied x =>
    rw [hturn] at hwritten
    rw [handle_of_shrinking hlt h (.inl hturn)]
    have hfall : ∃ rd, x = fallback H u rd := by
      unfold turn at hturn
      split at hturn
      · split at hturn <;> cases hturn
        exact ⟨_, rfl⟩
      · split at hturn <;> cases hturn
        exact ⟨_, rfl⟩
    obtain ⟨rd, rfl⟩ := hfall
    dsimp only at hwritten
    rw [fallback_bytes hok, List.drop_left] at hwritten
    rw [fallback_bytes hok, hwritten, List.append_nil]

/-- What a round makes of a response it forwards. -/
theorem responseTurn_next {s u : Loop} {m : Response} {rd : Reader Tee}
    (hread : readResponse none (onTmp .start s.rd) = (.ok m, rd))
    (h : turn (responseHandler true head w) s = .next u) :
    u.rd =
      (if m.statusCode = 100 then
      (m.write (s.copy (responseHandler true head w) m rd)).2.rd
        else closeRead (m.write (startCopy head w s m rd)).2.rd) ∧
      u.out = (if m.statusCode = 100
        then (m.write (s.copy (responseHandler true head w) m rd)).2.out.bytes
        else (m.write (startCopy head w s m rd)).2.out.bytes) := by
  obtain ⟨m', rd', _, hread', _, rfl, rfl⟩ := turn_next h
  rw [show (responseHandler true head w).read (onTmp .start s.rd) = _ from
    hread] at hread'
  cases hread'
  by_cases h100 : m.statusCode = 100
  · simp [responseHandler, h100]
  · simp [responseHandler, startCopy, h100]

theorem forwards_read {s : Loop} {m : Response}
    (h : ((responseHandler true head w).read (onTmp .start s.rd)).1 = .ok m) :
    ∃ rd, readResponse none (onTmp .start s.rd) = (.ok m, rd) := by
  change (readResponse none (onTmp .start s.rd)).1 = .ok m at h
  exact ⟨_, Prod.ext h rfl⟩

theorem startCopy_of_head {s : Loop} (h : head s.count = true) (m : Response)
    (rd : Reader Tee) : startCopy head w s m rd =
      { s.copy (responseHandler true head w) m rd with
        rd := closeRead (onTmp .stop rd) } :=
  if_pos h

theorem startCopy_of_not_head {s : Loop} (h : head s.count = false)
    (m : Response) (rd : Reader Tee) :
    startCopy head w s m rd = s.copy (responseHandler true head w) m rd :=
  if_neg (by simp [h])

/-- A copy starts with the message and the output of the round, whether the
target is closed before or not. -/
theorem startCopy_spec (head : Nat → Bool) (w : World) (s : Loop) (m : Response)
    (rd : Reader Tee) :
    (startCopy head w s m rd).body = m.body ∧
      (startCopy head w s m rd).trailer = none ∧
      (startCopy head w s m rd).out =
        { bytes := s.out, fails := w.fails s.count } ∧
      (startCopy head w s m rd).sizes = w.sizes s.count ∧
      (startCopy head w s m rd).rd.size = rd.size ∧
      (startCopy head w s m rd).rd.src.tmp = rd.src.tmp.stop := by
  cases h : head s.count with
  | true =>
    rw [startCopy_of_head h]
    exact ⟨rfl, rfl, rfl, rfl, rfl, rfl⟩
  | false =>
    rw [startCopy_of_not_head h]
    exact ⟨rfl, rfl, rfl, rfl, rfl, rfl⟩

/-- A copy of a response, of a target that is closed before or not, takes from
the reader and leaves the temp writer as it is. -/
theorem startCopy_reads (head : Nat → Bool) (w : World) (s : Loop)
    (m : Response) (rd : Reader Tee) :
    ∃ x, (startCopy head w s m rd).rd.view = x ++
        (m.write (startCopy head w s m rd)).2.rd.view ∧
      (m.write (startCopy head w s m rd)).2.rd.size = rd.size ∧
      (m.write (startCopy head w s m rd)).2.rd.src.tmp.buf = [] := by
  obtain ⟨x, hx⟩ := reads_responseWrite m (startCopy head w s m rd)
  obtain ⟨_, _, _, _, hsize, htmp⟩ := startCopy_spec head w s m rd
  refine ⟨x, hx.view, hx.size.trans hsize, ?_⟩
  rw [(reads_fetched hx).2, htmp, write_of_stopped rfl]
  rfl

theorem copy_reads (head : Nat → Bool) (w : World) (s : Loop) (m : Response)
    (rd : Reader Tee) :
    ∃ x, rd.view =
      x ++ (m.write (s.copy (responseHandler true head w) m rd)).2.rd.view ∧
      (m.write (s.copy (responseHandler true head w) m rd)).2.rd.size =
        rd.size ∧
      (m.write (s.copy (responseHandler true head w) m rd)).2.rd.src.tmp.buf =
        [] := by
  obtain ⟨x, hx⟩ := reads_responseWrite m
    (s.copy (responseHandler true head w) m rd)
  refine ⟨x, hx.view, hx.size, ?_⟩
  rw [(reads_fetched hx).2, write_of_stopped rfl]
  rfl

/-- The place of the reader between two rounds. -/
structure Between (s : Loop) : Prop where
  size : s.rd.size = 0xfff
  empty : s.rd.src.tmp.buf = []

theorem between_init (conn : Conn) : Between (Loop.init conn) := ⟨rfl, rfl⟩

theorem between_next {s u : Loop} (hs : Between s)
    (h : turn (responseHandler true head w) s = .next u) : Between u := by
  obtain ⟨m, rd, _, hread, _, _, _⟩ := turn_next h
  change readResponse none (onTmp .start s.rd) = (.ok m, rd) at hread
  obtain ⟨hrd, _⟩ := responseTurn_next hread h
  obtain ⟨c, hreads⟩ := Reads.of_lawful
    (responseHandler_conserves head w).read hread
  have hsize : rd.size = 0xfff := hreads.size.trans hs.size
  by_cases h100 : m.statusCode = 100
  · rw [if_pos h100] at hrd
    obtain ⟨_, _, hsz, hbuf⟩ := copy_reads head w s m rd
    rw [← hrd] at hsz hbuf
    exact ⟨hsz.trans hsize, hbuf⟩
  · rw [if_neg h100] at hrd
    obtain ⟨_, _, hsz, hbuf⟩ := startCopy_reads head w s m rd
    exact ⟨by rw [hrd]; exact hsz.trans hsize, by rw [hrd]; exact hbuf⟩

/-- Closing leaves what is in the buffer. -/
theorem length_closeRead (rd : Reader Tee) :
    (closeRead rd).view.length ≤ rd.view.length := by
  show (rd.buf ++ []).length ≤ (rd.buf ++ rd.src.conn.data).length
  rw [List.append_nil, List.length_append]
  exact Nat.le_add_right _ _

theorem view_startCopy (head : Nat → Bool) (w : World) (s : Loop) (m : Response)
    (rd : Reader Tee) :
    (startCopy head w s m rd).rd.view.length ≤ rd.view.length := by
  unfold startCopy
  dsimp only
  split
  · exact length_closeRead (onTmp .stop rd)
  · exact Nat.le_refl _

theorem responseTurn_lt {s u : Loop}
    (h : turn (responseHandler true head w) s = .next u) :
    u.rd.view.length < s.rd.view.length := by
  obtain ⟨m, rd, _, hread, _, _, _⟩ := turn_next h
  change readResponse none (onTmp .start s.rd) = (.ok m, rd) at hread
  have hshort := shrinks_readResponse none _ _ _ hread
  rw [view_onTmp] at hshort
  obtain ⟨hrd, _⟩ := responseTurn_next hread h
  by_cases h100 : m.statusCode = 100
  · rw [if_pos h100] at hrd
    obtain ⟨x, hview, _, _⟩ := copy_reads head w s m rd
    rw [hview, ← hrd, List.length_append] at hshort
    omega
  · rw [if_neg h100] at hrd
    obtain ⟨x, hview, _, _⟩ := startCopy_reads head w s m rd
    have hstart := view_startCopy head w s m rd
    have hclose := length_closeRead (m.write (startCopy head w s m rd)).2.rd
    rw [hview, List.length_append] at hstart
    rw [hrd]
    omega

theorem responseWrite_noBody {m : Response} {c : Copy Tee} (hb : c.body = none)
    (htrailer : c.trailer = none) (hok : NoFail c.out.fails) :
    (m.write c).2.out.bytes = c.out.bytes ++ responseWire m [] none := by
  have hpieces : piecesWire (newResponseWriter m.toWrite) [] = [] := by
    unfold piecesWire
    split <;> rfl
  rw [responseWrite_eq m hok,
    writeBody_noBody_bytes (c := Copy.afterHead m.headPieces c) hb
    htrailer (writeAll_ok _ hok).2.2, afterHead_bytes _ hok, responseWire,
      hpieces, List.nil_append,
    List.append_assoc]

/-- A response of the 1xx class has no body. -/
theorem interim_noBody {m : Response} {rd rd' : Reader Tee}
    (hread : readResponse none rd = (.ok m, rd'))
    (hstatus : m.statusCode / 100 = 1) :
    m.body = none := by
  obtain ⟨_, l, h, _, _, _, _, hr⟩ := readResponse_parts hread
  refine (finishResponse_noBody hr).mpr ?_
  have hallowed : bodyAllowedForStatus m.statusCode = false := by
    simp only [bodyAllowedForStatus, Bool.and_eq_false_iff, Bool.not_eq_false',
      Bool.and_eq_true, decide_eq_true_eq]
    omega
  rw [responseFraming, hallowed]
  rfl

/-- A round does not open what is closed, and closes behind anything but a
100. -/
theorem responseTurn_fin {s t : Loop} {m : Response}
    (hread : (readResponse none (onTmp .start s.rd)).1 = .ok m)
    (h : turn (responseHandler true head w) s = .next t) :
    (m.statusCode ≠ 100 → t.rd.fin = .closedConn) ∧
      (s.rd.fin = .closedConn → t.rd.fin = .closedConn) := by
  obtain ⟨m', rd, _, hread', hup, _, _⟩ := turn_next h
  change readResponse none (onTmp .start s.rd) = (.ok m', rd) at hread'
  rw [hread'] at hread
  cases hread
  obtain ⟨t', ht', _, hrd⟩ := responseTurn_eq head w hread' hup
  rw [h] at ht'
  cases ht'
  rw [hrd]
  refine ⟨fun h100 => by rw [if_neg h100]; rfl, fun hclosed => ?_⟩
  split
  · obtain ⟨x, hx⟩ := reads_responseWrite m
      (s.copy (responseHandler true head w) m rd)
    obtain ⟨y, hy⟩ := Reads.of_lawful
      (responseHandler_conserves head w).read hread'
    exact (hx.fin.trans hy.fin).trans hclosed
  · rfl

theorem Forwards.closed {ms : List Response} {s t : Loop}
    (h : Forwards (responseHandler true head w) ms s t)
    (hs : s.rd.fin = .closedConn) :
    t.rd.fin = .closedConn := by
  induction h with
  | nil => exact hs
  | cons hread hturn _ ih => exact ih ((responseTurn_fin hread hturn).2 hs)

/-- A connection that is open has seen 100s only. -/
theorem Forwards.hundreds {ms : List Response} {s t : Loop}
    (h : Forwards (responseHandler true head w) ms s t)
    (ht : t.rd.fin ≠ .closedConn) :
    ∀ m ∈ ms, m.statusCode = 100 := by
  induction h with
  | nil =>
    intro m hm
    cases hm
  | cons hread hturn hrest ih =>
    intro m hm
    rcases List.mem_cons.mp hm with rfl | hm
    · by_contra h100
      exact ht (hrest.closed ((responseTurn_fin hread hturn).1 h100))
    · exact ih ht m hm

/-- The reader stands at the final response, with everything still to come. -/
structure AtFinal (head : Nat → Bool) (fin : Err) (f : Response)
    (rest v : Bytes) (s : Loop) :
    Prop where
  size : s.rd.size = 0xfff
  fin_eq : s.rd.fin = fin
  suffix : s.rd.view <:+ v
  status : 200 ≤ f.statusCode
  proceeds : isUpgrade f.header = false
  parses : ∃ u, Parses (readResponse none) fin s.rd.view f u ∧
    Ends fin (responseFraming (head s.count) f) u rest

/-- Interim responses that are 100s leave the connection as it is. -/
theorem forwards_of_hundreds {fin : Err} {f : Response} {rest v : Bytes}
    {k : Nat} {ms : List Response} (h : Answers head fin f rest k ms v)
    (h100 : ∀ m ∈ ms, m.statusCode = 100) {s : Loop} (hsize : s.rd.size = 0xfff)
    (hfin : s.rd.fin = fin) (hview : s.rd.view = v) (hcount : s.count = k) :
    ∃ t, Forwards (responseHandler true head w) ms s t ∧
      AtFinal head fin f rest v t := by
  induction h generalizing s with
  | final hparse hstatus hup hends =>
    subst hcount hview
    exact ⟨s, .nil, hsize, hfin, List.suffix_refl _, hstatus, hup, _, hparse,
      hends⟩
  | @interim k v u m ms hparse hstatus hup _ ih =>
    subst hcount hview hfin
    have hstart : Parses (readResponse none) (onTmp .start s.rd).fin
        (onTmp .start s.rd).view m u :=
      hparse
    obtain ⟨rd, c, hread, hreads, hrd⟩ :=
      hstart.run (responseHandler_conserves head w).read hsize
    obtain ⟨t, hturn, htcount, htrd⟩ := responseTurn_eq head w hread hup
    rw [if_pos (h100 m List.mem_cons_self),
      responseWrite_noBody_rd m (interim_noBody hread hstatus)] at htrd
    have hv : t.rd.view = u := by
      rw [htrd]
      exact hrd
    have hf : t.rd.fin = s.rd.fin := by
      rw [htrd]
      exact hreads.fin
    obtain ⟨t', hforwards, hat⟩ :=
      ih (fun m' hm => h100 m' (List.mem_cons_of_mem _ hm))
      (by rw [htrd]; exact hreads.size.trans hsize) hf hv htcount
    refine ⟨t',
      .cons
      (by rw [show (responseHandler true head w).read _ = _ from hread]) hturn
      hforwards, { hat with suffix := hat.suffix.trans ?_ }⟩
    rw [← hrd]
    exact ⟨c, hreads.view.symm⟩

/-- The copy of the final response stops where it ends; the copy of an answer to
a HEAD stops there if it has no body to read, or nothing to read it from. -/
theorem final_ends_iff {fin : Err} {f : Response} {rest v : Bytes} {s : Loop}
    {rd : Reader Tee} (hat : AtFinal head fin f rest v s)
    (hok : NoFail (w.fails s.count))
    (hread : readResponse none (onTmp .start s.rd) = (.ok f, rd)) :
    Ends (startCopy head w s f rd).rd.fin (responseFraming (head s.count) f)
      (startCopy head w s f rd).rd.view
        (f.write (startCopy head w s f rd)).2.rd.view ↔
    (head s.count = true → f.body = none ∨ rd.buf = []) := by
  obtain ⟨_, l, h, _, _, _, _, hr⟩ := readResponse_parts hread
  obtain ⟨c, hreads⟩ := Reads.of_lawful
    (responseHandler_conserves head w).read hread
  have hsize : rd.size = 0xfff := hreads.size.trans hat.size
  cases hhead : head s.count with
  | false =>
    refine iff_of_true ?_ (by simp)
    have hcopy : startCopy head w s f rd =
        s.copy (responseHandler false head w) f rd :=
      startCopy_of_not_head hhead f rd
    obtain ⟨u, hparse, hends⟩ := hat.parses
    have hu : rd.view = u := by
      have hp : Parses (readResponse none) _ _ f rd.view :=
        parses_of_run (responseHandler_conserves head w).read hread hat.size
      rw [show (onTmp TempWriter.start s.rd).fin = fin from hat.fin_eq] at hp
      exact (hp.unique hparse).2
    have hrdfin : rd.fin = fin := hreads.fin.trans hat.fin_eq
    rw [hhead, ← hu, ← hrdfin] at hends
    rw [hcopy]
    show Ends rd.fin _ rd.view _
    by_cases hbody : f.body = none
    · rw [responseWrite_noBody_rd f (c :=
        s.copy (responseHandler false head w) f rd) hbody,
        (finishResponse_noBody hr).mp hbody]
      exact ⟨_, _, .length (Nat.zero_le _)⟩
    · have hfr : responseFraming false f ≠ .length 0 := fun hf =>
        hbody ((finishResponse_noBody hr).mpr hf)
      have hrest := forward_rest
        (responseHandler_frames head (fun _ => false) w) (s := s)
        (show (responseHandler false head w).read _ = _ from
          hread) hsize hfr hbody hok hends
      rw [responseForward_eq] at hrest
      rw [hrest]
      exact hends
  | true =>
    -- the end of an answer to a HEAD is the end of its header section
    have hcopy := startCopy_of_head (w := w) hhead f rd
    have hview : (startCopy head w s f rd).rd.view = rd.buf := by
      rw [hcopy]
      show rd.buf ++ [] = rd.buf
      rw [List.append_nil]
    have hfr : responseFraming true f = .length 0 := rfl
    rw [hfr]
    have hends : Ends (startCopy head w s f rd).rd.fin (.length 0)
        (startCopy head w s f rd).rd.view
          (f.write (startCopy head w s f rd)).2.rd.view ↔
        (f.write (startCopy head w s f rd)).2.rd.view = rd.buf := by
      rw [hview]
      constructor
      · rintro ⟨data, hdr, hc⟩
        exact hc.of_length.2.2.2
      · intro heq
        rw [heq]
        exact ⟨_, _, .length (Nat.zero_le _)⟩
    rw [hends]
    obtain ⟨y, hy⟩ := reads_responseWrite f (startCopy head w s f rd)
    constructor
    · intro heq _
      by_contra hno
      rw [not_or] at hno
      obtain ⟨b, hb⟩ := Option.ne_none_iff_exists'.mp hno.1
      have hfr' : responseFraming false f ≠ .length 0 := fun hf =>
        hno.1 ((finishResponse_noBody hr).mpr hf)
      obtain ⟨⟨cl, rfl⟩, hch, hlen⟩ := finishResponse_body hr hb hfr'
      obtain ⟨x, hne, hx⟩ := takes_responseWrite (c := startCopy head w s f rd)
        (by rw [hcopy]; exact hok) (by rw [hcopy]; exact hb) hfr'
        (suits_response rfl hfr' hch hlen)
          (by rw [hcopy]; exact w.sizes_lt s.count)
        (by rw [hview]; exact hno.2)
      have := hx.view
      rw [hview, heq, List.self_eq_append_left] at this
      exact hne this
    · intro hcond
      rcases hcond rfl with hbody | hbuf
      · rw [responseWrite_noBody_rd f (by rw [hcopy]; exact hbody), hview]
      · rw [hbuf]
        have := hy.view
        rw [hview, hbuf] at this
        exact (List.append_eq_nil_iff.mp this.symm).2

/-- 100s go out one behind the other. -/
theorem Forwards.hundreds_written {ms : List Response} {s t : Loop}
    (h : Forwards (responseHandler true head w) ms s t)
    (h100 : ∀ m ∈ ms, m.statusCode = 100) (hok : ∀ k, NoFail (w.fails k)) :
    t.out = s.out ++ ms.flatMap fun m => responseWire m [] none := by
  induction h with
  | nil => simp
  | @cons m ms s t u hread hturn _ ih =>
    obtain ⟨rd, hrun⟩ := forwards_read hread
    have hm := h100 m List.mem_cons_self
    obtain ⟨_, hout⟩ := responseTurn_next hrun hturn
    rw [if_pos hm, responseWrite_noBody (c :=
      s.copy (responseHandler true head w) m rd)
      (interim_noBody hrun (by rw [hm])) rfl (hok _)] at hout
    rw [ih fun m' hm' => h100 m' (List.mem_cons_of_mem _ hm'), hout,
      List.flatMap_cons]
    exact List.append_assoc _ _ _

/-- A response that lasts to the end of the connection is not written in
chunks. -/
theorem writer_not_chunked {f : Response}
    (hclose : responseFraming false f = .close) :
    chunked (newResponseWriter f.toWrite).transferEncoding = false := by
  have hplain : chunked f.transferEncoding = false := by
    by_contra hc
    unfold responseFraming at hclose
    rw [if_pos (show chunked f.transferEncoding = true by simpa using hc)]
      at hclose
    split at hclose <;> cases hclose
  show chunked (if protoAtLeast f.protoMajor f.protoMinor 1 1 then
    f.transferEncoding else []) = false
  split
  · exact hplain
  · rfl

/-- What the copy of the final response writes. -/
theorem final_written {fin : Err} {f : Response} {rest v data : Bytes}
    {s : Loop} {rd : Reader Tee} {hdr : Option Header}
    (hat : AtFinal head fin f rest v s) (hok : NoFail (w.fails s.count))
    (hread : readResponse none (onTmp .start s.rd) = (.ok f, rd))
    (hcarries : Carries (startCopy head w s f rd).rd.fin
      (responseFraming (head s.count) f)
      (startCopy head w s f rd).rd.view data hdr
      (f.write (startCopy head w s f rd)).2.rd.view)
    (hhead : head s.count = true → f.body = none ∨ rd.buf = []) :
    ∃ ps, ps.flatten = data ∧
      (f.write (startCopy head w s f rd)).2.out.bytes =
        s.out ++ finalWire (head s.count) f ps hdr := by
  obtain ⟨_, l, h, _, _, _, _, hr⟩ := readResponse_parts hread
  obtain ⟨c, hreads⟩ := Reads.of_lawful
    (responseHandler_conserves head w).read hread
  obtain ⟨hbody, htrailer, hout, hsizes, hsize, _⟩ :=
    startCopy_spec head w s f rd
  have hfails : NoFail (startCopy head w s f rd).out.fails := by
    rw [hout]
    exact hok
  have hsize' : (startCopy head w s f rd).rd.size = 0xfff :=
    (hsize.trans hreads.size).trans hat.size
  have hsizes' : ∀ k ∈ (startCopy head w s f rd).sizes, k < 2 ^ 63 := by
    rw [hsizes]
    exact w.sizes_lt s.count
  have hempty : responseFraming (head s.count) f = .length 0 →
      data = [] ∧ hdr = none := by
    intro hfr
    rw [hfr] at hcarries
    obtain ⟨_, hdata, hhdr, _⟩ := hcarries.of_length
    exact ⟨hdata, hhdr⟩
  cases hb : f.body with
  | none =>
    have hfr : responseFraming (head s.count) f = .length 0 := by
      cases head s.count with
      | true => rfl
      | false => exact (finishResponse_noBody hr).mp hb
    obtain ⟨rfl, rfl⟩ := hempty hfr
    refine ⟨[], rfl, ?_⟩
    rw [responseWrite_noBody (hbody.trans hb) htrailer hfails, finalWire,
      hb, hout]
    simp
  | some b =>
    have hfr : responseFraming false f ≠ .length 0 := fun hf => by
      rw [(finishResponse_noBody hr).mpr hf] at hb
      cases hb
    obtain ⟨⟨cl, rfl⟩, hch, hlen⟩ := finishResponse_body hr hb hfr
    have hsuits := suits_response (rfl : _ = bodyFor cl _) hfr hch hlen
    have hclose := writer_not_chunked (f := f)
    rw [responseWrite_eq f hfails]
    cases hh : head s.count with
    | false =>
      rw [hh] at hcarries
      obtain ⟨_, ps, hflat, _, hbytes⟩ := writeBody_carries
        (c := Copy.afterHead f.headPieces (startCopy head w s f rd))
        (.inr ⟨hfr, cl, hbody.trans hb, hsuits⟩) hclose htrailer
          (writeAll_ok _ hfails).2.2 hsize'
        hsizes' hcarries
      refine ⟨ps, hflat, ?_⟩
      rw [hbytes, afterHead_bytes _ hfails, hout, finalWire, Bool.false_and,
        if_neg (by simp), responseWire, List.append_assoc]
    | true =>
      -- the connection is closed and nothing was read ahead
      have hbuf : rd.buf = [] := (hhead hh).resolve_left (by rw [hb]; simp)
      have hview : (startCopy head w s f rd).rd.view = [] := by
        rw [startCopy_of_head hh]
        show rd.buf ++ [] = []
        rw [hbuf, List.append_nil]
      obtain ⟨rfl, rfl⟩ := hempty (by rw [hh]; rfl)
      refine ⟨[], rfl, ?_⟩
      rw [writeBody_nothing (c :=
        Copy.afterHead f.headPieces (startCopy head w s f rd)) hfr
        (hbody.trans hb) hsuits hclose htrailer
          (writeAll_ok _ hfails).2.2 hsize' hsizes' hview,
        afterHead_bytes _ hfails, hout, finalWire, hb]
      simp

/-- Once the connection is closed, the coming round writes nothing and is the
last one exactly if what is left in the buffer is harmless. -/
theorem quiet_iff {t : Loop} (hok : NoFail (w.fails t.count))
    (hsize : t.rd.size = 0xfff)
    (hconn : t.rd.src.conn = { data := [], fin := .closedConn })
    (htmp : t.rd.src.tmp.buf = []) :
    (written (responseHandler true head w) t = [] ∧
      ∀ u, turn (responseHandler true head w) t ≠ .next u) ↔
        Harmless t.rd.buf := by
  have hview : (onTmp TempWriter.start t.rd).view = t.rd.buf := by
    show t.rd.buf ++ t.rd.src.conn.data = _
    rw [hconn, List.append_nil]
  have hfin : (onTmp TempWriter.start t.rd).fin = .closedConn := by
    show t.rd.src.conn.fin = _
    rw [hconn]
  have hsim := (responseHandler_conserves head w).read.sim _ _
    (show Sim (onTmp TempWriter.start t.rd) _ from sim_standing hsize)
  rw [hview, hfin] at hsim
  change (readResponse none _).1 = (readResponse none _).1 ∧
    Sim (readResponse none _).2 (readResponse none _).2 at hsim
  unfold Harmless written turn
  rw [show (responseHandler true head w).read = readResponse none from rfl]
  cases hread : readResponse none (onTmp TempWriter.start t.rd) with
  | mk r rd =>
    obtain ⟨c, hc⟩ := Reads.of_lawful
      (responseHandler_conserves head w).read hread
    -- nothing is fetched from a closed connection
    have hbuf : rd.src.tmp.buf = [] := by
      have hf := (reads_fetched hc).2
      have hnil : fetched (onTmp TempWriter.start t.rd) rd = [] := by
        show List.take _ t.rd.src.conn.data = []
        rw [hconn, List.take_nil]
      rw [hf, hnil, TempWriter.write_nil]
      exact htmp
    have hcopied : ∀ rd', rd'.src.tmp.buf = [] →
        (fallback (responseHandler true head w) t rd').out.drop t.out.length =
          rd'.view := by
      intro rd' h
      rw [fallback_bytes hok, List.drop_left, h, List.nil_append]
    rw [hread] at hsim
    cases hst : readResponse none (standing .closedConn t.rd.buf) with
    | mk r' rd' =>
      rw [hst] at hsim
      obtain ⟨heq, hs⟩ := hsim
      dsimp only at heq hs
      subst heq
      have hv : rd.view = rd'.view := hs.view
      cases r with
      | error e =>
        dsimp only
        by_cases he : e = .eof ∨ e.mentionsClosed = true
        · rw [if_pos he]
          refine iff_of_true ⟨List.drop_length, nofun⟩ ?_
          rcases he with h | h
          · exact .inl h
          · exact .inr (.inl h)
        · rw [if_neg he]
          dsimp only
          rw [hcopied rd hbuf, hv]
          rw [not_or] at he
          exact ⟨fun h => .inr (.inr h.1),
            fun h => ⟨(h.resolve_left he.1).resolve_left he.2, nofun⟩⟩
      | ok m =>
        dsimp only
        cases hup : isUpgrade m.header with
        | true =>
          rw [if_pos (show (responseHandler true head w).isUpgrade m =
            true from hup)]
          dsimp only
          rw [hcopied rd hbuf, hv]
          exact ⟨fun h => ⟨rfl, h.1⟩, fun h => ⟨h.2, nofun⟩⟩
        | false =>
          rw [if_neg (show ¬ (responseHandler true head w).isUpgrade m = true by
            rw [show (responseHandler true head w).isUpgrade m = false from
              hup]; simp)]
          refine iff_of_false (fun h => h.2 _ rfl) (fun h => ?_)
          cases h.1

end Rounds

instance (b : Bytes) : Decidable (Harmless b) :=
  match h : readResponse none (standing .closedConn b) with
  | (.error e, rd) => decidable_of_iff
      (e = .eof ∨ e.mentionsClosed = true ∨ rd.view = [])
      (by simp [Harmless, h])
  | (.ok m, rd) => decidable_of_iff (isUpgrade m.header = true ∧ rd.view = [])
      (by simp [Harmless, h])

def emptyOk : Bytes := lit "HTTP/1.1 200 OK\r\nContent-Length: 0\r\n\r\n"

/-- The first response of the stream is a final one without a body. -/
def startsFinal (next : Bytes) (f : Response) (u : Bytes) : Bool :=
  decide (200 ≤ f.statusCode ∧ responseFraming false f = .length 0 ∧
    u = next) &&
    !isUpgrade f.header

theorem answers_final {v next : Bytes} {k : Nat} {f : Response} {u : Bytes}
    (hparse : Parses (readResponse none) .eof v f u)
    (h : startsFinal next f u = true) :
    Answers (fun _ => false) .eof f next k [] v := by
  rw [startsFinal, Bool.and_eq_true, Bool.not_eq_true'] at h
  obtain ⟨hstatus, hfr, rfl⟩ := of_decide_eq_true h.1
  refine .final hparse hstatus h.2 ?_
  rw [hfr]
  exact ⟨_, _, .length (Nat.zero_le _)⟩

def announcedOk : Conn where
  data := lit "HTTP/1.1 100 Continue\r\n\r\n" ++ emptyOk

end Netramesh.Proofs
