import Netramesh.Http.Header
import Netramesh.Lib.Parser
import Netramesh.Net.Err

/-!
# Lines and header sections

`net/textproto` on a buffered reader: lines of any length, continued lines, and
the header section of a message.

A line longer than the buffer comes out of `ReadLine` in parts, and a part is
never empty, so the loops here run on what is left of the stream as fuel.
`readContinuedLineSlice` looks into the buffer to save itself a copy; that
does not change what it reads, only what it makes the reader fetch.
-/

namespace Netramesh.Http

open Net Lib Parser

variable {ρ : Type} [Source Err ρ]

/-! ## Lines -/

/-- The loop of `readLineSlice`. -/
def readLineParts : Nat → Bytes → Parser ρ Err Bytes
  | 0, acc => pure acc
  | fuel + 1, acc => do
    let (l, more) ← readLine
    if more then readLineParts fuel (acc ++ l) else pure (acc ++ l)

/-- `readLineSlice` and `ReadLine`. -/
def readLineSlice : Parser ρ Err Bytes :=
  measured fun fuel => readLineParts fuel []

/-- `textproto.trim`. -/
def trimOWS (s : Bytes) : Bytes := trimBy isOWS s

/-- The loop of `skipSpace`: how many blanks and tabs were skipped. -/
def skipSpaces : Nat → Nat → Parser ρ Err Nat
  | 0, n => pure n
  | fuel + 1, n => do
    if ← acceptByte isOWS then skipSpaces fuel (n + 1) else pure n

/-- `skipSpace`. -/
def skipSpace : Parser ρ Err Nat := measured fun fuel => skipSpaces fuel 0

/-- The continuation lines of a line whose first part is `acc`. -/
def readContinuation : Nat → Bytes → Parser ρ Err Bytes
  | 0, acc => pure acc
  | fuel + 1, acc => do
    let n ← skipSpace
    if n = 0 then pure acc
    else
      match ← attempt readLineSlice with
      | .error _ => pure acc
      | .ok l => readContinuation fuel (acc ++ [sp] ++ trimOWS l)

def isASCIILetter (b : UInt8) : Bool :=
  (97 ≤ b && b ≤ 122) || (65 ≤ b && b ≤ 90)

/-- Whether the next line is seen, in the buffer, to begin with a letter. -/
def letterBuffered : Parser ρ Err Bool := fun rd =>
  (.ok (decide (1 < rd.buffered) && rd.buf.head?.any isASCIILetter), rd)

/-- `readContinuedLineSlice`. -/
def readContinuedLineSlice : Parser ρ Err Bytes := do
  let line ← readLineSlice
  if line = [] then pure line
  else if ← letterBuffered then pure (trimOWS line)
  else measured fun fuel => readContinuation fuel (trimOWS line)

/-! ## Header sections -/

/-- What a field line adds to the header; a line with an empty key adds
nothing, a line without a colon is an error. -/
def addField (m : Header) (kv : Bytes) : Except Err Header :=
  match cutByte 58 kv with
  | none => .error (.protocol (lit "malformed MIME header line: " ++ kv))
  | some (k, v) =>
    let key := canonicalKey k
    if key = [] then .ok m
    else .ok (m.put key (m.values key ++ [v.dropWhile isOWS]))

/-- The loop of `ReadMIMEHeader`. -/
def readFields : Nat → Header → Parser ρ Err Header
  | 0, m => pure m
  | fuel + 1, m => do
    let kv ← readContinuedLineSlice
    if kv = [] then pure m
    else
      match addField m kv with
      | .error e => fail e
      | .ok m => readFields fuel m

/-- `ReadMIMEHeader`. -/
def readMIMEHeader : Parser ρ Err Header := do
  let b ← peek 1
  if b.head?.any isOWS then
    let line ← readLineSlice
    fail (.protocol (lit "malformed MIME header initial line: " ++ line))
  else measured fun fuel => readFields fuel Header.empty

/-! ## They see only the view -/

theorem lawful_readLineParts (fuel : Nat) (acc : Bytes) :
    Lawful (readLineParts fuel acc : Parser ρ Err Bytes) := by
  induction fuel generalizing acc with
  | zero => exact .pure acc
  | succ fuel ih =>
      rw [readLineParts]
      refine lawful_readLine.bind fun r => ?_
      exact .ite (ih _) (.pure _)

theorem lawful_readLineSlice : Lawful (readLineSlice : Parser ρ Err Bytes) :=
  .measured fun _ => lawful_readLineParts _ _

theorem lawful_skipSpaces (fuel n : Nat) :
    Lawful (skipSpaces fuel n : Parser ρ Err Nat) := by
  induction fuel generalizing n with
  | zero => exact .pure n
  | succ fuel ih =>
      rw [skipSpaces]
      exact (lawful_acceptByte _).bind fun b => .ite (ih _) (.pure _)

theorem lawful_skipSpace : Lawful (skipSpace : Parser ρ Err Nat) :=
  .measured fun _ => lawful_skipSpaces _ _

theorem lawful_readContinuation (fuel : Nat) (acc : Bytes) :
    Lawful (readContinuation fuel acc : Parser ρ Err Bytes) := by
  induction fuel generalizing acc with
  | zero => exact .pure acc
  | succ fuel ih =>
      rw [readContinuation]
      refine lawful_skipSpace.bind fun n => .ite (.pure _) ?_
      refine lawful_readLineSlice.attempt.bind fun r => ?_
      cases r with
      | error e => exact .pure _
      | ok l => exact ih _

/-- Before a byte that is no blank `skipSpace` stays where it is. -/
theorem skipSpace_stays {rd : Reader ρ} {c : UInt8} {v : Bytes}
    (hv : rd.view = c :: v) (hc : isOWS c = false) :
    ∃ rd', (skipSpace : Parser ρ Err Nat) rd = (.ok 0, rd') ∧
      Reads rd [] rd' := by
  rcases acceptByte_spec isOWS rd with ⟨c', v', hv', hp, _⟩ | ⟨_, hres, hreads⟩
  · rw [hv] at hv'
    cases hv'
    rw [hc] at hp
    cases hp
  · refine ⟨(rd.acceptByte isOWS).2, ?_, hreads⟩
    have hrun : (acceptByte isOWS : Parser ρ Err Bool) rd =
        (.ok false, (rd.acceptByte isOWS).2) :=
      by rw [acceptByte, hres]
    rw [skipSpace, measured_run, skipSpaces, bind_ok hrun]
    rfl

theorem isOWS_of_letter {c : UInt8} :
    isASCIILetter c = true → isOWS c = false :=
  forall_byte (P := fun c => isASCIILetter c = true → isOWS c = false)
    (by decide +kernel) c

/-- The look into the buffer decides nothing: if a letter comes next, there is
no continuation to read. -/
theorem readContinuation_of_letter (acc : Bytes) (fuel : Nat) {rd : Reader ρ}
    {c : UInt8} {v : Bytes} (hv : rd.view = c :: v)
    (hc : isASCIILetter c = true) :
    ∃ rd', (readContinuation (fuel + 1) acc : Parser ρ Err Bytes) rd =
      (.ok acc, rd') ∧ Reads rd [] rd' := by
  obtain ⟨rd', hrun, hreads⟩ := skipSpace_stays hv (isOWS_of_letter hc)
  refine ⟨rd', ?_, hreads⟩
  rw [readContinuation, bind_ok hrun]
  rfl

theorem letterBuffered_view (rd : Reader ρ)
    (h : (letterBuffered : Parser ρ Err Bool) rd = (.ok true, rd)) :
    ∃ c v, rd.view = c :: v ∧ isASCIILetter c = true := by
  simp only [letterBuffered, Prod.mk.injEq, Except.ok.injEq, Bool.and_eq_true,
    and_true, decide_eq_true_eq] at h
  obtain ⟨_, h⟩ := h
  cases hb : rd.buf with
  | nil => rw [hb] at h; cases h
  | cons c cs =>
    rw [hb] at h
    exact ⟨c, cs ++ Source.rest rd.src, by rw [Reader.view, hb]; rfl, h⟩

/-- The rest of a continued line, read with or without the look into the
buffer. -/
theorem continued_sim {a b : Reader ρ} (acc : Bytes) (h : Sim a b) :
    let f : Parser ρ Err Bytes := letterBuffered >>= fun seen =>
      if seen then pure acc else measured fun fuel => readContinuation fuel acc
    let g : Parser ρ Err Bytes := measured fun fuel => readContinuation fuel acc
    (f a).1 = (g b).1 ∧ Sim (f a).2 (g b).2 ∧ ∃ c, Reads a c (f a).2 := by
  intro f g
  have hg : Lawful g := .measured fun _ => lawful_readContinuation _ _
  cases hs : decide (1 < a.buffered) && a.buf.head?.any isASCIILetter with
  | false =>
    have hf : f a = g a := by
      change (letterBuffered >>= _) a = _
      rw [bind_run, letterBuffered, hs]
      rfl
    rw [hf]
    exact ⟨(hg.sim a b h).1, (hg.sim a b h).2, hg.reads a⟩
  | true =>
    have hf : f a = (.ok acc, a) := by
      change (letterBuffered >>= _) a = _
      rw [bind_run, letterBuffered, hs]
      rfl
    obtain ⟨c, v, hv, hc⟩ := letterBuffered_view a (by rw [letterBuffered, hs])
    rw [h.view] at hv
    obtain ⟨b', hrun, hreads⟩ :=
      readContinuation_of_letter acc b.view.length hv hc
    have hgb : g b = (.ok acc, b') := hrun
    rw [hf, hgb]
    exact ⟨rfl, h.trans hreads.sim, [], Reads.refl a⟩

theorem lawful_readContinuedLineSlice :
    Lawful (readContinuedLineSlice : Parser ρ Err Bytes) := by
  unfold readContinuedLineSlice
  refine lawful_readLineSlice.bind fun line => .ite (.pure _) ?_
  refine ⟨fun rd => (continued_sim _ (Sim.refl rd)).2.2, fun a b h => ?_⟩
  obtain ⟨ha1, ha2, _⟩ := continued_sim (trimOWS line) h
  obtain ⟨hb1, hb2, _⟩ := continued_sim (trimOWS line) (Sim.refl b)
  exact ⟨ha1.trans hb1.symm, ha2.trans hb2.symm⟩

theorem lawful_readFields (fuel : Nat) (m : Header) :
    Lawful (readFields fuel m : Parser ρ Err Header) := by
  induction fuel generalizing m with
  | zero => exact .pure m
  | succ fuel ih =>
      rw [readFields]
      refine lawful_readContinuedLineSlice.bind fun kv => .ite (.pure _) ?_
      split
      · exact .fail _
      · exact ih _

theorem lawful_readMIMEHeader :
    Lawful (readMIMEHeader : Parser ρ Err Header) := by
  unfold readMIMEHeader
  refine (lawful_peek 1).bind fun b => .ite ?_ ?_
  · exact lawful_readLineSlice.bind fun _ => .fail _
  · exact .measured fun _ => lawful_readFields _ _

end Netramesh.Http
