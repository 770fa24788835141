import Netramesh.Proofs.Conserve

/-!
# Where a chunked body ends

`Chunks` says, without a reader, how a stream is taken apart: size lines, chunks
of the announced sizes, and either the line of the last chunk with something
behind it, or the end of the stream somewhere before. A chunk with a bad size
line or without its line end is neither, and nothing is said about it.

The decoder returns whenever the buffer runs dry, so the induction is on its
loop and the grammar is carried to the points between two calls (`Decodes`).
-/

namespace Netramesh.Proofs

open Http Protocol Net Lib

/-- The size line at the front of a stream, with what follows it. -/
def chunkHead (size : Nat) (v : Bytes) : Option (Nat × Bytes) :=
  match cutByte nl (v.take size) with
  | none => none
  | some (l, _) =>
    if 4096 ≤ (l ++ [nl]).length then none
    else
      match parseHexUint (chunkSizeField (l ++ [nl])) with
      | .error _ => none
      | .ok n => some (n, v.drop (l.length + 1))

/-- The stream `v` holds the chunked `body`, and then `end?` says how it goes
on: `some rest` behind the line of the last chunk, or `none` if the stream ends
before. -/
inductive Chunks (size : Nat) : Bytes → Bytes → Option Bytes → Prop
  | last {v r : Bytes} : chunkHead size v = some (0, r) →
      Chunks size v [] (some r)
  | chunk {v d r body : Bytes} {o : Option Bytes} : d ≠ [] →
      chunkHead size v = some (d.length, d ++ crlf ++ r) →
        Chunks size r body o →
      Chunks size v (d ++ body) o
  | cutLine {v : Bytes} : v.length < size → nl ∉ v → Chunks size v [] none
  | cutData {v d : Bytes} {n : Nat} : chunkHead size v = some (n, d) → 0 < n →
      d.length < n + 2 → Chunks size v (d.take n) none

/-- The same from inside a chunk, where the decoder has `cr.n` bytes to go or
waits for the chunk's line end. -/
inductive Decodes (size : Nat) : Nat → Bool → Bytes → Bytes →
    Option Bytes → Prop
  | line {v body : Bytes} {o : Option Bytes} : Chunks size v body o →
      Decodes size 0 false v body o
  | data {d r body : Bytes} {o : Option Bytes} {n : Nat} : 0 < n →
      d.length = n →
      Chunks size r body o → Decodes size n false (d ++ crlf ++ r) (d ++ body) o
  | crlf {r body : Bytes} {o : Option Bytes} : Chunks size r body o →
      Decodes size 0 true (Netramesh.crlf ++ r) body o
  | cutData {d : Bytes} {n : Nat} : 0 < n → d.length < n + 2 →
      Decodes size n false d (d.take n) none
  | cutCrlf {d : Bytes} : d.length < 2 → Decodes size 0 true d [] none

theorem Decodes.of_line {size n : Nat} {v body : Bytes} {o : Option Bytes}
    (h : Decodes size n false v body o) (hn : n = 0) :
    Chunks size v body o := by
  cases h with
  | line h => exact h
  | data hpos _ _ => omega
  | cutData hpos _ => omega

theorem Decodes.of_end {size n : Nat} {v body : Bytes} {o : Option Bytes}
    (h : Decodes size n true v body o) :
    n = 0 ∧ ((∃ r, v = Netramesh.crlf ++ r ∧ Chunks size r body o) ∨
      (v.length < 2 ∧ body = [] ∧ o = none)) := by
  cases h with
  | crlf h => exact ⟨rfl, .inl ⟨_, rfl, h⟩⟩
  | cutCrlf h => exact ⟨rfl, .inr ⟨h, rfl, rfl⟩⟩

/-- Only a cut stream has nothing left inside a chunk. -/
theorem Decodes.of_nil {size n : Nat} {v body : Bytes} {o : Option Bytes}
    (h : Decodes size n false v body o) (hn : n ≠ 0) (hv : v = []) :
    body = [] ∧ o = none := by
  cases h with
  | line _ => exact absurd rfl hn
  | data _ _ _ => simp at hv
  | cutData _ _ =>
    subst hv
    exact ⟨List.take_nil, rfl⟩

theorem chunkHead_eq_some {size n : Nat} {v r : Bytes}
    (h : chunkHead size v = some (n, r)) :
    ∃ l l', cutByte nl (v.take size) = some (l, l') ∧
      (l ++ [nl]).length < 4096 ∧
      parseHexUint (chunkSizeField (l ++ [nl])) = .ok n ∧
        v = l ++ [nl] ++ r := by
  unfold chunkHead at h
  split at h
  · cases h
  · next l l' hcut =>
      split at h
      · cases h
      · next hlen =>
          split at h
          · cases h
          · next hparse =>
              simp only [Option.some.injEq, Prod.mk.injEq] at h
              obtain ⟨rfl, rfl⟩ := h
              refine ⟨l, l', hcut, by omega, hparse, ?_⟩
              have hpre : (l ++ [nl]) <+: v := by
                have h1 : (l ++ [nl]) <+: v.take size := ⟨l', by
                  rw [(cutByte_eq_some.mp hcut).1]; simp⟩
                exact h1.trans (List.take_prefix _ _)
              obtain ⟨t, rfl⟩ := hpre
              rw [List.drop_left' (by simp)]

section Loop

variable {ρ : Type} [Source Err ρ]

/-- Something is left of a stream that decodes, unless it is cut. -/
theorem chunkHead_length {size n : Nat} {v r : Bytes}
    (h : chunkHead size v = some (n, r)) :
    r.length < v.length := by
  obtain ⟨l, _, _, _, _, rfl⟩ := chunkHead_eq_some h
  simp only [List.length_append, List.length_singleton]
  omega

/-- A size line, read. -/
theorem beginChunk_head (cr : ChunkedReader) {rd : Reader ρ} {n : Nat}
    {r : Bytes} (h : chunkHead rd.size rd.view = some (n, r)) :
    (beginChunk cr rd).1 = { cr with
      n := n, err := if n = 0 then some .eof else none } ∧
      Reads rd (rd.view.take (rd.view.length - r.length)) (beginChunk cr rd).2 ∧
      (beginChunk cr rd).2.view = r := by
  obtain ⟨l, l', hcut, hlen, hparse, hview⟩ := chunkHead_eq_some h
  obtain ⟨hslice, hreads⟩ := readSlice_spec nl rd
  have hs : sliceOf nl rd.size rd.fin rd.view = .line (l ++ [nl]) := by
    rw [sliceOf, hcut]
  rw [hs] at hslice
  have hrun : (readChunkLine : Parser ρ Err Bytes) rd =
      (.ok (chunkSizeField (l ++ [nl])), (rd.readSlice nl).2) := by
    have hslice' : (Parser.readSlice nl : Parser ρ Err _) rd =
        (.ok (.line (l ++ [nl])), (rd.readSlice nl).2) := by
          rw [Parser.readSlice, hslice]
    rw [readChunkLine, Parser.bind_ok hslice']
    dsimp only
    rw [if_neg (by omega)]
    rfl
  rw [hslice] at hreads
  have htake : rd.view.take (rd.view.length - r.length) = l ++ [nl] := by
    rw [hview, List.length_append, Nat.add_sub_cancel, List.take_left]
  unfold beginChunk
  rw [hrun]
  dsimp only
  rw [hparse]
  refine ⟨rfl, by rw [htake]; exact hreads, ?_⟩
  have hv := hreads.view
  rw [hview] at hv
  exact (List.append_cancel_left hv).symm

/-- The end of the stream in place of a size line. -/
theorem beginChunk_cut (cr : ChunkedReader) {rd : Reader ρ}
    (hlen : rd.view.length < rd.size) (hnl : nl ∉ rd.view) :
    (∃ e, (beginChunk cr rd).1 = { cr with err := some e }) ∧
      Reads rd rd.view (beginChunk cr rd).2 := by
  obtain ⟨hslice, hreads⟩ := readSlice_spec nl rd
  have hs : sliceOf nl rd.size rd.fin rd.view = .ended rd.view rd.fin := by
    rw [sliceOf, List.take_of_length_le (by omega), cutByte_eq_none.mpr hnl]
    dsimp only
    rw [if_neg (by omega)]
  rw [hs] at hslice
  rw [hslice] at hreads
  have hrun : (readChunkLine : Parser ρ Err Bytes) rd =
      (.error (Err.unexpected rd.fin), (rd.readSlice nl).2) := by
    have hslice' : (Parser.readSlice nl : Parser ρ Err _) rd =
        (.ok (.ended rd.view rd.fin), (rd.readSlice nl).2) := by
          rw [Parser.readSlice, hslice]
    rw [readChunkLine, Parser.bind_ok hslice']
    rfl
  unfold beginChunk
  rw [hrun]
  exact ⟨⟨_, rfl⟩, hreads⟩

/-- One byte, read. -/
theorem read_one (rd : Reader ρ) {a : UInt8} {v : Bytes}
    (h : rd.view = a :: v) :
    ∃ rd', rd.read 1 = (some [a], rd') ∧ Reads rd [a] rd' ∧ rd'.view = v := by
  rcases read_spec Nat.one_pos rd with ⟨_, hnil, _⟩ | ⟨p, hp, hne, hlen, hreads⟩
  · rw [h] at hnil
    cases hnil
  · have hv := hreads.view
    rw [h] at hv
    cases p with
    | nil => exact absurd rfl hne
    | cons b bs =>
      have hbs : bs = [] := by
        simp only [List.length_cons] at hlen
        exact List.eq_nil_of_length_eq_zero (by omega)
      subst hbs
      simp only [List.cons_append, List.nil_append, List.cons.injEq] at hv
      obtain ⟨rfl, rfl⟩ := hv
      exact ⟨_, Prod.ext hp rfl, hreads, rfl⟩

theorem read_end {rd : Reader ρ} {n : Nat} (hn : 0 < n) (h : rd.view = []) :
    ∃ rd', rd.read n = (none, rd') ∧ Reads rd [] rd' := by
  rcases read_spec hn rd with ⟨hnone, _, hreads⟩ | ⟨p, _, hne, _, hreads⟩
  · exact ⟨_, Prod.ext hnone rfl, hreads⟩
  · have hv := hreads.view
    rw [h] at hv
    exact absurd (List.append_eq_nil_iff.mp hv.symm).1 hne

/-- The line end of a chunk, read. -/
theorem readChunkEnd_crlf (cr : ChunkedReader) {rd : Reader ρ} {r : Bytes}
    (h : rd.view = crlf ++ r) :
    (readChunkEnd cr rd).1 = { cr with checkEnd := false } ∧
      Reads rd crlf (readChunkEnd cr rd).2 ∧ (readChunkEnd cr rd).2.view =
        r := by
  obtain ⟨rd₁, hrun₁, hreads₁, hv₁⟩ := read_one rd h
  obtain ⟨rd₂, hrun₂, hreads₂, hv₂⟩ := read_one rd₁ hv₁
  have hfull : readFull 2 [] rd = ((crlf, none), rd₂) := by
    rw [readFull, hrun₁]
    dsimp only
    rw [readFull, hrun₂]
    rfl
  unfold readChunkEnd
  rw [hfull]
  dsimp only
  rw [if_pos rfl]
  exact ⟨rfl, hreads₁.trans hreads₂, hv₂⟩

/-- The end of the stream in place of a chunk's line end. -/
theorem readChunkEnd_cut (cr : ChunkedReader) {rd : Reader ρ}
    (h : rd.view.length < 2) :
    (∃ e, (readChunkEnd cr rd).1 =
      { cr with err := some e, checkEnd := false }) ∧
      Reads rd rd.view (readChunkEnd cr rd).2 := by
  unfold readChunkEnd
  cases hv : rd.view with
  | nil =>
    obtain ⟨rd', hrun, hreads⟩ := read_end Nat.one_pos hv
    rw [readFull, hrun]
    exact ⟨⟨_, rfl⟩, hreads⟩
  | cons a v =>
    have hnil : v = [] := by
      rw [hv, List.length_cons] at h
      exact List.eq_nil_of_length_eq_zero (by omega)
    subst hnil
    obtain ⟨rd₁, hrun₁, hreads₁, hv₁⟩ := read_one rd hv
    obtain ⟨rd₂, hrun₂, hreads₂⟩ := read_end Nat.one_pos hv₁
    rw [readFull, hrun₁]
    dsimp only
    rw [readFull, hrun₂]
    exact ⟨⟨_, rfl⟩, hreads₁.trans hreads₂⟩

/-! ## The loop -/

theorem chunkLoop_of_err {fuel n : Nat} {acc : Bytes} {cr : ChunkedReader}
    {rd : Reader ρ} (h : cr.err ≠ none) :
    chunkLoop fuel n acc cr rd = (acc, cr, rd) := by
  cases fuel with
  | zero => rfl
  | succ fuel => rw [chunkLoop, if_pos (Option.isSome_iff_ne_none.mpr h)]

/-- A round of the loop that is not due at the end of a chunk. -/
theorem chunkLoop_step {fuel n : Nat} {acc : Bytes} {cr : ChunkedReader}
    {rd : Reader ρ} (herr : cr.err = none) (hend : cr.checkEnd = false) :
    chunkLoop (fuel + 1) n acc cr rd =
      if cr.n = 0 then
        if acc ≠ [] && !rd.buf.elem nl then (acc, cr, rd)
        else chunkLoop fuel n acc (beginChunk cr rd).1 (beginChunk cr rd).2
      else if n = 0 then (acc, cr, rd)
      else
        match rd.read (min n cr.n) with
        | (none, rd') => chunkLoop fuel n acc { cr with err := some rd.fin } rd'
        | (some p, rd') =>
          chunkLoop fuel (n - p.length) (acc ++ p)
            { cr with
              n := cr.n - p.length, checkEnd := cr.n - p.length = 0 } rd' := by
  obtain ⟨k, err, checkEnd⟩ := cr
  dsimp only at herr hend
  subst herr hend
  rw [chunkLoop]
  rfl

/-- A round that is due at the end of a chunk: nothing, if the line end is not
buffered yet and there is data to return, or the line end and a round as
above. -/
theorem chunkLoop_crlf (fuel n : Nat) (acc : Bytes) {r : Bytes}
    {cr : ChunkedReader} {rd : Reader ρ} (herr : cr.err = none)
    (hend : cr.checkEnd = true) (hview : rd.view = crlf ++ r) :
    (acc ≠ [] ∧ chunkLoop (fuel + 1) n acc cr rd = (acc, cr, rd)) ∨
      chunkLoop (fuel + 1) n acc cr rd =
        chunkLoop (fuel + 1) n acc { cr with
          checkEnd := false } (readChunkEnd cr rd).2 := by
  obtain ⟨hcr, _, _⟩ := readChunkEnd_crlf cr hview
  by_cases hearly : (cr.checkEnd && acc ≠ [] && decide (rd.buffered < 2)) = true
  · left
    refine ⟨?_, by rw [chunkLoop, herr, if_neg (by simp), if_pos hearly]⟩
    simp only [Bool.and_eq_true, decide_eq_true_eq] at hearly
    exact hearly.1.2
  · right
    have herr' : ({ cr with checkEnd := false } : ChunkedReader).err =
      none := herr
    rw [chunkLoop_step herr' rfl, chunkLoop, herr, if_neg (by simp),
      if_neg hearly, hend, if_pos rfl]
    cases hrun : readChunkEnd cr rd with
    | mk cr' rd' =>
      rw [hrun] at hcr
      dsimp only at hcr
      obtain ⟨k, err, checkEnd⟩ := cr
      dsimp only at herr
      subst herr hcr
      rfl

/-- What a call leaves of a stream: more to decode, or nothing. -/
def Leaves (size : Nat) (o : Option Bytes) (body : Bytes) (cr : ChunkedReader)
    (v : Bytes) : Prop :=
  (cr.err = none ∧ Decodes size cr.n cr.checkEnd v body o) ∨
    (cr.err ≠ none ∧ body = [] ∧ v = o.getD [] ∧
      (o ≠ none → cr.err = some .eof))

/-- What the loop makes of a stream: the bytes `q` of its body. -/
def LoopSpec (size n : Nat) (acc body : Bytes) (o : Option Bytes)
    (r : Bytes × ChunkedReader × Reader ρ) : Prop :=
  ∃ q body', body = q ++ body' ∧ r.1 = acc ++ q ∧ q.length ≤ n ∧
    Leaves size o body' r.2.1 r.2.2.view ∧
      (0 < n ∨ acc ≠ [] → r.2.1.err = none → r.1 ≠ [])

theorem LoopSpec.stay {size n : Nat} {acc body : Bytes} {o : Option Bytes}
    {cr : ChunkedReader} {rd : Reader ρ} (hacc : acc ≠ [] ∨ n = 0)
    (h : Leaves size o body cr rd.view) :
    LoopSpec size n acc body o (acc, cr, rd) := by
  refine ⟨[], body, rfl, (List.append_nil _).symm, Nat.zero_le _, h, ?_⟩
  intro hn _
  rcases hacc with h | h
  · exact h
  · rcases hn with hn | hn
    · omega
    · exact hn

theorem LoopSpec.failed {size n : Nat} {acc : Bytes} {o : Option Bytes}
    {cr : ChunkedReader} {rd : Reader ρ} (herr : cr.err ≠ none)
    (hv : rd.view = o.getD []) (heof : o ≠ none → cr.err = some .eof) :
    LoopSpec size n acc [] o (acc, cr, rd) :=
  ⟨[], [], rfl, (List.append_nil _).symm, Nat.zero_le _,
    .inr ⟨herr, rfl, hv, heof⟩, fun _ h => absurd h herr⟩

/-- A read inside a chunk takes the front of what is left. -/
theorem read_front {rd : Reader ρ} {n : Nat} (hn : 0 < n) (hne : rd.view ≠ []) :
    ∃ p rd', rd.read n = (some p, rd') ∧ p ≠ [] ∧ p.length ≤ n ∧
      Reads rd p rd' := by
  rcases read_spec hn rd with ⟨_, hnil, _⟩ | ⟨p, hp, hp0, hlen, hreads⟩
  · exact absurd hnil hne
  · exact ⟨p, _, Prod.ext hp rfl, hp0, hlen, hreads⟩

/-- Reading `p` off the front of a chunk leaves the rest of it, or its end. -/
theorem decodes_read {size n : Nat} {p v body : Bytes} {o : Option Bytes}
    (hp : p.length ≤ n) (hn : 0 < n)
    (h : Decodes size n false (p ++ v) body o) :
    ∃ body', body = p ++ body' ∧
      Decodes size (n - p.length) (n - p.length = 0) v body' o := by
  generalize hw : p ++ v = w at h
  cases h with
  | line _ => omega
  | @data d r b _ _ _ hd hr =>
    subst hd
    obtain ⟨d', rfl⟩ : p <+: d := List.prefix_of_prefix_length_le ⟨v, hw⟩
      (by rw [List.append_assoc]; exact List.prefix_append _ _) hp
    rw [List.append_assoc, List.append_assoc, List.append_cancel_left_eq] at hw
    refine ⟨d' ++ b, List.append_assoc _ _ _, ?_⟩
    rw [List.length_append, Nat.add_sub_cancel_left, hw]
    by_cases hnil : d' = []
    · subst hnil
      exact .crlf hr
    · rw [decide_eq_false (by simpa using hnil), ← List.append_assoc]
      exact .data (List.length_pos_of_ne_nil hnil) rfl hr
  | @cutData d n _ hlt =>
    subst hw
    refine ⟨v.take (n - p.length), ?_, ?_⟩
    · rw [List.take_append, List.take_of_length_le hp]
    · rw [List.length_append] at hlt
      by_cases hz : n - p.length = 0
      · rw [hz, List.take_zero, decide_eq_true rfl]
        exact .cutCrlf (by omega)
      · rw [decide_eq_false hz]
        exact .cutData (by omega) (by omega)

/-- The loop does what it should with this much fuel. -/
def LoopOk (ρ : Type) [Source Err ρ] (o : Option Bytes) (fuel : Nat) : Prop :=
  ∀ (n : Nat) (acc : Bytes) (cr : ChunkedReader) (rd : Reader ρ) (body : Bytes),
    cr.err = none →
    Decodes rd.size cr.n cr.checkEnd rd.view body o → rd.view.length < fuel →
    LoopSpec rd.size n acc body o (chunkLoop fuel n acc cr rd)

/-- A size line and what the loop makes of the chunk behind it. -/
theorem chunkLoop_line {o : Option Bytes} {fuel : Nat} (ih : LoopOk ρ o fuel)
    {n : Nat} {acc body : Bytes} {cr : ChunkedReader} {rd : Reader ρ}
    (hend : cr.checkEnd = false) (h : Chunks rd.size rd.view body o)
    (hfuel : rd.view.length < fuel + 1) :
    LoopSpec rd.size n acc body o
      (chunkLoop fuel n acc (beginChunk cr rd).1 (beginChunk cr rd).2) := by
  -- a chunk that begins here is read with the fuel that is left
  have hgo : ∀ (k : Nat) (r body : Bytes), 0 < k →
    chunkHead rd.size rd.view = some (k, r) →
      Decodes rd.size k false r body o → LoopSpec rd.size n acc body o
        (chunkLoop fuel n acc (beginChunk cr rd).1 (beginChunk cr rd).2) := by
    intro k r body hk hhead hdec
    obtain ⟨hcr, hreads, hv⟩ := beginChunk_head cr hhead
    have hlt := chunkHead_length hhead
    rw [← hreads.size]
    refine ih n acc _ _ body ?_ ?_ (by rw [hv]; omega)
    · rw [hcr]
      exact if_neg (by omega)
    · rw [hcr, hv, hreads.size]
      dsimp only
      rw [hend]
      exact hdec
  cases h with
  | last hhead =>
    obtain ⟨hcr, _, hv⟩ := beginChunk_head cr hhead
    have heof : (beginChunk cr rd).1.err = some .eof := by rw [hcr]; rfl
    rw [chunkLoop_of_err (by rw [heof]; simp)]
    exact .failed (by rw [heof]; simp) hv fun _ => heof
  | @chunk _ d r b _ hd hhead hr =>
    have hpos := List.length_pos_of_ne_nil hd
    exact hgo _ _ _ hpos hhead (.data hpos rfl hr)
  | cutLine hlen hnl =>
    obtain ⟨⟨e, he⟩, hreads⟩ := beginChunk_cut cr hlen hnl
    have herr : (beginChunk cr rd).1.err ≠ none := by rw [he]; simp
    rw [chunkLoop_of_err herr]
    exact .failed herr hreads.all fun h => absurd rfl h
  | cutData hhead hn hlt => exact hgo _ _ _ hn hhead (.cutData hn hlt)

/-- A round inside a chunk. -/
theorem chunkLoop_data {o : Option Bytes} {fuel : Nat} (ih : LoopOk ρ o fuel)
    {n : Nat} {acc body : Bytes} {cr : ChunkedReader} {rd : Reader ρ}
    (herr : cr.err = none) (hend : cr.checkEnd = false) (hcn : cr.n ≠ 0)
    (hn : n ≠ 0) (h : Decodes rd.size cr.n false rd.view body o)
    (hfuel : rd.view.length < fuel + 1) :
    LoopSpec rd.size n acc body o (chunkLoop (fuel + 1) n acc cr rd) := by
  have hmin : 0 < min n cr.n := by omega
  rw [chunkLoop_step herr hend, if_neg hcn, if_neg hn]
  by_cases hnil : rd.view = []
  · -- only a cut stream has nothing left here
    obtain ⟨rd', hrun, hreads⟩ := read_end hmin hnil
    rw [hrun]
    dsimp only
    rw [chunkLoop_of_err (by simp)]
    have hv' : rd'.view = [] := by rw [← hreads.sim.view]; exact hnil
    obtain ⟨rfl, rfl⟩ := h.of_nil hcn hnil
    exact .failed (by simp) hv' fun h => absurd rfl h
  · obtain ⟨p, rd', hrun, hp, hlen, hreads⟩ := read_front hmin hnil
    rw [hrun]
    dsimp only
    rw [hreads.view] at h hfuel
    rw [List.length_append] at hfuel
    have hpos := List.length_pos_of_ne_nil hp
    obtain ⟨body', rfl, hdec⟩ := decodes_read (by omega) (by omega) h
    rw [← hreads.size] at hdec ⊢
    obtain ⟨q, body'', rfl, hout, hq, hleaves, hne⟩ :=
      ih (n - p.length) (acc ++ p) { cr with
        n := cr.n - p.length, checkEnd := cr.n - p.length = 0 }
        rd' body' herr hdec (by omega)
    refine ⟨p ++ q, body'', (List.append_assoc _ _ _).symm, ?_, ?_, hleaves,
      fun _ => ?_⟩
    · rw [hout, List.append_assoc]
    · rw [List.length_append]
      omega
    · exact hne (.inr (by simp [hp]))

/-- The stream ends in place of a chunk's line end. The error is noted and the
loop tries for another size line. -/
theorem chunkLoop_cut {fuel n : Nat} {acc : Bytes} {cr : ChunkedReader}
    {rd : Reader ρ} (herr : cr.err = none) (hend : cr.checkEnd = true)
    (hz : cr.n = 0) (hlt : rd.view.length < 2) :
    LoopSpec rd.size n acc [] none (chunkLoop (fuel + 1) n acc cr rd) := by
  rw [chunkLoop, herr, if_neg (by simp)]
  split
  · next hearly =>
      simp only [Bool.and_eq_true, decide_eq_true_eq] at hearly
      refine .stay (.inl hearly.1.2) (.inl ⟨herr, ?_⟩)
      rw [hz, hend]
      exact .cutCrlf hlt
  · obtain ⟨⟨e, he⟩, hreads⟩ := readChunkEnd_cut cr hlt
    have hv := hreads.all
    have hsize := hreads.size
    have hge := rd.size_ge
    generalize readChunkEnd cr rd = r at he hv hsize
    obtain ⟨cr', rd'⟩ := r
    dsimp only at he hv hsize
    subst he
    simp only [if_true, Bool.false_eq_true, if_false, hz]
    split
    · exact .failed (by simp) hv fun h => absurd rfl h
    · obtain ⟨⟨e', he'⟩, hreads'⟩ :=
        beginChunk_cut { n := 0, err := some e, checkEnd := false }
        (show rd'.view.length < rd'.size by rw [hv, hsize]; simp; omega)
          (by rw [hv]; simp)
      have herr' : (beginChunk { n := 0, err := some e, checkEnd :=
          false } rd').1.err ≠ none := by
        rw [he']
        simp
      rw [chunkLoop_of_err herr']
      exact .failed herr' hreads'.all fun h => absurd rfl h

theorem chunkLoop_spec (o : Option Bytes) (fuel : Nat) : LoopOk ρ o fuel := by
  induction fuel with
  | zero =>
    intro n acc cr rd body _ _ h
    omega
  | succ fuel ih =>
    -- first the rounds that are not due at the end of a chunk
    have hround : ∀ (n : Nat) (acc : Bytes) (cr : ChunkedReader) (rd : Reader ρ)
      (body : Bytes),
        cr.err = none → cr.checkEnd = false →
          Decodes rd.size cr.n false rd.view body o →
        rd.view.length < fuel + 1 →
        LoopSpec rd.size n acc body o (chunkLoop (fuel + 1) n acc cr rd) := by
      intro n acc cr rd body herr hend h hfuel
      have hstay : Leaves rd.size o body cr rd.view :=
        .inl ⟨herr, by rw [hend]; exact h⟩
      by_cases hz : cr.n = 0
      · rw [chunkLoop_step herr hend, if_pos hz]
        split
        · next hearly =>
            simp only [Bool.and_eq_true, decide_eq_true_eq] at hearly
            exact .stay (.inl hearly.1) hstay
        · exact chunkLoop_line ih hend (h.of_line hz) hfuel
      · by_cases hn : n = 0
        · rw [chunkLoop_step herr hend, if_neg hz, if_pos hn]
          exact .stay (.inr hn) hstay
        · exact chunkLoop_data ih herr hend hz hn h hfuel
    intro n acc cr rd body herr h hfuel
    cases hend : cr.checkEnd with
    | false =>
      rw [hend] at h
      exact hround n acc cr rd body herr hend h hfuel
    | true =>
      rw [hend] at h
      obtain ⟨hz, ⟨r, hview, hr⟩ | ⟨hlt, rfl, rfl⟩⟩ := h.of_end
      · rcases chunkLoop_crlf fuel n acc herr hend hview with
          ⟨hacc, hrun⟩ | hrun
        · rw [hrun]
          exact .stay (.inl hacc) (.inl ⟨herr, by rw [hend]; exact h⟩)
        · obtain ⟨_, hreads, hv⟩ := readChunkEnd_crlf cr hview
          rw [hrun, ← hreads.size]
          refine hround n acc { cr with
            checkEnd := false } _ body herr rfl ?_ ?_
          · rw [hz, hreads.size, hv]
            exact .line hr
          · rw [hv]
            rw [hview, List.length_append] at hfuel
            omega
      · exact chunkLoop_cut herr hend hz hlt

end Loop

end Netramesh.Proofs
