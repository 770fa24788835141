import Netramesh.Protocol.Handler

/-!
# Forwarding conserves bytes

Whatever happens on the way, errors included, copying a body takes bytes off
the front of the reader's view and does nothing else to it. The lemmas follow
the functions from the chunk decoder up to the two handlers.
-/

namespace Netramesh.Proofs

open Http Protocol Net Lib

section Body

variable {ρ : Type} [Source Err ρ]

theorem Reads.of_lawful {α : Type} {f : Parser ρ Err α} (hf : Lawful f)
    {rd rd' : Reader ρ} {r : Except Err α} (h : f rd = (r, rd')) :
    ∃ c, Reads rd c rd' := by
  obtain ⟨c, hc⟩ := hf.reads rd
  rw [h] at hc
  exact ⟨c, hc⟩

theorem reads_read {n : Nat} (hn : 0 < n) {rd rd' : Reader ρ} {r : Option Bytes}
    (h : rd.read n = (r, rd')) : ∃ c, Reads rd c rd' := by
  rcases read_spec hn rd with ⟨_, _, hr⟩ | ⟨p, _, _, _, hr⟩ <;>
    (rw [h] at hr; exact ⟨_, hr⟩)

theorem lawful_readChunkLine : Lawful (readChunkLine : Parser ρ Err Bytes) := by
  unfold readChunkLine
  refine (lawful_readSlice nl).bind fun s => ?_
  cases s with
  | full l => exact .fail _
  | ended l e => exact .fail _
  | line l => exact .ite (.fail _) (.pure _)

theorem reads_beginChunk (cr : ChunkedReader) (rd : Reader ρ) :
    ∃ c, Reads rd c (beginChunk cr rd).2 := by
  unfold beginChunk
  split
  · next h => exact Reads.of_lawful lawful_readChunkLine h
  · next h => split <;> exact Reads.of_lawful lawful_readChunkLine h

theorem reads_readFull (k : Nat) (acc : Bytes) (rd : Reader ρ) :
    ∃ c, Reads rd c (readFull k acc rd).2 := by
  induction k generalizing acc rd with
  | zero => exact ⟨[], Reads.refl rd⟩
  | succ k ih =>
      rw [readFull]
      split
      · next h => exact reads_read Nat.one_pos h
      · next h =>
          obtain ⟨c, hc⟩ := reads_read Nat.one_pos h
          obtain ⟨c', hc'⟩ := ih _ _
          exact ⟨c ++ c', hc.trans hc'⟩

theorem reads_readChunkEnd (cr : ChunkedReader) (rd : Reader ρ) :
    ∃ c, Reads rd c (readChunkEnd cr rd).2 := by
  obtain ⟨c, hc⟩ := reads_readFull 2 [] rd
  unfold readChunkEnd
  split
  · next h => rw [h] at hc; exact ⟨c, hc⟩
  · next h => rw [h] at hc; split <;> exact ⟨c, hc⟩

theorem reads_chunkLoop (fuel n : Nat) (acc : Bytes) (cr : ChunkedReader)
    (rd : Reader ρ) :
    ∃ c, Reads rd c (chunkLoop fuel n acc cr rd).2.2 := by
  induction fuel generalizing n acc cr rd with
  | zero => exact ⟨[], Reads.refl rd⟩
  | succ fuel ih =>
      rw [chunkLoop]
      split
      · exact ⟨[], Reads.refl rd⟩
      · split
        · exact ⟨[], Reads.refl rd⟩
        · -- the reader after the end of the chunk, if one was due
          have hend : ∃ c, Reads rd c
              (if cr.checkEnd then readChunkEnd cr rd else (cr, rd)).2 := by
            split
            · exact reads_readChunkEnd cr rd
            · exact ⟨[], Reads.refl rd⟩
          generalize (if cr.checkEnd then readChunkEnd cr rd else (cr, rd)) =
            r at hend
          obtain ⟨cr', rd'⟩ := r
          obtain ⟨c, hc⟩ := hend
          dsimp only at hc ⊢
          split
          · exact ⟨c, hc⟩
          · split
            · split
              · exact ⟨c, hc⟩
              · obtain ⟨c1, hc1⟩ := reads_beginChunk cr' rd'
                obtain ⟨c2, hc2⟩ := ih n acc (beginChunk cr' rd').1
                  (beginChunk cr' rd').2
                exact ⟨_, (hc.trans hc1).trans hc2⟩
            · split
              · exact ⟨c, hc⟩
              · next hn0 hn =>
                  have hpos : 0 < min n cr'.n := by omega
                  split
                  all_goals
                    next hread =>
                      obtain ⟨c1, hc1⟩ := reads_read hpos hread
                      obtain ⟨c2, hc2⟩ := ih _ _ _ _
                      exact ⟨_, (hc.trans hc1).trans hc2⟩

theorem reads_srcRead {n : Nat} (hn : 0 < n) (src : BodySrc) (rd : Reader ρ) :
    ∃ c, Reads rd c (src.read n rd).2.2 := by
  cases src with
  | limited k =>
    rw [BodySrc.read]
    split
    · exact ⟨[], Reads.refl rd⟩
    · have hpos : 0 < min n k := by omega
      split
      all_goals
        next h => exact reads_read hpos h
  | chunked cr => exact reads_chunkLoop (rd.view.length + 2) n [] cr rd
  | wire =>
    rw [BodySrc.read]
    split
    all_goals
      next h => exact reads_read hn h

theorem lawful_seeDoubleCRLF (fuel k : Nat) :
    Lawful (seeDoubleCRLF fuel k : Parser ρ Err Bool) := by
  induction fuel generalizing k with
  | zero => exact .pure _
  | succ fuel ih =>
      rw [seeDoubleCRLF]
      exact (lawful_peek _).bind fun _ => .ite (.pure _) (.ite (.pure _) (ih _))

theorem lawful_readTrailer :
    Lawful (readTrailer : Parser ρ Err (Option Header)) := by
  unfold readTrailer
  refine (lawful_peek 2).bind fun _ => .ite ?_ (.ite (.fail _) ?_)
  · exact (lawful_discard 2).bind fun _ => .pure _
  · refine (Lawful.measured fun _ => lawful_seeDoubleCRLF _ _).bind fun _ =>
      .ite (.fail _) ?_
    exact (lawful_readMIMEHeader.mapError _).bind fun _ => .pure _

/-- The read of a body starts with a read of what it reads from. -/
theorem reads_bodyRead_then {n : Nat} {b : Body} {rd : Reader ρ} {x : Bytes}
    (hclosed : b.closed = false) (hsaw : b.sawEOF = false)
    (hx : Reads rd x (b.src.read n rd).2.2) :
    ∃ y, Reads rd (x ++ y) (b.read n rd).rd := by
  have hstay : ∀ rd', Reads rd x rd' → ∃ y, Reads rd (x ++ y) rd' := by
    intro rd' h
    exact ⟨[], by rw [List.append_nil]; exact h⟩
  unfold Body.read
  rw [if_neg (by simp [hclosed]), if_neg (by simp [hsaw])]
  cases hsrc : b.src.read n rd with
  | mk pe rest =>
    obtain ⟨p, err⟩ := pe
    obtain ⟨src, rd'⟩ := rest
    rw [hsrc] at hx
    dsimp only at hx ⊢
    split
    · split
      · split
        all_goals
          next h =>
            obtain ⟨y, hy⟩ := Reads.of_lawful lawful_readTrailer h
            exact ⟨y, hx.trans hy⟩
      · split <;> exact hstay _ hx
    · split <;> exact hstay _ hx

theorem reads_bodyRead {n : Nat} (hn : 0 < n) (b : Body) (rd : Reader ρ) :
    ∃ c, Reads rd c (b.read n rd).rd := by
  cases hclosed : b.closed with
  | true =>
    unfold Body.read
    rw [if_pos hclosed]
    exact ⟨[], Reads.refl rd⟩
  | false =>
    cases hsaw : b.sawEOF with
    | true =>
      unfold Body.read
      rw [if_neg (by simp [hclosed]), if_pos hsaw]
      exact ⟨[], Reads.refl rd⟩
    | false =>
      obtain ⟨x, hx⟩ := reads_srcRead hn b.src rd
      obtain ⟨y, hy⟩ := reads_bodyRead_then hclosed hsaw hx
      exact ⟨_, hy⟩

theorem reads_copyRead {limit : Option Nat} (hl : limit ≠ some 0) (c : Copy ρ) :
    ∃ x, Reads c.rd x (c.read limit).2.rd := by
  unfold Copy.read
  dsimp only
  split
  · exact ⟨[], Reads.refl _⟩
  · refine reads_bodyRead ?_ _ _
    split
    · next k => have : k ≠ 0 := fun h => hl (by rw [h]); omega
    · omega

omit [Source Err ρ] in
theorem pass_rd (put : Bytes → Out → Bool × Out) (p : Bytes) (c : Copy ρ) :
    (c.pass put p).2.rd = c.rd := by
  unfold Copy.pass
  split <;> rfl

theorem reads_copyLoop (put : Bytes → Out → Bool × Out) (fuel : Nat)
    (limit : Option Nat) (n : Nat) (c : Copy ρ) :
    ∃ x, Reads c.rd x (copyLoop put fuel limit n c).2.rd := by
  induction fuel generalizing limit n c with
  | zero => exact ⟨[], Reads.refl _⟩
  | succ fuel ih =>
      rw [copyLoop]
      split
      · exact ⟨[], Reads.refl _⟩
      · next hl =>
          obtain ⟨x, hx⟩ := reads_copyRead hl c
          dsimp only
          rw [← pass_rd put (c.read limit).1.1 (c.read limit).2] at hx
          split
          · next h => rw [h] at hx; exact ⟨x, hx⟩
          · next c' h =>
              rw [h] at hx
              split
              · exact ⟨x, hx⟩
              · obtain ⟨y, hy⟩ := ih (limit.map (· - (c.read limit).1.1.length))
                  (n + (c.read limit).1.1.length) c'
                exact ⟨_, hx.trans hy⟩

/-- A copy starts with a read of the body. -/
theorem reads_copyLoop_then (put : Bytes → Out → Bool × Out) (fuel : Nat)
    {limit : Option Nat} (n : Nat) {c : Copy ρ} {x : Bytes}
    (hl : limit ≠ some 0) (hx : Reads c.rd x (c.read limit).2.rd) :
    ∃ y, Reads c.rd (x ++ y) (copyLoop put (fuel + 1) limit n c).2.rd := by
  have hstay : ∀ rd', Reads c.rd x rd' → ∃ y, Reads c.rd (x ++ y) rd' := by
    intro rd' h
    exact ⟨[], by rw [List.append_nil]; exact h⟩
  rw [copyLoop, if_neg hl]
  dsimp only
  rw [← pass_rd put (c.read limit).1.1 (c.read limit).2] at hx
  split
  · next h => rw [h] at hx; exact hstay _ hx
  · next c' h =>
      rw [h] at hx
      split
      · exact hstay _ hx
      · obtain ⟨y, hy⟩ := reads_copyLoop put fuel
          (limit.map (· - (c.read limit).1.1.length))
          (n + (c.read limit).1.1.length) c'
        exact ⟨y, hx.trans hy⟩

/-- Whatever the first copy of a body takes, `writeBody` takes it first. -/
theorem reads_writeBody_of {P : Bytes → Prop} (hP : ∀ {x y}, P x → P (x ++ y))
    (t : TransferWriter) {c : Copy ρ}
    (hcopy : ∀ put limit, limit = none ∨ (chunked t.transferEncoding = false ∧
        t.contentLength ≠ -1 ∧ limit = some t.contentLength.toNat) →
      ∃ x, P x ∧ Reads c.rd x (copyLoop put c.fuel limit 0 c).2.rd) :
    ∃ x, P x ∧ Reads c.rd x (writeBody t c).2.rd := by
  unfold writeBody
  split
  · obtain ⟨x, hp, hx⟩ := hcopy (writeChunk t.isResponse) none (.inl rfl)
    split
    · next h => rw [h] at hx; exact ⟨x, hp, hx⟩
    · next h => rw [h] at hx; split <;> exact ⟨x, hp, hx⟩
  · next hte =>
      split
      · exact hcopy _ _ (.inl rfl)
      · next hcl =>
          obtain ⟨x, hp, hx⟩ := hcopy Out.write (some t.contentLength.toNat)
            (.inr ⟨by simpa using hte, hcl, rfl⟩)
          split
          · next h => rw [h] at hx; exact ⟨x, hp, hx⟩
          · next n c' h =>
              rw [h] at hx
              obtain ⟨y, hy⟩ := reads_copyLoop
                (fun _ o => (true, o)) c'.fuel none n c'
              split
              · next h' => rw [h'] at hy; exact ⟨_, hP hp, hx.trans hy⟩
              · next h' => rw [h'] at hy; split <;> exact ⟨_, hP hp,
                    hx.trans hy⟩

theorem reads_writeBody (t : TransferWriter) (c : Copy ρ) :
    ∃ x, Reads c.rd x (writeBody t c).2.rd := by
  obtain ⟨x, _, hx⟩ := reads_writeBody_of (P :=
    fun _ => True) (fun _ => trivial) t
    (fun put limit _ => (reads_copyLoop put c.fuel limit 0 c).imp fun _ h =>
      ⟨trivial, h⟩)
  exact ⟨x, hx⟩

theorem reads_requestWrite (idna : Bytes → Option Bytes) (r : Request)
    (c : Copy ρ) :
    ∃ x, Reads c.rd x (r.write idna c).2.rd := by
  unfold Request.write
  split
  · exact ⟨[], Reads.refl c.rd⟩
  · next out _ => exact reads_writeBody _ { c with out := out }

theorem reads_responseWrite (r : Response) (c : Copy ρ) :
    ∃ x, Reads c.rd x (r.write c).2.rd := by
  unfold Response.write
  split
  · exact ⟨[], Reads.refl c.rd⟩
  · next out _ => exact reads_writeBody _ { c with out := out }

end Body

/-! ## The handlers -/

/-- A handler that only ever reads: its parser is lawful, and forwarding a
message takes bytes off the view. -/
structure Conserves {μ : Type} (H : Handler μ) : Prop where
  read : Lawful H.read
  forward : ∀ k m c, ∃ x, Reads c.rd x (H.forward k m c).2.rd

theorem requestHandler_conserves {C : Type} (cfg : HTTPConfig)
    (isInbound : Bool) (tr : Tracer C) (idna : Bytes → Option Bytes)
    (trips : Nat → Trip C) (w : World) :
    Conserves (requestHandler cfg isInbound tr idna trips w) :=
  ⟨lawful_readRequest, fun _ _ _ => reads_requestWrite _ _ _⟩

theorem responseHandler_conserves (head : Nat → Bool) (w : World) :
    Conserves (responseHandler false head w) := by
  refine ⟨lawful_readResponse none, fun k m c => ?_⟩
  simp only [responseHandler, Bool.false_and, Bool.and_false,
    Bool.false_eq_true, if_false]
  exact reads_responseWrite m c

end Netramesh.Proofs
