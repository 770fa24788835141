import Netramesh.Proofs.Chunks

/-!
# Copying a body to its end

`Pending` says what is still to come of a body: its bytes, and either what
stands behind the body and its trailer, or that the stream ends before. One read
takes some bytes off the front, and a copy whose writes succeed goes through all
of them, in pieces that depend on the network but add up to the same.
-/

namespace Netramesh.Proofs

open Http Protocol Net Lib

/-! ## Parsing at a place in the stream -/

/-- A reader at the point of the stream where `v` is to come. -/
def standing (fin : Err) (v : Bytes) : Reader Tee :=
  (Loop.init { data := v, fin := fin }).rd

/-- Started where `v` is to come, the parser answers `a` and leaves `v'`. -/
def Parses {α : Type} (f : Parser Tee Err α) (fin : Err) (v : Bytes) (a : α)
    (v' : Bytes) : Prop :=
  (f (standing fin v)).1 = .ok a ∧ (f (standing fin v)).2.view = v'

instance {α : Type} [DecidableEq α] (f : Parser Tee Err α) (fin : Err)
    (v : Bytes) (a : α) (v' : Bytes) : Decidable (Parses f fin v a v') :=
  inferInstanceAs (Decidable (_ ∧ _))

/-- Where the bytes were cut does not matter to a lawful parser. -/
theorem sim_standing {rd : Reader Tee} (h : rd.size = 0xfff) :
    Sim rd (standing rd.fin rd.view) :=
  ⟨h, rfl, rfl⟩

theorem Parses.run {α : Type} {f : Parser Tee Err α} (hf : Lawful f) {a : α}
    {v' : Bytes} {rd : Reader Tee} (h : Parses f rd.fin rd.view a v')
    (hsize : rd.size = 0xfff) :
    ∃ rd' c, f rd = (.ok a, rd') ∧ Reads rd c rd' ∧ rd'.view = v' := by
  obtain ⟨heq, hsim⟩ := hf.sim _ _ (sim_standing hsize)
  obtain ⟨c, hc⟩ := hf.reads rd
  exact ⟨(f rd).2, c, Prod.ext (heq.trans h.1) rfl, hc, hsim.view.trans h.2⟩

theorem parses_of_run {α : Type} {f : Parser Tee Err α} (hf : Lawful f) {a : α}
    {rd rd' : Reader Tee} (h : f rd = (.ok a, rd')) (hsize : rd.size = 0xfff) :
    Parses f rd.fin rd.view a rd'.view := by
  obtain ⟨heq, hsim⟩ := hf.sim _ _ (sim_standing hsize)
  rw [h] at heq hsim
  exact ⟨heq.symm, hsim.view.symm⟩

/-! ## What is to come of a body -/

/-- How many bytes a counted body has to go. -/
def Body.left (b : Body) : Option Nat :=
  match b.src with
  | .limited k => some k
  | _ => none

/-- What follows the line of the last chunk: a trailer section and the rest of
the stream, or the end of the stream. -/
inductive Tail (fin : Err) : Option Bytes →
    Option (Bytes × Option Header) → Prop
  | full {r rest : Bytes} {hdr : Option Header} :
      Parses readTrailer fin r hdr rest → Tail fin (some r) (some (rest, hdr))
  | none : Tail fin (some []) none
  | cut : Tail fin .none .none

/-- The body `b` on the stream `v` still holds `data`; behind it and its trailer
comes `some rest`, or the stream ends before. -/
inductive Pending (fin : Err) : Body → Bytes → Bytes →
    Option (Bytes × Option Header) → Prop
  | limited {cl : Bool} {k : Nat} {v : Bytes} : 0 < k → k ≤ v.length →
      Pending fin { src := .limited k, hdr := false,
                    closing := cl } v (v.take k)
        (some (v.drop k, none))
  | limitedCut {cl : Bool} {k : Nat} {v : Bytes} : v.length < k →
      Pending fin { src := .limited k, hdr := false, closing := cl } v v none
  | chunked {cl : Bool} {cr : ChunkedReader} {v data : Bytes} {o : Option Bytes}
      {o' : Option (Bytes × Option Header)} : cr.err = none →
      Decodes 0xfff cr.n cr.checkEnd v data o → Tail fin o o' →
      Pending fin { src := .chunked cr, hdr := true, closing := cl } v data o'
  | wire {cl : Bool} {v : Bytes} :
      Pending fin { src := .wire, hdr := false, closing := cl } v v
        (if fin = .eof then some ([], none) else none)

/-- What one read makes of a body: some bytes and more to come, the last ones,
or the end of the stream. -/
inductive Stepped (fin : Err) (b : Body) (data : Bytes)
    (o : Option (Bytes × Option Header))
    (n : Nat) (r : BodyRead Tee) : Prop
  | more {data' : Bytes} : data = r.bytes ++ data' → r.bytes ≠ [] →
      r.bytes.length ≤ n → r.err = none → r.trailer = none → Body.left r.body =
        (Body.left b).map (· - r.bytes.length) →
      Pending fin r.body r.rd.view data' o → Stepped fin b data o n r
  | done {rest : Bytes} {hdr : Option Header} : data = r.bytes →
      r.bytes.length ≤ n →
      o = some (rest, hdr) → r.err = some .eof → r.rd.view = rest →
        r.trailer = hdr →
      r.body.sawEOF = true → r.body.closed = false → Stepped fin b data o n r
  | cut {e : Err} : data = r.bytes → r.bytes.length ≤ n → o = none →
      r.err = some e → e ≠ .eof → r.rd.view = [] → Stepped fin b data o n r

theorem readTrailer_nil {rd : Reader Tee} (h : rd.view = []) :
    ∃ rd', readTrailer rd = (.error errTrailerEOF, rd') ∧ rd'.view = [] := by
  obtain ⟨hb, hreads⟩ := peek_spec 2 rd
  have hpeek : (Parser.peek 2 : Parser Tee Err Bytes) rd =
      (.ok [], (rd.peek 2).2) := by
    rw [Parser.peek, hb, h, List.take_nil]
  refine ⟨(rd.peek 2).2, ?_, hreads.sim.view.symm.trans h⟩
  rw [readTrailer, Parser.bind_ok hpeek]
  rfl

theorem read_limited (rd : Reader Tee) (cl : Bool) {k n : Nat} (hn : 0 < n)
    (hk : 0 < k) (hne : rd.view ≠ []) :
    ∃ p rd', rd.read (min n k) = (some p, rd') ∧ p ≠ [] ∧ p.length ≤ min n k ∧
      Reads rd p rd' ∧
      Body.read n { src := .limited k, hdr := false, closing := cl } rd =
        if k - p.length = 0 then
          ⟨p, some .eof,
            { src := .limited 0, hdr := false, closing := cl, sawEOF := true },
            none, rd'⟩
        else ⟨p, none,
          { src := .limited (k - p.length), hdr := false, closing := cl }, none,
          rd'⟩ := by
  obtain ⟨p, rd', hrun, hp, hlen, hreads⟩ :=
    read_front (show 0 < min n k by omega) hne
  refine ⟨p, rd', hrun, hp, hlen, hreads, ?_⟩
  unfold Body.read BodySrc.read
  simp only [Bool.false_eq_true, if_false, if_neg (show ¬ k = 0 by omega), hrun]
  by_cases hz : k - p.length = 0
  · simp [hz, hp]
  · simp [hz]

theorem Pending.read_limited_step {fin : Err} {rd : Reader Tee} {k n : Nat}
    {cl : Bool} (hn : 0 < n) (hk : 0 < k) (hle : k ≤ rd.view.length) :
    Stepped fin { src := .limited k, hdr := false, closing := cl }
      (rd.view.take k)
      (some (rd.view.drop k, none)) n
      (Body.read n { src := .limited k, hdr := false, closing := cl } rd) := by
  obtain ⟨p, rd', hrun, hp, hlen, hreads, heq⟩ := read_limited rd cl hn hk
    (by intro h; rw [h, List.length_nil] at hle; omega)
  rw [heq, hreads.view]
  have hv := hreads.view
  rw [hv, List.length_append] at hle
  split
  · next hz =>
      have hpk : p.length = k := by omega
      rw [← hpk, List.take_left, List.drop_left]
      exact .done rfl (by dsimp only; omega) rfl rfl rfl rfl rfl rfl
  · next hz =>
      have htake : (p ++ rd'.view).take k =
          p ++ rd'.view.take (k - p.length) := by
        rw [List.take_append, List.take_of_length_le (by omega)]
      have hdrop : (p ++ rd'.view).drop k = rd'.view.drop (k - p.length) := by
        rw [List.drop_append, List.drop_of_length_le (by omega),
          List.nil_append]
      rw [htake, hdrop]
      exact .more rfl hp (by dsimp only; omega) rfl rfl rfl
        (.limited (by omega) (show k - p.length ≤ rd'.view.length by omega))

theorem Pending.read_limitedCut_step {rd : Reader Tee} {k n : Nat} {cl : Bool}
    (hn : 0 < n) (hlt : rd.view.length < k) :
    Stepped rd.fin { src := .limited k, hdr := false, closing := cl } rd.view
      none n
      (Body.read n { src := .limited k, hdr := false, closing := cl } rd) := by
  by_cases hnil : rd.view = []
  · obtain ⟨rd', hrun, hreads⟩ := read_end (show 0 < min n k by omega) hnil
    have hv : rd'.view = [] := hreads.sim.view.symm.trans hnil
    obtain ⟨k, rfl⟩ : ∃ k', k = k' + 1 := ⟨k - 1, by omega⟩
    rw [hnil]
    unfold Body.read BodySrc.read
    simp only [Bool.false_eq_true, if_false, if_neg (Nat.succ_ne_zero k), hrun,
      Option.some.injEq]
    by_cases heof : rd.fin = .eof
    · rw [if_pos heof]
      exact .cut rfl (Nat.zero_le _) rfl rfl (by simp) hv
    · rw [if_neg heof, if_neg (by simp)]
      exact .cut rfl (Nat.zero_le _) rfl rfl heof hv
  · obtain ⟨p, rd', hrun, hp, hlen, hreads, heq⟩ :=
      read_limited rd cl (k := k) hn (by omega) hnil
    have hv := hreads.view
    rw [hv, List.length_append] at hlt
    rw [heq, hv, if_neg (by omega)]
    exact .more rfl hp (by dsimp only; omega) rfl rfl rfl
      (.limitedCut (show rd'.view.length < k - p.length by omega))

theorem Pending.read_wire_step {rd : Reader Tee} {n : Nat} {cl : Bool}
    (hn : 0 < n) :
    Stepped rd.fin { src := .wire, hdr := false, closing := cl } rd.view
      (if rd.fin = .eof then some ([], none) else none) n
      (Body.read n { src := .wire, hdr := false, closing := cl } rd) := by
  by_cases hnil : rd.view = []
  · obtain ⟨rd', hrun, hreads⟩ := read_end hn hnil
    have hv : rd'.view = [] := hreads.sim.view.symm.trans hnil
    rw [hnil]
    unfold Body.read BodySrc.read
    simp only [Bool.false_eq_true, if_false, hrun, Option.some.injEq]
    by_cases heof : rd.fin = .eof
    · rw [if_pos heof, if_pos heof]
      exact .done rfl (Nat.zero_le _) rfl rfl hv rfl rfl rfl
    · rw [if_neg heof, if_neg heof, if_neg (by simp)]
      exact .cut rfl (Nat.zero_le _) rfl rfl heof hv
  · obtain ⟨p, rd', hrun, hp, hlen, hreads⟩ := read_front hn hnil
    have heq : Body.read n { src := .wire, hdr := false, closing := cl } rd =
        ⟨p, none, { src := .wire, hdr := false, closing := cl }, none,
          rd'⟩ := by
      unfold Body.read BodySrc.read
      simp [hrun]
    rw [heq, hreads.view, ← hreads.fin]
    exact .more rfl hp hlen rfl rfl rfl .wire

section Chunked

variable {rd rd' : Reader Tee} {n : Nat} {cl : Bool} {cr cr' : ChunkedReader}
  {p : Bytes}

/-- A read of a chunked body that does not come to the last chunk. -/
theorem read_chunked_go
    (h : chunkLoop (rd.view.length + 2) n [] cr rd = (p, cr', rd'))
    (he : cr'.err ≠ some .eof) :
    Body.read n { src := .chunked cr, hdr := true, closing := cl } rd =
      ⟨p, cr'.err, { src := .chunked cr', hdr := true, closing := cl }, none,
        rd'⟩ := by
  unfold Body.read BodySrc.read ChunkedReader.read
  simp [h, he]

/-- A read that does, and the trailer section behind it. -/
theorem read_chunked_last
    (h : chunkLoop (rd.view.length + 2) n [] cr rd = (p, cr', rd'))
    (he : cr'.err = some .eof) :
    Body.read n { src := .chunked cr, hdr := true, closing := cl } rd =
      match readTrailer rd' with
      | (.ok hdr, rd) =>
        ⟨p, some .eof,
          { src := .chunked cr', hdr := false, closing := cl, sawEOF := true },
          hdr, rd⟩
      | (.error e, rd) =>
        ⟨p, some e,
          { src := .chunked cr', hdr := false, closing := cl, closed := true },
          none, rd⟩ := by
  unfold Body.read BodySrc.read ChunkedReader.read
  simp only [h, he, Bool.false_eq_true, if_false, if_true]
  rcases readTrailer rd' with ⟨_ | _, _⟩ <;> rfl

theorem Stepped.of_end {data : Bytes} {o' : Option (Bytes × Option Header)}
    (h : chunkLoop (rd.view.length + 2) n [] cr rd = (p, cr', rd'))
    (hp : p.length ≤ n) (hv : rd'.view = []) (ho : o' = none)
    (herr : cr'.err ≠ none) (hdata : data = p) :
    Stepped rd.fin { src := .chunked cr, hdr := true, closing := cl } data o' n
      (Body.read n { src := .chunked cr, hdr := true, closing := cl } rd) := by
  obtain ⟨e, he⟩ := Option.ne_none_iff_exists'.mp herr
  by_cases heof : cr'.err = some .eof
  · obtain ⟨rd'', hrun, hv''⟩ := readTrailer_nil hv
    rw [read_chunked_last h heof, hrun]
    exact .cut hdata hp ho rfl (by simp [errTrailerEOF]) hv''
  · rw [read_chunked_go h heof]
    refine .cut hdata hp ho he ?_ hv
    rintro rfl
    exact heof he

theorem Pending.read_chunked_step {data : Bytes} {o : Option Bytes}
    {o' : Option (Bytes × Option Header)} (hn : 0 < n) (hsize : rd.size = 0xfff)
    (herr : cr.err = none)
    (hdec : Decodes 0xfff cr.n cr.checkEnd rd.view data o)
    (htail : Tail rd.fin o o') :
    Stepped rd.fin { src := .chunked cr, hdr := true, closing := cl } data o' n
      (Body.read n { src := .chunked cr, hdr := true, closing := cl } rd) := by
  obtain ⟨c, hreads⟩ := reads_chunkLoop (rd.view.length + 2) n [] cr rd
  obtain ⟨q, data', rfl, hout, hq, hleaves, hne⟩ :=
    chunkLoop_spec o (rd.view.length + 2) n [] cr rd
    data herr (by rw [hsize]; exact hdec) (by omega)
  rw [hsize] at hleaves
  cases hrun : chunkLoop (rd.view.length + 2) n [] cr rd with
  | mk p r =>
    obtain ⟨cr', rd'⟩ := r
    rw [hrun] at hreads hout hleaves hne
    dsimp only [List.nil_append] at hreads hout hleaves hne
    subst hout
    rcases hleaves with ⟨hnone, hdec'⟩ | ⟨hsome, rfl, hv, heof⟩
    · rw [read_chunked_go hrun (by rw [hnone]; simp)]
      exact .more rfl (hne (.inl hn) hnone) hq hnone rfl rfl
        (.chunked hnone hdec' htail)
    · rw [List.append_nil]
      cases htail with
      | full hparse =>
        -- the decoder is through and the trailer comes next
        rw [← hreads.fin] at hparse
        dsimp only [Option.getD_some] at hv
        rw [← hv] at hparse
        obtain ⟨rd'', _, hrun'', _, hv''⟩ :=
          hparse.run lawful_readTrailer (hreads.size.trans hsize)
        rw [read_chunked_last hrun (heof (by simp)), hrun'']
        exact .done rfl hq rfl rfl hv'' rfl rfl rfl
      | none => exact .of_end hrun hq hv rfl hsome rfl
      | cut => exact .of_end hrun hq hv rfl hsome rfl

end Chunked

/-- One read of a body. -/
theorem Pending.read {b : Body} {rd : Reader Tee} {data : Bytes}
    {o : Option (Bytes × Option Header)} {n : Nat} (hn : 0 < n)
    (hsize : rd.size = 0xfff) (h : Pending rd.fin b rd.view data o) :
    Stepped rd.fin b data o n (b.read n rd) := by
  generalize hv : rd.view = v at h
  cases h with
  | limited hk hle =>
    subst hv
    exact read_limited_step hn hk hle
  | limitedCut hlt =>
    subst hv
    exact read_limitedCut_step hn hlt
  | chunked herr hdec htail =>
    subst hv
    exact read_chunked_step hn hsize herr hdec htail
  | wire =>
    subst hv
    exact read_wire_step hn

/-! ## The copy -/

/-- None of the writes fails. -/
def NoFail (fails : List Bool) : Prop := ∀ b ∈ fails, b = false

instance (fails : List Bool) : Decidable (NoFail fails) :=
  inferInstanceAs (Decidable (∀ b ∈ fails, b = false))

theorem write_ok {o : Out} (h : NoFail o.fails) (b : Bytes) :
    (o.write b).1 = true ∧ (o.write b).2.bytes = o.bytes ++ b ∧
      NoFail (o.write b).2.fails := by
  unfold Out.write
  split
  · exact ⟨rfl, rfl, h⟩
  · next hf =>
      rw [hf] at h
      exact ⟨rfl, rfl, fun b hb => h b (List.mem_cons_of_mem _ hb)⟩
  · next hf =>
      rw [hf] at h
      cases h true List.mem_cons_self


theorem writeAll_ok {o : Out} (bs : List Bytes) (h : NoFail o.fails) :
    (o.writeAll bs).1 = true ∧ (o.writeAll bs).2.bytes = o.bytes ++ bs.flatten ∧
      NoFail (o.writeAll bs).2.fails := by
  induction bs generalizing o with
  | nil => exact ⟨rfl, (List.append_nil _).symm, h⟩
  | cons b bs ih =>
    obtain ⟨hok, hbytes, hfails⟩ := write_ok h b
    cases hw : o.write b with
    | mk r o' =>
      rw [hw] at hok hbytes hfails
      dsimp only at hok hbytes hfails
      subst hok
      obtain ⟨h1, h2, h3⟩ := ih hfails
      rw [Out.writeAll, hw]
      refine ⟨h1, ?_, h3⟩
      rw [h2, hbytes, List.flatten_cons, List.append_assoc]

/-- As long as no write fails, `put` adds the bytes in the form `enc`. -/
def Sends (put : Bytes → Out → Bool × Out) (enc : Bytes → Bytes) : Prop :=
  ∀ p o, NoFail o.fails →
    (put p o).1 = true ∧ (put p o).2.bytes = o.bytes ++ enc p ∧
      NoFail (put p o).2.fails

theorem sends_write : Sends Out.write id := fun p _ h => write_ok h p

/-- A chunk as it is written. -/
def chunk (p : Bytes) : Bytes := hex p.length ++ crlf ++ p ++ crlf

theorem sends_chunk (isResponse : Bool) :
    Sends (writeChunk isResponse) chunk := by
  intro p o h
  obtain ⟨h1, h2, h3⟩ := writeAll_ok
    ([hex p.length ++ crlf, p, crlf] ++ if isResponse then [] else [[]]) h
  refine ⟨h1, ?_, h3⟩
  rw [writeChunk, h2, chunk]
  cases isResponse <;> simp

theorem Sends.pass {put : Bytes → Out → Bool × Out} {enc : Bytes → Bytes}
    (hput : Sends put enc) (p : Bytes) {c : Copy Tee} (h : NoFail c.out.fails) :
    (c.pass put p).1 = true ∧
      (c.pass put p).2.out.bytes = c.out.bytes ++
        (if p = [] then [] else enc p) ∧
      NoFail (c.pass put p).2.out.fails ∧ (c.pass put p).2 =
        { c with out := (c.pass put p).2.out } := by
  unfold Copy.pass
  split
  · exact ⟨rfl, (List.append_nil _).symm, h, rfl⟩
  · obtain ⟨h1, h2, h3⟩ := hput p c.out h
    exact ⟨h1, h2, h3, rfl⟩

/-! ## The copy -/

theorem Chunks.length_le {size : Nat} {v body : Bytes} {o : Option Bytes}
    (h : Chunks size v body o) : body.length ≤ v.length := by
  induction h with
  | last _ => exact Nat.zero_le _
  | chunk _ hhead _ ih =>
    have := chunkHead_length hhead
    simp only [List.length_append] at this ⊢
    omega
  | cutLine _ _ => exact Nat.zero_le _
  | cutData hhead _ _ =>
    have := chunkHead_length hhead
    rw [List.length_take]
    omega

theorem Decodes.length_le {size n : Nat} {e : Bool} {v body : Bytes}
    {o : Option Bytes} (h : Decodes size n e v body o) :
    body.length ≤ v.length := by
  cases h with
  | line h => exact h.length_le
  | data _ _ h =>
    have := h.length_le
    simp only [List.length_append]
    omega
  | crlf h =>
    have := h.length_le
    simp only [List.length_append]
    omega
  | cutData _ _ => rw [List.length_take]; omega
  | cutCrlf _ => exact Nat.zero_le _

theorem Pending.length_le {fin : Err} {b : Body} {v data : Bytes}
    {o : Option (Bytes × Option Header)} (h : Pending fin b v data o) :
    data.length ≤ v.length := by
  cases h with
  | limited _ _ => rw [List.length_take]; omega
  | limitedCut _ => exact Nat.le_refl _
  | chunked _ h _ => exact h.length_le
  | wire => exact Nat.le_refl _

theorem Pending.left_ne_zero {fin : Err} {b : Body} {v data : Bytes}
    {o : Option (Bytes × Option Header)} (h : Pending fin b v data o) :
    Body.left b ≠ some 0 := by
  cases h with
  | limited hk _ => simp only [Body.left, ne_eq, Option.some.injEq]; omega
  | limitedCut hlt => simp only [Body.left, ne_eq, Option.some.injEq]; omega
  | chunked _ _ _ => simp [Body.left]
  | wire => simp [Body.left]

/-- What a copy that goes through does: it passes on the whole body, in pieces,
and stands behind the body and its trailer, or at the end of the stream. -/
structure Drained (enc : Bytes → Bytes) (c : Copy Tee) (data : Bytes)
    (o : Option (Bytes × Option Header)) (n : Nat)
    (r : (Nat × Option Err) × Copy Tee) : Prop where
  pieces : ∃ ps : List Bytes, ps.flatten = data ∧
    (∀ p ∈ ps, p ≠ [] ∧ p.length ≤ 2 ^ 63) ∧
    r.2.out.bytes = c.out.bytes ++ ps.flatMap enc
  noFail : NoFail r.2.out.fails
  count : r.1.1 = n + data.length
  full : ∀ rest hdr, o = some (rest, hdr) → r.1.2 = none ∧ r.2.rd.view = rest ∧
    r.2.trailer = (c.trailer <|> hdr) ∧ ∃ b, r.2.body = some b ∧
      b.sawEOF = true ∧ b.closed = false
  cut : o = none → r.1.2 ≠ none ∧ r.2.rd.view = []

/-- The last piece, which may be empty. -/
theorem Drained.last {enc : Bytes → Bytes} {p data out out' : Bytes}
    (hdata : data = p) (hlen : p.length ≤ 2 ^ 63)
    (hout : out' = out ++ (if p = [] then [] else enc p)) :
    ∃ ps : List Bytes, ps.flatten = data ∧
      (∀ p ∈ ps, p ≠ [] ∧ p.length ≤ 2 ^ 63) ∧
      out' = out ++ ps.flatMap enc := by
  by_cases hp : p = []
  · rw [if_pos hp] at hout
    exact ⟨[], by rw [hdata, hp]; rfl, by simp, hout⟩
  · rw [if_neg hp] at hout
    refine ⟨[p], by simp [hdata], fun q hq => ?_, by simp [hout]⟩
    rw [List.mem_singleton.mp hq]
    exact ⟨hp, hlen⟩

/-- A read of the copy is a read of its body, for some positive number of
bytes. -/
theorem copyRead_eq {c : Copy Tee} {b : Body} {limit : Option Nat}
    (hb : c.body = some b) (hl : limit ≠ some 0)
    (hsizes : ∀ k ∈ c.sizes, k < 2 ^ 63) :
    ∃ k, 0 < k ∧ k ≤ 2 ^ 63 ∧ c.read limit =
      (((b.read k c.rd).bytes, (b.read k c.rd).err),
        { c with body := some (b.read k c.rd).body, rd := (b.read k c.rd).rd
                 trailer := c.trailer <|> (b.read k c.rd).trailer,
                   sizes := c.sizes.tail }) := by
  have hhead : c.sizes.headD 65534 + 1 ≤ 2 ^ 63 := by
    cases hs : c.sizes with
    | nil => simp
    | cons n ns =>
      have := hsizes n (by rw [hs]; exact List.mem_cons_self)
      simp only [List.headD_cons]
      omega
  unfold Copy.read
  rw [hb]
  cases limit with
  | none => exact ⟨_, Nat.succ_pos _, hhead, rfl⟩
  | some l =>
    have hpos : l ≠ 0 := fun h => hl (by rw [h])
    exact ⟨_, by omega, (Nat.min_le_left _ _).trans hhead, rfl⟩

theorem copyLoop_drains {put : Bytes → Out → Bool × Out} {enc : Bytes → Bytes}
    (hput : Sends put enc) (fuel : Nat) (limit : Option Nat) (n : Nat)
    (c : Copy Tee) {b : Body} {data : Bytes}
    {o : Option (Bytes × Option Header)} (hb : c.body = some b)
    (hok : NoFail c.out.fails) (hsize : c.rd.size = 0xfff)
    (hsizes : ∀ k ∈ c.sizes, k < 2 ^ 63)
    (h : Pending c.rd.fin b c.rd.view data o)
    (hlim : limit = none ∨ limit = Body.left b) (hfuel : data.length < fuel) :
    Drained enc c data o n (copyLoop put fuel limit n c) := by
  induction fuel generalizing limit n c b data with
  | zero => omega
  | succ fuel ih =>
    have hl : limit ≠ some 0 := by
      rcases hlim with rfl | rfl
      · simp
      · exact h.left_ne_zero
    -- how much this read asks for
    obtain ⟨k, hk, hkle, hread⟩ : ∃ k, 0 < k ∧ k ≤ 2 ^ 63 ∧ c.read limit =
        (((b.read k c.rd).bytes, (b.read k c.rd).err),
          { c with body := some (b.read k c.rd).body, rd := (b.read k c.rd).rd
                   trailer := c.trailer <|> (b.read k c.rd).trailer,
                     sizes := c.sizes.tail }) :=
      copyRead_eq hb hl hsizes
    obtain ⟨x, hx⟩ := reads_bodyRead hk b c.rd
    have hstep := h.read hk hsize
    generalize b.read k c.rd = r at hread hx hstep
    obtain ⟨hpass, hbytes, hfails, heq⟩ :=
      hput.pass r.bytes (c := (c.read limit).2)
      (by rw [hread]; exact hok)
    rw [hread] at hpass hbytes hfails heq
    dsimp only at hpass hbytes hfails heq
    rw [copyLoop, if_neg hl, hread]
    dsimp only
    generalize (Copy.pass put r.bytes { c with
      body := some r.body, rd := r.rd, trailer := c.trailer <|> r.trailer
      sizes := c.sizes.tail }) = q at *
    obtain ⟨ok, c'⟩ := q
    dsimp only at hpass hbytes hfails heq ⊢
    subst hpass
    have hbody : c'.body = some r.body := congrArg Copy.body heq
    have hrd : c'.rd = r.rd := congrArg Copy.rd heq
    have htrailer : c'.trailer = (c.trailer <|> r.trailer) :=
      congrArg Copy.trailer heq
    cases hstep with
    | @more data' hdata hne hlen herr htr hleft hnext =>
      rw [herr]
      dsimp only
      have hfin : r.rd.fin = c.rd.fin := hx.fin
      have hlim' : limit.map (· - r.bytes.length) = none ∨
          limit.map (· - r.bytes.length) = Body.left r.body := by
        rcases hlim with rfl | rfl
        · exact .inl rfl
        · exact .inr hleft.symm
      have hpos := List.length_pos_of_ne_nil hne
      have hd := ih (limit.map (· - r.bytes.length)) (n + r.bytes.length) c'
        (b := r.body)
        hbody hfails (by rw [hrd, hx.size, hsize])
        (by rw [congrArg Copy.sizes heq]; exact fun k hk =>
          hsizes k (List.mem_of_mem_tail hk))
        (by rw [hrd, hfin]; exact hnext) hlim'
        (by rw [hdata, List.length_append] at hfuel; omega)
      obtain ⟨ps, hflat, hps, hout⟩ := hd.pieces
      refine ⟨⟨r.bytes :: ps, ?_, ?_, ?_⟩, hd.noFail, ?_, ?_, hd.cut⟩
      · rw [List.flatten_cons, hflat, hdata]
      · intro p hp
        rcases List.mem_cons.mp hp with rfl | hp
        · exact ⟨hne, hlen.trans hkle⟩
        · exact hps p hp
      · rw [hout, hbytes, if_neg hne, List.flatMap_cons, List.append_assoc]
      · rw [hd.count, hdata, List.length_append, Nat.add_assoc]
      · intro rest hdr ho
        obtain ⟨h1, h2, h3, h4⟩ := hd.full rest hdr ho
        refine ⟨h1, h2, ?_, h4⟩
        rw [h3, htrailer, htr]
        cases c.trailer <;> rfl
    | @done rest hdr hdata hlen ho herr hv htr heof hclosed =>
      rw [herr]
      refine ⟨Drained.last hdata (hlen.trans hkle) hbytes,
        hfails, by rw [hdata], ?_, ?_⟩
      · intro rest' hdr' ho'
        rw [ho] at ho'
        cases ho'
        exact ⟨rfl, by rw [hrd, hv], by rw [htrailer, htr], r.body, hbody, heof,
          hclosed⟩
      · intro hnone
        rw [ho] at hnone
        cases hnone
    | cut hdata hlen ho herr hneof hv =>
      rw [herr]
      refine ⟨Drained.last hdata (hlen.trans hkle) hbytes,
        hfails, by rw [hdata], ?_, ?_⟩
      · intro rest hdr ho'
        rw [ho] at ho'
        cases ho'
      · intro _
        exact ⟨by simp [hneof], by rw [hrd, hv]⟩

/-- Reading on behind the end of a body does nothing. -/
theorem copyLoop_sawEOF (put : Bytes → Out → Bool × Out) (n : Nat)
    {c : Copy Tee} {b : Body} (hb : c.body = some b) (heof : b.sawEOF = true)
    (hclosed : b.closed = false) :
    ∃ c', copyLoop put c.fuel none n c = ((n, none), c') ∧ c'.rd = c.rd ∧
      c'.out = c.out := by
  have hread : ∀ k, b.read k c.rd = ⟨[], some .eof, b, none, c.rd⟩ := by
    intro k
    unfold Body.read
    rw [hclosed, heof]
    rfl
  refine ⟨(c.read none).2, ?_, ?_, ?_⟩
  · rw [Copy.fuel, copyLoop, if_neg (by simp)]
    unfold Copy.read Copy.pass
    simp only [hb, hread]
    rfl
  · unfold Copy.read
    simp only [hb, hread]
  · unfold Copy.read
    simp only [hb]

theorem copyLoop_noBody (put : Bytes → Out → Bool × Out) (limit : Option Nat)
    (n : Nat) {c : Copy Tee} (hb : c.body = none) :
    copyLoop put c.fuel limit n c = ((n, none), c) := by
  rw [Copy.fuel, copyLoop]
  split
  · rfl
  · unfold Copy.read Copy.pass
    simp [hb]

/-! ## `writeBody` -/

/-- The lines of a trailer section. -/
def trailerWire (t : Option Header) : Bytes :=
  (t.elim [] fun h => (fieldLines [] h).flatMap linePieces).flatten

/-- A body that went out in the pieces `ps`, without its end. -/
def piecesWire (t : TransferWriter) (ps : List Bytes) : Bytes :=
  if chunked t.transferEncoding then ps.flatMap chunk else ps.flatten

/-- What stands behind it. -/
def endWire (t : TransferWriter) (hdr : Option Header) : Bytes :=
  if chunked t.transferEncoding then
    lit "0\r\n" ++ trailerWire (mergedTrailer t.trailer hdr) ++ crlf
  else []

/-- The framing `t` writes suits the body `b`: a counted body is written with
its own count. -/
def Suits (t : TransferWriter) (b : Body) : Prop :=
  chunked t.transferEncoding = true ∨ t.contentLength = -1 ∨
    (0 ≤ t.contentLength ∧ Body.left b = some t.contentLength.toNat)

/-- What `writeBody` does with a body. -/
structure Written (t : TransferWriter) (c : Copy Tee) (data : Bytes)
    (o : Option (Bytes × Option Header)) (r : Option Err × Copy Tee)
    (ps : List Bytes) : Prop where
  flat : ps.flatten = data
  pieces : ∀ p ∈ ps, p ≠ [] ∧ p.length ≤ 2 ^ 63
  full : ∀ rest hdr, o = some (rest, hdr) → r.1 = none ∧ r.2.rd.view = rest ∧
    r.2.out.bytes = c.out.bytes ++ piecesWire t ps ++ endWire t hdr
  cut : o = none → r.1 ≠ none ∧ r.2.rd.view = [] ∧
    r.2.out.bytes = c.out.bytes ++ piecesWire t ps

section WriteBody

variable {t : TransferWriter} {c : Copy Tee} {b : Body} {data : Bytes}
  {o : Option (Bytes × Option Header)}

theorem writeBody_chunked (hte : chunked t.transferEncoding = true)
    (htrailer : c.trailer = none) (hb : c.body = some b)
    (hok : NoFail c.out.fails) (hsize : c.rd.size = 0xfff)
    (hsizes : ∀ k ∈ c.sizes, k < 2 ^ 63)
    (h : Pending c.rd.fin b c.rd.view data o) :
    ∃ ps, Written t c data o (writeBody t c) ps := by
  have hlen := h.length_le
  have hd := copyLoop_drains
    (sends_chunk t.isResponse) c.fuel none 0 c hb hok hsize hsizes h
    (.inl rfl) (by unfold Copy.fuel; omega)
  obtain ⟨ps, hflat, hps, hout⟩ := hd.pieces
  have hpieces : piecesWire t ps = ps.flatMap chunk := if_pos hte
  refine ⟨ps, hflat, hps, ?_, ?_⟩
  · intro rest hdr ho
    obtain ⟨hnone, hview, htr, _⟩ := hd.full rest hdr ho
    have hfails := hd.noFail
    unfold writeBody
    rw [if_pos hte]
    generalize copyLoop (writeChunk t.isResponse) c.fuel none 0 c =
      r at hout hfails hnone hview htr
    obtain ⟨⟨n, e⟩, c'⟩ := r
    dsimp only at hnone hview hout hfails htr
    subst hnone
    dsimp only
    obtain ⟨hw, hbytes, _⟩ := writeAll_ok (o := c'.out) ([lit "0\r\n"] ++
      ((mergedTrailer t.trailer c'.trailer).elim [] fun h =>
        (fieldLines [] h).flatMap linePieces) ++
      [crlf]) hfails
    generalize c'.out.writeAll _ = w at hw hbytes
    obtain ⟨ok, out⟩ := w
    dsimp only at hw hbytes
    subst hw
    refine ⟨rfl, hview, ?_⟩
    dsimp only
    rw [hbytes, hout, hpieces, endWire, if_pos hte, htr, htrailer, trailerWire]
    simp
  · intro ho
    obtain ⟨hsome, hview⟩ := hd.cut ho
    unfold writeBody
    rw [if_pos hte]
    generalize copyLoop (writeChunk t.isResponse) c.fuel none 0 c =
      r at hout hsome hview
    obtain ⟨⟨n, e⟩, c'⟩ := r
    cases e with
    | none => exact absurd rfl hsome
    | some e => exact ⟨by simp, hview, by rw [hpieces]; exact hout⟩

theorem writeBody_unbounded (hte : chunked t.transferEncoding = false)
    (hcl : t.contentLength = -1) (hb : c.body = some b)
    (hok : NoFail c.out.fails) (hsize : c.rd.size = 0xfff)
    (hsizes : ∀ k ∈ c.sizes, k < 2 ^ 63)
    (h : Pending c.rd.fin b c.rd.view data o) :
    ∃ ps, Written t c data o (writeBody t c) ps := by
  have hlen := h.length_le
  have hd := copyLoop_drains sends_write c.fuel none 0 c hb hok hsize hsizes h
    (.inl rfl) (by unfold Copy.fuel; omega)
  obtain ⟨ps, hflat, hps, hout⟩ := hd.pieces
  have hpieces : piecesWire t ps = ps.flatMap id := by
    rw [piecesWire, if_neg (by simp [hte]), List.flatMap_id]
  have hend : ∀ hdr, endWire t hdr = [] := fun hdr => if_neg (by simp [hte])
  have hrun : writeBody t c =
      ((copyLoop Out.write c.fuel none 0 c).1.2,
        (copyLoop Out.write c.fuel none 0 c).2) := by
    unfold writeBody
    rw [if_neg (by simp [hte]), if_pos hcl]
  rw [← hpieces] at hout
  refine ⟨ps, hflat, hps, ?_, ?_⟩
  · intro rest hdr ho
    obtain ⟨hnone, hview, _⟩ := hd.full rest hdr ho
    rw [hrun, hend, List.append_nil]
    exact ⟨hnone, hview, hout⟩
  · intro ho
    obtain ⟨hsome, hview⟩ := hd.cut ho
    rw [hrun]
    exact ⟨hsome, hview, hout⟩

theorem Pending.length_of_left {fin : Err} {v rest : Bytes}
    {hdr : Option Header} {k : Nat}
    (h : Pending fin b v data (some (rest, hdr))) (hk : Body.left b = some k) :
    data.length = k := by
  generalize ho : some (rest, hdr) = o at h
  cases h with
  | limited _ hle =>
    cases hk
    rw [List.length_take]
    omega
  | limitedCut _ => cases ho
  | chunked _ _ _ => cases hk
  | wire => cases hk

theorem writeBody_counted (hte : chunked t.transferEncoding = false)
    (hcl : 0 ≤ t.contentLength)
    (hleft : Body.left b = some t.contentLength.toNat) (hb : c.body = some b)
    (hok : NoFail c.out.fails) (hsize : c.rd.size = 0xfff)
    (hsizes : ∀ k ∈ c.sizes, k < 2 ^ 63)
    (h : Pending c.rd.fin b c.rd.view data o) :
    ∃ ps, Written t c data o (writeBody t c) ps := by
  have hlen := h.length_le
  have hd := copyLoop_drains sends_write c.fuel
    (some t.contentLength.toNat) 0 c hb hok hsize hsizes h
    (.inr hleft.symm) (by unfold Copy.fuel; omega)
  obtain ⟨ps, hflat, hps, hout⟩ := hd.pieces
  have hpieces : piecesWire t ps = ps.flatMap id := by
    rw [piecesWire, if_neg (by simp [hte]), List.flatMap_id]
  have hend : ∀ hdr, endWire t hdr = [] := fun hdr => if_neg (by simp [hte])
  have hcount := hd.count
  rw [← hpieces] at hout
  refine ⟨ps, hflat, hps, ?_, ?_⟩
  · intro rest hdr ho
    subst ho
    obtain ⟨hnone, hview, _, b', hb', heof, hclosed⟩ := hd.full rest hdr rfl
    rw [h.length_of_left hleft, Nat.zero_add] at hcount
    unfold writeBody
    rw [if_neg (by simp [hte]), if_neg (by omega), hend, List.append_nil]
    generalize copyLoop Out.write c.fuel (some t.contentLength.toNat) 0 c = r
      at hout hnone hview hb' hcount
    obtain ⟨⟨n, e⟩, c'⟩ := r
    dsimp only at hnone hview hout hb' hcount
    subst hnone hcount
    obtain ⟨c'', hrun, hrd, hout'⟩ :=
      copyLoop_sawEOF (fun _ o => (true, o)) t.contentLength.toNat hb' heof
        hclosed
    dsimp only
    rw [hrun]
    dsimp only
    rw [if_neg (by omega), hrd, hout']
    exact ⟨rfl, hview, hout⟩
  · intro ho
    obtain ⟨hsome, hview⟩ := hd.cut ho
    unfold writeBody
    rw [if_neg (by simp [hte]), if_neg (by omega)]
    generalize copyLoop Out.write c.fuel (some t.contentLength.toNat) 0 c =
      r at hout hsome hview
    obtain ⟨⟨n, e⟩, c'⟩ := r
    cases e with
    | none => exact absurd rfl hsome
    | some e => exact ⟨by simp, hview, hout⟩

/-- `writeBody` on a body it suits, with no write failing. -/
theorem writeBody_spec (hsuits : Suits t b) (htrailer : c.trailer = none)
    (hb : c.body = some b) (hok : NoFail c.out.fails)
    (hsize : c.rd.size = 0xfff) (hsizes : ∀ k ∈ c.sizes, k < 2 ^ 63)
    (h : Pending c.rd.fin b c.rd.view data o) :
    ∃ ps, Written t c data o (writeBody t c) ps := by
  cases hte : chunked t.transferEncoding with
  | true => exact writeBody_chunked hte htrailer hb hok hsize hsizes h
  | false =>
    rcases hsuits with hch | hcl | ⟨hcl, hleft⟩
    · rw [hte] at hch
      cases hch
    · exact writeBody_unbounded hte hcl hb hok hsize hsizes h
    · exact writeBody_counted hte hcl hleft hb hok hsize hsizes h

/-- Without a body the reader stays where it is, whatever is written. -/
theorem writeBody_noBody_rd (hb : c.body = none) :
    (writeBody t c).2.rd = c.rd := by
  unfold writeBody
  rw [copyLoop_noBody _ _ _ hb, copyLoop_noBody _ _ _ hb,
    copyLoop_noBody _ _ _ hb]
  split
  · dsimp only
    split <;> rfl
  · split
    · rfl
    · dsimp only
      rw [copyLoop_noBody _ _ _ hb]
      dsimp only
      split <;> rfl

/-- Nor is anything written, unless it is chunked. -/
theorem writeBody_noBody_out (hb : c.body = none)
    (hte : chunked t.transferEncoding = false) :
    (writeBody t c).2.out = c.out := by
  unfold writeBody
  rw [if_neg (by simp [hte]), copyLoop_noBody _ _ _ hb,
    copyLoop_noBody _ _ _ hb]
  split
  · rfl
  · dsimp only
    rw [copyLoop_noBody _ _ _ hb]
    dsimp only
    split <;> rfl

/-- A chunked message without a body still gets the end of one. -/
theorem writeBody_noBody_chunked (hb : c.body = none)
    (htrailer : c.trailer = none) (hte : chunked t.transferEncoding = true)
    (hok : NoFail c.out.fails) :
    (writeBody t c).2.out.bytes = c.out.bytes ++
      (lit "0\r\n" ++ trailerWire (mergedTrailer t.trailer none) ++ crlf) := by
  unfold writeBody
  rw [if_pos hte, copyLoop_noBody _ _ _ hb]
  dsimp only
  rw [htrailer]
  obtain ⟨hw, hbytes, _⟩ := writeAll_ok (o := c.out) ([lit "0\r\n"] ++
    ((mergedTrailer t.trailer none).elim [] fun h =>
      (fieldLines [] h).flatMap linePieces) ++
    [crlf]) hok
  generalize c.out.writeAll _ = w at hw hbytes
  obtain ⟨ok, out⟩ := w
  dsimp only at hw hbytes
  subst hw
  dsimp only
  rw [hbytes, trailerWire]
  simp

/-- What is written for a message without a body. -/
theorem writeBody_noBody_bytes (hb : c.body = none)
    (htrailer : c.trailer = none) (hok : NoFail c.out.fails) :
    (writeBody t c).2.out.bytes = c.out.bytes ++ endWire t none := by
  unfold endWire
  cases hte : chunked t.transferEncoding with
  | true =>
    rw [writeBody_noBody_chunked hb htrailer hte hok]
    rfl
  | false =>
    rw [writeBody_noBody_out hb hte]
    exact (List.append_nil _).symm

end WriteBody

/-! ## Whole messages -/

/-- A copy whose head has been written. -/
def Copy.afterHead (pieces : List Bytes) (c : Copy Tee) : Copy Tee :=
  { c with out := (c.out.writeAll pieces).2 }

theorem afterHead_bytes {c : Copy Tee} (pieces : List Bytes)
    (h : NoFail c.out.fails) :
    (Copy.afterHead pieces c).out.bytes = c.out.bytes ++ pieces.flatten :=
  (writeAll_ok pieces h).2.1

theorem requestWrite_eq (idna : Bytes → Option Bytes) (r : Request)
    {c : Copy Tee} (h : NoFail c.out.fails) :
    r.write idna c = writeBody (newRequestWriter r)
      (Copy.afterHead (r.headPieces idna) c) := by
  have hok := (writeAll_ok (r.headPieces idna) h).1
  unfold Request.write Copy.afterHead
  cases hw : c.out.writeAll (r.headPieces idna) with
  | mk ok out =>
    rw [hw] at hok
    dsimp only at hok
    subst hok
    rfl

theorem responseWrite_eq (r : Response) {c : Copy Tee}
    (h : NoFail c.out.fails) :
    r.write c = writeBody (newResponseWriter r.toWrite)
      (Copy.afterHead r.headPieces c) := by
  have hok := (writeAll_ok r.headPieces h).1
  unfold Response.write Copy.afterHead
  cases hw : c.out.writeAll r.headPieces with
  | mk ok out =>
    rw [hw] at hok
    dsimp only at hok
    subst hok
    rfl

/-- A message without a body is written without reading. -/
theorem requestWrite_noBody_rd (idna : Bytes → Option Bytes) (r : Request)
    {c : Copy Tee} (hb : c.body = none) : (r.write idna c).2.rd = c.rd := by
  unfold Request.write
  split
  · rfl
  · next out _ => exact writeBody_noBody_rd (c := { c with out := out }) hb

theorem responseWrite_noBody_rd (r : Response) {c : Copy Tee}
    (hb : c.body = none) :
    (r.write c).2.rd = c.rd := by
  unfold Response.write
  split
  · rfl
  · next out _ => exact writeBody_noBody_rd (c := { c with out := out }) hb

/-- A copy that is ready to start on the body `b`, of which `data` is to
come. -/
structure Ready (c : Copy Tee) (b : Body) (data : Bytes)
    (o : Option (Bytes × Option Header)) :
    Prop where
  body : c.body = some b
  trailer : c.trailer = none
  noFail : NoFail c.out.fails
  size : c.rd.size = 0xfff
  sizes : ∀ k ∈ c.sizes, k < 2 ^ 63
  holds : Pending c.rd.fin b c.rd.view data o

theorem Ready.afterHead {c : Copy Tee} {b : Body} {data : Bytes}
    {o : Option (Bytes × Option Header)} (h : Ready c b data o)
    (pieces : List Bytes) :
    Ready (Copy.afterHead pieces c) b data o :=
  ⟨h.body, h.trailer, (writeAll_ok pieces h.noFail).2.2, h.size, h.sizes,
    h.holds⟩

theorem Ready.writeBody {t : TransferWriter} {c : Copy Tee} {b : Body}
    {data : Bytes} {o : Option (Bytes × Option Header)} (h : Ready c b data o)
    (hsuits : Suits t b) :
    ∃ ps, Written t c data o (writeBody t c) ps :=
  writeBody_spec hsuits h.trailer h.body h.noFail h.size h.sizes h.holds

theorem Written.view {t : TransferWriter} {c : Copy Tee} {data : Bytes}
    {o : Option (Bytes × Option Header)} {r : Option Err × Copy Tee}
    {ps : List Bytes} (h : Written t c data o r ps) :
    r.2.rd.view = (o.map Prod.fst).getD [] := by
  cases o with
  | none => exact (h.cut rfl).2.1
  | some p => exact (h.full p.1 p.2 rfl).2.1

end Netramesh.Proofs
