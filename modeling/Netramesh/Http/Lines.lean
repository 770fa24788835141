import Netramesh.Http.Textproto
import Netramesh.Lib.Text

/-!
# Reading back lines

What `textproto` makes of text that was written with `\r\n` behind every line: a
line of any length comes back as it is, and a header section comes back field
by field. A line may hold anything but a line feed; a field's name must not be
empty, hold a colon or begin with a blank.
-/

namespace Netramesh.Http

open Net Lib Parser

variable {ρ : Type} [Source Err ρ]

/-! ## One line -/

theorem nl_not_mem_cr {l : Bytes} (h : nl ∉ l) : nl ∉ l ++ [cr] := by
  rw [List.mem_append, List.mem_singleton]
  rintro (hl | hc)
  · exact h hl
  · cases hc

theorem dropEOL_crlf (l : Bytes) : Reader.dropEOL (l ++ crlf) = l := by
  have h : (l ++ crlf).dropLast = l ++ [cr] := by
    rw [show l ++ crlf = (l ++ [cr]) ++ [nl] by simp, List.dropLast_concat]
  unfold Reader.dropEOL
  rw [h, if_pos (by simp), List.dropLast_concat]

/-- A line that fits into the buffer is read at once. -/
theorem lineOf_short {n : Nat} {fin : Err} {l rest : Bytes} (hnl : nl ∉ l)
    (hn : l.length + 2 ≤ n) :
    lineOf n fin (l ++ crlf ++ rest) = .ok (l, false) ∧
      lineBytes n fin (l ++ crlf ++ rest) = l ++ crlf := by
  have htake : (l ++ crlf ++ rest).take n =
      (l ++ [cr]) ++ nl :: rest.take (n - (l.length + 2)) := by
    rw [show l ++ crlf ++ rest = (l ++ [cr, nl]) ++ rest by simp,
      List.take_append, List.take_of_length_le (by simp; omega)]
    simp
  have hslice : sliceOf nl n fin (l ++ crlf ++ rest) = .line (l ++ crlf) := by
    rw [sliceOf, htake, cutByte_append (nl_not_mem_cr hnl)]
    simp
  rw [lineOf, lineBytes, hslice]
  exact ⟨by dsimp only; rw [dropEOL_crlf], rfl⟩

/-- A longer one comes in parts. -/
theorem lineOf_long {n : Nat} {fin : Err} {l rest : Bytes} (hnl : nl ∉ l)
    (hn : n < l.length + 2) (hsize : 16 ≤ n) :
    ∃ a b, l = a ++ b ∧ a ≠ [] ∧ lineOf n fin (l ++ crlf ++ rest) =
      .ok (a, true) ∧ lineBytes n fin (l ++ crlf ++ rest) = a := by
  have htake : (l ++ crlf ++ rest).take n = (l ++ [cr]).take n := by
    rw [show l ++ crlf ++ rest = (l ++ [cr]) ++ (nl :: rest) by simp,
      List.take_append_of_le_length (by simp; omega)]
  have hnone : cutByte nl ((l ++ [cr]).take n) = none := by
    rw [cutByte_eq_none]
    exact fun h => nl_not_mem_cr hnl (List.mem_of_mem_take h)
  have hslice : sliceOf nl n fin (l ++ crlf ++ rest) =
      .full ((l ++ [cr]).take n) := by
    rw [sliceOf, htake, hnone]
    dsimp only
    rw [if_pos (by simp; omega)]
  rw [lineOf, lineBytes, hslice]
  dsimp only
  -- the part: the buffer, without a carriage return at its end
  have hlen : ((l ++ [cr]).take n).length = n := by
    rw [List.length_take, List.length_append, List.length_singleton]
    omega
  split
  · next hlast =>
      refine ⟨((l ++ [cr]).take n).dropLast, l.drop (n - 1), ?_, ?_, rfl, rfl⟩
      · rw [List.dropLast_eq_take, hlen, List.take_take,
          Nat.min_eq_left (by omega),
          List.take_append_of_le_length (by omega), List.take_append_drop]
      · intro h
        have := congrArg List.length h
        rw [List.length_dropLast, hlen, List.length_nil] at this
        omega
  · next hlast =>
      have hle : n ≤ l.length := by
        by_contra hgt
        refine hlast ?_
        rw [List.take_of_length_le (by simp; omega)]
        simp
      refine ⟨(l ++ [cr]).take n, l.drop n, ?_, ?_, rfl, rfl⟩
      · rw [List.take_append_of_le_length hle, List.take_append_drop]
      · intro h
        rw [h] at hlen
        simp at hlen
        omega

theorem gives_readLine {n : Nat} {v : Bytes} {a : Bytes × Bool} (taken : Bytes)
    (hline : ∀ fin : Err, lineOf n fin v = .ok a ∧ lineBytes n fin v = taken) :
    ∀ rd : Reader ρ, rd.size = n → rd.view = v →
      ∃ rd', (readLine : Parser ρ Err _) rd = (.ok a, rd') ∧
        Reads rd taken rd' := by
  intro rd hn hv
  obtain ⟨h1, h2⟩ := readLine_spec rd
  rw [hn, hv, (hline rd.fin).1] at h1
  rw [hn, hv, (hline rd.fin).2] at h2
  exact ⟨_, Prod.ext h1 rfl, h2⟩

theorem gives_readLineParts {n : Nat} (rest : Bytes) (hsize : 16 ≤ n)
    (fuel : Nat) (l acc : Bytes) (hnl : nl ∉ l) (hfuel : l.length < fuel) :
    Gives n (readLineParts fuel acc : Parser ρ Err Bytes) (l ++ crlf ++ rest)
      (acc ++ l) rest := by
  induction fuel generalizing l acc with
  | zero => omega
  | succ fuel ih =>
    intro rd hn hv
    rw [readLineParts]
    by_cases hshort : l.length + 2 ≤ n
    · obtain ⟨rd', hrun, hreads⟩ :=
        gives_readLine (ρ := ρ) (n := n) (v := l ++ crlf ++ rest)
        (l ++ crlf) (fun fin => lineOf_short hnl hshort) rd hn hv
      refine ⟨rd', ?_, hreads.size.trans hn, ?_⟩
      · rw [bind_ok hrun]
        rfl
      · have := hreads.view
        rw [hv] at this
        exact (List.append_cancel_left this).symm
    · obtain ⟨a, b, rfl, ha, hline, hbytes⟩ :
          ∃ a b, l = a ++ b ∧ a ≠ [] ∧ lineOf n rd.fin (l ++ crlf ++ rest) =
            .ok (a, true) ∧ lineBytes n rd.fin (l ++ crlf ++ rest) = a :=
              lineOf_long hnl (by omega) hsize
      obtain ⟨h1, h2⟩ := readLine_spec rd
      rw [hn, hv, hline] at h1
      rw [hn, hv, hbytes] at h2
      have hrun : (readLine : Parser ρ Err _) rd =
        (.ok (a, true), rd.readLine.2) := Prod.ext h1 rfl
      have hview : rd.readLine.2.view = b ++ crlf ++ rest := by
        have := h2.view
        rw [hv] at this
        simp only [List.append_assoc] at this
        simpa using (List.append_cancel_left this).symm
      have hpos := List.length_pos_of_ne_nil ha
      rw [List.length_append] at hfuel
      obtain ⟨rd', hrun', hn', hv'⟩ :=
        ih b (acc ++ a) (fun h => hnl (List.mem_append_right _ h))
        (by omega) rd.readLine.2 (h2.size.trans hn) hview
      refine ⟨rd', ?_, hn', hv'⟩
      rw [bind_ok hrun]
      dsimp only
      rw [if_pos rfl, hrun', List.append_assoc]

/-- A line comes back as it was written. -/
theorem gives_readLineSlice {n : Nat} {l rest : Bytes} (hsize : 16 ≤ n)
    (hnl : nl ∉ l) :
    Gives n (readLineSlice : Parser ρ Err Bytes)
      (l ++ crlf ++ rest) l rest := by
  refine Gives.measured ?_
  have := gives_readLineParts (ρ := ρ) rest hsize
    ((l ++ crlf ++ rest).length + 1) l [] hnl
    (by rw [List.length_append, List.length_append]; omega)
  simpa using this

/-- So does a line that is not continued. -/
theorem gives_readContinuedLineSlice {n : Nat} {l rest : Bytes} {c : UInt8}
    (hsize : 16 ≤ n) (hnl : nl ∉ l) (hne : l ≠ []) (hc : isOWS c = false) :
    Gives n (readContinuedLineSlice : Parser ρ Err Bytes)
      (l ++ crlf ++ c :: rest) (trimOWS l)
      (c :: rest) := by
  intro rd hn hv
  obtain ⟨rd₁, hrun, hn₁, hv₁⟩ :=
    gives_readLineSlice (ρ := ρ) hsize hnl rd hn hv
  rw [readContinuedLineSlice, bind_ok hrun, if_neg hne]
  cases hs : decide (1 < rd₁.buffered) && rd₁.buf.head?.any isASCIILetter with
  | true =>
    have hl : (letterBuffered : Parser ρ Err Bool) rd₁ = (.ok true, rd₁) := by
      rw [letterBuffered, hs]
    rw [bind_ok hl]
    exact ⟨rd₁, rfl, hn₁, hv₁⟩
  | false =>
    have hl : (letterBuffered : Parser ρ Err Bool) rd₁ = (.ok false, rd₁) := by
      rw [letterBuffered, hs]
    obtain ⟨rd₂, hrun₂, hreads₂⟩ := skipSpace_stays hv₁ hc
    refine ⟨rd₂, ?_, hreads₂.size.trans hn₁, hreads₂.sim.view.symm.trans hv₁⟩
    rw [bind_ok hl, if_neg (by simp), measured_run, readContinuation,
      bind_ok hrun₂]
    rfl

/-- An empty line has no continuation. -/
theorem gives_emptyLine {n : Nat} {rest : Bytes} (hsize : 16 ≤ n) :
    Gives n (readContinuedLineSlice : Parser ρ Err Bytes) (crlf ++ rest)
      [] rest := by
  intro rd hn hv
  obtain ⟨rd₁, hrun, hn₁, hv₁⟩ :=
    gives_readLineSlice (ρ := ρ) (l := []) hsize (by simp) rd hn hv
  exact ⟨rd₁, by rw [readContinuedLineSlice, bind_ok hrun]; rfl, hn₁, hv₁⟩

/-! ## Header sections -/

/-- A name a field line can be written with. -/
structure FieldKey (k : Bytes) : Prop where
  ne_nil : k ≠ []
  head : ∀ b ∈ k.head?, isOWS b = false
  colon : 58 ∉ k
  nl : nl ∉ k

/-- A field line, and a list of them, as written. -/
def lineWire (f : Bytes × Bytes) : Bytes := f.1 ++ lit ": " ++ f.2 ++ crlf

def linesWire (fs : List (Bytes × Bytes)) : Bytes := fs.flatMap lineWire

/-- What a value that was written after a blank is read as. -/
def fieldValue (v : Bytes) : Bytes :=
  ((sp :: v).rdropWhile isOWS).dropWhile isOWS

/-- What a field line adds to a header. -/
def addLine (m : Header) (f : Bytes × Bytes) : Header :=
  m.put (canonicalKey f.1) (m.values (canonicalKey f.1) ++ [fieldValue f.2])

theorem fieldValue_of_trimmed {v : Bytes} (h : Trimmed isOWS v) :
    fieldValue v = v := by
  unfold fieldValue
  cases v with
  | nil => rfl
  | cons b v =>
    rw [rdropWhile_of_last (by rw [List.getLast?_cons_cons]; exact h.last),
      List.dropWhile_cons, if_pos (by decide), dropWhile_of_head h.head]

theorem canonicalKey_ne_nil {k : Bytes} (h : k ≠ []) : canonicalKey k ≠ [] := by
  unfold canonicalKey
  split
  · cases k with
    | nil => exact absurd rfl h
    | cons c s => simp [capitalize]
  · exact h

theorem trimOWS_line {k v : Bytes} (hk : FieldKey k) :
    trimOWS (k ++ lit ": " ++ v) = k ++ 58 :: (sp :: v).rdropWhile isOWS := by
  have hhead : ∀ b ∈ (k ++ lit ": " ++ v).head?, isOWS b = false := by
    obtain ⟨c, s, rfl⟩ := List.exists_cons_of_ne_nil hk.ne_nil
    exact fun b hb => hk.head b hb
  rw [trimOWS, trimBy, dropWhile_of_head hhead,
    show k ++ lit ": " ++ v = (k ++ [58]) ++ (sp :: v) by
    simp [lit]]
  -- the colon stops the trimming from the right
  generalize (sp :: v) = w
  induction w using List.reverseRecOn with
  | nil =>
    rw [List.append_nil, List.rdropWhile_concat_neg _ _ _ (by decide)]
    simp
  | append_singleton w b ih =>
    rw [← List.append_assoc, List.rdropWhile_concat, List.rdropWhile_concat]
    split
    · exact ih
    · simp

/-- A field line is understood as it was meant. -/
theorem addField_line {k v : Bytes} (m : Header) (hk : FieldKey k) :
    addField m (trimOWS (k ++ lit ": " ++ v)) = .ok (addLine m (k, v)) := by
  rw [trimOWS_line hk, addField, cutByte_append hk.colon]
  dsimp only
  rw [if_neg (canonicalKey_ne_nil hk.ne_nil)]
  rfl

theorem trimOWS_line_ne_nil {k v : Bytes} (hk : FieldKey k) :
    trimOWS (k ++ lit ": " ++ v) ≠ [] := by
  rw [trimOWS_line hk]
  simp

/-- The byte after a field line is no blank. -/
theorem linesWire_head {fs : List (Bytes × Bytes)} (rest : Bytes)
    (h : ∀ f ∈ fs, FieldKey f.1) :
    ∃ c w, linesWire fs ++ crlf ++ rest = c :: w ∧ isOWS c = false := by
  cases fs with
  | nil => exact ⟨cr, nl :: rest, rfl, by decide⟩
  | cons f fs =>
    have hk := h f List.mem_cons_self
    obtain ⟨c, s, hcs⟩ := List.exists_cons_of_ne_nil hk.ne_nil
    refine ⟨c, s ++ (lit ": " ++ f.2 ++ crlf) ++ linesWire fs ++ crlf ++ rest,
      ?_, ?_⟩
    · rw [linesWire, List.flatMap_cons, lineWire, hcs]
      simp [linesWire]
    · exact hk.head c (by rw [hcs]; rfl)

theorem gives_readFields {n : Nat} {rest : Bytes} (hsize : 16 ≤ n) (fuel : Nat)
    (fs : List (Bytes × Bytes)) (m : Header)
    (hfs : ∀ f ∈ fs, FieldKey f.1 ∧ nl ∉ f.2) (hfuel : fs.length < fuel) :
    Gives n (readFields fuel m : Parser ρ Err Header)
      (linesWire fs ++ crlf ++ rest)
      (fs.foldl addLine m) rest := by
  induction fuel generalizing fs m with
  | zero => omega
  | succ fuel ih =>
    intro rd hn hv
    rw [readFields]
    cases fs with
    | nil =>
      obtain ⟨rd', hrun, hn', hv'⟩ := gives_emptyLine (ρ := ρ) hsize rd hn hv
      exact ⟨rd', by rw [bind_ok hrun]; rfl, hn', hv'⟩
    | cons f fs =>
      obtain ⟨hk, hval⟩ := hfs f List.mem_cons_self
      obtain ⟨c, w, hw, hc⟩ := linesWire_head rest
        fun g hg => (hfs g (List.mem_cons_of_mem _ hg)).1
      have hline : nl ∉ f.1 ++ lit ": " ++ f.2 := by
        simp only [List.mem_append, not_or]
        exact ⟨⟨hk.nl, by decide⟩, hval⟩
      have hne : f.1 ++ lit ": " ++ f.2 ≠ [] := by simp [hk.ne_nil]
      have hview : rd.view = (f.1 ++ lit ": " ++ f.2) ++ crlf ++ c :: w := by
        rw [hv, ← hw, linesWire, List.flatMap_cons, lineWire]
        simp [linesWire]
      obtain ⟨rd₁, hrun, hn₁, hv₁⟩ :=
        gives_readContinuedLineSlice (ρ := ρ) hsize hline hne hc rd hn hview
      obtain ⟨rd₂, hrun₂, hn₂, hv₂⟩ := ih fs (addLine m f)
        (fun g hg => hfs g (List.mem_cons_of_mem _ hg))
          (by rw [List.length_cons] at hfuel; omega)
        rd₁ hn₁ (by rw [hv₁, hw])
      refine ⟨rd₂, ?_, hn₂, hv₂⟩
      rw [bind_ok hrun, if_neg (trimOWS_line_ne_nil hk), addField_line m hk]
      exact hrun₂

theorem length_le_linesWire (fs : List (Bytes × Bytes)) :
    fs.length ≤ (linesWire fs).length := by
  induction fs with
  | nil => exact Nat.zero_le _
  | cons f fs ih =>
    rw [linesWire, List.flatMap_cons, List.length_append, List.length_cons]
    have : 1 ≤ (lineWire f).length := by simp [lineWire]; omega
    rw [linesWire] at ih
    omega

/-- A header section comes back field by field. -/
theorem gives_readMIMEHeader {n : Nat} {fs : List (Bytes × Bytes)}
    {rest : Bytes} (hsize : 16 ≤ n) (hfs : ∀ f ∈ fs, FieldKey f.1 ∧ nl ∉ f.2) :
    Gives n (readMIMEHeader : Parser ρ Err Header)
      (linesWire fs ++ crlf ++ rest)
      (fs.foldl addLine Header.empty) rest := by
  obtain ⟨c, w, hw, hc⟩ := linesWire_head rest fun f hf => (hfs f hf).1
  refine Gives.bind (gives_peek n 1 _) ?_
  have hpeek : ((linesWire fs ++ crlf ++ rest).take (min 1 n)).head?.any isOWS =
      false := by
    rw [hw, Nat.min_eq_left (by omega)]
    simp [hc]
  rw [hpeek, if_neg (by simp)]
  refine Gives.measured ?_
  refine gives_readFields hsize _ fs _ hfs ?_
  have := length_le_linesWire fs
  simp only [List.length_append]
  omega

end Netramesh.Http
