import Netramesh.Lib.Bytes

/-!
# Buffered reading

A `Source` delivers bytes in pieces whose sizes nobody controls; a `Reader`
keeps a buffer of bounded size in front of one. What a parser may rely on is
not the buffer but the *view*: the bytes buffered and the bytes still to come,
in one piece. Two facts carry everything built on top. Reading conserves bytes:
what an operation takes off the front of the view is what it consumed, and the
bytes it pulled from the source are accounted for (`Reads`). And apart from
`buffered`, no operation can tell two readers with the same view apart
(`Sim`), so a parser's answer does not depend on how the stream was cut.
-/

namespace Netramesh.Lib

/-- A source of bytes. `read n` asks for at most `n` bytes and answers `none` at
the end; `rest` is everything still to come and `fin` the error that ends it.
`Pulls s p t` says that reading `p` took the source from `s` to `t`. -/
class Source (ε : outParam Type) (ρ : Type) where
  read : (n : Nat) → ρ → Option ({ p : Bytes // p.length ≤ n } × ρ)
  rest : ρ → Bytes
  fin : ρ → ε
  Pulls : ρ → Bytes → ρ → Prop
  pulls_nil : ∀ s, Pulls s [] s
  pulls_trans : ∀ {s t u p q}, Pulls s p t → Pulls t q u → Pulls s (p ++ q) u
  pulls_rest : ∀ {s t p}, Pulls s p t → rest s = p ++ rest t
  pulls_fin : ∀ {s t p}, Pulls s p t → fin t = fin s
  read_none : ∀ {s n}, 0 < n → (read n s = none ↔ rest s = [])
  read_some : ∀ {s n p t}, 0 < n → read n s = some (p, t) →
    p.1 ≠ [] ∧ Pulls s p.1 t

/-- `bufio.Reader`: at most `size` bytes of `src`, read ahead. -/
structure Reader (ρ : Type) where
  size : Nat
  buf : Bytes
  src : ρ
  size_ge : 16 ≤ size
  fits : buf.length ≤ size

variable {ε ρ : Type} [Source ε ρ]

namespace Reader

/-- A reader with nothing read yet. -/
def fresh (size : Nat) (h : 16 ≤ size) (src : ρ) : Reader ρ :=
  ⟨size, [], src, h, Nat.zero_le _⟩

/-- Everything a parser will get to see. -/
def view (rd : Reader ρ) : Bytes := rd.buf ++ Source.rest rd.src

/-- How the stream ends. -/
def fin (rd : Reader ρ) : ε := Source.fin rd.src

/-- `Reader.Buffered`. -/
def buffered (rd : Reader ρ) : Nat := rd.buf.length

/-- Drop `n` buffered bytes. -/
def skip (n : Nat) (rd : Reader ρ) : Reader ρ :=
  { rd with
    buf := rd.buf.drop n
    fits :=
      (List.length_drop ▸ Nat.sub_le _ _ : (rd.buf.drop n).length ≤ _).trans
      rd.fits }

/-- `fill`: one read into the free part of the buffer. -/
def fill (rd : Reader ρ) : Option (Reader ρ) :=
  match Source.read (rd.size - rd.buf.length) rd.src with
  | none => none
  | some (p, src) =>
    some { rd with
      buf := rd.buf ++ p.1
      src := src
      fits := by
        have := p.2
        have := rd.fits
        rw [List.length_append]
        omega }

/-- Fill until the buffer satisfies `stop`, is full, or the source has ended. -/
def fillUntil (stop : Bytes → Bool) : Nat → Reader ρ → Reader ρ
  | 0, rd => rd
  | fuel + 1, rd =>
    if stop rd.buf || decide (rd.size ≤ rd.buf.length) then rd
    else
      match rd.fill with
      | none => rd
      | some rd' => fillUntil stop fuel rd'

/-- `fillUntil` with enough fuel: every round adds at least a byte. -/
def await (stop : Bytes → Bool) (rd : Reader ρ) : Reader ρ :=
  fillUntil stop (rd.size + 1) rd

/-- The answers of `ReadSlice`: a line with its delimiter, a full buffer without
one, or what was left when the source ended. -/
inductive Slice (ε : Type)
  | line (l : Bytes)
  | full (l : Bytes)
  | ended (l : Bytes) (e : ε)

def Slice.bytes : Slice ε → Bytes
  | .line l | .full l | .ended l _ => l

/-- `Reader.ReadSlice`. -/
def readSlice (delim : UInt8) (rd : Reader ρ) : Slice ε × Reader ρ :=
  let rd := rd.await (·.elem delim)
  match cutByte delim rd.buf with
  | some (l, _) => (.line (l ++ [delim]), rd.skip (l.length + 1))
  | none =>
    (if rd.size ≤ rd.buf.length then .full rd.buf else .ended rd.buf rd.fin,
      rd.skip rd.buf.length)

/-- `UnreadByte` after a read that took `c` from the buffer. -/
def unread (c : UInt8) (rd : Reader ρ) : Reader ρ :=
  if h : rd.buf.length < rd.size then
    { rd with buf := c :: rd.buf, fits := by rw [List.length_cons]; omega }
  else rd

/-- A line without its end, `\n` or `\r\n`. -/
def dropEOL (l : Bytes) : Bytes :=
  let l := l.dropLast
  if l.getLast? = some cr then l.dropLast else l

/-- `Reader.ReadLine`: a line, or a part of one when the buffer is full, with
`true` for a part. A carriage return that ends a part goes back into the
buffer, where the next call may find the line feed behind it. -/
def readLine (rd : Reader ρ) : Except ε (Bytes × Bool) × Reader ρ :=
  match rd.readSlice nl with
  | (.line l, rd') => (.ok (dropEOL l, false), rd')
  | (.full l, rd') =>
    if l.getLast? = some cr then (.ok (l.dropLast, true), rd'.unread cr)
    else (.ok (l, true), rd')
  | (.ended l e, rd') => if l = [] then (.error e, rd')
      else (.ok (l, false), rd')

/-- `Reader.Peek`: up to `n` bytes; fewer if the buffer or the stream ends. -/
def peek (n : Nat) (rd : Reader ρ) : Bytes × Reader ρ :=
  let rd := rd.await (fun b => decide (n ≤ b.length))
  (rd.buf.take n, rd)

/-- `Reader.Read` into `n > 0` bytes; `none` is the error that ends the stream.
An empty buffer is bypassed when the caller's is at least as large. -/
def read (n : Nat) (rd : Reader ρ) : Option Bytes × Reader ρ :=
  if rd.buf = [] then
    if rd.size ≤ n then
      match Source.read n rd.src with
      | none => (none, rd)
      | some (p, src) => (some p.1, { rd with src := src })
    else
      match rd.fill with
      | none => (none, rd)
      | some rd' => (some (rd'.buf.take n), rd'.skip n)
  else (some (rd.buf.take n), rd.skip n)

/-- `ReadByte`, taken back with `UnreadByte` unless the byte satisfies `p`:
whether a byte was consumed. -/
def acceptByte (p : UInt8 → Bool) (rd : Reader ρ) : Bool × Reader ρ :=
  let rd := rd.await (fun b => !b.isEmpty)
  match rd.buf with
  | c :: _ => if p c then (true, rd.skip 1) else (false, rd)
  | [] => (false, rd)

end Reader

open Reader

/-! ## Conservation -/

/-- Going from `rd` to `rd'` consumed `c`: the source gave `p`, and what was
buffered before followed by `p` is `c` followed by what is buffered now. -/
structure Reads (rd : Reader ρ) (c : Bytes) (rd' : Reader ρ) : Prop where
  size : rd'.size = rd.size
  pulled : ∃ p, Source.Pulls rd.src p rd'.src ∧ rd.buf ++ p = c ++ rd'.buf

theorem Reads.refl (rd : Reader ρ) : Reads rd [] rd :=
  ⟨rfl, [], Source.pulls_nil _, by simp⟩

theorem Reads.trans {a b d : Reader ρ} {c c' : Bytes} (h : Reads a c b)
    (h' : Reads b c' d) :
    Reads a (c ++ c') d := by
  obtain ⟨hs, p, hp, hb⟩ := h
  obtain ⟨hs', p', hp', hb'⟩ := h'
  refine ⟨hs'.trans hs, p ++ p', Source.pulls_trans hp hp', ?_⟩
  rw [← List.append_assoc, hb, List.append_assoc, hb', List.append_assoc]

theorem Reads.view {a b : Reader ρ} {c : Bytes} (h : Reads a c b) :
    a.view = c ++ b.view := by
  obtain ⟨_, p, hp, hb⟩ := h
  unfold Reader.view
  rw [Source.pulls_rest hp, ← List.append_assoc, hb, List.append_assoc]

/-- Reading all of the view leaves none of it. -/
theorem Reads.all {a b : Reader ρ} (h : Reads a a.view b) : b.view = [] := by
  have hv := h.view
  rw [List.self_eq_append_right] at hv
  exact hv

theorem Reads.fin {a b : Reader ρ} {c : Bytes} (h : Reads a c b) :
    b.fin = a.fin := by
  obtain ⟨_, p, hp, _⟩ := h
  exact Source.pulls_fin hp

theorem reads_skip (rd : Reader ρ) (n : Nat) :
    Reads rd (rd.buf.take n) (rd.skip n) :=
  ⟨rfl, [], Source.pulls_nil _, by simp [skip]⟩

theorem reads_fill {rd rd' : Reader ρ} (hroom : rd.buf.length < rd.size)
    (h : rd.fill = some rd') :
    Reads rd [] rd' ∧ rd.buf.length < rd'.buf.length ∧ rd.buf <+: rd'.buf := by
  unfold fill at h
  split at h
  · cases h
  · next p src hread =>
      cases h
      obtain ⟨hne, hpull⟩ := Source.read_some (by omega) hread
      refine ⟨⟨rfl, p.1, hpull, rfl⟩, ?_, List.prefix_append _ _⟩
      have := List.length_pos_of_ne_nil hne
      simp only [List.length_append]
      omega

theorem fill_eq_none {rd : Reader ρ} (hroom : rd.buf.length < rd.size) :
    rd.fill = none ↔ Source.rest rd.src = [] := by
  have hiff := Source.read_none (s := rd.src) (n :=
    rd.size - rd.buf.length) (by omega)
  unfold fill
  constructor
  · intro h
    split at h
    · next hnone => exact hiff.mp hnone
    · cases h
  · intro h
    rw [hiff.mpr h]

/-- What `await` leaves: the same view, and a buffer that satisfies `stop`, is
full, or holds all there is. -/
theorem reads_await (stop : Bytes → Bool) (rd : Reader ρ) :
    Reads rd [] (rd.await stop) ∧
      (stop (rd.await stop).buf = true ∨ (rd.await stop).buf.length =
        (rd.await stop).size ∨ Source.rest (rd.await stop).src = []) := by
  suffices h : ∀ fuel (rd : Reader ρ), rd.size - rd.buf.length < fuel →
      Reads rd [] (fillUntil stop fuel rd) ∧
        (stop (fillUntil stop fuel rd).buf = true ∨
          (fillUntil stop fuel rd).buf.length = (fillUntil stop fuel rd).size ∨
          Source.rest (fillUntil stop fuel rd).src = []) from
    h _ rd (by omega)
  intro fuel
  induction fuel with
  | zero => intro rd h; omega
  | succ fuel ih =>
      intro rd hfuel
      rw [fillUntil]
      split
      · next hstop =>
          refine ⟨Reads.refl rd, ?_⟩
          rw [Bool.or_eq_true, decide_eq_true_eq] at hstop
          rcases hstop with hstop | hfull
          · exact .inl hstop
          · exact .inr (.inl (Nat.le_antisymm rd.fits hfull))
      · next hstop =>
          have hroom : rd.buf.length < rd.size := by
            simp only [Bool.or_eq_true, decide_eq_true_eq, not_or] at hstop
            omega
          split
          · next hnone => exact ⟨Reads.refl rd,
                .inr (.inr ((fill_eq_none hroom).mp hnone))⟩
          · next rd' hfill =>
              obtain ⟨hreads, hlt, _⟩ := reads_fill hroom hfill
              have hsize := hreads.size
              obtain ⟨h1, h2⟩ := ih rd' (by omega)
              exact ⟨hreads.trans h1, h2⟩

/-! ## What the operations see -/

/-- `ReadSlice` as a function of the view. -/
def sliceOf (delim : UInt8) (size : Nat) (fin : ε) (view : Bytes) : Slice ε :=
  match cutByte delim (view.take size) with
  | some (l, _) => .line (l ++ [delim])
  | none => if size ≤ view.length then .full (view.take size)
      else .ended view fin

theorem take_view_of_full {rd : Reader ρ} (h : rd.buf.length = rd.size) :
    rd.view.take rd.size = rd.buf := by
  rw [view, ← h, List.take_left]

theorem view_of_end {rd : Reader ρ} (h : Source.rest rd.src = []) :
    rd.view = rd.buf := by
  rw [view, h, List.append_nil]

/-- The first delimiter of a prefix is that of the whole. -/
theorem cutByte_of_prefix {delim : UInt8} {b v l r : Bytes} (hpre : b <+: v)
    (h : cutByte delim b = some (l, r)) :
    ∃ r', cutByte delim v = some (l, r') := by
  obtain ⟨t, rfl⟩ := hpre
  obtain ⟨rfl, hnot⟩ := cutByte_eq_some.mp h
  exact ⟨r ++
    t, by rw [List.append_assoc, List.cons_append, cutByte_append hnot]⟩

theorem buf_prefix_take (rd : Reader ρ) : rd.buf <+: rd.view.take rd.size :=
  List.prefix_take_iff.mpr ⟨List.prefix_append _ _, rd.fits⟩

theorem readSlice_spec (delim : UInt8) (rd : Reader ρ) :
    (readSlice delim rd).1 = sliceOf delim rd.size rd.fin rd.view ∧
      Reads rd (readSlice delim rd).1.bytes (readSlice delim rd).2 := by
  obtain ⟨hreads, hstop⟩ := reads_await (·.elem delim) rd
  unfold readSlice
  generalize rd.await (·.elem delim) = rd' at hreads hstop
  rw [show rd.view = rd'.view from hreads.view, ← hreads.size, ← hreads.fin]
  dsimp only
  split
  · next l r hcut =>
      obtain ⟨r', hcut'⟩ := cutByte_of_prefix (buf_prefix_take rd') hcut
      refine ⟨by rw [sliceOf, hcut'], ?_⟩
      have htake : rd'.buf.take (l.length + 1) = l ++ [delim] := by
        rw [(cutByte_eq_some.mp hcut).1,
          show l ++ delim :: r = (l ++ [delim]) ++ r by simp,
          List.take_left' (by simp)]
      have := hreads.trans (reads_skip rd' (l.length + 1))
      rwa [htake] at this
  · next hcut =>
      have hnot : delim ∉ rd'.buf := cutByte_eq_none.mp hcut
      have hall := hreads.trans (reads_skip rd' rd'.buf.length)
      rw [List.take_length, List.nil_append] at hall
      by_cases hfull : rd'.size ≤ rd'.buf.length
      · have hlen : rd'.buf.length = rd'.size := Nat.le_antisymm rd'.fits hfull
        have hle : rd'.size ≤ rd'.view.length := by
          rw [view, List.length_append]
          omega
        rw [if_pos hfull, sliceOf, take_view_of_full hlen, hcut]
        exact ⟨by simp only [if_pos hle], hall⟩
      · have hend : Source.rest rd'.src = [] := by
          rcases hstop with h | h | h
          · exact absurd (List.elem_iff.mp h) hnot
          · omega
          · exact h
        have hview := view_of_end hend
        have htake : rd'.buf.take rd'.size = rd'.buf :=
          List.take_of_length_le rd'.fits
        rw [if_neg hfull, sliceOf, hview, htake, hcut]
        exact ⟨by simp only [if_neg hfull], hall⟩

/-- What `ReadLine` answers, and what it consumes, as functions of the view. -/
def lineOf (size : Nat) (fin : ε) (view : Bytes) : Except ε (Bytes × Bool) :=
  match sliceOf nl size fin view with
  | .line l => .ok (dropEOL l, false)
  | .full l => if l.getLast? = some cr then .ok (l.dropLast, true)
      else .ok (l, true)
  | .ended l e => if l = [] then .error e else .ok (l, false)

def lineBytes (size : Nat) (fin : ε) (view : Bytes) : Bytes :=
  match sliceOf nl size fin view with
  | .line l | .ended l _ => l
  | .full l => if l.getLast? = some cr then l.dropLast else l

theorem reads_unread {rd rd' : Reader ρ} {l : Bytes} {c : UInt8}
    (h : Reads rd (l ++ [c]) rd') (hroom : rd'.buf.length < rd'.size) :
    Reads rd l (rd'.unread c) := by
  obtain ⟨hs, p, hp, hb⟩ := h
  rw [unread, dif_pos hroom]
  refine ⟨hs, p, hp, ?_⟩
  rw [hb]
  simp

/-- A full buffer has been emptied by the `ReadSlice` that reported it. -/
theorem readSlice_full {delim : UInt8} {rd rd' : Reader ρ} {l : Bytes}
    (h : readSlice delim rd = (.full l, rd')) : rd'.buf = [] := by
  unfold readSlice at h
  dsimp only at h
  split at h
  · cases h
  · split at h
    · cases h
      simp [skip]
    · cases h

theorem readLine_spec (rd : Reader ρ) :
    (readLine rd).1 = lineOf rd.size rd.fin rd.view ∧
      Reads rd (lineBytes rd.size rd.fin rd.view) (readLine rd).2 := by
  obtain ⟨hslice, hreads⟩ := readSlice_spec nl rd
  unfold readLine lineOf lineBytes
  rw [← hslice]
  cases hr : readSlice nl rd with
  | mk s rd' =>
    rw [hr] at hreads
    cases s with
    | line l => exact ⟨rfl, hreads⟩
    | full l =>
      have hbuf := readSlice_full hr
      have hsize := rd'.size_ge
      dsimp only
      split
      · next hlast =>
          refine ⟨rfl, reads_unread ?_ (by rw [hbuf, List.length_nil]; omega)⟩
          have hl : l.dropLast ++ [cr] = l := by
            cases hne : l with
            | nil => rw [hne] at hlast; cases hlast
            | cons a as =>
              rw [← hne]
              have hne' : l ≠ [] := by rw [hne]; simp
              rw [List.getLast?_eq_some_getLast hne',
                Option.some.injEq] at hlast
              rw [← hlast]
              exact List.dropLast_append_getLast hne'
          rw [hl]
          exact hreads
      · exact ⟨rfl, hreads⟩
    | ended l e =>
      dsimp only
      split
      · exact ⟨rfl, hreads⟩
      · exact ⟨rfl, hreads⟩

theorem peek_spec (n : Nat) (rd : Reader ρ) :
    (peek n rd).1 = rd.view.take (min n rd.size) ∧
      Reads rd [] (peek n rd).2 := by
  obtain ⟨hreads, hstop⟩ := reads_await (fun b => decide (n ≤ b.length)) rd
  unfold peek
  generalize rd.await (fun b => decide (n ≤ b.length)) = rd' at hreads hstop
  refine ⟨?_, hreads⟩
  rw [show rd.view = rd'.view from hreads.view, ← hreads.size]
  have hfits := rd'.fits
  dsimp only
  rcases hstop with h | h | h
  · rw [decide_eq_true_eq] at h
    rw [view, Nat.min_eq_left (by omega), List.take_append_of_le_length h]
  · rw [view, ← h, List.take_append_of_le_length (Nat.min_le_right _ _),
      ← List.take_take, List.take_length]
  · rw [view_of_end h, ← List.take_take, List.take_of_length_le hfits]

/-- `Read` gives some of what is there, or the end. -/
theorem read_spec {n : Nat} (hn : 0 < n) (rd : Reader ρ) :
    ((rd.read n).1 = none ∧ rd.view = [] ∧ Reads rd [] (rd.read n).2) ∨
      ∃ p, (rd.read n).1 = some p ∧ p ≠ [] ∧ p.length ≤ n ∧
        Reads rd p (rd.read n).2 := by
  have hsize := rd.size_ge
  unfold Reader.read
  split
  · next hbuf =>
      split
      · split
        · next hread =>
            refine .inl ⟨rfl, ?_, Reads.refl rd⟩
            rw [view, hbuf, (Source.read_none hn).mp hread]
            rfl
        · next p src hread =>
            obtain ⟨hne, hpull⟩ := Source.read_some hn hread
            exact .inr ⟨p.1, rfl, hne, p.2, rfl, p.1, hpull, by simp [hbuf]⟩
      · have hroom : rd.buf.length < rd.size := by
          rw [hbuf, List.length_nil]; omega
        split
        · next hfill =>
            refine .inl ⟨rfl, ?_, Reads.refl rd⟩
            rw [view, hbuf, (fill_eq_none hroom).mp hfill]
            rfl
        · next rd' hfill =>
            obtain ⟨hreads, hlt, _⟩ := reads_fill hroom hfill
            refine .inr ⟨_, rfl, ?_, List.length_take_le _ _, ?_⟩
            · intro hnil
              have := congrArg List.length hnil
              simp only [List.length_take, List.length_nil] at this
              omega
            · exact hreads.trans (reads_skip rd' n)
  · next hbuf =>
      refine .inr ⟨_, rfl, ?_, List.length_take_le _ _, reads_skip rd n⟩
      intro hnil
      have := congrArg List.length hnil
      have := List.length_pos_of_ne_nil hbuf
      simp only [List.length_take, List.length_nil] at *
      omega

theorem acceptByte_spec (p : UInt8 → Bool) (rd : Reader ρ) :
    (∃ c v, rd.view = c :: v ∧ p c = true ∧ (acceptByte p rd).1 = true ∧
        Reads rd [c] (acceptByte p rd).2) ∨
      ((∀ c v, rd.view = c :: v → p c = false) ∧ (acceptByte p rd).1 = false ∧
        Reads rd [] (acceptByte p rd).2) := by
  obtain ⟨hreads, hstop⟩ := reads_await (fun b => !b.isEmpty) rd
  unfold acceptByte
  generalize rd.await (fun b => !b.isEmpty) = rd' at hreads hstop
  have hview : rd.view = rd'.view := hreads.view
  dsimp only
  split
  · next c cs hbuf =>
      have hcons : rd'.view = c :: (cs ++ Source.rest rd'.src) := by
        rw [view, hbuf]; rfl
      split
      · next hp =>
          refine .inl ⟨c, _, hview.trans hcons, hp, rfl, ?_⟩
          have := hreads.trans (reads_skip rd' 1)
          rwa [hbuf] at this
      · next hp =>
          refine .inr ⟨?_, rfl, hreads⟩
          intro c' v' hv
          rw [hview, hcons] at hv
          cases hv
          simpa using hp
  · next hbuf =>
      refine .inr ⟨?_, rfl, hreads⟩
      have hsize := rd'.size_ge
      have hend : Source.rest rd'.src = [] := by
        rcases hstop with h | h | h
        · rw [hbuf] at h; cases h
        · rw [hbuf, List.length_nil] at h; omega
        · exact h
      intro c v hv
      rw [hview, view_of_end hend, hbuf] at hv
      cases hv

end Netramesh.Lib
