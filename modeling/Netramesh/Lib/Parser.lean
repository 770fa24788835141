import Netramesh.Lib.Bufio

/-!
# Parsers over a buffered reader

A parser takes a reader, answers or fails, and leaves the reader somewhere
further on in either case. `Lawful` says that it conserves bytes and that it
sees only the view; it is closed under everything parsers are put together
with. `Gives` is the other direction, a rule for each construct that says what
a parser does on a view that is known: started there it succeeds with this
answer and leaves that view.
-/

namespace Netramesh.Lib

/-- A computation that reads from a `Reader ρ` and may fail with an `ε`. -/
def Parser (ρ ε α : Type) : Type := Reader ρ → Except ε α × Reader ρ

variable {ε ρ α β : Type}

namespace Parser

instance : Monad (Parser ρ ε) where
  pure a := fun rd => (.ok a, rd)
  bind f g := fun rd =>
    match f rd with
    | (.ok a, rd') => g a rd'
    | (.error e, rd') => (.error e, rd')

def fail (e : ε) : Parser ρ ε α := fun rd => (.error e, rd)

/-- The parser with its errors mapped. -/
def mapError (φ : ε → ε) (f : Parser ρ ε α) : Parser ρ ε α := fun rd =>
  match f rd with
  | (.ok a, rd') => (.ok a, rd')
  | (.error e, rd') => (.error (φ e), rd')

/-- The parser with its failure as an answer. -/
def attempt (f : Parser ρ ε α) : Parser ρ ε (Except ε α) :=
  fun rd => (.ok (f rd).1, (f rd).2)

/-- A parser that is told how much there is to read at most. -/
def measured [Source ε ρ] (f : Nat → Parser ρ ε α) : Parser ρ ε α := fun rd =>
  f (rd.view.length + 1) rd

theorem bind_run (f : Parser ρ ε α) (g : α → Parser ρ ε β) (rd : Reader ρ) :
    (f >>= g) rd = match f rd with
      | (.ok a, rd') => g a rd'
      | (.error e, rd') => (.error e, rd') := rfl

@[simp] theorem pure_run (a : α) (rd : Reader ρ) :
    (pure a : Parser ρ ε α) rd = (.ok a, rd) := rfl

@[simp] theorem fail_run (e : ε) (rd : Reader ρ) :
    (fail e : Parser ρ ε α) rd = (.error e, rd) := rfl

theorem measured_run [Source ε ρ] (f : Nat → Parser ρ ε α) (rd : Reader ρ) :
    measured f rd = f (rd.view.length + 1) rd := rfl

theorem bind_ok {f : Parser ρ ε α} {g : α → Parser ρ ε β} {rd rd' : Reader ρ}
    {a : α} (h : f rd = (.ok a, rd')) : (f >>= g) rd = g a rd' := by
  rw [bind_run, h]

/-- The bind of a parser that succeeded. -/
theorem bind_eq_ok {f : Parser ρ ε α} {g : α → Parser ρ ε β}
    {rd rd'' : Reader ρ} {b : β} (h : (f >>= g) rd = (.ok b, rd'')) :
    ∃ a rd', f rd = (.ok a, rd') ∧ g a rd' = (.ok b, rd'') := by
  rw [bind_run] at h
  cases hf : f rd with
  | mk r rd' =>
    rw [hf] at h
    cases r with
    | error e => cases h
    | ok a => exact ⟨a, rd', rfl, h⟩

end Parser

variable [Source ε ρ]

/-! ## Readers with the same view -/

/-- Readers no parser can tell apart. -/
structure Sim (a b : Reader ρ) : Prop where
  size : a.size = b.size
  view : a.view = b.view
  fin : a.fin = b.fin

theorem Sim.refl (a : Reader ρ) : Sim a a := ⟨rfl, rfl, rfl⟩

theorem Sim.symm {a b : Reader ρ} (h : Sim a b) : Sim b a :=
  ⟨h.size.symm, h.view.symm, h.fin.symm⟩

theorem Sim.trans {a b c : Reader ρ} (h : Sim a b) (h' : Sim b c) : Sim a c :=
  ⟨h.size.trans h'.size, h.view.trans h'.view, h.fin.trans h'.fin⟩

/-- Reading the same bytes keeps readers indistinguishable. -/
theorem Sim.reads {a b a' b' : Reader ρ} {c : Bytes} (h : Sim a b)
    (ha : Reads a c a') (hb : Reads b c b') : Sim a' b' := by
  refine ⟨?_, ?_, ?_⟩
  · rw [ha.size, hb.size, h.size]
  · have := h.view
    rw [ha.view, hb.view] at this
    exact List.append_cancel_left this
  · rw [ha.fin, hb.fin, h.fin]

theorem Reads.sim {a b : Reader ρ} (h : Reads a [] b) : Sim a b :=
  ⟨h.size.symm, by simpa using h.view, h.fin.symm⟩

/-- A parser that conserves bytes and sees only the view. -/
structure Lawful (f : Parser ρ ε α) : Prop where
  reads : ∀ rd, ∃ c, Reads rd c (f rd).2
  sim : ∀ a b, Sim a b → (f a).1 = (f b).1 ∧ Sim (f a).2 (f b).2

namespace Lawful

/-- A parser given by its answer and its consumption as functions of the
view. -/
theorem of_spec {f : Parser ρ ε α} (answer : Nat → ε → Bytes → Except ε α)
    (taken : Nat → ε → Bytes → Bytes)
    (h : ∀ rd, (f rd).1 = answer rd.size rd.fin rd.view ∧
      Reads rd (taken rd.size rd.fin rd.view) (f rd).2) : Lawful f := by
  refine ⟨fun rd => ⟨_, (h rd).2⟩, fun a b hab => ?_⟩
  obtain ⟨ha, hra⟩ := h a
  obtain ⟨hb, hrb⟩ := h b
  rw [hab.size, hab.fin, hab.view] at ha hra
  exact ⟨ha.trans hb.symm, hab.reads hra hrb⟩

theorem pure (a : α) : Lawful (Pure.pure a : Parser ρ ε α) :=
  ⟨fun rd => ⟨[], Reads.refl rd⟩, fun _ _ h => ⟨rfl, h⟩⟩

theorem fail (e : ε) : Lawful (Parser.fail e : Parser ρ ε α) :=
  ⟨fun rd => ⟨[], Reads.refl rd⟩, fun _ _ h => ⟨rfl, h⟩⟩

theorem bind {f : Parser ρ ε α} {g : α → Parser ρ ε β} (hf : Lawful f)
    (hg : ∀ a, Lawful (g a)) : Lawful (f >>= g) := by
  refine ⟨fun rd => ?_, fun a b hab => ?_⟩
  · obtain ⟨c, hc⟩ := hf.reads rd
    rw [Parser.bind_run]
    cases hr : f rd with
    | mk r rd' =>
      rw [hr] at hc
      cases r with
      | error e => exact ⟨c, hc⟩
      | ok a =>
        obtain ⟨c', hc'⟩ := (hg a).reads rd'
        exact ⟨c ++ c', hc.trans hc'⟩
  · obtain ⟨heq, hsim⟩ := hf.sim a b hab
    rw [Parser.bind_run, Parser.bind_run]
    cases ha : f a with
    | mk ra a' =>
      cases hb : f b with
      | mk rb b' =>
        rw [ha, hb] at heq hsim
        dsimp only at heq
        subst heq
        cases ra with
        | error e => exact ⟨rfl, hsim⟩
        | ok x => exact (hg x).sim a' b' hsim

theorem mapError {f : Parser ρ ε α} (hf : Lawful f) (φ : ε → ε) :
    Lawful (f.mapError φ) := by
  refine ⟨fun rd => ?_, fun a b hab => ?_⟩
  · obtain ⟨c, hc⟩ := hf.reads rd
    unfold Parser.mapError
    cases hr : f rd with
    | mk r rd' =>
      rw [hr] at hc
      cases r <;> exact ⟨c, hc⟩
  · obtain ⟨heq, hsim⟩ := hf.sim a b hab
    unfold Parser.mapError
    cases ha : f a with
    | mk ra a' =>
      cases hb : f b with
      | mk rb b' =>
        rw [ha, hb] at heq hsim
        dsimp only at heq
        subst heq
        cases ra <;> exact ⟨rfl, hsim⟩

theorem attempt {f : Parser ρ ε α} (hf : Lawful f) : Lawful f.attempt := by
  refine ⟨fun rd => hf.reads rd, fun a b hab => ?_⟩
  obtain ⟨heq, hsim⟩ := hf.sim a b hab
  exact ⟨congrArg Except.ok heq, hsim⟩

theorem measured {f : Nat → Parser ρ ε α} (hf : ∀ n, Lawful (f n)) :
    Lawful (Parser.measured f) := by
  refine ⟨fun rd => (hf _).reads rd, fun a b hab => ?_⟩
  unfold Parser.measured
  rw [hab.view]
  exact (hf _).sim a b hab

theorem ite {p : Prop} [Decidable p] {f g : Parser ρ ε α} (hf : Lawful f)
    (hg : Lawful g) :
    Lawful (if p then f else g) := by
  split
  · exact hf
  · exact hg

end Lawful

/-- What a lawful parser leaves is a suffix of what it found. -/
theorem Lawful.view_suffix {f : Parser ρ ε α} (hf : Lawful f) (rd : Reader ρ) :
    (f rd).2.view <:+ rd.view := by
  obtain ⟨c, hc⟩ := hf.reads rd
  exact ⟨c, hc.view.symm⟩

/-! ## The primitive parsers -/

namespace Parser

/-- `ReadLine` as a parser. -/
def readLine : Parser ρ ε (Bytes × Bool) := Reader.readLine

/-- `Peek`. -/
def peek (n : Nat) : Parser ρ ε Bytes :=
  fun rd => (.ok (rd.peek n).1, (rd.peek n).2)

/-- `Discard` of at most a buffer. -/
def discard (n : Nat) : Parser ρ ε Unit :=
  fun rd => (.ok (), (rd.peek n).2.skip n)

/-- `ReadByte`, undone unless the byte satisfies `p`. -/
def acceptByte (p : UInt8 → Bool) : Parser ρ ε Bool := fun rd =>
  (.ok (rd.acceptByte p).1, (rd.acceptByte p).2)

/-- `ReadSlice`. -/
def readSlice (delim : UInt8) : Parser ρ ε (Reader.Slice ε) := fun rd =>
  (.ok (rd.readSlice delim).1, (rd.readSlice delim).2)

end Parser

theorem lawful_readLine :
    Lawful (Parser.readLine : Parser ρ ε (Bytes × Bool)) :=
  .of_spec lineOf lineBytes readLine_spec

theorem lawful_peek (n : Nat) : Lawful (Parser.peek n : Parser ρ ε Bytes) :=
  .of_spec (fun size _ view => .ok (view.take (min n size)))
    (fun _ _ _ => []) fun rd =>
    ⟨congrArg Except.ok (peek_spec n rd).1, (peek_spec n rd).2⟩

theorem lawful_discard (n : Nat) :
    Lawful (Parser.discard n : Parser ρ ε Unit) := by
  refine .of_spec (fun _ _ _ => .ok ())
    (fun size _ view => view.take (min n size)) fun rd => ?_
  obtain ⟨hb, hr⟩ := peek_spec n rd
  refine ⟨rfl, ?_⟩
  rw [← hb]
  exact hr.trans (reads_skip _ n)

theorem lawful_readSlice (delim : UInt8) :
    Lawful (Parser.readSlice delim : Parser ρ ε (Reader.Slice ε)) :=
  .of_spec (fun size fin view => .ok (sliceOf delim size fin view))
    (fun size fin view => (sliceOf delim size fin view).bytes) fun rd => by
      obtain ⟨h, hr⟩ := readSlice_spec delim rd
      rw [h] at hr
      exact ⟨congrArg Except.ok h, hr⟩

theorem lawful_acceptByte (p : UInt8 → Bool) :
    Lawful (Parser.acceptByte p : Parser ρ ε Bool) := by
  refine .of_spec (fun _ _ view => .ok (view.head?.any p))
    (fun _ _ view => view.takeWhile p |>.take 1) fun rd => ?_
  rcases acceptByte_spec p rd with ⟨c, v, hv, hp, hres, hreads⟩
    | ⟨hnone, hres, hreads⟩
  · rw [hv]
    refine ⟨?_, ?_⟩
    · simp [Parser.acceptByte, hres, hp]
    · simpa [hp, Parser.acceptByte] using hreads
  · cases hv : rd.view with
    | nil =>
        exact ⟨by simp [Parser.acceptByte, hres], by
        simpa [Parser.acceptByte] using hreads⟩
    | cons c v =>
      have hp := hnone c v hv
      exact ⟨by simp [Parser.acceptByte, hres, hp], by
        simpa [Parser.acceptByte, hp] using hreads⟩

/-! ## Parsers that get on -/

/-- Whenever the parser succeeds it has taken at least a byte. -/
def Shrinks (f : Parser ρ ε α) : Prop :=
  ∀ rd a rd', f rd = (.ok a, rd') → rd'.view.length < rd.view.length

theorem Lawful.length_le {f : Parser ρ ε α} (hf : Lawful f) (rd : Reader ρ) :
    (f rd).2.view.length ≤ rd.view.length := by
  obtain ⟨c, hc⟩ := hf.reads rd
  rw [hc.view, List.length_append]
  omega

theorem Shrinks.bind {f : Parser ρ ε α} {g : α → Parser ρ ε β} (hf : Shrinks f)
    (hg : ∀ a, Lawful (g a)) : Shrinks (f >>= g) := by
  intro rd b rd'' h
  obtain ⟨a, rd', hrun, hrun'⟩ := Parser.bind_eq_ok h
  have hle := (hg a).length_le rd'
  rw [hrun'] at hle
  exact Nat.lt_of_le_of_lt hle (hf rd a rd' hrun)

theorem Shrinks.mapError {f : Parser ρ ε α} (hf : Shrinks f) (φ : ε → ε) :
    Shrinks (f.mapError φ) := by
  intro rd a rd' h
  rw [Parser.mapError] at h
  split at h
  · next hrun =>
      cases h
      exact hf rd a rd' hrun
  · cases h

/-- At the end of the stream such a parser fails. -/
theorem Shrinks.nil {f : Parser ρ ε α} (hf : Shrinks f) (rd : Reader ρ)
    (h : rd.view = []) (a : α) : (f rd).1 ≠ .ok a := by
  intro hok
  have := hf rd a (f rd).2 (Prod.ext hok rfl)
  rw [h] at this
  cases this

/-! ## Parsers on a known view -/

/-- Started on the view `v` with a buffer of `n` bytes, the parser succeeds with
`a` and leaves the view `v'`. -/
def Gives (n : Nat) (f : Parser ρ ε α) (v : Bytes) (a : α) (v' : Bytes) :
    Prop :=
  ∀ rd, rd.size = n → rd.view = v → ∃ rd', f rd = (.ok a, rd') ∧ rd'.size = n ∧
    rd'.view = v'

namespace Gives

variable {n : Nat} {f : Parser ρ ε α} {g : α → Parser ρ ε β} {v v' v'' : Bytes}
  {a : α} {b : β}

theorem pure : Gives n (Pure.pure a : Parser ρ ε α) v a v :=
  fun rd hn hv => ⟨rd, rfl, hn, hv⟩

theorem bind (hf : Gives n f v a v') (hg : Gives n (g a) v' b v'') :
    Gives n (f >>= g) v b v'' := by
  intro rd hn hv
  obtain ⟨rd', hrun, hn', hv'⟩ := hf rd hn hv
  rw [Parser.bind_ok hrun]
  exact hg rd' hn' hv'

theorem mapError (hf : Gives n f v a v') (φ : ε → ε) :
    Gives n (f.mapError φ) v a v' := by
  intro rd hn hv
  obtain ⟨rd', hrun, hn', hv'⟩ := hf rd hn hv
  exact ⟨rd', by rw [Parser.mapError, hrun], hn', hv'⟩

theorem attempt (hf : Gives n f v a v') : Gives n f.attempt v (.ok a) v' := by
  intro rd hn hv
  obtain ⟨rd', hrun, hn', hv'⟩ := hf rd hn hv
  exact ⟨rd', by rw [Parser.attempt, hrun], hn', hv'⟩

theorem measured {f : Nat → Parser ρ ε α}
    (hf : Gives n (f (v.length + 1)) v a v') :
    Gives n (Parser.measured f) v a v' := by
  intro rd hn hv
  subst hv
  exact hf rd hn rfl

end Gives

theorem gives_peek (n k : Nat) (v : Bytes) :
    Gives n (Parser.peek k : Parser ρ ε Bytes) v (v.take (min k n)) v := by
  intro rd hn hv
  obtain ⟨h, hr⟩ := peek_spec k rd
  refine ⟨(rd.peek k).2, ?_, hr.size.trans hn, ?_⟩
  · rw [Parser.peek, ← hn, ← hv, ← h]
  · rw [← hv]
    exact (by simpa using hr.view.symm)

theorem gives_discard (n k : Nat) (v : Bytes) :
    Gives n (Parser.discard k : Parser ρ ε Unit) v () (v.drop (min k n)) := by
  intro rd hn hv
  obtain ⟨h, hr⟩ := peek_spec k rd
  have hskip := hr.trans (reads_skip (rd.peek k).2 k)
  rw [show (rd.peek k).2.buf.take k = (rd.peek k).1 from rfl, h,
    List.nil_append, hn, hv] at hskip
  refine ⟨(rd.peek k).2.skip k, rfl, hskip.size.trans hn, ?_⟩
  have hview := hskip.view
  rw [hv] at hview
  conv_lhs at hview => rw [← List.take_append_drop (min k n) v]
  exact (List.append_cancel_left hview).symm

end Netramesh.Lib
