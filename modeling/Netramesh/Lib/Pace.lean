import Netramesh.Lib.Parser

/-!
# How far a parser asks

How much of a stream a reader has fetched depends on how the stream is cut. What
a parser asks for does not: from a source that delivers one byte at a time the
reader fetches that much and no more. A `Frugal` parser never starts a read
behind what it asks for, whatever the cuts. So where the stream pauses just
there, nothing is read ahead of the parser.
-/

namespace Netramesh.Lib

open Reader

variable {ε ρ α β : Type} [Source ε ρ]

/-- How a source delivers its bytes: one at a time (`Single`), or with a read
that ends when `m` bytes are still to come (`Pauses m`). -/
structure Pace (ρ : Type) {ε : Type} [Source ε ρ] where
  Single : ρ → Prop
  single_read : ∀ {s n p t}, 0 < n → Single s → Source.read n s = some (p, t) →
    p.1.length = 1 ∧ Single t
  Pauses : Nat → ρ → Prop
  pauses_le : ∀ {m s}, Pauses m s → m ≤ (Source.rest s).length
  pauses_read : ∀ {m s n p t}, 0 < n → Pauses m s → m < (Source.rest s).length →
    Source.read n s = some (p, t) → Pauses m t

/-! ## Filling the buffer -/

/-- A condition on the buffer that more bytes do not undo. -/
def Persists (stop : Bytes → Bool) : Prop :=
  ∀ b b', b <+: b' → stop b = true → stop b' = true

theorem persists_elem (delim : UInt8) : Persists (·.elem delim) := by
  intro b b' hpre h
  exact List.elem_iff.mpr (hpre.subset (List.elem_iff.mp h))

theorem persists_length (n : Nat) :
    Persists (fun b => decide (n ≤ b.length)) := by
  intro b b' hpre h
  rw [decide_eq_true_eq] at h ⊢
  exact h.trans hpre.length_le

theorem persists_nonempty : Persists (fun b => !b.isEmpty) := by
  intro b b' hpre h
  obtain ⟨t, rfl⟩ := hpre
  cases b with
  | nil => cases h
  | cons c cs => rfl

/-- A buffer at which `await stop` is content. -/
def Suffices (stop : Bytes → Bool) (rd : Reader ρ) (b : Bytes) : Prop :=
  stop b = true ∨ rd.size ≤ b.length ∨ b = rd.view

section Await

variable {stop : Bytes → Bool}

theorem suffices_await (stop : Bytes → Bool) (rd : Reader ρ) :
    Suffices stop rd (rd.await stop).buf := by
  obtain ⟨hreads, hstop⟩ := reads_await stop rd
  rcases hstop with h | h | h
  · exact .inl h
  · exact .inr (.inl (by rw [h, hreads.size]))
  · refine .inr (.inr ?_)
    rw [show rd.view = (rd.await stop).view from hreads.view, view_of_end h]

/-- What a `fill` that goes through does. -/
theorem fill_eq_some {rd rd' : Reader ρ} (h : rd.fill = some rd') :
    ∃ p, Source.read (rd.size - rd.buf.length) rd.src = some (p, rd'.src) ∧
      rd'.buf = rd.buf ++ p.1 ∧ rd'.size = rd.size := by
  unfold fill at h
  split at h
  · cases h
  · next p src hread =>
      cases h
      exact ⟨p, hread, rfl, rfl⟩

/-- From a source that delivers one byte at a time `await` fetches no more than
any other sufficient buffer holds. -/
theorem await_least (P : Pace ρ) {rd : Reader ρ} (hsingle : P.Single rd.src)
    {b : Bytes} (hle : rd.buf.length ≤ b.length) (hb : b <+: rd.view)
    (hs : Suffices stop rd b) :
    (rd.await stop).buf.length ≤ b.length ∧ P.Single (rd.await stop).src := by
  suffices h : ∀ fuel (rd : Reader ρ), P.Single rd.src →
    rd.buf.length ≤ b.length →
      b <+: rd.view → Suffices stop rd b →
      (fillUntil stop fuel rd).buf.length ≤ b.length ∧
        P.Single (fillUntil stop fuel rd).src from
    h _ rd hsingle hle hb hs
  intro fuel
  induction fuel with
  | zero => exact fun rd hsingle hle _ _ => ⟨hle, hsingle⟩
  | succ fuel ih =>
    intro rd hsingle hle hb hs
    rw [fillUntil]
    split
    · exact ⟨hle, hsingle⟩
    · next hstop =>
        simp only [Bool.or_eq_true, decide_eq_true_eq, not_or, not_le] at hstop
        split
        · exact ⟨hle, hsingle⟩
        · next rd' hfill =>
            obtain ⟨hreads, _, _⟩ := reads_fill hstop.2 hfill
            obtain ⟨p, hread, hbuf, hsize⟩ := fill_eq_some hfill
            obtain ⟨hone, hsingle'⟩ := P.single_read (by omega) hsingle hread
            have hview : rd.view = rd'.view := hreads.view
            have hlt : rd.buf.length < b.length := by
              by_contra hge
              -- the buffer is `b` itself, which suffices
              have heq : rd.buf = b :=
                (List.prefix_of_prefix_length_le
                  (List.prefix_append _ _) hb hle).eq_of_length
                  (by omega)
              subst heq
              rcases hs with h | h | h
              · exact hstop.1 h
              · omega
              · have hlen := congrArg List.length (h.trans hview)
                rw [view, List.length_append, hbuf, List.length_append,
                  hone] at hlen
                omega
            refine ih rd' hsingle' ?_ (hview ▸ hb) ?_
            · rw [hbuf, List.length_append, hone]
              omega
            · rcases hs with h | h | h
              · exact .inl h
              · exact .inr (.inl (by rw [hsize]; exact h))
              · exact .inr (.inr (h.trans hview))

/-- `await` does not read on where the source pauses, if what comes before holds
a sufficient buffer. -/
theorem await_pauses (P : Pace ρ) (hstop : Persists stop) {rd : Reader ρ}
    {m : Nat} (hpause : P.Pauses m rd.src) {b : Bytes} (hb : b <+: rd.view)
    (hle : b.length + m ≤ rd.view.length) (hs : Suffices stop rd b) :
    P.Pauses m (rd.await stop).src := by
  suffices h : ∀ fuel (rd : Reader ρ), P.Pauses m rd.src → b <+: rd.view →
      b.length + m ≤ rd.view.length → Suffices stop rd b →
      P.Pauses m (fillUntil stop fuel rd).src from h _ rd hpause hb hle hs
  intro fuel
  induction fuel with
  | zero => exact fun rd hpause _ _ _ => hpause
  | succ fuel ih =>
    intro rd hpause hb hle hs
    rw [fillUntil]
    split
    · exact hpause
    · next hmore =>
        simp only [Bool.or_eq_true, decide_eq_true_eq, not_or, not_le] at hmore
        split
        · exact hpause
        · next rd' hfill =>
            obtain ⟨hreads, _, _⟩ := reads_fill hmore.2 hfill
            obtain ⟨p, hread, _, hsize⟩ := fill_eq_some hfill
            have hview : rd.view = rd'.view := hreads.view
            have hrest : m < (Source.rest rd.src).length := by
              refine Nat.lt_of_le_of_ne (P.pauses_le hpause) fun heq => ?_
              have hlen : rd.view.length =
                  rd.buf.length + (Source.rest rd.src).length := by
                rw [view, List.length_append]
              -- at the pause the buffer holds `b`
              have hpre : b <+: rd.buf :=
                List.prefix_of_prefix_length_le hb (List.prefix_append _ _)
                  (by omega)
              rcases hs with h | h | h
              · exact hmore.1 (hstop b _ hpre h)
              · have := hpre.length_le
                omega
              · have hnil : Source.rest rd.src = [] := by
                  refine List.eq_nil_of_length_eq_zero ?_
                  rw [h] at hle
                  omega
                rw [(fill_eq_none hmore.2).mpr hnil] at hfill
                cases hfill
            refine ih rd' (P.pauses_read
              (by omega) hpause hrest hread) (hview ▸ hb)
              (hview ▸ hle) ?_
            rcases hs with h | h | h
            · exact .inl h
            · exact .inr (.inl (by rw [hsize]; exact h))
            · exact .inr (.inr (h.trans hview))

end Await

/-! ## Two readers of one stream -/

/-- `b` gets its bytes one by one, and `a` has fetched at least as much. -/
structure Leads (P : Pace ρ) (a b : Reader ρ) : Prop where
  sim : Sim a b
  single : P.Single b.src
  le : b.buf.length ≤ a.buf.length

/-- The step from `a` to `a'` does not cross a pause that the one from `b` to
`b'` has not crossed. -/
def Heeds (P : Pace ρ) (a a' b' : Reader ρ) : Prop :=
  ∀ m, P.Pauses m a.src → m ≤ (Source.rest b'.src).length → P.Pauses m a'.src

theorem Leads.buf_prefix {P : Pace ρ} {a b : Reader ρ} (h : Leads P a b) :
    b.buf <+: a.buf := by
  have ha : a.buf <+: a.view := List.prefix_append _ _
  rw [h.sim.view] at ha
  exact List.prefix_of_prefix_length_le (List.prefix_append _ _) ha h.le

theorem rest_length_le {rd rd' : Reader ρ} {c : Bytes} (h : Reads rd c rd') :
    (Source.rest rd'.src).length ≤ (Source.rest rd.src).length := by
  obtain ⟨_, p, hp, _⟩ := h
  rw [Source.pulls_rest hp, List.length_append]
  omega

theorem Leads.await {P : Pace ρ} {a b : Reader ρ} (h : Leads P a b)
    {stop : Bytes → Bool} (hstop : Persists stop) :
    Leads P (a.await stop) (b.await stop) ∧
      Heeds P a (a.await stop) (b.await stop) := by
  obtain ⟨hra, _⟩ := reads_await stop a
  obtain ⟨hrb, _⟩ := reads_await stop b
  have hva : a.view = (a.await stop).view := hra.view
  have hvb : b.view = (b.await stop).view := hrb.view
  have hgrows : a.buf.length ≤ (a.await stop).buf.length := by
    obtain ⟨_, p, _, hbuf⟩ := hra
    rw [List.nil_append] at hbuf
    rw [← hbuf, List.length_append]
    omega
  have hsuffices : Suffices stop b (a.await stop).buf := by
    rcases suffices_await stop a with hs | hs | hs
    · exact .inl hs
    · exact .inr (.inl (h.sim.size ▸ hs))
    · exact .inr (.inr (hs.trans h.sim.view))
  obtain ⟨hle, hsingle⟩ := await_least P h.single (h.le.trans hgrows)
    (by rw [← h.sim.view, hva]; exact List.prefix_append _ _) hsuffices
  refine ⟨⟨h.sim.reads hra hrb, hsingle, hle⟩, fun m hpause hm => ?_⟩
  refine await_pauses P hstop hpause (b := (b.await stop).buf) ?_ ?_ ?_
  · rw [h.sim.view, hvb]
    exact List.prefix_append _ _
  · rw [h.sim.view, hvb, view, List.length_append]
    omega
  · rcases suffices_await stop b with hs | hs | hs
    · exact .inl hs
    · exact .inr (.inl (h.sim.size ▸ hs))
    · exact .inr (.inr (hs.trans h.sim.view.symm))

/-- What is dropped was in both buffers. -/
theorem Leads.skip {P : Pace ρ} {a b : Reader ρ} (h : Leads P a b) {n : Nat}
    (hn : n ≤ b.buf.length) : Leads P (a.skip n) (b.skip n) := by
  have htake : a.buf.take n = b.buf.take n := by
    obtain ⟨t, ht⟩ := h.buf_prefix
    rw [← ht, List.take_append_of_le_length hn]
  refine ⟨h.sim.reads (reads_skip a n) (htake ▸ reads_skip b n), h.single, ?_⟩
  show (b.buf.drop n).length ≤ (a.buf.drop n).length
  rw [List.length_drop, List.length_drop]
  exact Nat.sub_le_sub_right h.le n

/-! ## Frugal parsers -/

/-- A lawful parser that starts no read behind what it asks for. -/
structure Frugal (P : Pace ρ) (f : Parser ρ ε α) : Prop where
  lawful : Lawful f
  leads : ∀ {a b}, Leads P a b → Leads P (f a).2 (f b).2
  heeds : ∀ {a b}, Leads P a b → Heeds P a (f a).2 (f b).2

namespace Frugal

variable {P : Pace ρ}

theorem pure (a : α) : Frugal P (Pure.pure a : Parser ρ ε α) :=
  ⟨.pure a, fun h => h, fun _ _ hpause _ => hpause⟩

theorem fail (e : ε) : Frugal P (Parser.fail e : Parser ρ ε α) :=
  ⟨.fail e, fun h => h, fun _ _ hpause _ => hpause⟩

theorem bind {f : Parser ρ ε α} {g : α → Parser ρ ε β} (hf : Frugal P f)
    (hg : ∀ a, Frugal P (g a)) : Frugal P (f >>= g) := by
  have hboth : ∀ {a b}, Leads P a b →
      Leads P ((f >>= g) a).2 ((f >>= g) b).2 ∧
        Heeds P a ((f >>= g) a).2 ((f >>= g) b).2 := by
    intro a b h
    have hl := hf.leads h
    have hh := hf.heeds h
    obtain ⟨heq, _⟩ := hf.lawful.sim a b h.sim
    rw [Parser.bind_run, Parser.bind_run]
    cases ha : f a with
    | mk ra a' =>
      cases hb : f b with
      | mk rb b' =>
        rw [ha, hb] at hl hh heq
        dsimp only at heq
        subst heq
        cases ra with
        | error e => exact ⟨hl, hh⟩
        | ok x =>
          refine ⟨(hg x).leads hl, fun m hpause hm => ?_⟩
          obtain ⟨c, hc⟩ := (hg x).lawful.reads b'
          exact (hg x).heeds hl m (hh m hpause (hm.trans (rest_length_le hc)))
            hm
  exact ⟨hf.lawful.bind fun a => (hg a).lawful, fun h => (hboth h).1,
    fun h => (hboth h).2⟩

theorem mapError {f : Parser ρ ε α} (hf : Frugal P f) (φ : ε → ε) :
    Frugal P (f.mapError φ) := by
  have hrd : ∀ rd, (f.mapError φ rd).2 = (f rd).2 := by
    intro rd
    unfold Parser.mapError
    cases f rd with
    | mk r rd' => cases r <;> rfl
  refine ⟨hf.lawful.mapError φ, fun {a b} h => ?_, fun {a b} h => ?_⟩
  · rw [hrd, hrd]
    exact hf.leads h
  · rw [hrd, hrd]
    exact hf.heeds h

theorem attempt {f : Parser ρ ε α} (hf : Frugal P f) : Frugal P f.attempt :=
  ⟨hf.lawful.attempt, hf.leads, hf.heeds⟩

theorem measured {f : Nat → Parser ρ ε α} (hf : ∀ n, Frugal P (f n)) :
    Frugal P (Parser.measured f) := by
  refine ⟨.measured fun n => (hf n).lawful, fun {a b} h => ?_,
    fun {a b} h => ?_⟩
  · rw [Parser.measured_run, Parser.measured_run, h.sim.view]
    exact (hf _).leads h
  · rw [Parser.measured_run, Parser.measured_run, h.sim.view]
    exact (hf _).heeds h

theorem ite {p : Prop} [Decidable p] {f g : Parser ρ ε α} (hf : Frugal P f)
    (hg : Frugal P g) :
    Frugal P (if p then f else g) := by
  split
  · exact hf
  · exact hg

end Frugal

/-! ## The primitive parsers -/

section Primitives

variable (P : Pace ρ)

theorem frugal_peek (n : Nat) : Frugal P (Parser.peek n : Parser ρ ε Bytes) :=
  ⟨lawful_peek n, fun h => (h.await (persists_length n)).1,
    fun h => (h.await (persists_length n)).2⟩

/-- Both slices end at the same place. -/
theorem frugal_readSlice (delim : UInt8) :
    Frugal P (Parser.readSlice delim : Parser ρ ε (Slice ε)) := by
  have hboth : ∀ {a b : Reader ρ}, Leads P a b →
      Leads P (readSlice delim a).2 (readSlice delim b).2 ∧
        Heeds P a (readSlice delim a).2 (readSlice delim b).2 := by
    intro a b h
    obtain ⟨hl, hh⟩ := h.await (persists_elem delim)
    have hs := suffices_await (·.elem delim) b
    have hvb : b.view = (b.await (·.elem delim)).view :=
      (reads_await (·.elem delim) b).1.view
    have hsize : (b.await (·.elem delim)).size = b.size :=
      (reads_await (·.elem delim) b).1.size
    unfold readSlice
    generalize a.await (·.elem delim) = a' at hl hh
    generalize b.await (·.elem delim) = b' at hl hh hs hvb hsize
    dsimp only
    cases hcut : cutByte delim b'.buf with
    | some lr =>
      obtain ⟨l, r⟩ := lr
      obtain ⟨r', hcut'⟩ := cutByte_of_prefix hl.buf_prefix hcut
      rw [hcut']
      have hlen : l.length + 1 ≤ b'.buf.length := by
        rw [(cutByte_eq_some.mp hcut).1, List.length_append, List.length_cons]
        omega
      exact ⟨hl.skip hlen, hh⟩
    | none =>
      -- the buffer is full or holds all there is, and so does the other
      have heq : a'.buf = b'.buf := by
        refine (hl.buf_prefix.eq_of_length_le ?_).symm
        rcases hs with h' | h' | h'
        · exact absurd (List.elem_iff.mp h') (cutByte_eq_none.mp hcut)
        · exact (a'.fits.trans (hl.sim.size ▸ hsize.le)).trans h'
        · rw [h', hvb, ← hl.sim.view, view, List.length_append]
          omega
      rw [heq, hcut]
      exact ⟨hl.skip (Nat.le_refl _), hh⟩
  exact ⟨lawful_readSlice delim, fun h => (hboth h).1, fun h => (hboth h).2⟩

theorem frugal_readLine :
    Frugal P (Parser.readLine : Parser ρ ε (Bytes × Bool)) := by
  have hboth : ∀ {a b : Reader ρ}, Leads P a b →
      Leads P (readLine a).2 (readLine b).2 ∧
        Heeds P a (readLine a).2 (readLine b).2 := by
    intro a b h
    have hsim := (lawful_readLine.sim a b h.sim).2
    change Sim (readLine a).2 (readLine b).2 at hsim
    have hl : Leads P (readSlice nl a).2 (readSlice nl b).2 :=
      (frugal_readSlice P nl).leads h
    have hh : Heeds P a (readSlice nl a).2 (readSlice nl b).2 :=
      (frugal_readSlice P nl).heeds h
    have heq : (readSlice nl a).1 = (readSlice nl b).1 := by
      rw [(readSlice_spec nl a).1, (readSlice_spec nl b).1, h.sim.size,
        h.sim.fin, h.sim.view]
    unfold readLine at hsim ⊢
    cases ha : readSlice nl a with
    | mk sa a' =>
      cases hb : readSlice nl b with
      | mk sb b' =>
        rw [ha, hb] at hl hh heq
        rw [ha, hb] at hsim
        dsimp only at heq
        subst heq
        cases sa with
        | line l => exact ⟨hl, hh⟩
        | ended l e =>
          dsimp only at hsim ⊢
          split
          · exact ⟨hl, hh⟩
          · exact ⟨hl, hh⟩
        | full l =>
          dsimp only at hsim ⊢
          split
          · next hcr =>
              simp only [if_pos hcr] at hsim
              have hroom : ∀ {rd rd' : Reader ρ}, readSlice nl rd =
                (.full l, rd') →
                  (rd'.unread cr).buf = [cr] ∧ (rd'.unread cr).src =
                    rd'.src := by
                intro rd rd' hrun
                have hnil := readSlice_full hrun
                have hge := rd'.size_ge
                rw [unread, dif_pos (by rw [hnil, List.length_nil]; omega)]
                exact ⟨congrArg (cr :: ·) hnil, rfl⟩
              obtain ⟨hbufa, hsrca⟩ := hroom ha
              obtain ⟨hbufb, hsrcb⟩ := hroom hb
              refine ⟨⟨hsim, ?_, ?_⟩, fun m hpause hm => ?_⟩
              · show P.Single (b'.unread cr).src
                rw [hsrcb]
                exact hl.single
              · show (b'.unread cr).buf.length ≤ (a'.unread cr).buf.length
                rw [hbufa, hbufb]
              · show P.Pauses m (a'.unread cr).src
                rw [hsrca]
                refine hh m hpause ?_
                rw [← hsrcb]
                exact hm
          · exact ⟨hl, hh⟩
  exact ⟨lawful_readLine, fun h => (hboth h).1, fun h => (hboth h).2⟩

theorem frugal_acceptByte (p : UInt8 → Bool) :
    Frugal P (Parser.acceptByte p : Parser ρ ε Bool) := by
  have hboth : ∀ {a b : Reader ρ}, Leads P a b →
      Leads P (acceptByte p a).2 (acceptByte p b).2 ∧
        Heeds P a (acceptByte p a).2 (acceptByte p b).2 := by
    intro a b h
    obtain ⟨hl, hh⟩ := h.await persists_nonempty
    have hs := suffices_await (fun b => !b.isEmpty) b
    have hvb : b.view = (b.await fun b => !b.isEmpty).view :=
      (reads_await (fun b => !b.isEmpty) b).1.view
    have hsizeb := b.size_ge
    unfold acceptByte
    generalize (a.await fun b => !b.isEmpty) = a' at hl hh
    generalize (b.await fun b => !b.isEmpty) = b' at hl hh hs hvb
    dsimp only
    cases hbuf : b'.buf with
    | nil =>
      -- the stream has ended for both
      have hnil : a'.buf = [] := by
        rw [hbuf] at hs
        rcases hs with h' | h' | h'
        · cases h'
        · rw [List.length_nil] at h'
          omega
        · rw [hvb, ← hl.sim.view, view] at h'
          exact (List.append_eq_nil_iff.mp h'.symm).1
      rw [hnil]
      exact ⟨hl, hh⟩
    | cons c cs =>
      obtain ⟨t, ht⟩ := hl.buf_prefix
      rw [hbuf, List.cons_append] at ht
      rw [← ht]
      dsimp only
      split
      · exact ⟨hl.skip (by rw [hbuf, List.length_cons]; omega), hh⟩
      · exact ⟨hl, hh⟩
  exact ⟨lawful_acceptByte p, fun h => (hboth h).1, fun h => (hboth h).2⟩

end Primitives

/-- A parser that is fed byte by byte and asks for nothing behind what it takes
leaves nothing read ahead where a read ends just there. -/
theorem Frugal.nothing_ahead {P : Pace ρ} {f : Parser ρ ε α} (hf : Frugal P f)
    {a b : Reader ρ} (h : Leads P a b) (hnone : (f b).2.buf = [])
    (hpause : P.Pauses (f b).2.view.length a.src) : (f a).2.buf = [] := by
  have hrest : (Source.rest (f b).2.src).length = (f b).2.view.length := by
    rw [view, hnone]
    rfl
  have hle := P.pauses_le (hf.heeds h _ hpause hrest.ge)
  rw [← (hf.leads h).sim.view, view, List.length_append] at hle
  exact List.eq_nil_of_length_eq_zero (by omega)

end Netramesh.Lib
