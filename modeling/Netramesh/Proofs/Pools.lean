import Netramesh.Protocol.Pooled

/-!
# No bytes pass from one connection to another through a pool

Two runs are compared: the one that happened, where `Get` answers whatever some
goroutine put back, and the run in which the goroutines of one connection take
the same steps alone and every `Get` makes a new object. The goroutines of the
connection have to see the same and to write the same in both.

What carries this is a discipline the programs keep. At every point of a program
each variable has a `Status`, which says how far its object may be relied on.
The discipline is checked on the text of the programs (`Cmd.check`) and is sound
for every goroutine that keeps it, in any company (`Good`): objects with the
same status cannot be told apart by what the discipline lets one do with them.
-/

namespace Netramesh.Pooled

open Lib Function

/-! ## The discipline -/

/-- What is known of the object in a variable, from most to least: it is empty;
it is the same as in the other run as far as one can see; it is of the right
size; nothing, or there is none. -/
inductive Status
  | empty
  | live
  | raw
  | absent
  deriving DecidableEq

namespace Status

def rank : Status → Nat
  | .empty => 0
  | .live => 1
  | .raw => 2
  | .absent => 3

/-- What holds in either case. -/
def sup (a b : Status) : Status := if a.rank ≤ b.rank then b else a

end Status

/-- Slices and `bytes.Buffer`s, which grow and are put back empty. -/
def Slot.grows : Slot → Bool
  | .tmpWriter | .ipBuilder | .dstAddrBuilder => true
  | _ => false

/-- Those attached to a connection. -/
def Slot.bufio : Slot → Bool
  | .bufioHTTPReader | .bufioWriter => true
  | _ => false

theorem Slot.grows_of_bufio {k : Slot} (h : k.bufio = true) :
    k.grows = false := by
  cases k <;> first | rfl | cases h

/-- The status an operation leads to, if it is allowed. -/
def Edit.post (k : Slot) (s : Status) : Edit → Option Status
  | .append _ => if k.grows && decide (s.rank ≤ 1) then some .live else none
  | .clear => if k.grows && decide (s.rank ≤ 2) then some .empty else none
  | .reset => if k.bufio && decide (s.rank ≤ 2) then some .live else none
  | .look | .take _ => if decide (s.rank ≤ 1) then some .live else none
  | .load _ => if !k.grows && !k.bufio && decide (s.rank ≤ 2) then some .live
      else none
  | .unread _ | .stash _ | .available | .readErr =>
    if k.bufio && decide (s.rank ≤ 1) then some .live else none

/-- The status of every variable. -/
abbrev Ctx := Slot → Status

def Slot.all : List Slot :=
  [.tmpWriter, .bufioHTTPReader, .bufioWriter, .buf, .bodyBuf, .ipBuilder,
    .dstAddrBuilder]

theorem Slot.mem_all (k : Slot) : k ∈ Slot.all := by cases k <;> simp [Slot.all]

namespace Ctx

def sup (Γ Δ : Ctx) : Ctx := fun k => (Γ k).sup (Δ k)

/-- `Γ` knows at least as much as `Δ`. -/
def Le (Γ Δ : Ctx) : Prop := ∀ k, (Γ k).rank ≤ (Δ k).rank

def le (Γ Δ : Ctx) : Bool :=
  Slot.all.all fun k => decide ((Γ k).rank ≤ (Δ k).rank)

end Ctx

def Op.post (Γ : Ctx) : Op → Option Ctx
  | .edit k e =>
    match e.post k (Γ k) with
    | none => none
    | some s => some (update Γ k s)
  | .fill | .pull =>
    if decide ((Γ .bufioHTTPReader).rank ≤ 1) &&
      decide ((Γ .tmpWriter).rank ≤ 1) then
      some (update (update Γ .bufioHTTPReader .live) .tmpWriter .live)
    else none
  | .flush | .through _ =>
    if decide ((Γ .bufioWriter).rank ≤ 1) then
      some (update Γ .bufioWriter .live) else none
  | .recv | .send _ | .setStopped _ | .ask | .dial => some Γ

/-- What is known of an object out of a pool. -/
def Slot.fresh (k : Slot) : Status := if k.grows then .empty else .raw

/-- How an object has to be for being put back. -/
def Slot.due (k : Slot) : Status := if k.grows then .empty else .raw

/-- The discipline: after an action, if it is allowed. -/
def Atom.post : Atom → Ctx → Option Ctx
  | .get k, Γ => some (update Γ k k.fresh)
  | .put k, Γ => if (Γ k).rank ≤ k.due.rank then some (update Γ k .absent)
      else none
  | .op o, Γ => o.post Γ

namespace Status

theorem rank_le_sup_left (a b : Status) : a.rank ≤ (a.sup b).rank := by
  unfold sup
  split
  · assumption
  · exact Nat.le_refl _

theorem rank_le_sup_right (a b : Status) : b.rank ≤ (a.sup b).rank := by
  unfold sup
  split <;> omega

theorem sup_of_rank_le {a b : Status} (h : b.rank ≤ a.rank) : a.sup b = a := by
  unfold sup
  split
  · cases a <;> cases b <;> first | rfl | (simp only [rank] at *; omega)
  · rfl

end Status

theorem Ctx.le_iff {Γ Δ : Ctx} : Γ.le Δ = true ↔ Γ.Le Δ := by
  simp only [le, List.all_eq_true, decide_eq_true_eq]
  exact ⟨fun h k => h k k.mem_all, fun h k _ => h k⟩

def discipline : Analysis Atom Ctx where
  post := Atom.post
  sup := Ctx.sup
  le := Ctx.le
  final _ := true
  le_refl _ := Ctx.le_iff.mpr fun _ => Nat.le_refl _
  le_trans h h' := Ctx.le_iff.mpr fun k =>
    Nat.le_trans (Ctx.le_iff.mp h k) (Ctx.le_iff.mp h' k)
  le_sup_left _ _ := Ctx.le_iff.mpr fun _ => Status.rank_le_sup_left _ _
  le_sup_right _ _ := Ctx.le_iff.mpr fun _ => Status.rank_le_sup_right _ _
  sup_of_le h := funext fun k => Status.sup_of_rank_le (Ctx.le_iff.mp h k)
  final_of_le _ h := h

/-- The discipline holds from the first line on. -/
def Task.keeps (t : Task) : Bool :=
  discipline.passes (discipline.exits t.deferred) (.seq t.body .ret) fun _ =>
    .absent

theorem Task.keeps_all (t : Task) : t.keeps = true := by
  cases t <;> rfl

/-- A reader out of the pool is no good before its `Reset`. -/
example (S : Script) :
    discipline.check (fun _ => true)
      (Cmd.block [newTempWriter, get .bufioHTTPReader, S.run S.reads])
      (fun _ => .absent) = none := rfl

/-! ## What the statuses mean -/

variable {G : Type}

/-- The object has the size its pool makes them with. -/
def OwnSize (k : Slot) (o : Buffer G) : Prop :=
  k.grows = false → o.win.size = k.pool.size

/-- The objects of a variable of `g` in two runs, as far as the status says. -/
def Rel (g : G) (k : Slot) : Status → Buffer G → Buffer G → Prop
  | .empty, o, o' => k.grows = true ∧ ∃ m m', o.win = .ofMem m ∧
      o'.win = .ofMem m'
  | .live, o, o' =>
    OwnSize k o ∧ OwnSize k o' ∧ o.win.Same o'.win ∧
      (k.bufio = true → o.failed = o'.failed ∧ ∃ j,
        o.peer = some (g, j) ∧ o'.peer = some (g, j))
  | .raw, o, o' => OwnSize k o ∧ OwnSize k o'
  | .absent, _, _ => True

/-- What a pool's objects are like. -/
def Poolable (p : Pool) (o : Buffer G) : Prop :=
  match p with
  | .tempWriterBufferPool | .addrPool => ∃ m, o.win = .ofMem m
  | _ => o.win.size = p.size

variable {g : G} {k : Slot} {s s' : Status} {o o' : Buffer G}

theorem Rel.mono (h : Rel g k s o o') (hle : s.rank ≤ s'.rank) :
    Rel g k s' o o' := by
  have hlive : ∀ {o o' : Buffer G}, Rel g k .empty o o' →
      Rel g k .live o o' := by
    rintro o o' ⟨hg, m, m', ho, ho'⟩
    refine ⟨fun hf => ?_, fun hf => ?_, ?_, fun hb => ?_⟩
    · rw [hg] at hf; cases hf
    · rw [hg] at hf; cases hf
    · rw [ho, ho']; exact .ofMem m m'
    · rw [Slot.grows_of_bufio hb] at hg; cases hg
  have hraw : ∀ {o o' : Buffer G}, Rel g k .live o o' → Rel g k .raw o o' :=
    fun h => ⟨h.1, h.2.1⟩
  cases s <;> cases s' <;> first
    | exact h
    | exact trivial
    | exact hlive h
    | exact hraw h
    | exact hraw (hlive h)
    | (simp only [Status.rank] at hle; omega)

theorem poolable_new (p : Pool) : Poolable p (Pool.new p : Buffer G) := by
  cases p <;> first
    | exact ⟨_, rfl⟩
    | exact List.length_replicate

/-- Two objects out of a pool. -/
theorem rel_fresh (h : Poolable k.pool o) (h' : Poolable k.pool o') :
    Rel g k k.fresh o o' := by
  cases k <;> first
    | exact ⟨rfl, h.choose, h'.choose, h.choose_spec, h'.choose_spec⟩
    | exact ⟨fun _ => h, fun _ => h'⟩

/-- What may be put back. -/
theorem Rel.poolable (h : Rel g k s o o') (hs : s.rank ≤ k.due.rank) :
    Poolable k.pool o ∧ Poolable k.pool o' := by
  have hdue := h.mono hs
  cases k <;> first
    | (obtain ⟨_, m, m', ho, ho'⟩ := hdue; exact ⟨⟨m, ho⟩, m', ho'⟩)
    | exact ⟨hdue.1 rfl, hdue.2 rfl⟩

/-! ## Operations on one object -/

/-- A live object with its window replaced. -/
theorem Rel.withWin {win win' : Window UInt8} (h : Rel g k .live o o')
    (hsame : win.Same win')
    (hfit : k.grows = false → win.size = o.win.size ∧ win'.size = o'.win.size) :
    Rel g k .live { o with win := win } { o' with win := win' } :=
  ⟨fun hg => (hfit hg).1.trans (h.1 hg), fun hg => (hfit hg).2.trans (h.2.1 hg),
    hsame, h.2.2.2⟩

theorem OwnSize.size_eq (h : OwnSize k o) (h' : OwnSize k o')
    (hg : k.grows = false) :
    o.win.size = o'.win.size :=
  (h hg).trans (h' hg).symm

/-- As much as there is room for. -/
theorem size_push_room (win : Window UInt8) (b : Bytes) :
    (win.push (b.take (win.size - win.top))).size = win.size := by
  have := win.top_le
  have hsize : win.size = win.mem.length := rfl
  refine Window.size_push ?_
  rw [List.length_take]
  omega

/-- What the discipline lets one do with an object gives the same answer. -/
theorem Rel.apply {e : Edit} (h : Rel g k s o o') (hpost : e.post k s = some s')
    (w : Nat) (hist : Hist) :
    Rel g k s' (e.apply g w hist o).1 (e.apply g w hist o').1 ∧
      (e.apply g w hist o).2 = (e.apply g w hist o').2 := by
  cases e <;>
    simp only [Edit.post, Option.ite_none_right_eq_some, Bool.and_eq_true,
      Bool.not_eq_true', decide_eq_true_eq, Option.some.injEq] at hpost
  case append b =>
    obtain ⟨⟨hg, hs⟩, rfl⟩ := hpost
    have hl : Rel g k .live o o' := h.mono hs
    refine ⟨hl.withWin (hl.2.2.1.push _) fun hf => ?_, rfl⟩
    rw [hg] at hf
    cases hf
  case clear =>
    obtain ⟨⟨hg, hs⟩, rfl⟩ := hpost
    exact ⟨⟨hg, _, _, rfl, rfl⟩, rfl⟩
  case reset =>
    obtain ⟨⟨hb, hs⟩, rfl⟩ := hpost
    have hr : Rel g k .raw o o' := h.mono hs
    exact ⟨⟨hr.1, hr.2, .ofMem _ _, fun _ => ⟨rfl, w, rfl, rfl⟩⟩, rfl⟩
  case look =>
    obtain ⟨hs, rfl⟩ := hpost
    have hl : Rel g k .live o o' := h.mono hs
    exact ⟨hl, congrArg Obs.bytes hl.2.2.1.live⟩
  case take n =>
    obtain ⟨hs, rfl⟩ := hpost
    have hl : Rel g k .live o o' := h.mono hs
    refine ⟨hl.withWin (hl.2.2.1.skip _) fun _ => ⟨rfl, rfl⟩, ?_⟩
    show Obs.bytes (o.win.live.take _) = Obs.bytes (o'.win.live.take _)
    rw [hl.2.2.1.live]
  case unread c =>
    obtain ⟨⟨hb, hs⟩, rfl⟩ := hpost
    have hl : Rel g k .live o o' := h.mono hs
    have hsize := hl.1.size_eq hl.2.1 (Slot.grows_of_bufio hb)
    exact ⟨hl.withWin (hl.2.2.1.back hsize _) fun _ =>
      ⟨Window.size_back _ _, Window.size_back _ _⟩, rfl⟩
  case load b =>
    obtain ⟨⟨⟨hg, hb⟩, hs⟩, rfl⟩ := hpost
    have hr : Rel g k .raw o o' := h.mono hs
    refine ⟨⟨fun _ => ?_, fun _ => ?_, .load (hr.1.size_eq hr.2 hg) _,
      fun hb' => ?_⟩, rfl⟩
    · rw [← hr.1 hg]; exact Window.size_load _ _
    · rw [← hr.2 hg]; exact Window.size_load _ _
    · rw [hb] at hb'; cases hb'
  case stash b =>
    obtain ⟨⟨hb, hs⟩, rfl⟩ := hpost
    have hl : Rel g k .live o o' := h.mono hs
    have hsize := hl.1.size_eq hl.2.1 (Slot.grows_of_bufio hb)
    have hroom : o.win.size - o.win.top = o'.win.size - o'.win.top := by
      rw [hsize, hl.2.2.1.top]
    constructor
    · refine hl.withWin ?_ fun _ => ⟨size_push_room _ _, size_push_room _ _⟩
      rw [hroom]
      exact hl.2.2.1.push _
    · show Obs.count _ = Obs.count _
      rw [hroom]
  case available =>
    obtain ⟨⟨hb, hs⟩, rfl⟩ := hpost
    have hl : Rel g k .live o o' := h.mono hs
    have hsize := hl.1.size_eq hl.2.1 (Slot.grows_of_bufio hb)
    refine ⟨hl, ?_⟩
    show Obs.count _ = Obs.count _
    rw [hsize, hl.2.2.1.top]
  case readErr =>
    obtain ⟨⟨hb, hs⟩, rfl⟩ := hpost
    have hl : Rel g k .live o o' := h.mono hs
    refine ⟨⟨hl.1, hl.2.1, hl.2.2.1, fun _ => ⟨rfl, (hl.2.2.2 hb).2⟩⟩, ?_⟩
    show (if o.failed then Obs.failed else Obs.done) =
      if o'.failed then Obs.failed else Obs.done
    rw [(hl.2.2.2 hb).1]

/-! ## A goroutine in two runs -/

/-- `g` cannot tell the two states apart. -/
structure Alike (g : G) (Γ : Ctx) (W V : State G) : Prop where
  loc : (W.user g).loc = (V.user g).loc
  obj : ∀ k, Γ k ≠ .absent → ∃ r r', (W.user g).held k = some r ∧
    (V.user g).held k = some r' ∧
    Rel g k (Γ k) (W.store.heap r) (V.store.heap r')

/-- The variables of `g` have the objects it holds, each its own. -/
structure Own (g : G) (s : State G) : Prop where
  var : ∀ k r, (s.user g).held k = some r → (s.user g).var k = some r
  inj : ∀ k k' r, (s.user g).held k = some r → (s.user g).held k' = some r →
    k = k'

/-- Nothing changed but what `g` has to itself and the objects it holds. -/
structure Confined (g : G) (s s' : State G) : Prop where
  user : ∀ h, h ≠ g → s'.user h = s.user h
  var : (s'.user g).var = (s.user g).var
  held : (s'.user g).held = (s.user g).held
  deferred : (s'.user g).loc.deferred = (s.user g).loc.deferred
  next : s'.store.next = s.store.next
  free : s'.store.free = s.store.free
  heap : ∀ r, (∀ k, (s.user g).held k ≠ some r) →
    s'.store.heap r = s.store.heap r

/-- Both states go on, confined to `g`, to states `g` cannot tell apart. -/
structure Steps (g : G) (Γ : Ctx) (W W' V V' : State G) : Prop where
  alike : Alike g Γ W' V'
  left : Confined g W W'
  right : Confined g V V'

section Two

variable {Γ Δ : Ctx} {W W' W'' V V' V'' : State G}

theorem Alike.mono (h : Alike g Γ W V) (hle : Γ.Le Δ) : Alike g Δ W V := by
  refine ⟨h.loc, fun k hk => ?_⟩
  have hΓ : Γ k ≠ .absent := by
    intro habs
    have := hle k
    rw [habs] at this
    cases hΔ : Δ k <;> rw [hΔ] at this hk <;> first
      | exact hk rfl
      | (simp only [Status.rank] at this; omega)
  obtain ⟨r, r', hr, hr', hrel⟩ := h.obj k hΓ
  exact ⟨r, r', hr, hr', hrel.mono (hle k)⟩

theorem Confined.refl (s : State G) : Confined g s s :=
  ⟨fun _ _ => rfl, rfl, rfl, rfl, rfl, rfl, fun _ _ => rfl⟩

theorem Confined.trans (h : Confined g W W') (h' : Confined g W' W'') :
    Confined g W W'' := by
  refine ⟨fun x hx => (h'.user x hx).trans (h.user x hx), h'.var.trans h.var,
    h'.held.trans h.held,
    h'.deferred.trans h.deferred, h'.next.trans h.next, h'.free.trans h.free,
      fun r hr => ?_⟩
  exact (h'.heap r fun k => h.held ▸ hr k).trans (h.heap r hr)

theorem Own.confined (h : Own g W) (hc : Confined g W W') : Own g W' := by
  refine ⟨fun k r => ?_, fun k k' r => ?_⟩
  · rw [hc.held, hc.var]
    exact h.var k r
  · rw [hc.held]
    exact h.inj k k' r

theorem Steps.trans (h : Steps g Γ W W' V V') (h' : Steps g Δ W' W'' V' V'') :
    Steps g Δ W W'' V V'' :=
  ⟨h'.alike, h.left.trans h'.left, h.right.trans h'.right⟩

theorem Steps.mono (h : Steps g Γ W W' V V') (hle : Γ.Le Δ) :
    Steps g Δ W W' V V' :=
  ⟨h.alike.mono hle, h.left, h.right⟩

theorem Steps.refl (h : Alike g Γ W V) : Steps g Γ W W V V :=
  ⟨h, .refl W, .refl V⟩

theorem confined_setObj {r : Nat} (s : State G)
    (hr : (s.user g).held k = some r) (o : Buffer G) :
    Confined g s (s.setObj r o) := by
  refine ⟨fun _ _ => rfl, rfl, rfl, rfl, rfl, rfl, fun r' hr' => ?_⟩
  have hne : r' ≠ r := fun heq => hr' k (heq ▸ hr)
  exact Store.set_heap_of_ne hne ..

/-- A change to the objects of one variable. -/
theorem Alike.setObj {r r' : Nat} (h : Alike g Γ W V) (hW : Own g W)
    (hV : Own g V) (hr : (W.user g).held k = some r)
    (hr' : (V.user g).held k = some r') (hrel : Rel g k s' o o') :
    Steps g (update Γ k s') W (W.setObj r o) V (V.setObj r' o') := by
  refine ⟨⟨h.loc, fun k' hk' => ?_⟩, confined_setObj W hr o,
    confined_setObj V hr' o'⟩
  by_cases hkk : k' = k
  · subst hkk
    refine ⟨r, r', hr, hr', ?_⟩
    show Rel g k' _ ((W.store.set r o).heap r) ((V.store.set r' o').heap r')
    rw [update_self, Store.set_heap_self, Store.set_heap_self]
    exact hrel
  · rw [update_of_ne hkk] at hk' ⊢
    obtain ⟨q, q', hq, hq', hrel'⟩ := h.obj k' hk'
    have hne : q ≠ r := fun heq => hkk (hW.inj k' k q hq (heq ▸ hr))
    have hne' : q' ≠ r' := fun heq => hkk (hV.inj k' k q' hq' (heq ▸ hr'))
    refine ⟨q, q', hq, hq', ?_⟩
    show Rel g k' _ ((W.store.set r o).heap q) ((V.store.set r' o').heap q')
    rw [Store.set_heap_of_ne hne, Store.set_heap_of_ne hne']
    exact hrel'

/-- The objects of a variable that may be looked at. -/
theorem Alike.objects (h : Alike g Γ W V) (hW : Own g W) (hV : Own g V)
    (hs : (Γ k).rank ≤ 1) :
    ∃ r r', (W.user g).held k = some r ∧ (V.user g).held k = some r' ∧
      (W.user g).var k = some r ∧ (V.user g).var k = some r' ∧
      Rel g k .live (W.store.heap r) (V.store.heap r') := by
  have hk : Γ k ≠ .absent := by
    intro habs
    rw [habs] at hs
    exact absurd hs (by decide)
  obtain ⟨r, r', hr, hr', hrel⟩ := h.obj k hk
  exact ⟨r, r', hr, hr', hW.var k r hr, hV.var k r' hr', hrel.mono hs⟩

theorem le_update (hs : (Γ k).rank ≤ s.rank) : Γ.Le (update Γ k s) := by
  intro k'
  by_cases hk : k' = k
  · subst hk
    rw [update_self]
    exact hs
  · rw [update_of_ne hk]

/-! ## The operations, one by one -/

theorem Alike.tee (h : Alike g Γ W V) (hW : Own g W) (hV : Own g V)
    (hs : (Γ .tmpWriter).rank ≤ 1) (p : Bytes) :
    ∃ W' V', W.tee g p = some W' ∧ V.tee g p = some V' ∧
      Steps g (update Γ .tmpWriter .live) W W' V V' := by
  unfold State.tee
  rw [← h.loc]
  split
  · exact ⟨W, V, rfl, rfl, (Steps.refl h).mono (le_update hs)⟩
  · obtain ⟨r, r', hr, hr', hv, hv', hrel⟩ := h.objects hW hV hs
    rw [hv, hv']
    refine ⟨_, _, rfl, rfl, h.setObj hW hV hr hr'
      (hrel.withWin (hrel.2.2.1.push p) fun hg => ?_)⟩
    cases hg

variable [DecidableEq G]

@[simp] theorem user_setLoc (f : Loc → Loc) (s : State G) :
    (s.setLoc g f).user g = { s.user g with loc := f (s.user g).loc } :=
  update_self ..

theorem confined_setLoc {f : Loc → Loc} (hf : ∀ l, (f l).deferred = l.deferred)
    (s : State G) :
    Confined g s (s.setLoc g f) :=
  ⟨fun h hh => update_of_ne hh .., by rw [user_setLoc], by rw [user_setLoc],
    by rw [user_setLoc]; exact hf _, rfl, rfl, fun _ _ => rfl⟩

/-- The same change to what a goroutine has to itself. -/
theorem Alike.setLoc (h : Alike g Γ W V) (f : Loc → Loc) :
    Alike g Γ (W.setLoc g f) (V.setLoc g f) := by
  refine ⟨?_, ?_⟩
  · rw [user_setLoc, user_setLoc]
    exact congrArg f h.loc
  · intro k hk
    rw [user_setLoc, user_setLoc]
    exact h.obj k hk

theorem Steps.setLoc (h : Alike g Γ W V) {f : Loc → Loc}
    (hf : ∀ l, (f l).deferred = l.deferred) :
    Steps g Γ W (W.setLoc g f) V (V.setLoc g f) :=
  ⟨h.setLoc f, confined_setLoc hf W, confined_setLoc hf V⟩

theorem Alike.receive (h : Alike g Γ W V) (hW : Own g W) (hV : Own g V)
    (hs : (Γ .tmpWriter).rank ≤ 1) (n : Nat) :
    ∃ p W' V', W.receive g n = some (p, W') ∧ V.receive g n = some (p, V') ∧
      p.length ≤ n ∧ Steps g (update Γ .tmpWriter .live) W W' V V' := by
  have hset : Steps g Γ W (W.setLoc g fun l =>
    { l with input := l.input.drop n })
      V (V.setLoc g fun l => { l with input := l.input.drop n }) :=
        .setLoc h fun _ => rfl
  obtain ⟨W', V', hteeW, hteeV, hsteps⟩ :=
    hset.alike.tee (hW.confined hset.left)
    (hV.confined hset.right) hs ((W.user g).loc.input.take n)
  refine ⟨(W.user g).loc.input.take n, W', V', ?_, ?_, List.length_take_le _ _,
    hset.trans hsteps⟩
  · unfold State.receive
    dsimp only
    rw [hteeW]
  · unfold State.receive
    dsimp only
    rw [← h.loc, hteeV]

theorem Alike.fill (h : Alike g Γ W V) (hW : Own g W) (hV : Own g V)
    (hs : (Γ .bufioHTTPReader).rank ≤ 1) (ht : (Γ .tmpWriter).rank ≤ 1)
    (n : Nat) :
    ∃ a W' V', W.fill g n = some (a, W') ∧ V.fill g n = some (a, V') ∧
      Steps g (update (update Γ .bufioHTTPReader .live) .tmpWriter .live) W W' V
        V' := by
  obtain ⟨r, r', hr, hr', hv, hv', hrel⟩ := h.objects hW hV hs
  obtain ⟨hfit, hfit', hsame, hbufio⟩ := hrel
  obtain ⟨hfail, j, hpeer, hpeer'⟩ := hbufio rfl
  have hslide := hsame.slide
  have hsize := hfit.size_eq hfit' rfl
  have hroom : (V.store.heap r').win.slide.size -
    (V.store.heap r').win.slide.top =
      (W.store.heap r).win.slide.size - (W.store.heap r).win.slide.top := by
    rw [Window.size_slide, Window.size_slide, hsize, hslide.top]
  obtain ⟨p, W₁, V₁, hrecW, hrecV, hlen, hsteps⟩ := h.receive hW hV ht
    (min n ((W.store.heap r).win.slide.size - (W.store.heap r).win.slide.top))
  have hset : ∀ {o o' : Buffer G}, Rel g .bufioHTTPReader .live o o' →
      Steps g (update (update Γ .bufioHTTPReader .live) .tmpWriter .live) W
        (W₁.setObj r o)
        V (V₁.setObj r' o') := by
    intro o o' hrel
    have hset := hsteps.alike.setObj (hW.confined hsteps.left)
      (hV.confined hsteps.right)
      (hsteps.left.held ▸ hr) (hsteps.right.held ▸ hr') hrel
    rw [update_comm (by decide)] at hset
    exact hsteps.trans hset
  unfold State.fill
  rw [hv, hv']
  dsimp only
  rw [hpeer, hpeer']
  dsimp only
  rw [hroom, hrecW, hrecV]
  dsimp only
  split
  · refine ⟨_, _, _, rfl, rfl,
      hset ⟨fun hg => ?_, fun hg => ?_, hslide, fun _ =>
      ⟨rfl, j, rfl, rfl⟩⟩⟩
    · exact (Window.size_slide _).trans (hfit hg)
    · exact (Window.size_slide _).trans (hfit' hg)
  · -- what was read fits into the room there was
    have hle := hlen.trans (Nat.min_le_right _ _)
    refine ⟨_, _, _, rfl, rfl,
      hset ⟨fun hg => ?_, fun hg => ?_, hslide.push p, fun _ =>
      ⟨hfail, j, rfl, rfl⟩⟩⟩
    · refine (Window.size_push ?_).trans ((Window.size_slide _).trans (hfit hg))
      have := (W.store.heap r).win.slide.top_le
      show _ ≤ (W.store.heap r).win.slide.mem.length
      have : (W.store.heap r).win.slide.size =
        (W.store.heap r).win.slide.mem.length := rfl
      omega
    · refine (Window.size_push ?_).trans
        ((Window.size_slide _).trans (hfit' hg))
      rw [← hroom] at hle
      have := (V.store.heap r').win.slide.top_le
      have : (V.store.heap r').win.slide.size =
        (V.store.heap r').win.slide.mem.length := rfl
      omega

theorem Alike.pull (h : Alike g Γ W V) (hW : Own g W) (hV : Own g V)
    (hs : (Γ .bufioHTTPReader).rank ≤ 1) (ht : (Γ .tmpWriter).rank ≤ 1)
    (n : Nat) :
    ∃ a W' V', W.pull g n = some (a, W') ∧ V.pull g n = some (a, V') ∧
      Steps g (update (update Γ .bufioHTTPReader .live) .tmpWriter .live) W W' V
        V' := by
  obtain ⟨r, r', _, _, hv, hv', _, _, _, hbufio⟩ := h.objects hW hV hs
  obtain ⟨_, j, hpeer, hpeer'⟩ := hbufio rfl
  have hlive : Γ.Le (update Γ .bufioHTTPReader .live) := le_update hs
  obtain ⟨p, W₁, V₁, hrecW, hrecV, _, hsteps⟩ :=
    (h.mono hlive).receive hW hV ht n
  unfold State.pull
  rw [hv, hv']
  dsimp only
  rw [hpeer, hpeer']
  dsimp only
  rw [hrecW, hrecV]
  exact ⟨_, _, _, rfl, rfl, hsteps⟩

/-- A flush, or a write past the buffer, to a target of one's own. -/
theorem Alike.emit (h : Alike g Γ W V) (j : Nat) (p : Bytes) :
    Steps g Γ W (W.emit g j p) V (V.emit g j p) :=
  .setLoc h fun _ => rfl

theorem Alike.flush (h : Alike g Γ W V) (hW : Own g W) (hV : Own g V)
    (hs : (Γ .bufioWriter).rank ≤ 1) (n : Nat) :
    ∃ a W' V', W.flush g n = some (a, W') ∧ V.flush g n = some (a, V') ∧
      Steps g (update Γ .bufioWriter .live) W W' V V' := by
  obtain ⟨r, r', hr, hr', hv, hv', hrel⟩ := h.objects hW hV hs
  obtain ⟨hfit, hfit', hsame, hbufio⟩ := hrel
  obtain ⟨hfail, j, hpeer, hpeer'⟩ := hbufio rfl
  have hset : ∀ (p : Bytes) {o o' : Buffer G}, Rel g .bufioWriter .live o o' →
      Steps g (update Γ .bufioWriter .live) W ((W.emit g j p).setObj r o)
        V ((V.emit g j p).setObj r' o') := by
    intro p o o' hrel
    have hemit := h.emit j p
    exact hemit.trans (hemit.alike.setObj (hW.confined hemit.left)
      (hV.confined hemit.right)
      (hemit.left.held ▸ hr) (hemit.right.held ▸ hr') hrel)
  unfold State.flush
  rw [hv, hv']
  dsimp only
  rw [← hfail, hpeer, hpeer', ← hsame.live]
  split
  · exact ⟨_, _, _, rfl, rfl, (Steps.refl h).mono (le_update hs)⟩
  · dsimp only
    split
    · exact ⟨_, _, _, rfl, rfl,
        hset _ ⟨hfit, hfit', .ofMem _ _, fun _ => ⟨rfl, j, rfl, rfl⟩⟩⟩
    · refine ⟨_, _, _, rfl, rfl,
        hset _ ⟨fun hg => ?_, fun hg => ?_, (hsame.skip n).slide, fun _ =>
        ⟨rfl, j, rfl, rfl⟩⟩⟩
      · exact (Window.size_slide _).trans (hfit hg)
      · exact (Window.size_slide _).trans (hfit' hg)

theorem Alike.through (h : Alike g Γ W V) (hW : Own g W) (hV : Own g V)
    (hs : (Γ .bufioWriter).rank ≤ 1) (n : Nat) (b : Bytes) :
    ∃ a W' V', W.through g n b = some (a, W') ∧ V.through g n b = some (a, V') ∧
      Steps g (update Γ .bufioWriter .live) W W' V V' := by
  obtain ⟨r, r', hr, hr', hv, hv', hrel⟩ := h.objects hW hV hs
  obtain ⟨hfit, hfit', hsame, hbufio⟩ := hrel
  obtain ⟨hfail, j, hpeer, hpeer'⟩ := hbufio rfl
  have hemit := h.emit j (b.take n)
  unfold State.through
  rw [hv, hv']
  dsimp only
  rw [← hfail, hpeer, hpeer']
  split
  · exact ⟨_, _, _, rfl, rfl, (Steps.refl h).mono (le_update hs)⟩
  · refine ⟨_, _, _, rfl, rfl,
      hemit.trans (hemit.alike.setObj (hW.confined hemit.left)
      (hV.confined hemit.right) (hemit.left.held ▸ hr) (hemit.right.held ▸ hr')
      ⟨hfit, hfit', hsame, fun _ => ⟨rfl, j, rfl, rfl⟩⟩)⟩

/-- Whatever the discipline allows is answered alike. -/
theorem Alike.run {op : Op} (h : Alike g Γ W V) (hW : Own g W) (hV : Own g V)
    (hpost : op.post Γ = some Δ) {l l' : Label} (hn : l'.n = l.n)
    (hans : l'.answer = l.answer) :
    ∃ a W' V', op.run g l W = some (a, W') ∧ op.run g l' V = some (a, V') ∧
      Steps g Δ W W' V V' := by
  cases op with
  | edit k e =>
    rw [Op.post] at hpost
    split at hpost
    · cases hpost
    · next s' hs' =>
        cases hpost
        have hk : Γ k ≠ .absent := by
          intro habs
          rw [habs] at hs'
          cases e <;> simp [Edit.post, Status.rank] at hs'
        obtain ⟨r, r', hr, hr', hrel⟩ := h.obj k hk
        obtain ⟨hrel', hobs⟩ := hrel.apply hs' (W.user g).loc.w
          (W.user g).loc.seen
        rw [Op.run, Op.run, hW.var k r hr, hV.var k r' hr', ← h.loc]
        exact ⟨_, _, _, rfl, by rw [hobs], h.setObj hW hV hr hr' hrel'⟩
  | fill =>
    simp only [Op.post, Option.ite_none_right_eq_some, Bool.and_eq_true,
      decide_eq_true_eq, Option.some.injEq] at hpost
    obtain ⟨⟨hs, ht⟩, rfl⟩ := hpost
    rw [Op.run, Op.run, hn]
    exact h.fill hW hV hs ht l.n
  | pull =>
    simp only [Op.post, Option.ite_none_right_eq_some, Bool.and_eq_true,
      decide_eq_true_eq, Option.some.injEq] at hpost
    obtain ⟨⟨hs, ht⟩, rfl⟩ := hpost
    rw [Op.run, Op.run, hn]
    exact h.pull hW hV hs ht l.n
  | flush =>
    simp only [Op.post, Option.ite_none_right_eq_some, decide_eq_true_eq,
      Option.some.injEq] at hpost
    obtain ⟨hs, rfl⟩ := hpost
    rw [Op.run, Op.run, hn]
    exact h.flush hW hV hs l.n
  | through b =>
    simp only [Op.post, Option.ite_none_right_eq_some, decide_eq_true_eq,
      Option.some.injEq] at hpost
    obtain ⟨hs, rfl⟩ := hpost
    rw [Op.run, Op.run, hn, ← h.loc]
    exact h.through hW hV hs l.n _
  | recv =>
    cases hpost
    rw [Op.run, Op.run, hn, ← h.loc]
    exact ⟨_, _, _, rfl, rfl, .setLoc h fun _ => rfl⟩
  | send b =>
    cases hpost
    rw [Op.run, Op.run, hn, ← h.loc]
    exact ⟨_, _, _, rfl, rfl, h.emit _ _⟩
  | setStopped b =>
    cases hpost
    exact ⟨_, _, _, rfl, rfl, .setLoc h fun _ => rfl⟩
  | ask =>
    cases hpost
    rw [Op.run, Op.run, hans]
    exact ⟨_, _, _, rfl, rfl, .refl h⟩
  | dial =>
    cases hpost
    rw [Op.run, Op.run, hans]
    exact ⟨_, _, _, rfl, rfl, .setLoc h fun _ => rfl⟩

end Two

/-! ## One step -/

/-- Every object has one holder, the variables have what is held, and the pools
hold only what may be put there. -/
structure Sound (s : State G) : Prop where
  owned : s.store.Owned fun i : G × Slot => (s.user i.1).held i.2
  var : ∀ g k r, (s.user g).held k = some r → (s.user g).var k = some r
  kept : s.store.Kept Poolable

theorem Sound.own {s : State G} (h : Sound s) (g : G) : Own g s where
  var := h.var g
  inj k k' r hk hk' := congrArg Prod.snd (h.owned.inj (g, k) (g, k') r hk hk')

section Step

variable {d : Prog} {Γ Δ : Ctx} {W W' V V' : State G} {l l' : Label}
  {todo : List Prog}

/-- No other goroutine notices. -/
structure Unnoticed (g : G) (s s' : State G) : Prop where
  user : ∀ h, h ≠ g → s'.user h = s.user h
  heap : ∀ r < s.store.next, (∀ k, (s.user g).held k ≠ some r) →
    s'.store.heap r = s.store.heap r

theorem Confined.unnoticed (h : Confined g W W') : Unnoticed g W W' :=
  ⟨h.user, fun r _ hr => h.heap r hr⟩

theorem Sound.confined (h : Sound W) (hc : Confined g W W') : Sound W' := by
  have hheld : (fun i : G × Slot => (W'.user i.1).held i.2) =
      fun i => (W.user i.1).held i.2 := by
    funext i
    by_cases hi : i.1 = g
    · rw [hi, hc.held]
    · rw [hc.user i.1 hi]
  refine ⟨?_, fun g' k r => ?_, fun p r hr => ?_⟩
  · rw [hheld]
    exact h.owned.congr hc.next hc.free
  · by_cases hg : g' = g
    · rw [hg, hc.held, hc.var]
      exact h.var g k r
    · rw [hc.user g' hg]
      exact h.var g' k r
  · rw [hc.free] at hr
    rw [hc.heap r fun k hk => h.owned.notMem (g, k) r p hk hr]
    exact h.kept p r hr

/-- What is put back is held. -/
theorem Alike.due (h : Alike g Δ W V) (hs : (Δ k).rank ≤ k.due.rank) :
    ∃ r r', (W.user g).held k = some r ∧ (V.user g).held k = some r' ∧
      Poolable k.pool (W.store.heap r) ∧ Poolable k.pool (V.store.heap r') := by
  have hk : Δ k ≠ .absent := by
    intro habs
    rw [habs] at hs
    cases k <;> exact absurd hs (by decide)
  obtain ⟨r, r', hr, hr', hrel⟩ := h.obj k hk
  exact ⟨r, r', hr, hr', hrel.poolable hs⟩

variable [DecidableEq G]

theorem operate_alike {op : Op} (todo : List Prog) (hW : Own g W) (hV : Own g V)
    (h : Alike g Δ W V) (hpost : op.post Δ = some Γ) (hn : l'.n = l.n)
    (hans : l'.answer = l.answer) :
    ∃ W' V', W.operate g l op todo = some W' ∧
      V.operate g l' op todo = some V' ∧
      (W'.user g).loc.todo = todo ∧ Steps g Γ W W' V V' := by
  obtain ⟨a, W₁, V₁, hrunW, hrunV, hsteps⟩ := h.run hW hV hpost hn hans
  unfold State.operate
  rw [hrunW, hrunV]
  refine ⟨_, _, rfl, rfl, ?_, hsteps.trans (.setLoc hsteps.alike fun _ => rfl)⟩
  unfold State.observe
  rw [user_setLoc]

/-- One variable of one goroutine is changed. -/
theorem held_update (s : State G) (f : User → User) (k : Slot) (v : Option Nat)
    (hf : (f (s.user g)).held = update (s.user g).held k v) :
    (fun i : G × Slot => ((update s.user g (f (s.user g))) i.1).held i.2) =
      update (fun i : G × Slot => (s.user i.1).held i.2) (g, k) v := by
  funext ⟨g', k'⟩
  by_cases hg : g' = g
  · subst hg
    rw [update_self, hf]
    by_cases hk : k' = k
    · rw [hk, update_self, update_self]
    · rw [update_of_ne hk, update_of_ne fun heq => hk (congrArg Prod.snd heq)]
  · rw [update_of_ne hg, update_of_ne fun heq => hg (congrArg Prod.fst heq)]

theorem take_spec (h : Sound W) (htake : W.take g l k todo = some W') :
    Sound W' ∧ Unnoticed g W W' ∧ (W'.user g).loc =
      { (W.user g).loc with todo := todo } ∧
      (∀ r < W.store.next, W'.store.heap r = W.store.heap r) ∧
      ∃ r, (W'.user g).held = update (W.user g).held k (some r) ∧
        Poolable k.pool (W'.store.heap r) := by
  unfold State.take at htake
  split at htake
  · cases htake
  · next r store hget =>
      cases htake
      obtain ⟨hkept, hpool, hheap⟩ :=
        h.kept.get h.owned.free_lt (poolable_new k.pool) hget
      refine ⟨⟨?_, ?_, hkept⟩, ⟨fun g' hg => update_of_ne hg ..,
        fun r hr _ => hheap r hr⟩, ?_, hheap, r, ?_, hpool⟩
      · have howned := h.owned.get (g, k) hget
        rw [← held_update W (fun u => ⟨{ u.loc with todo := todo },
          update u.var k (some r),
          update u.held k (some r)⟩) k (some r) rfl] at howned
        exact howned
      · intro g' k' r' hr'
        by_cases hg : g' = g
        · subst hg
          simp only [update_self] at hr' ⊢
          by_cases hk : k' = k
          · subst hk
            rwa [update_self] at hr' ⊢
          · rw [update_of_ne hk] at hr' ⊢
            exact h.var g' k' r' hr'
        · simp only [update_of_ne hg] at hr' ⊢
          exact h.var g' k' r' hr'
      · simp only [update_self]
      · simp only [update_self]

theorem release_spec (todo : List Prog) (h : Sound W) {r : Nat}
    (hr : (W.user g).held k = some r)
    (hpool : Poolable k.pool (W.store.heap r)) :
    ∃ W', W.release g k todo = some W' ∧ Sound W' ∧ Unnoticed g W W' ∧
      (W'.user g).loc = { (W.user g).loc with todo := todo } ∧
      W'.store.heap = W.store.heap ∧ (W'.user g).held =
        update (W.user g).held k none := by
  unfold State.release
  rw [h.var g k r hr]
  refine ⟨_, rfl, ⟨?_, ?_, h.kept.put hpool⟩,
    ⟨fun g' hg => update_of_ne hg .., fun _ _ _ => rfl⟩,
    ?_, rfl, ?_⟩
  · have howned := h.owned.put (i := (g, k)) k.pool hr
    rw [← held_update W (fun u => { u with
      loc := { u.loc with todo := todo }, held := update u.held k none }) k none
        rfl] at howned
    exact howned
  · intro g' k' r' hr'
    by_cases hg : g' = g
    · subst hg
      simp only [update_self] at hr' ⊢
      by_cases hk : k' = k
      · subst hk
        rw [update_self] at hr'
        cases hr'
      · rw [update_of_ne hk] at hr'
        exact h.var g' k' r' hr'
    · simp only [update_of_ne hg] at hr' ⊢
      exact h.var g' k' r' hr'
  · simp only [update_self]
  · simp only [update_self]

theorem take_alike (hW : Sound W) (hV : Sound V) (h : Alike g Δ W V)
    (htW : W.take g l k todo = some W') (htV : V.take g l' k todo = some V') :
    Alike g (update Δ k k.fresh) W' V' := by
  obtain ⟨_, _, hlocW, hheapW, r, hheldW, hpoolW⟩ := take_spec hW htW
  obtain ⟨_, _, hlocV, hheapV, r', hheldV, hpoolV⟩ := take_spec hV htV
  refine ⟨by rw [hlocW, hlocV, h.loc], fun k' hk' => ?_⟩
  rw [hheldW, hheldV]
  by_cases hk : k' = k
  · subst hk
    rw [update_self, update_self, update_self]
    exact ⟨r, r', rfl, rfl, rel_fresh hpoolW hpoolV⟩
  · rw [update_of_ne hk] at hk' ⊢
    rw [update_of_ne hk, update_of_ne hk]
    obtain ⟨q, q', hq, hq', hrel⟩ := h.obj k' hk'
    refine ⟨q, q', hq, hq', ?_⟩
    rw [hheapW q (hW.owned.lt (g, k') q hq),
      hheapV q' (hV.owned.lt (g, k') q' hq')]
    exact hrel

theorem release_alike (hW : Sound W) (hV : Sound V) (h : Alike g Δ W V)
    (hs : (Δ k).rank ≤ k.due.rank) (hrW : W.release g k todo = some W')
    (hrV : V.release g k todo = some V') :
    Alike g (update Δ k .absent) W' V' := by
  obtain ⟨r, r', hr, hr', hpool, hpool'⟩ := h.due hs
  obtain ⟨W₁, heqW, _, _, hlocW, hheapW, hheldW⟩ :=
    release_spec todo hW hr hpool
  obtain ⟨V₁, heqV, _, _, hlocV, hheapV, hheldV⟩ :=
    release_spec todo hV hr' hpool'
  cases hrW.symm.trans heqW
  cases hrV.symm.trans heqV
  refine ⟨by rw [hlocW, hlocV, h.loc], fun k' hk' => ?_⟩
  by_cases hk : k' = k
  · rw [hk, update_self] at hk'
    exact absurd rfl hk'
  · rw [update_of_ne hk] at hk' ⊢
    rw [hheldW, hheldV, update_of_ne hk, update_of_ne hk, hheapW, hheapV]
    exact h.obj k' hk'

theorem advance_alike {n : Next Atom Hist} (hW : Sound W) (hV : Sound V)
    (h : Alike g Γ W V) (hd : (W.user g).loc.deferred = d)
    (hgr : discipline.Granted d Γ n Δ) (hn : l'.n = l.n)
    (hans : l'.answer = l.answer) (haW : W.advance g l n = some W')
    (haV : V.advance g l' n = some V') :
    Alike g Δ W' V' ∧
      discipline.Checks (W'.user g).loc.deferred Δ (W'.user g).loc.todo := by
  match n with
  | .goto todo =>
      obtain ⟨rfl, hchecks⟩ := hgr
      cases haW
      cases haV
      refine ⟨h.setLoc _, ?_⟩
      rw [State.goto, user_setLoc]
      exact hd ▸ hchecks
  | .leave =>
      obtain ⟨rfl, hchecks⟩ := hgr
      cases haW
      cases haV
      refine ⟨h.setLoc _, ?_⟩
      rw [user_setLoc]
      exact hd ▸ hchecks
  | .act (.get k) todo =>
      obtain ⟨⟨Ξ, hle, hpost⟩, hchecks⟩ := hgr
      cases hpost
      obtain ⟨_, _, hloc, _⟩ := take_spec hW haW
      rw [hloc]
      exact ⟨take_alike hW hV (h.mono (Ctx.le_iff.mp hle)) haW haV,
        hd ▸ hchecks⟩
  | .act (.put k) todo =>
      obtain ⟨⟨Ξ, hle, hpost⟩, hchecks⟩ := hgr
      obtain ⟨hs, hΔ⟩ := Option.ite_none_right_eq_some.mp hpost
      cases hΔ
      have h := h.mono (Ctx.le_iff.mp hle)
      obtain ⟨r, r', hr, _, hpool, _⟩ := h.due hs
      obtain ⟨W₁, heq, _, _, hloc, _⟩ := release_spec todo hW hr hpool
      cases haW.symm.trans heq
      rw [hloc]
      exact ⟨release_alike hW hV h hs haW haV, hd ▸ hchecks⟩
  | .act (.op o) todo =>
      obtain ⟨⟨Ξ, hle, hpost⟩, hchecks⟩ := hgr
      obtain ⟨W₁, V₁, heqW, heqV, ht, hsteps⟩ :=
        operate_alike todo (hW.own g) (hV.own g)
          (h.mono (Ctx.le_iff.mp hle)) hpost hn hans
      cases haW.symm.trans heqW
      cases haV.symm.trans heqV
      rw [ht, hsteps.left.deferred, hd]
      exact ⟨hsteps.alike, hchecks⟩

theorem Sound.setLoc (h : Sound W) (f : Loc → Loc) : Sound (W.setLoc g f) := by
  have hheld : ∀ g', ((W.setLoc g f).user g').held = (W.user g').held ∧
      ((W.setLoc g f).user g').var = (W.user g').var := by
    intro g'
    by_cases hg : g' = g
    · subst hg
      rw [user_setLoc]
      exact ⟨rfl, rfl⟩
    · rw [show (W.setLoc g f).user g' = W.user g' from update_of_ne hg ..]
      exact ⟨rfl, rfl⟩
  refine ⟨?_, fun g' k r => ?_, h.kept⟩
  · rw [show (fun i : G × Slot => ((W.setLoc g f).user i.1).held i.2) =
      fun i => (W.user i.1).held i.2 from
        funext fun i => congrFun (hheld i.1).1 i.2]
    exact h.owned
  · rw [(hheld g').1, (hheld g').2]
    exact h.var g' k r

theorem advance_sound {n : Next Atom Hist} (hW : Sound W) (h : Alike g Γ W W)
    (hgr : discipline.Granted d Γ n Δ) (ha : W.advance g l n = some W') :
    Sound W' ∧ Unnoticed g W W' := by
  have hset : ∀ {f : Loc → Loc}, W.setLoc g f = W' →
      Sound W' ∧ Unnoticed g W W' := by
    intro f hf
    subst hf
    exact ⟨hW.setLoc f, fun h hh => update_of_ne hh .., fun _ _ _ => rfl⟩
  match n with
  | .goto todo => exact hset (Option.some.inj ha)
  | .leave => exact hset (Option.some.inj ha)
  | .act (.get k) todo =>
      obtain ⟨hsound, hunnoticed, _⟩ := take_spec hW ha
      exact ⟨hsound, hunnoticed⟩
  | .act (.put k) todo =>
      obtain ⟨⟨Ξ, hle, hpost⟩, _⟩ := hgr
      obtain ⟨r, _, hr, _, hpool, _⟩ :=
        (h.mono (Ctx.le_iff.mp hle)).due
          (Option.ite_none_right_eq_some.mp hpost).1
      obtain ⟨W₁, heq, hsound, hunnoticed, _⟩ := release_spec todo hW hr hpool
      cases ha.symm.trans heq
      exact ⟨hsound, hunnoticed⟩
  | .act (.op o) todo =>
      obtain ⟨⟨Ξ, hle, hpost⟩, _⟩ := hgr
      obtain ⟨W₁, _, heq, _, _, hsteps⟩ :=
        operate_alike todo (hW.own g) (hW.own g)
        (h.mono (Ctx.le_iff.mp hle)) hpost (l := l) rfl rfl
      cases ha.symm.trans heq
      exact ⟨hW.confined hsteps.left, hsteps.left.unnoticed⟩

/-- A goroutine that keeps the discipline never finds a variable empty. -/
theorem advance_progress {n : Next Atom Hist} (hpick : l.pick = none)
    (hV : Sound V) (h : Alike g Γ V V) (hgr : discipline.Granted d Γ n Δ) :
    ∃ V', V.advance g l n = some V' := by
  match n with
  | .goto todo => exact ⟨_, rfl⟩
  | .leave => exact ⟨_, rfl⟩
  | .act (.get k) todo =>
      unfold State.advance State.take Store.get
      rw [hpick]
      exact ⟨_, rfl⟩
  | .act (.put k) todo =>
      obtain ⟨⟨Ξ, hle, hpost⟩, _⟩ := hgr
      obtain ⟨r, _, hr, _, hpool, _⟩ :=
        (h.mono (Ctx.le_iff.mp hle)).due
          (Option.ite_none_right_eq_some.mp hpost).1
      obtain ⟨V', heq, _⟩ := release_spec todo hV hr hpool
      exact ⟨V', heq⟩
  | .act (.op o) todo =>
      obtain ⟨⟨Ξ, hle, hpost⟩, _⟩ := hgr
      obtain ⟨V', _, heq, _⟩ := operate_alike todo (hV.own g) (hV.own g)
        (h.mono (Ctx.le_iff.mp hle)) hpost (l := l) rfl rfl
      exact ⟨V', heq⟩

end Step

/-! ## Whole runs -/

/-- All goroutines keep the discipline, with what `Γ` says about their
variables. -/
structure Good (Γ : G → Ctx) (s : State G) : Prop extends Sound s where
  self : ∀ g, Alike g (Γ g) s s
  checks : ∀ g, discipline.Checks (s.user g).loc.deferred (Γ g)
    (s.user g).loc.todo

section Runs

variable {Γ Δ : G → Ctx} {Ψ : Ctx} {W W' V V' : State G} {l : Label} {h : G}

theorem Unnoticed.refl (s : State G) : Unnoticed g s s :=
  ⟨fun _ _ => rfl, fun _ _ _ => rfl⟩

/-- What a goroutine cannot tell apart stays so when others take steps. -/
theorem Alike.apart (ha : Alike h Ψ W V) (hne : h ≠ g) (hW : Sound W)
    (hV : Sound V) (haW : Unnoticed g W W') (haV : Unnoticed g V V') :
    Alike h Ψ W' V' := by
  have hheap : ∀ {s s' : State G} {k r}, Sound s → Unnoticed g s s' →
    (s.user h).held k = some r →
      s'.store.heap r = s.store.heap r := by
    intro s s' k r hs hunnoticed hr
    refine hunnoticed.heap r (hs.owned.lt (h, k) r hr) fun k' hk' => ?_
    exact hne (congrArg Prod.fst (hs.owned.inj (h, k) (g, k') r hr hk'))
  refine ⟨?_, fun k hk => ?_⟩
  · rw [haW.user h hne, haV.user h hne]
    exact ha.loc
  · rw [haW.user h hne, haV.user h hne]
    obtain ⟨r, r', hr, hr', hrel⟩ := ha.obj k hk
    refine ⟨r, r', hr, hr', ?_⟩
    rw [hheap hW haW hr, hheap hV haV hr']
    exact hrel

/-- An object that vanishes from a pool was nobody's. -/
theorem Good.drop (hW : Good Γ W) (p : Pool) (i : Nat) :
    Good Γ { W with store := W.store.drop p i } where
  owned := hW.owned.drop p i
  var := hW.var
  kept := hW.kept.drop p i
  self := fun g => ⟨rfl, (hW.self g).obj⟩
  checks := hW.checks

theorem good_init (task : G → Task) (input : G → Bytes) :
    Good (fun _ _ => .absent) (init task input) where
  owned :=
    { lt := fun _ _ h => by cases h
      free_lt := fun _ _ h => absurd h List.not_mem_nil
      inj := fun _ _ _ h => by cases h
      notMem := fun _ _ _ h => by cases h
      nodup := fun _ => List.nodup_nil
      disjoint := fun _ _ _ h => absurd h List.not_mem_nil }
  var := fun _ _ _ h => by cases h
  kept := fun _ _ h => absurd h List.not_mem_nil
  self := fun _ => ⟨rfl, fun _ hk => absurd rfl hk⟩
  checks := fun g => Analysis.checks_of_passes_seq (task g).keeps_all

variable [DecidableEq G]

/-- All goroutines keep it after a step of one of them. -/
theorem Good.advance (hW : Good Γ W) {W' : State G} (hsound : Sound W')
    (hunnoticed : Unnoticed g W W') (hself : Alike g Ψ W' W')
    (hchecks : discipline.Checks (W'.user g).loc.deferred Ψ
      (W'.user g).loc.todo) :
    Good (update Γ g Ψ) W' := by
  refine ⟨hsound, fun g' => ?_, fun g' => ?_⟩
  · by_cases hg : g' = g
    · subst hg
      rw [update_self]
      exact hself
    · rw [update_of_ne hg]
      exact (hW.self g').apart hg hW.toSound hW.toSound hunnoticed hunnoticed
  · by_cases hg : g' = g
    · subst hg
      rw [update_self]
      exact hchecks
    · rw [update_of_ne hg, hunnoticed.user g' hg]
      exact hW.checks g'

/-- A step of `g` in one run can be taken in the other with a new object. -/
theorem Good.step (hW : Good Γ W) (hV : Good Δ V) (heq : Γ g = Δ g)
    (h : Alike g (Γ g) W V) (hstep : step W (.run g l) = some W') :
    ∃ V' Ψ, step V (.run g { l with pick := none }) = some V' ∧
      Good (update Γ g Ψ) W' ∧
      Good (update Δ g Ψ) V' ∧ Alike g Ψ W' V' ∧ Unnoticed g W W' ∧
        Unnoticed g V V' := by
  unfold Pooled.step at hstep ⊢
  dsimp only at hstep ⊢
  rw [← h.loc]
  cases htodo : (W.user g).loc.todo with
  | nil => rw [htodo] at hstep; cases hstep
  | cons c cs =>
      rw [htodo] at hstep
      dsimp only at hstep ⊢
      have hchecks := hW.checks g
      rw [htodo] at hchecks
      obtain ⟨Ψ, hgr⟩ := hchecks.next (W.user g).loc.seen
      have hselfV := heq ▸ hV.self g
      have hdV : (V.user g).loc.deferred = (W.user g).loc.deferred := by
        rw [h.loc]
      let l' : Label := { l with pick := none }
      obtain ⟨V', hV'⟩ := advance_progress (l := l') rfl hV.toSound hselfV hgr
      obtain ⟨hsoundW, hunnoticedW⟩ :=
        advance_sound hW.toSound (hW.self g) hgr hstep
      obtain ⟨hsoundV, hunnoticedV⟩ := advance_sound hV.toSound hselfV hgr hV'
      obtain ⟨haW, hkW⟩ := advance_alike hW.toSound hW.toSound
        (hW.self g) rfl hgr rfl rfl hstep hstep
      obtain ⟨haV, hkV⟩ :=
        advance_alike hV.toSound hV.toSound hselfV hdV hgr rfl rfl hV' hV'
      obtain ⟨halike, _⟩ := advance_alike hW.toSound hV.toSound h rfl hgr
        (show l'.n = l.n from rfl) (show l'.answer = l.answer from
          rfl) hstep hV'
      exact ⟨V', Ψ, hV', hW.advance hsoundW hunnoticedW haW hkW,
        hV.advance hsoundV hunnoticedV haV hkV, halike, hunnoticedW,
          hunnoticedV⟩

variable {κ : Type} [DecidableEq κ] {conn : G → κ} {a : κ}

/-- The actions of the goroutines of one connection, all objects new. -/
def alone (conn : G → κ) (a : κ) : Act G → Option (Act G)
  | .run g l => if conn g = a then some (.run g { l with pick := none })
      else none
  | .drop .. => none

/-- The two runs, of all goroutines and of those of one connection. -/
structure Pair (conn : G → κ) (a : κ) (Γ Δ : G → Ctx) (W V : State G) :
    Prop where
  left : Good Γ W
  right : Good Δ V
  ctx : ∀ g, conn g = a → Γ g = Δ g
  alike : ∀ g, conn g = a → Alike g (Γ g) W V

theorem Pair.step {act : Act G} (h : Pair conn a Γ Δ W V)
    (hstep : Pooled.step W act = some W') :
    ∃ V' Γ' Δ', exec Pooled.step V (alone conn a act).toList = some V' ∧
      Pair conn a Γ' Δ' W' V' := by
  cases act with
  | drop p i =>
      cases hstep
      refine ⟨V, Γ, Δ, rfl, h.left.drop p i, h.right, h.ctx, fun g hg => ?_⟩
      exact ⟨(h.alike g hg).loc, (h.alike g hg).obj⟩
  | run g l =>
      by_cases hg : conn g = a
      · obtain ⟨V', Ψ, hV', hgoodW, hgoodV, halike, hunnoticedW, hunnoticedV⟩ :=
          h.left.step h.right (h.ctx g hg) (h.alike g hg) hstep
        refine ⟨V', _, _, ?_, hgoodW, hgoodV, fun g' hg' => ?_,
          fun g' hg' => ?_⟩
        · rw [alone, if_pos hg, Option.toList_some, exec, hV']
          rfl
        · by_cases heq : g' = g
          · rw [heq, update_self, update_self]
          · rw [update_of_ne heq, update_of_ne heq]
            exact h.ctx g' hg'
        · by_cases heq : g' = g
          · subst heq
            rw [update_self]
            exact halike
          · rw [update_of_ne heq]
            exact (h.alike g' hg').apart heq h.left.toSound h.right.toSound
              hunnoticedW hunnoticedV
      · -- a step of another connection
        obtain ⟨_, Ψ, _, hgoodW, _, _, hunnoticedW, _⟩ :=
          h.left.step h.left rfl (h.left.self g) hstep
        refine ⟨V, _, Δ, ?_, hgoodW, h.right, fun g' hg' => ?_,
          fun g' hg' => ?_⟩
        · rw [alone, if_neg hg]
          rfl
        · have hne : g' ≠ g := fun heq => hg (heq ▸ hg')
          rw [update_of_ne hne]
          exact h.ctx g' hg'
        · have hne : g' ≠ g := fun heq => hg (heq ▸ hg')
          rw [update_of_ne hne]
          exact (h.alike g' hg').apart hne h.left.toSound h.right.toSound
            hunnoticedW (.refl V)

theorem Pair.run {acts : List (Act G)} (h : Pair conn a Γ Δ W V)
    (hrun : exec Pooled.step W acts = some W') :
    ∃ V' Γ' Δ', exec Pooled.step V (acts.filterMap (alone conn a)) = some V' ∧
      Pair conn a Γ' Δ' W' V' := by
  induction acts generalizing Γ Δ W V with
  | nil =>
      cases hrun
      exact ⟨V, Γ, Δ, rfl, h⟩
  | cons act acts ih =>
      rw [exec] at hrun
      split at hrun
      · cases hrun
      · next W₁ hW₁ =>
          obtain ⟨V₁, Γ₁, Δ₁, hV₁, hpair⟩ := h.step hW₁
          obtain ⟨V', Γ', Δ', hV', hpair'⟩ := ih hpair hrun
          refine ⟨V', Γ', Δ', ?_, hpair'⟩
          have hcons : (act :: acts).filterMap (alone conn a) =
              (alone conn a act).toList ++ acts.filterMap (alone conn a) := by
            rw [List.filterMap_cons]
            cases alone conn a act <;> rfl
          rw [hcons, exec_append hV₁]
          exact hV'

/-- In every run of any number of goroutines, with the pools handing out
whatever was put back: no object has two holders, none that is held is in a
pool, and the goroutines of any one connection are where they are when they take
their steps alone with new objects, with the same written to their peers and the
same seen, the destination among it. -/
theorem pools_isolated (task : G → Task) (input : G → Bytes) (conn : G → κ)
    (a : κ) (acts : List (Act G)) (s : State G)
    (hrun : exec step (init task input) acts = some s) :
    (∀ g k g' k' r, (s.user g).held k = some r → (s.user g').held k' = some r →
      g = g' ∧ k = k') ∧
    (∀ g k r p, (s.user g).held k = some r → r ∉ s.store.free p) ∧
    ∃ t, exec step (init task input) (acts.filterMap (alone conn a)) = some t ∧
      ∀ g, conn g = a → (t.user g).loc = (s.user g).loc := by
  have hinit : Pair conn a (fun _ _ => .absent) (fun _ _ => .absent)
    (init task input)
      (init task input) :=
    ⟨good_init task input, good_init task input, fun _ _ => rfl,
      fun g _ => (good_init task input).self g⟩
  obtain ⟨t, Γ, Δ, ht, hpair⟩ := hinit.run hrun
  refine ⟨fun g k g' k' r hr hr' => ?_,
    fun g k r p => hpair.left.owned.notMem (g, k) r p,
    t, ht, fun g hg => (hpair.alike g hg).loc.symm⟩
  have heq := hpair.left.owned.inj (g, k) (g', k') r hr hr'
  exact ⟨congrArg Prod.fst heq, congrArg Prod.snd heq⟩

end Runs

/-- Two connections, the second begun when the first has its destination. -/
def twoConnections : State Bool :=
  init (fun second => .connection
    (if second then ⟨31, 144, 10, 0, 0, 255⟩ else ⟨0, 80, 10, 0, 0, 9⟩))
    fun _ => []

/-- The second takes from the pool what the first put there. -/
def reusing : List (Act Bool) :=
  List.replicate 47 (.run false ⟨none, 0, .done⟩) ++
    List.replicate 47 (.run true ⟨some 0, 0, .done⟩)

theorem pools_isolated_reused :
    ∃ s t, exec step twoConnections reusing = some s ∧ s.store.next = 2 ∧
      (s.user true).loc.todo = [] ∧
      exec step twoConnections (reusing.filterMap (alone id true)) = some t ∧
      (t.user true).loc = (s.user true).loc := by
  have hsome : (exec step twoConnections reusing).any
      (fun s => s.store.next == 2 && (s.user true).loc.todo.isEmpty) =
        true := by decide +kernel
  obtain ⟨s, hs, hdone⟩ := (Option.any_eq_true _ _).mp hsome
  rw [Bool.and_eq_true, beq_iff_eq, List.isEmpty_iff] at hdone
  obtain ⟨_, _, t, ht, hloc⟩ := pools_isolated _ _ id true reusing s hs
  exact ⟨s, t, hs, hdone.1, hdone.2, ht, hloc true rfl⟩

end Netramesh.Pooled
