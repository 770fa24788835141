import Netramesh.Lib.System
import Netramesh.Transport.MutexQueue

/-!
# `MutexQueue` is a FIFO lock

A caller of `Lock` draws a ticket: the number of the mutex it appends. Three
counts describe a state: how many tickets were drawn (`next`), how many callers
have returned from `Lock`, and how many mutexes were removed. The list holds
the tickets from `removed` on, in order; at most one caller has returned and
not been removed, and its ticket is `removed`. Whoever holds another ticket
waits for the one before, whose mutex stays locked until that one is removed.

`Standing` says what a goroutine may rely on at each statement. It speaks of
the counts and of the mutexes the goroutine has to do with, so a step of
another one is checked against it once for each kind of change.
-/

namespace Netramesh.Proofs

open Transport Lib

variable {γ : Type}

/-- The ticket of a goroutine, from the push to the removal. -/
def ticket : LockPC → Option Nat
  | .lockFirst m | .unlockFirst m | .lockOwn _ m | .unlockOwn _ m
      | .lockTail _ m
  | .unlockTail _ m | .returning m | .holding m | .unlocking m | .front m
      | .remove m _ => some m
  | _ => none

/-- The goroutine is in the part protected by `mq.mu`. -/
def guarded : LockPC → Bool
  | .idle | .lockTail .. | .unlockTail .. | .returning _ | .holding _
      | .unlocking _ => false
  | _ => true

/-- The goroutine has the lock: `Lock` has returned and its mutex is in the
list. -/
def hasLock : LockPC → Bool
  | .holding _ | .unlocking _ | .front _ | .remove .. => true
  | _ => false

/-! ## The invariant -/

/-- The goroutine drew the ticket, and it is still in the list. -/
def Drawn (s : LockState γ) (g : γ) (m : Nat) : Prop :=
  s.appended[m]? = some g ∧ s.removed ≤ m

/-- It is the turn of ticket `m`, and nobody has returned with it. -/
def Due (s : LockState γ) (m : Nat) : Prop :=
  m = s.removed ∧ s.returned.length = m

/-- The caller with ticket `m` has returned. -/
def Entered (s : LockState γ) (m : Nat) : Prop :=
  m = s.removed ∧ s.returned.length = m + 1

/-- What a goroutine may rely on at each statement. -/
def Standing (s : LockState γ) (g : γ) : LockPC → Prop
  | .idle | .checkLen | .unlockLast => True
  | .pushFirst => s.removed = s.next
  | .back => s.removed < s.next
  | .push tail => s.removed < s.next ∧ tail + 1 = s.next
  | .lockFirst m => Drawn s g m ∧ m + 1 = s.next ∧ Due s m
  | .unlockFirst m | .returning m => Drawn s g m ∧ Due s m ∧ s.locked m = true
  | .lockOwn tail m => Drawn s g m ∧ m + 1 = s.next ∧ tail + 1 = m ∧
      s.returned.length ≤ m
  | .unlockOwn tail m | .lockTail tail m =>
    Drawn s g m ∧ tail + 1 = m ∧ s.returned.length ≤ m ∧ s.locked m = true
  | .unlockTail tail m =>
    Drawn s g m ∧ tail + 1 = m ∧ Due s m ∧ s.locked m = true ∧
      s.locked tail = true
  | .holding m | .unlocking m | .front m =>
      Drawn s g m ∧ Entered s m ∧ s.locked m = true
  | .remove m el => Drawn s g m ∧ Entered s m ∧ s.locked m = true ∧ el = some m
  | .release f => f + 1 = s.removed ∧ s.locked f = true

/-- `mq.mu` is locked while somebody is behind it, and only one is. -/
structure Guard (s : LockState γ) : Prop where
  mu : ∀ g, guarded (s.pc g) = true → s.mu = true
  alone : ∀ g h, guarded (s.pc g) = true → guarded (s.pc h) = true → g = h

structure FifoInv (s : LockState γ) : Prop where
  sane : s.crashed = false
  list : s.muList = List.range' s.removed (s.next - s.removed)
  removed_le : s.removed ≤ s.next
  drawn : s.appended.length = s.next
  order : s.returned <+: s.appended
  count : s.returned.length = s.removed ∨ s.returned.length = s.removed + 1
  owner : ∀ m, s.removed ≤ m → m < s.next → ∃ g, ticket (s.pc g) = some m
  guard : Guard s
  standing : ∀ g, Standing s g (s.pc g)
  /-- A mutex is unlocked by the one who removed it before its waiter has it. -/
  apart : ∀ g h f m, s.pc g = .release f → s.pc h ≠ .unlockTail f m

theorem fifoInv_init : FifoInv ({} : LockState γ) where
  sane := rfl
  list := rfl
  removed_le := Nat.le_refl _
  drawn := rfl
  order := List.prefix_refl _
  count := .inl rfl
  owner := fun m _ hm => absurd hm (Nat.not_lt_zero m)
  guard := ⟨fun _ hg => (by cases hg), fun _ _ hg => (by cases hg)⟩
  standing := fun _ => trivial
  apart := fun _ _ _ _ hg => by cases hg

/-! ## What a step of another goroutine leaves -/

section Frame

variable {s t : LockState γ} {g h : γ} {pc : LockPC}

theorem drawn_of_ticket (hst : Standing s g pc) {m : Nat}
    (hm : ticket pc = some m) :
    Drawn s g m := by
  cases pc <;> cases hm <;> exact hst.1

/-- Only mutexes were locked. -/
theorem standing_of_lock (hremoved : t.removed = s.removed)
    (hnext : t.next = s.next) (hreturned : t.returned = s.returned)
    (happended : t.appended = s.appended)
    (hlocked : ∀ m, s.locked m = true → t.locked m = true)
    (hst : Standing s h pc) :
    Standing t h pc := by
  cases pc <;> simp only [Standing, Drawn, Due, Entered, hremoved, hnext,
    hreturned, happended]
    at hst ⊢ <;> grind

/-- A mutex was appended by one who has the guard. -/
theorem standing_of_push (hguard : guarded pc = false)
    (hremoved : t.removed = s.removed) (hreturned : t.returned = s.returned)
    (happended : t.appended = s.appended ++ [g]) (hlocked : t.locked = s.locked)
    (hst : Standing s h pc) : Standing t h pc := by
  cases pc <;> simp only [Standing, Drawn, Due, Entered, guarded, hremoved,
    hreturned, happended, hlocked, reduceCtorEq] at hst hguard ⊢ <;> grind

/-- A mutex that is no longer in the list was unlocked. -/
theorem standing_of_unlock {x : Nat} (hx : x < s.removed)
    (hrelease : pc ≠ .release x) (htail : ∀ m, pc ≠ .unlockTail x m)
    (hremoved : t.removed = s.removed) (hnext : t.next = s.next)
    (hreturned : t.returned = s.returned) (happended : t.appended = s.appended)
    (hlocked : t.locked = Function.update s.locked x false)
    (hst : Standing s h pc) :
    Standing t h pc := by
  cases pc <;> simp only [Standing, Drawn, Due, Entered, hremoved, hnext,
    hreturned, happended, hlocked, Function.update_apply] at hst ⊢ <;> grind

/-- The front was removed by one who has the guard. -/
theorem standing_of_remove (hguard : guarded pc = false)
    (hticket : ticket pc ≠ some s.removed)
    (hremoved : t.removed = s.removed + 1) (hreturned : t.returned = s.returned)
    (happended : t.appended = s.appended) (hlocked : t.locked = s.locked)
    (hst : Standing s h pc) : Standing t h pc := by
  cases pc <;> simp only [Standing, Drawn, Due, Entered, guarded, ticket,
    hremoved, hreturned,
    happended, hlocked, reduceCtorEq] at hst hguard hticket ⊢ <;> grind

/-- A caller with the ticket `removed` returned from `Lock`. -/
theorem standing_of_return (hticket : ticket pc ≠ some s.removed)
    (hcount : s.returned.length = s.removed) (hremoved : t.removed = s.removed)
    (hnext : t.next = s.next) (hreturned : t.returned = s.returned ++ [g])
    (happended : t.appended = s.appended) (hlocked : t.locked = s.locked)
    (hst : Standing s h pc) : Standing t h pc := by
  cases pc <;> simp only [Standing, Drawn, Due, Entered, ticket, hremoved,
    hnext, hreturned, happended, hlocked, List.length_append,
      List.length_singleton] at hst hticket ⊢ <;> grind

end Frame

/-! ## The guard -/

section Guard

variable {s t : LockState γ} {g : γ} {pc : LockPC}

/-- Whoever else there is does not have the guard. -/
theorem Guard.others (hs : Guard s) (hg : guarded (s.pc g) = true) {h : γ}
    (hne : h ≠ g) :
    guarded (s.pc h) = false := by
  rw [Bool.eq_false_iff]
  intro hh
  exact hne (hs.alone h g hh hg)

variable [DecidableEq γ]

theorem Guard.stay (hs : Guard s) (hpc : t.pc = Function.update s.pc g pc)
    (hmu : t.mu = s.mu) (hguard : guarded pc = guarded (s.pc g)) : Guard t := by
  have hsame : ∀ h, guarded (t.pc h) = guarded (s.pc h) := by
    intro h
    rw [hpc, Function.update_apply]
    split
    · next heq => rw [heq, hguard]
    · rfl
  refine ⟨?_, ?_⟩
  · intro h hh
    rw [hmu]
    exact hs.mu h (hsame h ▸ hh)
  · intro h h' hh hh'
    exact hs.alone h h' (hsame h ▸ hh) (hsame h' ▸ hh')

theorem Guard.enter (hs : Guard s) (hpc : t.pc = Function.update s.pc g pc)
    (hfree : s.mu = false) (hmu : t.mu = true) : Guard t := by
  have hnone : ∀ h, guarded (t.pc h) = true → h = g := by
    intro h hh
    rw [hpc, Function.update_apply] at hh
    split at hh
    · next heq => exact heq
    · have hlocked := hs.mu h hh
      rw [hfree] at hlocked
      cases hlocked
  exact ⟨fun _ _ => hmu, fun h h' hh hh' =>
    (hnone h hh).trans (hnone h' hh').symm⟩

theorem Guard.leave (hs : Guard s) (hpc : t.pc = Function.update s.pc g pc)
    (hwas : guarded (s.pc g) = true) (hguard : guarded pc = false) :
    Guard t := by
  have hnone : ∀ h, guarded (t.pc h) = false := by
    intro h
    rw [hpc, Function.update_apply]
    split
    · exact hguard
    · next hne =>
        rw [Bool.eq_false_iff]
        intro hh
        exact hne (hs.alone h g hh hwas)
  refine ⟨fun h hh => ?_, fun h _ hh => ?_⟩
  · rw [hnone h] at hh
    cases hh
  · rw [hnone h] at hh
    cases hh

end Guard

/-! ## The steps -/

section Steps

variable {s t : LockState γ} {g : γ} {pc : LockPC}

/-- No two goroutines have one ticket. -/
theorem FifoInv.ticket_inj (hs : FifoInv s) {g h : γ} {m : Nat}
    (hg : ticket (s.pc g) = some m) (hh : ticket (s.pc h) = some m) :
    g = h := by
  have h1 := (drawn_of_ticket (hs.standing g) hg).1
  have h2 := (drawn_of_ticket (hs.standing h) hh).1
  exact Option.some.inj (h1.symm.trans h2)

/-- The mutex before a ticket is unlocked only when the ticket is due. -/
theorem FifoInv.due_of_unlocked (hs : FifoInv s) {tail m : Nat}
    (hpc : s.pc g = .lockTail tail m) (hfree : s.locked tail = false) :
    tail < s.removed ∧ Due s m := by
  have hst := hs.standing g
  rw [hpc] at hst
  obtain ⟨⟨happ, hle⟩, htail, hlen, _⟩ := hst
  have hlt : m < s.next := hs.drawn ▸ (List.getElem?_eq_some_iff.mp happ).1
  have hgone : tail < s.removed := by
    by_contra hge
    obtain ⟨h, hh⟩ := hs.owner tail (by omega) (by omega)
    -- its owner has locked it, unless it is just about to, and then it is the
    -- last
    have hstanding := hs.standing h
    cases hp : s.pc h <;> rw [hp] at hh hstanding <;> cases hh <;>
      simp only [Standing, hfree, Bool.false_eq_true, and_false,
        false_and] at hstanding
    · omega
    · omega
  refine ⟨hgone, by omega, ?_⟩
  rcases hs.count with hcount | hcount <;> omega

theorem concat_prefix_of_getElem? {l m : List γ} (h : l <+: m)
    (hg : m[l.length]? = some g) :
    l ++ [g] <+: m := by
  obtain ⟨r, rfl⟩ := h
  rw [List.getElem?_append_right (Nat.le_refl _), Nat.sub_self] at hg
  cases r with
  | nil => cases hg
  | cons a r =>
      cases hg
      exact ⟨r, by simp⟩

variable [DecidableEq γ]

/-- Every statement of a state after a step of `g`, given that of `g` itself. -/
theorem standing_of_update (hpc : t.pc = Function.update s.pc g pc)
    (hown : Standing t g pc) (hothers : ∀ h, h ≠ g → Standing t h (s.pc h)) :
    ∀ h, Standing t h (t.pc h) := by
  intro h
  rw [hpc, Function.update_apply]
  split
  · next heq => exact heq ▸ hown
  · next hne => exact hothers h hne

theorem apart_of_update (hs : FifoInv s)
    (hpc : t.pc = Function.update s.pc g pc)
    (hrelease : ∀ f m h, pc = .release f → h ≠ g → s.pc h ≠ .unlockTail f m)
    (htail : ∀ f m h, pc = .unlockTail f m → h ≠ g → s.pc h ≠ .release f) :
    ∀ h h' f m, t.pc h = .release f → t.pc h' ≠ .unlockTail f m := by
  intro h h' f m hh hh'
  rw [hpc, Function.update_apply] at hh hh'
  split at hh
  · split at hh'
    · rw [hh] at hh'
      cases hh'
    · next hne => exact hrelease f m h' hh hne hh'
  · next hne =>
      split at hh'
      · exact htail f m h hh' hne hh
      · exact hs.apart h h' f m hh hh'

/-- What a step leaves that neither pushes nor removes, nor returns. -/
structure SameCounts (s t : LockState γ) : Prop where
  crashed : t.crashed = s.crashed
  muList : t.muList = s.muList
  next : t.next = s.next
  appended : t.appended = s.appended
  returned : t.returned = s.returned
  removed : t.removed = s.removed

/-- A step that leaves the counts alone and keeps the ticket. -/
theorem FifoInv.keep (hs : FifoInv s) (hq : SameCounts s t)
    (hpc : t.pc = Function.update s.pc g pc)
    (hticket : ticket pc = ticket (s.pc g)) (hguard : Guard t)
    (hstanding : ∀ h, Standing t h (t.pc h))
    (hapart : ∀ h h' f m, t.pc h = .release f → t.pc h' ≠ .unlockTail f m) :
    FifoInv t where
  sane := hq.crashed.trans hs.sane
  list := by rw [hq.muList, hq.removed, hq.next, hs.list]
  removed_le := by rw [hq.removed, hq.next]; exact hs.removed_le
  drawn := by rw [hq.appended, hq.next]; exact hs.drawn
  order := by rw [hq.appended, hq.returned]; exact hs.order
  count := by rw [hq.removed, hq.returned]; exact hs.count
  owner := by
    intro m hm hm'
    rw [hq.removed] at hm
    rw [hq.next] at hm'
    obtain ⟨h, hh⟩ := hs.owner m hm hm'
    refine ⟨h, ?_⟩
    rw [hpc, Function.update_apply]
    split
    · next heq => rw [hticket, ← heq, hh]
    · exact hh
  guard := hguard
  standing := hstanding
  apart := hapart

/-- The same for a step that unlocks nothing and is not at the end of a wait. -/
theorem FifoInv.advance (hs : FifoInv s) (hq : SameCounts s t)
    (hpc : t.pc = Function.update s.pc g pc)
    (hlocked : ∀ m, s.locked m = true → t.locked m = true)
    (hticket : ticket pc = ticket (s.pc g)) (hguard : Guard t)
    (hown : Standing t g pc) (hrelease : ∀ f, pc ≠ .release f)
    (htail : ∀ f m h, pc = .unlockTail f m → h ≠ g → s.pc h ≠ .release f) :
    FifoInv t := by
  refine hs.keep hq hpc hticket hguard (standing_of_update hpc hown ?_)
    (apart_of_update hs hpc (fun f _ _ hf => absurd hf (hrelease f)) htail)
  intro h _
  exact standing_of_lock hq.removed hq.next hq.returned hq.appended hlocked
    (hs.standing h)

/-- A step that only moves `g`. -/
theorem FifoInv.goto (hs : FifoInv s) (hticket : ticket pc = ticket (s.pc g))
    (hguard : guarded pc = guarded (s.pc g))
    (hown : Standing (s.move g pc) g pc) (hrelease : ∀ f, pc ≠ .release f)
    (htail : ∀ f m, pc ≠ .unlockTail f m) :
    FifoInv (s.move g pc) :=
  hs.advance ⟨rfl, rfl, rfl, rfl, rfl, rfl⟩ rfl (fun _ h => h) hticket
    (hs.guard.stay rfl rfl hguard) hown hrelease fun f m _ hf =>
      absurd hf (htail f m)

theorem FifoInv.lockMu (hs : FifoInv s) (hstep : s.lockMu g pc = some t)
    (hticket : ticket pc = ticket (s.pc g)) (hown : Standing (s.move g pc) g pc)
    (hrelease : ∀ f, pc ≠ .release f) (htail : ∀ f m, pc ≠ .unlockTail f m) :
    FifoInv t := by
  unfold LockState.lockMu at hstep
  split at hstep
  · cases hstep
  · next hfree =>
      cases hstep
      refine hs.advance ⟨rfl, rfl, rfl, rfl, rfl,
        rfl⟩ rfl (fun _ h => h) hticket
        (hs.guard.enter rfl (Bool.eq_false_iff.mpr hfree) rfl) ?_ hrelease
        fun f m _ hf => absurd hf (htail f m)
      exact standing_of_lock (s := s.move g pc) rfl rfl rfl rfl
        (fun _ h => h) hown

theorem FifoInv.unlockMu (hs : FifoInv s) (hwas : guarded (s.pc g) = true)
    (hguard : guarded pc = false) (hticket : ticket pc = ticket (s.pc g))
    (hown : Standing (s.move g pc) g pc) (htail : ∀ f m, pc ≠ .unlockTail f m) :
    FifoInv (s.unlockMu g pc) := by
  have hrelease : ∀ f, pc ≠ .release f := by
    rintro f rfl
    cases hguard
  rw [LockState.unlockMu, if_pos (hs.guard.mu g hwas)]
  refine hs.advance ⟨rfl, rfl, rfl, rfl, rfl, rfl⟩ rfl (fun _ h => h) hticket
    (hs.guard.leave rfl hwas hguard) ?_ hrelease fun f m _ hf =>
      absurd hf (htail f m)
  exact standing_of_lock (s := s.move g pc) rfl rfl rfl rfl (fun _ h => h) hown

theorem FifoInv.lock (hs : FifoInv s) {m : Nat} (hstep : s.lock g m pc = some t)
    (hticket : ticket pc = ticket (s.pc g))
    (hguard : guarded pc = guarded (s.pc g))
    (hown : s.locked m = false → Standing { s.move g pc with
      locked := Function.update s.locked m true } g pc)
    (hrelease : ∀ f, pc ≠ .release f)
    (htail : s.locked m = false → ∀ f m' h,
      pc = .unlockTail f m' → h ≠ g → s.pc h ≠ .release f) :
    FifoInv t := by
  unfold LockState.lock at hstep
  split at hstep
  · cases hstep
  · next hfree =>
      rw [Bool.not_eq_true] at hfree
      cases hstep
      refine hs.advance ⟨rfl, rfl, rfl, rfl, rfl,
        rfl⟩ rfl ?_ hticket (hs.guard.stay rfl rfl hguard)
        (hown hfree) hrelease (htail hfree)
      intro x hx
      dsimp only
      rw [Function.update_apply]
      split
      · rfl
      · exact hx

/-- A mutex that was removed from the list is unlocked by the only one who
may. -/
theorem FifoInv.unlock (hs : FifoInv s) {x : Nat} (hx : x < s.removed)
    (hlocked : s.locked x = true) (hticket : ticket pc = ticket (s.pc g))
    (hguard : guarded pc = guarded (s.pc g))
    (hown : Standing { s.move g pc with
      locked := Function.update s.locked x false } g pc)
    (hrelease : ∀ f, pc ≠ .release f) (htail : ∀ f m, pc ≠ .unlockTail f m)
    (hothers : ∀ h, h ≠ g → s.pc h ≠ .release x ∧ ∀ m,
      s.pc h ≠ .unlockTail x m) :
    FifoInv (s.unlock g x pc) := by
  rw [LockState.unlock, if_pos hlocked]
  refine hs.keep ⟨rfl, rfl, rfl, rfl, rfl,
    rfl⟩ rfl hticket (hs.guard.stay rfl rfl hguard)
    (standing_of_update rfl hown ?_)
    (apart_of_update hs rfl (fun f _ _ hf => absurd hf (hrelease f))
      fun f m _ hf => absurd hf (htail f m))
  intro h hne
  exact standing_of_unlock hx (hothers h hne).1
    (hothers h hne).2 rfl rfl rfl rfl rfl
    (hs.standing h)

/-! Drawing a ticket, returning, and being removed change the counts. -/

theorem FifoInv.pushBack (hs : FifoInv s) {next : Nat → LockPC}
    (hwas : guarded (s.pc g) = true) (hguard : guarded (next s.next) = true)
    (hnone : ticket (s.pc g) = none)
    (hticket : ticket (next s.next) = some s.next)
    (hown : Standing (s.pushBack g next) g (next s.next)) :
    FifoInv (s.pushBack g next) where
  sane := hs.sane
  list := by
    have hle := hs.removed_le
    rw [LockState.pushBack]
    dsimp only [LockState.move]
    rw [hs.list, show s.next + 1 - s.removed = s.next - s.removed + 1 by omega,
      List.range'_concat]
    simp
    omega
  removed_le := Nat.le_succ_of_le hs.removed_le
  drawn := by simp [LockState.pushBack, hs.drawn]
  order := hs.order.trans (List.prefix_append _ _)
  count := hs.count
  owner := by
    intro m hm hm'
    rcases Nat.lt_succ_iff_lt_or_eq.mp hm' with hlt | rfl
    · obtain ⟨h, hh⟩ := hs.owner m hm hlt
      refine ⟨h, ?_⟩
      have hne : h ≠ g := by
        rintro rfl
        rw [hnone] at hh
        cases hh
      simpa [LockState.pushBack, LockState.move, Function.update_of_ne hne]
        using hh
    · exact ⟨g, by simpa [LockState.pushBack, LockState.move] using hticket⟩
  guard := hs.guard.stay (g := g) rfl rfl (hguard.trans hwas.symm)
  standing := by
    refine standing_of_update (s := s) rfl hown ?_
    intro h hne
    exact standing_of_push (s := s) (g := g)
      (hs.guard.others hwas hne) rfl rfl rfl rfl
      (hs.standing h)
  apart := by
    refine apart_of_update hs (g := g) rfl ?_ ?_
    · intro f m h hf
      rw [hf] at hticket
      cases hticket
    · intro f m h hf
      rw [hf] at hguard
      cases hguard

theorem FifoInv.doReturn (hs : FifoInv s) {m : Nat}
    (hpc : s.pc g = .returning m) :
    FifoInv { s.move g (.holding m) with returned := s.returned ++ [g] } := by
  have hst := hs.standing g
  rw [hpc] at hst
  obtain ⟨⟨happ, hle⟩, ⟨hm, hlen⟩, hlocked⟩ := hst
  refine { hs with
    order := ?_, count := ?_, owner := ?_, guard := ?_, standing := ?_,
    apart := ?_ }
  · exact concat_prefix_of_getElem? hs.order (hlen ▸ happ)
  · right
    simp only [List.length_append, List.length_singleton, LockState.move]
    omega
  · intro x hx hx'
    obtain ⟨h, hh⟩ := hs.owner x hx hx'
    refine ⟨h, ?_⟩
    dsimp only [LockState.move]
    rw [Function.update_apply]
    split
    · next heq =>
        rw [heq, hpc] at hh
        exact hh
    · exact hh
  · exact hs.guard.stay (g := g) rfl rfl (by rw [hpc]; rfl)
  · refine standing_of_update (s := s) rfl ⟨⟨happ, hle⟩, ⟨hm, ?_⟩, hlocked⟩ ?_
    · simp only [List.length_append, List.length_singleton, hlen]
    · intro h hne
      refine standing_of_return (s := s) (g :=
        g) ?_ (hlen.trans hm) rfl rfl rfl rfl rfl
        (hs.standing h)
      intro hticket
      exact hne (hs.ticket_inj hticket (by rw [hpc, ticket, hm]))
  · exact apart_of_update hs (g :=
      g) rfl (fun _ _ _ hf => by cases hf) (fun _ _ _ hf => by cases hf)

theorem FifoInv.doRemove (hs : FifoInv s) {m f : Nat}
    (hpc : s.pc g = .remove m (some f)) :
    FifoInv { s.move g (.release f) with
      muList := s.muList.erase f
      removed := s.removed + 1 } := by
  have hst := hs.standing g
  rw [hpc] at hst
  obtain ⟨⟨happ, hle⟩, ⟨hm, hlen⟩, hlocked, hf⟩ := hst
  obtain rfl : f = m := Option.some.inj hf
  have hlt : f < s.next := hs.drawn ▸ (List.getElem?_eq_some_iff.mp happ).1
  have hwas : guarded (s.pc g) = true := by rw [hpc]; rfl
  have hother : ∀ h, h ≠ g → ticket (s.pc h) ≠ some s.removed := by
    intro h hne hticket
    exact hne (hs.ticket_inj hticket (by rw [hpc, ticket, hm]))
  refine { hs with
    list := ?_, removed_le := ?_, count := ?_, owner := ?_, guard := ?_,
      standing := ?_, apart := ?_ }
  · dsimp only [LockState.move]
    rw [hs.list, hm, show s.next - s.removed =
      s.next - (s.removed + 1) + 1 by omega,
      List.range'_succ, List.erase_cons_head]
  · dsimp only [LockState.move]
    omega
  · left
    dsimp only [LockState.move]
    omega
  · intro x hx hx'
    dsimp only [LockState.move] at hx hx' ⊢
    obtain ⟨h, hh⟩ := hs.owner x (by omega) hx'
    refine ⟨h, ?_⟩
    have hne : h ≠ g := by
      rintro rfl
      rw [hpc, ticket] at hh
      cases hh
      omega
    rw [Function.update_of_ne hne]
    exact hh
  · exact hs.guard.stay (g := g) rfl rfl (by rw [hpc]; rfl)
  · refine standing_of_update (s := s) rfl ⟨?_, hlocked⟩ ?_
    · dsimp only [LockState.move]
      omega
    · intro h hne
      exact standing_of_remove (s := s) (hs.guard.others hwas hne)
        (hother h hne) rfl rfl rfl rfl
        (hs.standing h)
  · refine apart_of_update hs (g := g) rfl ?_ (fun _ _ _ hf => by cases hf)
    intro f' m' h hf' _ hh
    cases hf'
    -- a waiter at its end has the ticket `removed`, which is this one's
    have hwaiter := hs.standing h
    rw [hh] at hwaiter
    have hdue := hwaiter.2.2.1.1
    have htail := hwaiter.2.1
    omega

/-! ### The statements of `Lock` -/

theorem FifoInv.checkLen (hs : FifoInv s) (hpc : s.pc g = .checkLen) :
    FifoInv (s.move g (if s.muList.length = 0 then .pushFirst else .back)) := by
  have hlen : s.muList.length = s.next - s.removed := by
    rw [hs.list, List.length_range']
  have hle := hs.removed_le
  split
  · refine hs.goto (by rw [hpc]; rfl) (by rw [hpc]; rfl) ?_ nofun nofun
    dsimp only [Standing, LockState.move]
    omega
  · refine hs.goto (by rw [hpc]; rfl) (by rw [hpc]; rfl) ?_ nofun nofun
    dsimp only [Standing, LockState.move]
    omega

theorem FifoInv.pushFirst (hs : FifoInv s) (hpc : s.pc g = .pushFirst) :
    FifoInv (s.pushBack g .lockFirst) := by
  have hall := hs.standing g
  rw [hpc] at hall
  dsimp only [Standing] at hall
  have hle := hs.order.length_le
  rw [hs.drawn] at hle
  refine hs.pushBack (by rw [hpc]; rfl) rfl (by rw [hpc]; rfl) rfl ⟨⟨?_, ?_⟩,
    rfl, ?_, ?_⟩
  · simp [LockState.pushBack, LockState.move, ← hs.drawn]
  · exact Nat.le_of_eq hall
  · exact hall.symm
  · rcases hs.count with hcount | hcount
    · exact hcount.trans hall
    · omega

theorem FifoInv.back (hs : FifoInv s) (hpc : s.pc g = .back) :
    ∃ tail, s.muList.getLast? = some tail ∧
      FifoInv (s.move g (.push tail)) := by
  have hlt := hs.standing g
  rw [hpc] at hlt
  dsimp only [Standing] at hlt
  refine ⟨s.next - 1, ?_, ?_⟩
  · rw [hs.list, show s.next - s.removed = s.next - s.removed - 1 + 1 by omega,
      List.range'_concat, List.getLast?_concat, Option.some.injEq]
    omega
  · refine hs.goto (by rw [hpc]; rfl) (by rw [hpc]; rfl) ⟨hlt, ?_⟩ nofun nofun
    dsimp only [LockState.move]
    omega

theorem FifoInv.push (hs : FifoInv s) {tail : Nat} (hpc : s.pc g = .push tail) :
    FifoInv (s.pushBack g (.lockOwn tail)) := by
  have hst := hs.standing g
  rw [hpc] at hst
  obtain ⟨hlt, htail⟩ := hst
  have hle := hs.order.length_le
  rw [hs.drawn] at hle
  refine hs.pushBack (by rw [hpc]; rfl) rfl (by rw [hpc]; rfl) rfl ⟨⟨?_, ?_⟩,
    rfl, htail, hle⟩
  · simp [LockState.pushBack, LockState.move, ← hs.drawn]
  · exact Nat.le_of_lt hlt

theorem FifoInv.lockTail (hs : FifoInv s) {tail m : Nat}
    (hpc : s.pc g = .lockTail tail m)
    (hstep : s.lock g tail (.unlockTail tail m) = some t) : FifoInv t := by
  have hst := hs.standing g
  rw [hpc] at hst
  obtain ⟨hdrawn, htail, _, hlocked⟩ := hst
  refine hs.lock hstep (by rw [hpc]; rfl) (by rw [hpc]; rfl) ?_ nofun ?_
  · intro hfree
    obtain ⟨_, hdue⟩ := hs.due_of_unlocked hpc hfree
    refine ⟨hdrawn, htail, hdue, ?_, Function.update_self ..⟩
    dsimp only
    rw [Function.update_of_ne (by omega)]
    exact hlocked
  · intro hfree f m' h hf _ hh
    cases hf
    -- the one who removed it would still have it locked
    have hrelease := hs.standing h
    rw [hh] at hrelease
    have hlocked' : s.locked tail = true := hrelease.2
    rw [hfree] at hlocked'
    cases hlocked'

theorem FifoInv.unlockTail (hs : FifoInv s) {tail m : Nat}
    (hpc : s.pc g = .unlockTail tail m) :
    FifoInv (s.unlock g tail (.returning m)) := by
  have hst := hs.standing g
  rw [hpc] at hst
  obtain ⟨hdrawn, htail, hdue, hlocked, hlocked'⟩ := hst
  have hm := hdue.1
  refine hs.unlock
    (by omega) hlocked' (by rw [hpc]; rfl) (by rw [hpc]; rfl) ?_ nofun nofun ?_
  · refine ⟨hdrawn, hdue, ?_⟩
    dsimp only
    rw [Function.update_of_ne (by omega)]
    exact hlocked
  · intro h hne
    refine ⟨fun hh => hs.apart h g tail m hh hpc, ?_⟩
    intro m' hh
    have hwaiter := hs.standing h
    rw [hh] at hwaiter
    have htail' := hwaiter.2.1
    obtain rfl : m' = m := by omega
    exact hne (hs.ticket_inj (by rw [hh]; rfl) (by rw [hpc]; rfl))

/-! ### The statements of `Unlock` -/

theorem FifoInv.front (hs : FifoInv s) {m : Nat} (hpc : s.pc g = .front m) :
    FifoInv (s.move g (.remove m s.muList.head?)) := by
  have hst := hs.standing g
  rw [hpc] at hst
  obtain ⟨hdrawn, hentered, hlocked⟩ := hst
  have hlt : m < s.next := hs.drawn ▸ (List.getElem?_eq_some_iff.mp hdrawn.1).1
  have hm := hentered.1
  refine hs.goto (by rw [hpc]; rfl) (by rw [hpc]; rfl) ⟨hdrawn, hentered,
    hlocked, ?_⟩ nofun nofun
  rw [hs.list, show s.next - s.removed = s.next - s.removed - 1 + 1 by omega,
    List.range'_succ, List.head?_cons, hm]

theorem FifoInv.release (hs : FifoInv s) {f : Nat} (hpc : s.pc g = .release f) :
    FifoInv (s.unlock g f .unlockLast) := by
  have hst := hs.standing g
  rw [hpc] at hst
  obtain ⟨hf, hlocked⟩ := hst
  refine hs.unlock
    (by omega) hlocked (by rw [hpc]; rfl)
    (by rw [hpc]; rfl) trivial nofun nofun ?_
  intro h hne
  refine ⟨?_, fun m => hs.apart g h f m hpc⟩
  intro hh
  exact hne (hs.guard.alone h g (by rw [hh]; rfl) (by rw [hpc]; rfl))

/-- One step of any goroutine keeps the invariant. -/
theorem fifoInv_step (hs : FifoInv s) (hstep : lockStep s g = some t) :
    FifoInv t := by
  have hst := hs.standing g
  unfold lockStep at hstep
  rw [if_neg (by simp [hs.sane])] at hstep
  split at hstep
  · next hpc => exact hs.lockMu hstep (by rw [hpc]; rfl) trivial nofun nofun
  · next hpc => cases hstep; exact hs.checkLen hpc
  · next hpc => cases hstep; exact hs.pushFirst hpc
  · next m hpc =>
      rw [hpc] at hst
      refine hs.lock hstep (by rw [hpc]; rfl) (by rw [hpc]; rfl) ?_ nofun nofun
      intro _
      exact ⟨hst.1, hst.2.2, Function.update_self ..⟩
  · next m hpc =>
      cases hstep
      rw [hpc] at hst
      exact hs.unlockMu (by rw [hpc]; rfl) rfl (by rw [hpc]; rfl) hst nofun
  · next hpc =>
      obtain ⟨tail, hlast, hnext⟩ := hs.back hpc
      rw [hlast] at hstep
      cases hstep
      exact hnext
  · next tail hpc => cases hstep; exact hs.push hpc
  · next tail m hpc =>
      rw [hpc] at hst
      refine hs.lock hstep (by rw [hpc]; rfl) (by rw [hpc]; rfl) ?_ nofun nofun
      intro _
      exact ⟨hst.1, hst.2.2.1, hst.2.2.2, Function.update_self ..⟩
  · next tail m hpc =>
      cases hstep
      rw [hpc] at hst
      exact hs.unlockMu (by rw [hpc]; rfl) rfl (by rw [hpc]; rfl) hst nofun
  · next tail m hpc => exact hs.lockTail hpc hstep
  · next tail m hpc => cases hstep; exact hs.unlockTail hpc
  · next m hpc => cases hstep; exact hs.doReturn hpc
  · next m hpc =>
      cases hstep
      rw [hpc] at hst
      exact hs.goto (by rw [hpc]; rfl) (by rw [hpc]; rfl) hst nofun nofun
  · next m hpc =>
      rw [hpc] at hst
      exact hs.lockMu hstep (by rw [hpc]; rfl) hst nofun nofun
  · next m hpc => cases hstep; exact hs.front hpc
  · next m hpc =>
      -- `Front` has found the mutex of the holder
      rw [hpc] at hst
      cases hst.2.2.2
  · next m f hpc => cases hstep; exact hs.doRemove hpc
  · next f hpc => cases hstep; exact hs.release hpc
  · next hpc =>
      cases hstep
      exact hs.unlockMu (by rw [hpc]; rfl) rfl (by rw [hpc]; rfl) trivial nofun

end Steps

/-! ## The lock -/

section Fifo

variable {s : LockState γ}

/-- Who has the lock has the ticket that is next to be removed, and has returned
with it. -/
theorem FifoInv.hasLock (hs : FifoInv s) {g : γ}
    (hg : hasLock (s.pc g) = true) :
    ticket (s.pc g) = some s.removed ∧ s.returned.length = s.removed + 1 := by
  have hst := hs.standing g
  cases hpc : s.pc g <;> rw [hpc] at hg hst <;> cases hg
  all_goals
    obtain ⟨_, ⟨rfl, hlen⟩, _⟩ := hst
    exact ⟨rfl, hlen⟩

/-- The front of the list belongs to the one who has the lock, or nobody has it
and the front belongs to the next one to return. -/
theorem FifoInv.owner_of_front (hs : FifoInv s) {m : Nat}
    (hm : s.muList.head? = some m) :
    ∃ g, ticket (s.pc g) = some m ∧ (Proofs.hasLock (s.pc g) = true ∨
      (∀ h, Proofs.hasLock (s.pc h) = false) ∧
        s.appended[s.returned.length]? = some g) := by
  rw [hs.list, List.head?_range'] at hm
  split at hm
  · cases hm
  · cases hm
    obtain ⟨g, hg⟩ := hs.owner s.removed (Nat.le_refl _) (by omega)
    refine ⟨g, hg, ?_⟩
    by_cases hlock : Proofs.hasLock (s.pc g) = true
    · exact .inl hlock
    · right
      have hst := hs.standing g
      -- before its return the count of returns is at most the ticket
      have hlen : s.returned.length ≤ s.removed := by
        cases hpc : s.pc g <;> rw [hpc] at hg hst hlock <;> cases hg <;>
          simp [Standing, Due, Proofs.hasLock] at hst hlock <;> omega
      refine ⟨?_, ?_⟩
      · intro h
        rw [Bool.eq_false_iff]
        intro hh
        have := (hs.hasLock hh).2
        omega
      · rw [show s.returned.length =
          s.removed by rcases hs.count with h | h <;> omega]
        exact (drawn_of_ticket hst hg).1

end Fifo

variable [DecidableEq γ]

theorem fifoInv_reaches {s : LockState γ} (h : Reaches (Fires lockStep) {} s) :
    FifoInv s :=
  h.invariant (fun _ _ hs ⟨_, hstep⟩ => fifoInv_step hs hstep) fifoInv_init

/-- In every state that the goroutines can reach, no call has panicked, at most
one goroutine has the lock, they have returned from `Lock` in the order in which
they appended their mutexes, and the front of the list belongs to the one with
the lock or, if nobody has it, to the next to return. -/
theorem mutexQueue_fifo {s : LockState γ} (h : Reaches (Fires lockStep) {} s) :
    s.crashed = false ∧
    (∀ g g' m m', s.pc g = .holding m → s.pc g' = .holding m' → g = g') ∧
    s.returned <+: s.appended ∧
    ∀ m, s.muList.head? = some m → ∃ g, ticket (s.pc g) = some m ∧
      (hasLock (s.pc g) = true ∨
      (∀ g', hasLock (s.pc g') = false) ∧ s.appended[s.returned.length]? =
        some g) := by
  have hs := fifoInv_reaches h
  refine ⟨hs.sane, ?_, hs.order, fun m hm => hs.owner_of_front hm⟩
  intro g g' m m' hg hg'
  have h1 := (hs.hasLock (g := g) (by rw [hg]; rfl)).1
  have h2 := (hs.hasLock (g := g') (by rw [hg']; rfl)).1
  exact hs.ticket_inj h1 h2

/-- One goroutine has the lock and another waits for it. -/
theorem mutexQueue_fifo_contended :
    ∃ s : LockState Bool, Reaches (Fires lockStep) {} s ∧
      s.pc true = .holding 0 ∧ s.pc false = .lockTail 0 1 ∧ s.crashed = false ∧
        s.returned <+: s.appended := by
  have hex : ∃ s, exec lockStep ({} : LockState Bool)
      (List.replicate 6 true ++ List.replicate 6 false) = some s ∧
      s.pc true = .holding 0 ∧ s.pc false = .lockTail 0 1 :=
    ⟨_, rfl, rfl, rfl⟩
  obtain ⟨s, hs, htrue, hfalse⟩ := hex
  have hfifo := mutexQueue_fifo (reaches_of_exec hs)
  exact ⟨s, reaches_of_exec hs, htrue, hfalse, hfifo.1, hfifo.2.2.1⟩

end Netramesh.Proofs
