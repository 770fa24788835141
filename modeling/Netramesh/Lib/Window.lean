import Mathlib.Data.List.Basic

/-!
# Windows on memory that is used again

A buffer that outlives its users is an array of which some stretch is in use at
a time. Emptying it moves the ends of the stretch and leaves the cells as they
are, so the old contents stay in memory, and what keeps them out of sight is
only that no operation looks beyond the ends.

`Same` says that two windows have their ends in the same places and the same
cells between them. Nothing is said about the other cells. Every operation
keeps `Same`, those that write into the array up to its size on windows of one
size.
-/

namespace Netramesh.Lib

/-- An array of which the cells from `off` up to `top` are in use. -/
structure Window (α : Type) where
  mem : List α
  off : Nat
  top : Nat
  off_le : off ≤ top
  top_le : top ≤ mem.length

namespace Window

variable {α : Type}

/-- How many cells there are. -/
def size (w : Window α) : Nat := w.mem.length

/-- The cells in use. -/
def live (w : Window α) : List α := (w.mem.take w.top).drop w.off

/-- None of the cells in use. -/
def ofMem (mem : List α) : Window α := ⟨mem, 0, 0, Nat.le_refl _, Nat.zero_le _⟩

/-- Give up all cells. -/
def clear (w : Window α) : Window α := ofMem w.mem

/-- Give up the first `n` cells. -/
def skip (n : Nat) (w : Window α) : Window α :=
  ⟨w.mem, min (w.off + n) w.top, w.top, Nat.min_le_right _ _, w.top_le⟩

theorem length_live (w : Window α) : w.live.length = w.top - w.off := by
  have := w.top_le
  simp only [live, List.length_drop, List.length_take]
  omega

/-- Move the cells in use to the front. -/
def slide (w : Window α) : Window α where
  mem := w.live ++ w.mem.drop w.live.length
  off := 0
  top := w.live.length
  off_le := Nat.zero_le _
  top_le := by simp

/-- Write behind the cells in use, over what is there, with more memory if
needed. -/
def push (b : List α) (w : Window α) : Window α where
  mem := w.mem.take w.top ++ b ++ w.mem.drop (w.top + b.length)
  off := w.off
  top := w.top + b.length
  off_le := Nat.le_add_right_of_le w.off_le
  top_le := by
    have := w.top_le
    simp only [List.length_append, List.length_take]
    omega

/-- Write from the first cell on, as much as there is memory for. -/
def load (b : List α) (w : Window α) : Window α where
  mem := b.take w.size ++ w.mem.drop (b.take w.size).length
  off := 0
  top := (b.take w.size).length
  off_le := Nat.zero_le _
  top_le := by simp

/-- Take the cell in front back into use, or the first one when none is in
use. -/
def back (c : α) (w : Window α) : Window α :=
  if h : 0 < w.off then
    ⟨w.mem.set (w.off - 1) c, w.off - 1, w.top, by have := w.off_le; omega, by
      rw [List.length_set]; exact w.top_le⟩
  else if h : w.top = 0 ∧ 0 < w.mem.length then
    ⟨w.mem.set 0 c, 0, 1, Nat.zero_le _, by rw [List.length_set]; exact h.2⟩
  else w

/-! ## What is in use afterwards -/

theorem live_skip (n : Nat) (w : Window α) :
    (w.skip n).live = w.live.drop n := by
  show (w.mem.take w.top).drop (min (w.off + n) w.top) =
    ((w.mem.take w.top).drop w.off).drop n
  rw [List.drop_drop]
  rcases Nat.le_total (w.off + n) w.top with h | h
  · rw [Nat.min_eq_left h]
  · have hlen : (w.mem.take w.top).length ≤ w.top := List.length_take_le _ _
    rw [Nat.min_eq_right h, List.drop_eq_nil_of_le hlen,
      List.drop_eq_nil_of_le (Nat.le_trans hlen h)]

theorem live_slide (w : Window α) : w.slide.live = w.live := by
  show ((w.live ++ _).take w.live.length).drop 0 = w.live
  rw [List.take_left, List.drop_zero]

theorem live_push (b : List α) (w : Window α) :
    (w.push b).live = w.live ++ b := by
  have hlen : (w.mem.take w.top).length = w.top :=
    List.length_take_of_le w.top_le
  show ((w.mem.take w.top ++ b ++ _).take (w.top + b.length)).drop w.off = _
  rw [List.take_left' (by rw [List.length_append, hlen]),
    List.drop_append_of_le_length (by rw [hlen]; exact w.off_le)]
  rfl

theorem live_load (b : List α) (w : Window α) :
    (w.load b).live = b.take w.size := by
  show ((b.take w.size ++ _).take (b.take w.size).length).drop 0 = _
  rw [List.take_left, List.drop_zero]

/-! ## Windows nobody can tell apart -/

/-- The same cells in use, in the same places. -/
structure Same (a b : Window α) : Prop where
  off : a.off = b.off
  top : a.top = b.top
  live : a.live = b.live

namespace Same

variable {a b : Window α}

theorem refl (a : Window α) : Same a a := ⟨rfl, rfl, rfl⟩

theorem ofMem (mem mem' : List α) :
    Same (Window.ofMem mem) (Window.ofMem mem') :=
  ⟨rfl, rfl, rfl⟩

theorem skip (h : Same a b) (n : Nat) : Same (a.skip n) (b.skip n) := by
  refine ⟨?_, h.top, by rw [live_skip, live_skip, h.live]⟩
  show min _ _ = min _ _
  rw [h.off, h.top]

theorem slide (h : Same a b) : Same a.slide b.slide :=
  ⟨rfl, congrArg List.length h.live, by rw [live_slide, live_slide, h.live]⟩

theorem push (h : Same a b) (p : List α) : Same (a.push p) (b.push p) :=
  ⟨h.off, congrArg (· + p.length) h.top, by rw [live_push, live_push, h.live]⟩

theorem load (hsize : a.size = b.size) (p : List α) :
    Same (a.load p) (b.load p) := by
  refine ⟨rfl, ?_, by rw [live_load, live_load, hsize]⟩
  show (p.take a.size).length = (p.take b.size).length
  rw [hsize]

end Same

/-- A cell taken back in front of those in use. -/
theorem drop_set_pred {l : List α} {n m : Nat} {c : α} (hn : 0 < n) (hm : n ≤ m)
    (hl : m ≤ l.length) :
    ((l.set (n - 1) c).take m).drop (n - 1) = c :: (l.take m).drop n := by
  obtain ⟨n, rfl⟩ := Nat.exists_eq_succ_of_ne_zero (by omega : n ≠ 0)
  have hlt : n < ((l.set n c).take m).length := by
    rw [List.length_take, List.length_set]
    omega
  rw [Nat.succ_sub_one, List.drop_eq_getElem_cons hlt]
  congr 1
  · simp
  · rw [List.take_set, List.drop_set_of_lt (Nat.lt_succ_self n)]

theorem Same.back {a b : Window α} (h : Same a b) (hsize : a.size = b.size)
    (c : α) :
    Same (a.back c) (b.back c) := by
  unfold Window.back
  have hoff := h.off
  have htop := h.top
  by_cases hpos : 0 < a.off
  · have hpos' : 0 < b.off := hoff ▸ hpos
    rw [dif_pos hpos, dif_pos hpos']
    refine ⟨congrArg (· - 1) hoff, htop, ?_⟩
    show ((a.mem.set _ c).take _).drop _ = ((b.mem.set _ c).take _).drop _
    rw [drop_set_pred hpos a.off_le a.top_le,
      drop_set_pred hpos' b.off_le b.top_le]
    exact congrArg (c :: ·) h.live
  · have hpos' : ¬0 < b.off := hoff ▸ hpos
    rw [dif_neg hpos, dif_neg hpos']
    by_cases hnone : a.top = 0 ∧ 0 < a.mem.length
    · have hnone' : b.top = 0 ∧ 0 < b.mem.length :=
        ⟨htop ▸ hnone.1,
          (show a.mem.length = b.mem.length from hsize) ▸ hnone.2⟩
      rw [dif_pos hnone, dif_pos hnone']
      refine ⟨rfl, rfl, ?_⟩
      show ((a.mem.set 0 c).take 1).drop 0 = ((b.mem.set 0 c).take 1).drop 0
      rw [List.drop_zero, List.drop_zero]
      cases hma : a.mem with
      | nil => rw [hma] at hnone; exact absurd hnone.2 (Nat.lt_irrefl 0)
      | cons x xs =>
        cases hmb : b.mem with
        | nil => rw [hmb] at hnone'; exact absurd hnone'.2 (Nat.lt_irrefl 0)
        | cons y ys => rfl
    · have hnone' : ¬(b.top = 0 ∧ 0 < b.mem.length) := by
        rw [← htop, ← show a.mem.length = b.mem.length from hsize]
        exact hnone
      rw [dif_neg hnone, dif_neg hnone']
      exact h

/-! ## How many cells there are afterwards -/

@[simp] theorem size_clear (w : Window α) : w.clear.size = w.size := rfl

@[simp] theorem size_skip (n : Nat) (w : Window α) : (w.skip n).size = w.size :=
  rfl

@[simp] theorem size_slide (w : Window α) : w.slide.size = w.size := by
  have hlive := w.length_live
  have := w.top_le
  show (w.live ++ w.mem.drop w.live.length).length = w.mem.length
  rw [List.length_append, List.length_drop]
  omega

@[simp] theorem size_load (b : List α) (w : Window α) :
    (w.load b).size = w.size := by
  show (b.take w.mem.length ++ w.mem.drop (b.take w.mem.length).length).length =
    w.mem.length
  simp only [List.length_append, List.length_drop, List.length_take]
  omega

@[simp] theorem size_back (c : α) (w : Window α) :
    (w.back c).size = w.size := by
  unfold back
  split
  · exact List.length_set
  · split
    · exact List.length_set
    · rfl

/-- What fits takes no more memory. -/
theorem size_push {b : List α} {w : Window α} (h : w.top + b.length ≤ w.size) :
    (w.push b).size = w.size := by
  show (w.mem.take w.top ++ b ++ w.mem.drop (w.top + b.length)).length =
    w.mem.length
  have := w.top_le
  have : w.top + b.length ≤ w.mem.length := h
  simp only [List.length_append, List.length_take, List.length_drop]
  omega

end Window

end Netramesh.Lib
