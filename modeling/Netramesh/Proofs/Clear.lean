import Netramesh.Lib.System
import Netramesh.Protocol.Trace

/-!
# Clearing a queue

`Queue.Clear` is a loop that pops in its initialiser and nowhere else. On an
empty queue the first `Pop` answers `nil` and the call returns. On any other the
loop tests the same element for ever, with all but that one still queued.
-/

namespace Netramesh.Proofs

open Protocol Lib

variable {α : Type}

/-- The steps of `Clear`, whichever comes next. -/
def ClearMove (s t : ClearPC α × List α) : Prop := clearStep s = some t

/-- `Clear` returns, and what it leaves answers everything as a new queue
does. -/
def Clears (q : List α) : Prop :=
  ∃ q', Reaches ClearMove (.init, q) (.returned, q') ∧
    ∀ ops, queueAnswers q' ops = queueAnswers newQueue ops

/-- The call is still on its way with an element in hand, or has not begun. -/
def Looping : ClearPC α × List α → Prop
  | (.init, q) => q ≠ []
  | (.test el, _) => el ≠ none
  | (.returned, _) => False

theorem looping_of_move {s t : ClearPC α × List α} (h : Looping s)
    (hmove : ClearMove s t) :
    Looping t := by
  obtain ⟨pc, q⟩ := s
  cases pc with
  | init =>
      cases hmove
      cases q with
      | nil => exact absurd rfl h
      | cons v q => exact Option.some_ne_none v
  | test el =>
      cases el with
      | none => exact absurd rfl h
      | some v =>
          cases hmove
          exact h
  | returned => cases hmove

/-- On a queue with something in it `Clear` never returns. -/
theorem clear_never_returns {q q' : List α} (hq : q ≠ []) :
    ¬ Reaches ClearMove (.init, q) (.returned, q') := by
  intro h
  have hstart : Looping (ClearPC.init, q) := hq
  exact h.invariant (P := Looping)
    (fun _ _ hs hmove => looping_of_move hs hmove) hstart

theorem clear_empty :
    Reaches ClearMove ((.init, []) : ClearPC α × List α) (.returned, []) :=
  .tail (.single rfl) rfl

/-- After any operations, `Clear` returns and leaves what looks like a new queue
exactly when there is nothing to clear. -/
theorem clears_iff (ops : List (QueueOp α)) :
    Clears (queueAfter newQueue ops) ↔ queueAfter newQueue ops = [] := by
  constructor
  · rintro ⟨q', hreach, _⟩
    by_contra hne
    exact clear_never_returns hne hreach
  · intro hempty
    refine ⟨[], ?_, fun _ => rfl⟩
    rw [hempty]
    exact clear_empty

/-- One value pushed is enough for `Clear` to hang. -/
theorem clear_hangs :
    ¬ ∀ ops : List (QueueOp Nat), Clears (queueAfter newQueue ops) := by
  intro h
  obtain ⟨q', hreach, _⟩ := h [.push 7]
  exact clear_never_returns (List.cons_ne_nil 7 []) hreach

end Netramesh.Proofs
