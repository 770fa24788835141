import Mathlib.Logic.Function.Basic

/-!
# `MutexQueue`

A lock that is meant to be taken in the order of asking. Each caller of `Lock`
appends a mutex of its own to a list and locks it, then waits for the mutex
that was last in the list before; `Unlock` removes the front of the list and
unlocks it, which lets the next caller go. The list itself is protected by a
plain mutex, held for the whole of `Unlock` and for `Lock` up to the waiting.

Each statement is a step of its own. A mutex is a number, in the order of
allocation; a step that would panic, removing from an empty list or unlocking
what is not locked, leads to a state that says so.
-/

namespace Netramesh.Transport

/-- Where a goroutine stands in its calls of `Lock` and `Unlock`. `m` is the
mutex its `Lock` has appended; the code has no use for it once `Lock` returns,
and it is kept here as history. -/
inductive LockPC
  | idle
  | checkLen
  /-- The list was empty. -/
  | pushFirst
  | lockFirst (m : Nat)
  | unlockFirst (m : Nat)
  /-- The list was not empty. -/
  | back
  | push (tail : Nat)
  | lockOwn (tail m : Nat)
  | unlockOwn (tail m : Nat)
  | lockTail (tail m : Nat)
  | unlockTail (tail m : Nat)
  | returning (m : Nat)
  /-- Between the return of `Lock` and the call of `Unlock`. -/
  | holding (m : Nat)
  | unlocking (m : Nat)
  | front (m : Nat)
  | remove (m : Nat) (el : Option Nat)
  | release (f : Nat)
  | unlockLast
  deriving DecidableEq

/-- The lock and the goroutines `γ` that use it. -/
structure LockState (γ : Type) where
  mu : Bool := false
  muList : List Nat := []
  locked : Nat → Bool := fun _ => false
  /-- How many mutexes have been allocated. -/
  next : Nat := 0
  pc : γ → LockPC := fun _ => .idle
  crashed : Bool := false
  /-- History: who appended a mutex, who returned from `Lock`, both in order,
  and how many mutexes were removed. -/
  appended : List γ := []
  returned : List γ := []
  removed : Nat := 0

variable {γ : Type} [DecidableEq γ]

namespace LockState

/-- The state with `g` moved on. -/
def move (s : LockState γ) (g : γ) (pc : LockPC) : LockState γ :=
  { s with pc := Function.update s.pc g pc }

/-- `mq.mu.Lock()`; it waits while somebody has it. -/
def lockMu (s : LockState γ) (g : γ) (pc : LockPC) : Option (LockState γ) :=
  if s.mu then none else some { s.move g pc with mu := true }

/-- `mq.mu.Unlock()`. -/
def unlockMu (s : LockState γ) (g : γ) (pc : LockPC) : LockState γ :=
  if s.mu then { s.move g pc with mu := false } else { s with crashed := true }

/-- `m.Lock()`. -/
def lock (s : LockState γ) (g : γ) (m : Nat) (pc : LockPC) :
    Option (LockState γ) :=
  if s.locked m then none
  else some { s.move g pc with locked := Function.update s.locked m true }

/-- `m.Unlock()`. -/
def unlock (s : LockState γ) (g : γ) (m : Nat) (pc : LockPC) : LockState γ :=
  if s.locked m then
    { s.move g pc with locked := Function.update s.locked m false }
  else { s with crashed := true }

/-- `m := &sync.Mutex{}` and `mq.muList.PushBack(m)`. -/
def pushBack (s : LockState γ) (g : γ) (pc : Nat → LockPC) : LockState γ :=
  { s.move g (pc s.next) with
    muList := s.muList ++ [s.next]
    next := s.next + 1
    appended := s.appended ++ [g] }

end LockState

open LockState

/-- The next step of the goroutine `g`. -/
def lockStep (s : LockState γ) (g : γ) : Option (LockState γ) :=
  if s.crashed then none
  else
    match s.pc g with
    | .idle => s.lockMu g .checkLen
    | .checkLen =>
        some (s.move g (if s.muList.length = 0 then .pushFirst else .back))
    | .pushFirst => some (s.pushBack g .lockFirst)
    | .lockFirst m => s.lock g m (.unlockFirst m)
    | .unlockFirst m => some (s.unlockMu g (.returning m))
    | .back =>
      match s.muList.getLast? with
      | none => some { s with crashed := true }
      | some tail => some (s.move g (.push tail))
    | .push tail => some (s.pushBack g (.lockOwn tail))
    | .lockOwn tail m => s.lock g m (.unlockOwn tail m)
    | .unlockOwn tail m => some (s.unlockMu g (.lockTail tail m))
    | .lockTail tail m => s.lock g tail (.unlockTail tail m)
    | .unlockTail tail m => some (s.unlock g tail (.returning m))
    | .returning m =>
      some { s.move g (.holding m) with returned := s.returned ++ [g] }
    | .holding m => some (s.move g (.unlocking m))
    | .unlocking m => s.lockMu g (.front m)
    | .front m => some (s.move g (.remove m s.muList.head?))
    | .remove _ none => some { s with crashed := true }
    | .remove _ (some f) =>
      some { s.move g (.release f) with
        muList := s.muList.erase f
        removed := s.removed + 1 }
    | .release f => some (s.unlock g f .unlockLast)
    | .unlockLast => some (s.unlockMu g .idle)

end Netramesh.Transport
