import Mathlib.Data.List.Basic

/-!
# Programs that are checked before they run

A `Cmd` is a structured program over actions of any kind, whose choices are
functions of what has been seen. It runs as a list of commands left to do, with
one more command for the way out: `ret` leaves everything else behind.

An `Analysis` follows the actions on an abstract domain, in which more is known
further down. `check` carries it through a program, `Checks` says that it gets
through all that is left to do, and `Checks.next` is its soundness: from
whatever was found so far the next action is allowed, and the analysis gets
through the rest from what it finds behind that action. What the domain means
is up to the user, who shows that every action keeps it.
-/

namespace Netramesh.Lib

/-- Programs over the actions `α`, choosing by `β`. -/
inductive Cmd (α β : Type)
  | skip
  | act (a : α)
  /-- One of the actions, or none. -/
  | any (as : List α) (choose : β → Nat)
  | seq (a b : Cmd α β)
  | ite (q : β → Bool) (a b : Cmd α β)
  | loop (q : β → Bool) (c : Cmd α β)
  | ret

/-- What comes next: only a look at the program, an action, or the way out. -/
inductive Next (α β : Type)
  | goto (todo : List (Cmd α β))
  | act (a : α) (todo : List (Cmd α β))
  | leave

namespace Cmd

variable {α β : Type}

def block : List (Cmd α β) → Cmd α β
  | [] => .skip
  | c :: cs => .seq c (block cs)

/-- A command, with `todo` after it. -/
def next (b : β) (todo : List (Cmd α β)) : Cmd α β → Next α β
  | .skip => .goto todo
  | .act a => .act a todo
  | .any as choose =>
    match as[choose b]? with
    | none => .goto todo
    | some a => .act a todo
  | .seq a b => .goto (a :: b :: todo)
  | .ite q a c => .goto ((if q b then a else c) :: todo)
  | .loop q c => .goto (if q b then c :: .loop q c :: todo else todo)
  | .ret => .leave

end Cmd

/-- A domain of facts, `le` meaning that the first says at least as much, what
each action does to them, if it is allowed, and which will do at the end. -/
structure Analysis (α D : Type) where
  post : α → D → Option D
  sup : D → D → D
  le : D → D → Bool
  final : D → Bool
  le_refl : ∀ x, le x x = true
  le_trans : ∀ {x y z}, le x y = true → le y z = true → le x z = true
  le_sup_left : ∀ x y, le x (sup x y) = true
  le_sup_right : ∀ x y, le y (sup x y) = true
  sup_of_le : ∀ {x y}, le y x = true → sup x y = x
  final_of_le : ∀ {x y}, le x y = true → final y = true → final x = true

variable {α β D : Type} (A : Analysis α D)

namespace Analysis

/-- What is known after any one of the actions, or none. -/
def postAny (x : D) : List α → Option D
  | [] => some x
  | a :: as =>
    match A.post a x, postAny x as with
    | some y, some z => some (A.sup y z)
    | _, _ => none

/-- Two ways on, of which either may not get here. -/
def join : Option D → Option D → Option D
  | none, y => y
  | x, none => x
  | some x, some y => some (A.sup x y)

/-- `none` if an action is not allowed, `some none` if the command does not come
to its end. `exit` says where leaving is allowed. A loop is gone through twice,
the second time with what holds whenever it is at its top. -/
def check (exit : D → Bool) : Cmd α β → D → Option (Option D)
  | .skip, x => some (some x)
  | .act a, x => (A.post a x).map some
  | .any as _, x => (A.postAny x as).map some
  | .seq a b, x =>
    match check exit a x with
    | none => none
    | some none => some none
    | some (some y) => check exit b y
  | .ite _ a b, x =>
    match check exit a x, check exit b x with
    | some y, some z => some (A.join y z)
    | _, _ => none
  | .loop _ c, x =>
    match check exit c x with
    | none => none
    | some y =>
      let top := (y.map (A.sup x)).getD x
      match check exit c top with
      | none => none
      | some none => some (some top)
      | some (some z) => if A.le z top then some (some top) else none
  | .ret, x => if exit x then some none else none

/-- The command gets through, and what is known then will do. -/
def passes (exit : D → Bool) (c : Cmd α β) (x : D) : Bool :=
  match A.check exit c x with
  | none => false
  | some none => true
  | some (some y) => A.final y

/-- Leaving is allowed where the command for it gets through. -/
def exits (deferred : Cmd α β) : D → Bool := A.passes A.final deferred

/-- The analysis gets through all that is left to do. -/
def Checks (deferred : Cmd α β) : D → List (Cmd α β) → Prop
  | x, [] => A.final x = true
  | x, c :: cs => ∃ y z, A.le x y = true ∧
      A.check (A.exits deferred) c y = some z ∧
    ∀ x', z = some x' → Checks deferred x' cs

variable {A} {d : Cmd α β} {x y : D} {todo : List (Cmd α β)}

theorem Checks.mono (h : A.Checks d y todo) (hle : A.le x y = true) :
    A.Checks d x todo := by
  cases todo with
  | nil => exact A.final_of_le hle h
  | cons c cs =>
    obtain ⟨y', z, hle', hz, hcs⟩ := h
    exact ⟨y', z, A.le_trans hle hle', hz, hcs⟩

theorem Checks.cons {c : Cmd α β} {z : Option D}
    (h : A.check (A.exits d) c x = some z)
    (hcs : ∀ x', z = some x' → A.Checks d x' todo) : A.Checks d x (c :: todo) :=
  ⟨x, z, A.le_refl x, h, hcs⟩

/-- A program that passes. -/
theorem checks_of_passes {c : Cmd α β} (h : A.passes (A.exits d) c x = true) :
    A.Checks d x [c] := by
  unfold passes at h
  split at h
  · cases h
  · next hc => exact .cons hc fun x' hx' => by cases hx'
  · next y hc =>
      refine .cons hc fun x' hx' => ?_
      cases hx'
      exact h

theorem checks_seq {a b : Cmd α β} {z : Option D}
    (h : A.check (A.exits d) (.seq a b) x = some z)
    (hcs : ∀ x', z = some x' → A.Checks d x' todo) :
    A.Checks d x (a :: b :: todo) := by
  rw [check] at h
  cases ha : A.check (A.exits d) a x with
  | none => rw [ha] at h; cases h
  | some y =>
    rw [ha] at h
    refine .cons ha fun x' hx' => ?_
    subst hx'
    exact .cons h hcs

theorem checks_of_passes_seq {a b : Cmd α β}
    (h : A.passes (A.exits d) (.seq a b) x = true) :
    A.Checks d x [a, b] := by
  obtain ⟨y, z, hle, hc, hcs⟩ := checks_of_passes h
  exact (checks_seq hc hcs).mono hle

theorem join_left {u v w : Option D} (h : A.join u v = w) (hu : u = some x) :
    ∃ y, w = some y ∧ A.le x y = true := by
  subst hu
  cases v with
  | none => exact ⟨x, h.symm, A.le_refl x⟩
  | some y => exact ⟨_, h.symm, A.le_sup_left x y⟩

theorem join_right {u v w : Option D} (h : A.join u v = w) (hv : v = some x) :
    ∃ y, w = some y ∧ A.le x y = true := by
  subst hv
  cases u with
  | none => exact ⟨x, h.symm, A.le_refl x⟩
  | some y => exact ⟨_, h.symm, A.le_sup_right y x⟩

theorem checks_ite {q : β → Bool} {a b : Cmd α β} {z : Option D}
    (h : A.check (A.exits d) (.ite q a b) x = some z)
    (hcs : ∀ x', z = some x' → A.Checks d x' todo) (p : Bool) :
    A.Checks d x ((if p then a else b) :: todo) := by
  rw [check] at h
  split at h
  · next u v ha hb =>
      have hjoin := Option.some.inj h
      split
      · refine .cons ha fun x' hx' => ?_
        obtain ⟨y, hy, hle⟩ := join_left hjoin hx'
        exact (hcs y hy).mono hle
      · refine .cons hb fun x' hx' => ?_
        obtain ⟨y, hy, hle⟩ := join_right hjoin hx'
        exact (hcs y hy).mono hle
  · cases h

theorem checks_loop {q : β → Bool} {c : Cmd α β} {z : Option D}
    (h : A.check (A.exits d) (.loop q c) x = some z)
    (hcs : ∀ x', z = some x' → A.Checks d x' todo) (p : Bool) :
    A.Checks d x (if p then c :: .loop q c :: todo else todo) := by
  rw [check] at h
  split at h
  · cases h
  · next y hy =>
      dsimp only at h
      generalize htop : (y.map (A.sup x)).getD x = top at h
      have hle : A.le x top = true := by
        cases y with
        | none => exact htop ▸ A.le_refl x
        | some y => exact htop ▸ A.le_sup_left x y
      -- a second time around nothing changes
      have hstable : ∃ u, A.check (A.exits d) c top = some u ∧ z = some top ∧
          ∀ x', u = some x' → A.le x' top = true := by
        split at h
        · cases h
        · next hu => exact ⟨none, hu, (Option.some.inj h).symm,
              fun x' hx' => by cases hx'⟩
        · next y' hu =>
            split at h
            · next hle' =>
                refine ⟨some y', hu, (Option.some.inj h).symm, fun x' hx' => ?_⟩
                cases hx'
                exact hle'
            · cases h
      obtain ⟨u, hu, rfl, hu'⟩ := hstable
      have hloop : A.check (A.exits d) (.loop q c) top = some (some top) := by
        rw [check, hu]
        dsimp only
        have hsup : (u.map (A.sup top)).getD top = top := by
          cases u with
          | none => rfl
          | some x' => exact A.sup_of_le (hu' x' rfl)
        rw [hsup, hu]
        cases u with
        | none => rfl
        | some x' => exact if_pos (hu' x' rfl)
      split
      · refine ⟨top, u, hle, hu, fun x' hx' => ?_⟩
        exact (Checks.cons hloop hcs).mono (hu' x' hx')
      · exact (hcs top rfl).mono hle

theorem checks_ret {z : Option D}
    (h : A.check (A.exits d) (.ret : Cmd α β) x = some z) :
    A.Checks .skip x [d] := by
  rw [check, Option.ite_none_right_eq_some] at h
  exact checks_of_passes h.1

theorem postAny_spec {as : List α} (h : A.postAny x as = some y) :
    A.le x y = true ∧ ∀ a ∈ as, ∃ z, A.post a x = some z ∧ A.le z y = true := by
  induction as generalizing y with
  | nil =>
      cases h
      exact ⟨A.le_refl x, fun a ha => absurd ha List.not_mem_nil⟩
  | cons a as ih =>
      rw [postAny] at h
      split at h
      · next u v hu hv =>
          cases h
          obtain ⟨hle, hall⟩ := ih hv
          refine ⟨A.le_trans hle (A.le_sup_right u v), fun a' ha' => ?_⟩
          rcases List.mem_cons.mp ha' with rfl | ha'
          · exact ⟨u, hu, A.le_sup_left u v⟩
          · obtain ⟨w, hw, hle'⟩ := hall a' ha'
            exact ⟨w, hw, A.le_trans hle' (A.le_sup_right u v)⟩
      · cases h

/-- What the analysis grants at the next step, and what it knows behind it. -/
def Granted (A : Analysis α D) (d : Cmd α β) (x : D) : Next α β → D → Prop
  | .goto todo, x' => x' = x ∧ A.Checks d x' todo
  | .act a todo, x' => (∃ y, A.le x y = true ∧ A.post a y = some x') ∧
      A.Checks d x' todo
  | .leave, x' => x' = x ∧ A.Checks .skip x' [d]

/-- The analysis is sound. -/
theorem Checks.next {c : Cmd α β} (h : A.Checks d x (c :: todo)) (b : β) :
    ∃ x', A.Granted d x (c.next b todo) x' := by
  obtain ⟨y, z, hle, hc, hcs⟩ := h
  cases c with
  | skip =>
      cases hc
      exact ⟨x, rfl, (hcs y rfl).mono hle⟩
  | act a =>
      obtain ⟨u, hu, rfl⟩ := Option.map_eq_some_iff.mp hc
      exact ⟨u, ⟨y, hle, hu⟩, hcs u rfl⟩
  | any as choose =>
      obtain ⟨u, hu, rfl⟩ := Option.map_eq_some_iff.mp hc
      obtain ⟨hyu, hall⟩ := postAny_spec hu
      rw [Cmd.next]
      split
      · exact ⟨x, rfl, (hcs u rfl).mono (A.le_trans hle hyu)⟩
      · next a ha =>
          obtain ⟨w, hw, hwu⟩ := hall a (List.mem_of_getElem? ha)
          exact ⟨w, ⟨y, hle, hw⟩, (hcs u rfl).mono hwu⟩
  | seq a b => exact ⟨x, rfl, (checks_seq hc hcs).mono hle⟩
  | ite q a b => exact ⟨x, rfl, (checks_ite hc hcs _).mono hle⟩
  | loop q c => exact ⟨x, rfl, (checks_loop hc hcs _).mono hle⟩
  | ret => exact ⟨x, rfl, (checks_ret hc).mono hle⟩

end Analysis

end Netramesh.Lib
