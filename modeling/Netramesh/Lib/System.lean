import Mathlib.Logic.Relation

/-!
# Runs of a transition system

The goroutines of one connection are modelled as a step relation on a state:
one case for each atomic action, taken in whatever order the scheduler picks.
Everything said about "every interleaving" is then a statement about the
states a chain of steps reaches, and it is proved the same way each time: the
property holds at the start and no step breaks it.

The chain itself is Mathlib's `Relation.ReflTransGen`. It grows at its far
end, so an induction over it hands the step lemma the state the last action
started from.
-/

namespace Netramesh.Lib

/-- Some finite run of `step` leads from the first state to the second. -/
abbrev Reaches {σ : Type _} (step : σ → σ → Prop) : σ → σ → Prop :=
  Relation.ReflTransGen step

variable {σ : Type _} {step : σ → σ → Prop} {s t : σ}

/-- The invariant rule: what one step preserves, a run preserves. -/
theorem Reaches.invariant {P : σ → Prop} (hstep : ∀ a b, P a → step a b → P b)
    (h0 : P s) (h : Reaches step s t) : P t := by
  induction h with
  | refl => exact h0
  | tail _ hs ih => exact hstep _ _ ih hs

/-- The invariant rule with an invariant already known to hold along the run:
the step lemma may use both. -/
theorem Reaches.invariant_of {P Q : σ → Prop} (hQ : ∀ t, Reaches step s t → Q t)
    (hstep : ∀ a b, Q a → P a → step a b → P b) (h0 : P s)
    (h : Reaches step s t) : P t := by
  induction h with
  | refl => exact h0
  | tail hr hs ih => exact hstep _ _ (hQ _ hr) ih hs

/-! ## Executable systems

Most systems here are given by a partial function from a state and an action to
the next state. A list of actions then names one run. -/

variable {α : Type _} {next : σ → α → Option σ}

/-- One action of an executable system, whichever it is. -/
def Fires (next : σ → α → Option σ) (s t : σ) : Prop := ∃ a, next s a = some t

/-- The state after the actions, if each of them was possible in its turn. -/
def exec (next : σ → α → Option σ) (s : σ) : List α → Option σ
  | [] => some s
  | a :: acts =>
    match next s a with
    | none => none
    | some t => exec next t acts

theorem reaches_of_exec {acts : List α} (h : exec next s acts = some t) :
    Reaches (Fires next) s t := by
  induction acts generalizing s with
  | nil =>
      cases h
      exact .refl
  | cons a acts ih =>
      rw [exec] at h
      split at h
      · cases h
      · next u hu => exact .head ⟨a, hu⟩ (ih h)

theorem exec_append {acts acts' : List α} (h : exec next s acts = some t) :
    exec next s (acts ++ acts') = exec next t acts' := by
  induction acts generalizing s with
  | nil =>
      cases h
      rfl
  | cons a acts ih =>
      rw [exec] at h
      rw [List.cons_append, exec]
      split at h
      · cases h
      · exact ih h

/-- A run that ends with an action is a run and that action. -/
theorem exec_concat {acts : List α} {a : α}
    (h : exec next s (acts ++ [a]) = some t) :
    ∃ u, exec next s acts = some u ∧ next u a = some t := by
  induction acts generalizing s with
  | nil =>
      refine ⟨s, rfl, ?_⟩
      rw [List.nil_append, exec] at h
      split at h
      · cases h
      · next u hu => rw [hu, ← h, exec]
  | cons b acts ih =>
      rw [List.cons_append, exec] at h
      rw [exec]
      split at h
      · cases h
      · exact ih h

/-! ## The moments of a run

A property of a run may be one of what single actions in it do. -/

/-- In the run of the actions, `a` was taken in the state `s` and led to `t`. -/
def Takes (next : σ → α → Option σ) (init : σ) (acts : List α) (s : σ) (a : α)
    (t : σ) : Prop :=
  ∃ before after, acts = before ++ a :: after ∧ exec next init before = some s ∧
    next s a = some t

section Moments

variable {init : σ} {acts : List α} {a : α}

theorem Takes.reached (h : Takes next init acts s a t) :
    Reaches (Fires next) init s := by
  obtain ⟨_, _, _, hs, _⟩ := h
  exact reaches_of_exec hs

theorem Takes.next_eq (h : Takes next init acts s a t) : next s a = some t := by
  obtain ⟨_, _, _, _, ht⟩ := h
  exact ht

/-- The run goes on from there to its end. -/
theorem Takes.remaining {u : σ} (h : Takes next init acts s a t)
    (hu : exec next init acts = some u) : Reaches (Fires next) t u := by
  obtain ⟨before, after, rfl, hs, ht⟩ := h
  rw [exec_append hs, exec, ht] at hu
  exact reaches_of_exec hu

theorem Takes.exec_take (h : Takes next init acts s a t) :
    ∃ n < acts.length, exec next init (acts.take n) = some s := by
  obtain ⟨before, after, rfl, hs, _⟩ := h
  exact ⟨before.length, by simp, by rw [List.take_left]; exact hs⟩

theorem Takes.concat (h : Takes next init acts s a t) (b : α) :
    Takes next init (acts ++ [b]) s a t := by
  obtain ⟨before, after, rfl, hs, ht⟩ := h
  exact ⟨before, after ++ [b], by simp, hs, ht⟩

/-- The last action of a run. -/
theorem takes_last (hs : exec next init acts = some s)
    (ht : next s a = some t) :
    Takes next init (acts ++ [a]) s a t :=
  ⟨acts, [], rfl, hs, ht⟩

end Moments

/-! ## Runs under a condition

A condition on each action, in the state it is taken in, cuts down the runs. -/

variable {P : σ → α → Prop}

/-- One action that meets the condition. -/
def FiresIf (next : σ → α → Option σ) (P : σ → α → Prop) (s t : σ) : Prop :=
  ∃ a, next s a = some t ∧ P s a

theorem reaches_of_firesIf (h : Reaches (FiresIf next P) s t) :
    Reaches (Fires next) s t :=
  h.lift id fun _ _ ⟨a, ha, _⟩ => ⟨a, ha⟩

/-- The state after the actions, if each of them was possible in its turn and
met the condition. -/
def execIf (next : σ → α → Option σ) (P : σ → α → Prop)
    [∀ s a, Decidable (P s a)] (s : σ) : List α → Option σ
  | [] => some s
  | a :: acts =>
    if P s a then
      match next s a with
      | none => none
      | some t => execIf next P t acts
    else none

theorem reaches_of_execIf [∀ s a, Decidable (P s a)] {acts : List α}
    (h : execIf next P s acts = some t) : Reaches (FiresIf next P) s t := by
  induction acts generalizing s with
  | nil =>
      cases h
      exact .refl
  | cons a acts ih =>
      rw [execIf] at h
      split at h
      · next hp =>
          split at h
          · cases h
          · next u hu => exact .head ⟨a, hu, hp⟩ (ih h)
      · cases h

end Netramesh.Lib
