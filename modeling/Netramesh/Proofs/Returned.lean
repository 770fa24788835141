import Netramesh.Proofs.Pools

/-!
# Every object comes back

A second discipline counts where the first one looks: at every point of a
program it is known exactly which variables hold an object. `Get` never goes to
a variable that holds one, `Put` never from one that does not, and nothing is
held at the end of any way out. So no object is ever lost: as long as the
garbage collector takes none, each is in one hand or in one pool, and when all
goroutines are done, all are in the pools.
-/

namespace Netramesh.Pooled

open Lib Function

/-- Which variables hold an object, as far as that is the same on every way. -/
abbrev Held := Option (Slot → Bool)

namespace Held

def same (H H' : Slot → Bool) : Bool := Slot.all.all fun k => H k == H' k

theorem same_iff {H H' : Slot → Bool} : same H H' = true ↔ H = H' := by
  simp only [same, List.all_eq_true, beq_iff_eq]
  exact ⟨fun h => funext fun k => h k k.mem_all, fun h k _ => by rw [h]⟩

def le : Held → Held → Bool
  | _, none => true
  | none, some _ => false
  | some H, some H' => same H H'

theorem le_iff {x y : Held} : le x y = true ↔ y = none ∨ x = y := by
  cases y with
  | none => simp [le]
  | some H' =>
    cases x with
    | none => simp [le]
    | some H => simp [le, same_iff]

def sup (x y : Held) : Held := if le y x then x else none

def post : Atom → Held → Option Held
  | .get k, some H => if H k then none else some (some (update H k true))
  | .put k, some H => if H k then some (some (update H k false)) else none
  | .op _, x => some x
  | _, none => none

def final : Held → Bool
  | none => false
  | some H => same H fun _ => false

end Held

def balance : Analysis Atom Held where
  post := Held.post
  sup := Held.sup
  le := Held.le
  final := Held.final
  le_refl _ := Held.le_iff.mpr (.inr rfl)
  le_trans h h' := by
    rcases Held.le_iff.mp h with rfl | rfl
    · rcases Held.le_iff.mp h' with rfl | rfl <;> rfl
    · exact h'
  le_sup_left x y := by
    unfold Held.sup
    split
    · exact Held.le_iff.mpr (.inr rfl)
    · rfl
  le_sup_right x y := by
    unfold Held.sup
    split
    · assumption
    · rfl
  sup_of_le h := if_pos h
  final_of_le h hy := by
    rcases Held.le_iff.mp h with rfl | rfl
    · cases hy
    · exact hy

theorem Task.balanced (t : Task) :
    balance.passes (balance.exits t.deferred) (.seq t.body .ret)
      (some fun _ => false) = true := by
  cases t <;> rfl

/-! ## Steps -/

/-- The variables hold what is known of them. -/
def Held.Of (x : Held) (held : Slot → Option Nat) : Prop :=
  ∀ H, x = some H → ∀ k, (held k).isSome = H k

theorem Held.Of.mono {x y : Held} {held : Slot → Option Nat} (h : x.Of held)
    (hle : Held.le x y = true) : y.Of held := by
  rcases Held.le_iff.mp hle with rfl | rfl
  · intro H hH
    cases hH
  · exact h

/-- Every object is in a hand or in a pool. -/
def Placed {G : Type} (s : State G) : Prop :=
  ∀ r, r < s.store.next → (∃ g k, (s.user g).held k = some r) ∨
    ∃ p, r ∈ s.store.free p

/-- Every goroutine gives back what it holds. -/
def GivesBack {G : Type} (s : State G) : Prop :=
  ∀ g, ∃ x : Held, x.Of (s.user g).held ∧
    balance.Checks (s.user g).loc.deferred x (s.user g).loc.todo

section Steps

variable {G : Type} [DecidableEq G] {g : G} {k : Slot} {l : Label}
  {s s' : State G}
  {todo : List Prog}

/-- Where the objects are after `Get` into a variable that held none. -/
theorem placed_take (h : Placed s) (hnone : (s.user g).held k = none)
    (htake : s.take g l k todo = some s') : Placed s' := by
  unfold State.take at htake
  split at htake
  · cases htake
  · next r store hget =>
      cases htake
      -- whoever held an object still does
      have hheld : ∀ {g' k' r'}, (s.user g').held k' = some r' →
          ∃ g'' k'', ((update s.user g ⟨{ (s.user g).loc with todo := todo },
            update (s.user g).var k (some r),
              update (s.user g).held k (some r)⟩) g'').held k'' =
              some r' := by
        intro g' k' r' hr'
        refine ⟨g', k', ?_⟩
        by_cases hg : g' = g
        · subst hg
          rw [update_self]
          by_cases hk : k' = k
          · rw [hk, hnone] at hr'
            cases hr'
          · dsimp only
            rw [update_of_ne hk]
            exact hr'
        · rw [update_of_ne hg]
          exact hr'
      have hself :
          ∃ g'' k'', ((update s.user g ⟨{ (s.user g).loc with todo := todo },
          update (s.user g).var k (some r), update (s.user g).held k (some r)⟩)
            g'').held k'' = some r := by
        refine ⟨g, k, ?_⟩
        rw [update_self]
        exact update_self ..
      intro r' hlt
      unfold Store.get at hget
      split at hget
      · cases hget
        rcases Nat.lt_succ_iff_lt_or_eq.mp hlt with hlt | rfl
        · rcases h r' hlt with ⟨g', k', hr'⟩ | hfree
          · exact .inl (hheld hr')
          · exact .inr hfree
        · exact .inl hself
      · next i =>
          split at hget
          · cases hget
          · next q hq =>
              cases hget
              rcases h r' hlt with ⟨g', k', hr'⟩ | ⟨p, hp⟩
              · exact .inl (hheld hr')
              · by_cases hrr : r' = r
                · subst hrr
                  exact .inl hself
                · refine .inr ⟨p, ?_⟩
                  show r' ∈ update s.store.free k.pool _ p
                  by_cases hpk : p = k.pool
                  · subst hpk
                    rw [update_self, List.mem_eraseIdx_iff_getElem?]
                    obtain ⟨j, hj⟩ := List.getElem?_of_mem hp
                    refine ⟨j, fun heq => hrr ?_, hj⟩
                    rw [heq, hq] at hj
                    exact (Option.some.inj hj).symm
                  · rw [update_of_ne hpk]
                    exact hp

theorem placed_release (h : Placed s)
    (hvar : ∀ r, (s.user g).held k = some r → (s.user g).var k = some r)
    (hrel : s.release g k todo = some s') : Placed s' := by
  unfold State.release at hrel
  split at hrel
  · cases hrel
  · next r hr =>
      cases hrel
      intro r' hlt
      rcases h r' hlt with ⟨g', k', hr'⟩ | ⟨p, hp⟩
      · by_cases hgk : g' = g ∧ k' = k
        · obtain ⟨rfl, rfl⟩ := hgk
          refine .inr ⟨k'.pool, ?_⟩
          have heq := (hvar r' hr').symm.trans hr
          show r' ∈ update s.store.free k'.pool _ k'.pool
          rw [update_self, Option.some.inj heq]
          exact List.mem_cons_self
        · refine .inl ⟨g', k', ?_⟩
          by_cases hg : g' = g
          · subst hg
            simp only [update_self]
            rw [update_of_ne fun hk => hgk ⟨rfl, hk⟩]
            exact hr'
          · simp only [update_of_ne hg]
            exact hr'
      · refine .inr ⟨p, ?_⟩
        show r' ∈ update s.store.free k.pool _ p
        by_cases hpk : p = k.pool
        · subst hpk
          rw [update_self]
          exact List.mem_cons_of_mem _ hp
        · rw [update_of_ne hpk]
          exact hp

omit [DecidableEq G] in
theorem placed_same (h : Placed s)
    (hheld : ∀ g, (s'.user g).held = (s.user g).held)
    (hnext : s'.store.next = s.store.next)
    (hfree : s'.store.free = s.store.free) : Placed s' := by
  intro r hr
  rw [hnext] at hr
  rcases h r hr with ⟨g, k, hk⟩ | ⟨p, hp⟩
  · exact .inl ⟨g, k, by rw [hheld]; exact hk⟩
  · exact .inr ⟨p, by rw [hfree]; exact hp⟩

theorem held_setLoc (f : Loc → Loc) (s : State G) (g' : G) :
    ((s.setLoc g f).user g').held = (s.user g').held := by
  by_cases hg : g' = g
  · subst hg
    rw [user_setLoc]
  · rw [show (s.setLoc g f).user g' = s.user g' from update_of_ne hg ..]

variable {Γ Δ : Ctx} {x x' : Held} {d : Prog} {n : Next Atom Hist}

/-- What is known of the goroutine that takes a step, and where the objects
are. -/
theorem advance_returned (hs : Sound s) (h : Alike g Γ s s)
    (hx : x.Of (s.user g).held) (hd : (s.user g).loc.deferred = d)
    (hgr : discipline.Granted d Γ n Δ) (hbal : balance.Granted d x n x')
    (ha : s.advance g l n = some s') :
    (x'.Of (s'.user g).held ∧ balance.Checks (s'.user g).loc.deferred x'
      (s'.user g).loc.todo) ∧ (Placed s → Placed s') := by
  match n with
  | .goto todo =>
      obtain ⟨rfl, hchecks⟩ := hbal
      cases ha
      refine ⟨?_, fun hp => placed_same hp (held_setLoc _ s) rfl rfl⟩
      rw [State.goto, user_setLoc]
      exact ⟨hx, hd ▸ hchecks⟩
  | .leave =>
      obtain ⟨rfl, hchecks⟩ := hbal
      cases ha
      refine ⟨?_, fun hp => placed_same hp (held_setLoc _ s) rfl rfl⟩
      rw [user_setLoc]
      exact ⟨hx, hd ▸ hchecks⟩
  | .act (.get k) todo =>
      obtain ⟨⟨y, hle, hpost⟩, hchecks⟩ := hbal
      cases y with
      | none => cases hpost
      | some H =>
        obtain ⟨hk, hx'⟩ := Option.ite_none_left_eq_some.mp hpost
        cases hx'
        have hH := hx.mono hle H rfl
        obtain ⟨_, _, hloc, _, r, hheld, _⟩ := take_spec hs ha
        refine ⟨⟨?_, by rw [hloc]; exact hd ▸ hchecks⟩,
          fun hp => placed_take hp ?_ ha⟩
        · intro H' hH' k'
          cases hH'
          rw [hheld]
          by_cases hkk : k' = k
          · rw [hkk, update_self, update_self]
            rfl
          · rw [update_of_ne hkk, update_of_ne hkk]
            exact hH k'
        · rw [← Option.not_isSome_iff_eq_none, hH k]
          exact hk
  | .act (.put k) todo =>
      obtain ⟨⟨y, hle, hpost⟩, hchecks⟩ := hbal
      obtain ⟨⟨Ξ, hleΞ, hdue⟩, _⟩ := hgr
      cases y with
      | none => cases hpost
      | some H =>
        obtain ⟨hk, hx'⟩ := Option.ite_none_right_eq_some.mp hpost
        cases hx'
        have hH := hx.mono hle H rfl
        obtain ⟨r, _, hr, _, hpool, _⟩ :=
          (h.mono (Ctx.le_iff.mp hleΞ)).due
            (Option.ite_none_right_eq_some.mp hdue).1
        obtain ⟨s₁, heq, _, _, hloc, _, hheld⟩ := release_spec todo hs hr hpool
        cases ha.symm.trans heq
        refine ⟨⟨?_, by rw [hloc]; exact hd ▸ hchecks⟩,
          fun hp => placed_release hp (hs.var g k) ha⟩
        intro H' hH' k'
        cases hH'
        rw [hheld]
        by_cases hkk : k' = k
        · rw [hkk, update_self, update_self]
          rfl
        · rw [update_of_ne hkk, update_of_ne hkk]
          exact hH k'
  | .act (.op o) todo =>
      obtain ⟨⟨y, hle, hpost⟩, hchecks⟩ := hbal
      obtain ⟨⟨Ξ, hleΞ, hop⟩, _⟩ := hgr
      cases hpost
      obtain ⟨s₁, _, heq, _, htodo, hsteps⟩ :=
        operate_alike todo (hs.own g) (hs.own g)
        (h.mono (Ctx.le_iff.mp hleΞ)) hop (l := l) rfl rfl
      cases ha.symm.trans heq
      refine ⟨⟨by rw [hsteps.left.held]; exact hx.mono hle, ?_⟩, fun hp =>
        placed_same hp (fun g' => ?_) hsteps.left.next hsteps.left.free⟩
      · rw [htodo, hsteps.left.deferred, hd]
        exact hchecks
      · by_cases hg : g' = g
        · rw [hg, hsteps.left.held]
        · rw [hsteps.left.user g' hg]

theorem step_returned {Γ : G → Ctx} (hgood : Good Γ s) (hs : GivesBack s)
    (hstep : step s (.run g l) = some s') :
    (∃ Γ', Good Γ' s') ∧ GivesBack s' ∧ (Placed s → Placed s') := by
  obtain ⟨_, Ψ, _, hgood', _, _, hunnoticed, _⟩ :=
    hgood.step hgood rfl (hgood.self g) hstep
  refine ⟨⟨_, hgood'⟩, ?_⟩
  unfold step at hstep
  dsimp only at hstep
  cases htodo : (s.user g).loc.todo with
  | nil => rw [htodo] at hstep; cases hstep
  | cons c cs =>
      rw [htodo] at hstep
      dsimp only at hstep
      have hchecks := hgood.checks g
      obtain ⟨x, hx, hbal⟩ := hs g
      rw [htodo] at hchecks hbal
      obtain ⟨Δ, hgr⟩ := hchecks.next (s.user g).loc.seen
      obtain ⟨x', hbal'⟩ := hbal.next (s.user g).loc.seen
      obtain ⟨hself, hplaced⟩ :=
        advance_returned hgood.toSound (hgood.self g) hx rfl hgr hbal' hstep
      refine ⟨fun g' => ?_, hplaced⟩
      by_cases hg : g' = g
      · subst hg
        exact ⟨x', hself⟩
      · rw [hunnoticed.user g' hg]
        exact hs g'

/-! ## Runs -/

theorem run_returned {Γ : G → Ctx} {acts : List (Act G)} (hgood : Good Γ s)
    (hs : GivesBack s) (hrun : exec step s acts = some s') :
    (∃ Γ', Good Γ' s') ∧ GivesBack s' ∧
      ((∀ p i, Act.drop p i ∉ acts) → Placed s → Placed s') := by
  induction acts generalizing s Γ with
  | nil =>
      cases hrun
      exact ⟨⟨Γ, hgood⟩, hs, fun _ h => h⟩
  | cons act acts ih =>
      rw [exec] at hrun
      split at hrun
      · cases hrun
      · next t ht =>
          cases act with
          | drop p i =>
              cases ht
              obtain ⟨hgood', hs', _⟩ := ih (hgood.drop p i) hs hrun
              exact ⟨hgood', hs', fun hno =>
                absurd List.mem_cons_self (hno p i)⟩
          | run g l =>
              obtain ⟨⟨Γ', hgood'⟩, hs', hplaced⟩ := step_returned hgood hs ht
              obtain ⟨hgood'', hs'', hplaced'⟩ := ih hgood' hs' hrun
              exact ⟨hgood'', hs'', fun hno hp =>
                hplaced' (fun p i hmem => hno p i (List.mem_cons_of_mem _ hmem))
                  (hplaced hp)⟩

/-- In every run: a goroutine that is done holds no object; one that is not can
go on, whatever the others do; and as long as the collector takes no object,
every object is held by one goroutine or lies in one pool. -/
theorem pools_restored (task : G → Task) (input : G → Bytes)
    (acts : List (Act G)) (s : State G)
    (hrun : exec step (init task input) acts = some s) :
    (∀ g, (s.user g).loc.todo = [] → ∀ k, (s.user g).held k = none) ∧
    (∀ g l, (s.user g).loc.todo ≠ [] → l.pick = none → ∃ t,
      step s (.run g l) = some t) ∧
    ((∀ p i, Act.drop p i ∉ acts) → ∀ r, r < s.store.next ↔
      (∃ g k, (s.user g).held k = some r) ∨ ∃ p, r ∈ s.store.free p) := by
  have hinit : GivesBack (init task input) := by
    intro g
    refine ⟨some fun _ => false, fun H hH k => ?_,
      Analysis.checks_of_passes_seq (task g).balanced⟩
    cases hH
    rfl
  obtain ⟨⟨Γ, hgood⟩, hs, hplaced⟩ :=
    run_returned (good_init task input) hinit hrun
  refine ⟨fun g hdone k => ?_, fun g l hne hpick => ?_,
    fun hno r => ⟨fun hr => ?_, fun hr => ?_⟩⟩
  · obtain ⟨x, hx, hfinal⟩ := hs g
    rw [hdone, Analysis.Checks] at hfinal
    cases x with
    | none => cases hfinal
    | some H =>
      have hnone : H = fun _ => false := Held.same_iff.mp hfinal
      have hk := hx H rfl k
      rw [hnone] at hk
      exact Option.not_isSome_iff_eq_none.mp (by rw [hk]; simp)
  · cases htodo : (s.user g).loc.todo with
    | nil => exact absurd htodo hne
    | cons c cs =>
      have hchecks := hgood.checks g
      rw [htodo] at hchecks
      obtain ⟨Δ, hgr⟩ := hchecks.next (s.user g).loc.seen
      obtain ⟨t, ht⟩ := advance_progress hpick hgood.toSound (hgood.self g) hgr
      refine ⟨t, ?_⟩
      unfold step
      dsimp only
      rw [htodo]
      exact ht
  · exact hplaced hno (fun r hr => absurd hr (Nat.not_lt_zero r)) r hr
  · rcases hr with ⟨g, k, hk⟩ | ⟨p, hp⟩
    · exact hgood.owned.lt (g, k) r hk
    · exact hgood.owned.free_lt p r hp

/-- Two connections with one destination each: both slices are back. -/
theorem pools_restored_reused :
    ∃ s, exec step twoConnections reusing = some s ∧
      (∀ k, (s.user true).held k = none) ∧ ∃ p, 1 ∈ s.store.free p := by
  have hsome : (exec step twoConnections reusing).any
    (fun s => s.store.next == 2 &&
      (s.user true).loc.todo.isEmpty && (s.user false).loc.todo.isEmpty) =
        true := by decide +kernel
  obtain ⟨s, hs, hdone⟩ := (Option.any_eq_true _ _).mp hsome
  simp only [Bool.and_eq_true, beq_iff_eq, List.isEmpty_iff] at hdone
  obtain ⟨hheld, _, hplaced⟩ := pools_restored _ _ reusing s hs
  refine ⟨s, hs, hheld true hdone.1.2, ?_⟩
  have hno : ∀ p i, (Act.drop p i : Act Bool) ∉ reusing := by
    intro p i hmem
    rcases List.mem_append.mp hmem with h | h
      <;> cases (List.mem_replicate.mp h).2
  rcases (hplaced hno 1).mp (by rw [hdone.1.1]; decide) with ⟨g, k, hk⟩ | hfree
  · cases g with
    | true => rw [hheld true hdone.1.2 k] at hk; cases hk
    | false => rw [hheld false hdone.2 k] at hk; cases hk
  · exact hfree

end Steps

end Netramesh.Pooled
