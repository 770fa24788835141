import Mathlib.Data.List.Nodup
import Mathlib.Logic.Function.Basic

/-!
# Objects that are handed back and out again

Objects live in a `Store` under their addresses. A pool keeps addresses that
nobody needs at the moment. `get` answers any of them, or a new object at an
address not used so far; `put` adds an address, and nothing in the store keeps
its former holder from using it further, or from adding it twice.

That one object is never in two hands is a property of a whole run, kept up by
those who use the store: whoever takes an object is its holder until it is put
back, and only the holder puts it back (`Owned`). What a pool's users rely on
when they take an object out, they have to grant when they put it back
(`Kept`).
-/

namespace Netramesh.Lib

open Function

/-- The objects in memory, the first address not used yet, and what is in the
pools. -/
structure Store (π Ω : Type) where
  heap : Nat → Ω
  next : Nat
  free : π → List Nat

namespace Store

variable {π Ω : Type} [DecidableEq π]

/-- `Pool.Get`: the object at a place of the pool, or a new one. -/
def get (new : Ω) (p : π) (place : Option Nat) (st : Store π Ω) :
    Option (Nat × Store π Ω) :=
  match place with
  | none =>
      some (st.next, { st with
        heap := update st.heap st.next new, next := st.next + 1 })
  | some i =>
    match (st.free p)[i]? with
    | none => none
    | some r =>
        some (r, { st with free := update st.free p ((st.free p).eraseIdx i) })

/-- `Pool.Put`. -/
def put (p : π) (r : Nat) (st : Store π Ω) : Store π Ω :=
  { st with free := update st.free p (r :: st.free p) }

/-- The garbage collector empties pools as it likes. -/
def drop (p : π) (i : Nat) (st : Store π Ω) : Store π Ω :=
  { st with free := update st.free p ((st.free p).eraseIdx i) }

/-- Write an object. -/
def set (r : Nat) (o : Ω) (st : Store π Ω) : Store π Ω :=
  { st with heap := update st.heap r o }

omit [DecidableEq π] in
@[simp] theorem set_heap_self (r : Nat) (o : Ω) (st : Store π Ω) :
    (st.set r o).heap r = o :=
  update_self ..

omit [DecidableEq π] in
theorem set_heap_of_ne {r r' : Nat} (h : r' ≠ r) (o : Ω) (st : Store π Ω) :
    (st.set r o).heap r' = st.heap r' :=
  update_of_ne h ..

/-! ## Holders -/

variable {ι : Type}

/-- Every object has one holder or is in one pool, and there only once. -/
structure Owned (st : Store π Ω) (held : ι → Option Nat) : Prop where
  lt : ∀ i r, held i = some r → r < st.next
  free_lt : ∀ p, ∀ r ∈ st.free p, r < st.next
  inj : ∀ i j r, held i = some r → held j = some r → i = j
  notMem : ∀ i r p, held i = some r → r ∉ st.free p
  nodup : ∀ p, (st.free p).Nodup
  disjoint : ∀ p q r, r ∈ st.free p → r ∈ st.free q → p = q

omit [DecidableEq π] in
theorem Owned.congr {st st' : Store π Ω} {held : ι → Option Nat}
    (h : st.Owned held) (hnext : st'.next = st.next)
    (hfree : st'.free = st.free) : st'.Owned held :=
  ⟨fun i r hi => hnext ▸ h.lt i r hi,
    fun p r hr => hnext ▸ h.free_lt p r (hfree ▸ hr), h.inj,
    fun i r p hi => hfree ▸ h.notMem i r p hi, fun p => hfree ▸ h.nodup p,
    fun p q r hp hq => h.disjoint p q r (hfree ▸ hp) (hfree ▸ hq)⟩

theorem mem_update_free {st : Store π Ω} {p q : π} {l : List Nat} {r : Nat}
    (h : r ∈ update st.free p l q) :
    (q = p ∧ r ∈ l) ∨ (q ≠ p ∧ r ∈ st.free q) := by
  by_cases hq : q = p
  · subst hq
    rw [update_self] at h
    exact .inl ⟨rfl, h⟩
  · rw [update_of_ne hq] at h
    exact .inr ⟨hq, h⟩

/-- A pool with fewer objects in it. -/
theorem mem_free_of_eraseIdx {st : Store π Ω} {p q : π} {i r : Nat}
    (h : r ∈ update st.free p ((st.free p).eraseIdx i) q) : r ∈ st.free q := by
  rcases mem_update_free h with ⟨rfl, h⟩ | ⟨_, h⟩
  · exact List.mem_of_mem_eraseIdx h
  · exact h

theorem Owned.drop {st : Store π Ω} {held : ι → Option Nat} (h : st.Owned held)
    (p : π) (i : Nat) :
    (st.drop p i).Owned held := by
  refine ⟨h.lt, fun q r hr => h.free_lt q r (mem_free_of_eraseIdx hr), h.inj,
    fun j r q hj hr => h.notMem j r q hj (mem_free_of_eraseIdx hr), ?_,
    fun q q' r hr hr' => h.disjoint q q' r (mem_free_of_eraseIdx hr)
      (mem_free_of_eraseIdx hr')⟩
  intro q
  show (update st.free p ((st.free p).eraseIdx i) q).Nodup
  by_cases hq : q = p
  · subst hq
    rw [update_self]
    exact (h.nodup q).eraseIdx i
  · rw [update_of_ne hq]
    exact h.nodup q

/-- The object taken out belongs to whoever asked. -/
theorem Owned.get [DecidableEq ι] {st st' : Store π Ω} {held : ι → Option Nat}
    (h : st.Owned held) {new : Ω} {p : π} {place : Option Nat} {r : Nat} (i : ι)
    (hget : st.get new p place = some (r, st')) :
    st'.Owned (update held i (some r)) := by
  -- whatever was answered, nobody holds it and no pool has it any more
  suffices hfresh : r < st'.next ∧ (∀ j, held j ≠ some r) ∧
    (∀ q, r ∉ st'.free q) ∧
      st'.Owned held by
    obtain ⟨hlt, hnot, hfree, ho⟩ := hfresh
    refine ⟨?_, ho.free_lt, ?_, ?_, ho.nodup, ho.disjoint⟩
    · intro j r' hj
      by_cases hji : j = i
      · subst hji
        rw [update_self, Option.some.injEq] at hj
        exact hj ▸ hlt
      · rw [update_of_ne hji] at hj
        exact ho.lt j r' hj
    · intro j j' r' hj hj'
      by_cases hji : j = i
      · by_cases hji' : j' = i
        · rw [hji, hji']
        · rw [hji, update_self] at hj
          rw [update_of_ne hji', ← hj] at hj'
          exact absurd hj' (hnot j')
      · rw [update_of_ne hji] at hj
        by_cases hji' : j' = i
        · rw [hji', update_self] at hj'
          rw [← hj'] at hj
          exact absurd hj (hnot j)
        · rw [update_of_ne hji'] at hj'
          exact ho.inj j j' r' hj hj'
    · intro j r' q hj
      by_cases hji : j = i
      · subst hji
        rw [update_self, Option.some.injEq] at hj
        exact hj ▸ hfree q
      · rw [update_of_ne hji] at hj
        exact ho.notMem j r' q hj
  unfold Store.get at hget
  split at hget
  · cases hget
    refine ⟨Nat.lt_succ_self _, fun j hj => Nat.lt_irrefl _ (h.lt j _ hj),
      fun q hq => Nat.lt_irrefl _ (h.free_lt q _ hq), ?_⟩
    exact ⟨fun j r' hj => Nat.lt_succ_of_lt (h.lt j r' hj),
      fun q r' hr => Nat.lt_succ_of_lt (h.free_lt q r' hr), h.inj, h.notMem,
        h.nodup, h.disjoint⟩
  · next place =>
      split at hget
      · cases hget
      · next r' hr' =>
          cases hget
          have hmem : r ∈ st.free p := List.mem_of_getElem? hr'
          refine ⟨h.free_lt p r hmem, fun j hj => h.notMem j r p hj hmem, ?_,
            h.drop p place⟩
          intro q hq
          rcases mem_update_free hq with ⟨rfl, hq⟩ | ⟨hne, hq⟩
          · refine (List.mem_eraseIdx_iff_getElem?.mp hq).elim fun k hk => ?_
            have hk' : k < (st.free q).length :=
              (List.getElem?_eq_some_iff.mp hk.2).1
            exact hk.1 ((List.getElem?_inj hk' (h.nodup q)).mp
              (hk.2.trans hr'.symm))
          · exact hne (h.disjoint q p r hq hmem)

/-- Put back by its holder, it has none. -/
theorem Owned.put [DecidableEq ι] {st : Store π Ω} {held : ι → Option Nat}
    (h : st.Owned held) {i : ι} {r : Nat} (p : π) (hi : held i = some r) :
    (st.put p r).Owned (update held i none) := by
  have hheld : ∀ {j r'}, update held i none j = some r' →
      held j = some r' ∧ r' ≠ r := by
    intro j r' hj
    by_cases hji : j = i
    · rw [hji, update_self] at hj
      cases hj
    · rw [update_of_ne hji] at hj
      exact ⟨hj, fun heq => hji (h.inj j i r (heq ▸ hj) hi)⟩
  have hfree : ∀ {q r'}, r' ∈ (st.put p r).free q →
      (r' = r ∧ q = p) ∨ r' ∈ st.free q := by
    intro q r' hr
    rcases mem_update_free hr with ⟨rfl, hr⟩ | ⟨_, hr⟩
    · exact (List.mem_cons.mp hr).imp (fun heq => ⟨heq, rfl⟩) id
    · exact .inr hr
  refine ⟨fun j r' hj => h.lt j r' (hheld hj).1, ?_, fun j j' r' hj hj' =>
    h.inj j j' r' (hheld hj).1 (hheld hj').1, ?_, ?_, ?_⟩
  · intro q r' hr
    rcases hfree hr with ⟨rfl, _⟩ | hr
    · exact h.lt i r' hi
    · exact h.free_lt q r' hr
  · intro j r' q hj hr
    rcases hfree hr with ⟨heq, _⟩ | hr
    · exact (hheld hj).2 heq
    · exact h.notMem j r' q (hheld hj).1 hr
  · intro q
    show (update st.free p (r :: st.free p) q).Nodup
    by_cases hq : q = p
    · subst hq
      rw [update_self, List.nodup_cons]
      exact ⟨h.notMem i r q hi, h.nodup q⟩
    · rw [update_of_ne hq]
      exact h.nodup q
  · intro q q' r' hr hr'
    rcases hfree hr with ⟨rfl, rfl⟩ | hr
    · rcases hfree hr' with ⟨_, rfl⟩ | hr'
      · rfl
      · exact absurd hr' (h.notMem i r' q' hi)
    · rcases hfree hr' with ⟨heq, _⟩ | hr'
      · exact absurd hr (heq ▸ h.notMem i r q hi)
      · exact h.disjoint q q' r' hr hr'

/-! ## What the objects in a pool are like -/

/-- Every object in a pool is as those who take it out rely on. -/
def Kept (good : π → Ω → Prop) (st : Store π Ω) : Prop :=
  ∀ p, ∀ r ∈ st.free p, good p (st.heap r)

variable {good : π → Ω → Prop}

theorem Kept.drop {st : Store π Ω} (h : st.Kept good) (p : π) (i : Nat) :
    (st.drop p i).Kept good :=
  fun q r hr => h q r (mem_free_of_eraseIdx hr)

theorem Kept.put {st : Store π Ω} (h : st.Kept good) {p : π} {r : Nat}
    (hr : good p (st.heap r)) :
    (st.put p r).Kept good := by
  intro q r' hr'
  rcases mem_update_free hr' with ⟨rfl, hr'⟩ | ⟨_, hr'⟩
  · rcases List.mem_cons.mp hr' with rfl | hr'
    · exact hr
    · exact h q r' hr'
  · exact h q r' hr'

/-- What is taken out is as a new one or as what was put back, and the other
objects stay as they are. -/
theorem Kept.get {st st' : Store π Ω} (h : st.Kept good) {new : Ω} {p : π}
    {place : Option Nat} {r : Nat} (hfree : ∀ q, ∀ r ∈ st.free q, r < st.next)
    (hnew : good p new) (hget : st.get new p place = some (r, st')) :
    st'.Kept good ∧ good p (st'.heap r) ∧ ∀ r' < st.next, st'.heap r' =
      st.heap r' := by
  unfold Store.get at hget
  split at hget
  · cases hget
    have hheap : ∀ r' < st.next, update st.heap st.next new r' = st.heap r' :=
      fun r' hr' => update_of_ne (Nat.ne_of_lt hr') ..
    refine ⟨fun q r' hr' => ?_, ?_, hheap⟩
    · show good q (update st.heap st.next new r')
      rw [hheap r' (hfree q r' hr')]
      exact h q r' hr'
    · show good p (update st.heap st.next new st.next)
      rw [update_self]
      exact hnew
  · next place =>
      split at hget
      · cases hget
      · next r' hr' =>
          cases hget
          exact ⟨h.drop p place, h p r (List.mem_of_getElem? hr'),
            fun _ _ => rfl⟩

end Store

end Netramesh.Lib
