import Mathlib.Data.List.Basic
import Mathlib.Data.List.TakeWhile

/-!
# Logs grouped by key

A log of pairs is in order if its keys never decrease. Such a log is its own
grouping: reading it through gives the entries under the first key, then those
under the second, and so on.
-/

namespace Netramesh.Lib

variable {β : Type _}

/-- The entries of the log under one key. -/
def entriesAt (log : List (Nat × List β)) (k : Nat) : List β :=
  (log.filter fun e => e.1 = k).flatMap Prod.snd

theorem entriesAt_of_lt {log : List (Nat × List β)} {k : Nat}
    (h : ∀ e ∈ log, e.1 < k) :
    entriesAt log k = [] := by
  unfold entriesAt
  rw [List.filter_eq_nil_iff.mpr]
  · rfl
  · intro e he
    have := h e he
    simp only [decide_eq_true_eq]
    omega

theorem entriesAt_append (log log' : List (Nat × List β)) (k : Nat) :
    entriesAt (log ++ log') k = entriesAt log k ++ entriesAt log' k := by
  simp [entriesAt]

theorem flatMap_eq_grouped {log : List (Nat × List β)} {n : Nat}
    (hsorted : log.Pairwise fun e e' => e.1 ≤ e'.1) (hlt : ∀ e ∈ log, e.1 < n) :
    log.flatMap Prod.snd = (List.range n).flatMap (entriesAt log) := by
  induction n generalizing log with
  | zero =>
      cases log with
      | nil => rfl
      | cons e log =>
          exact absurd (hlt e List.mem_cons_self) (Nat.not_lt_zero _)
  | succ n ih =>
      -- the log is its part below the last key followed by the part at that key
      obtain ⟨low, high, rfl, hlow, hhigh⟩ : ∃ low high, log = low ++ high ∧
          (∀ e ∈ low, e.1 < n) ∧ ∀ e ∈ high, e.1 = n := by
        refine ⟨log.takeWhile fun e => e.1 < n, log.dropWhile fun e => e.1 < n,
          List.takeWhile_append_dropWhile.symm, ?_, ?_⟩
        · intro e he
          simpa using List.mem_takeWhile_imp he
        · intro e he
          have hdrop := hsorted.sublist
            (List.dropWhile_sublist fun e => e.1 < n)
          have hmem := hlt e ((List.dropWhile_sublist _).subset he)
          cases hd : log.dropWhile fun e => decide (e.1 < n) with
          | nil => rw [hd] at he; cases he
          | cons e0 rest =>
            have h0 : ¬ e0.1 < n := by
              have := List.head?_dropWhile_not
                (fun e : Nat × List β => decide (e.1 < n)) log
              rw [hd] at this
              simpa using this
            rw [hd] at he hdrop
            rcases List.mem_cons.mp he with rfl | he
            · omega
            · have := (List.pairwise_cons.mp hdrop).1 e he
              omega
      have hhighAt : ∀ k < n, entriesAt (low ++ high) k = entriesAt low k := by
        intro k hk
        rw [entriesAt_append]
        have : entriesAt high k = [] := by
          unfold entriesAt
          rw [List.filter_eq_nil_iff.mpr]
          · rfl
          · intro e he
            have := hhigh e he
            simp only [decide_eq_true_eq]
            omega
        rw [this, List.append_nil]
      have hlast : entriesAt (low ++ high) n = high.flatMap Prod.snd := by
        rw [entriesAt_append, entriesAt_of_lt hlow, List.nil_append]
        unfold entriesAt
        rw [List.filter_eq_self.mpr]
        intro e he
        simp [hhigh e he]
      rw [List.range_succ, List.flatMap_append, List.flatMap_append,
        List.flatMap_singleton, hlast]
      congr 1
      rw [ih (hsorted.sublist (List.sublist_append_left _ _)) hlow]
      refine List.flatMap_congr fun k hk => ?_
      rw [hhighAt k (List.mem_range.mp hk)]

end Netramesh.Lib
