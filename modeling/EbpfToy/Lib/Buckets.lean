import Mathlib.Algebra.BigOperators.Fin
import Mathlib.Algebra.Order.BigOperators.Group.Finset
import Mathlib.Data.Multiset.Count

/-!
# Buckets

Searches through the indices of a histogram, sums of its buckets from an index
on, and histograms of a multiset: how many elements `f` puts into each bucket.
-/

namespace Lib

/-! ## Searches -/

/-- The first index with a property that stays true once it is true. -/
theorem getD_find?_range_le_iff {p : Nat → Bool} {n : Nat}
    (hmono : ∀ i j, i ≤ j → j < n → p i = true → p j = true) {b : Nat} (hb : b < n) :
    ((List.range n).find? p).getD n ≤ b ↔ p b = true := by
  cases hfind : (List.range n).find? p with
  | none =>
      have hnone : ∀ i, i < n → (!p i) = true := List.find?_range_eq_none.mp hfind
      have hfalse : p b = false := by simpa using hnone b hb
      rw [Option.getD_none, hfalse]
      exact iff_of_false (Nat.not_le.mpr hb) Bool.false_ne_true
  | some i =>
      obtain ⟨hp, -, hbefore⟩ := List.find?_range_eq_some.mp hfind
      rw [Option.getD_some]
      constructor
      · intro hle
        exact hmono i b hle hb hp
      · intro hpb
        by_contra hlt
        have hfalse := hbefore b (Nat.lt_of_not_le hlt)
        simp [hpb] at hfalse

/-- The search from the end finds the last index with the property. -/
theorem find?_reverse_range_eq_some {n i : Nat} {p : Nat → Bool} :
    (List.range n).reverse.find? p = some i ↔
      p i = true ∧ i < n ∧ ∀ j, i < j → j < n → p j = false := by
  induction n with
  | zero => simp
  | succ n ih =>
      rw [List.range_succ, List.reverse_append, List.reverse_singleton, List.singleton_append,
        List.find?_cons]
      cases hp : p n with
      | true =>
          simp only [Option.some.injEq]
          constructor
          · rintro rfl
            exact ⟨hp, Nat.lt_succ_self _, fun j h1 h2 => absurd (Nat.lt_succ_iff.mp h2) (by omega)⟩
          · rintro ⟨-, hi, hlast⟩
            -- a later index would have the property too
            by_contra hne
            have hfalse := hlast n (by omega) (Nat.lt_succ_self n)
            rw [hp] at hfalse
            contradiction
      | false =>
          simp only [ih]
          constructor
          · rintro ⟨hpi, hi, hlast⟩
            refine ⟨hpi, Nat.lt_succ_of_lt hi, fun j hij hj => ?_⟩
            by_cases hjn : j = n
            · rw [hjn, hp]
            · exact hlast j hij (by omega)
          · rintro ⟨hpi, hi, hlast⟩
            have hin : i ≠ n := fun h => by
              rw [h, hp] at hpi
              contradiction
            exact ⟨hpi, by omega, fun j hij hj => hlast j hij (Nat.lt_succ_of_lt hj)⟩

theorem find?_reverse_range_eq_none {n : Nat} {p : Nat → Bool} :
    (List.range n).reverse.find? p = none ↔ ∀ i, i < n → p i = false := by
  simp

/-! ## Sums from an index on -/

variable {n : Nat}

/-- What lies before an index and what lies from it on make up the whole. -/
theorem sum_from_add_sum_before (g : Fin n → Nat) (k : Nat) :
    (∑ b : Fin n, if k ≤ b.val then g b else 0) + (∑ b : Fin n, if b.val < k then g b else 0) =
      ∑ b, g b := by
  rw [← Finset.sum_add_distrib]
  apply Finset.sum_congr rfl
  intro b _
  by_cases hk : k ≤ b.val
  · rw [if_pos hk, if_neg (Nat.not_lt.mpr hk), Nat.add_zero]
  · rw [if_neg hk, if_pos (Nat.lt_of_not_le hk), Nat.zero_add]

theorem sum_from_antitone (g : Fin n → Nat) {k l : Nat} (h : k ≤ l) :
    (∑ b : Fin n, if l ≤ b.val then g b else 0) ≤ ∑ b : Fin n, if k ≤ b.val then g b else 0 := by
  apply Finset.sum_le_sum
  intro b _
  by_cases hl : l ≤ b.val
  · rw [if_pos hl, if_pos (h.trans hl)]
  · rw [if_neg hl]
    exact Nat.zero_le _

theorem sum_from_pos_iff (g : Fin n → Nat) (k : Nat) :
    0 < (∑ b : Fin n, if k ≤ b.val then g b else 0) ↔ ∃ b : Fin n, k ≤ b.val ∧ g b ≠ 0 := by
  rw [Nat.pos_iff_ne_zero, Ne, Finset.sum_eq_zero_iff]
  simp

/-! ## Histograms of a multiset -/

/-- The buckets from `k` on hold the elements that `f` puts at `k` or later. -/
theorem sum_from_countP {α : Type} (f : α → Nat) (S : Multiset α) (hf : ∀ v ∈ S, f v < n)
    (k : Nat) : (∑ b : Fin n, if k ≤ b.val then S.countP (fun v => f v = b.val) else 0) =
      S.countP fun v => k ≤ f v := by
  induction S using Multiset.induction with
  | empty => simp
  | cons v S ih =>
      have hv : f v < n := hf v (Multiset.mem_cons_self v S)
      have hS : ∀ w ∈ S, f w < n := fun w hw => hf w (Multiset.mem_cons_of_mem hw)
      -- `v` adds one to its own bucket, if that is at `k` or later
      have hone : ∀ b : Fin n,
          (if k ≤ b.val then (v ::ₘ S).countP (fun w => f w = b.val) else 0) =
            (if k ≤ b.val then S.countP (fun w => f w = b.val) else 0) +
              if b = ⟨f v, hv⟩ then (if k ≤ f v then 1 else 0) else 0 := by
        intro b
        rw [Multiset.countP_cons]
        by_cases hb : b = ⟨f v, hv⟩
        · subst hb
          by_cases hk : k ≤ f v <;> simp [hk]
        · have hne : f v ≠ b.val := fun h => hb (Fin.ext h.symm)
          simp [hb, hne]
      rw [Finset.sum_congr rfl fun b _ => hone b, Finset.sum_add_distrib, ih hS,
        Finset.sum_ite_eq' Finset.univ, if_pos (Finset.mem_univ _), Multiset.countP_cons]

end Lib
