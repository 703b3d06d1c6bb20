import Mathlib.Data.Nat.Log
import Mathlib.Algebra.BigOperators.Fin
import Mathlib.Algebra.Order.BigOperators.Group.Finset
import Mathlib.Tactic.Common

/-!
# 64-bit words

Shifts, logarithms and wrapping sums of `UInt64`, read as natural numbers.
-/

namespace Lib

theorem toNat_shiftRight_one (v : UInt64) : (v >>> 1).toNat = v.toNat / 2 := by
  rw [UInt64.toNat_shiftRight, Nat.shiftRight_eq_div_pow]
  rfl

theorem log_toNat_lt (v : UInt64) : Nat.log 2 v.toNat < 64 :=
  Nat.log_lt_of_lt_pow' (by decide) v.toNat_lt

theorem two_le_of_shiftRight_ne_zero {v : UInt64} (h : v >>> 1 ≠ 0) : 2 ≤ v.toNat := by
  by_contra hlt
  apply h
  apply UInt64.toNat_inj.mp
  rw [toNat_shiftRight_one, UInt64.toNat_zero]
  omega

/-- One halving lowers the logarithm by one. -/
theorem log_toNat_shiftRight_one {v : UInt64} (h : 2 ≤ v.toNat) :
    Nat.log 2 v.toNat = Nat.log 2 (v >>> 1).toNat + 1 := by
  rw [toNat_shiftRight_one]
  exact Nat.log_of_one_lt_of_le Nat.one_lt_two h

theorem toNat_add_one {b : UInt32} (h : b.toNat < 64) : (b + 1).toNat = b.toNat + 1 := by
  rw [UInt32.toNat_add, UInt32.toNat_one]
  omega

/-- Adding one always changes a word, also where it wraps. -/
theorem add_one_ne (x : UInt64) : x + 1 ≠ x := by
  rw [Ne, UInt64.add_eq_left]
  decide

/-- `v >> i` tests whether `v` reaches `2^i`. -/
theorem shiftRight_ne_zero_iff (v : UInt64) {i : Nat} (hi : i < 64) :
    v >>> UInt64.ofNat i ≠ 0 ↔ 2 ^ i ≤ v.toNat := by
  have hmod : (UInt64.ofNat i).toNat % 64 = i := by
    rw [UInt64.toNat_ofNat']
    omega
  rw [← UInt64.toNat_inj.ne, UInt64.toNat_shiftRight, hmod, Nat.shiftRight_eq_div_pow]
  show v.toNat / 2 ^ i ≠ 0 ↔ _
  rw [Nat.div_ne_zero_iff]
  exact ⟨fun h => h.2, fun h => ⟨(Nat.two_pow_pos i).ne', h⟩⟩

/-! ## Wrapping sums -/

/-- The sum a loop `for _, v := range l { s += v }` computes. -/
def wordSum (l : List UInt64) : UInt64 := l.foldl (· + ·) 0

private theorem foldl_add_eq (l : List UInt64) (s : UInt64) :
    l.foldl (· + ·) s = s + UInt64.ofNat (l.map UInt64.toNat).sum := by
  induction l generalizing s with
  | nil => simp
  | cons x l ih =>
      rw [List.foldl_cons, ih, List.map_cons, List.sum_cons, UInt64.ofNat_add,
        UInt64.ofNat_toNat, UInt64.add_assoc]

/-- A wrapping sum is the true sum modulo `2^64`. -/
theorem wordSum_eq (l : List UInt64) :
    wordSum l = UInt64.ofNat (l.map UInt64.toNat).sum := by
  rw [wordSum, foldl_add_eq, UInt64.zero_add]

theorem toNat_wordSum {l : List UInt64} (h : (l.map UInt64.toNat).sum < 2 ^ 64) :
    (wordSum l).toNat = (l.map UInt64.toNat).sum := by
  rw [wordSum_eq, UInt64.toNat_ofNat']
  exact Nat.mod_eq_of_lt h

/-- Words that stand for `f x` modulo `2^64` have a wrapping sum that stands
for the sum of the `f x`. -/
theorem wordSum_map_ofNat {A : Type} (f : A → Nat) (l : List A) :
    wordSum (l.map fun x => UInt64.ofNat (f x)) = UInt64.ofNat (l.map f).sum := by
  induction l with
  | nil => rfl
  | cons x l ih =>
      have hcons : wordSum ((x :: l).map fun x => UInt64.ofNat (f x)) =
          UInt64.ofNat (f x) + wordSum (l.map fun x => UInt64.ofNat (f x)) := by
        rw [wordSum_eq, wordSum_eq, List.map_cons, List.map_cons, List.sum_cons,
          UInt64.ofNat_add, UInt64.ofNat_toNat]
      rw [hcons, ih, List.map_cons, List.sum_cons, UInt64.ofNat_add]

theorem wordSum_ofFn {n : Nat} (f : Fin n → Nat) :
    wordSum (List.ofFn fun i => UInt64.ofNat (f i)) = UInt64.ofNat (∑ i, f i) := by
  rw [List.ofFn_eq_map, wordSum_map_ofNat, Fin.sum_univ_def]

theorem wordSum_ofFn_one (g : Fin 1 → UInt64) : wordSum (List.ofFn g) = g 0 := by
  simp [wordSum]

theorem toNat_wordSum_ofFn {n : Nat} {g : Fin n → UInt64} (h : ∑ i, (g i).toNat < 2 ^ 64) :
    (wordSum (List.ofFn g)).toNat = ∑ i, (g i).toNat := by
  have hsum : ((List.ofFn g).map UInt64.toNat).sum = ∑ i, (g i).toNat := by
    rw [List.map_ofFn, List.sum_ofFn]
    rfl
  rw [toNat_wordSum (by rw [hsum]; exact h), hsum]

/-- Bounds on the words bound their sum, when the upper ones add up to less
than `2^64`. -/
theorem wordSum_ofFn_between {n : Nat} {g : Fin n → UInt64} {lo hi : Fin n → Nat}
    (h : ∀ i, lo i ≤ (g i).toNat ∧ (g i).toNat ≤ hi i) (hfit : ∑ i, hi i < 2 ^ 64) :
    (wordSum (List.ofFn g)).toNat = ∑ i, (g i).toNat ∧
      ∑ i, lo i ≤ (wordSum (List.ofFn g)).toNat ∧ (wordSum (List.ofFn g)).toNat ≤ ∑ i, hi i := by
  have hle : ∑ i, (g i).toNat ≤ ∑ i, hi i := Finset.sum_le_sum fun i _ => (h i).2
  have hsum := toNat_wordSum_ofFn (hle.trans_lt hfit)
  refine ⟨hsum, ?_, ?_⟩
  · rw [hsum]
    exact Finset.sum_le_sum fun i _ => (h i).1
  · rw [hsum]
    exact hle

/-- The sum of a list from index `k` on. -/
theorem sum_drop_ofFn {n : Nat} (g : Fin n → Nat) (k : Nat) :
    ((List.ofFn g).drop k).sum = ∑ b : Fin n, if k ≤ b.val then g b else 0 := by
  induction n generalizing k with
  | zero => simp
  | succ n ih =>
      rw [Fin.sum_univ_succ, List.ofFn_succ]
      cases k with
      | zero => simp [List.sum_ofFn]
      | succ k => simp [ih]

/-- A larger tail term by term is a larger tail. -/
theorem sum_tail_mono {n : Nat} {f g : Fin n → Nat} (h : ∀ b, f b ≤ g b) (k : Nat) :
    (∑ b : Fin n, if k ≤ b.val then f b else 0) ≤ ∑ b : Fin n, if k ≤ b.val then g b else 0 := by
  apply Finset.sum_le_sum
  intro b _
  split
  · exact h b
  · exact Nat.le_refl 0

theorem sum_tail_le {n : Nat} (g : Fin n → Nat) (k : Nat) :
    (∑ b : Fin n, if k ≤ b.val then g b else 0) ≤ ∑ b : Fin n, g b := by
  apply Finset.sum_le_sum
  intro b _
  split
  · exact Nat.le_refl _
  · exact Nat.zero_le _

/-! ## Filling a slice -/

/-- Two accumulators that do not look at each other. -/
theorem foldl_pair {A B C : Type} (F : A → C → A) (G : B → C → B) (l : List C) (a : A) (b : B) :
    l.foldl (fun acc x => (F acc.1 x, G acc.2 x)) (a, b) = (l.foldl F a, l.foldl G b) := by
  induction l generalizing a b with
  | nil => rfl
  | cons x l ih => exact ih (F a x) (G b x)

/-- Store a value, if there is one, at index `i`. -/
def setSome (l : List UInt64) (i : Nat) : Option UInt64 → List UInt64
  | none => l
  | some v => l.set i v

/-- Add a value, if there is one. -/
def addSome (s : UInt64) : Option UInt64 → UInt64
  | none => s
  | some v => s + v

/-- Filling a zeroed slice of length `n` at the indices below `k`, where an index
without a value is skipped. -/
theorem foldl_setSome (val : Nat → Option UInt64) {n k : Nat} (hk : k ≤ n) :
    (List.range k).foldl (fun l i => setSome l i (val i)) (List.replicate n 0) =
      (List.range k).map (fun i => (val i).getD 0) ++ List.replicate (n - k) 0 := by
  induction k with
  | zero => simp
  | succ k ih =>
      have hlen : ((List.range k).map fun i => (val i).getD 0).length = k := by simp
      have hrest : List.replicate (n - k) (0 : UInt64) = 0 :: List.replicate (n - (k + 1)) 0 := by
        rw [show n - k = n - (k + 1) + 1 by omega, List.replicate_succ]
      rw [List.range_succ, List.foldl_append, ih (by omega), List.map_append, List.map_singleton,
        List.foldl_cons, List.foldl_nil, hrest, List.append_assoc, List.singleton_append]
      cases hval : val k with
      | none => rfl
      | some v =>
          show List.set _ k v = _
          rw [List.set_append_right _ _ (by omega), hlen, Nat.sub_self, List.set_cons_zero,
            Option.getD_some]

theorem foldl_set (f : Nat → UInt64) {n k : Nat} (hk : k ≤ n) :
    (List.range k).foldl (fun l i => l.set i (f i)) (List.replicate n 0) =
      (List.range k).map f ++ List.replicate (n - k) 0 :=
  foldl_setSome (fun i => some (f i)) hk

/-- Adding up the values there are. -/
theorem foldl_addSome (val : Nat → Option UInt64) (l : List Nat) (s : UInt64) :
    l.foldl (fun s i => addSome s (val i)) s =
      (l.map fun i => (val i).getD 0).foldl (· + ·) s := by
  induction l generalizing s with
  | nil => rfl
  | cons i l ih =>
      rw [List.foldl_cons, ih, List.map_cons, List.foldl_cons]
      cases val i with
      | none => rw [Option.getD_none, UInt64.add_zero, addSome]
      | some v => rfl

/-- A function on `Fin n` listed by a loop over `range n`. -/
theorem map_range_eq_ofFn {n : Nat} {f : Nat → UInt64} {g : Fin n → UInt64}
    (h : ∀ i : Fin n, f i.val = g i) : (List.range n).map f = List.ofFn g := by
  apply List.ext_getElem
  · simp
  · intro i hi _
    have hlt : i < n := by simpa using hi
    simpa using h ⟨i, hlt⟩

end Lib
