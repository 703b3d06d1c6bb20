import EbpfToy.Go.Report
import EbpfToy.Lib.Buckets

/-!
# runqlat's summary

The three figures of the summary that `main` computes from the counts: the
total, the tail from a threshold on, and the last bucket that is not empty.
They agree with each other and with the values the histogram was made of; a
threshold between two powers of two rounds up, so the tail may miss values but
never counts one that is below the threshold.
-/

namespace EbpfToy.Runqlat

open Lib

/-- `g` is the histogram, by floor logarithm, of the values `S`. -/
structure HistogramOf (g : Fin maxSlots → UInt64) (S : Multiset UInt64) : Prop where
  pos : ∀ v ∈ S, 1 ≤ v
  count : ∀ b, (g b).toNat = S.countP fun v => Nat.log 2 v.toNat = b.val

/-! ## The three loops -/

theorem le_shl_one_iff {t : UInt64} {b : Nat} (hb : b < 64) :
    decide (t ≤ shl 1 b) = true ↔ t.toNat ≤ 2 ^ b := by
  rw [decide_eq_true_iff, UInt64.le_iff_toNat_le, toNat_shl_one hb]

/-- The search finds the first bucket whose lower bound reaches the threshold. -/
theorem startBucket_le_iff (t : UInt64) {b : Nat} (hb : b < maxSlots) :
    startBucket t ≤ b ↔ t.toNat ≤ 2 ^ b := by
  have hmono : ∀ i j, i ≤ j → j < maxSlots → decide (t ≤ shl 1 i) = true →
      decide (t ≤ shl 1 j) = true := by
    intro i j hij hj hi
    rw [le_shl_one_iff (hij.trans_lt hj)] at hi
    rw [le_shl_one_iff hj]
    exact hi.trans (Nat.pow_le_pow_right Nat.two_pos hij)
  rw [startBucket, getD_find?_range_le_iff hmono hb, le_shl_one_iff hb]

/-- A higher threshold starts at a later bucket. -/
theorem startBucket_mono {t t' : UInt64} (h : t ≤ t') : startBucket t ≤ startBucket t' := by
  by_cases hlt : startBucket t' < maxSlots
  · rw [startBucket_le_iff t hlt]
    exact (UInt64.le_iff_toNat_le.mp h).trans ((startBucket_le_iff t' hlt).mp (Nat.le_refl _))
  · refine le_trans ?_ (Nat.le_of_not_lt hlt)
    -- the search never goes past the last bucket
    rw [startBucket]
    cases hfind : (List.range maxSlots).find? fun i => decide (t ≤ shl 1 i) with
    | none => exact Nat.le_refl _
    | some i => exact (List.mem_range.mp (List.find?_range_eq_some.mp hfind).2.1).le

theorem getD_ofFn (g : Fin maxSlots → UInt64) (b : Fin maxSlots) :
    (List.ofFn g).getD b.val 0 = g b := by
  simp

/-- The backward scan finds nothing in an empty histogram, and otherwise the
last bucket that is not empty. -/
theorem maxBucket_cases (g : Fin maxSlots → UInt64) :
    (maxBucket (List.ofFn g) = -1 ∧ ∀ b, g b = 0) ∨
    ∃ b : Fin maxSlots, maxBucket (List.ofFn g) = b.val ∧ g b ≠ 0 ∧ ∀ b', b < b' → g b' = 0 := by
  have hzero : ∀ b : Fin maxSlots, decide ((List.ofFn g).getD b.val 0 > 0) = false ↔ g b = 0 := by
    intro b
    rw [getD_ofFn, decide_eq_false_iff_not, gt_iff_lt, UInt64.pos_iff_ne_zero, not_not]
  rw [maxBucket, List.length_ofFn]
  cases hfind : (List.range maxSlots).reverse.find?
      fun i => decide ((List.ofFn g).getD i 0 > 0) with
  | none =>
      refine .inl ⟨rfl, fun b => ?_⟩
      exact (hzero b).mp (find?_reverse_range_eq_none.mp hfind b b.isLt)
  | some i =>
      obtain ⟨hp, hi, hlast⟩ := find?_reverse_range_eq_some.mp hfind
      refine .inr ⟨⟨i, hi⟩, rfl, fun hg => ?_, fun b' hb' => ?_⟩
      · rw [(hzero ⟨i, hi⟩).mpr hg] at hp
        contradiction
      · exact (hzero b').mp (hlast b' hb' b'.isLt)

/-! ## The figures agree -/

variable {g : Fin maxSlots → UInt64}

/-- Tail and rest make up the total. -/
theorem sumTail_add_rest (hfit : ∑ b, (g b).toNat < 2 ^ 64) (t : UInt64) :
    (sumTail (List.ofFn g) t).toNat +
        (∑ b : Fin maxSlots, if 2 ^ b.val < t.toNat then (g b).toNat else 0) =
      (wordSum (List.ofFn g)).toNat := by
  have hrest : ∀ b : Fin maxSlots, 2 ^ b.val < t.toNat ↔ b.val < startBucket t := by
    intro b
    rw [← Nat.not_le, ← startBucket_le_iff t b.isLt, Nat.not_le]
  simp only [hrest]
  rw [toNat_sumTail_eq hfit, toNat_wordSum_ofFn hfit]
  exact sum_from_add_sum_before (fun b => (g b).toNat) (startBucket t)

theorem sumTail_antitone (hfit : ∑ b, (g b).toNat < 2 ^ 64) {t t' : UInt64} (h : t ≤ t') :
    sumTail (List.ofFn g) t' ≤ sumTail (List.ofFn g) t := by
  rw [UInt64.le_iff_toNat_le, toNat_sumTail_eq hfit, toNat_sumTail_eq hfit]
  exact sum_from_antitone (fun b => (g b).toNat) (startBucket_mono h)

theorem total_eq_zero_iff (hfit : ∑ b, (g b).toNat < 2 ^ 64) :
    wordSum (List.ofFn g) = 0 ↔ ∀ b, g b = 0 := by
  rw [← UInt64.toNat_inj, toNat_wordSum_ofFn hfit, UInt64.toNat_zero, Finset.sum_eq_zero_iff]
  simp only [Finset.mem_univ, true_imp_iff]
  exact forall_congr' fun b => UInt64.toNat_inj (b := 0)

theorem maxBucket_eq_neg_one_iff (hfit : ∑ b, (g b).toNat < 2 ^ 64) :
    maxBucket (List.ofFn g) = -1 ↔ wordSum (List.ofFn g) = 0 := by
  rw [total_eq_zero_iff hfit]
  rcases maxBucket_cases g with ⟨hmax, hempty⟩ | ⟨b, hmax, hb, -⟩
  · exact iff_of_true hmax hempty
  · refine iff_of_false (fun h => ?_) (fun hempty => hb (hempty b))
    rw [hmax] at h
    omega

theorem maxBucket_of_total (hfit : ∑ b, (g b).toNat < 2 ^ 64) (h : wordSum (List.ofFn g) ≠ 0) :
    ∃ b : Fin maxSlots, maxBucket (List.ofFn g) = b.val ∧ g b ≠ 0 ∧ ∀ b', b < b' → g b' = 0 := by
  rcases maxBucket_cases g with ⟨-, hempty⟩ | hlast
  · exact absurd ((total_eq_zero_iff hfit).mpr hempty) h
  · exact hlast

/-- There is a tail exactly when the last bucket reaches the threshold. -/
theorem sumTail_pos_iff (hfit : ∑ b, (g b).toNat < 2 ^ 64) (t : UInt64) :
    0 < sumTail (List.ofFn g) t ↔
      0 ≤ maxBucket (List.ofFn g) ∧ t.toNat ≤ 2 ^ (maxBucket (List.ofFn g)).toNat := by
  rw [UInt64.lt_iff_toNat_lt, UInt64.toNat_zero, toNat_sumTail_eq hfit,
    sum_from_pos_iff fun b => (g b).toNat]
  have hne : ∀ b, (g b).toNat ≠ 0 ↔ g b ≠ 0 := fun b => (UInt64.toNat_inj (b := 0)).not
  rcases maxBucket_cases g with ⟨hmax, hempty⟩ | ⟨b, hmax, hb, hlast⟩
  · refine iff_of_false ?_ (fun h => ?_)
    · rintro ⟨b, -, hb⟩
      exact (hne b).mp hb (hempty b)
    · rw [hmax] at h
      omega
  · rw [hmax, Int.toNat_natCast, ← startBucket_le_iff t b.isLt]
    constructor
    · -- a bucket of the tail that is not empty lies at or before the last one
      rintro ⟨b', hle, hb'⟩
      have hbb : b' ≤ b := by
        by_contra hlt
        exact (hne b').mp hb' (hlast b' (lt_of_not_ge hlt))
      exact ⟨Int.natCast_nonneg _, hle.trans hbb⟩
    · rintro ⟨-, hle⟩
      exact ⟨b, hle, (hne b).mpr hb⟩

/-! ## The values behind the histogram -/

variable {S : Multiset UInt64}

/-- The tail counts the values whose bucket reaches the threshold. -/
theorem sumTail_eq_countP (hfit : ∑ b, (g b).toNat < 2 ^ 64) (hS : HistogramOf g S) (t : UInt64) :
    (sumTail (List.ofFn g) t).toNat = S.countP fun v => startBucket t ≤ Nat.log 2 v.toNat := by
  have hsum := sum_from_countP (n := maxSlots) (fun v : UInt64 => Nat.log 2 v.toNat) S
    (fun v _ => log_toNat_lt v) (startBucket t)
  rw [toNat_sumTail_eq hfit, ← hsum]
  simp only [hS.count]

/-- A value whose bucket reaches the threshold reaches it itself. -/
theorem le_of_startBucket_le {t v : UInt64} (hv : 1 ≤ v) (h : startBucket t ≤ Nat.log 2 v.toNat) :
    t ≤ v := by
  rw [UInt64.le_iff_toNat_le] at hv ⊢
  rw [startBucket_le_iff t (log_toNat_lt v)] at h
  exact h.trans (Nat.pow_log_le_self 2 (Nat.one_le_iff_ne_zero.mp hv))

/-- At zero and at powers of two the converse holds. -/
theorem startBucket_le_of_le {t v : UInt64} (ht : t = 0 ∨ ∃ k, t.toNat = 2 ^ k) (hv : 1 ≤ v)
    (h : t ≤ v) : startBucket t ≤ Nat.log 2 v.toNat := by
  rw [UInt64.le_iff_toNat_le] at hv h
  rw [startBucket_le_iff t (log_toNat_lt v)]
  rcases ht with rfl | ⟨k, hk⟩
  · exact Nat.zero_le _
  · rw [hk] at h ⊢
    exact Nat.pow_le_pow_right Nat.two_pos
      ((Nat.le_log_iff_pow_le Nat.one_lt_two (Nat.one_le_iff_ne_zero.mp hv)).mpr h)

theorem sumTail_le_countP (hfit : ∑ b, (g b).toNat < 2 ^ 64) (hS : HistogramOf g S) (t : UInt64) :
    (sumTail (List.ofFn g) t).toNat ≤ S.countP fun v => t ≤ v := by
  rw [sumTail_eq_countP hfit hS, Multiset.countP_eq_card_filter, Multiset.countP_eq_card_filter]
  apply Multiset.card_le_card
  rw [Multiset.le_filter]
  refine ⟨Multiset.filter_le _ _, fun v hv => ?_⟩
  obtain ⟨hmem, hle⟩ := Multiset.mem_filter.mp hv
  exact le_of_startBucket_le (hS.pos v hmem) hle

theorem sumTail_eq_countP_of_power (hfit : ∑ b, (g b).toNat < 2 ^ 64) (hS : HistogramOf g S)
    {t : UInt64} (ht : t = 0 ∨ ∃ k, t.toNat = 2 ^ k) :
    (sumTail (List.ofFn g) t).toNat = S.countP fun v => t ≤ v := by
  rw [sumTail_eq_countP hfit hS]
  apply Multiset.countP_congr rfl
  intro v hv
  rw [eq_iff_iff]
  exact ⟨le_of_startBucket_le (hS.pos v hv), startBucket_le_of_le ht (hS.pos v hv)⟩

/-- The figures of the summary agree with each other and with the values the
histogram was made of. -/
structure Coherent (g : Fin maxSlots → UInt64) : Prop where
  split : ∀ t, (sumTail (List.ofFn g) t).toNat +
    (∑ b : Fin maxSlots, if 2 ^ b.val < t.toNat then (g b).toNat else 0) =
      (wordSum (List.ofFn g)).toNat
  antitone : ∀ t t', t ≤ t' → sumTail (List.ofFn g) t' ≤ sumTail (List.ofFn g) t
  empty : maxBucket (List.ofFn g) = -1 ↔ wordSum (List.ofFn g) = 0
  largest : wordSum (List.ofFn g) ≠ 0 →
    ∃ b : Fin maxSlots, maxBucket (List.ofFn g) = b.val ∧ g b ≠ 0 ∧ ∀ b', b < b' → g b' = 0
  tail_pos : ∀ t, 0 < sumTail (List.ofFn g) t ↔
    0 ≤ maxBucket (List.ofFn g) ∧ t.toNat ≤ 2 ^ (maxBucket (List.ofFn g)).toNat
  tail_le : ∀ S, HistogramOf g S → ∀ t,
    (sumTail (List.ofFn g) t).toNat ≤ S.countP fun v => t ≤ v
  tail_eq : ∀ S, HistogramOf g S → ∀ t, (t = 0 ∨ ∃ k, t.toNat = 2 ^ k) →
    (sumTail (List.ofFn g) t).toNat = S.countP fun v => t ≤ v

/-- Whatever the histogram, as long as its sum fits into 64 bits. -/
theorem summary_coherent (g : Fin maxSlots → UInt64) (hfit : ∑ b, (g b).toNat < 2 ^ 64) :
    Coherent g where
  split := sumTail_add_rest hfit
  antitone _ _ := sumTail_antitone hfit
  empty := maxBucket_eq_neg_one_iff hfit
  largest := maxBucket_of_total hfit
  tail_pos := sumTail_pos_iff hfit
  tail_le _ hS t := sumTail_le_countP hfit hS t
  tail_eq _ hS _ ht := sumTail_eq_countP_of_power hfit hS ht

/-- A histogram with one value in each bucket, the last one included. -/
theorem summary_coherent_ones : Coherent fun _ => 1 :=
  summary_coherent (fun _ => 1) (by decide)

end EbpfToy.Runqlat
