import EbpfToy.Bpf.Memlat
import EbpfToy.Bpf.Runqlat
import EbpfToy.Bpf.Iolat

/-!
# The three bucket loops

memlat shifts until nothing is left, runqlat tests every shift and keeps the
last success, iolat halves and saturates. The first two are the floor logarithm
on all 64-bit values, and the third is its minimum with 25.
-/

namespace EbpfToy

open Lib

/-- `b` is the floor logarithm of `v`, and zero for zero. -/
def IsFloorLog2 (v : UInt64) (b : Nat) : Prop :=
  (v = 0 → b = 0) ∧ (1 ≤ v → 2 ^ b ≤ v.toNat ∧ v.toNat < 2 ^ (b + 1))

theorem isFloorLog2_log (v : UInt64) : IsFloorLog2 v (Nat.log 2 v.toNat) := by
  refine ⟨?_, ?_⟩
  · rintro rfl
    rfl
  · intro hv
    rw [UInt64.le_iff_toNat_le] at hv
    exact ⟨Nat.pow_log_le_self 2 (Nat.one_le_iff_ne_zero.mp hv),
      Nat.lt_pow_succ_log_self Nat.one_lt_two _⟩

/-- A bucket that is a monotone function of the value is monotone. -/
theorem bucket_mono {f : UInt64 → UInt32} {F : Nat → Nat} (hF : Monotone F)
    (hf : ∀ v, (f v).toNat = F v.toNat) {v w : UInt64} (h : v ≤ w) : f v ≤ f w := by
  rw [UInt32.le_iff_toNat_le, hf, hf]
  exact hF (UInt64.le_iff_toNat_le.mp h)

theorem log_two_mono : Monotone (Nat.log 2) := fun _ _ => Nat.log_mono_right

/-- What the three loops compute, and where their buckets lie. -/
structure BucketLoopsAgree : Prop where
  memlat : ∀ v, IsFloorLog2 v (Memlat.log2BucketU64 v).toNat
  runqlat : ∀ v, IsFloorLog2 v (Runqlat.log2BucketU64 v).toNat
  same : ∀ v, Runqlat.log2BucketU64 v = Memlat.log2BucketU64 v
  iolat : ∀ v, (Iolat.log2Bucket v).toNat = min 25 (Memlat.log2BucketU64 v).toNat
  /-- Every index is within its array, from a value and from a delta. -/
  inside : ∀ v, (Memlat.log2BucketU64 v).toNat < Memlat.maxSlots ∧
    (Memlat.bucketOfDelta v).toNat < Memlat.maxSlots ∧
    (Runqlat.log2BucketU64 v).toNat < Runqlat.maxSlots ∧
    (Iolat.log2Bucket v).toNat < Iolat.maxSlots ∧
    (Iolat.bucketOfDelta v).toNat < Iolat.maxSlots
  memlat_mono : ∀ v w, v ≤ w → Memlat.log2BucketU64 v ≤ Memlat.log2BucketU64 w
  runqlat_mono : ∀ v w, v ≤ w → Runqlat.log2BucketU64 v ≤ Runqlat.log2BucketU64 w
  iolat_mono : ∀ v w, v ≤ w → Iolat.log2Bucket v ≤ Iolat.log2Bucket w
  /-- iolat does not lift a delta below a microsecond to one, memlat does. -/
  delta : ∀ deltaNs, (Iolat.bucketOfDelta deltaNs).toNat =
    min 25 (Memlat.bucketOfDelta deltaNs).toNat
  /-- These are the buckets that the handlers bump for the same delta. -/
  handlers : ∀ (cap cap' : Nat) (m : Iolat.Maps cap) (m' : Memlat.Maps cap')
    (rq now pidTgid now' tsp : UInt64) (info : Iolat.IolatStart) (error : UInt8)
    (nrBytes : UInt32), m.startTs.lookup rq = some info → m'.startTs.lookup pidTgid = some tsp →
    now - info.ts = now' - tsp →
    ∃ b b', (Iolat.iolatComplete rq now error nrBytes m).hist = m.hist.bump b ∧
      (Memlat.memlatExit pidTgid now' m').hist = m'.hist.bump b' ∧ b.toNat = min 25 b'.toNat

/-- Lifting zero to one does not change the logarithm. -/
theorem log_clampedUs (d : Nat) : Nat.log 2 (clampedUs d) = Nat.log 2 (d / 1000) := by
  rcases Nat.eq_zero_or_pos (d / 1000) with hzero | hpos
  · rw [clampedUs, hzero]
    rfl
  · rw [clampedUs, max_eq_right hpos]

theorem iolat_delta (d : UInt64) :
    (Iolat.bucketOfDelta d).toNat = min 25 (Memlat.bucketOfDelta d).toNat := by
  rw [Iolat.toNat_bucketOfDelta, Memlat.toNat_bucketOfDelta, log_clampedUs]

theorem bucket_loops_agree : BucketLoopsAgree where
  memlat v := by
    rw [Memlat.toNat_log2BucketU64]
    exact isFloorLog2_log v
  runqlat v := by
    rw [Runqlat.toNat_log2BucketU64]
    exact isFloorLog2_log v
  same v := by
    rw [← UInt32.toNat_inj, Runqlat.toNat_log2BucketU64, Memlat.toNat_log2BucketU64]
  iolat v := by rw [Iolat.toNat_log2Bucket, Memlat.toNat_log2BucketU64]
  inside v := by
    refine ⟨?_, Memlat.bucketOfDelta_lt v, Runqlat.log2BucketU64_lt v, ?_,
      Iolat.bucketOfDelta_lt v⟩
    · rw [Memlat.toNat_log2BucketU64]
      exact log_toNat_lt v
    · rw [Iolat.toNat_log2Bucket]
      exact Nat.lt_of_le_of_lt (Nat.min_le_left _ _) (by decide)
  memlat_mono _ _ h := bucket_mono log_two_mono Memlat.toNat_log2BucketU64 h
  runqlat_mono _ _ h := bucket_mono log_two_mono Runqlat.toNat_log2BucketU64 h
  iolat_mono _ _ h :=
    bucket_mono (F := fun n => min 25 (Nat.log 2 n))
      (fun _ _ hle => min_le_min_left 25 (log_two_mono hle)) Iolat.toNat_log2Bucket h
  delta := iolat_delta
  handlers _ _ m m' rq now pidTgid now' tsp info error nrBytes hl hl' hd := by
    refine ⟨_, _, ?_, ?_, iolat_delta (now - info.ts)⟩
    · rw [Iolat.iolatComplete_of_some hl]
    · rw [Memlat.memlatExit_of_some hl', hd]

end EbpfToy
