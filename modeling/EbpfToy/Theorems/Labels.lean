import EbpfToy.Go.Report

/-!
# runqlat's labels and runqlat's buckets

The kernel side puts a delta into the bucket of its floor logarithm; user space
labels bucket `i` with `[1 << i, 1 << (i + 1))`. Units aside, the label of a
delta's bucket contains the delta and no other label does, up to bucket 62. The
upper bound of bucket 63 is shifted out of the word: its label is empty.
-/

namespace EbpfToy.Runqlat

open Lib

/-- Among `rows`, the row of the delta's bucket contains the delta, and no other
row does. -/
def Inverts (rows : List CsvRow) (delta : UInt64) : Prop :=
  ∃ r ∈ rows, r.bucket = (log2BucketU64 delta).toNat ∧ r.Contains delta.toNat ∧
    ∀ r' ∈ rows, r'.Contains delta.toNat → r' = r

/-- The row that is written for bucket `b` of the counts `g`. -/
def rowAt (g : Fin maxSlots → UInt64) (b : Fin maxSlots) : CsvRow :=
  ⟨b.val, (inlineRange b.val).1, (inlineRange b.val).2, g b⟩

variable {g : Fin maxSlots → UInt64}

theorem mem_saveCSV {r : CsvRow} : r ∈ saveCSV (List.ofFn g) ↔ ∃ b, r = rowAt g b := mem_rowsOf

/-- A row is printed unless it is empty and past bucket 25. -/
theorem mem_printHist {r : CsvRow} :
    r ∈ printHist (List.ofFn g) ↔ ∃ b, r = rowAt g b ∧ (g b ≠ 0 ∨ b.val ≤ 25) := by
  have hkept : ∀ b, (!((rowAt g b).count == 0 && decide ((rowAt g b).bucket > 25))) = true ↔
      g b ≠ 0 ∨ b.val ≤ 25 := by
    intro b
    simp only [rowAt, Bool.not_eq_true', Bool.and_eq_false_iff, beq_eq_false_iff_ne,
      decide_eq_false_iff_not, gt_iff_lt, Nat.not_lt]
  rw [printHist, List.mem_filter]
  constructor
  · rintro ⟨hr, hkeep⟩
    obtain ⟨b, rfl⟩ := mem_saveCSV.mp hr
    exact ⟨b, rfl, (hkept b).mp hkeep⟩
  · rintro ⟨b, rfl, hb⟩
    exact ⟨mem_saveCSV.mpr ⟨b, rfl⟩, (hkept b).mpr hb⟩

/-- Below `2^63` the row of a bucket contains the deltas of that bucket only. -/
theorem rowAt_contains_iff {delta : UInt64} (hpos : 1 ≤ delta) (hlt : delta.toNat < 2 ^ 63)
    (b : Fin maxSlots) : (rowAt g b).Contains delta.toNat ↔ b = slot delta := by
  have hne : delta.toNat ≠ 0 := Nat.one_le_iff_ne_zero.mp (UInt64.le_iff_toNat_le.mp hpos)
  rw [rowAt, contains_inlineRange_iff_of_lt b.isLt hlt, and_iff_right hne, Fin.ext_iff]
  show _ ↔ b.val = (log2BucketU64 delta).toNat
  rw [toNat_log2BucketU64]
  exact eq_comm

/-- From `2^63` on the bucket is the last one, and its row contains nothing. -/
theorem not_rowAt_contains {delta : UInt64} (hge : 2 ^ 63 ≤ delta.toNat) :
    ¬ (rowAt g (slot delta)).Contains delta.toNat := by
  have htop : slot delta = ⟨63, by decide⟩ := by
    rw [Fin.ext_iff]
    show (log2BucketU64 delta).toNat = 63
    rw [toNat_log2BucketU64]
    exact Nat.log_eq_of_pow_le_of_lt_pow hge delta.toNat_lt
  rw [htop]
  exact not_contains_inlineRange_top _ _

/-- Rows among which the row of the delta's bucket is one: they invert the
bucketing exactly below `2^63`. -/
theorem inverts_iff {rows : List CsvRow} (hrows : ∀ r ∈ rows, ∃ b, r = rowAt g b)
    {delta : UInt64} (hpos : 1 ≤ delta) (hmem : rowAt g (slot delta) ∈ rows) :
    Inverts rows delta ↔ delta.toNat < 2 ^ 63 := by
  constructor
  · rintro ⟨r, hr, hbucket, hcontains, -⟩
    obtain ⟨b, rfl⟩ := hrows r hr
    obtain rfl : b = slot delta := Fin.ext hbucket
    by_contra hge
    exact not_rowAt_contains (Nat.le_of_not_lt hge) hcontains
  · intro hlt
    refine ⟨_, hmem, rfl, (rowAt_contains_iff hpos hlt _).mpr rfl, fun r' hr' hcontains => ?_⟩
    obtain ⟨b, rfl⟩ := hrows r' hr'
    rw [(rowAt_contains_iff hpos hlt b).mp hcontains]

theorem inverts_saveCSV_iff (g : Fin maxSlots → UInt64) {delta : UInt64} (hpos : 1 ≤ delta) :
    Inverts (saveCSV (List.ofFn g)) delta ↔ delta.toNat < 2 ^ 63 :=
  inverts_iff (fun _ => mem_saveCSV.mp) hpos (mem_saveCSV.mpr ⟨_, rfl⟩)

theorem inverts_printHist_iff (g : Fin maxSlots → UInt64) {delta : UInt64} (hpos : 1 ≤ delta)
    (hprinted : g (slot delta) ≠ 0 ∨ (slot delta).val ≤ 25) :
    Inverts (printHist (List.ofFn g)) delta ↔ delta.toNat < 2 ^ 63 := by
  refine inverts_iff (fun r hr => ?_) hpos (mem_printHist.mpr ⟨_, rfl, hprinted⟩)
  obtain ⟨b, hb, -⟩ := mem_printHist.mp hr
  exact ⟨b, hb⟩

/-- The labels invert the bucketing of a delta exactly below `2^63`, in the CSV
and, where the row of its bucket is printed, on the terminal. -/
theorem labels_invert_iff (g : Fin maxSlots → UInt64) (delta : UInt64) (hpos : 1 ≤ delta) :
    (Inverts (saveCSV (List.ofFn g)) delta ↔ delta.toNat < 2 ^ 63) ∧
    (g (slot delta) ≠ 0 ∨ (slot delta).val ≤ 25 →
      (Inverts (printHist (List.ofFn g)) delta ↔ delta.toNat < 2 ^ 63)) :=
  ⟨inverts_saveCSV_iff g hpos, inverts_printHist_iff g hpos⟩

/-- A delta of 5 milliseconds, in the histogram of one such wait. -/
theorem labels_invert_iff_wait :
    (Inverts (saveCSV (List.ofFn fun b => if b = slot 5000000 then 1 else 0)) 5000000 ↔
      (5000000 : UInt64).toNat < 2 ^ 63) ∧
    (Inverts (printHist (List.ofFn fun b => if b = slot 5000000 then 1 else 0)) 5000000 ↔
      (5000000 : UInt64).toNat < 2 ^ 63) := by
  have h := labels_invert_iff (fun b => if b = slot 5000000 then 1 else 0) 5000000 (by decide)
  exact ⟨h.1, h.2 (.inl (by rw [if_pos rfl]; decide))⟩

/-- `2^63`. -/
def longDelta : UInt64 := 9223372036854775808

/-- A thread that is woken at 0 and switched in at `2^63`. -/
def longWait {cpus : Nat} (cpu : Fin cpus) : List (Ev cpus) :=
  [.wakeup cpu 0 7, .switch cpu longDelta 7]

/-- The wait is counted in bucket 63, and no row of that bucket contains it. -/
theorem labels_invert_longWait :
    (probe 1 maxEntries).hist ((probe 1 maxEntries).run (longWait soleCopy)) (slot longDelta) = 1 ∧
    ¬ Inverts (saveCSV (List.ofFn ((probe 1 maxEntries).hist
      ((probe 1 maxEntries).run (longWait soleCopy))))) longDelta ∧
    ¬ Inverts (printHist (List.ofFn ((probe 1 maxEntries).hist
      ((probe 1 maxEntries).run (longWait soleCopy))))) longDelta := by
  have hcount : (probe 1 maxEntries).hist ((probe 1 maxEntries).run (longWait soleCopy))
      (slot longDelta) = 1 := rfl
  have hpos : 1 ≤ longDelta := by decide
  have hge : ¬ longDelta.toNat < 2 ^ 63 := by decide
  refine ⟨hcount, fun h => hge ((inverts_saveCSV_iff _ hpos).mp h), fun h => ?_⟩
  exact hge ((inverts_printHist_iff _ hpos (.inl (by rw [hcount]; decide))).mp h)

end EbpfToy.Runqlat
