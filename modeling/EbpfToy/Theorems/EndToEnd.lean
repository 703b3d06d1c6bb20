import EbpfToy.Go.Report

/-!
# From kernel events to the saved report

What the rows of the CSV say, against the true latencies of the matched stops
of the run.

* memlat's rows are true of every run: dividing by 1000 keeps every latency
  below the row whose upper bound wraps.
* iolat's rows are true exactly when no latency is below one microsecond or
  past the last printed bound: the first bucket also takes 0 and the last one
  everything above.
* runqlat buckets nanoseconds and prints microseconds: the report is true
  exactly when every wait is at most one nanosecond.
-/

namespace EbpfToy

open Lib

variable {V : Type} {copies slots cap : Nat}

/-- The rows tell the truth about a run, when a latency of `d` nanoseconds
counts as `us d` microseconds. -/
structure CsvTrue (P : Probe V copies slots cap) (us : Nat → Nat) (rows : List CsvRow)
    (es : List P.Ev) : Prop where
  /-- A row counts the matched stops whose latency it contains. -/
  counts : ∀ r ∈ rows, r.count.toNat = P.latencyCount (fun d => r.Contains (us d)) es
  /-- A matched stop is counted in a row that contains its latency, and no
  other row contains it. -/
  once : ∀ a e b v, es = a ++ e :: b → P.Matches a e v →
    ∃ r ∈ rows, r.bucket = (P.trueSlot e v).val ∧ r.Contains (us (P.trueDiff e v)) ∧
      ∀ r' ∈ rows, r'.Contains (us (P.trueDiff e v)) → r' = r

/-- When the printed range of a row is the set of latencies that the kernel
puts in its bucket, the rows are true. -/
theorem csvTrue_of_contains_iff {P : Probe V copies slots cap} {us : Nat → Nat}
    {range : Nat → UInt64 × UInt64} {f : Nat → Nat}
    (hslot : ∀ d : UInt64, (P.slot d).val = f d.toNat) {es : List P.Ev}
    (hmono : P.NonDecreasing es) (hfit : P.NoOverflow es)
    (hrange : P.EveryLatency (fun d => ∀ (b : Fin slots) count,
      (CsvRow.mk b (range b).1 (range b).2 count).Contains (us d) ↔ f d = b) es) :
    CsvTrue P us (rowsOf range (List.ofFn (P.hist (P.run es)))) es where
  counts := by
    intro r hr
    obtain ⟨b, rfl⟩ := mem_rowsOf.mp hr
    rw [Probe.toNat_hist_run hfit, Probe.slotCount_eq_latencyCount hslot hmono]
    apply Probe.latencyCount_congr
    intro a e c v hes hv
    exact (hrange a e c v hes hv b _).symm
  once := by
    intro a e c v hes hv
    have hd := hrange a e c v hes hv
    have hval := Probe.val_trueSlot hslot e v
    refine ⟨_, mem_rowsOf.mpr ⟨P.trueSlot e v, rfl⟩, rfl, (hd _ _).mpr hval.symm, ?_⟩
    intro r' hr' hcontains
    obtain ⟨b, rfl⟩ := mem_rowsOf.mp hr'
    have hb : b = P.trueSlot e v := Fin.ext (by rw [hval, (hd b _).mp hcontains])
    rw [hb]

/-! ## memlat -/

/-- memlat's bucket of a latency in nanoseconds. -/
def Memlat.slotOf (d : Nat) : Nat := Nat.log 2 (clampedUs d)

theorem Memlat.val_slot (d : UInt64) : (slot d).val = slotOf d.toNat := toNat_bucketOfDelta d

/-- No `delta_ns` reaches the rows from `2^55` microseconds on. -/
theorem clampedUs_lt {d : Nat} (h : d < 2 ^ 64) : clampedUs d < 2 ^ 55 := by
  unfold clampedUs
  omega

theorem clampedUs_ne_zero (d : Nat) : clampedUs d ≠ 0 := by
  unfold clampedUs
  omega

/-- A row of a bucket that memlat reaches prints an upper bound that did not
wrap. -/
theorem Memlat.hiUs_ne_zero {d : Nat} (h : d < 2 ^ 64) : (inlineRange (slotOf d)).2 ≠ 0 := by
  have hlog : slotOf d < 55 := Nat.log_lt_of_lt_pow' (by decide) (clampedUs_lt h)
  intro h0
  have hhi : (inlineRange (slotOf d)).2.toNat = 2 ^ (slotOf d + 1) := toNat_shl_one (by omega)
  rw [h0, UInt64.toNat_zero] at hhi
  exact absurd hhi.symm (Nat.two_pow_pos _).ne'

/-- memlat, end to end. The rows need no bucket to overflow, the total not to
overflow itself. -/
theorem memlat_report_true {cap : Nat} {es : List Memlat.Ev}
    (hmono : (Memlat.probe cap).NonDecreasing es)
    (hfit : (Memlat.probe cap).NoOverflow es)
    {lookup : UInt32 → Except String UInt64}
    (hreads : ReadsAs lookup ((Memlat.probe cap).run es).hist.value) (durationSec : Nat) :
    ∃ counts total, Memlat.readHist lookup = .ok (counts, total) ∧
      CsvTrue (Memlat.probe cap) clampedUs (Memlat.saveCSV counts) es ∧
      (∀ a e b v, es = a ++ e :: b → (Memlat.probe cap).Matches a e v →
        ∀ r ∈ Memlat.saveCSV counts, r.bucket = ((Memlat.probe cap).trueSlot e v).val →
          r.hiUs ≠ 0) ∧
      ((Memlat.probe cap).sampleCount es < 2 ^ 64 →
        (Memlat.summary durationSec total).total.toNat = (Memlat.probe cap).sampleCount es) := by
  rw [Memlat.hist_value] at hreads
  refine ⟨_, _, Memlat.readHist_ok hreads, ?_, ?_, fun hlt => Probe.toNat_wordSum_hist hlt⟩
  · apply csvTrue_of_contains_iff Memlat.val_slot hmono hfit
    intro a e c v _ _ b count
    have hus := clampedUs_lt ((Memlat.probe cap).trueDiff_lt e v)
    rw [contains_inlineRange_iff_of_lt b.isLt (by omega)]
    exact and_iff_right (clampedUs_ne_zero _)
  · intro a e c v _ _ r hr hbucket
    obtain ⟨b, rfl⟩ := mem_rowsOf.mp hr
    have hb : b.val = Memlat.slotOf ((Memlat.probe cap).trueDiff e v) :=
      hbucket.trans (Probe.val_trueSlot Memlat.val_slot e v)
    show (inlineRange b).2 ≠ 0
    rw [hb]
    exact Memlat.hiUs_ne_zero ((Memlat.probe cap).trueDiff_lt e v)

/-- One fault of 5 microseconds. -/
theorem memlat_report_true_fault :
    ∃ counts total, Memlat.readHist (lookupAll
        ((Memlat.probe 8192).run [.entry 7 0, .exit 7 5000]).hist.value) = .ok (counts, total) ∧
      CsvTrue (Memlat.probe 8192) clampedUs (Memlat.saveCSV counts) [.entry 7 0, .exit 7 5000] ∧
      (∀ a e b v, [.entry 7 0, .exit 7 5000] = a ++ e :: b → (Memlat.probe 8192).Matches a e v →
        ∀ r ∈ Memlat.saveCSV counts, r.bucket = ((Memlat.probe 8192).trueSlot e v).val →
          r.hiUs ≠ 0) ∧
      (Memlat.summary 10 total).total.toNat =
        (Memlat.probe 8192).sampleCount [.entry 7 0, .exit 7 5000] := by
  have hmono : (Memlat.probe 8192).NonDecreasing [.entry 7 0, .exit 7 5000] := by decide
  obtain ⟨counts, total, hread, hrows, hhi, htotal⟩ := memlat_report_true hmono
    (Probe.noOverflow_of_length (by decide)) (readsAs_lookupAll _ (by decide)) 10
  exact ⟨counts, total, hread, hrows, hhi, htotal (Probe.sampleCount_lt_of_length (by decide))⟩

/-! ## iolat -/

/-- iolat's bucket of a latency in nanoseconds. -/
def Iolat.slotOf (d : Nat) : Nat := min 25 (Nat.log 2 (d / 1000))

theorem Iolat.val_slot (d : UInt64) : (slot d).val = slotOf d.toNat := toNat_bucketOfDelta d

theorem Iolat.contains_iff (b : Fin maxSlots) (us : Nat) (count : UInt64) :
    (CsvRow.mk b (bucketRangeUs b).1 (bucketRangeUs b).2 count).Contains us ↔
      us ≠ 0 ∧ Nat.log 2 us = b := by
  have hb : b.val < 26 := b.isLt
  exact contains_inlineRange_iff (by omega) us count

/-- iolat's rows are true of a run exactly when every latency lies between the
first row's lower bound and the last row's upper bound. -/
theorem Iolat.csvTrue_iff {cap : Nat} {es : List Ev} (hmono : (probe cap).NonDecreasing es)
    (hfit : (probe cap).NoOverflow es) :
    CsvTrue (probe cap) (· / 1000)
        (writeCSV (List.ofFn ((probe cap).hist ((probe cap).run es)))) es ↔
      (probe cap).EveryLatency (fun d => 1 ≤ d / 1000 ∧ d / 1000 < 2 ^ 26) es := by
  constructor
  · -- a latency that some row contains is within the printed bounds
    intro h a e c v hes hv
    obtain ⟨r, hr, -, hcontains, -⟩ := h.once a e c v hes hv
    obtain ⟨b, rfl⟩ := mem_rowsOf.mp hr
    obtain ⟨hpos, hlog⟩ := (contains_iff b _ _).mp hcontains
    have hb : b.val < 26 := b.isLt
    refine ⟨Nat.one_le_iff_ne_zero.mpr hpos, Nat.lt_pow_of_log_lt Nat.one_lt_two ?_⟩
    rw [hlog]
    exact hb
  · -- within the bounds nothing is clamped, in the kernel or in print
    intro h
    apply csvTrue_of_contains_iff val_slot hmono hfit
    intro a e c v hes hv b count
    obtain ⟨h1, h2⟩ := h a e c v hes hv
    have hlog : Nat.log 2 ((probe cap).trueDiff e v / 1000) < 26 :=
      Nat.log_lt_of_lt_pow' (by decide) h2
    have hslot : slotOf ((probe cap).trueDiff e v) =
        Nat.log 2 ((probe cap).trueDiff e v / 1000) := by
      unfold slotOf
      omega
    rw [contains_iff, hslot]
    exact and_iff_right (Nat.one_le_iff_ne_zero.mp h1)

/-- iolat, end to end: the saved rows are true exactly when every matched
request took at least one microsecond and less than `2^26`. -/
theorem iolat_report_true_iff {cap : Nat} {es : List Iolat.Ev}
    (hmono : (Iolat.probe cap).NonDecreasing es)
    (hfit : (Iolat.probe cap).NoOverflow es)
    {lookup : UInt32 → Except String UInt64}
    (hreads : ReadsAs lookup ((Iolat.probe cap).run es).hist.value) :
    ∃ counts, Iolat.readCounts lookup = .ok counts ∧
      (CsvTrue (Iolat.probe cap) (· / 1000) (Iolat.writeCSV counts) es ↔
        (Iolat.probe cap).EveryLatency (fun d => 1 ≤ d / 1000 ∧ d / 1000 < 2 ^ 26) es) := by
  rw [Iolat.hist_value] at hreads
  exact ⟨_, Iolat.readCounts_ok hreads, Iolat.csvTrue_iff hmono hfit⟩

/-- A request of 5 microseconds is within the bounds. -/
theorem iolat_report_true_iff_request :
    ∃ counts, Iolat.readCounts (lookupAll ((Iolat.probe 131072).run
        [.issue 7 0 3 (Vector.replicate 16 0), .complete 7 5000 0 4096]).hist.value) =
          .ok counts ∧
      (CsvTrue (Iolat.probe 131072) (· / 1000) (Iolat.writeCSV counts)
          [.issue 7 0 3 (Vector.replicate 16 0), .complete 7 5000 0 4096] ↔
        (Iolat.probe 131072).EveryLatency (fun d => 1 ≤ d / 1000 ∧ d / 1000 < 2 ^ 26)
          [.issue 7 0 3 (Vector.replicate 16 0), .complete 7 5000 0 4096]) :=
  iolat_report_true_iff (by decide)
    (Probe.noOverflow_of_length (by decide))
    (readsAs_lookupAll _ (by decide))

/-- A request that completes after half a microsecond. -/
def Iolat.quickRequest : List Ev :=
  [.issue 7 0 3 (Vector.replicate 16 0), .complete 7 500 0 4096]

/-- The quick request is counted in the row `[1, 2)`, which does not contain
its latency. -/
theorem iolat_report_untrue_quickRequest :
    (Iolat.probe Iolat.maxEntries).NonDecreasing Iolat.quickRequest ∧
    (Iolat.probe Iolat.maxEntries).NoOverflow Iolat.quickRequest ∧
    ReadsAs (lookupAll ((Iolat.probe Iolat.maxEntries).run Iolat.quickRequest).hist.value)
      ((Iolat.probe Iolat.maxEntries).run Iolat.quickRequest).hist.value ∧
    ∃ counts, Iolat.readCounts (lookupAll
        ((Iolat.probe Iolat.maxEntries).run Iolat.quickRequest).hist.value) = .ok counts ∧
      ¬ CsvTrue (Iolat.probe Iolat.maxEntries) (· / 1000) (Iolat.writeCSV counts)
        Iolat.quickRequest := by
  have hmono : (Iolat.probe Iolat.maxEntries).NonDecreasing Iolat.quickRequest := by decide
  have hfit : (Iolat.probe Iolat.maxEntries).NoOverflow Iolat.quickRequest :=
    Probe.noOverflow_of_length (by decide)
  have hreads := readsAs_lookupAll
    ((Iolat.probe Iolat.maxEntries).run Iolat.quickRequest).hist.value (by decide)
  refine ⟨hmono, hfit, hreads, _, Iolat.readCounts_ok hreads, ?_⟩
  rw [Iolat.hist_value, Iolat.csvTrue_iff hmono hfit]
  intro h
  have hmatch : (Iolat.probe Iolat.maxEntries).Matches
      [.issue 7 0 3 (Vector.replicate 16 0)] (.complete 7 500 0 4096)
      ⟨0, 3, Vector.replicate 16 0⟩ :=
    Stopwatch.matches_concat rfl (Stopwatch.accepts_nil (by decide) 7) rfl
  have hus : 1 ≤ 500 / 1000 ∧ _ := h _ _ [] _ rfl hmatch
  exact absurd hus.1 (by decide)

/-! ## runqlat -/

/-- runqlat's bucket of a wait in nanoseconds. -/
def Runqlat.slotOf (d : Nat) : Nat := Nat.log 2 d

theorem Runqlat.val_slot (d : UInt64) : (slot d).val = slotOf d.toNat := toNat_log2BucketU64 d

/-- The rows and the tail of runqlat's report tell the truth about a run, in
microseconds. -/
structure Runqlat.ReportTrue {cpus : Nat} (cap : Nat) (report : List CsvRow × Summary)
    (es : List (Ev cpus)) : Prop where
  /-- A row counts the matched waits whose length it contains. -/
  counts : ∀ r ∈ report.1, r.count.toNat =
    (probe cpus cap).latencyCount (fun d => r.Contains (clampedUs d)) es
  /-- The tail counts the matched waits of at least the threshold. -/
  tail : report.2.tailEvents.toNat =
    (probe cpus cap).latencyCount (fun d => report.2.tailThresholdUs.toNat * 1000 ≤ d) es

/-- Read in microseconds, a latency never reaches the bucket of its
nanoseconds, unless both are the first. -/
theorem clampedUs_lt_pow {d t : Nat} (ht : 1 ≤ t) (hd : Nat.log 2 d ≤ t) :
    clampedUs d < 2 ^ t := by
  have hlt : d < 2 ^ (t + 1) := Nat.lt_pow_of_log_lt Nat.one_lt_two (by omega)
  have htwo : 2 ^ 1 ≤ 2 ^ t := Nat.pow_le_pow_right Nat.two_pos ht
  rw [pow_succ] at hlt
  unfold clampedUs
  omega

/-- So the row of such a bucket does not contain it. -/
theorem not_contains_clampedUs {d t : Nat} (ht : 1 ≤ t) (ht63 : t ≤ 63) (hd : Nat.log 2 d ≤ t)
    (count : UInt64) :
    ¬ (CsvRow.mk t (inlineRange t).1 (inlineRange t).2 count).Contains (clampedUs d) := by
  intro hcontains
  have hus := clampedUs_lt_pow ht hd
  have h63 : clampedUs d < 2 ^ 63 := Nat.lt_of_lt_of_le hus (Nat.pow_le_pow_right Nat.two_pos ht63)
  obtain ⟨hpos, hlog⟩ :=
    (contains_inlineRange_iff_of_lt (Nat.lt_succ_of_le ht63) h63 count).mp hcontains
  have hge := Nat.pow_log_le_self 2 hpos
  rw [hlog] at hge
  exact absurd hus (Nat.not_lt_of_le hge)

theorem Runqlat.slotOf_le {cpus cap : Nat} (e : Ev cpus) (v : UInt64) :
    slotOf ((probe cpus cap).trueDiff e v) ≤ 63 :=
  Nat.le_of_lt_succ (Nat.log_lt_of_lt_pow' (by decide) ((probe cpus cap).trueDiff_lt e v))

/-- A row true of its bucket's waits read in microseconds forces all waits
into the first bucket: look at the highest bucket reached. -/
theorem Runqlat.every_wait_le_one {cpus cap : Nat} {es : List (Ev cpus)}
    (hmono : (probe cpus cap).NonDecreasing es) (hfit : (probe cpus cap).NoOverflow es)
    (hrows : ∀ r ∈ saveCSV (List.ofFn ((probe cpus cap).hist ((probe cpus cap).run es))),
      r.count.toNat = (probe cpus cap).latencyCount (fun d => r.Contains (clampedUs d)) es) :
    (probe cpus cap).EveryLatency (fun d => d ≤ 1) es := by
  intro a₀ e₀ b₀ v₀ hes₀ hv₀
  by_contra hbig
  have hfirst : 1 ≤ slotOf ((probe cpus cap).trueDiff e₀ v₀) :=
    Nat.le_log_of_pow_le Nat.one_lt_two (by omega)
  -- in the highest bucket reached the two readings must come apart
  obtain ⟨a, e, b, v, hes, hv, htop⟩ := Probe.exists_greatest_latency slotOf_le hes₀ hv₀
  have htop63 : slotOf ((probe cpus cap).trueDiff e v) ≤ 63 := slotOf_le e v
  have htop1 : 1 ≤ slotOf ((probe cpus cap).trueDiff e v) :=
    hfirst.trans (htop a₀ e₀ b₀ v₀ hes₀ hv₀)
  -- the kernel counts a wait in that bucket, its printed range holds none
  let row : Fin maxSlots := ⟨_, Nat.lt_succ_of_le htop63⟩
  have hrow := hrows _ (mem_rowsOf.mpr ⟨row, rfl⟩)
  have hkernel : 0 < (probe cpus cap).latencyCount (fun d => slotOf d = row.val) es :=
    Probe.latencyCount_pos hes hv rfl
  have hprinted : (probe cpus cap).latencyCount (fun d =>
      (CsvRow.mk row (inlineRange row).1 (inlineRange row).2
        ((probe cpus cap).hist ((probe cpus cap).run es) row)).Contains (clampedUs d)) es = 0 := by
    apply Probe.latencyCount_eq_zero
    intro a' e' b' v' hes' hv'
    exact not_contains_clampedUs htop1 htop63 (htop a' e' b' v' hes' hv') _
  rw [hprinted, Probe.toNat_hist_run hfit, Probe.slotCount_eq_latencyCount val_slot hmono] at hrow
  exact hkernel.ne' hrow

theorem Runqlat.slotOf_of_le_one {d : Nat} (h : d ≤ 1) : slotOf d = 0 := Nat.log_of_lt (by omega)

theorem clampedUs_of_le_one {d : Nat} (h : d ≤ 1) : clampedUs d = 1 := by
  unfold clampedUs
  omega

/-- Waits of at most one nanosecond are all in the first bucket, to whose row
they are clamped. -/
theorem Runqlat.csvTrue_of_le_one {cpus cap : Nat} {es : List (Ev cpus)}
    (hmono : (probe cpus cap).NonDecreasing es) (hfit : (probe cpus cap).NoOverflow es)
    (hle : (probe cpus cap).EveryLatency (fun d => d ≤ 1) es) :
    CsvTrue (probe cpus cap) clampedUs
      (saveCSV (List.ofFn ((probe cpus cap).hist ((probe cpus cap).run es)))) es := by
  apply csvTrue_of_contains_iff val_slot hmono hfit
  intro a e c v hes hv b count
  have hd := hle a e c v hes hv
  rw [contains_inlineRange_iff_of_lt b.isLt (by rw [clampedUs_of_le_one hd]; decide),
    slotOf_of_le_one hd, clampedUs_of_le_one hd]
  simp

/-- And none of them is in the tail. -/
theorem Runqlat.sumTail_of_le_one {cpus cap : Nat} {es : List (Ev cpus)}
    (hmono : (probe cpus cap).NonDecreasing es) (hfit : (probe cpus cap).NoOverflow es)
    (hle : (probe cpus cap).EveryLatency (fun d => d ≤ 1) es) :
    (sumTail (List.ofFn ((probe cpus cap).hist ((probe cpus cap).run es)))
      tailThresholdUs).toNat = 0 := by
  have hsum : (∑ b : Fin maxSlots, if startBucket tailThresholdUs ≤ b.val then
      ((probe cpus cap).hist ((probe cpus cap).run es) b).toNat else 0) = 0 := by
    rw [startBucket_tailThresholdUs]
    apply Finset.sum_eq_zero
    intro b _
    split
    · -- nothing is counted past the first bucket
      rw [Probe.toNat_hist_run hfit, Probe.slotCount_eq_latencyCount val_slot hmono]
      apply Probe.latencyCount_eq_zero
      intro a e c v hes hv
      rw [slotOf_of_le_one (hle a e c v hes hv)]
      omega
    · rfl
  rw [toNat_sumTail _ _ (by rw [hsum]; decide), hsum]

theorem Runqlat.reportTrue_of_le_one {cpus cap : Nat} {es : List (Ev cpus)}
    (hmono : (probe cpus cap).NonDecreasing es) (hfit : (probe cpus cap).NoOverflow es)
    (hle : (probe cpus cap).EveryLatency (fun d => d ≤ 1) es) (durationSec : Nat)
    (total : UInt64) :
    ReportTrue cap (saveCSV (List.ofFn ((probe cpus cap).hist ((probe cpus cap).run es))),
      summary durationSec (List.ofFn ((probe cpus cap).hist ((probe cpus cap).run es))) total)
      es where
  counts := (csvTrue_of_le_one hmono hfit hle).counts
  tail := by
    have htail : (probe cpus cap).latencyCount
        (fun d => tailThresholdUs.toNat * 1000 ≤ d) es = 0 := by
      apply Probe.latencyCount_eq_zero
      intro a e c v hes hv
      have hd := hle a e c v hes hv
      show ¬ 8 * 1000 ≤ _
      omega
    show (sumTail _ tailThresholdUs).toNat =
      (probe cpus cap).latencyCount (fun d => tailThresholdUs.toNat * 1000 ≤ d) es
    rw [sumTail_of_le_one hmono hfit hle, htail]

/-- runqlat, end to end: the report is true in microseconds exactly when no
wait exceeds one nanosecond. -/
theorem runqlat_report_true_iff {cpus cap : Nat} {es : List (Runqlat.Ev cpus)}
    (hmono : (Runqlat.probe cpus cap).NonDecreasing es)
    (hfit : (Runqlat.probe cpus cap).NoOverflow es)
    {lookup : UInt32 → Except String (List UInt64)}
    (hreads : ReadsAs lookup ((Runqlat.probe cpus cap).run es).perCPU) (durationSec : Nat) :
    Runqlat.ReportTrue cap (Runqlat.report durationSec lookup) es ↔
      (Runqlat.probe cpus cap).EveryLatency (fun d => d ≤ 1) es := by
  rw [Runqlat.report, Runqlat.readHist_ok hreads, Runqlat.wordSum_perCPU]
  refine ⟨?_, ?_⟩
  · intro h
    exact Runqlat.every_wait_le_one hmono hfit h.counts
  · intro hle
    exact Runqlat.reportTrue_of_le_one hmono hfit hle durationSec _

/-- A thread that waits 5 microseconds for its CPU. -/
def Runqlat.shortWait {cpus : Nat} (cpu : Fin cpus) : List (Ev cpus) :=
  [.wakeup cpu 0 7, .switch cpu 5000 7]

theorem runqlat_report_true_iff_shortWait :
    Runqlat.ReportTrue 131072
        (Runqlat.report 10 (lookupAll
          ((Runqlat.probe 1 131072).run (Runqlat.shortWait 0)).perCPU))
        (Runqlat.shortWait (0 : Fin 1)) ↔
      (Runqlat.probe 1 131072).EveryLatency (fun d => d ≤ 1) (Runqlat.shortWait 0) :=
  runqlat_report_true_iff (by decide)
    (Probe.noOverflow_of_length (by decide))
    (readsAs_lookupAll _ (by decide)) 10

/-- The short wait is counted in the row `[4096, 8192)` and in the tail of at
least 8 microseconds. -/
theorem runqlat_report_untrue_shortWait :
    (Runqlat.probe 1 Runqlat.maxEntries).NonDecreasing (Runqlat.shortWait 0) ∧
    (Runqlat.probe 1 Runqlat.maxEntries).NoOverflow (Runqlat.shortWait 0) ∧
    ReadsAs (lookupAll ((Runqlat.probe 1 Runqlat.maxEntries).run (Runqlat.shortWait 0)).perCPU)
      ((Runqlat.probe 1 Runqlat.maxEntries).run (Runqlat.shortWait 0)).perCPU ∧
    ¬ Runqlat.ReportTrue Runqlat.maxEntries
      (Runqlat.report 10 (lookupAll
        ((Runqlat.probe 1 Runqlat.maxEntries).run (Runqlat.shortWait 0)).perCPU))
      (Runqlat.shortWait (0 : Fin 1)) := by
  have hmono : (Runqlat.probe 1 Runqlat.maxEntries).NonDecreasing (Runqlat.shortWait 0) := by
    decide
  have hfit : (Runqlat.probe 1 Runqlat.maxEntries).NoOverflow (Runqlat.shortWait 0) :=
    Probe.noOverflow_of_length (by decide)
  have hreads := readsAs_lookupAll
    ((Runqlat.probe 1 Runqlat.maxEntries).run (Runqlat.shortWait 0)).perCPU (by decide)
  refine ⟨hmono, hfit, hreads, ?_⟩
  rw [Runqlat.report, Runqlat.readHist_ok hreads, Runqlat.wordSum_perCPU]
  intro h
  have hmatch : (Runqlat.probe 1 Runqlat.maxEntries).Matches
      [Runqlat.Ev.wakeup (0 : Fin 1) 0 7] (Runqlat.Ev.switch (0 : Fin 1) 5000 7) 0 :=
    Stopwatch.matches_concat rfl (Stopwatch.accepts_nil (by decide) (Runqlat.keyOf 7)) rfl
  have hwait : 5000 ≤ 1 := Runqlat.every_wait_le_one hmono hfit h.counts _ _ [] _ rfl hmatch
  exact absurd hwait (by decide)

end EbpfToy
