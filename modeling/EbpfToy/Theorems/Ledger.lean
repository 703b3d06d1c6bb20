import EbpfToy.Go.Report

/-!
# No sample is lost or invented

At every point of every run each start event is accounted for: it led to a
recorded sample, it was overwritten by a later start of its key, it was
refused because the table was full, or it is still in the table. When the run
stops, the totals on the Go side are the samples recorded.
-/

namespace EbpfToy

open Lib

variable {V : Type} {copies slots cap : Nat}

/-- The ledger of starts after the events `es`. The samples recorded are the
events that changed the histogram. -/
structure Balanced (P : Probe V copies slots cap) (es : List P.Ev) : Prop where
  starts : P.startCount es = P.bumpCount es + P.overwrittenCount es + P.refusedCount es +
    (P.table (P.run es)).size
  bounded : (P.table (P.run es)).size ≤ cap

theorem balanced (P : Probe V copies slots cap) (es : List P.Ev) : Balanced P es where
  starts := by rw [Stopwatch.bumpCount_eq, Stopwatch.ledger]
  bounded := BoundedMap.size_le _

/-- The report gives `samples` as its total and as the sum of its rows. -/
structure ReportsAll (rows : List CsvRow) (total : UInt64) (samples : Nat) : Prop where
  total : total.toNat = samples
  rows : (rows.map fun r => r.count.toNat).sum = samples

theorem reportsAll (P : Probe V copies slots cap) {es : List P.Ev}
    (h : P.bumpCount es < 2 ^ 64) (range : Nat → UInt64 × UInt64) :
    ReportsAll (rowsOf range (List.ofFn (P.hist (P.run es))))
      (wordSum (List.ofFn (P.hist (P.run es)))) (P.bumpCount es) := by
  rw [Stopwatch.bumpCount_eq] at h ⊢
  refine ⟨Probe.toNat_wordSum_hist h, ?_⟩
  have hcolumn : (rowsOf range (List.ofFn (P.hist (P.run es)))).map (fun r => r.count.toNat) =
      (List.ofFn (P.hist (P.run es))).map UInt64.toNat := by
    rw [← map_count_rowsOf range (List.ofFn (P.hist (P.run es))), List.map_map,
      map_count_rowsOf]
    rfl
  rw [hcolumn]
  exact Probe.sum_toNat_hist h

theorem memlat_reports {cap : Nat} {es : List Memlat.Ev}
    (hlt : (Memlat.probe cap).bumpCount es < 2 ^ 64) {lookup : UInt32 → Except String UInt64}
    (hreads : ReadsAs lookup ((Memlat.probe cap).run es).hist.value) :
    ∃ counts total, Memlat.readHist lookup = .ok (counts, total) ∧
      ReportsAll (Memlat.saveCSV counts) total ((Memlat.probe cap).bumpCount es) := by
  rw [Memlat.hist_value] at hreads
  exact ⟨_, _, Memlat.readHist_ok hreads, reportsAll (Memlat.probe cap) hlt inlineRange⟩

theorem runqlat_reports {cpus cap : Nat} {es : List (Runqlat.Ev cpus)}
    (hlt : (Runqlat.probe cpus cap).bumpCount es < 2 ^ 64)
    {lookup : UInt32 → Except String (List UInt64)}
    (hreads : ReadsAs lookup ((Runqlat.probe cpus cap).run es).perCPU) :
    ReportsAll (Runqlat.saveCSV (Runqlat.readHist lookup).1) (Runqlat.readHist lookup).2
      ((Runqlat.probe cpus cap).bumpCount es) := by
  rw [Runqlat.readHist_ok hreads, Runqlat.wordSum_perCPU]
  exact reportsAll (Runqlat.probe cpus cap) hlt inlineRange

theorem iolat_reports {cap : Nat} {es : List Iolat.Ev}
    (hlt : (Iolat.probe cap).bumpCount es < 2 ^ 64) {lookup : UInt32 → Except String UInt64}
    (hreads : ReadsAs lookup ((Iolat.probe cap).run es).hist.value) :
    ∃ counts, Iolat.readCounts lookup = .ok counts ∧
      ReportsAll (Iolat.writeCSV counts) (Iolat.sumCounts counts)
        ((Iolat.probe cap).bumpCount es) := by
  rw [Iolat.hist_value] at hreads
  refine ⟨_, Iolat.readCounts_ok hreads, ?_⟩
  rw [Iolat.sumCounts_ofFn]
  exact reportsAll (Iolat.probe cap) hlt Iolat.bucketRangeUs

/-- Starts balance at every point of every run, within the declared
`max_entries`; and when a run stops below `2^64` samples and every lookup
succeeds, the reported total and the CSV's count column both add up to the
samples recorded. -/
theorem nothing_lost :
    (∀ es : List Memlat.Ev,
      Balanced (Memlat.probe Memlat.maxEntries) es ∧
      ((Memlat.probe Memlat.maxEntries).bumpCount es < 2 ^ 64 →
        ∀ lookup, ReadsAs lookup ((Memlat.probe Memlat.maxEntries).run es).hist.value →
          ∃ counts total, Memlat.readHist lookup = .ok (counts, total) ∧
            ReportsAll (Memlat.saveCSV counts) total
              ((Memlat.probe Memlat.maxEntries).bumpCount es))) ∧
    (∀ (cpus : Nat) (es : List (Runqlat.Ev cpus)),
      Balanced (Runqlat.probe cpus Runqlat.maxEntries) es ∧
      ((Runqlat.probe cpus Runqlat.maxEntries).bumpCount es < 2 ^ 64 →
        ∀ lookup, ReadsAs lookup ((Runqlat.probe cpus Runqlat.maxEntries).run es).perCPU →
          ReportsAll (Runqlat.saveCSV (Runqlat.readHist lookup).1) (Runqlat.readHist lookup).2
            ((Runqlat.probe cpus Runqlat.maxEntries).bumpCount es))) ∧
    (∀ es : List Iolat.Ev,
      Balanced (Iolat.probe Iolat.maxEntries) es ∧
      ((Iolat.probe Iolat.maxEntries).bumpCount es < 2 ^ 64 →
        ∀ lookup, ReadsAs lookup ((Iolat.probe Iolat.maxEntries).run es).hist.value →
          ∃ counts, Iolat.readCounts lookup = .ok counts ∧
            ReportsAll (Iolat.writeCSV counts) (Iolat.sumCounts counts)
              ((Iolat.probe Iolat.maxEntries).bumpCount es))) := by
  refine ⟨fun es => ⟨balanced (Memlat.probe _) es, ?_⟩,
    fun cpus es => ⟨balanced (Runqlat.probe cpus _) es, ?_⟩,
    fun es => ⟨balanced (Iolat.probe _) es, ?_⟩⟩
  · intro hlt lookup hreads
    exact memlat_reports hlt hreads
  · intro hlt lookup hreads
    exact runqlat_reports hlt hreads
  · intro hlt lookup hreads
    exact iolat_reports hlt hreads

/-- The ledger of one fault, and the report of one recorded wait. -/
theorem nothing_lost_small :
    Balanced (Memlat.probe Memlat.maxEntries) [.entry 7 10, .exit 7 20, .exit 7 30] ∧
    ReportsAll
      (Runqlat.saveCSV (Runqlat.readHist (lookupAll
        ((Runqlat.probe 2 Runqlat.maxEntries).run [.wakeup 0 10 7, .switch 1 30 7]).perCPU)).1)
      (Runqlat.readHist (lookupAll
        ((Runqlat.probe 2 Runqlat.maxEntries).run [.wakeup 0 10 7, .switch 1 30 7]).perCPU)).2
      ((Runqlat.probe 2 Runqlat.maxEntries).bumpCount [.wakeup 0 10 7, .switch 1 30 7]) :=
  ⟨(nothing_lost.1 _).1, (nothing_lost.2.1 2 _).2
    (Stopwatch.bumpCount_lt_of_length (by decide)) _ (readsAs_lookupAll _ (by decide))⟩

end EbpfToy
