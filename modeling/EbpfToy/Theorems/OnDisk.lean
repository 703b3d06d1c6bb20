import EbpfToy.Theorems.SavedFiles
import EbpfToy.Theorems.Session

/-!
# From the events to the files

The results about whole runs and those about the two files, joined: a run of a
tool, with its handlers at work and any of its calls and writes failing, leaves
files whose figures are those of what was measured. A reader needs only the
files to tell: the CSV must have a line for each bucket and one for the header,
and the summary must read as an object.
-/

namespace EbpfToy.Session

open Lib Json

variable {slots : Nat} {lo hi : Fin slots → Nat} {skipped : Fin slots → Prop}

/-- The rows of a CSV whose counts lie between `lo` and `hi`, but for the
buckets `skipped`. -/
structure RowsWithin (lo hi : Fin slots → Nat) (skipped : Fin slots → Prop)
    (rows : List (List Nat)) : Prop where
  length : rows.length = slots
  row : ∀ b : Fin slots, ∃ n,
    rows[b.val]? = some [b.val, 2 ^ b.val % 2 ^ 64, 2 ^ (b.val + 1) % 2 ^ 64, n] ∧
    n ≤ hi b ∧ (¬ skipped b → lo b ≤ n) ∧ (skipped b → n = 0)
  /-- The total, which the tools add up in 64 bits, has not wrapped. -/
  total : totalOf rows = (rows.map countOf).sum

/-- The bounds of a row, which are computed in 64 bits. -/
theorem toNat_shl_one_mod (n : Nat) : (shl 1 n).toNat = 2 ^ n % 2 ^ 64 := by
  rw [shl, UInt64.toNat_one, Nat.one_shiftLeft, UInt64.toNat_ofNat']

/-- The counts of a report, as the rows of its CSV. -/
theorem CountsWithin.rowsWithin {g : Fin slots → UInt64} {total : UInt64}
    (h : CountsWithin lo hi skipped g total) :
    RowsWithin lo hi skipped (decode (csvText (rowsOf inlineRange (List.ofFn g)))) where
  length := by rw [decode_ofFn, List.length_ofFn]
  row := by
    intro b
    refine ⟨(g b).toNat, ?_, h.upper b, h.lower b, fun hb => ?_⟩
    · rw [decode_ofFn, List.getElem?_ofFn, dif_pos b.isLt]
      show some [b.val, (shl 1 b.val).toNat, (shl 1 (b.val + 1)).toNat, (g b).toNat] = _
      rw [toNat_shl_one_mod, toNat_shl_one_mod]
    · rw [h.skipped b hb, UInt64.toNat_zero]
  total := by
    have hcounts : (decode (csvText (rowsOf inlineRange (List.ofFn g)))).map countOf =
        (List.ofFn g).map UInt64.toNat := map_countOf_ofFn g
    have hsum : ((List.ofFn g).map UInt64.toNat).sum = total.toNat := by
      rw [h.total, List.map_ofFn, List.sum_ofFn]
      rfl
    rw [totalOf, hcounts, hsum]
    exact Nat.mod_eq_of_lt total.toNat_lt

/-- The total of a report is the wrapping sum of its counts. -/
theorem CountsWithin.total_eq {g : Fin slots → UInt64} {total : UInt64}
    (h : CountsWithin lo hi skipped g total) : total = wordSum (List.ofFn g) := by
  have hfit : ∑ b, (g b).toNat < 2 ^ 64 := h.total ▸ total.toNat_lt
  exact UInt64.toNat_inj.mp (h.total.trans (toNat_wordSum_ofFn hfit).symm)

/-- A run that gave up has no CSV. -/
theorem GaveUp.not_wholeCsv {S : Type} {copies : Nat} {R : Recorder copies slots} {r : Exit S}
    {s : Kernel R} (h : GaveUp r s) {n : Nat} {path : GoString} {text : List Char} :
    ¬ WholeCsv r n path text := by
  intro hcsv
  exact absurd (h.csv.symm.trans hcsv.csv) (Option.some_ne_none _).symm

/-! ## The three tools -/

/-- What a tool leaves on the disk, when its CSV has every line: rows within the
bounds and, if a summary was made, one that tells their figures or nothing. -/
structure OnDisk {S : Type} (r : Exit S) (lo hi : Fin slots → Nat) (skipped : Fin slots → Prop)
    (text : List Char) (tells : SummaryFile S → Prop) : Prop where
  rows : RowsWithin lo hi skipped (decode text)
  summary : ∀ file, r.summary = some file → tells file

/-- What memlat leaves has the figures of what it read. -/
theorem Memlat.Reports.onDisk {R : Recorder 1 Memlat.maxSlots} {s : Kernel R}
    {lo hi : Fin Memlat.maxSlots → Nat} {fs : Files} {durationSec : Nat} {out : GoString}
    {r : Exit Memlat.Summary} (h : Memlat.Reports s lo hi fs durationSec out r) {path : GoString}
    {text : List Char} (hcsv : WholeCsv r Memlat.maxSlots path text) :
    OnDisk r lo hi (fun _ => False) text fun file =>
      file.Tells Memlat.Summary.members (Memlat.Agrees (decode text)) := by
  rcases h with ⟨g, total, -, -, hwithin, rfl⟩ | ⟨i, err, -, rfl⟩
  · obtain rfl := hwithin.total_eq
    refine ⟨?_, fun file hfile => (Memlat.agree_of_save hcsv hfile).tells⟩
    rw [(Memlat.of_save hcsv).1]
    exact hwithin.rowsWithin
  · exact absurd hcsv not_wholeCsv_of_fatal

theorem Runqlat.Reports.onDisk {cpus : Nat} {R : Recorder cpus Runqlat.maxSlots} {s : Kernel R}
    {lo hi : Fin Runqlat.maxSlots → Nat} {fs : Files} {durationSec : Nat} {out : GoString}
    {r : Exit Runqlat.Summary} (h : Runqlat.Reports s lo hi fs durationSec out r)
    {path : GoString} {text : List Char} (hcsv : WholeCsv r Runqlat.maxSlots path text) :
    OnDisk r lo hi (Failed s) text fun file =>
      file.Tells Runqlat.Summary.members (Runqlat.Agrees (decode text)) := by
  obtain ⟨g, total, -, hwithin, rfl⟩ := h
  obtain rfl := hwithin.total_eq
  refine ⟨?_, fun file hfile => (Runqlat.agree_of_save hcsv hfile).tells⟩
  rw [(Runqlat.of_save hcsv).1]
  exact hwithin.rowsWithin

theorem Iolat.Reports.onDisk {R : Recorder 1 Iolat.maxSlots} {s : Kernel R}
    {lo hi : Fin Iolat.maxSlots → Nat} {fs : Files} {json : GoString → String} {out : GoString}
    {r : Exit Iolat.Summary} (h : Iolat.Reports s lo hi fs json out r) {path : GoString}
    {text : List Char} (hcsv : WholeCsv r Iolat.maxSlots path text) :
    OnDisk r lo hi (fun _ => False) text fun file => ∀ durationSec generatedAt,
      file.Tells (fun s => s.members durationSec generatedAt path)
        (Iolat.Agrees path (decode text)) := by
  rcases h with ⟨g, total, -, -, hwithin, rfl⟩ | ⟨i, err, -, rfl⟩
  · obtain rfl := hwithin.total_eq
    refine ⟨?_, fun file hfile durationSec generatedAt =>
      (Iolat.agree_of_save hcsv hfile durationSec generatedAt).tells⟩
    rw [(Iolat.of_save hcsv).1]
    exact hwithin.rowsWithin
  · exact absurd hcsv not_wholeCsv_of_fatal

/-- A run with a whole CSV has not given up. -/
theorem Outcome.onDisk {S : Type} {copies : Nat} {R : Recorder copies slots} {r : Exit S}
    {s : Kernel R} {reports : List R.Act → List R.Act → Prop} (h : Outcome r s reports) {n : Nat}
    {path : GoString} {text : List Char} (hcsv : WholeCsv r n path text)
    {disk : List R.Act → List R.Act → Prop}
    (hdisk : ∀ first last, reports first last → disk first last) :
    ∃ first last, Window s first last ∧ disk first last := by
  rcases h with hgave | ⟨first, last, hwindow, hreports⟩
  · exact absurd hcsv hgave.not_wholeCsv
  · exact ⟨first, last, hwindow, hdisk first last hreports⟩

/-- Whole runs of the three tools, under any interleaving with the handlers and
with any calls and writes failing, when the clock is monotone. If the CSV that a
run leaves has every line, the count in each row of the file is no less than
what had been measured for the bucket when the sleep ended and no more than
when the last lookup returned (in runqlat's file it is zero instead in the rows
whose lookups failed), and the summary, if there is one, has the figures of
these rows, or reads as no object. -/
theorem whole_runs_on_disk :
    (∀ (cap : Nat) (fs : Files) (durationSec : Nat) (out : GoString)
      (s : Kernel (Memlat.probe cap).atomic) (r : Exit Memlat.Summary),
      (kernel (Memlat.probe cap).atomic).Run (Kernel.boot _) (Memlat.session fs durationSec out) s
        (.result r) →
      (Memlat.probe cap).NonDecreasing s.handled →
      (Memlat.probe cap).sampleCount s.handled < 2 ^ 64 →
      ∀ path text, WholeCsv r Memlat.maxSlots path text →
        ∃ first last, Window s first last ∧
          OnDisk r (latenciesIn (Memlat.probe cap) Memlat.slotOf first)
            (latenciesIn (Memlat.probe cap) Memlat.slotOf last) (fun _ => False) text fun file =>
              file.Tells Memlat.Summary.members (Memlat.Agrees (decode text))) ∧
    (∀ (cpus cap : Nat) (fs : Files) (durationSec : Nat) (out : GoString)
      (s : Kernel (Runqlat.probe cpus cap).atomic) (r : Exit Runqlat.Summary),
      (kernel (Runqlat.probe cpus cap).atomic).Run (Kernel.boot _)
        (Runqlat.session cpus fs durationSec out) s (.result r) →
      (Runqlat.probe cpus cap).NonDecreasing s.handled →
      (Runqlat.probe cpus cap).sampleCount s.handled < 2 ^ 64 →
      ∀ path text, WholeCsv r Runqlat.maxSlots path text →
        ∃ first last, Window s first last ∧
          OnDisk r (latenciesIn (Runqlat.probe cpus cap) (Nat.log 2) first)
            (latenciesIn (Runqlat.probe cpus cap) (Nat.log 2) last) (Failed s) text fun file =>
              file.Tells Runqlat.Summary.members (Runqlat.Agrees (decode text))) ∧
    (∀ (cap : Nat) (fs : Files) (json : GoString → String) (out : GoString)
      (s : Kernel (Iolat.probe cap).atomic) (r : Exit Iolat.Summary),
      (kernel (Iolat.probe cap).atomic).Run (Kernel.boot _) (Iolat.session fs json out) s
        (.result r) →
      (Iolat.probe cap).NonDecreasing s.handled →
      (Iolat.probe cap).sampleCount s.handled < 2 ^ 64 →
      ∀ path text, WholeCsv r Iolat.maxSlots path text →
        ∃ first last, Window s first last ∧
          OnDisk r (latenciesIn (Iolat.probe cap) Iolat.slotOf first)
            (latenciesIn (Iolat.probe cap) Iolat.slotOf last) (fun _ => False) text fun file =>
              ∀ durationSec generatedAt,
                file.Tells (fun s => s.members durationSec generatedAt path)
                  (Iolat.Agrees path (decode text))) := by
  refine ⟨?_, ?_, ?_⟩
  · intro cap fs durationSec out s r hrun hmono hfit path text hcsv
    exact (Memlat.run_atomic hrun hmono hfit).onDisk hcsv fun _ _ h => h.onDisk hcsv
  · intro cpus cap fs durationSec out s r hrun hmono hfit path text hcsv
    exact (Runqlat.run_atomic hrun hmono hfit).onDisk hcsv fun _ _ h => h.onDisk hcsv
  · intro cap fs json out s r hrun hmono hfit path text hcsv
    exact (Iolat.run_atomic hrun hmono hfit).onDisk hcsv fun _ _ h => h.onDisk hcsv

/-- A run of memlat that saves what it read leaves both files. -/
theorem Memlat.Reports.exists_saved {R : Recorder 1 Memlat.maxSlots} {s : Kernel R}
    {lo hi : Fin Memlat.maxSlots → Nat} {durationSec : Nat} {out : GoString}
    {r : Exit Memlat.Summary} (h : Memlat.Reports s lo hi (allWell 100) durationSec out r)
    (hout : out ≠ []) (hfatal : r.fatal = none) :
    ∃ text file, WholeCsv r Memlat.maxSlots (Memlat.csvPath out) text ∧
      r.summary = some file ∧ file.keeps = none := by
  rcases h with ⟨g, total, -, -, -, rfl⟩ | ⟨i, err, -, rfl⟩
  · obtain ⟨hcsv, hfile⟩ :=
      saved_of_eq_savedExit (Memlat.save_eq allSucceed_allWell hout g (Memlat.summary _ total))
    exact ⟨_, _, hcsv, hfile, rfl⟩
  · contradiction

theorem whole_runs_on_disk_one_fault :
    ∃ text file, oneFaultRun.1.summary = some file ∧ file.keeps = none ∧
      ∃ first last, Window oneFaultRun.2 first last ∧
        OnDisk oneFaultRun.1 (latenciesIn (Memlat.probe 4) Memlat.slotOf first)
          (latenciesIn (Memlat.probe 4) Memlat.slotOf last) (fun _ => False) text fun file =>
            file.Tells Memlat.Summary.members (Memlat.Agrees (decode text)) := by
  have hmono : (Memlat.probe 4).NonDecreasing oneFaultRun.2.handled := by
    rw [handled_oneFaultRun]
    decide
  have hfit : (Memlat.probe 4).sampleCount oneFaultRun.2.handled < 2 ^ 64 :=
    Probe.sampleCount_lt_of_length (by rw [handled_oneFaultRun]; decide)
  obtain ⟨text, file, hcsv, hfile, hkeeps⟩ : ∃ text file,
      WholeCsv oneFaultRun.1 Memlat.maxSlots [97] text ∧ oneFaultRun.1.summary = some file ∧
        file.keeps = none := by
    rcases Memlat.run_atomic run_oneFaultRun hmono hfit with hgave | ⟨first, last, -, hreports⟩
    · exact absurd fatal_oneFaultRun hgave.fatal
    · exact hreports.exists_saved (List.cons_ne_nil 97 []) fatal_oneFaultRun
  exact ⟨text, file, hfile, hkeeps, whole_runs_on_disk.1 4 (allWell 100) 10 [97] oneFaultRun.2
    oneFaultRun.1 run_oneFaultRun hmono hfit [97] text hcsv⟩

end EbpfToy.Session
