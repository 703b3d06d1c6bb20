import EbpfToy.Go.Save

/-!
# Files when writes fail

The CSV writers return nil as soon as the file could be created. What the file
then holds is the whole table exactly when every print was taken in full and
the final `Close` lost nothing. A print that fails in the middle leaves a table
with a row cut or missing, and the summary is written all the same. Whether it
is written in full does not matter here: it is there as soon as it is opened.
-/

namespace EbpfToy

open Lib

/-- Every write, from the `i`-th on, takes its whole line. -/
def TakesAll (fs : Files) : Nat → List (List Char) → Prop
  | _, [] => True
  | i, line :: lines => line.length ≤ fs.takes i ∧ TakesAll fs (i + 1) lines

/-- No write is short, and closing the file loses nothing. -/
structure Intact (fs : Files) (rows : List CsvRow) : Prop where
  writes : TakesAll fs 0 (csvLines rows)
  close : ∀ n, fs.closeKeeps = some n → (csvText rows).length ≤ n

/-- A summary file, in whatever state, is only there next to a CSV with the text
`text`. -/
def Exit.SummaryOnlyWith {S : Type} (x : Exit S) (text : List Char) : Prop :=
  x.summary ≠ none → ∃ path, x.csv = some (path, text)

theorem flatten_csvLines (rows : List CsvRow) : (csvLines rows).flatten = csvText rows := rfl

/-! ## The prints -/

theorem length_fprint (fs : Files) (f : OpenFile) (line : List Char) :
    (f.fprint fs line).text.length = f.text.length + min (fs.takes f.writes) line.length := by
  rw [OpenFile.fprint, List.length_append, List.length_take]

/-- The prints add no more than their lines. -/
theorem length_prints_le (fs : Files) (lines : List (List Char)) (f : OpenFile) :
    (lines.foldl (OpenFile.fprint fs) f).text.length ≤ f.text.length + lines.flatten.length := by
  induction lines generalizing f with
  | nil => exact Nat.le_refl _
  | cons line lines ih =>
      have hrest := ih (f.fprint fs line)
      rw [length_fprint] at hrest
      rw [List.foldl_cons, List.flatten_cons, List.length_append]
      omega

/-- The prints add all of their lines exactly when every write takes its line. -/
theorem text_prints_eq_iff (fs : Files) (lines : List (List Char)) (f : OpenFile) :
    (lines.foldl (OpenFile.fprint fs) f).text = f.text ++ lines.flatten ↔
      TakesAll fs f.writes lines := by
  induction lines generalizing f with
  | nil => simp [TakesAll]
  | cons line lines ih =>
      rw [List.foldl_cons, List.flatten_cons, TakesAll]
      by_cases htakes : line.length ≤ fs.takes f.writes
      · -- the line is taken; the rest is the induction hypothesis
        have hline : (f.fprint fs line).text = f.text ++ line := by
          rw [OpenFile.fprint, List.take_of_length_le htakes]
        rw [← List.append_assoc, ← hline, ih (f.fprint fs line)]
        exact ⟨fun h => ⟨htakes, h⟩, fun h => h.2⟩
      · -- a short write leaves the text too short for good
        refine iff_of_false (fun heq => ?_) (fun h => htakes h.1)
        have hlen := congrArg List.length heq
        have hle := length_prints_le fs lines (f.fprint fs line)
        rw [length_fprint] at hle
        rw [List.length_append, List.length_append] at hlen
        omega

/-- What is left after `Close` is the whole table exactly when nothing was lost
before and nothing is lost now. -/
theorem close_eq_iff {fs : Files} {f : OpenFile} {text : List Char}
    (hle : f.text.length ≤ text.length) :
    f.close fs = text ↔ f.text = text ∧ ∀ n, fs.closeKeeps = some n → text.length ≤ n := by
  cases hclose : fs.closeKeeps with
  | none => simp [OpenFile.close, hclose]
  | some n =>
      simp only [OpenFile.close, hclose, Option.some.injEq, forall_eq']
      constructor
      · intro htake
        have hlen := congrArg List.length htake
        rw [List.length_take] at hlen
        have hn : f.text.length ≤ n := by omega
        rw [List.take_of_length_le hn] at htake
        exact ⟨htake, by omega⟩
      · rintro ⟨heq, hn⟩
        rw [heq, List.take_of_length_le hn]

/-- A writer that returns nil has written the whole table, exactly when it
cannot return nil or nothing goes wrong. -/
theorem writeRows_eq_iff (fs : Files) (path : GoString) (rows : List CsvRow) :
    (∀ text, writeRows fs path rows = .ok text → text = csvText rows) ↔
      (fs.create path = none → Intact fs rows) := by
  cases hcreate : fs.create path with
  | some err => simp [writeRows, hcreate]
  | none =>
      have hle := length_prints_le fs (csvLines rows) ⟨[], 0⟩
      rw [List.length_nil, Nat.zero_add, flatten_csvLines] at hle
      have hprints := text_prints_eq_iff fs (csvLines rows) ⟨[], 0⟩
      rw [List.nil_append, flatten_csvLines] at hprints
      simp only [writeRows, hcreate, Except.ok.injEq, forall_eq', true_imp_iff]
      rw [close_eq_iff hle, hprints]
      exact ⟨fun h => ⟨h.1, h.2⟩, fun h => ⟨h.writes, h.close⟩⟩

/-- The file is there from now on, whether or not the rest succeeds. -/
def WriteFile.Opens (json : WriteFile) : Prop := ∀ err, json ≠ .notOpened err

theorem summaryOnlyWith_saveBoth_iff {S : Type} (csvPath summaryPath : GoString)
    (csv : Except String (List Char)) (json : WriteFile) (csvMsg jsonMsg : String) (sum : S)
    (text : List Char) :
    (saveBoth csvPath summaryPath csv json csvMsg jsonMsg sum).SummaryOnlyWith text ↔
      (json.Opens → ∀ t, csv = .ok t → t = text) := by
  cases csv with
  | error err => simp [saveBoth, Exit.SummaryOnlyWith]
  | ok t => cases json <;> simp [saveBoth, Exit.SummaryOnlyWith, WriteFile.Opens]

/-! ## The three tools -/

/-- The steps up to the opening of the summary all succeed, the prints and
`Close` of the CSV apart. -/
def Memlat.OpensSummary (fs : Files) (out : GoString) : Prop :=
  out ≠ [] ∧ fs.mkdirAll (csvPath out) = none ∧ fs.create (csvPath out) = none ∧
    (fs.writeFile (summaryPath out)).Opens

def Runqlat.OpensSummary (fs : Files) (out : GoString) : Prop :=
  out ≠ [] ∧ fs.mkdirAll (normalizeCSVPath out) = none ∧
    fs.create (normalizeCSVPath out) = none ∧
    (fs.writeFile (summaryPath (normalizeCSVPath out))).Opens

def Iolat.OpensSummary (fs : Files) (out : GoString) : Prop :=
  (normalizeOut out).1 ≠ [] ∧ fs.mkdirAll (normalizeOut out).1 = none ∧
    fs.create (normalizeOut out).1 = none ∧ (writeSummary fs (normalizeOut out).2).Opens

/-- memlat and runqlat make the directory first; their writer needs the file. -/
theorem summaryOnlyWith_saveBoth_writeRows_iff {S : Type} (fs : Files)
    (csvPath summaryPath : GoString) (rows : List CsvRow) (json : WriteFile)
    (csvMsg jsonMsg : String) (sum : S) :
    (saveBoth csvPath summaryPath (writeRows fs csvPath rows) json csvMsg jsonMsg
        sum).SummaryOnlyWith (csvText rows) ↔
      (fs.create csvPath = none ∧ json.Opens → Intact fs rows) := by
  rw [summaryOnlyWith_saveBoth_iff, writeRows_eq_iff, and_imp]
  exact ⟨fun h hcreate hjson => h hjson hcreate, fun h hjson hcreate => h hcreate hjson⟩

theorem Memlat.save_iff (fs : Files) (out : GoString) (counts : List UInt64) (sum : Summary) :
    (save fs out counts sum).SummaryOnlyWith (csvText (saveCSV counts)) ↔
      (OpensSummary fs out → Intact fs (saveCSV counts)) := by
  by_cases hout : out = []
  · simp [save, hout, Exit.SummaryOnlyWith, OpensSummary]
  · cases hmkdir : fs.mkdirAll (csvPath out) with
    | some err => simp [save, hout, hmkdir, Exit.SummaryOnlyWith, OpensSummary]
    | none =>
        simp only [save, hout, if_false, hmkdir, OpensSummary, ne_eq, not_false_eq_true,
          true_and]
        exact summaryOnlyWith_saveBoth_writeRows_iff _ _ _ (saveCSV counts) _ _ _ sum

theorem Runqlat.save_iff (fs : Files) (out : GoString) (counts : List UInt64) (sum : Summary) :
    (save fs out counts sum).SummaryOnlyWith (csvText (saveCSV counts)) ↔
      (OpensSummary fs out → Intact fs (saveCSV counts)) := by
  by_cases hout : out = []
  · simp [save, hout, Exit.SummaryOnlyWith, OpensSummary]
  · cases hmkdir : fs.mkdirAll (normalizeCSVPath out) with
    | some err => simp [save, hout, hmkdir, Exit.SummaryOnlyWith, OpensSummary]
    | none =>
        simp only [save, hout, if_false, hmkdir, OpensSummary, ne_eq, not_false_eq_true,
          true_and]
        exact summaryOnlyWith_saveBoth_writeRows_iff _ _ _ (saveCSV counts) _ _ _ sum

/-- iolat's writer also makes the directory. -/
theorem Iolat.writeCSVTo_iff (fs : Files) (path : GoString) (counts : List UInt64) :
    (∀ text, writeCSVTo fs path counts = .ok text → text = csvText (writeCSV counts)) ↔
      (fs.mkdirAll path = none → fs.create path = none → Intact fs (writeCSV counts)) := by
  cases hmkdir : fs.mkdirAll path with
  | some err => simp [writeCSVTo, hmkdir]
  | none =>
      simp only [writeCSVTo, hmkdir, true_imp_iff]
      exact writeRows_eq_iff fs path (writeCSV counts)

theorem Iolat.save_iff (fs : Files) (out : GoString) (counts : List UInt64) (sum : Summary) :
    (save fs out counts sum).SummaryOnlyWith (csvText (writeCSV counts)) ↔
      (OpensSummary fs out → Intact fs (writeCSV counts)) := by
  by_cases hout : (normalizeOut out).1 = []
  · simp [save, hout, Exit.SummaryOnlyWith, OpensSummary]
  · simp only [save, hout, if_false]
    rw [summaryOnlyWith_saveBoth_iff, writeCSVTo_iff]
    simp only [OpensSummary, hout, ne_eq, not_false_eq_true, true_and, and_imp]
    exact ⟨fun h hmkdir hcreate hjson => h hjson hmkdir hcreate,
      fun h hjson hmkdir hcreate => h hmkdir hcreate hjson⟩

/-- For each tool: a nil result means the whole table, and a summary, whole or
not, comes with the whole table, exactly when every write takes its line and
closing loses nothing, or the file or the summary is not made at all. -/
theorem csv_whole_iff (fs : Files) (counts : List UInt64) :
    (∀ path,
      (∀ text, Memlat.saveCSVTo fs path counts = .ok text → text = csvText (Memlat.saveCSV counts))
        ↔ (fs.create path = none → Intact fs (Memlat.saveCSV counts))) ∧
    (∀ out sum,
      (Memlat.save fs out counts sum).SummaryOnlyWith (csvText (Memlat.saveCSV counts)) ↔
        (Memlat.OpensSummary fs out → Intact fs (Memlat.saveCSV counts))) ∧
    (∀ path,
      (∀ text, Runqlat.saveCSVTo fs path counts = .ok text →
        text = csvText (Runqlat.saveCSV counts)) ↔
        (fs.create path = none → Intact fs (Runqlat.saveCSV counts))) ∧
    (∀ out sum,
      (Runqlat.save fs out counts sum).SummaryOnlyWith (csvText (Runqlat.saveCSV counts)) ↔
        (Runqlat.OpensSummary fs out → Intact fs (Runqlat.saveCSV counts))) ∧
    (∀ path,
      (∀ text, Iolat.writeCSVTo fs path counts = .ok text → text = csvText (Iolat.writeCSV counts))
        ↔ (fs.mkdirAll path = none → fs.create path = none →
            Intact fs (Iolat.writeCSV counts))) ∧
    (∀ out sum,
      (Iolat.save fs out counts sum).SummaryOnlyWith (csvText (Iolat.writeCSV counts)) ↔
        (Iolat.OpensSummary fs out → Intact fs (Iolat.writeCSV counts))) := by
  refine ⟨?_, ?_, ?_, ?_, ?_, ?_⟩
  · intro path
    exact writeRows_eq_iff fs path (Memlat.saveCSV counts)
  · intro out sum
    exact Memlat.save_iff fs out counts sum
  · intro path
    exact writeRows_eq_iff fs path (Runqlat.saveCSV counts)
  · intro out sum
    exact Runqlat.save_iff fs out counts sum
  · intro path
    exact Iolat.writeCSVTo_iff fs path counts
  · intro out sum
    exact Iolat.save_iff fs out counts sum

/-- Everything succeeds but the write of the first row. -/
def rowLost : Files where
  mkdirAll _ := none
  create _ := none
  takes i := if i = 1 then 0 else 100
  closeKeeps := none
  writeFile _ := .whole

example : Memlat.saveCSVTo rowLost dotCsv [5, 7] =
    .ok "bucket,lo_us,hi_us,count\n1,2,4,7\n".toList := rfl

theorem not_intact_rowLost (r : CsvRow) (rows : List CsvRow) : ¬ Intact rowLost (r :: rows) := by
  intro h
  have hrow : (r.line ++ ['\n']).length ≤ 0 := h.writes.2.1
  rw [List.length_append] at hrow
  exact absurd hrow (Nat.not_succ_le_zero _)

/-- The writers return nil and the summaries are written, next to CSVs that go
from the header to bucket 1. -/
theorem csv_whole_rowLost :
    (¬ ∀ text, Memlat.saveCSVTo rowLost dotCsv [5, 7] = .ok text →
      text = csvText (Memlat.saveCSV [5, 7])) ∧
    (¬ ∀ text, Runqlat.saveCSVTo rowLost dotCsv [5, 7] = .ok text →
      text = csvText (Runqlat.saveCSV [5, 7])) ∧
    (¬ ∀ text, Iolat.writeCSVTo rowLost dotCsv [5, 7] = .ok text →
      text = csvText (Iolat.writeCSV [5, 7])) ∧
    ¬ (Memlat.save rowLost dotCsv [5, 7] (Memlat.summary 10 12)).SummaryOnlyWith
      (csvText (Memlat.saveCSV [5, 7])) ∧
    ¬ (Runqlat.save rowLost dotCsv [5, 7] (Runqlat.summary 10 [5, 7] 12)).SummaryOnlyWith
      (csvText (Runqlat.saveCSV [5, 7])) ∧
    ¬ (Iolat.save rowLost dotCsv [5, 7] (Iolat.summary 12 ".csv")).SummaryOnlyWith
      (csvText (Iolat.writeCSV [5, 7])) := by
  refine ⟨?_, ?_, ?_, ?_, ?_, ?_⟩
  · intro h
    exact not_intact_rowLost _ _ ((writeRows_eq_iff _ _ _).mp h rfl)
  · intro h
    exact not_intact_rowLost _ _ ((writeRows_eq_iff _ _ _).mp h rfl)
  · intro h
    exact not_intact_rowLost _ _ ((Iolat.writeCSVTo_iff _ _ _).mp h rfl rfl)
  · intro h
    exact not_intact_rowLost _ _ ((Memlat.save_iff _ _ _ _).mp h ⟨by decide, rfl, rfl, nofun⟩)
  · intro h
    exact not_intact_rowLost _ _ ((Runqlat.save_iff _ _ _ _).mp h ⟨by decide, rfl, rfl, nofun⟩)
  · intro h
    exact not_intact_rowLost _ _ ((Iolat.save_iff _ _ _ _).mp h ⟨by decide, rfl, rfl, nofun⟩)

end EbpfToy
