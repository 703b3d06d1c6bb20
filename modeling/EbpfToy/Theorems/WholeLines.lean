import EbpfToy.Theorems.CsvRoundTrip

/-!
# Telling a whole CSV by its lines

The CSV writers do not say when a write was cut short. The file tells it all
the same: each write is one line with its newline at the end, so whatever was
cut, and wherever the file was left off in the end, at least one newline is
missing. A file with a line for each bucket and one for the header is the whole
table, and it holds the counts.
-/

namespace EbpfToy

open Lib

/-- A line for each count, and one for the header. -/
def HasEveryLine (text : List Char) (counts : List UInt64) : Prop :=
  text.count '\n' = counts.length + 1

/-- The file that a writer leaves is the whole table if it has every line, and
never has more lines. -/
structure ToldByLines (result : Except String (List Char)) (rows : List CsvRow)
    (counts : List UInt64) : Prop where
  whole : ∀ text, result = .ok text → (HasEveryLine text counts ↔ text = csvText rows)
  lines_le : ∀ text, result = .ok text → text.count '\n' ≤ counts.length + 1
  decodes : ∀ text, result = .ok text → HasEveryLine text counts → DecodesTo text counts

theorem length_rowsOf (range : Nat → UInt64 × UInt64) (counts : List UInt64) :
    (rowsOf range counts).length = counts.length := by
  rw [rowsOf, List.length_map, List.length_zipIdx]

theorem newline_not_mem_lines {rows : List CsvRow} {line : List Char}
    (h : line ∈ header :: rows.map CsvRow.line) : '\n' ∉ line := by
  rcases List.mem_cons.mp h with rfl | hrow
  · exact newline_not_mem_header
  · obtain ⟨r, -, rfl⟩ := List.mem_map.mp hrow
    exact newline_not_mem_line r

theorem count_csvText (rows : List CsvRow) : (csvText rows).count '\n' = rows.length + 1 := by
  rw [csvText, count_joinLines fun line hline => newline_not_mem_lines hline, List.length_cons,
    List.length_map]

/-! ## The prints -/

/-- The newlines that the prints add are those of the lines that were taken. -/
theorem count_prints (fs : Files) {lines : List (List Char)} (h : ∀ line ∈ lines, '\n' ∉ line)
    (f : OpenFile) :
    ((lines.map (· ++ ['\n'])).foldl (OpenFile.fprint fs) f).text.count '\n' ≤
        f.text.count '\n' + lines.length ∧
      (((lines.map (· ++ ['\n'])).foldl (OpenFile.fprint fs) f).text.count '\n' =
          f.text.count '\n' + lines.length →
        TakesAll fs f.writes (lines.map (· ++ ['\n']))) := by
  induction lines generalizing f with
  | nil => exact ⟨Nat.le_refl _, fun _ => trivial⟩
  | cons line lines ih =>
      obtain ⟨hle, heq⟩ := ih (fun l hl => h l (List.mem_cons_of_mem line hl))
        (f.fprint fs (line ++ ['\n']))
      have hone : (f.fprint fs (line ++ ['\n'])).text.count '\n' = f.text.count '\n' +
          if (line ++ ['\n']).length ≤ fs.takes f.writes then 1 else 0 := by
        rw [OpenFile.fprint, List.count_append, count_take_line (h line List.mem_cons_self)]
      rw [List.map_cons, List.foldl_cons, List.length_cons]
      by_cases htakes : (line ++ ['\n']).length ≤ fs.takes f.writes
      · rw [if_pos htakes] at hone
        refine ⟨by omega, fun hcount => ⟨htakes, heq ?_⟩⟩
        omega
      · rw [if_neg htakes] at hone
        exact ⟨by omega, fun hcount => by omega⟩

theorem csvLines_eq (rows : List CsvRow) :
    csvLines rows = (header :: rows.map CsvRow.line).map (· ++ ['\n']) := rfl

/-- Closing the file adds no newline. -/
theorem count_close_le (fs : Files) (f : OpenFile) :
    (f.close fs).count '\n' ≤ f.text.count '\n' := by
  unfold OpenFile.close
  cases fs.closeKeeps with
  | none => exact Nat.le_refl _
  | some n => exact (List.take_sublist n f.text).count_le '\n'

/-- The table ends in a newline. -/
theorem exists_csvText (rows : List CsvRow) : ∃ text, csvText rows = text ++ ['\n'] := by
  have hlines : header :: rows.map CsvRow.line ≠ [] := List.cons_ne_nil _ _
  obtain ⟨lines, line, hsplit⟩ := List.eq_nil_or_concat _ |>.resolve_left hlines
  refine ⟨joinLines '\n' lines ++ line, ?_⟩
  rw [csvText, hsplit, List.concat_eq_append, joinLines, joinLines, List.flatMap_append,
    List.flatMap_singleton, List.append_assoc]

/-- A table that was closed with all its newlines was not cut. -/
theorem close_of_count {fs : Files} {f : OpenFile} {rows : List CsvRow}
    (htext : f.text = csvText rows) (h : (f.close fs).count '\n' = (csvText rows).count '\n') :
    f.close fs = csvText rows := by
  obtain ⟨text, hends⟩ := exists_csvText rows
  unfold OpenFile.close at h ⊢
  cases hclose : fs.closeKeeps with
  | none => exact htext
  | some n =>
      simp only [hclose, htext] at h ⊢
      rw [hends] at h ⊢
      exact List.take_of_length_le (length_le_of_count_take h)

theorem toldByLines_writeRows (fs : Files) (path : GoString) (range : Nat → UInt64 × UInt64)
    (counts : List UInt64) :
    (∀ text, writeRows fs path (rowsOf range counts) = .ok text →
      text.count '\n' ≤ counts.length + 1 ∧
        (HasEveryLine text counts ↔ text = csvText (rowsOf range counts))) := by
  intro text htext
  have hlength := length_rowsOf range counts
  cases hcreate : fs.create path with
  | some err => simp [writeRows, hcreate] at htext
  | none =>
      simp only [writeRows, hcreate, Except.ok.injEq] at htext
      subst htext
      rw [csvLines_eq]
      have hnewline : ∀ line ∈ header :: (rowsOf range counts).map CsvRow.line, '\n' ∉ line :=
        fun line hline => newline_not_mem_lines hline
      obtain ⟨hle, heq⟩ := count_prints fs hnewline ⟨[], 0⟩
      rw [List.count_nil, List.length_cons, List.length_map, Nat.zero_add] at hle heq
      set f := ((header :: (rowsOf range counts).map CsvRow.line).map (· ++ ['\n'])).foldl
        (OpenFile.fprint fs) ⟨[], 0⟩ with hf
      have hclose := count_close_le fs f
      refine ⟨by omega, fun hevery => ?_, fun hwhole => ?_⟩
      · -- every newline is there, so every line was taken
        rw [HasEveryLine] at hevery
        have htakes := heq (by omega)
        have hprints := (text_prints_eq_iff fs _ ⟨[], 0⟩).mpr htakes
        rw [← hf, List.nil_append] at hprints
        apply close_of_count hprints
        rw [count_csvText, hevery, hlength]
      · rw [HasEveryLine, hwhole, count_csvText, hlength]

/-! ## The three tools -/

theorem toldByLines_of_writeRows {result : Except String (List Char)}
    {counts : List UInt64} (h : ∀ text, result = .ok text →
      text.count '\n' ≤ counts.length + 1 ∧
        (HasEveryLine text counts ↔ text = csvText (rowsOf inlineRange counts))) :
    ToldByLines result (rowsOf inlineRange counts) counts where
  whole text htext := (h text htext).2
  lines_le text htext := (h text htext).1
  decodes text htext hevery := decodesTo_of_eq (((h text htext).2).mp hevery)

/-- Whatever writes fail, for each tool: a CSV that was saved and has a line for
each bucket and one for the header is the whole table and decodes to the
counts, and any other has fewer lines. -/
theorem saved_csv_told_by_lines (fs : Files) (path : GoString) (counts : List UInt64) :
    ToldByLines (Memlat.saveCSVTo fs path counts) (Memlat.saveCSV counts) counts ∧
    ToldByLines (Runqlat.saveCSVTo fs path counts) (Runqlat.saveCSV counts) counts ∧
    ToldByLines (Iolat.writeCSVTo fs path counts) (Iolat.writeCSV counts) counts := by
  have hrows := toldByLines_writeRows fs path inlineRange counts
  refine ⟨toldByLines_of_writeRows hrows, toldByLines_of_writeRows hrows, ?_⟩
  apply toldByLines_of_writeRows
  intro text htext
  cases hmkdir : fs.mkdirAll path with
  | some err => simp [Iolat.writeCSVTo, hmkdir] at htext
  | none =>
      simp only [Iolat.writeCSVTo, hmkdir] at htext
      exact hrows text htext

end EbpfToy
