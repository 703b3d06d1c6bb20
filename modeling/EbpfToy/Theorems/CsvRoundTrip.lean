import EbpfToy.Theorems.FailedWrites

/-!
# Reading a saved CSV back

A CSV that was written without a failure gives back the counts it was written
from: its lines are found by splitting at the newlines, the fields of a line by
splitting at the commas, and every field is a decimal. So the text determines
the counts, and the three tools write the same text.
-/

namespace EbpfToy

open Lib

/-- The rows of a CSV, each as the list of its fields. -/
def decode (text : List Char) : List (List Nat) :=
  -- the header comes first, and nothing follows the last newline
  ((text.splitOn '\n').drop 1).dropLast.map fun line => (line.splitOn ',').map readDecimal

/-- The fields of a decoded row. -/
def bucketOf (row : List Nat) : Nat := row.getD 0 0

def loOf (row : List Nat) : Nat := row.getD 1 0

def countOf (row : List Nat) : Nat := row.getD 3 0

/-- One row for each count, in order, with the index, the bounds and the count. -/
structure DecodesTo (text : List Char) (counts : List UInt64) : Prop where
  length : (decode text).length = counts.length
  row : ∀ i c, counts[i]? = some c → ∃ lo hi, (decode text)[i]? = some [i, lo, hi, c.toNat] ∧
    (i ≤ 62 → lo = 2 ^ i ∧ hi = 2 ^ (i + 1))

/-- `text` is what a writer leaves when every write succeeds. -/
def SavedBy (write : Files → GoString → List UInt64 → Except String (List Char))
    (rows : List UInt64 → List CsvRow) (counts : List UInt64) (text : List Char) : Prop :=
  ∃ fs path, Intact fs (rows counts) ∧ write fs path counts = .ok text

/-! ## The text -/

theorem newline_not_mem_header : '\n' ∉ header := by decide

theorem newline_not_mem_line (r : CsvRow) : '\n' ∉ r.line :=
  not_mem_joinDecimals (by decide) (by decide) r.fields

/-- A line gives back its fields. -/
theorem decode_line (r : CsvRow) : (r.line.splitOn ',').map readDecimal = r.fields :=
  map_readDecimal_splitOn (by decide) (List.cons_ne_nil _ _)

/-- A table gives back its rows. -/
theorem decode_csvText (rows : List CsvRow) : decode (csvText rows) = rows.map CsvRow.fields := by
  have hlines : ∀ line ∈ header :: rows.map CsvRow.line, '\n' ∉ line := by
    intro line hline
    rcases List.mem_cons.mp hline with rfl | hrow
    · exact newline_not_mem_header
    · obtain ⟨r, -, rfl⟩ := List.mem_map.mp hrow
      exact newline_not_mem_line r
  rw [decode, csvText, splitOn_joinLines hlines, List.cons_append, List.drop_one, List.tail_cons,
    List.dropLast_concat, List.map_map]
  exact List.map_congr_left fun r _ => decode_line r

/-- What the rows of the counts decode to. -/
theorem decodesTo_csvText (counts : List UInt64) :
    DecodesTo (csvText (rowsOf inlineRange counts)) counts where
  length := by simp [decode_csvText, rowsOf]
  row := by
    intro i c hc
    refine ⟨(inlineRange i).1.toNat, (inlineRange i).2.toNat, ?_, fun hi => ?_⟩
    · rw [decode_csvText, rowsOf, List.map_map, List.getElem?_map, List.getElem?_zipIdx, hc]
      simp [CsvRow.fields]
    · exact ⟨toNat_shl_one (by omega), toNat_shl_one (by omega)⟩

theorem decodesTo_of_eq {text : List Char} {counts : List UInt64}
    (h : text = csvText (rowsOf inlineRange counts)) : DecodesTo text counts := by
  rw [h]
  exact decodesTo_csvText counts

/-- The two ways of computing the bounds agree on every row. -/
theorem bucketRangeUs_eq : Iolat.bucketRangeUs = inlineRange := rfl

/-- A decoded text determines the counts. -/
theorem DecodesTo.unique {text : List Char} {counts counts' : List UInt64}
    (h : DecodesTo text counts) (h' : DecodesTo text counts') : counts = counts' := by
  apply List.ext_getElem?
  intro i
  cases hc : counts[i]? with
  | none =>
      rw [List.getElem?_eq_none_iff] at hc
      exact (List.getElem?_eq_none_iff.mpr (by rw [← h'.length, h.length]; exact hc)).symm
  | some c =>
      obtain ⟨lo, hi, hrow, -⟩ := h.row i c hc
      have hlt : i < counts'.length := by
        rw [← h'.length]
        exact (List.getElem?_eq_some_iff.mp hrow).1
      obtain ⟨lo', hi', hrow', -⟩ := h'.row i counts'[i] (List.getElem?_eq_getElem hlt)
      have hfields : [i, lo, hi, c.toNat] = [i, lo', hi', counts'[i].toNat] :=
        Option.some.inj (hrow.symm.trans hrow')
      simp only [List.cons.injEq, UInt64.toNat_inj] at hfields
      rw [List.getElem?_eq_getElem hlt, hfields.2.2.2.1]

/-! ## The three writers -/

theorem Memlat.savedBy {counts : List UInt64} {text : List Char}
    (h : SavedBy saveCSVTo saveCSV counts text) : text = csvText (rowsOf inlineRange counts) := by
  obtain ⟨fs, path, hintact, hwrite⟩ := h
  exact (writeRows_eq_iff fs path (saveCSV counts)).mpr (fun _ => hintact) text hwrite

theorem Runqlat.savedBy {counts : List UInt64} {text : List Char}
    (h : SavedBy saveCSVTo saveCSV counts text) : text = csvText (rowsOf inlineRange counts) := by
  obtain ⟨fs, path, hintact, hwrite⟩ := h
  exact (writeRows_eq_iff fs path (saveCSV counts)).mpr (fun _ => hintact) text hwrite

theorem Iolat.savedBy {counts : List UInt64} {text : List Char}
    (h : SavedBy writeCSVTo writeCSV counts text) : text = csvText (rowsOf inlineRange counts) := by
  obtain ⟨fs, path, hintact, hwrite⟩ := h
  rw [← bucketRangeUs_eq]
  exact (writeCSVTo_iff fs path counts).mpr (fun _ _ => hintact) text hwrite

/-- Everything succeeds, with room for lines of length `n`. -/
def allWell (n : Nat) : Files where
  mkdirAll _ := none
  create _ := none
  takes _ := n
  closeKeeps := none
  writeFile _ := .whole

theorem takesAll_allWell {n i : Nat} {lines : List (List Char)}
    (h : ∀ line ∈ lines, line.length ≤ n) : TakesAll (allWell n) i lines := by
  induction lines generalizing i with
  | nil => trivial
  | cons line lines ih =>
      exact ⟨h line List.mem_cons_self, ih fun l hl => h l (List.mem_cons_of_mem line hl)⟩

/-- Every table can be written without a failure. -/
theorem exists_writeRows (rows : List CsvRow) : ∃ n, Intact (allWell n) rows ∧
    writeRows (allWell n) [] rows = .ok (csvText rows) := by
  have hintact : Intact (allWell (csvText rows).length) rows := by
    refine ⟨takesAll_allWell fun line hline => ?_, fun n h => ?_⟩
    · rw [← flatten_csvLines]
      exact (List.sublist_flatten_of_mem hline).length_le
    · contradiction
  refine ⟨_, hintact, ?_⟩
  cases hwrite : writeRows (allWell (csvText rows).length) [] rows with
  | error err => contradiction
  | ok text => rw [(writeRows_eq_iff _ _ rows).mpr (fun _ => hintact) text hwrite]

theorem Memlat.savedBy_csvText (counts : List UInt64) :
    SavedBy saveCSVTo saveCSV counts (csvText (saveCSV counts)) := by
  obtain ⟨n, hintact, hwrite⟩ := exists_writeRows (saveCSV counts)
  exact ⟨allWell n, [], hintact, hwrite⟩

theorem Runqlat.savedBy_csvText (counts : List UInt64) :
    SavedBy saveCSVTo saveCSV counts (csvText (saveCSV counts)) := by
  obtain ⟨n, hintact, hwrite⟩ := exists_writeRows (saveCSV counts)
  exact ⟨allWell n, [], hintact, hwrite⟩

theorem Iolat.savedBy_csvText (counts : List UInt64) :
    SavedBy writeCSVTo writeCSV counts (csvText (writeCSV counts)) := by
  obtain ⟨n, hintact, hwrite⟩ := exists_writeRows (writeCSV counts)
  exact ⟨allWell n, [], hintact, hwrite⟩

theorem Memlat.savedBy_iff {counts : List UInt64} {text : List Char} :
    SavedBy saveCSVTo saveCSV counts text ↔ text = csvText (saveCSV counts) := by
  refine ⟨Memlat.savedBy, ?_⟩
  rintro rfl
  exact Memlat.savedBy_csvText counts

theorem Runqlat.savedBy_iff {counts : List UInt64} {text : List Char} :
    SavedBy saveCSVTo saveCSV counts text ↔ text = csvText (saveCSV counts) := by
  refine ⟨Runqlat.savedBy, ?_⟩
  rintro rfl
  exact Runqlat.savedBy_csvText counts

theorem Iolat.savedBy_iff {counts : List UInt64} {text : List Char} :
    SavedBy writeCSVTo writeCSV counts text ↔ text = csvText (writeCSV counts) := by
  refine ⟨fun h => (Iolat.savedBy h).trans ?_, ?_⟩
  · rw [← bucketRangeUs_eq]
    rfl
  · rintro rfl
    exact Iolat.savedBy_csvText counts

/-- The text is there, and there is only one, when every write succeeds. A
saved CSV gives back the counts, whichever tool wrote it; two lists of counts
never have the same text, and one has the same text in all tools. -/
theorem saved_csv_determines_counts :
    (∀ counts text, SavedBy Memlat.saveCSVTo Memlat.saveCSV counts text ↔
      text = csvText (Memlat.saveCSV counts)) ∧
    (∀ counts text, SavedBy Runqlat.saveCSVTo Runqlat.saveCSV counts text ↔
      text = csvText (Runqlat.saveCSV counts)) ∧
    (∀ counts text, SavedBy Iolat.writeCSVTo Iolat.writeCSV counts text ↔
      text = csvText (Iolat.writeCSV counts)) ∧
    (∀ counts text, SavedBy Memlat.saveCSVTo Memlat.saveCSV counts text → DecodesTo text counts) ∧
    (∀ counts text, SavedBy Runqlat.saveCSVTo Runqlat.saveCSV counts text →
      DecodesTo text counts) ∧
    (∀ counts text, SavedBy Iolat.writeCSVTo Iolat.writeCSV counts text →
      DecodesTo text counts) ∧
    (∀ counts counts' text, SavedBy Memlat.saveCSVTo Memlat.saveCSV counts text →
      SavedBy Memlat.saveCSVTo Memlat.saveCSV counts' text → counts = counts') ∧
    (∀ counts counts' text, SavedBy Runqlat.saveCSVTo Runqlat.saveCSV counts text →
      SavedBy Runqlat.saveCSVTo Runqlat.saveCSV counts' text → counts = counts') ∧
    (∀ counts counts' text, SavedBy Iolat.writeCSVTo Iolat.writeCSV counts text →
      SavedBy Iolat.writeCSVTo Iolat.writeCSV counts' text → counts = counts') ∧
    (∀ counts text text' text'', SavedBy Memlat.saveCSVTo Memlat.saveCSV counts text →
      SavedBy Runqlat.saveCSVTo Runqlat.saveCSV counts text' →
      SavedBy Iolat.writeCSVTo Iolat.writeCSV counts text'' → text' = text ∧ text'' = text) := by
  refine ⟨fun _ _ => Memlat.savedBy_iff, fun _ _ => Runqlat.savedBy_iff,
    fun _ _ => Iolat.savedBy_iff, ?_, ?_, ?_, ?_, ?_, ?_, ?_⟩
  · intro counts text h
    exact decodesTo_of_eq (Memlat.savedBy h)
  · intro counts text h
    exact decodesTo_of_eq (Runqlat.savedBy h)
  · intro counts text h
    exact decodesTo_of_eq (Iolat.savedBy h)
  · intro counts counts' text h h'
    exact (decodesTo_of_eq (Memlat.savedBy h)).unique (decodesTo_of_eq (Memlat.savedBy h'))
  · intro counts counts' text h h'
    exact (decodesTo_of_eq (Runqlat.savedBy h)).unique (decodesTo_of_eq (Runqlat.savedBy h'))
  · intro counts counts' text h h'
    exact (decodesTo_of_eq (Iolat.savedBy h)).unique (decodesTo_of_eq (Iolat.savedBy h'))
  · intro counts text text' text'' h h' h''
    rw [Memlat.savedBy h, Runqlat.savedBy h', Iolat.savedBy h'']
    exact ⟨rfl, rfl⟩

/-- The text of two counts, by all three tools. -/
theorem saved_csv_determines_counts_two :
    DecodesTo (csvText (Memlat.saveCSV [5, 7])) [5, 7] ∧
    DecodesTo (csvText (Runqlat.saveCSV [5, 7])) [5, 7] ∧
    DecodesTo (csvText (Iolat.writeCSV [5, 7])) [5, 7] ∧
    csvText (Runqlat.saveCSV [5, 7]) = csvText (Memlat.saveCSV [5, 7]) ∧
    csvText (Iolat.writeCSV [5, 7]) = csvText (Memlat.saveCSV [5, 7]) :=
  ⟨saved_csv_determines_counts.2.2.2.1 _ _ (Memlat.savedBy_csvText [5, 7]),
    saved_csv_determines_counts.2.2.2.2.1 _ _ (Runqlat.savedBy_csvText [5, 7]),
    saved_csv_determines_counts.2.2.2.2.2.1 _ _ (Iolat.savedBy_csvText [5, 7]),
    saved_csv_determines_counts.2.2.2.2.2.2.2.2.2 _ _ _ _ (Memlat.savedBy_csvText [5, 7])
      (Runqlat.savedBy_csvText [5, 7]) (Iolat.savedBy_csvText [5, 7])⟩

end EbpfToy
