import EbpfToy.Go.Table
import EbpfToy.Theorems.CsvRoundTrip

/-!
# Reading a printed table back

The table on the terminal is padded for the eye, and its numbers run over the
columns when they are large. They can still be told apart: what is between them
is never a digit. So the lines give back the rows of the CSV, but for the empty
ones past bucket 25, and with them every count.
-/

namespace EbpfToy

open Lib

/-- The rows of a printed table, each as the list of its numbers. -/
def readTable (text : List Char) : List (List Nat) :=
  ((text.splitOn '\n').drop 1).dropLast.map numbersIn

/-- The count of a bucket, by the rows that are shown. -/
def shownCount (rows : List (List Nat)) (b : Nat) : Nat :=
  ((rows.find? fun row => bucketOf row == b).map countOf).getD 0

/-- The text shows every count of `g`. -/
structure ShowsAll {n : Nat} (text : List Char) (g : Fin n → UInt64) : Prop where
  /-- The rows are those of the CSV, without the empty ones past bucket 25. -/
  rows : readTable text = (decode (csvText (rowsOf inlineRange (List.ofFn g)))).filter fun row =>
    !(countOf row == 0 && decide (bucketOf row > 25))
  /-- A bucket that has no row is empty. -/
  count : ∀ b, shownCount (readTable text) b.val = (g b).toNat

/-! ## The text -/

/-- A line gives back its numbers. -/
theorem numbersIn_tableLine (r : CsvRow) : numbersIn r.tableLine = r.fields := by
  have hopen : ∀ c ∈ "      [".toList, c.isDigit = false := by simp
  have hcomma : ∀ c ∈ ", ".toList, c.isDigit = false := by simp
  have hclose : ∀ c ∈ ")   ".toList, c.isDigit = false := by simp
  unfold CsvRow.tableLine
  rw [numbersIn_separated (by decide) hopen, numbersIn_separated (by decide) hcomma,
    numbersIn_separated (by decide) hclose, numbersIn_padded, numbersIn_padded, numbersIn_padded,
    numbersIn_decimal]
  rfl

theorem newline_not_mem_tableLine (r : CsvRow) : '\n' ∉ r.tableLine := by
  have hpadded : ∀ width n, '\n' ∉ padded width n :=
    not_mem_padded (by decide) (by decide)
  have hcount : '\n' ∉ decimal r.count.toNat := not_mem_decimal (by decide) _
  unfold CsvRow.tableLine
  simp only [List.mem_append, not_or]
  exact ⟨hpadded _ _, by decide, hpadded _ _, by decide, hpadded _ _, by decide, hcount⟩

/-- A printed table gives back its rows. -/
theorem readTable_tableText (rows : List CsvRow) :
    readTable (tableText rows) = rows.map CsvRow.fields := by
  have hlines : ∀ line ∈ tableHeader :: rows.map CsvRow.tableLine, '\n' ∉ line := by
    intro line hline
    rcases List.mem_cons.mp hline with rfl | hrow
    · decide
    · obtain ⟨r, -, rfl⟩ := List.mem_map.mp hrow
      exact newline_not_mem_tableLine r
  rw [readTable, tableText, splitOn_joinLines hlines, List.cons_append, List.drop_one,
    List.tail_cons, List.dropLast_concat, List.map_map]
  exact List.map_congr_left fun r _ => numbersIn_tableLine r

/-! ## The rows -/

section Rows

variable {n : Nat} {g : Fin n → UInt64}

/-- The bucket of a row determines the row. -/
theorem eq_row_of_bucket {r : CsvRow} (hr : r ∈ rowsOf inlineRange (List.ofFn g)) {b : Fin n}
    (hb : r.bucket = b.val) : r = ⟨b.val, (inlineRange b).1, (inlineRange b).2, g b⟩ := by
  obtain ⟨b', rfl⟩ := mem_rowsOf.mp hr
  obtain rfl : b' = b := Fin.ext hb
  rfl

/-- A table that leaves out empty rows only shows every count. -/
theorem shownCount_filter {keep : CsvRow → Bool}
    (hkeep : ∀ r, keep r = false → r.count = 0) (b : Fin n) :
    shownCount (((rowsOf inlineRange (List.ofFn g)).filter keep).map CsvRow.fields) b.val =
      (g b).toNat := by
  have hfind : (((rowsOf inlineRange (List.ofFn g)).filter keep).map CsvRow.fields).find?
        (fun row => bucketOf row == b.val) =
      (((rowsOf inlineRange (List.ofFn g)).filter keep).find? fun r => r.bucket == b.val).map
        CsvRow.fields := List.find?_map
  rw [shownCount, hfind]
  cases hrow : ((rowsOf inlineRange (List.ofFn g)).filter keep).find?
      (fun r => r.bucket == b.val) with
  | some r =>
      have hmem := (List.mem_filter.mp (List.mem_of_find?_eq_some hrow)).1
      have hb : (r.bucket == b.val) = true :=
        List.find?_some (p := fun r : CsvRow => r.bucket == b.val) hrow
      rw [eq_row_of_bucket hmem (beq_iff_eq.mp hb)]
      rfl
  | none =>
      -- the row of the bucket is there, so it was left out
      set r : CsvRow := ⟨b.val, (inlineRange b).1, (inlineRange b).2, g b⟩ with hr
      have hmem : r ∈ rowsOf inlineRange (List.ofFn g) := mem_rowsOf.mpr ⟨b, rfl⟩
      have hout : keep r = false := by
        by_contra hin
        have hshown := List.mem_filter.mpr ⟨hmem, Bool.eq_true_of_not_eq_false hin⟩
        have hne := List.find?_eq_none.mp hrow r hshown
        exact hne (beq_self_eq_true _)
      have hzero : g b = 0 := hkeep r hout
      rw [hzero]
      rfl

/-- The rows of a table that leaves out the empty ones past bucket 25. -/
theorem showsAll_filter :
    ShowsAll (tableText ((rowsOf inlineRange (List.ofFn g)).filter fun r =>
      !(r.count == 0 && decide (r.bucket > 25)))) g where
  rows := by
    rw [readTable_tableText, decode_csvText, List.filter_map]
    congr 2
    funext r
    have hzero : (r.count.toNat == 0) = (r.count == 0) := by
      rw [Bool.eq_iff_iff, beq_iff_eq, beq_iff_eq]
      exact UInt64.toNat_inj (b := 0)
    show _ = (!(r.count.toNat == 0 && decide (r.bucket > 25)))
    rw [hzero]
  count := by
    intro b
    rw [readTable_tableText]
    apply shownCount_filter
    intro r hr
    simp only [Bool.not_eq_false', Bool.and_eq_true, beq_iff_eq] at hr
    exact hr.1

end Rows

/-! ## The three tools -/

/-- iolat has no bucket past 25, so it leaves out none. -/
theorem Iolat.printTable_ofFn (g : Fin maxSlots → UInt64) :
    printTable (List.ofFn g) = (rowsOf inlineRange (List.ofFn g)).filter fun r =>
      !(r.count == 0 && decide (r.bucket > 25)) := by
  have hall : (rowsOf inlineRange (List.ofFn g)).filter (fun r =>
      !(r.count == 0 && decide (r.bucket > 25))) = rowsOf inlineRange (List.ofFn g) := by
    apply List.filter_eq_self.mpr
    intro r hr
    obtain ⟨b, rfl⟩ := mem_rowsOf.mp hr
    have hb : ¬ b.val > 25 := Nat.not_lt.mpr (Nat.le_of_lt_succ b.isLt)
    simp [hb]
  rw [hall, printTable]
  apply List.ext_getElem
  · simp [rowsOf]
  · intro i hi _
    rw [List.length_map, List.length_range] at hi
    simp [rowsOf, hi, bucketRangeUs_eq]

/-- The printed table of each tool gives back every count, and its rows are
those of the CSV, but for the empty ones past bucket 25. -/
theorem printed_table_shows_all :
    (∀ (n : Nat) (g : Fin n → UInt64),
      ShowsAll (tableText (Memlat.printHist (List.ofFn g))) g) ∧
    (∀ (n : Nat) (g : Fin n → UInt64),
      ShowsAll (tableText (Runqlat.printHist (List.ofFn g))) g) ∧
    (∀ g : Fin Iolat.maxSlots → UInt64,
      ShowsAll (tableText (Iolat.printTable (List.ofFn g))) g) := by
  refine ⟨?_, ?_, ?_⟩
  · intro n g
    exact showsAll_filter
  · intro n g
    exact showsAll_filter
  · intro g
    rw [Iolat.printTable_ofFn]
    exact showsAll_filter

end EbpfToy
