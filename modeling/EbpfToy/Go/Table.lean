import EbpfToy.Go.Save

/-!
# User space: the table on the terminal

What `printHist` of memlat and runqlat and the second loop of iolat's `main`
print: a header, and one line for each row. memlat and runqlat leave out the
rows past bucket 25 that are empty.
-/

namespace EbpfToy

open Lib

/-- `"bucket  range(us)            count"`. -/
def tableHeader : List Char := "bucket  range(us)            count".toList

/-- `"%2d      [%8d, %8d)   %d"`. -/
def CsvRow.tableLine (r : CsvRow) : List Char :=
  padded 2 r.bucket ++ ("      [".toList ++ (padded 8 r.loUs.toNat ++ (", ".toList ++
    (padded 8 r.hiUs.toNat ++ (")   ".toList ++ decimal r.count.toNat)))))

/-- What is printed for the rows. -/
def tableText (rows : List CsvRow) : List Char :=
  joinLines '\n' (tableHeader :: rows.map CsvRow.tableLine)

/-- The rows `printHist` prints: an empty bucket past 25 is skipped. -/
def Memlat.printHist (counts : List UInt64) : List CsvRow :=
  (rowsOf inlineRange counts).filter fun r => !(r.count == 0 && decide (r.bucket > 25))

/-- The rows the second loop of `main` prints. -/
def Iolat.printTable (counts : List UInt64) : List CsvRow :=
  (List.range maxSlots).map fun i =>
    ⟨i, (bucketRangeUs i).1, (bucketRangeUs i).2, counts.getD i 0⟩

end EbpfToy
