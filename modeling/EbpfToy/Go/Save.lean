import EbpfToy.Go.Report
import EbpfToy.Go.Paths

/-!
# User space: writing the files

What the three `main` functions do after the sleep, from reading the histogram
to writing the CSV and then the summary. The answers of the operating system
are a parameter. The CSV writers drop the results of their prints and of the
deferred `Close`; they report only that the file could not be created. The
summary is written by `os.WriteFile`, which empties the file first and reports
every failure, but does not take back what it wrote.

A CSV is all ASCII, so its text is a list of characters.
-/

namespace EbpfToy

open Lib

/-- How a call of `os.WriteFile` ends. -/
inductive WriteFile where
  | whole
  /-- The file could not be opened, and is not touched. -/
  | notOpened (err : String)
  /-- The write or the `Close` failed; `keeps` bytes of the text are in the
  file, or all of it if there are no more. -/
  | broken (err : String) (keeps : Nat)

/-- How the file operations of a run end; an error is `some` message. -/
structure Files where
  /-- `os.MkdirAll(filepath.Dir(path), 0o755)`. -/
  mkdirAll : GoString → Option String
  /-- `os.Create`: a new file, empty, or an error. -/
  create : GoString → Option String
  /-- How much of its text the `i`-th write to the CSV can take; a write that
  takes less than all of it fails. -/
  takes : Nat → Nat
  /-- A `Close` that fails, with how much of the text is left in the file. -/
  closeKeeps : Option Nat
  writeFile : GoString → WriteFile

/-- A file being written: its text and the number of writes so far. -/
structure OpenFile where
  text : List Char
  writes : Nat

/-- `fmt.Fprintln(f, ..)` and `fmt.Fprintf(f, ..)` with the results dropped:
one write of the line, of which the file gets what the write takes. -/
def OpenFile.fprint (fs : Files) (f : OpenFile) (line : List Char) : OpenFile :=
  { text := f.text ++ line.take (fs.takes f.writes), writes := f.writes + 1 }

/-- `defer f.Close()`, with the result dropped: what the file holds in the end. -/
def OpenFile.close (fs : Files) (f : OpenFile) : List Char :=
  match fs.closeKeeps with
  | none => f.text
  | some n => f.text.take n

def header : List Char := "bucket,lo_us,hi_us,count".toList

/-- The fields of `"%d,%d,%d,%d\n"`. -/
def CsvRow.fields (r : CsvRow) : List Nat :=
  [r.bucket, r.loUs.toNat, r.hiUs.toNat, r.count.toNat]

def CsvRow.line (r : CsvRow) : List Char := joinDecimals ',' r.fields

/-- The lines of a CSV, each with its newline. -/
def csvLines (rows : List CsvRow) : List (List Char) :=
  (header :: rows.map CsvRow.line).map fun line => line ++ ['\n']

/-- The whole table: the header and one complete line for each row, in order. -/
def csvText (rows : List CsvRow) : List Char := joinLines '\n' (header :: rows.map CsvRow.line)

/-- `os.Create`, one print for the header and one for each row, `Close`: the
text of the file, or the error of `os.Create`. -/
def writeRows (fs : Files) (path : GoString) (rows : List CsvRow) : Except String (List Char) :=
  match fs.create path with
  | some err => .error err
  | none => .ok (((csvLines rows).foldl (OpenFile.fprint fs) ⟨[], 0⟩).close fs)

/-- A summary file: its path, the summary it was made for, and how many bytes of
the text are there when they could not all be written. -/
structure SummaryFile (S : Type) where
  path : GoString
  sum : S
  keeps : Option Nat := none

/-- How a run ends: the message it exits with, if it fails, and the files it
made, with their paths. -/
structure Exit (S : Type) where
  fatal : Option String := none
  csv : Option (GoString × List Char) := none
  summary : Option (SummaryFile S) := none

/-- First the CSV, and the summary only after it returned no error. -/
def saveBoth {S : Type} (csvPath summaryPath : GoString) (csv : Except String (List Char))
    (json : WriteFile) (csvMsg jsonMsg : String) (sum : S) : Exit S :=
  match csv with
  | .error err => { fatal := some s!"{csvMsg}: {err}" }
  | .ok text =>
    match json with
    | .notOpened err => { fatal := some s!"{jsonMsg}: {err}", csv := some (csvPath, text) }
    | .broken err keeps =>
      { fatal := some s!"{jsonMsg}: {err}", csv := some (csvPath, text),
        summary := some ⟨summaryPath, sum, some keeps⟩ }
    | .whole => { csv := some (csvPath, text), summary := some ⟨summaryPath, sum, none⟩ }

/-! ## memlat -/

namespace Memlat

/-- `saveCSV(path, counts)`, with the text it leaves in the file. -/
def saveCSVTo (fs : Files) (path : GoString) (counts : List UInt64) :
    Except String (List Char) :=
  writeRows fs path (saveCSV counts)

/-- The block `if out != ""` of `main`. -/
def save (fs : Files) (out : GoString) (counts : List UInt64) (sum : Summary) : Exit Summary :=
  if out = [] then {}
  else
    match fs.mkdirAll (csvPath out) with
    | some err => { fatal := some s!"mkdir out dir: {err}" }
    | none => saveBoth (csvPath out) (summaryPath out) (saveCSVTo fs (csvPath out) counts)
        (fs.writeFile (summaryPath out)) "save csv" "save json" sum

/-- `main` after the sleep. -/
def main (fs : Files) (durationSec : Nat) (out : GoString)
    (lookup : UInt32 → Except String UInt64) : Exit Summary :=
  match readHist lookup with
  | .error err => { fatal := some err }
  | .ok (counts, total) => save fs out counts (summary durationSec total)

end Memlat

/-! ## runqlat -/

namespace Runqlat

/-- `saveCSV(path, counts)`, with the text it leaves in the file. -/
def saveCSVTo (fs : Files) (path : GoString) (counts : List UInt64) :
    Except String (List Char) :=
  writeRows fs path (saveCSV counts)

/-- The block `if out != ""` of `main`. -/
def save (fs : Files) (out : GoString) (counts : List UInt64) (sum : Summary) : Exit Summary :=
  if out = [] then {}
  else
    let csvPath := normalizeCSVPath out
    match fs.mkdirAll csvPath with
    | some err => { fatal := some s!"mkdir out dir: {err}" }
    | none => saveBoth csvPath (summaryPath csvPath) (saveCSVTo fs csvPath counts)
        (fs.writeFile (summaryPath csvPath)) "save csv" "save json" sum

/-- `main` after the sleep; reading the histogram cannot fail. -/
def main (fs : Files) (durationSec : Nat) (out : GoString)
    (lookup : UInt32 → Except String (List UInt64)) : Exit Summary :=
  let (counts, total) := readHist lookup
  save fs out counts (summary durationSec counts total)

end Runqlat

/-! ## iolat -/

namespace Iolat

/-- `writeCSV(path, counts)`, with the text it leaves in the file. -/
def writeCSVTo (fs : Files) (path : GoString) (counts : List UInt64) :
    Except String (List Char) :=
  match fs.mkdirAll path with
  | some err => .error err
  | none => writeRows fs path (writeCSV counts)

def writeSummary (fs : Files) (path : GoString) : WriteFile :=
  match fs.mkdirAll path with
  | some err => .notOpened err
  | none => fs.writeFile path

/-- The end of `main`, from `normalizeOut(out)` on. -/
def save (fs : Files) (out : GoString) (counts : List UInt64) (sum : Summary) : Exit Summary :=
  let (csvPath, summaryPath) := normalizeOut out
  if csvPath = [] then {}
  else
    saveBoth csvPath summaryPath (writeCSVTo fs csvPath counts) (writeSummary fs summaryPath)
      "write csv" "write summary" sum

/-- `main` after the sleep; `json` is how `json.MarshalIndent` shows a string. -/
def main (fs : Files) (json : GoString → String) (out : GoString)
    (lookup : UInt32 → Except String UInt64) : Exit Summary :=
  match readCounts lookup with
  | .error err => { fatal := some err }
  | .ok counts => save fs out counts (summary (sumCounts counts) (json (normalizeOut out).1))

end Iolat
end EbpfToy
