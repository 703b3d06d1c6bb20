import EbpfToy.Lib.Text

/-!
# User space: the output paths

From the `-out` flag to the paths of the two files: `normalizeCSVPath` and
`main` in `cmd/runqlat`, `normalizeOut` in `cmd/iolat`, and memlat, which takes
the flag as it is. `hasSuffix` and `trimSuffix` are `strings.HasSuffix` and
`strings.TrimSuffix`.
-/

namespace EbpfToy

open Lib

/-- A Go string is a sequence of bytes, whatever they encode. -/
abbrev GoString := List UInt8

/-- The bytes of a literal. -/
def literal (s : String) : GoString := s.toUTF8.data.toList

def dotCsv : GoString := literal ".csv"

def dotSummaryJson : GoString := literal ".summary.json"

namespace Memlat

/-- The CSV goes to `out` itself, with or without a suffix. -/
def csvPath (out : GoString) : GoString := out

def summaryPath (out : GoString) : GoString := out ++ dotSummaryJson

end Memlat

namespace Runqlat

def normalizeCSVPath (out : GoString) : GoString :=
  if out = [] then []
  else if hasSuffix out dotCsv then out
  else out ++ dotCsv

/-- `strings.TrimSuffix(csvPath, ".csv") + ".summary.json"`. -/
def summaryPath (csvPath : GoString) : GoString := trimSuffix csvPath dotCsv ++ dotSummaryJson

end Runqlat

namespace Iolat

/-- The path of the CSV and the path of the summary. -/
def normalizeOut (out : GoString) : GoString × GoString :=
  if out = [] then ([], [])
  else
    -- don't create `.csv.csv`
    let csvPath := if hasSuffix out dotCsv then out else out ++ dotCsv
    let summaryPath := trimSuffix csvPath dotCsv ++ dotSummaryJson
    (csvPath, summaryPath)

end Iolat
end EbpfToy
