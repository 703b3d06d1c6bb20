import EbpfToy.Go.Summary
import EbpfToy.Lib.Paths
import EbpfToy.Lib.Shell

/-!
# Scripts: collecting with all three tools

`scripts/collect_all.sh`: the loop over the arguments, and the three tools one
after the other under `set -e`, into a directory that is named by the time of
day. Only files are on the disk here, under the assumption that no directory is
a link; `mkdir`, `echo` and `ls` leave them as they are.
-/

namespace EbpfToy.CollectAll

open Lib Json

/-- `DURATION` and `OUTDIR`. -/
structure Config where
  duration : GoString
  outdir : GoString

def defaults : Config := ⟨literal "30s", literal "results/week2_one_click"⟩

/-- The `while` loop over the arguments. It ends the script with status 1 at
`-h`, at an argument that it does not know, and at an option without a value,
where `$2` is not set. -/
def parse (c : Config) : List GoString → Option Config
  | [] => some c
  | [_] => none
  | arg :: value :: rest =>
    if arg = literal "--duration" then parse { c with duration := value } rest
    else if arg = literal "--out" then parse { c with outdir := value } rest
    else none

/-- `"${OUTDIR}/${TAG}"`. -/
def runDir (c : Config) (tag : GoString) : GoString := c.outdir ++ literal "/" ++ tag

/-- The text of each file. -/
abbrev FileSystem := Disk Paths.Place (List Char)

section Tools

variable (cwd : Paths.Place)

/-- What a run of a tool leaves: its files as far as it wrote them, and all
others as they were. A file that it failed to write may hold anything. -/
structure Leaves {S : Type} (csvPath summaryPath : GoString) (json : S → List Char) (x : Exit S)
    (d d' : FileSystem) : Prop where
  csv : ∀ path text, x.csv = some (path, text) → d' (Paths.resolve cwd path) = some text
  summary : ∀ path sum, x.summary = some ⟨path, sum, none⟩ →
    d' (Paths.resolve cwd path) = some (json sum)
  frame : ∀ file, file ≠ Paths.resolve cwd csvPath → file ≠ Paths.resolve cwd summaryPath →
    d' file = d file

/-- `./bin/memlat --duration .. --out ..`: the run ends like `main`, on any
answers it gets, or without a file before it comes to reading. -/
def memlat (out : GoString) : Command Paths.Place (List Char) := fun d d' ok =>
  ∃ x : Exit Memlat.Summary,
    ((∃ fs durationSec lookup, x = Memlat.main fs durationSec out lookup) ∨
      ∃ err, x = { fatal := some err }) ∧
    Leaves cwd (Memlat.csvPath out) (Memlat.summaryPath out)
      (fun s => marshalIndent s.members) x d d' ∧
    ok = x.fatal.isNone

def runqlat (out : GoString) : Command Paths.Place (List Char) := fun d d' ok =>
  ∃ x : Exit Runqlat.Summary,
    ((∃ fs durationSec lookup, x = Runqlat.main fs durationSec out lookup) ∨
      ∃ err, x = { fatal := some err }) ∧
    Leaves cwd (Runqlat.normalizeCSVPath out) (Runqlat.summaryPath (Runqlat.normalizeCSVPath out))
      (fun s => marshalIndent s.members) x d d' ∧
    ok = x.fatal.isNone

/-- iolat's summary also holds the duration and the time as they are printed. -/
def iolat (out : GoString) : Command Paths.Place (List Char) := fun d d' ok =>
  ∃ (x : Exit Iolat.Summary) (durationSec : Token) (generatedAt : GoString),
    ((∃ fs json lookup, x = Iolat.main fs json out lookup) ∨ ∃ err, x = { fatal := some err }) ∧
    Leaves cwd (Iolat.normalizeOut out).1 (Iolat.normalizeOut out).2
      (fun s => marshalIndent (s.members durationSec generatedAt (Iolat.normalizeOut out).1))
      x d d' ∧
    ok = x.fatal.isNone

/-- `mkdir -p` and `ls`. -/
def noFile : Command Paths.Place (List Char) := fun d d' _ => d' = d

/-- The commands after the loop, in the run directory. -/
def commands (dir : GoString) : List (Command Paths.Place (List Char)) :=
  [noFile, memlat cwd (dir ++ literal "/memlat.csv"),
    runqlat cwd (dir ++ literal "/runqlat.csv"), iolat cwd (dir ++ literal "/iolat.csv"), noFile]

/-- The script with its arguments, at the time that `date` prints as `tag`. -/
def script (args : List GoString) (tag : GoString) : Command Paths.Place (List Char) :=
  fun d d' ok =>
    match parse defaults args with
    | none => d' = d ∧ ok = false
    | some c => Script (commands cwd (runDir c tag)) d d' ok

end Tools

end EbpfToy.CollectAll
