import EbpfToy.Go.Save
import EbpfToy.Lib.Utf8

/-!
# User space: the summary files

The text of the three summaries: `json.MarshalIndent` of the `Summary` structs
with two spaces of indentation, the members in the order of the fields and
under their tags. iolat also writes the duration as a floating-point number and
the time of day; both are given here as they are printed.
-/

namespace EbpfToy

open Lib Json

/-- A string constant of the source. -/
def constant (s : String) : Scalar Runes := .str (s.toList.map some)

def unsigned (n : UInt64) : Scalar Runes := .num (natToken n.toNat)

/-- The members of `Summary`. -/
def Memlat.Summary.members (s : Memlat.Summary) : Object Runes :=
  [("duration_sec".toList, .num (natToken s.durationSec)),
    ("total".toList, unsigned s.total),
    ("note".toList, constant s.note)]

def Runqlat.Summary.members (s : Runqlat.Summary) : Object Runes :=
  [("module".toList, constant s.module),
    ("metric".toList, constant s.metric),
    ("unit".toList, constant s.unit),
    ("duration_sec".toList, .num (natToken s.durationSec)),
    ("total_events".toList, unsigned s.totalEvents),
    ("tail_threshold_us".toList, unsigned s.tailThresholdUs),
    ("tail_events".toList, unsigned s.tailEvents),
    ("max_bucket".toList, .num (intToken s.maxBucket)),
    ("notes".toList, constant s.notes)]

/-- `durationSec` and `generatedAt` as they are printed; `out` is omitted when
it is empty. -/
def Iolat.Summary.members (s : Iolat.Summary) (durationSec : Token) (generatedAt out : GoString) :
    Object Runes :=
  [("tool".toList, constant s.tool),
    ("duration_sec".toList, .num durationSec),
    ("total".toList, unsigned s.total),
    ("generated_at".toList, .str (Utf8.runes generatedAt))] ++
  if out = [] then [] else [("out".toList, .str (Utf8.runes out))]

/-- What is in a summary file. -/
def SummaryFile.bytes {S : Type} (file : SummaryFile S) (members : S → Object Runes) :
    List UInt8 :=
  match file.keeps with
  | none => Utf8.encode (marshalIndent (members file.sum))
  | some n => (Utf8.encode (marshalIndent (members file.sum))).take n

/-! ## Reading a summary -/

/-- The number under a key. -/
def natUnder (ms : Object (List Char)) (key : String) : Option Nat :=
  match ms.find key.toList with
  | some (.num token) => some token.toNat
  | _ => none

def intUnder (ms : Object (List Char)) (key : String) : Option Int :=
  match ms.find key.toList with
  | some (.num token) => some token.toInt
  | _ => none

/-- The string under a key. -/
def textUnder (ms : Object (List Char)) (key : String) : Option (List Char) :=
  match ms.find key.toList with
  | some (.str s) => some s
  | _ => none

end EbpfToy
