import EbpfToy.Bpf.Probe
import EbpfToy.Go.Save
import EbpfToy.Lib.Machine
import EbpfToy.Lib.Program

/-!
# User space: a whole run of a tool

The three `main` functions as programs that call the kernel: they load the maps
and the programs, attach the start probe and then the stop probe, sleep, look
up every bucket, save, and take the probes down again. The handlers run on
their own, at any time, and each begins while its probe is attached; how fine
their steps are is a parameter. Any call may fail; `os.Exit` ends the process
without the deferred `Close`s, and the kernel takes the probes down with it.
What is printed on the terminal is left out.
-/

namespace EbpfToy

open Lib

/-! ## The handlers beside a process -/

/-- The handlers of a tool at work: a machine, in which some actions begin a
handler, and the histogram that it keeps. -/
structure Recorder (copies slots : Nat) where
  State : Type
  Act : Type
  machine : Machine State Act
  /-- The maps are empty, and no handler is in progress. -/
  boot : State
  beginsStart : Act → Prop
  beginsStop : Act → Prop
  /-- Each copy of each bucket. -/
  cell : State → Fin copies × Fin slots → UInt64

namespace Recorder

variable {copies slots : Nat} (R : Recorder copies slots)

/-- The state that some actions lead to. -/
def after (as : List R.Act) : R.State := R.machine.exec R.boot as

/-- Each action was allowed when it was taken. -/
def Legal (as : List R.Act) : Prop := R.machine.Legal R.boot as

variable {R} in
theorem Legal.of_isPrefix {as bs : List R.Act} (h : R.Legal bs) (hpre : as <+: bs) :
    R.Legal as := by
  obtain ⟨rest, rfl⟩ := hpre
  exact ((Machine.legal_append _ _ _).mp h).1

end Recorder

/-- Handlers that run one at a time, each as a single action. -/
abbrev Probe.atomic {V : Type} {copies slots cap : Nat} (P : Probe V copies slots cap) :
    Recorder copies slots where
  State := P.St
  Act := P.Ev
  machine := { allowed := fun _ _ => True, next := P.step }
  boot := P.init
  beginsStart e := ∃ k v, P.view e = .start k v
  beginsStop e := ∃ k, P.view e = .stop k
  cell := P.cell

/-! ## The kernel under a process -/

/-- A call that makes `main` give up when it fails. -/
inductive Attempt where
  | prepare (what : String)
  | attachStart
  | attachStop
  deriving DecidableEq

inductive Call where
  | attempt (a : Attempt)
  | sleep
  | lookup (key : UInt32)
  /-- The deferred calls, whose results nobody looks at. -/
  | closeStop
  | closeStart
  | closeMaps
  /-- The end of the process. -/
  | exit
  deriving DecidableEq

/-- What a call returns: an error for the attempts, and for a lookup the value
of each copy of the bucket, or an error. -/
def Answer (copies : Nat) : Call → Type
  | .attempt _ => Option String
  | .lookup _ => Except String (Fin copies → UInt64)
  | _ => Unit

variable {copies slots : Nat}

/-- What is noted of a run, for what is said about it afterwards; no call looks
at it. -/
structure Notes (R : Recorder copies slots) where
  /-- What the handlers had done when the stop probe had been attached, -/
  opened : Option (List R.Act) := none
  /-- when the sleep ended, -/
  slept : Option (List R.Act) := none
  /-- and when the last lookup so far returned. -/
  looked : Option (List R.Act) := none
  /-- What the lookups answered. -/
  answers : UInt32 → Option (Except String (Fin copies → UInt64)) := fun _ => none

/-- The kernel as a process finds it. -/
structure Kernel (R : Recorder copies slots) where
  /-- What the handlers have done. -/
  handled : List R.Act
  startOn : Bool
  stopOn : Bool
  /-- What they had done when the last call returned. -/
  since : List R.Act
  notes : Notes R

/-- No probe attached, empty maps. -/
def Kernel.boot (R : Recorder copies slots) : Kernel R := ⟨[], false, false, [], {}⟩

variable {R : Recorder copies slots}

/-- A handler begins while its probe is attached, and then takes its steps. -/
inductive Kernel.Fires : Kernel R → Kernel R → Prop where
  | fire {s : Kernel R} {a : R.Act} (allowed : R.machine.allowed (R.after s.handled) a)
      (start : R.beginsStart a → s.startOn = true) (stop : R.beginsStop a → s.stopOn = true) :
      Fires s { s with handled := s.handled ++ [a] }

/-- The state in which a call returns. -/
def Kernel.returned (s : Kernel R) : Kernel R := { s with since := s.handled }

/-- The state in which the stop probe is attached. -/
def Kernel.opened (s : Kernel R) : Kernel R :=
  { s.returned with stopOn := true, notes := { s.notes with opened := some s.handled } }

/-- The state in which the sleep ends. -/
def Kernel.slept (s : Kernel R) : Kernel R :=
  { s.returned with notes := { s.notes with slept := some s.handled } }

/-- The state in which a lookup returns its answer. -/
def Kernel.looked (s : Kernel R) (key : UInt32) (r : Except String (Fin copies → UInt64)) :
    Kernel R :=
  { s.returned with
    notes := { s.notes with
      looked := some s.handled
      answers := Function.update s.notes.answers key (some r) } }

/-- What a call may answer, and what it does. A lookup reads each copy of its
bucket at some moment while it is in progress. -/
inductive Kernel.Answers : Kernel R → (q : Call) → Answer copies q → Kernel R → Prop where
  | failed (s : Kernel R) (a : Attempt) (err : String) :
      Answers s (.attempt a) (some err) s.returned
  | prepared (s : Kernel R) (what : String) : Answers s (.attempt (.prepare what)) none s.returned
  | startAttached (s : Kernel R) :
      Answers s (.attempt .attachStart) none { s.returned with startOn := true }
  | stopAttached (s : Kernel R) : Answers s (.attempt .attachStop) none s.opened
  | slept (s : Kernel R) : Answers s .sleep () s.slept
  | notFound (s : Kernel R) (key : UInt32) (err : String) :
      Answers s (.lookup key) (.error err) (s.looked key (.error err))
  | found {s : Kernel R} {key : UInt32} {value : Fin copies → UInt64} (inside : key.toNat < slots)
      (read : ∀ c, ∃ mid, s.since <+: mid ∧ mid <+: s.handled ∧
        value c = R.cell (R.after mid) (c, ⟨key.toNat, inside⟩)) :
      Answers s (.lookup key) (.ok value) (s.looked key (.ok value))
  -- a `Close` that fails leaves its probe as it is
  | stopClosed (s : Kernel R) (on : Bool) (le : on ≤ s.stopOn) :
      Answers s .closeStop () { s.returned with stopOn := on }
  | startClosed (s : Kernel R) (on : Bool) (le : on ≤ s.startOn) :
      Answers s .closeStart () { s.returned with startOn := on }
  | mapsClosed (s : Kernel R) : Answers s .closeMaps () s.returned
  | exited (s : Kernel R) : Answers s .exit () { s.returned with startOn := false, stopOn := false }

/-- The kernel as a host of the tools. -/
def kernel (R : Recorder copies slots) : Host Call (Answer copies) (Kernel R) where
  moves := Kernel.Fires
  answers := Kernel.Answers

/-! ## The programs -/

section Programs

variable (copies) {S B : Type}

/-- A program of a tool that reads histograms of `copies` copies. -/
abbrev Tool (A : Type) := Program Call (Answer copies) A

/-- `os.Exit`, with what the run leaves behind. -/
def exit (r : Exit S) : Tool copies (Exit S) := .call .exit fun _ => .result r

/-- `if err != nil { fatalf(..) }` around a call. -/
def attempt (a : Attempt) (message : String → String) (next : Tool copies (Exit S)) :
    Tool copies (Exit S) :=
  .call (.attempt a) fun
    | some err => exit copies { fatal := some (message err) }
    | none => next

/-- The deferred `Close`s, last first, and the end of `main`. -/
def deferred (r : Exit S) : Tool copies (Exit S) :=
  .call .closeStop fun _ => .call .closeStart fun _ => .call .closeMaps fun _ => exit copies r

/-- The end of `main`, once the saving is over: `fatalf` skips what is deferred. -/
def finish (r : Exit S) : Tool copies (Exit S) :=
  match r.fatal with
  | some _ => exit copies r
  | none => deferred copies r

/-- A bucket of the loop: after an error no bucket is looked up any more. -/
def lookupRound (round : B → Nat → Except String (Fin copies → UInt64) → Except String B)
    (acc : Except String B) (i : Nat) : Tool copies (Except String B) :=
  match acc with
  | .error err => .result (.error err)
  | .ok b => .call (.lookup (UInt32.ofNat i)) fun r => .result (round b i r)

/-- The loop over the buckets; `round` is its body, with what the lookup gave. -/
def readLoop (round : B → Nat → Except String (Fin copies → UInt64) → Except String B)
    (buckets : List Nat) (init : B) : Tool copies (Except String B) :=
  .loop (lookupRound copies round) buckets (.ok init)

end Programs

/-- What a tool with one copy gets from a lookup. -/
def sole (r : Except String (Fin 1 → UInt64)) : Except String UInt64 := r.map fun v => v soleCopy

namespace Memlat

/-- The body of the loop in `readHist`. -/
def readRound (acc : List UInt64 × UInt64) (i : Nat) (r : Except String (Fin 1 → UInt64)) :
    Except String (List UInt64 × UInt64) :=
  match sole r with
  | .error err => .error s!"hist lookup bucket={i}: {err}"
  | .ok v => .ok (acc.1.set i v, acc.2 + v)

/-- `main` after the flags. -/
def session (fs : Files) (durationSec : Nat) (out : GoString) : Tool 1 (Exit Summary) :=
  attempt 1 (.prepare "LoadCollectionSpec") (fun err => s!"load spec: {err}") <|
  attempt 1 (.prepare "NewCollection") (fun err => s!"new collection: {err}") <|
  attempt 1 (.prepare "Programs")
    (fun _ => "programs not found (need memlat_entry/memlat_exit)") <|
  attempt 1 (.prepare "Maps") (fun _ => "map 'hist' not found") <|
  attempt 1 .attachStart (fun err => s!"attach kprobe(handle_mm_fault): {err}") <|
  attempt 1 .attachStop (fun err => s!"attach kretprobe(handle_mm_fault): {err}") <|
  .call .sleep fun _ =>
  (readLoop 1 readRound (List.range maxSlots) (List.replicate maxSlots 0, 0)).bind fun
    | .error err => exit 1 { fatal := some err }
    | .ok (counts, total) => finish 1 (save fs out counts (summary durationSec total))

end Memlat

namespace Runqlat

/-- The body of the loop in `readHist`: a failed lookup is skipped. -/
def readRound {cpus : Nat} (acc : List UInt64 × UInt64) (i : Nat)
    (r : Except String (Fin cpus → UInt64)) : Except String (List UInt64 × UInt64) :=
  match r with
  | .error _ => .ok acc
  | .ok perCPU =>
    let cnt := wordSum (List.ofFn perCPU)
    .ok (acc.1.set i cnt, acc.2 + cnt)

/-- `main` after the flags. -/
def session (cpus : Nat) (fs : Files) (durationSec : Nat) (out : GoString) :
    Tool cpus (Exit Summary) :=
  attempt cpus (.prepare "LoadCollectionSpec") (fun err => s!"load spec: {err}") <|
  attempt cpus (.prepare "NewCollection") (fun err => s!"new collection: {err}") <|
  attempt cpus (.prepare "Programs")
    (fun _ => "programs not found (need runqlat_wakeup/runqlat_switch)") <|
  attempt cpus (.prepare "Maps") (fun _ => "map 'hist' not found") <|
  attempt cpus .attachStart (fun err => s!"attach tracepoint sched:sched_wakeup: {err}") <|
  attempt cpus .attachStop (fun err => s!"attach tracepoint sched:sched_switch: {err}") <|
  .call .sleep fun _ =>
  (readLoop cpus readRound (List.range maxSlots) (List.replicate maxSlots 0, 0)).bind fun
    -- no round gives an error, so this is never taken
    | .error err => exit cpus { fatal := some err }
    | .ok (counts, total) => finish cpus (save fs out counts (summary durationSec counts total))

end Runqlat

namespace Iolat

/-- The body of the first loop of `main`. -/
def readRound (counts : List UInt64) (i : Nat) (r : Except String (Fin 1 → UInt64)) :
    Except String (List UInt64) :=
  match sole r with
  | .error err => .error s!"map lookup hist[{i}]: {err}"
  | .ok val => .ok (counts.set i val)

/-- `main` after `flag.Parse`; the duration is parsed first. -/
def session (fs : Files) (json : GoString → String) (out : GoString) : Tool 1 (Exit Summary) :=
  attempt 1 (.prepare "ParseDuration") (fun err => s!"invalid --duration: {err}") <|
  attempt 1 (.prepare "RemoveMemlock") (fun err => s!"rlimit: {err}") <|
  attempt 1 (.prepare "loadIolatObjects") (fun err => s!"load objects: {err}") <|
  attempt 1 .attachStart (fun err => s!"attach issue: {err}") <|
  attempt 1 .attachStop (fun err => s!"attach complete: {err}") <|
  .call .sleep fun _ =>
  (readLoop 1 readRound (List.range maxSlots) (List.replicate maxSlots 0)).bind fun
    | .error err => exit 1 { fatal := some err }
    | .ok counts =>
      finish 1 (save fs out counts (summary (sumCounts counts) (json (normalizeOut out).1)))

end Iolat
end EbpfToy
