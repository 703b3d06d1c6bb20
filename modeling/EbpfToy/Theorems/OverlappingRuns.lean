import EbpfToy.Theorems.Clocks
import EbpfToy.Theorems.OnDisk

/-!
# Whole runs whose handlers overlap

A run of a tool from its first call to its files, with nothing in it atomic but
a map access or a reading of the clock. The handlers take turns in several
contexts, and runqlat's on several CPUs; the process attaches its probes, sleeps
and looks the buckets up in the meantime, and handlers that have begun go on
after their probe is gone. What is on disk in the end is what had been counted
when the buckets were looked up, and every sample that was counted is bracketed
by the times of its two handlers.
-/

namespace EbpfToy

open Lib

/-- The handlers of a tool, access by access, beside a process. -/
abbrev overlapping {V Payload C : Type} {copies slots : Nat} [DecidableEq C]
    (T : Handlers.Code UInt64 V Payload (Fin copies × Fin slots) C) (cap : Nat) :
    Recorder copies slots where
  State := Handlers.System UInt64 V Payload (Fin copies × Fin slots) C cap
  Act := Handlers.Act UInt64 Payload C
  machine := Handlers.system T cap
  boot := Handlers.rest ..
  beginsStart a := ∃ c k p, a = .enter c (.start k p)
  beginsStop a := ∃ c k, a = .enter c (.stop k)
  cell s := s.cell

end EbpfToy

namespace EbpfToy.Session

open Lib Json

variable {V Payload C : Type} {copies slots cap : Nat} [DecidableEq C]
  {T : Handlers.Code UInt64 V Payload (Fin copies × Fin slots) C}

/-- The samples that the actions `as` have counted in a copy of a bucket. -/
def countedIn (T : Handlers.Code UInt64 V Payload (Fin copies × Fin slots) C) (cap : Nat)
    (as : List (Handlers.Act UInt64 Payload C)) (c : Fin copies) (b : Fin slots) : Nat :=
  ((overlapping T cap).after as).samples.countP fun x => decide (T.cellOf x.agent x.delta = (c, b))

/-- The samples they have counted whose true lengths are those of bucket `b`. -/
def measuredIn (T : Handlers.Code UInt64 V Payload (Fin copies × Fin slots) C) (cap : Nat)
    (slotOf : Nat → Nat) (as : List (Handlers.Act UInt64 Payload C)) (b : Fin slots) : Nat :=
  ((overlapping T cap).after as).samples.countP fun x => decide (slotOf (trueLength x) = b.val)

theorem countedIn_le_of_isPrefix {as bs : List (Handlers.Act UInt64 Payload C)} (h : as <+: bs)
    (c : Fin copies) (b : Fin slots) : countedIn T cap as c b ≤ countedIn T cap bs c b :=
  (Handlers.samples_of_isPrefix h).sublist.countP_le

theorem sum_countedIn (as : List (Handlers.Act UInt64 Payload C)) :
    ∑ b, ∑ c, countedIn T cap as c b = ((overlapping T cap).after as).samples.length := by
  have hcopies : ∀ b, ∑ c, countedIn T cap as c b =
      ((overlapping T cap).after as).samples.countP fun x =>
        decide ((T.cellOf x.agent x.delta).2 = b ∧ True) := by
    intro b
    simp only [countedIn, Prod.ext_iff, and_true]
    exact sum_countP_eq _ _ _
  simp only [hcopies]
  rw [sum_countP_eq]
  simp

/-- A lookup finds what has been counted. -/
theorem bounds_overlapping (hprivate : T.Private) {as : List (Handlers.Act UInt64 Payload C)}
    (hlegal : (overlapping T cap).Legal as)
    (hfit : ((overlapping T cap).after as).samples.length < 2 ^ 64) :
    Bounds (overlapping T cap) as (countedIn T cap) (countedIn T cap) where
  between := by
    intro first moment last hfirst hmoment hlast c b
    have hle : countedIn T cap moment c b < 2 ^ 64 := by
      refine lt_of_le_of_lt (List.countP_le_length.trans ?_) hfit
      exact (Handlers.samples_of_isPrefix (hmoment.trans hlast)).length_le
    have hcell : (overlapping T cap).cell ((overlapping T cap).after moment) (c, b) =
        UInt64.ofNat (countedIn T cap moment c b) :=
      (Handlers.inv_of_legal hprivate (hlegal.of_isPrefix (hmoment.trans hlast))).cell (c, b)
    rw [hcell, UInt64.toNat_ofNat', Nat.mod_eq_of_lt hle]
    exact ⟨countedIn_le_of_isPrefix hfirst c b, countedIn_le_of_isPrefix hmoment c b⟩
  fits := by
    intro last hlast
    rw [sum_countedIn]
    exact (Handlers.samples_of_isPrefix hlast).length_le.trans_lt hfit

/-- With the copies added up, the buckets are those of the true lengths. -/
theorem sum_copies_countedIn {P : Probe V copies slots cap} {copyOf : C → Fin copies}
    {slotOf : Nat → Nat} (hcell : ∀ c d, T.cellOf c d = (copyOf c, P.slot d))
    (hslot : ∀ d : UInt64, (P.slot d).val = slotOf d.toNat) (hprivate : T.Private)
    {as : List (Handlers.Act UInt64 Payload C)} (hlegal : (overlapping T cap).Legal as) :
    (fun b => ∑ c, countedIn T cap as c b) = measuredIn T cap slotOf as := by
  funext b
  have hcopy : ∀ c, countedIn T cap as c b = _ :=
    fun c => countP_cellOf hcell hslot hprivate hlegal c b
  simp only [hcopy]
  exact sum_countP_eq _ _ _

/-! ## The three tools -/

section Runs

variable {cpus durationSec : Nat} {fs : Files} {json : GoString → String} {out : GoString}

/-- Both ends of the pass are parts of a legal run. -/
theorem Window.legal {s : Kernel (overlapping T cap)}
    {first last : List (Handlers.Act UInt64 Payload C)} (h : Window s first last)
    (hlegal : (overlapping T cap).Legal s.handled) :
    (overlapping T cap).Legal first ∧ (overlapping T cap).Legal last :=
  ⟨hlegal.of_isPrefix (h.pass.trans h.handled), hlegal.of_isPrefix h.handled⟩

theorem Memlat.run_overlapping {s : Kernel (overlapping (Memlat.code C) cap)}
    {r : Exit Memlat.Summary}
    (hrun : (kernel (overlapping (Memlat.code C) cap)).Run (Kernel.boot _)
      (Memlat.session fs durationSec out) s (.result r))
    (hfit : ((overlapping (Memlat.code C) cap).after s.handled).samples.length < 2 ^ 64) :
    Outcome r s fun first last =>
      Measured Memlat.slotOf ((overlapping (Memlat.code C) cap).after last) ∧
      Memlat.Reports s (measuredIn (Memlat.code C) cap Memlat.slotOf first)
        (measuredIn (Memlat.code C) cap Memlat.slotOf last) fs durationSec out r := by
  have hprivate := Memlat.private_code C
  refine (Memlat.run_reports hrun (bounds_overlapping hprivate (legal_of_run hrun) hfit)).mono ?_
  intro first last hwindow hreports
  obtain ⟨hfirst, hlast⟩ := hwindow.legal (legal_of_run hrun)
  rw [sum_copies_countedIn (P := Memlat.probe cap) (fun _ _ => rfl) Memlat.val_slot hprivate hfirst,
    sum_copies_countedIn (P := Memlat.probe cap) (fun _ _ => rfl) Memlat.val_slot hprivate hlast]
    at hreports
  exact ⟨measured (P := Memlat.probe cap) (fun _ _ => rfl) Memlat.val_slot hprivate hlast, hreports⟩

theorem Runqlat.run_overlapping {s : Kernel (overlapping (Runqlat.code cpus) cap)}
    {r : Exit Runqlat.Summary}
    (hrun : (kernel (overlapping (Runqlat.code cpus) cap)).Run (Kernel.boot _)
      (Runqlat.session cpus fs durationSec out) s (.result r))
    (hfit : ((overlapping (Runqlat.code cpus) cap).after s.handled).samples.length < 2 ^ 64) :
    Outcome r s fun first last =>
      Measured Runqlat.slotOf ((overlapping (Runqlat.code cpus) cap).after last) ∧
      Runqlat.Reports s (measuredIn (Runqlat.code cpus) cap Runqlat.slotOf first)
        (measuredIn (Runqlat.code cpus) cap Runqlat.slotOf last) fs durationSec out r := by
  have hprivate := Runqlat.private_code cpus
  refine (Runqlat.run_reports hrun (bounds_overlapping hprivate (legal_of_run hrun) hfit)).mono ?_
  intro first last hwindow hreports
  obtain ⟨hfirst, hlast⟩ := hwindow.legal (legal_of_run hrun)
  have hcell : ∀ c d, (Runqlat.code cpus).cellOf c d = (c, (Runqlat.probe cpus cap).slot d) :=
    fun _ _ => rfl
  rw [sum_copies_countedIn hcell Runqlat.val_slot hprivate hfirst,
    sum_copies_countedIn hcell Runqlat.val_slot hprivate hlast] at hreports
  exact ⟨measured hcell Runqlat.val_slot hprivate hlast, hreports⟩

theorem Iolat.run_overlapping {s : Kernel (overlapping (Iolat.code C) cap)}
    {r : Exit Iolat.Summary}
    (hrun : (kernel (overlapping (Iolat.code C) cap)).Run (Kernel.boot _)
      (Iolat.session fs json out) s (.result r))
    (hfit : ((overlapping (Iolat.code C) cap).after s.handled).samples.length < 2 ^ 64) :
    Outcome r s fun first last =>
      Measured Iolat.slotOf ((overlapping (Iolat.code C) cap).after last) ∧
      Iolat.Reports s (measuredIn (Iolat.code C) cap Iolat.slotOf first)
        (measuredIn (Iolat.code C) cap Iolat.slotOf last) fs json out r := by
  have hprivate := Iolat.private_code C
  refine (Iolat.run_reports hrun (bounds_overlapping hprivate (legal_of_run hrun) hfit)).mono ?_
  intro first last hwindow hreports
  obtain ⟨hfirst, hlast⟩ := hwindow.legal (legal_of_run hrun)
  have hcell : ∀ c d, (Iolat.code C).cellOf c d = (soleCopy, (Iolat.probe cap).slot d) :=
    fun _ _ => rfl
  rw [sum_copies_countedIn hcell Iolat.val_slot hprivate hfirst,
    sum_copies_countedIn hcell Iolat.val_slot hprivate hlast] at hreports
  exact ⟨measured hcell Iolat.val_slot hprivate hlast, hreports⟩

end Runs

/-- Whole runs of the three tools, whose handlers overlap, at every access and
reading of the clock, with each other and with the calls of the process, any of
which may fail: the run gives up before a stop handler has begun, or it ends as
the tool does on what its lookups answered. Then what it reports in each bucket
is no less than the samples that had been counted when the sleep ended, and no
more than those when the last lookup returned, each sample in the bucket of its
true length, which is bracketed by the times of its two handlers; and if the CSV
has every line, so are the rows on disk, and the summary, if there is one, has
their figures or reads as no object. -/
theorem whole_runs_overlap :
    (∀ (C : Type) [DecidableEq C] (cap : Nat) (fs : Files) (durationSec : Nat) (out : GoString)
      (s : Kernel (overlapping (Memlat.code C) cap)) (r : Exit Memlat.Summary),
      (kernel (overlapping (Memlat.code C) cap)).Run (Kernel.boot _)
        (Memlat.session fs durationSec out) s (.result r) →
      ((overlapping (Memlat.code C) cap).after s.handled).samples.length < 2 ^ 64 →
      Outcome r s fun first last =>
        let lo := measuredIn (Memlat.code C) cap Memlat.slotOf first
        let hi := measuredIn (Memlat.code C) cap Memlat.slotOf last
        Measured Memlat.slotOf ((overlapping (Memlat.code C) cap).after last) ∧
        Memlat.Reports s lo hi fs durationSec out r ∧
        ∀ path text, WholeCsv r Memlat.maxSlots path text →
          OnDisk r lo hi (fun _ => False) text fun file =>
            file.Tells Memlat.Summary.members (Memlat.Agrees (decode text))) ∧
    (∀ (cpus cap : Nat) (fs : Files) (durationSec : Nat) (out : GoString)
      (s : Kernel (overlapping (Runqlat.code cpus) cap)) (r : Exit Runqlat.Summary),
      (kernel (overlapping (Runqlat.code cpus) cap)).Run (Kernel.boot _)
        (Runqlat.session cpus fs durationSec out) s (.result r) →
      ((overlapping (Runqlat.code cpus) cap).after s.handled).samples.length < 2 ^ 64 →
      Outcome r s fun first last =>
        let lo := measuredIn (Runqlat.code cpus) cap Runqlat.slotOf first
        let hi := measuredIn (Runqlat.code cpus) cap Runqlat.slotOf last
        Measured Runqlat.slotOf ((overlapping (Runqlat.code cpus) cap).after last) ∧
        Runqlat.Reports s lo hi fs durationSec out r ∧
        ∀ path text, WholeCsv r Runqlat.maxSlots path text →
          OnDisk r lo hi (Failed s) text fun file =>
            file.Tells Runqlat.Summary.members (Runqlat.Agrees (decode text))) ∧
    (∀ (C : Type) [DecidableEq C] (cap : Nat) (fs : Files) (json : GoString → String)
      (out : GoString) (s : Kernel (overlapping (Iolat.code C) cap)) (r : Exit Iolat.Summary),
      (kernel (overlapping (Iolat.code C) cap)).Run (Kernel.boot _)
        (Iolat.session fs json out) s (.result r) →
      ((overlapping (Iolat.code C) cap).after s.handled).samples.length < 2 ^ 64 →
      Outcome r s fun first last =>
        let lo := measuredIn (Iolat.code C) cap Iolat.slotOf first
        let hi := measuredIn (Iolat.code C) cap Iolat.slotOf last
        Measured Iolat.slotOf ((overlapping (Iolat.code C) cap).after last) ∧
        Iolat.Reports s lo hi fs json out r ∧
        ∀ path text, WholeCsv r Iolat.maxSlots path text →
          OnDisk r lo hi (fun _ => False) text fun file => ∀ durationSec generatedAt,
            file.Tells (fun s => s.members durationSec generatedAt path)
              (Iolat.Agrees path (decode text))) := by
  refine ⟨?_, ?_, ?_⟩
  · intro C _ cap fs durationSec out s r hrun hfit
    refine (Memlat.run_overlapping hrun hfit).mono fun first last _ h => ?_
    exact ⟨h.1, h.2, fun path text hcsv => h.2.onDisk hcsv⟩
  · intro cpus cap fs durationSec out s r hrun hfit
    refine (Runqlat.run_overlapping hrun hfit).mono fun first last _ h => ?_
    exact ⟨h.1, h.2, fun path text hcsv => h.2.onDisk hcsv⟩
  · intro C _ cap fs json out s r hrun hfit
    refine (Iolat.run_overlapping hrun hfit).mono fun first last _ h => ?_
    exact ⟨h.1, h.2, fun path text hcsv => h.2.onDisk hcsv⟩

/-! ## A run that reads between two writes -/

/-- Two faults in two contexts. The exit of the second has deleted its key, and
its sample is not counted yet. -/
def twoFaults {C : Type} (c c' : C) : List (Handlers.Act UInt64 Unit C) :=
  [.tick 1000, .enter c (.start 7 ()), .step c, .enter c' (.start 8 ()), .tick 2000, .step c',
    .step c', .step c, .step c', .step c, .tick 9000, .enter c' (.stop 8), .enter c (.stop 7),
    .step c', .step c, .step c', .tick 9500, .step c, .step c', .step c, .step c, .step c]

/-- memlat with `-out a`, and these faults during its sleep. -/
def twoFaultsRun {C : Type} [DecidableEq C] (c c' : C) :
    Exit Memlat.Summary × Kernel (overlapping (Memlat.code C) 4) :=
  Host.outcome (during (twoFaults c c')) (Memlat.session (allWell 100) 10 [97]) (Kernel.boot _)

theorem run_twoFaultsRun :
    (kernel (overlapping (Memlat.code (Fin 2)) 4)).Run (Kernel.boot _)
      (Memlat.session (allWell 100) 10 [97]) (twoFaultsRun (0 : Fin 2) 1).2
      (.result (twoFaultsRun (0 : Fin 2) 1).1) := by
  have hlegal : (Handlers.system (Memlat.code (Fin 2)) 4).Legal (Handlers.rest ..)
    (twoFaults 0 1) := by decide
  exact (serves_during (R := overlapping (Memlat.code (Fin 2)) 4) hlegal).run _ _

set_option maxRecDepth 8000 in
theorem handled_twoFaultsRun : (twoFaultsRun (0 : Fin 2) 1).2.handled = twoFaults 0 1 := by
  rfl

set_option maxRecDepth 8000 in
theorem fatal_twoFaultsRun : (twoFaultsRun (0 : Fin 2) 1).1.fatal = none := by
  rfl

theorem whole_runs_overlap_two_faults :
    ∃ text file, WholeCsv (twoFaultsRun (0 : Fin 2) 1).1 Memlat.maxSlots [97] text ∧
      (twoFaultsRun (0 : Fin 2) 1).1.summary = some file ∧ file.keeps = none ∧
      ∃ first last, Window (twoFaultsRun (0 : Fin 2) 1).2 first last ∧
        Measured Memlat.slotOf ((overlapping (Memlat.code (Fin 2)) 4).after last) ∧
        OnDisk (twoFaultsRun (0 : Fin 2) 1).1
          (measuredIn (Memlat.code (Fin 2)) 4 Memlat.slotOf first)
          (measuredIn (Memlat.code (Fin 2)) 4 Memlat.slotOf last) (fun _ => False) text fun file =>
            file.Tells Memlat.Summary.members (Memlat.Agrees (decode text)) := by
  have hfit : ((overlapping (Memlat.code (Fin 2)) 4).after
      (twoFaultsRun (0 : Fin 2) 1).2.handled).samples.length < 2 ^ 64 := by
    rw [handled_twoFaultsRun]
    decide
  rcases whole_runs_overlap.1 (Fin 2) 4 (allWell 100) 10 [97] _ _ run_twoFaultsRun hfit with
    hgave | ⟨first, last, hwindow, hmeasured, hreports, hdisk⟩
  · exact absurd fatal_twoFaultsRun hgave.fatal
  · obtain ⟨text, file, hcsv, hfile, hkeeps⟩ := hreports.exists_saved (List.cons_ne_nil 97 [])
      fatal_twoFaultsRun
    exact ⟨text, file, hcsv, hfile, hkeeps, first, last, hwindow, hmeasured,
      hdisk [97] text hcsv⟩

end EbpfToy.Session
