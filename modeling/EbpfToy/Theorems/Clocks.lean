import EbpfToy.Bpf.Iolat
import EbpfToy.Bpf.Memlat
import EbpfToy.Bpf.Runqlat
import EbpfToy.Lib.Handlers
import EbpfToy.Theorems.EndToEnd

/-!
# What a sample measures

The handlers of the three tools, access by access, with `bpf_ktime_get_ns`
where the source calls it: `memlat_exit` and `iolat_complete` look their key up
first and read the clock then, `runqlat_switch` reads the clock first. Run one
after the other they are the handlers of the probes (`OneByOne`). Handlers on
one key do not overlap, but for stops that find nothing: CPUs that go idle at
once all switch to thread 0.

When they overlap, a handler may be held up anywhere, also between its reading
of the clock and the access that makes the reading visible. A sample is then
not exact, but it is bracketed: it is at least the time from the store of its
start to the beginning of its stop, and at most that from the beginning of its
start to the moment it is counted. The subtraction never wraps, and the
histogram counts every sample.
-/

namespace EbpfToy

open Lib Handlers

/-- The accesses of `memlat_entry` and `memlat_exit`. -/
def Memlat.code (C : Type) : Code UInt64 UInt64 Unit (Fin 1 × Fin maxSlots) C where
  start := [.clock, .update]
  stop := [.lookup, .clock, .delete, .fetchAdd]
  stamp _ ts := ts
  tsOf tsp := tsp
  cellOf _ deltaNs := (soleCopy, slot deltaNs)
  tsOf_stamp _ _ := rfl

/-- The accesses of `runqlat_wakeup` and `runqlat_switch`. -/
def Runqlat.code (cpus : Nat) :
    Code UInt64 UInt64 Unit (Fin cpus × Fin maxSlots) (Fin cpus) where
  start := [.clock, .update]
  -- `(*cnt)++` is a load and a store
  stop := [.clock, .lookup, .increment, .delete]
  stamp _ now := now
  tsOf tsp := tsp
  cellOf cpu deltaNs := (cpu, slot deltaNs)
  tsOf_stamp _ _ := rfl

/-- The accesses of `iolat_issue` and `iolat_complete`. -/
def Iolat.code (C : Type) :
    Code UInt64 IolatStart (UInt64 × Comm) (Fin 1 × Fin maxSlots) C where
  start := [.clock, .update]
  stop := [.lookup, .clock, .fetchAdd, .delete]
  stamp issuer ts := { ts := ts, pidTgid := issuer.1, comm := issuer.2 }
  tsOf info := info.ts
  cellOf _ deltaNs := (soleCopy, slot deltaNs)
  tsOf_stamp _ _ := rfl

/-- runqlat's counters have one CPU each, and the others are bumped atomically. -/
theorem Memlat.private_code (C : Type) : (Memlat.code C).Private := by
  right
  intro op
  cases op <;> simp [Code.codeOf, Memlat.code]

theorem Runqlat.private_code (cpus : Nat) : (Runqlat.code cpus).Private := by
  left
  intro c c' d d' heq
  exact congrArg Prod.fst heq

theorem Iolat.private_code (C : Type) : (Iolat.code C).Private := by
  right
  intro op
  cases op <;> simp [Code.codeOf, Iolat.code]

/-! ## One after the other -/

/-- The event that `memlat_entry` or `memlat_exit` is run for. -/
def Memlat.Ev.op : Memlat.Ev → Op UInt64 Unit
  | .entry pidTgid _ => .start pidTgid ()
  | .exit pidTgid _ => .stop pidTgid

def Memlat.implements (cap : Nat) :
    Implements (Memlat.code (Fin 1)) (Memlat.probe cap).toStopwatch where
  time := Ev.time
  op := Ev.op
  agent _ := soleCopy
  start := by
    intro e k v hview
    cases e with
    | entry pidTgid ts =>
        obtain ⟨rfl, rfl⟩ : pidTgid = k ∧ ts = v := by simpa [Ev.view] using hview
        exact ⟨(), rfl, rfl⟩
    | exit pidTgid now => simp [Ev.view] at hview
  stop := by
    intro e k hview
    cases e with
    | entry pidTgid ts => simp [Ev.view] at hview
    | exit pidTgid now =>
        obtain rfl : pidTgid = k := by simpa [Ev.view] using hview
        rfl
  cellOf _ _ := rfl
  startCode := rfl
  stopCode := .inl rfl

def Runqlat.Ev.op {cpus : Nat} : Runqlat.Ev cpus → Op UInt64 Unit
  | .wakeup _ _ pid => .start (keyOf pid) ()
  | .switch _ _ nextPid => .stop (keyOf nextPid)

def Runqlat.implements (cpus cap : Nat) :
    Implements (Runqlat.code cpus) (Runqlat.probe cpus cap).toStopwatch where
  time := Ev.time
  op := Ev.op
  agent := Ev.cpu
  start := by
    intro e k v hview
    cases e with
    | wakeup cpu now pid =>
        obtain ⟨rfl, rfl⟩ : keyOf pid = k ∧ now = v := by simpa [Ev.view] using hview
        exact ⟨(), rfl, rfl⟩
    | switch cpu now nextPid => simp [Ev.view] at hview
  stop := by
    intro e k hview
    cases e with
    | wakeup cpu now pid => simp [Ev.view] at hview
    | switch cpu now nextPid =>
        obtain rfl : keyOf nextPid = k := by simpa [Ev.view] using hview
        rfl
  cellOf _ _ := rfl
  startCode := rfl
  stopCode := .inr (.inr rfl)

def Iolat.Ev.op : Iolat.Ev → Op UInt64 (UInt64 × Iolat.Comm)
  | .issue rq _ pidTgid comm => .start rq (pidTgid, comm)
  | .complete rq _ _ _ => .stop rq

def Iolat.implements (cap : Nat) :
    Implements (Iolat.code (Fin 1)) (Iolat.probe cap).toStopwatch where
  time := Ev.time
  op := Ev.op
  agent _ := soleCopy
  start := by
    intro e k v hview
    cases e with
    | issue rq ts pidTgid comm =>
        obtain ⟨rfl, rfl⟩ : rq = k ∧ (⟨ts, pidTgid, comm⟩ : IolatStart) = v := by
          simpa [Ev.view] using hview
        exact ⟨(pidTgid, comm), rfl, rfl⟩
    | complete rq now error nrBytes => simp [Ev.view] at hview
  stop := by
    intro e k hview
    cases e with
    | issue rq ts pidTgid comm => simp [Ev.view] at hview
    | complete rq now error nrBytes =>
        obtain rfl : rq = k := by simpa [Ev.view] using hview
        rfl
  cellOf _ _ := rfl
  startCode := rfl
  stopCode := .inr (.inl rfl)

/-- The accesses of the handlers of `es`, one handler after the other, leave the
maps that the probes leave. -/
def OneByOne {V Payload C : Type} {copies slots cap : Nat} [DecidableEq C]
    {P : Probe V copies slots cap} {T : Code UInt64 V Payload (Fin copies × Fin slots) C}
    (I : Implements T P.toStopwatch) (es : List P.Ev) : Prop :=
  let s := (system T cap).exec (Handlers.rest ..) (I.oneByOne es)
  (∀ c, s.pc c = none) ∧ s.table = P.table (P.run es) ∧ s.cell = P.cell (P.run es)

/-! ## Overlapping -/

variable {V Payload C : Type} {copies slots cap : Nat}

/-- The histogram of a tool, summed over its copies. -/
def histOf (s : System UInt64 V Payload (Fin copies × Fin slots) C cap) (b : Fin slots) : UInt64 :=
  wordSum (List.ofFn fun copy => s.cell (copy, b))

/-- The true length of a sample, in nanoseconds. -/
def trueLength (x : Sample UInt64 C) : Nat := x.now.toNat - x.startedAt.toNat

/-- Every sample measures a start, and the histogram counts every sample in the
bucket `slotOf` of its true length. -/
structure Measured (slotOf : Nat → Nat)
    (s : System UInt64 V Payload (Fin copies × Fin slots) C cap) : Prop where
  samples : ∀ x ∈ s.samples, ∃ w ∈ s.written, x.Measures w ∧ x.Bracketed w
  hist : ∀ b, histOf s b =
    UInt64.ofNat (s.samples.countP fun x => decide (slotOf (trueLength x) = b.val))

/-- Counting by copies is counting. -/
theorem sum_countP_eq {A : Type} {n : Nat} (g : A → Fin n) (p : A → Prop) [DecidablePred p]
    (l : List A) :
    ∑ c, l.countP (fun x => decide (g x = c ∧ p x)) = l.countP fun x => decide (p x) := by
  induction l with
  | nil => simp
  | cons x l ih =>
      simp only [List.countP_cons, Finset.sum_add_distrib, ih]
      congr 1
      by_cases hp : p x
      · simp [hp]
      · simp [hp]

section Samples

variable [DecidableEq C] {P : Probe V copies slots cap}
  {T : Code UInt64 V Payload (Fin copies × Fin slots) C} {copyOf : C → Fin copies}
  {slotOf : Nat → Nat} {as : List (Act UInt64 Payload C)}

omit [DecidableEq C] in
/-- A sample is counted in the bucket of its true length. -/
theorem cellOf_sample_iff (hcell : ∀ c d, T.cellOf c d = (copyOf c, P.slot d))
    (hslot : ∀ d : UInt64, (P.slot d).val = slotOf d.toNat) {x : Sample UInt64 C}
    {w : Written UInt64} (h : x.Measures w) (c : Fin copies) (b : Fin slots) :
    T.cellOf x.agent x.delta = (c, b) ↔
      copyOf x.agent = c ∧ slotOf (trueLength x) = b.val := by
  have hlength : x.delta.toNat = trueLength x := by
    rw [h.bracketed.delta, h.startedAt]
    rfl
  rw [hcell, Prod.mk.injEq, Fin.ext_iff (a := P.slot _), hslot, hlength]

theorem countP_cellOf (hcell : ∀ c d, T.cellOf c d = (copyOf c, P.slot d))
    (hslot : ∀ d : UInt64, (P.slot d).val = slotOf d.toNat) (hprivate : T.Private)
    (hlegal : (system T cap).Legal (Handlers.rest ..) as) (c : Fin copies) (b : Fin slots) :
    (((system T cap).exec (Handlers.rest ..) as).samples.countP fun x =>
        decide (T.cellOf x.agent x.delta = (c, b))) =
      ((system T cap).exec (Handlers.rest ..) as).samples.countP fun x =>
        decide (copyOf x.agent = c ∧ slotOf (trueLength x) = b.val) := by
  apply List.countP_congr
  intro x hx
  obtain ⟨w, -, hmeasures⟩ := (inv_of_legal hprivate hlegal).samples x hx
  rw [decide_eq_true_eq, decide_eq_true_eq, cellOf_sample_iff hcell hslot hmeasures]

theorem measured (hcell : ∀ c d, T.cellOf c d = (copyOf c, P.slot d))
    (hslot : ∀ d : UInt64, (P.slot d).val = slotOf d.toNat) (hprivate : T.Private)
    (hlegal : (system T cap).Legal (Handlers.rest ..) as) :
    Measured slotOf ((system T cap).exec (Handlers.rest ..) as) where
  samples := by
    intro x hx
    obtain ⟨w, hw, hmeasures⟩ := (inv_of_legal hprivate hlegal).samples x hx
    exact ⟨w, hw, hmeasures, hmeasures.bracketed⟩
  hist := by
    intro b
    simp only [histOf, (inv_of_legal hprivate hlegal).cell,
      countP_cellOf hcell hslot hprivate hlegal]
    rw [wordSum_ofFn, sum_countP_eq]

end Samples

/-- For each tool, whose handlers do to the maps, when they run one after the
other, what the probe does: under any interleaving of their accesses with a
clock that goes on, every sample is bracketed by the times of its two handlers,
and at every moment the histogram counts the samples by their true lengths. -/
theorem overlapping_samples_are_bracketed (cap : Nat) :
    ((∀ es, OneByOne (P := Memlat.probe cap) (Memlat.implements cap) es) ∧
      ∀ (C : Type) [DecidableEq C] (as : List (Act UInt64 Unit C)),
        (system (Memlat.code C) cap).Legal (Handlers.rest ..) as →
        Measured Memlat.slotOf ((system (Memlat.code C) cap).exec (Handlers.rest ..) as)) ∧
    (∀ cpus : Nat,
      (∀ es, OneByOne (P := Runqlat.probe cpus cap) (Runqlat.implements cpus cap) es) ∧
      ∀ as : List (Act UInt64 Unit (Fin cpus)),
        (system (Runqlat.code cpus) cap).Legal (Handlers.rest ..) as →
        Measured Runqlat.slotOf ((system (Runqlat.code cpus) cap).exec (Handlers.rest ..) as)) ∧
    ((∀ es, OneByOne (P := Iolat.probe cap) (Iolat.implements cap) es) ∧
      ∀ (C : Type) [DecidableEq C] (as : List (Act UInt64 (UInt64 × Iolat.Comm) C)),
        (system (Iolat.code C) cap).Legal (Handlers.rest ..) as →
        Measured Iolat.slotOf ((system (Iolat.code C) cap).exec (Handlers.rest ..) as)) := by
  refine ⟨⟨(Memlat.implements cap).exec_oneByOne, ?_⟩,
    fun cpus => ⟨(Runqlat.implements cpus cap).exec_oneByOne, ?_⟩,
    ⟨(Iolat.implements cap).exec_oneByOne, ?_⟩⟩
  · intro C _ as hlegal
    exact measured (P := Memlat.probe cap) (fun _ _ => rfl) Memlat.val_slot
      (Memlat.private_code C) hlegal
  · intro as hlegal
    exact measured (P := Runqlat.probe cpus cap) (fun _ _ => rfl) Runqlat.val_slot
      (Runqlat.private_code cpus) hlegal
  · intro C _ as hlegal
    exact measured (P := Iolat.probe cap) (fun _ _ => rfl) Iolat.val_slot
      (Iolat.private_code C) hlegal

/-- Thread 7 is held up between reading the clock and storing the reading; its
stop is still in progress when thread 8 starts. -/
def heldUp {Payload C : Type} (p : Payload) (c c' : C) : List (Act UInt64 Payload C) :=
  [.tick 100, .enter c (.start 7 p), .step c, .tick 5000, .step c, .step c,
    .tick 9000, .enter c' (.stop 7), .step c', .step c', .tick 12000, .enter c (.start 8 p),
    .step c', .step c, .step c', .step c']

theorem overlapping_samples_are_bracketed_heldUp :
    Measured Memlat.slotOf
      ((system (Memlat.code (Fin 2)) 16).exec (Handlers.rest ..) (heldUp () 0 1)) ∧
    Measured Runqlat.slotOf
      ((system (Runqlat.code 2) 16).exec (Handlers.rest ..) (heldUp () 0 1)) ∧
    Measured Iolat.slotOf
      ((system (Iolat.code (Fin 2)) 16).exec (Handlers.rest ..) (heldUp (1, default) 0 1)) :=
  ⟨(overlapping_samples_are_bracketed 16).1.2 (Fin 2) (heldUp () 0 1) (by decide),
    ((overlapping_samples_are_bracketed 16).2.1 2).2 (heldUp () 0 1) (by decide),
    (overlapping_samples_are_bracketed 16).2.2.2 (Fin 2) (heldUp (1, default) 0 1) (by decide)⟩

end EbpfToy
