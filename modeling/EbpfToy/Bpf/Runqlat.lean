import EbpfToy.Bpf.Probe
import EbpfToy.Lib.Word
import Mathlib.Data.List.Range

/-!
# runqlat, kernel side

`bpf/runqlat.bpf.c`: the tracepoints `sched_wakeup` and `sched_switch`, keyed
by the thread id, with one histogram of 64 buckets for each CPU.
-/

namespace EbpfToy.Runqlat

open Lib

def maxSlots : Nat := 64

/-- `max_entries` of `start_ts`. -/
def maxEntries : Nat := 131072

/-- The two maps; `hist` is a per-CPU array. -/
structure Maps (cpus cap : Nat) where
  startTs : HashMap UInt64 cap
  hist : Fin cpus → ArrayMap maxSlots

/-- The unrolled loop: `for i < 63, if (v >> (i + 1)) b = i + 1`. -/
def log2Loop (v : UInt64) (rounds : Nat) : UInt32 :=
  (List.range rounds).foldl
    (fun b i => if v >>> UInt64.ofNat (i + 1) ≠ 0 then UInt32.ofNat (i + 1) else b) 0

def log2BucketU64 (v : UInt64) : UInt32 :=
  if v = 0 then 0
  else
    let b := log2Loop v 63
    -- never taken: the loop ends at 63 (`toNat_log2BucketU64`)
    if b ≥ 64 then 63 else b

/-- A thread id as a key: `(__u64)tid`. -/
def keyOf (tid : UInt32) : UInt64 := tid.toUInt64

/-- `tracepoint/sched/sched_wakeup`; `pid` is `ctx->pid`. -/
def runqlatWakeup {cpus cap : Nat} (now : UInt64) (pid : UInt32) (m : Maps cpus cap) :
    Maps cpus cap :=
  let key := keyOf pid
  { m with startTs := m.startTs.update key now }

/-- `tracepoint/sched/sched_switch` on `cpu`; `nextPid` is `ctx->next_pid`.
The delta is bucketed in nanoseconds, with no conversion. -/
def runqlatSwitch {cpus cap : Nat} (cpu : Fin cpus) (now : UInt64) (nextPid : UInt32)
    (m : Maps cpus cap) : Maps cpus cap :=
  let key := keyOf nextPid
  match m.startTs.lookup key with
  -- no wakeup of this thread was recorded; `prev_pid` is not looked at
  | none => m
  | some tsp =>
    let deltaNs := now - tsp
    let b := log2BucketU64 deltaNs
    { hist := Function.update m.hist cpu ((m.hist cpu).bump b),
      startTs := m.startTs.delete key }

/-- One firing of a probe: the CPU it runs on, the clock it reads and the
thread id in its context. -/
inductive Ev (cpus : Nat) where
  | wakeup (cpu : Fin cpus) (now : UInt64) (pid : UInt32)
  | switch (cpu : Fin cpus) (now : UInt64) (nextPid : UInt32)
  deriving DecidableEq

def handle {cpus cap : Nat} (m : Maps cpus cap) : Ev cpus → Maps cpus cap
  | .wakeup _ now pid => runqlatWakeup now pid m
  | .switch cpu now nextPid => runqlatSwitch cpu now nextPid m

def empty {cpus cap : Nat} : Maps cpus cap := ⟨.empty, fun _ => .zero⟩

/-- What a lookup in the per-CPU array copies to user space: every CPU's value
of the bucket. -/
def Maps.perCPU {cpus cap : Nat} (m : Maps cpus cap) (b : Fin maxSlots) : List UInt64 :=
  List.ofFn fun cpu => (m.hist cpu).value b

/-! ## The bucket is the floor logarithm -/

/-- After `rounds` rounds the loop holds the largest `i ≤ rounds` with
`2^i ≤ v`. -/
theorem toNat_log2Loop {v : UInt64} (hv : v ≠ 0) {rounds : Nat} (hr : rounds ≤ 63) :
    (log2Loop v rounds).toNat = min (Nat.log 2 v.toNat) rounds := by
  have hpos : v.toNat ≠ 0 := fun h => hv (UInt64.toNat_inj.mp h)
  -- a later round only overwrites with a larger index, so the last test to
  -- succeed is the logarithm
  induction rounds with
  | zero => simp [log2Loop]
  | succ n ih =>
      have hstep : log2Loop v (n + 1) =
          if v >>> UInt64.ofNat (n + 1) ≠ 0 then UInt32.ofNat (n + 1) else log2Loop v n := by
        rw [log2Loop, List.range_succ, List.foldl_append]
        rfl
      have hshift : v >>> UInt64.ofNat (n + 1) ≠ 0 ↔ n + 1 ≤ Nat.log 2 v.toNat := by
        rw [shiftRight_ne_zero_iff v (by omega), Nat.le_log_iff_pow_le Nat.one_lt_two hpos]
      rw [hstep]
      by_cases hle : n + 1 ≤ Nat.log 2 v.toNat
      · rw [if_pos (hshift.mpr hle), UInt32.toNat_ofNat']
        omega
      · rw [if_neg fun h => hle (hshift.mp h), ih (by omega)]
        omega

theorem toNat_log2BucketU64 (v : UInt64) : (log2BucketU64 v).toNat = Nat.log 2 v.toNat := by
  have hlt := log_toNat_lt v
  unfold log2BucketU64
  by_cases hv : v = 0
  · rw [if_pos hv, hv]
    rfl
  · have hloop := toNat_log2Loop hv (Nat.le_refl 63)
    have hsmall : ¬ log2Loop v 63 ≥ 64 := by
      rw [ge_iff_le, UInt32.le_iff_toNat_le, hloop]
      show ¬ 64 ≤ _
      omega
    rw [if_neg hv]
    simp only [hsmall, if_false]
    omega

theorem log2BucketU64_lt (v : UInt64) : (log2BucketU64 v).toNat < maxSlots := by
  rw [toNat_log2BucketU64]
  exact log_toNat_lt v

/-! ## The probe -/

/-- The bucket as an index of `hist`. -/
def slot (deltaNs : UInt64) : Fin maxSlots :=
  ⟨(log2BucketU64 deltaNs).toNat, log2BucketU64_lt deltaNs⟩

def Ev.time {cpus : Nat} : Ev cpus → UInt64
  | .wakeup _ now _ => now
  | .switch _ now _ => now

def Ev.cpu {cpus : Nat} : Ev cpus → Fin cpus
  | .wakeup cpu _ _ => cpu
  | .switch cpu _ _ => cpu

def Ev.tid {cpus : Nat} : Ev cpus → UInt32
  | .wakeup _ _ pid => pid
  | .switch _ _ nextPid => nextPid

def Ev.view {cpus : Nat} : Ev cpus → Event UInt64 UInt64
  | .wakeup _ now pid => .start (keyOf pid) now
  | .switch _ _ nextPid => .stop (keyOf nextPid)

theorem keyOf_injective : Function.Injective keyOf := by
  intro a b h
  have hnat : (keyOf a).toNat = (keyOf b).toNat := by rw [h]
  rwa [keyOf, keyOf, UInt32.toNat_toUInt64, UInt32.toNat_toUInt64, UInt32.toNat_inj] at hnat

theorem runqlatSwitch_of_none {cpus cap : Nat} {m : Maps cpus cap} {tid : UInt32}
    (h : m.startTs.lookup (keyOf tid) = none) (cpu : Fin cpus) (now : UInt64) :
    runqlatSwitch cpu now tid m = m := by
  simp [runqlatSwitch, h]

theorem runqlatSwitch_of_some {cpus cap : Nat} {m : Maps cpus cap} {tid : UInt32} {tsp : UInt64}
    (h : m.startTs.lookup (keyOf tid) = some tsp) (cpu : Fin cpus) (now : UInt64) :
    runqlatSwitch cpu now tid m =
      { hist := Function.update m.hist cpu ((m.hist cpu).bump (log2BucketU64 (now - tsp))),
        startTs := m.startTs.delete (keyOf tid) } := by
  simp [runqlatSwitch, h]

/-- The switch handler changes `hist` exactly when it finds a start. -/
theorem runqlatSwitch_hist_ne_iff {cpus cap : Nat} {m : Maps cpus cap} {tid : UInt32}
    (cpu : Fin cpus) (now : UInt64) :
    (runqlatSwitch cpu now tid m).hist ≠ m.hist ↔
      ∃ tsp, m.startTs.lookup (keyOf tid) = some tsp := by
  cases hl : m.startTs.lookup (keyOf tid) with
  | none => simp [runqlatSwitch_of_none hl]
  | some tsp =>
      refine iff_of_true (fun heq => ?_) ⟨tsp, rfl⟩
      have hcpu := congrFun heq cpu
      rw [runqlatSwitch_of_some hl] at hcpu
      exact ArrayMap.bump_ne _ (log2BucketU64_lt _) (by simpa using hcpu)

/-- The switch handler stores no start. -/
theorem lookup_of_runqlatSwitch {cpus cap : Nat} {m : Maps cpus cap} {cpu : Fin cpus}
    {now : UInt64} {tid : UInt32} {k ts : UInt64}
    (h : (runqlatSwitch cpu now tid m).startTs.lookup k = some ts) :
    m.startTs.lookup k = some ts := by
  cases hl : m.startTs.lookup (keyOf tid) with
  | none => rwa [runqlatSwitch_of_none hl] at h
  | some tsp =>
      rw [runqlatSwitch_of_some hl] at h
      by_cases hk : k = keyOf tid
      · rw [hk, BoundedMap.lookup_delete_self] at h
        contradiction
      · rwa [BoundedMap.lookup_delete_of_ne _ hk] at h

/-- A handler writes the histogram of its own CPU only. -/
theorem hist_handle_of_ne {cpus cap : Nat} {cpu : Fin cpus} {e : Ev cpus} (h : cpu ≠ e.cpu)
    (m : Maps cpus cap) : (handle m e).hist cpu = m.hist cpu := by
  cases e with
  | wakeup c now tid => rfl
  | switch c now tid =>
      show (runqlatSwitch c now tid m).hist cpu = m.hist cpu
      cases hl : m.startTs.lookup (keyOf tid) with
      | none => rw [runqlatSwitch_of_none hl]
      | some tsp =>
          rw [runqlatSwitch_of_some hl]
          exact Function.update_of_ne h _ _

/-- A handler touches the start of its own thread only. -/
theorem lookup_handle_of_ne {cpus cap : Nat} {tid : UInt32} {e : Ev cpus} (h : tid ≠ e.tid)
    (m : Maps cpus cap) :
    (handle m e).startTs.lookup (keyOf tid) = m.startTs.lookup (keyOf tid) := by
  have hkey : keyOf tid ≠ keyOf e.tid := fun heq => h (keyOf_injective heq)
  cases e with
  | wakeup c now tid' => exact BoundedMap.lookup_update_of_ne _ hkey now
  | switch c now tid' =>
      show (runqlatSwitch c now tid' m).startTs.lookup (keyOf tid) = _
      cases hl : m.startTs.lookup (keyOf tid') with
      | none => rw [runqlatSwitch_of_none hl]
      | some tsp =>
          rw [runqlatSwitch_of_some hl]
          exact BoundedMap.lookup_delete_of_ne _ hkey

/-- runqlat as a latency probe. -/
@[reducible] def probe (cpus cap : Nat) : Probe UInt64 cpus maxSlots cap where
  Ev := Ev cpus
  St := Maps cpus cap
  init := empty
  step := handle
  view := Ev.view
  cellOf e tsp := (e.cpu, slot (e.time - tsp))
  table := Maps.startTs
  cell m b := (m.hist b.1).value b.2
  table_init := rfl
  cell_init _ := rfl
  step_start := by
    intro m e k v hview
    cases e with
    | wakeup cpu now pid =>
        obtain ⟨rfl, rfl⟩ : keyOf pid = k ∧ now = v := by simpa [Ev.view] using hview
        exact ⟨rfl, rfl⟩
    | switch cpu now nextPid => simp [Ev.view] at hview
  step_stop_none := by
    intro m e k hview hl
    cases e with
    | wakeup cpu now pid => simp [Ev.view] at hview
    | switch cpu now nextPid =>
        obtain rfl : keyOf nextPid = k := by simpa [Ev.view] using hview
        exact runqlatSwitch_of_none hl cpu now
  step_stop_some := by
    intro m e k v hview hl
    cases e with
    | wakeup cpu now pid => simp [Ev.view] at hview
    | switch cpu now nextPid =>
        obtain rfl : keyOf nextPid = k := by simpa [Ev.view] using hview
        have hswitch : handle m (.switch cpu now nextPid) = _ := runqlatSwitch_of_some hl cpu now
        rw [hswitch]
        refine ⟨rfl, fun ⟨c, b⟩ => ?_⟩
        show (Function.update m.hist cpu ((m.hist cpu).bump (log2BucketU64 (now - v))) c).value b =
          if (cpu, slot (now - v)) = (c, b) then (m.hist c).value b + 1 else (m.hist c).value b
        by_cases hc : c = cpu
        · subst hc
          rw [Function.update_self, ArrayMap.value_bump _ (log2BucketU64_lt _)]
          simp [slot]
        · rw [Function.update_of_ne hc]
          simp [Ne.symm hc]
  time := Ev.time
  tsOf v := v
  copyOf := Ev.cpu
  slot := slot
  time_start := by
    intro e k v hview
    cases e with
    | wakeup cpu now pid =>
        obtain ⟨-, rfl⟩ : keyOf pid = k ∧ now = v := by simpa [Ev.view] using hview
        rfl
    | switch cpu now nextPid => simp [Ev.view] at hview
  cellOf_eq _ _ := rfl

/-- Adding up the CPUs' values of each bucket gives the histogram. -/
theorem wordSum_perCPU {cpus cap : Nat} (m : Maps cpus cap) :
    (fun b => wordSum (m.perCPU b)) = (probe cpus cap).hist m :=
  rfl

end EbpfToy.Runqlat
