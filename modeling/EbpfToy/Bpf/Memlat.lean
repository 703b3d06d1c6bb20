import EbpfToy.Bpf.Probe
import EbpfToy.Lib.Word

/-!
# memlat, kernel side

`bpf/memlat.bpf.c`: a kprobe and a kretprobe on `handle_mm_fault`, keyed by
`pid_tgid`, with a histogram of 64 buckets of microseconds.
-/

namespace EbpfToy.Memlat

open Lib

def maxSlots : Nat := 64

/-- `max_entries` of `start_ts`. -/
def maxEntries : Nat := 8192

/-- The two maps. -/
structure Maps (cap : Nat) where
  startTs : HashMap UInt64 cap
  hist : ArrayMap maxSlots

/-- The loop `while (v >>= 1) { b++; if (b >= (MAX_SLOTS - 1)) break; }`. -/
def log2Loop (v : UInt64) (b : UInt32) : UInt32 :=
  -- the condition shifts `v` before it is tested
  if v >>> 1 = 0 then b
  -- the `break`, at `MAX_SLOTS - 1`
  else if b + 1 ≥ 63 then b + 1
  else log2Loop (v >>> 1) (b + 1)
termination_by v.toNat
decreasing_by
  have hv : v.toNat ≠ 0 := by
    intro h0
    obtain rfl : v = 0 := UInt64.toNat_inj.mp h0
    contradiction
  rw [UInt64.toNat_shiftRight, Nat.shiftRight_eq_div_pow]
  exact Nat.div_lt_self (Nat.pos_of_ne_zero hv) (by decide)

def log2BucketU64 (v : UInt64) : UInt32 := log2Loop v 0

/-- From `delta_ns` to the bucket: convert to us, avoid zero, take the log. -/
def bucketOfDelta (deltaNs : UInt64) : UInt32 :=
  let deltaUs := deltaNs / 1000
  let deltaUs := if deltaUs = 0 then 1 else deltaUs
  log2BucketU64 deltaUs

/-- Entry of `handle_mm_fault`. -/
def memlatEntry {cap : Nat} (pidTgid ts : UInt64) (m : Maps cap) : Maps cap :=
  let key := pidTgid
  { m with startTs := m.startTs.update key ts }

/-- Exit of `handle_mm_fault`. -/
def memlatExit {cap : Nat} (pidTgid now : UInt64) (m : Maps cap) : Maps cap :=
  let key := pidTgid
  match m.startTs.lookup key with
  | none => m
  | some tsp =>
    let deltaNs := now - tsp
    -- unlike in the other tools, the entry goes before the histogram is touched
    let startTs := m.startTs.delete key
    let b := bucketOfDelta deltaNs
    { startTs := startTs, hist := m.hist.bump b }

/-- One firing of a probe: the thread it runs on and the clock it reads. -/
inductive Ev where
  | entry (pidTgid ts : UInt64)
  | exit (pidTgid now : UInt64)
  deriving DecidableEq

def handle {cap : Nat} (m : Maps cap) : Ev → Maps cap
  | .entry pidTgid ts => memlatEntry pidTgid ts m
  | .exit pidTgid now => memlatExit pidTgid now m

def empty {cap : Nat} : Maps cap := ⟨.empty, .zero⟩

/-! ## The bucket is the floor logarithm -/

/-- The loop adds `log v` to `b`, as long as the sum stays within 63, where
the `break` fires. -/
theorem toNat_log2Loop (v : UInt64) (b : UInt32) (hb : b.toNat + Nat.log 2 v.toNat ≤ 63) :
    (log2Loop v b).toNat = b.toNat + Nat.log 2 v.toNat := by
  induction v, b using log2Loop.induct with
  | case1 v b hv =>
      -- the shift gave zero, so `v < 2` and its logarithm is zero
      have hlt : v.toNat < 2 := by
        have hdiv : v.toNat / 2 = 0 := by rw [← toNat_shiftRight_one, hv]; rfl
        omega
      rw [log2Loop, if_pos hv, Nat.log_of_lt hlt, Nat.add_zero]
  | case2 v b hv hge =>
      have hlog := log_toNat_shiftRight_one (two_le_of_shiftRight_ne_zero hv)
      have hb1 : (b + 1).toNat = b.toNat + 1 := toNat_add_one (by omega)
      have h63 : 63 ≤ (b + 1).toNat := UInt32.le_iff_toNat_le.mp hge
      rw [log2Loop, if_neg hv, if_pos hge]
      omega
  | case3 v b hv hlt ih =>
      have hlog := log_toNat_shiftRight_one (two_le_of_shiftRight_ne_zero hv)
      have hb1 : (b + 1).toNat = b.toNat + 1 := toNat_add_one (by omega)
      have h63 : (b + 1).toNat < 63 := by
        rw [ge_iff_le, UInt32.le_iff_toNat_le] at hlt
        exact Nat.lt_of_not_le hlt
      rw [log2Loop, if_neg hv, if_neg hlt, ih (by omega)]
      omega

theorem toNat_log2BucketU64 (v : UInt64) : (log2BucketU64 v).toNat = Nat.log 2 v.toNat := by
  have hlt := log_toNat_lt v
  rw [log2BucketU64, toNat_log2Loop v 0 (by rw [UInt32.toNat_zero]; omega), UInt32.toNat_zero,
    Nat.zero_add]

theorem toNat_bucketOfDelta (d : UInt64) :
    (bucketOfDelta d).toNat = Nat.log 2 (clampedUs d.toNat) := by
  have hdiv : (d / 1000).toNat = d.toNat / 1000 := UInt64.toNat_div d 1000
  unfold bucketOfDelta clampedUs
  by_cases h : d / 1000 = 0
  · have hzero : d.toNat / 1000 = 0 := by rw [← hdiv, h]; rfl
    simp only [h, if_true, toNat_log2BucketU64, hzero]
    rfl
  · have hpos : 1 ≤ d.toNat / 1000 := by
      rw [← hdiv]
      exact Nat.one_le_iff_ne_zero.mpr fun h0 => h (UInt64.toNat_inj.mp h0)
    simp only [h, if_false, toNat_log2BucketU64, hdiv, max_eq_right hpos]

theorem bucketOfDelta_lt (d : UInt64) : (bucketOfDelta d).toNat < maxSlots := by
  rw [toNat_bucketOfDelta]
  -- the division by 1000 keeps the logarithm well below 64
  apply Nat.log_lt_of_lt_pow' (by decide)
  have hd := d.toNat_lt
  unfold clampedUs maxSlots
  omega

/-! ## The probe -/

/-- The bucket as an index of `hist`. -/
def slot (deltaNs : UInt64) : Fin maxSlots :=
  ⟨(bucketOfDelta deltaNs).toNat, bucketOfDelta_lt deltaNs⟩

def Ev.time : Ev → UInt64
  | .entry _ ts => ts
  | .exit _ now => now

def Ev.view : Ev → Event UInt64 UInt64
  | .entry pidTgid ts => .start pidTgid ts
  | .exit pidTgid _ => .stop pidTgid

theorem memlatExit_of_none {cap : Nat} {m : Maps cap} {k : UInt64} (h : m.startTs.lookup k = none)
    (now : UInt64) : memlatExit k now m = m := by
  simp [memlatExit, h]

theorem memlatExit_of_some {cap : Nat} {m : Maps cap} {k tsp : UInt64}
    (h : m.startTs.lookup k = some tsp) (now : UInt64) :
    memlatExit k now m =
      { startTs := m.startTs.delete k, hist := m.hist.bump (bucketOfDelta (now - tsp)) } := by
  simp [memlatExit, h]

theorem lookup_memlatEntry_of_ne {cap : Nat} {k pidTgid : UInt64} (h : k ≠ pidTgid) (ts : UInt64)
    (m : Maps cap) : (memlatEntry pidTgid ts m).startTs.lookup k = m.startTs.lookup k :=
  BoundedMap.lookup_update_of_ne _ h ts

/-- After a return its thread has no start. -/
theorem lookup_memlatExit_self {cap : Nat} (pidTgid now : UInt64) (m : Maps cap) :
    (memlatExit pidTgid now m).startTs.lookup pidTgid = none := by
  cases hl : m.startTs.lookup pidTgid with
  | none => rw [memlatExit_of_none hl, hl]
  | some tsp => rw [memlatExit_of_some hl, BoundedMap.lookup_delete_self]

theorem lookup_memlatExit_of_ne {cap : Nat} {k pidTgid : UInt64} (h : k ≠ pidTgid) (now : UInt64)
    (m : Maps cap) : (memlatExit pidTgid now m).startTs.lookup k = m.startTs.lookup k := by
  cases hl : m.startTs.lookup pidTgid with
  | none => rw [memlatExit_of_none hl]
  | some tsp => rw [memlatExit_of_some hl, BoundedMap.lookup_delete_of_ne _ h]

/-- The exit handler changes `hist` exactly when it finds a start. -/
theorem memlatExit_hist_ne_iff {cap : Nat} {m : Maps cap} {pidTgid : UInt64} (now : UInt64) :
    (memlatExit pidTgid now m).hist ≠ m.hist ↔ ∃ tsp, m.startTs.lookup pidTgid = some tsp := by
  cases hl : m.startTs.lookup pidTgid with
  | none => simp [memlatExit_of_none hl]
  | some tsp =>
      rw [memlatExit_of_some hl]
      exact iff_of_true (ArrayMap.bump_ne _ (bucketOfDelta_lt _)) ⟨tsp, rfl⟩

/-- memlat as a latency probe. -/
@[reducible] def probe (cap : Nat) : Probe UInt64 1 maxSlots cap where
  Ev := Ev
  St := Maps cap
  init := empty
  step := handle
  view := Ev.view
  cellOf e tsp := (soleCopy, slot (e.time - tsp))
  table := Maps.startTs
  cell m b := m.hist.value b.2
  table_init := rfl
  cell_init _ := rfl
  step_start := by
    intro m e k v hview
    cases e with
    | entry pidTgid ts =>
        obtain ⟨rfl, rfl⟩ : pidTgid = k ∧ ts = v := by simpa [Ev.view] using hview
        exact ⟨rfl, rfl⟩
    | exit pidTgid now => simp [Ev.view] at hview
  step_stop_none := by
    intro m e k hview hl
    cases e with
    | entry pidTgid ts => simp [Ev.view] at hview
    | exit pidTgid now =>
        obtain rfl : pidTgid = k := by simpa [Ev.view] using hview
        exact memlatExit_of_none hl now
  step_stop_some := by
    intro m e k v hview hl
    cases e with
    | entry pidTgid ts => simp [Ev.view] at hview
    | exit pidTgid now =>
        obtain rfl : pidTgid = k := by simpa [Ev.view] using hview
        have hexit : handle m (.exit pidTgid now) = _ := memlatExit_of_some hl now
        rw [hexit]
        refine ⟨rfl, fun ⟨c, b⟩ => ?_⟩
        obtain rfl := Subsingleton.elim c soleCopy
        rw [ArrayMap.value_bump _ (bucketOfDelta_lt _)]
        simp [slot, Ev.time]
  time := Ev.time
  tsOf v := v
  copyOf _ := soleCopy
  slot := slot
  time_start := by
    intro e k v hview
    cases e with
    | entry pidTgid ts =>
        obtain ⟨-, rfl⟩ : pidTgid = k ∧ ts = v := by simpa [Ev.view] using hview
        rfl
    | exit pidTgid now => simp [Ev.view] at hview
  cellOf_eq _ _ := rfl

/-- The one copy of `hist` is the whole histogram. -/
theorem hist_value {cap : Nat} (m : Maps cap) : m.hist.value = (probe cap).hist m :=
  funext fun b => ((probe cap).hist_of_one_copy m b).symm

end EbpfToy.Memlat
