import EbpfToy.Bpf.Probe
import EbpfToy.Lib.Word

/-!
# iolat, kernel side

`bpf/iolat.bpf.c`: the tracepoints `block_rq_issue` and `block_rq_complete`,
keyed by the request pointer, with a histogram of 26 buckets of microseconds.
-/

namespace EbpfToy.Iolat

open Lib

def maxSlots : Nat := 26

/-- `max_entries` of `start_ts`. -/
def maxEntries : Nat := 131072

/-- `char comm[16]`. -/
abbrev Comm := Vector UInt8 16

/-- `struct iolat_start`. -/
structure IolatStart where
  ts : UInt64
  pidTgid : UInt64
  comm : Comm
  deriving DecidableEq

/-- The two maps. -/
structure Maps (cap : Nat) where
  startTs : HashMap IolatStart cap
  hist : ArrayMap maxSlots

/-- The unrolled loop: while rounds are left and `v > 1`, halve and count. -/
def log2Loop : Nat → UInt64 → UInt32 → UInt32
  | 0, _, b => b
  | rounds + 1, v, b => if v > 1 then log2Loop rounds (v >>> 1) (b + 1) else b

def log2Bucket (v : UInt64) : UInt32 :=
  if v = 0 then 0
  else
    let b := log2Loop 63 v 0
    -- everything past the last bucket is counted in it
    if b ≥ 26 then 25 else b

/-- From `delta_ns` to the bucket. -/
def bucketOfDelta (deltaNs : UInt64) : UInt32 :=
  let deltaUs := deltaNs / 1000
  log2Bucket deltaUs

/-- `tp_btf/block_rq_issue`: the request, the clock, and what
`bpf_get_current_pid_tgid` and `bpf_get_current_comm` return. -/
def iolatIssue {cap : Nat} (rq ts pidTgid : UInt64) (comm : Comm) (m : Maps cap) : Maps cap :=
  let rqId := rq
  let info : IolatStart := { ts := ts, pidTgid := pidTgid, comm := comm }
  { m with startTs := m.startTs.update rqId info }

/-- `tp_btf/block_rq_complete`. The status and the number of bytes completed
are arguments of the tracepoint; the handler reads neither. -/
def iolatComplete {cap : Nat} (rq now : UInt64) (_error : UInt8) (_nrBytes : UInt32)
    (m : Maps cap) : Maps cap :=
  let rqId := rq
  match m.startTs.lookup rqId with
  -- issued before tracing started, refused, or completed already
  | none => m
  | some info =>
    let deltaNs := now - info.ts
    let b := bucketOfDelta deltaNs
    { hist := m.hist.bump b, startTs := m.startTs.delete rqId }

/-- One firing of a probe. -/
inductive Ev where
  | issue (rq ts pidTgid : UInt64) (comm : Comm)
  | complete (rq now : UInt64) (error : UInt8) (nrBytes : UInt32)
  deriving DecidableEq

def handle {cap : Nat} (m : Maps cap) : Ev → Maps cap
  | .issue rq ts pidTgid comm => iolatIssue rq ts pidTgid comm m
  | .complete rq now error nrBytes => iolatComplete rq now error nrBytes m

def empty {cap : Nat} : Maps cap := ⟨.empty, .zero⟩

/-! ## The bucket is the floor logarithm, saturated at 25 -/

/-- Each round counts one halving, until `v` is at most one. -/
theorem toNat_log2Loop (rounds : Nat) (v : UInt64) (b : UInt32) (hb : b.toNat + rounds ≤ 63) :
    (log2Loop rounds v b).toNat = b.toNat + min (Nat.log 2 v.toNat) rounds := by
  induction rounds generalizing v b with
  | zero => simp [log2Loop]
  | succ n ih =>
      have hb1 : (b + 1).toNat = b.toNat + 1 := toNat_add_one (by omega)
      rw [log2Loop]
      by_cases hv : v > 1
      · have htwo : 2 ≤ v.toNat := UInt64.lt_iff_toNat_lt.mp hv
        have hlog := log_toNat_shiftRight_one htwo
        rw [if_pos hv, ih _ _ (by omega)]
        omega
      · -- the `break`: what is left of `v` is zero or one
        have hlt : v.toNat < 2 := by
          rw [gt_iff_lt, UInt64.lt_iff_toNat_lt] at hv
          exact Nat.lt_succ_of_le (Nat.le_of_not_lt hv)
        rw [if_neg hv, Nat.log_of_lt hlt, Nat.zero_min, Nat.add_zero]

theorem toNat_log2Bucket (v : UInt64) :
    (log2Bucket v).toNat = min 25 (Nat.log 2 v.toNat) := by
  have hlt := log_toNat_lt v
  unfold log2Bucket
  by_cases hv : v = 0
  · rw [if_pos hv, hv]
    rfl
  · have hloop := toNat_log2Loop 63 v 0 (by decide)
    rw [UInt32.toNat_zero, Nat.zero_add] at hloop
    rw [if_neg hv]
    by_cases hge : log2Loop 63 v 0 ≥ 26
    · have hsat : 26 ≤ (log2Loop 63 v 0).toNat := UInt32.le_iff_toNat_le.mp hge
      simp only [hge, if_true]
      show 25 = _
      omega
    · have hsat : ¬ 26 ≤ (log2Loop 63 v 0).toNat := fun h => hge (UInt32.le_iff_toNat_le.mpr h)
      simp only [hge, if_false]
      omega

theorem toNat_bucketOfDelta (d : UInt64) :
    (bucketOfDelta d).toNat = min 25 (Nat.log 2 (d.toNat / 1000)) := by
  rw [bucketOfDelta, toNat_log2Bucket, UInt64.toNat_div]
  rfl

theorem bucketOfDelta_lt (d : UInt64) : (bucketOfDelta d).toNat < maxSlots := by
  rw [toNat_bucketOfDelta]
  exact Nat.lt_of_le_of_lt (Nat.min_le_left _ _) (by decide)

/-! ## The probe -/

/-- The bucket as an index of `hist`. -/
def slot (deltaNs : UInt64) : Fin maxSlots :=
  ⟨(bucketOfDelta deltaNs).toNat, bucketOfDelta_lt deltaNs⟩

def Ev.time : Ev → UInt64
  | .issue _ ts _ _ => ts
  | .complete _ now _ _ => now

def Ev.view : Ev → Event UInt64 IolatStart
  | .issue rq ts pidTgid comm => .start rq { ts := ts, pidTgid := pidTgid, comm := comm }
  | .complete rq _ _ _ => .stop rq

theorem iolatComplete_of_none {cap : Nat} {m : Maps cap} {rq : UInt64}
    (h : m.startTs.lookup rq = none) (now : UInt64) (error : UInt8) (nrBytes : UInt32) :
    iolatComplete rq now error nrBytes m = m := by
  simp [iolatComplete, h]

theorem iolatComplete_of_some {cap : Nat} {m : Maps cap} {rq : UInt64} {info : IolatStart}
    (h : m.startTs.lookup rq = some info) (now : UInt64) (error : UInt8) (nrBytes : UInt32) :
    iolatComplete rq now error nrBytes m =
      { hist := m.hist.bump (bucketOfDelta (now - info.ts)), startTs := m.startTs.delete rq } := by
  simp [iolatComplete, h]

theorem lookup_iolatIssue_of_ne {cap : Nat} {k rq : UInt64} (h : k ≠ rq) (ts pidTgid : UInt64)
    (comm : Comm) (m : Maps cap) :
    (iolatIssue rq ts pidTgid comm m).startTs.lookup k = m.startTs.lookup k :=
  BoundedMap.lookup_update_of_ne _ h _

/-- After a completion its request has no start. -/
theorem lookup_iolatComplete_self {cap : Nat} (rq now : UInt64) (error : UInt8)
    (nrBytes : UInt32) (m : Maps cap) :
    (iolatComplete rq now error nrBytes m).startTs.lookup rq = none := by
  cases hl : m.startTs.lookup rq with
  | none => rw [iolatComplete_of_none hl, hl]
  | some info => rw [iolatComplete_of_some hl, BoundedMap.lookup_delete_self]

theorem lookup_iolatComplete_of_ne {cap : Nat} {k rq : UInt64} (h : k ≠ rq) (now : UInt64)
    (error : UInt8) (nrBytes : UInt32) (m : Maps cap) :
    (iolatComplete rq now error nrBytes m).startTs.lookup k = m.startTs.lookup k := by
  cases hl : m.startTs.lookup rq with
  | none => rw [iolatComplete_of_none hl]
  | some info => rw [iolatComplete_of_some hl, BoundedMap.lookup_delete_of_ne _ h]

/-- iolat as a latency probe. -/
@[reducible] def probe (cap : Nat) : Probe IolatStart 1 maxSlots cap where
  Ev := Ev
  St := Maps cap
  init := empty
  step := handle
  view := Ev.view
  cellOf e info := (soleCopy, slot (e.time - info.ts))
  table := Maps.startTs
  cell m b := m.hist.value b.2
  table_init := rfl
  cell_init _ := rfl
  step_start := by
    intro m e k v hview
    cases e with
    | issue rq ts pidTgid comm =>
        obtain ⟨rfl, rfl⟩ : rq = k ∧ (⟨ts, pidTgid, comm⟩ : IolatStart) = v := by
          simpa [Ev.view] using hview
        exact ⟨rfl, rfl⟩
    | complete rq now error nrBytes => simp [Ev.view] at hview
  step_stop_none := by
    intro m e k hview hl
    cases e with
    | issue rq ts pidTgid comm => simp [Ev.view] at hview
    | complete rq now error nrBytes =>
        obtain rfl : rq = k := by simpa [Ev.view] using hview
        exact iolatComplete_of_none hl now error nrBytes
  step_stop_some := by
    intro m e k v hview hl
    cases e with
    | issue rq ts pidTgid comm => simp [Ev.view] at hview
    | complete rq now error nrBytes =>
        obtain rfl : rq = k := by simpa [Ev.view] using hview
        have hcomplete : handle m (.complete rq now error nrBytes) = _ :=
          iolatComplete_of_some hl now error nrBytes
        rw [hcomplete]
        refine ⟨rfl, fun ⟨c, b⟩ => ?_⟩
        obtain rfl := Subsingleton.elim c soleCopy
        rw [ArrayMap.value_bump _ (bucketOfDelta_lt _)]
        simp [slot, Ev.time]
  time := Ev.time
  tsOf info := info.ts
  copyOf _ := soleCopy
  slot := slot
  time_start := by
    intro e k v hview
    cases e with
    | issue rq ts pidTgid comm =>
        obtain ⟨-, rfl⟩ : rq = k ∧ (⟨ts, pidTgid, comm⟩ : IolatStart) = v := by
          simpa [Ev.view] using hview
        rfl
    | complete rq now error nrBytes => simp [Ev.view] at hview
  cellOf_eq _ _ := rfl

/-- The one copy of `hist` is the whole histogram. -/
theorem hist_value {cap : Nat} (m : Maps cap) : m.hist.value = (probe cap).hist m :=
  funext fun b => ((probe cap).hist_of_one_copy m b).symm

end EbpfToy.Iolat
