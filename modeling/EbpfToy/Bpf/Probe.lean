import EbpfToy.Bpf.Maps
import EbpfToy.Lib.Stopwatch
import EbpfToy.Lib.Word

/-!
# Latency probes

What the three tools have in common on the kernel side: a stopwatch over
64-bit keys whose stored values carry a timestamp, whose stops compute a
64-bit `delta_ns = now - ts`, and whose counters are the copies of a histogram
(one copy for an array map, one per CPU for a per-CPU array map).
-/

namespace EbpfToy

open Lib

/-- A tool's pair of probes: the histogram has `copies` copies of `slots`
buckets and `start_ts` holds at most `cap` keys. -/
structure Probe (V : Type) (copies slots cap : Nat) extends
    Stopwatch UInt64 V (Fin copies × Fin slots) cap where
  /-- What `bpf_ktime_get_ns` returned to the handler of the event. -/
  time : Ev → UInt64
  /-- The timestamp in a stored value. -/
  tsOf : V → UInt64
  /-- The copy of the histogram the handler of the event writes. -/
  copyOf : Ev → Fin copies
  /-- The bucket the stop handler gives a `delta_ns`. -/
  slot : UInt64 → Fin slots
  time_start : ∀ e k v, view e = .start k v → time e = tsOf v
  cellOf_eq : ∀ e v, cellOf e v = (copyOf e, slot (time e - tsOf v))

/-- The copy of a histogram that is not per CPU. -/
def soleCopy : Fin 1 := ⟨0, Nat.one_pos⟩

/-- A latency in whole microseconds, at least one. -/
def clampedUs (deltaNs : Nat) : Nat := max 1 (deltaNs / 1000)

namespace Probe

variable {V : Type} {copies slots cap : Nat} (P : Probe V copies slots cap)

/-- The clock never goes back from one event to the next. -/
def NonDecreasing (es : List P.Ev) : Prop := es.Pairwise fun e f => P.time e ≤ P.time f

instance (es : List P.Ev) : Decidable (P.NonDecreasing es) :=
  inferInstanceAs (Decidable (List.Pairwise _ es))

/-- The true difference, in nanoseconds, between a stop and its start. -/
def trueDiff (e : P.Ev) (v : V) : Nat := (P.time e).toNat - (P.tsOf v).toNat

/-- The bucket of the true difference. -/
def trueSlot (e : P.Ev) (v : V) : Fin slots := P.slot (UInt64.ofNat (P.trueDiff e v))

/-- The histogram, summed over its copies. -/
def hist (s : P.St) (b : Fin slots) : UInt64 := wordSum (List.ofFn fun c => P.cell s (c, b))

/-- The number of matched stops whose delta falls into bucket `b`. -/
noncomputable def slotCount (es : List P.Ev) (b : Fin slots) : Nat :=
  P.matchedCount (fun e v => P.slot (P.time e - P.tsOf v) = b) es

/-- The number of matched stops that copy `c` of bucket `b` counts. -/
noncomputable def copyCount (es : List P.Ev) (c : Fin copies) (b : Fin slots) : Nat :=
  P.matchedCount (fun e v => P.copyOf e = c ∧ P.slot (P.time e - P.tsOf v) = b) es

/-- The number of matched stops whose true latency, in nanoseconds, has `Q`. -/
noncomputable def latencyCount (Q : Nat → Prop) (es : List P.Ev) : Nat :=
  P.matchedCount (fun e v => Q (P.trueDiff e v)) es

/-- Every matched stop of the run has a true latency, in nanoseconds, with `Q`. -/
def EveryLatency (Q : Nat → Prop) (es : List P.Ev) : Prop :=
  ∀ a e b v, es = a ++ e :: b → P.Matches a e v → Q (P.trueDiff e v)

/-- No bucket of the histogram reaches `2^64`. -/
def NoOverflow (es : List P.Ev) : Prop := ∀ b, P.slotCount es b < 2 ^ 64

/-- The number of samples recorded. -/
noncomputable def sampleCount (es : List P.Ev) : Nat := P.matchedCount (fun _ _ => True) es

variable {P}

/-- A matched stop is not earlier than its start. -/
theorem tsOf_le_time {es : List P.Ev} {e : P.Ev} {v : V} (hmono : P.NonDecreasing (es ++ [e]))
    (h : P.Matches es e v) : P.tsOf v ≤ P.time e := by
  obtain ⟨k, -, a, x, b, rfl, hview, -, -⟩ := h
  rw [← P.time_start x k v hview]
  refine (List.pairwise_append.mp hmono).2.2 x ?_ e ?_
  · simp
  · simp

/-- The unsigned subtraction in a stop handler does not wrap. -/
theorem toNat_delta {es : List P.Ev} {e : P.Ev} {v : V} (hmono : P.NonDecreasing (es ++ [e]))
    (h : P.Matches es e v) : (P.time e - P.tsOf v).toNat = P.trueDiff e v :=
  UInt64.toNat_sub_of_le _ _ (tsOf_le_time hmono h)

theorem slot_delta {es : List P.Ev} {e : P.Ev} {v : V} (hmono : P.NonDecreasing (es ++ [e]))
    (h : P.Matches es e v) : P.slot (P.time e - P.tsOf v) = P.trueSlot e v := by
  rw [trueSlot, ← toNat_delta hmono h, UInt64.ofNat_toNat]

theorem NonDecreasing.left {a b : List P.Ev} (h : P.NonDecreasing (a ++ b)) :
    P.NonDecreasing a :=
  (List.pairwise_append.mp h).1

/-- The clock is monotone up to every event of a run. -/
theorem NonDecreasing.upTo {es a b : List P.Ev} {e : P.Ev} (h : P.NonDecreasing es)
    (hes : es = a ++ e :: b) : P.NonDecreasing (a ++ [e]) := by
  rw [hes, ← List.singleton_append, ← List.append_assoc] at h
  exact h.left

/-! ## The histogram -/

/-- A copy's cell counts the samples of that copy in that bucket. -/
theorem cell_eq (es : List P.Ev) (c : Fin copies) (b : Fin slots) :
    P.cell (P.run es) (c, b) = UInt64.ofNat (P.copyCount es c b) := by
  rw [Stopwatch.cell_run]
  simp only [P.cellOf_eq, Prod.mk.injEq, copyCount]

/-- The copies' counts of a bucket add up to the bucket's count. -/
theorem sum_copies (es : List P.Ev) (b : Fin slots) :
    ∑ c, P.copyCount es c b = P.slotCount es b := by
  apply sum_countAt
  · rintro a e ⟨v, hv, hb⟩
    refine ⟨P.copyOf e, ⟨v, hv, rfl, hb⟩, ?_⟩
    rintro c ⟨w, -, hc, -⟩
    exact hc.symm
  · rintro c a e ⟨v, hv, -, hb⟩
    exact ⟨v, hv, hb⟩

theorem copyCount_le (es : List P.Ev) (c : Fin copies) (b : Fin slots) :
    P.copyCount es c b ≤ P.sampleCount es :=
  Stopwatch.matchedCount_mono (fun _ _ _ => trivial) es

/-- The buckets' counts add up to the number of samples. -/
theorem sum_slotCount (es : List P.Ev) : ∑ b, P.slotCount es b = P.sampleCount es := by
  apply sum_countAt
  · rintro a e ⟨v, hv, -⟩
    refine ⟨P.slot (P.time e - P.tsOf v), ⟨v, hv, rfl⟩, ?_⟩
    rintro b ⟨w, hw, hb⟩
    rw [← hb, hw.unique hv]
  · rintro b a e ⟨v, hv, -⟩
    exact ⟨v, hv, trivial⟩

/-- The histogram counts the samples of each bucket, modulo `2^64`. -/
theorem hist_run (es : List P.Ev) (b : Fin slots) :
    P.hist (P.run es) b = UInt64.ofNat (P.slotCount es b) := by
  simp only [hist, cell_eq]
  rw [wordSum_ofFn, sum_copies]

theorem slotCount_le (es : List P.Ev) (b : Fin slots) : P.slotCount es b ≤ P.sampleCount es :=
  Stopwatch.matchedCount_mono (fun _ _ _ => trivial) es

theorem noOverflow_of_sampleCount {es : List P.Ev} (h : P.sampleCount es < 2 ^ 64) :
    P.NoOverflow es :=
  fun b => (slotCount_le es b).trans_lt h

/-- A run of fewer than `2^64` events overflows nothing. -/
theorem sampleCount_lt_of_length {es : List P.Ev} (h : es.length < 2 ^ 64) :
    P.sampleCount es < 2 ^ 64 :=
  (Stopwatch.matchedCount_le_length _ es).trans_lt h

theorem noOverflow_of_length {es : List P.Ev} (h : es.length < 2 ^ 64) : P.NoOverflow es :=
  noOverflow_of_sampleCount (sampleCount_lt_of_length h)

theorem toNat_hist_run {es : List P.Ev} (h : P.NoOverflow es) (b : Fin slots) :
    (P.hist (P.run es) b).toNat = P.slotCount es b := by
  rw [hist_run, UInt64.toNat_ofNat']
  exact Nat.mod_eq_of_lt (h b)

/-- Below `2^64` samples, a reader that adds up the histogram gets them all. -/
theorem sum_toNat_hist {es : List P.Ev} (h : P.sampleCount es < 2 ^ 64) :
    ((List.ofFn (P.hist (P.run es))).map UInt64.toNat).sum = P.sampleCount es := by
  rw [List.map_ofFn, List.sum_ofFn, ← sum_slotCount]
  exact Finset.sum_congr rfl fun b _ => toNat_hist_run (noOverflow_of_sampleCount h) b

theorem toNat_wordSum_hist {es : List P.Ev} (h : P.sampleCount es < 2 ^ 64) :
    (wordSum (List.ofFn (P.hist (P.run es)))).toNat = P.sampleCount es := by
  rw [toNat_wordSum (by rw [sum_toNat_hist h]; exact h), sum_toNat_hist h]

/-- One copy is the whole histogram. -/
theorem hist_of_one_copy {slots : Nat} (P : Probe V 1 slots cap) (s : P.St) (b : Fin slots) :
    P.hist s b = P.cell s (0, b) :=
  wordSum_ofFn_one fun c => P.cell s (c, b)

/-- With a monotone clock the buckets are those of the true differences. -/
theorem slotCount_eq {es : List P.Ev} (hmono : P.NonDecreasing es) (b : Fin slots) :
    P.slotCount es b = P.matchedCount (fun e v => P.trueSlot e v = b) es := by
  apply Stopwatch.matchedCount_congr
  intro a e c v hes hv
  rw [slot_delta (hmono.upTo hes) hv]

/-! ## Latencies -/

variable (P) in
theorem trueDiff_lt (e : P.Ev) (v : V) : P.trueDiff e v < 2 ^ 64 :=
  Nat.lt_of_le_of_lt (Nat.sub_le _ _) (P.time e).toNat_lt

theorem toNat_ofNat_trueDiff (e : P.Ev) (v : V) :
    (UInt64.ofNat (P.trueDiff e v)).toNat = P.trueDiff e v := by
  rw [UInt64.toNat_ofNat']
  exact Nat.mod_eq_of_lt (P.trueDiff_lt e v)

/-- The true bucket, when `f` is what the tool's bucketing computes. -/
theorem val_trueSlot {f : Nat → Nat} (hslot : ∀ d : UInt64, (P.slot d).val = f d.toNat)
    (e : P.Ev) (v : V) : (P.trueSlot e v).val = f (P.trueDiff e v) := by
  rw [trueSlot, hslot, toNat_ofNat_trueDiff]

theorem slotCount_eq_latencyCount {f : Nat → Nat}
    (hslot : ∀ d : UInt64, (P.slot d).val = f d.toNat) {es : List P.Ev}
    (hmono : P.NonDecreasing es) (b : Fin slots) :
    P.slotCount es b = P.latencyCount (fun d => f d = b) es := by
  rw [slotCount_eq hmono]
  apply Stopwatch.matchedCount_congr
  intro a e c v _ _
  show P.trueSlot e v = b ↔ f (P.trueDiff e v) = b
  rw [← val_trueSlot hslot, Fin.ext_iff]

theorem latencyCount_congr {Q R : Nat → Prop} {es : List P.Ev}
    (h : P.EveryLatency (fun d => Q d ↔ R d) es) :
    P.latencyCount Q es = P.latencyCount R es :=
  Stopwatch.matchedCount_congr es h

theorem latencyCount_eq_zero {Q : Nat → Prop} {es : List P.Ev}
    (h : P.EveryLatency (fun d => ¬ Q d) es) : P.latencyCount Q es = 0 :=
  countAt_eq_zero fun a e b hes ⟨v, hv, hQ⟩ => h a e b v hes hv hQ

theorem latencyCount_pos {Q : Nat → Prop} {es a b : List P.Ev} {e : P.Ev} {v : V}
    (hes : es = a ++ e :: b) (hv : P.Matches a e v) (hQ : Q (P.trueDiff e v)) :
    0 < P.latencyCount Q es :=
  countAt_pos hes ⟨v, hv, hQ⟩

/-- Among the matched stops of a run that has one, one has the greatest `f` of
its latency. -/
theorem exists_greatest_latency {f : Nat → Nat} {bound : Nat} {es a₀ b₀ : List P.Ev} {e₀ : P.Ev}
    {v₀ : V} (hbound : ∀ e v, f (P.trueDiff e v) ≤ bound) (hes₀ : es = a₀ ++ e₀ :: b₀)
    (hv₀ : P.Matches a₀ e₀ v₀) :
    ∃ a e b v, es = a ++ e :: b ∧ P.Matches a e v ∧
      P.EveryLatency (fun d => f d ≤ f (P.trueDiff e v)) es := by
  classical
  let Reached (t : Nat) : Prop :=
    ∃ a e b v, es = a ++ e :: b ∧ P.Matches a e v ∧ f (P.trueDiff e v) = t
  obtain ⟨a, e, b, v, hes, hv, htop⟩ : Reached (Nat.findGreatest Reached bound) :=
    Nat.findGreatest_spec (hbound e₀ v₀) ⟨a₀, e₀, b₀, v₀, hes₀, hv₀, rfl⟩
  refine ⟨a, e, b, v, hes, hv, fun a' e' b' v' hes' hv' => ?_⟩
  rw [htop]
  exact Nat.le_findGreatest (hbound e' v') ⟨a', e', b', v', hes', hv', rfl⟩

end Probe
end EbpfToy
