import EbpfToy.Bpf.Memlat
import EbpfToy.Bpf.Runqlat
import EbpfToy.Bpf.Iolat
import Mathlib.Algebra.Order.BigOperators.Group.Finset

/-!
# User space: reading the histogram and reporting it

The Go side of the three tools (`cmd/memlat`, `cmd/runqlat`, `cmd/iolat`):
the loops that look up every bucket, the rows of the CSV, and the figures of
the summary. A map lookup is a function of the key that succeeds or fails;
`fatalf` and `os.Exit(1)` are the `error` results.
-/

namespace EbpfToy

open Lib

/-- Go's `x << n` on `uint64`: bits shifted past the top are lost, and every
count is allowed. -/
def shl (x : UInt64) (n : Nat) : UInt64 := UInt64.ofNat (x.toNat <<< n)

/-- One line of the CSV: `bucket,lo_us,hi_us,count`. -/
structure CsvRow where
  bucket : Nat
  loUs : UInt64
  hiUs : UInt64
  count : UInt64
  deriving DecidableEq

/-- The row's printed range contains `us`. -/
def CsvRow.Contains (r : CsvRow) (us : Nat) : Prop := r.loUs.toNat ≤ us ∧ us < r.hiUs.toNat

instance (r : CsvRow) (us : Nat) : Decidable (r.Contains us) :=
  inferInstanceAs (Decidable (_ ∧ _))

/-- The loop of the CSV writers over a slice of counts, with the bounds each
row prints. -/
def rowsOf (range : Nat → UInt64 × UInt64) (counts : List UInt64) : List CsvRow :=
  counts.zipIdx.map fun (c, i) => ⟨i, (range i).1, (range i).2, c⟩

/-- `lo := uint64(1) << uint(i); hi := uint64(1) << uint(i+1)`. -/
def inlineRange (i : Nat) : UInt64 × UInt64 := (shl 1 i, shl 1 (i + 1))

/-! ## memlat -/

namespace Memlat

/-- `readHist`: any failed lookup is fatal. -/
def readHist (lookup : UInt32 → Except String UInt64) :
    Except String (List UInt64 × UInt64) :=
  (List.range maxSlots).foldlM
    (fun (counts, total) i =>
      match lookup (UInt32.ofNat i) with
      | .error err => .error s!"hist lookup bucket={i}: {err}"
      | .ok v => .ok (counts.set i v, total + v))
    (List.replicate maxSlots 0, 0)

/-- The rows `saveCSV` writes. -/
def saveCSV (counts : List UInt64) : List CsvRow := rowsOf inlineRange counts

structure Summary where
  durationSec : Nat
  total : UInt64
  note : String
  deriving DecidableEq

def summary (durationSec : Nat) (total : UInt64) : Summary :=
  { durationSec := durationSec, total := total,
    note := "bucket i means [2^i, 2^(i+1)) microseconds" }

end Memlat

/-! ## runqlat -/

namespace Runqlat

/-- `readHist`: a bucket whose lookup fails is skipped and stays zero. -/
def readHist (lookup : UInt32 → Except String (List UInt64)) : List UInt64 × UInt64 :=
  (List.range maxSlots).foldl
    (fun (counts, total) i =>
      match lookup (UInt32.ofNat i) with
      -- `continue`: neither the count nor the total is touched
      | .error _ => (counts, total)
      | .ok perCPU =>
        let cnt := wordSum perCPU
        (counts.set i cnt, total + cnt))
    (List.replicate maxSlots 0, 0)

/-- The rows `saveCSV` writes. -/
def saveCSV (counts : List UInt64) : List CsvRow := rowsOf inlineRange counts

/-- The rows `printHist` prints: an empty bucket past 25 is skipped. -/
def printHist (counts : List UInt64) : List CsvRow :=
  (rowsOf inlineRange counts).filter fun r => !(r.count == 0 && decide (r.bucket > 25))

/-- The search loop of `sumTail`: the first bucket, if any, whose lower bound
reaches the threshold. -/
def startBucket (thresholdUs : UInt64) : Nat :=
  ((List.range maxSlots).find? fun i => decide (thresholdUs ≤ shl 1 i)).getD maxSlots

def sumTail (counts : List UInt64) (thresholdUs : UInt64) : UInt64 :=
  wordSum (counts.drop (startBucket thresholdUs))

/-- The last non-zero bucket, or -1. -/
def maxBucket (counts : List UInt64) : Int :=
  match (List.range counts.length).reverse.find? fun i => decide (counts.getD i 0 > 0) with
  | some i => i
  | none => -1

structure Summary where
  module : String
  metric : String
  unit : String
  durationSec : Nat
  totalEvents : UInt64
  tailThresholdUs : UInt64
  tailEvents : UInt64
  maxBucket : Int
  notes : String
  deriving DecidableEq

/-- `tailThresholdUs := uint64(8)`. -/
def tailThresholdUs : UInt64 := 8

def summary (durationSec : Nat) (counts : List UInt64) (total : UInt64) : Summary :=
  { module := "runqlat", metric := "runqueue_wait_latency", unit := "microseconds",
    durationSec := durationSec, totalEvents := total, tailThresholdUs := tailThresholdUs,
    tailEvents := sumTail counts tailThresholdUs, maxBucket := maxBucket counts,
    notes := "bucket i means [2^i, 2^(i+1)) microseconds" }

/-- What `main` saves after the sleep: the rows and the summary. -/
def report (durationSec : Nat) (lookup : UInt32 → Except String (List UInt64)) :
    List CsvRow × Summary :=
  let (counts, total) := readHist lookup
  (saveCSV counts, summary durationSec counts total)

end Runqlat

/-! ## iolat -/

namespace Iolat

/-- The first loop of `main` over the buckets: any failed lookup is fatal. -/
def readCounts (lookup : UInt32 → Except String UInt64) : Except String (List UInt64) :=
  (List.range maxSlots).foldlM
    (fun counts i =>
      match lookup (UInt32.ofNat i) with
      | .error err => .error s!"map lookup hist[{i}]: {err}"
      | .ok val => .ok (counts.set i val))
    (List.replicate maxSlots 0)

/-- The second loop: the total. -/
def sumCounts (counts : List UInt64) : UInt64 :=
  (List.range maxSlots).foldl (fun total i => total + counts.getD i 0) 0

def bucketRangeUs (b : Nat) : UInt64 × UInt64 :=
  let lo := shl 1 b
  let hi := shl 1 (b + 1)
  (lo, hi)

/-- The rows `writeCSV` writes. -/
def writeCSV (counts : List UInt64) : List CsvRow := rowsOf bucketRangeUs counts

structure Summary where
  tool : String
  total : UInt64
  out : String
  deriving DecidableEq

def summary (total : UInt64) (csvPath : String) : Summary :=
  { tool := "iolat", total := total, out := csvPath }

end Iolat

/-! ## What a row prints -/

theorem toNat_shl_one {n : Nat} (h : n < 64) : (shl 1 n).toNat = 2 ^ n := by
  have hpow : 2 ^ n < 2 ^ 64 := Nat.pow_lt_pow_right Nat.one_lt_two h
  rw [shl, UInt64.toNat_one, Nat.one_shiftLeft, UInt64.toNat_ofNat']
  exact Nat.mod_eq_of_lt hpow

/-- Below the top bucket a row prints `[2^b, 2^(b+1))`. -/
theorem contains_inlineRange_iff {b : Nat} (hb : b < 63) (us : Nat) (count : UInt64) :
    (CsvRow.mk b (inlineRange b).1 (inlineRange b).2 count).Contains us ↔
      us ≠ 0 ∧ Nat.log 2 us = b := by
  have hlo : (inlineRange b).1.toNat = 2 ^ b := toNat_shl_one (by omega)
  have hhi : (inlineRange b).2.toNat = 2 ^ (b + 1) := toNat_shl_one (by omega)
  simp only [CsvRow.Contains, hlo, hhi]
  -- `2^b ≤ us < 2^(b+1)` is what the floor logarithm says
  constructor
  · rintro ⟨hle, hlt⟩
    have hpos : us ≠ 0 := (Nat.lt_of_lt_of_le (Nat.two_pow_pos b) hle).ne'
    exact ⟨hpos, Nat.log_eq_of_pow_le_of_lt_pow hle hlt⟩
  · rintro ⟨hpos, rfl⟩
    exact ⟨Nat.pow_log_le_self 2 hpos, Nat.lt_pow_succ_log_self Nat.one_lt_two us⟩

/-- The top bucket's `1 << 64` wraps to zero, so its row contains nothing. -/
theorem not_contains_inlineRange_top (us : Nat) (count : UInt64) :
    ¬ (CsvRow.mk 63 (inlineRange 63).1 (inlineRange 63).2 count).Contains us := by
  have hhi : (inlineRange 63).2 = 0 := by decide
  intro h
  rw [CsvRow.Contains, hhi] at h
  exact absurd h.2 (Nat.not_lt_zero us)

/-- A value below `2^63` lies in the row of its logarithm and in no other. -/
theorem contains_inlineRange_iff_of_lt {b : Nat} (hb : b < 64) {us : Nat} (hus : us < 2 ^ 63)
    (count : UInt64) :
    (CsvRow.mk b (inlineRange b).1 (inlineRange b).2 count).Contains us ↔
      us ≠ 0 ∧ Nat.log 2 us = b := by
  by_cases htop : b = 63
  · subst htop
    have hlog : Nat.log 2 us < 63 := Nat.log_lt_of_lt_pow' (by decide) hus
    exact iff_of_false (not_contains_inlineRange_top us count) fun h => by omega
  · exact contains_inlineRange_iff (by omega) us count

/-! ## When every lookup succeeds -/

/-- Every lookup succeeds, and returns `g b` for bucket `b`. -/
def ReadsAs {A : Type} {n : Nat} (lookup : UInt32 → Except String A) (g : Fin n → A) : Prop :=
  ∀ b : Fin n, lookup (UInt32.ofNat b.val) = .ok (g b)

/-- The lookup that succeeds on every index of an array, and on no other key. -/
def lookupAll {A : Type} {n : Nat} (g : Fin n → A) (key : UInt32) : Except String A :=
  if h : key.toNat < n then .ok (g ⟨key.toNat, h⟩) else .error "key does not exist"

theorem readsAs_lookupAll {A : Type} {n : Nat} (g : Fin n → A) (h : n ≤ 2 ^ 32) :
    ReadsAs (lookupAll g) g := by
  intro b
  have hkey : (UInt32.ofNat b.val).toNat = b.val := by
    rw [UInt32.toNat_ofNat']
    exact Nat.mod_eq_of_lt (b.isLt.trans_le h)
  simp [lookupAll, hkey]

/-- A loop none of whose rounds fails computes what the plain loop does. -/
private theorem foldlM_eq_ok {A B : Type} {f : B → A → Except String B} {F : B → A → B}
    {l : List A} (h : ∀ acc, ∀ x ∈ l, f acc x = .ok (F acc x)) (b : B) :
    l.foldlM f b = .ok (l.foldl F b) := by
  induction l generalizing b with
  | nil => rfl
  | cons x l ih =>
      rw [List.foldlM_cons, h b x List.mem_cons_self, List.foldl_cons]
      exact ih (fun acc y hy => h acc y (List.mem_cons_of_mem x hy)) (F b x)

/-- `g` as a function of the loop index. -/
private def atIndex {n : Nat} (g : Fin n → UInt64) (i : Nat) : UInt64 :=
  if h : i < n then g ⟨i, h⟩ else 0

private theorem atIndex_of_lt {n : Nat} (g : Fin n → UInt64) {i : Nat} (h : i < n) :
    atIndex g i = g ⟨i, h⟩ := by
  simp [atIndex, h]

/-- The filling loop over all `n` indices. -/
private theorem fill_ofFn {n : Nat} (g : Fin n → UInt64) :
    (List.range n).foldl (fun counts i => counts.set i (atIndex g i)) (List.replicate n 0) =
      List.ofFn g := by
  rw [foldl_set (atIndex g) (Nat.le_refl n), Nat.sub_self, List.replicate_zero, List.append_nil]
  exact map_range_eq_ofFn fun i => atIndex_of_lt g i.isLt

/-- The filling loop with a running total. -/
private theorem fillAdd_ofFn {n : Nat} (g : Fin n → UInt64) :
    (List.range n).foldl (fun acc i => (acc.1.set i (atIndex g i), acc.2 + atIndex g i))
        (List.replicate n 0, (0 : UInt64)) =
      (List.ofFn g, wordSum (List.ofFn g)) := by
  have hlist : (List.range n).map (atIndex g) = List.ofFn g :=
    map_range_eq_ofFn fun i => atIndex_of_lt g i.isLt
  have hpair := foldl_pair (fun (l : List UInt64) i => l.set i (atIndex g i))
    (fun t i => t + atIndex g i) (List.range n) (List.replicate n 0) 0
  rw [hpair, fill_ofFn, wordSum, ← hlist, List.foldl_map]

theorem Memlat.readHist_ok {lookup : UInt32 → Except String UInt64} {g : Fin maxSlots → UInt64}
    (h : ReadsAs lookup g) : readHist lookup = .ok (List.ofFn g, wordSum (List.ofFn g)) := by
  rw [← fillAdd_ofFn g]
  apply foldlM_eq_ok
  rintro ⟨counts, total⟩ i hi
  have hlt : i < maxSlots := List.mem_range.mp hi
  simp only [h ⟨i, hlt⟩, atIndex_of_lt g hlt]

/-- What `readHist` takes a bucket for: a failed lookup counts as zero. -/
def Runqlat.bucketRead (lookup : UInt32 → Except String (List UInt64)) (b : Fin maxSlots) :
    UInt64 :=
  match lookup (UInt32.ofNat b.val) with
  | .error _ => 0
  | .ok perCPU => wordSum perCPU

/-- Whatever fails, `readHist` returns what it read and the sum of that. -/
theorem Runqlat.readHist_eq (lookup : UInt32 → Except String (List UInt64)) :
    readHist lookup =
      (List.ofFn (bucketRead lookup), wordSum (List.ofFn (bucketRead lookup))) := by
  let val (i : Nat) : Option UInt64 := match lookup (UInt32.ofNat i) with
    | .error _ => none
    | .ok perCPU => some (wordSum perCPU)
  have hval : ∀ b : Fin maxSlots, (val b.val).getD 0 = bucketRead lookup b := by
    intro b
    simp only [val, bucketRead]
    cases lookup (UInt32.ofNat b.val) <;> rfl
  have hlist : (List.range maxSlots).map (fun i => (val i).getD 0) =
      List.ofFn (bucketRead lookup) := map_range_eq_ofFn hval
  -- the count and the total are filled independently of each other
  calc readHist lookup
      = (List.range maxSlots).foldl (fun acc i => (setSome acc.1 i (val i), addSome acc.2 (val i)))
          (List.replicate maxSlots 0, 0) := by
        apply List.foldl_ext
        rintro ⟨counts, total⟩ i -
        simp only [val]
        cases lookup (UInt32.ofNat i) <;> rfl
    _ = _ := by
        rw [foldl_pair (fun l i => setSome l i (val i)) (fun s i => addSome s (val i)),
          foldl_setSome val (Nat.le_refl _), foldl_addSome, hlist, Nat.sub_self,
          List.replicate_zero, List.append_nil, wordSum]

theorem Runqlat.bucketRead_ok {lookup : UInt32 → Except String (List UInt64)}
    {b : Fin maxSlots} {perCPU : List UInt64} (h : lookup (UInt32.ofNat b.val) = .ok perCPU) :
    bucketRead lookup b = wordSum perCPU := by
  simp [bucketRead, h]

theorem Runqlat.bucketRead_error {lookup : UInt32 → Except String (List UInt64)}
    {b : Fin maxSlots} {err : String} (h : lookup (UInt32.ofNat b.val) = .error err) :
    bucketRead lookup b = 0 := by
  simp [bucketRead, h]

theorem Runqlat.readHist_ok {lookup : UInt32 → Except String (List UInt64)}
    {perCPU : Fin maxSlots → List UInt64} (h : ReadsAs lookup perCPU) :
    readHist lookup = (List.ofFn fun b => wordSum (perCPU b),
      wordSum (List.ofFn fun b => wordSum (perCPU b))) := by
  have hread : bucketRead lookup = fun b => wordSum (perCPU b) :=
    funext fun b => bucketRead_ok (h b)
  rw [readHist_eq, hread]

theorem Iolat.readCounts_ok {lookup : UInt32 → Except String UInt64} {g : Fin maxSlots → UInt64}
    (h : ReadsAs lookup g) : readCounts lookup = .ok (List.ofFn g) := by
  rw [← fill_ofFn g]
  apply foldlM_eq_ok
  intro counts i hi
  have hlt : i < maxSlots := List.mem_range.mp hi
  simp only [h ⟨i, hlt⟩, atIndex_of_lt g hlt]

theorem Iolat.sumCounts_ofFn (g : Fin maxSlots → UInt64) :
    sumCounts (List.ofFn g) = wordSum (List.ofFn g) := by
  have hlist : (List.range maxSlots).map (fun i => (List.ofFn g).getD i 0) = List.ofFn g :=
    map_range_eq_ofFn fun i => by simp
  rw [wordSum, ← hlist, List.foldl_map, hlist]
  rfl

theorem Runqlat.report_tailEvents (durationSec : Nat)
    (lookup : UInt32 → Except String (List UInt64)) :
    (report durationSec lookup).2.tailEvents = sumTail (readHist lookup).1 tailThresholdUs :=
  rfl

/-- `sumTail` adds up the buckets from `startBucket` on. -/
theorem Runqlat.toNat_sumTail {n : Nat} (g : Fin n → UInt64) (thresholdUs : UInt64)
    (h : (∑ b : Fin n, if startBucket thresholdUs ≤ b.val then (g b).toNat else 0) < 2 ^ 64) :
    (sumTail (List.ofFn g) thresholdUs).toNat =
      ∑ b : Fin n, if startBucket thresholdUs ≤ b.val then (g b).toNat else 0 := by
  have hmap : ((List.ofFn g).drop (startBucket thresholdUs)).map UInt64.toNat =
      (List.ofFn fun b => (g b).toNat).drop (startBucket thresholdUs) := by
    rw [List.map_drop, List.map_ofFn]
    rfl
  rw [← sum_drop_ofFn, ← hmap] at h ⊢
  exact toNat_wordSum h

/-- A tail fits when the whole histogram does. -/
theorem Runqlat.toNat_sumTail_eq {n : Nat} {g : Fin n → UInt64} (h : ∑ b, (g b).toNat < 2 ^ 64)
    (thresholdUs : UInt64) : (sumTail (List.ofFn g) thresholdUs).toNat =
      ∑ b : Fin n, if startBucket thresholdUs ≤ b.val then (g b).toNat else 0 :=
  toNat_sumTail g thresholdUs
    ((sum_tail_le (fun b => (g b).toNat) (startBucket thresholdUs)).trans_lt h)

/-- The tail of 8 microseconds starts at bucket 3. -/
theorem Runqlat.startBucket_tailThresholdUs : startBucket tailThresholdUs = 3 := by decide

/-- The count column is the slice of counts. -/
theorem map_count_rowsOf (range : Nat → UInt64 × UInt64) (counts : List UInt64) :
    (rowsOf range counts).map CsvRow.count = counts := by
  rw [rowsOf, List.map_map]
  exact List.zipIdx_map_fst 0 counts

/-- The rows written for the counts `g`. -/
theorem mem_rowsOf {n : Nat} {range : Nat → UInt64 × UInt64} {g : Fin n → UInt64} {r : CsvRow} :
    r ∈ rowsOf range (List.ofFn g) ↔
      ∃ b : Fin n, r = ⟨b, (range b).1, (range b).2, g b⟩ := by
  simp only [rowsOf, List.mem_map, List.mem_zipIdx_iff_getElem?]
  constructor
  · rintro ⟨⟨c, i⟩, hc, rfl⟩
    obtain ⟨hi, hget⟩ := List.getElem?_eq_some_iff.mp hc
    have hlt : i < n := by simpa using hi
    refine ⟨⟨i, hlt⟩, ?_⟩
    have hcount : g ⟨i, hlt⟩ = c := by simpa using hget
    rw [hcount]
  · rintro ⟨b, rfl⟩
    exact ⟨(g b, b), by simp, rfl⟩

end EbpfToy
