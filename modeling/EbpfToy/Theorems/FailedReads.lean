import EbpfToy.Go.Save

/-!
# Reports when lookups fail

memlat and iolat end at the first lookup of `hist` that fails, with a message
that names the bucket, and write nothing. runqlat goes on: the bucket stays
zero in the CSV, and is missing from the total and the tail. Its report is that
of the full map exactly when every bucket it could not read is empty.
-/

namespace EbpfToy

open Lib

/-- Each lookup fails, or returns the bucket's value. -/
def ReadsOrFails {A : Type} {n : Nat} (lookup : UInt32 → Except String A) (g : Fin n → A) : Prop :=
  ∀ b : Fin n, lookup (UInt32.ofNat b.val) = .ok (g b) ∨
    ∃ err, lookup (UInt32.ofNat b.val) = .error err

/-- Any lookup is one of some map. -/
theorem exists_readsOrFails {A : Type} [Inhabited A] {n : Nat}
    (lookup : UInt32 → Except String A) : ∃ g : Fin n → A, ReadsOrFails lookup g := by
  refine ⟨fun b => (lookup (UInt32.ofNat b.val)).toOption.getD default, fun b => ?_⟩
  cases hread : lookup (UInt32.ofNat b.val) with
  | error err => exact .inr ⟨err, rfl⟩
  | ok v =>
      left
      show Except.ok v = Except.ok ((lookup (UInt32.ofNat b.val)).toOption.getD default)
      rw [hread]
      rfl

/-- One row for each bucket, in order, with the bucket's value as its count. -/
def RowsShow {n : Nat} (rows : List CsvRow) (g : Fin n → UInt64) : Prop :=
  rows.map (fun r => (r.bucket, r.count)) = List.ofFn fun b => (b.val, g b)

theorem rowsShow_rowsOf {n : Nat} (range : Nat → UInt64 × UInt64) (g : Fin n → UInt64) :
    RowsShow (rowsOf range (List.ofFn g)) g := by
  rw [RowsShow, rowsOf, List.map_map]
  apply List.ext_getElem
  · simp
  · intro i _ _
    simp

/-! ## Loops that stop at a failure -/

/-- A loop ends with the error of the first round that fails. -/
theorem foldlM_eq_error {A B : Type} {f : B → A → Except String B} {l r : List A} {x : A}
    {err : String} (hok : ∀ acc, ∀ y ∈ l, ∃ acc', f acc y = .ok acc')
    (hx : ∀ acc, f acc x = .error err) (b : B) : (l ++ x :: r).foldlM f b = .error err := by
  induction l generalizing b with
  | nil =>
      rw [List.nil_append, List.foldlM_cons, hx]
      rfl
  | cons y l ih =>
      obtain ⟨b', hy⟩ := hok b y List.mem_cons_self
      rw [List.cons_append, List.foldlM_cons, hy]
      exact ih (fun acc z hz => hok acc z (List.mem_cons_of_mem y hz)) b'

/-- The buckets before `i`, then `i`, then the others. -/
theorem range_split {n i : Nat} (hi : i < n) :
    ∃ l r, List.range n = l ++ i :: r ∧ ∀ j ∈ l, j < i := by
  obtain ⟨l, r, hlr⟩ := List.append_of_mem (List.mem_range.mpr hi)
  refine ⟨l, r, hlr, ?_⟩
  have hsorted : List.Pairwise (· < ·) (l ++ i :: r) := hlr ▸ List.pairwise_lt_range
  intro j hj
  exact (List.pairwise_append.mp hsorted).2.2 j hj i List.mem_cons_self

/-- Bucket `i` is the first whose lookup fails. -/
def FirstFailure {A : Type} (lookup : UInt32 → Except String A) (i : Nat) (err : String) : Prop :=
  lookup (UInt32.ofNat i) = .error err ∧ ∀ j < i, ∃ v, lookup (UInt32.ofNat j) = .ok v

/-- Every lookup succeeds, or one is the first to fail. -/
theorem ReadsOrFails.readsAs_or_firstFailure {A : Type} {n : Nat}
    {lookup : UInt32 → Except String A} {g : Fin n → A} (h : ReadsOrFails lookup g) :
    ReadsAs lookup g ∨ ∃ i err, i < n ∧ FirstFailure lookup i err := by
  classical
  by_cases hall : ReadsAs lookup g
  · exact .inl hall
  · obtain ⟨b, hb⟩ := not_forall.mp hall
    have hfail : ∃ i, ∃ err, lookup (UInt32.ofNat i) = .error err :=
      ⟨b.val, (h b).resolve_left hb⟩
    obtain ⟨err, herr⟩ := Nat.find_spec hfail
    have hlt : Nat.find hfail < n :=
      (Nat.find_min' hfail ((h b).resolve_left hb)).trans_lt b.isLt
    refine .inr ⟨Nat.find hfail, err, hlt, herr, fun j hj => ?_⟩
    exact ⟨_, (h ⟨j, hj.trans hlt⟩).resolve_right (Nat.find_min hfail hj)⟩

/-- memlat's message names the first bucket that it could not read. -/
theorem Memlat.readHist_error {lookup : UInt32 → Except String UInt64} {i : Nat} {err : String}
    (hi : i < maxSlots) (h : FirstFailure lookup i err) :
    readHist lookup = .error s!"hist lookup bucket={i}: {err}" := by
  obtain ⟨l, r, hlr, hlt⟩ := range_split hi
  rw [readHist, hlr]
  apply foldlM_eq_error
  · rintro ⟨counts, total⟩ j hj
    obtain ⟨v, hv⟩ := h.2 j (hlt j hj)
    exact ⟨(counts.set j v, total + v), by simp only [hv]⟩
  · rintro ⟨counts, total⟩
    simp only [h.1]

/-- And so does iolat's. -/
theorem Iolat.readCounts_error {lookup : UInt32 → Except String UInt64} {i : Nat} {err : String}
    (hi : i < maxSlots) (h : FirstFailure lookup i err) :
    readCounts lookup = .error s!"map lookup hist[{i}]: {err}" := by
  obtain ⟨l, r, hlr, hlt⟩ := range_split hi
  rw [readCounts, hlr]
  apply foldlM_eq_error
  · intro counts j hj
    obtain ⟨v, hv⟩ := h.2 j (hlt j hj)
    exact ⟨counts.set j v, by simp only [hv]⟩
  · intro counts
    simp only [h.1]

/-! ## memlat and iolat -/

/-- memlat saves the full map, or ends with an error and writes nothing. -/
theorem memlat_full_or_fatal {lookup : UInt32 → Except String UInt64}
    {g : Fin Memlat.maxSlots → UInt64} (h : ReadsOrFails lookup g) (durationSec : Nat) :
    (∃ counts sum, (∀ fs out, Memlat.main fs durationSec out lookup =
        Memlat.save fs out counts sum) ∧
      RowsShow (Memlat.saveCSV counts) g ∧ sum.total = wordSum (List.ofFn g)) ∨
    ∃ err, ∀ fs out, Memlat.main fs durationSec out lookup = { fatal := some err } := by
  rcases h.readsAs_or_firstFailure with hreads | ⟨i, err, hi, hfirst⟩
  · refine .inl ⟨List.ofFn g, Memlat.summary durationSec (wordSum (List.ofFn g)), ?_,
      rowsShow_rowsOf _ g, rfl⟩
    intro fs out
    rw [Memlat.main, Memlat.readHist_ok hreads]
  · refine .inr ⟨s!"hist lookup bucket={i}: {err}", fun fs out => ?_⟩
    rw [Memlat.main, Memlat.readHist_error hi hfirst]

/-- iolat saves the full map, or ends with an error and writes nothing. -/
theorem iolat_full_or_fatal {lookup : UInt32 → Except String UInt64}
    {g : Fin Iolat.maxSlots → UInt64} (h : ReadsOrFails lookup g) (json : GoString → String)
    (out : GoString) :
    (∃ counts sum, (∀ fs, Iolat.main fs json out lookup = Iolat.save fs out counts sum) ∧
      RowsShow (Iolat.writeCSV counts) g ∧ sum.total = wordSum (List.ofFn g)) ∨
    ∃ err, ∀ fs, Iolat.main fs json out lookup = { fatal := some err } := by
  rcases h.readsAs_or_firstFailure with hreads | ⟨i, err, hi, hfirst⟩
  · refine .inl ⟨List.ofFn g, Iolat.summary (Iolat.sumCounts (List.ofFn g))
      (json (Iolat.normalizeOut out).1), ?_, rowsShow_rowsOf _ g, Iolat.sumCounts_ofFn g⟩
    intro fs
    rw [Iolat.main, Iolat.readCounts_ok hreads]
  · refine .inr ⟨s!"map lookup hist[{i}]: {err}", fun fs => ?_⟩
    rw [Iolat.main, Iolat.readCounts_error hi hfirst]

/-! ## runqlat -/

namespace Runqlat

/-- The rows and the summary are those of the full map. -/
structure OfFullMap (perCPU : Fin maxSlots → List UInt64) (counts : List UInt64) (sum : Summary) :
    Prop where
  rows : RowsShow (saveCSV counts) fun b => wordSum (perCPU b)
  total : sum.totalEvents = wordSum (List.ofFn fun b => wordSum (perCPU b))
  tail : sum.tailEvents = sumTail (List.ofFn fun b => wordSum (perCPU b)) sum.tailThresholdUs
  maxBucket : sum.maxBucket = Runqlat.maxBucket (List.ofFn fun b => wordSum (perCPU b))

/-- Every bucket whose lookup fails adds up to zero over the CPUs. -/
def FailedAreEmpty (lookup : UInt32 → Except String (List UInt64))
    (perCPU : Fin maxSlots → List UInt64) : Prop :=
  ∀ b : Fin maxSlots, (∃ err, lookup (UInt32.ofNat b.val) = .error err) → wordSum (perCPU b) = 0

/-- The counts that were read are those of the map. -/
theorem bucketRead_eq_iff {lookup : UInt32 → Except String (List UInt64)}
    {perCPU : Fin maxSlots → List UInt64} (h : ReadsOrFails lookup perCPU) :
    bucketRead lookup = (fun b => wordSum (perCPU b)) ↔ FailedAreEmpty lookup perCPU := by
  constructor
  · rintro hread b ⟨err, herr⟩
    rw [← congrFun hread b, bucketRead_error herr]
  · intro hempty
    funext b
    rcases h b with hok | ⟨err, herr⟩
    · exact bucketRead_ok hok
    · rw [bucketRead_error herr, hempty b ⟨err, herr⟩]

/-- The count column determines the counts. -/
theorem eq_of_rowsShow {n : Nat} {range : Nat → UInt64 × UInt64} {f g : Fin n → UInt64}
    (h : RowsShow (rowsOf range (List.ofFn f)) g) : f = g := by
  have hpair := (rowsShow_rowsOf range f).symm.trans h
  funext b
  exact (Prod.mk.inj (congrFun (List.ofFn_injective hpair) b)).2

theorem main_eq (fs : Files) (durationSec : Nat) (out : GoString)
    (lookup : UInt32 → Except String (List UInt64)) :
    main fs durationSec out lookup = save fs out (readHist lookup).1
      (summary durationSec (readHist lookup).1 (readHist lookup).2) := rfl

/-- The report of counts that are all of the map's. -/
theorem ofFullMap_of_eq {perCPU : Fin maxSlots → List UInt64} {counts : List UInt64}
    (h : counts = List.ofFn fun b => wordSum (perCPU b)) (durationSec : Nat) :
    OfFullMap perCPU counts (summary durationSec counts (wordSum counts)) where
  rows := by
    rw [h]
    exact rowsShow_rowsOf inlineRange _
  total := by
    rw [← h]
    rfl
  tail := by
    rw [← h]
    rfl
  maxBucket := by
    rw [← h]
    rfl

/-- What runqlat saves is of the full map exactly when what it missed is empty. -/
theorem ofFullMap_iff {lookup : UInt32 → Except String (List UInt64)}
    {perCPU : Fin maxSlots → List UInt64} (h : ReadsOrFails lookup perCPU) (durationSec : Nat) :
    OfFullMap perCPU (readHist lookup).1
        (summary durationSec (readHist lookup).1 (readHist lookup).2) ↔
      FailedAreEmpty lookup perCPU := by
  rw [← bucketRead_eq_iff h, readHist_eq]
  constructor
  · intro hfull
    exact eq_of_rowsShow hfull.rows
  · intro hread
    exact ofFullMap_of_eq (congrArg List.ofFn hread) durationSec

end Runqlat

/-- A report that is saved is that of the full map: always for memlat and iolat,
and for runqlat exactly when every bucket it could not read is empty. -/
theorem saved_report_full_iff (durationSec : Nat) (json : GoString → String) (out : GoString) :
    (∀ (lookup : UInt32 → Except String UInt64) (g : Fin Memlat.maxSlots → UInt64),
      ReadsOrFails lookup g →
      (∃ counts sum, (∀ fs out, Memlat.main fs durationSec out lookup =
          Memlat.save fs out counts sum) ∧
        RowsShow (Memlat.saveCSV counts) g ∧ sum.total = wordSum (List.ofFn g)) ∨
      ∃ err, ∀ fs out, Memlat.main fs durationSec out lookup = { fatal := some err }) ∧
    (∀ (lookup : UInt32 → Except String UInt64) (g : Fin Iolat.maxSlots → UInt64),
      ReadsOrFails lookup g →
      (∃ counts sum, (∀ fs, Iolat.main fs json out lookup = Iolat.save fs out counts sum) ∧
        RowsShow (Iolat.writeCSV counts) g ∧ sum.total = wordSum (List.ofFn g)) ∨
      ∃ err, ∀ fs, Iolat.main fs json out lookup = { fatal := some err }) ∧
    (∀ (lookup : UInt32 → Except String (List UInt64))
      (perCPU : Fin Runqlat.maxSlots → List UInt64), ReadsOrFails lookup perCPU →
      ∃ counts sum, (∀ fs out, Runqlat.main fs durationSec out lookup =
          Runqlat.save fs out counts sum) ∧
        (Runqlat.OfFullMap perCPU counts sum ↔ Runqlat.FailedAreEmpty lookup perCPU)) := by
  refine ⟨?_, ?_, ?_⟩
  · intro lookup g h
    exact memlat_full_or_fatal h durationSec
  · intro lookup g h
    exact iolat_full_or_fatal h json out
  · intro lookup perCPU h
    exact ⟨_, _, fun fs out => Runqlat.main_eq fs durationSec out lookup,
      Runqlat.ofFullMap_iff h durationSec⟩

/-- A lookup that fails for one bucket and returns `v` for all others. -/
def failsAt {A : Type} (bad : UInt32) (v : A) (key : UInt32) : Except String A :=
  if key = bad then .error "lookup failed" else .ok v

theorem readsOrFails_failsAt {A : Type} {n : Nat} (bad : UInt32) (v : A) :
    ReadsOrFails (failsAt bad v) fun _ : Fin n => v := by
  intro b
  by_cases hb : UInt32.ofNat b.val = bad
  · exact .inr ⟨"lookup failed", if_pos hb⟩
  · exact .inl (if_neg hb)

/-- One lookup fails in a map of fives, and in an empty map of two CPUs. -/
theorem saved_report_full_iff_one_failure :
    ((∃ counts sum, (∀ fs out, Memlat.main fs 10 out (failsAt 3 5) =
          Memlat.save fs out counts sum) ∧
        RowsShow (Memlat.saveCSV counts) (fun _ : Fin Memlat.maxSlots => 5) ∧
        sum.total = wordSum (List.ofFn fun _ : Fin Memlat.maxSlots => 5)) ∨
      ∃ err, ∀ fs out, Memlat.main fs 10 out (failsAt 3 5) = { fatal := some err }) ∧
    ((∃ counts sum, (∀ fs, Iolat.main fs (fun _ => "") dotCsv (failsAt 3 5) =
          Iolat.save fs dotCsv counts sum) ∧
        RowsShow (Iolat.writeCSV counts) (fun _ : Fin Iolat.maxSlots => 5) ∧
        sum.total = wordSum (List.ofFn fun _ : Fin Iolat.maxSlots => 5)) ∨
      ∃ err, ∀ fs, Iolat.main fs (fun _ => "") dotCsv (failsAt 3 5) = { fatal := some err }) ∧
    (∃ counts sum, (∀ fs out, Runqlat.main fs 10 out (failsAt 3 [0, 0]) =
        Runqlat.save fs out counts sum) ∧
      (Runqlat.OfFullMap (fun _ => [0, 0]) counts sum ↔
        Runqlat.FailedAreEmpty (failsAt 3 [0, 0]) fun _ => [0, 0])) :=
  ⟨(saved_report_full_iff 10 (fun _ => "") dotCsv).1 _ _ (readsOrFails_failsAt 3 5),
    (saved_report_full_iff 10 (fun _ => "") dotCsv).2.1 _ _ (readsOrFails_failsAt 3 5),
    (saved_report_full_iff 10 (fun _ => "") dotCsv).2.2 _ _ (readsOrFails_failsAt 3 [0, 0])⟩

/-- Every bucket holds five, and the lookup of bucket 3 fails: runqlat saves a
report, with no error, that is not of the full map. -/
theorem saved_report_incomplete :
    ReadsOrFails (failsAt 3 [5]) (fun _ : Fin Runqlat.maxSlots => [5]) ∧
    ∃ counts sum, (∀ fs out, Runqlat.main fs 10 out (failsAt 3 [5]) =
        Runqlat.save fs out counts sum) ∧
      ¬ Runqlat.OfFullMap (fun _ => [5]) counts sum := by
  refine ⟨readsOrFails_failsAt 3 [5], _, _, fun fs out => Runqlat.main_eq fs 10 out _,
    fun hfull => ?_⟩
  have hempty := (Runqlat.ofFullMap_iff (readsOrFails_failsAt 3 [5]) 10).mp hfull
  have hfive := hempty ⟨3, by decide⟩ ⟨"lookup failed", rfl⟩
  exact absurd hfive (by decide)

end EbpfToy
