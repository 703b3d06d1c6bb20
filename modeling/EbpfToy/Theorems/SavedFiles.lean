import EbpfToy.Go.Summary
import EbpfToy.Theorems.FailedReads
import EbpfToy.Theorems.Summary
import EbpfToy.Theorems.WholeLines

/-!
# The two files of a run

A run that saves a report leaves a CSV and a summary, and either may have been
cut by a failing write. A reader who has only the two files can tell: when the
CSV has all its lines and the summary reads as an object, the figures of the
summary are those of the rows of the CSV, whatever lookups and writes failed on
the way. iolat's summary also names the CSV, and the name is right exactly when
the path is UTF-8.
-/

namespace EbpfToy

open Lib Json

/-! ## Figures of a decoded CSV -/

/-- All counts, added up as the tools do. -/
def totalOf (rows : List (List Nat)) : Nat := (rows.map countOf).sum % 2 ^ 64

/-- The counts of the rows that begin at the threshold or above it. -/
def tailOf (rows : List (List Nat)) (threshold : Nat) : Nat :=
  (rows.map fun row => if threshold ≤ loOf row then countOf row else 0).sum % 2 ^ 64

/-- `m` is the bucket of the last row that is not empty, or -1. -/
def IsMaxBucket (rows : List (List Nat)) (m : Int) : Prop :=
  (m = -1 ∧ ∀ row ∈ rows, countOf row = 0) ∨
    ∃ pre row post, rows = pre ++ row :: post ∧ m = bucketOf row ∧ countOf row ≠ 0 ∧
      ∀ row' ∈ post, countOf row' = 0

/-- The rows that the tools write for a histogram. -/
theorem decode_ofFn {n : Nat} (g : Fin n → UInt64) :
    decode (csvText (rowsOf inlineRange (List.ofFn g))) =
      List.ofFn fun b =>
        [b.val, (inlineRange b).1.toNat, (inlineRange b).2.toNat, (g b).toNat] := by
  rw [decode_csvText, rowsOf, List.map_map]
  apply List.ext_getElem
  · simp
  · intro i _ _
    simp [CsvRow.fields]

theorem map_countOf_ofFn {n : Nat} (g : Fin n → UInt64) :
    (decode (csvText (rowsOf inlineRange (List.ofFn g)))).map countOf =
      (List.ofFn g).map UInt64.toNat := by
  rw [decode_ofFn, List.map_ofFn, List.map_ofFn]
  rfl

theorem totalOf_ofFn {n : Nat} (g : Fin n → UInt64) :
    totalOf (decode (csvText (rowsOf inlineRange (List.ofFn g)))) =
      (wordSum (List.ofFn g)).toNat := by
  rw [totalOf, map_countOf_ofFn, wordSum_eq, UInt64.toNat_ofNat']

/-- The tail of the summary is that of the rows. -/
theorem tailOf_ofFn (g : Fin Runqlat.maxSlots → UInt64) (t : UInt64) :
    tailOf (decode (csvText (rowsOf inlineRange (List.ofFn g)))) t.toNat =
      (Runqlat.sumTail (List.ofFn g) t).toNat := by
  have hrows : (decode (csvText (rowsOf inlineRange (List.ofFn g)))).map
        (fun row => if t.toNat ≤ loOf row then countOf row else 0) =
      List.ofFn fun b : Fin Runqlat.maxSlots =>
        if Runqlat.startBucket t ≤ b.val then (g b).toNat else 0 := by
    rw [decode_ofFn, List.map_ofFn]
    congr 1
    funext b
    have hlo : (inlineRange b).1.toNat = 2 ^ b.val := toNat_shl_one b.isLt
    show (if t.toNat ≤ (inlineRange b).1.toNat then (g b).toNat else 0) = _
    rw [hlo]
    simp only [Runqlat.startBucket_le_iff t b.isLt]
  have hdrop : ((List.ofFn g).drop (Runqlat.startBucket t)).map UInt64.toNat =
      (List.ofFn fun b => (g b).toNat).drop (Runqlat.startBucket t) := by
    rw [List.map_drop, List.map_ofFn]
    rfl
  rw [tailOf, hrows, List.sum_ofFn, Runqlat.sumTail, wordSum_eq, UInt64.toNat_ofNat', hdrop,
    sum_drop_ofFn]

/-- And so is the last bucket. -/
theorem isMaxBucket_ofFn (g : Fin Runqlat.maxSlots → UInt64) :
    IsMaxBucket (decode (csvText (rowsOf inlineRange (List.ofFn g))))
      (Runqlat.maxBucket (List.ofFn g)) := by
  rw [decode_ofFn]
  rcases Runqlat.maxBucket_cases g with ⟨hmax, hempty⟩ | ⟨b, hmax, hb, hlast⟩
  · refine .inl ⟨hmax, fun row hrow => ?_⟩
    obtain ⟨b, rfl⟩ := List.mem_ofFn.mp hrow
    show (g b).toNat = 0
    rw [hempty b, UInt64.toNat_zero]
  · right
    set rows := List.ofFn fun b : Fin Runqlat.maxSlots =>
      [b.val, (inlineRange b).1.toNat, (inlineRange b).2.toNat, (g b).toNat] with hrows
    have hlength : rows.length = Runqlat.maxSlots := by rw [hrows, List.length_ofFn]
    have hlt : b.val < rows.length := by rw [hlength]; exact b.isLt
    have hrow : rows[b.val] =
        [b.val, (inlineRange b).1.toNat, (inlineRange b).2.toNat, (g b).toNat] := by
      simp [hrows]
    refine ⟨rows.take b.val, rows[b.val], rows.drop (b.val + 1), ?_, ?_, ?_, ?_⟩
    · rw [← List.drop_eq_getElem_cons hlt, List.take_append_drop]
    · rw [hrow]
      exact hmax
    · rw [hrow]
      show (g b).toNat ≠ 0
      intro hzero
      exact hb (UInt64.toNat_inj.mp hzero)
    · intro row' hrow'
      obtain ⟨i, hi, rfl⟩ := List.mem_iff_getElem.mp hrow'
      rw [List.length_drop] at hi
      have hi' : b.val + 1 + i < Runqlat.maxSlots := by omega
      have hzero := hlast ⟨b.val + 1 + i, hi'⟩ (Fin.mk_lt_mk.mpr (by omega) : b < _)
      rw [List.getElem_drop]
      show (rows[b.val + 1 + i]).getD 3 0 = 0
      simp [hrows, hzero]

/-! ## Figures of a summary -/

/-- The text is one object, with the property. -/
def ReadsTo (json : List Char) (R : Object (List Char) → Prop) : Prop :=
  ∃ ms, readObject json = some ms ∧ R ms

structure Memlat.Agrees (rows : List (List Nat)) (ms : Object (List Char)) : Prop where
  total : natUnder ms "total" = some (totalOf rows)

structure Runqlat.Agrees (rows : List (List Nat)) (ms : Object (List Char)) : Prop where
  total : natUnder ms "total_events" = some (totalOf rows)
  tail : ∃ t, natUnder ms "tail_threshold_us" = some t ∧
    natUnder ms "tail_events" = some (tailOf rows t)
  maxBucket : ∃ m, intUnder ms "max_bucket" = some m ∧ IsMaxBucket rows m

/-- `out` is the path, or, if that is not UTF-8, a longer one. -/
structure Iolat.Agrees (path : GoString) (rows : List (List Nat)) (ms : Object (List Char)) :
    Prop where
  total : natUnder ms "total" = some (totalOf rows)
  out : ∃ s, textUnder ms "out" = some s ∧
    (Utf8.encode s = path ↔ ∃ cs, Utf8.encode cs = path) ∧
    (Utf8.encode s ≠ path ↔ path.length < (Utf8.encode s).length)

theorem Memlat.readsTo_members (s : Memlat.Summary) {rows : List (List Nat)}
    (htotal : s.total.toNat = totalOf rows) :
    ReadsTo (marshalIndent s.members) (Memlat.Agrees rows) := by
  refine ⟨_, readObject_marshalIndent _, ⟨?_⟩⟩
  rw [← htotal]
  show some (natToken s.total.toNat).toNat = _
  rw [toNat_natToken]

theorem Runqlat.readsTo_members (s : Runqlat.Summary) {rows : List (List Nat)}
    (htotal : s.totalEvents.toNat = totalOf rows)
    (htail : s.tailEvents.toNat = tailOf rows s.tailThresholdUs.toNat)
    (hmax : IsMaxBucket rows s.maxBucket) :
    ReadsTo (marshalIndent s.members) (Runqlat.Agrees rows) := by
  refine ⟨_, readObject_marshalIndent _,
    ⟨?_, ⟨s.tailThresholdUs.toNat, ?_, ?_⟩, ⟨s.maxBucket, ?_, hmax⟩⟩⟩
  · rw [← htotal]
    show some (natToken s.totalEvents.toNat).toNat = _
    rw [toNat_natToken]
  · show some (natToken s.tailThresholdUs.toNat).toNat = _
    rw [toNat_natToken]
  · rw [← htail]
    show some (natToken s.tailEvents.toNat).toNat = _
    rw [toNat_natToken]
  · show some (intToken s.maxBucket).toInt = _
    rw [toInt_intToken]

theorem Iolat.readsTo_members (s : Iolat.Summary) (durationSec : Token)
    (generatedAt : GoString) {path : GoString} (hpath : path ≠ []) {rows : List (List Nat)}
    (htotal : s.total.toNat = totalOf rows) :
    ReadsTo (marshalIndent (s.members durationSec generatedAt path)) (Iolat.Agrees path rows) := by
  refine ⟨_, readObject_marshalIndent _, ⟨?_, toText (Utf8.runes path), ?_,
    Utf8.encode_toText_runes_iff path, Utf8.encode_toText_runes_ne_iff path⟩⟩
  · rw [← htotal]
    show some (natToken s.total.toNat).toNat = _
    rw [toNat_natToken]
  · rw [Iolat.Summary.members, if_neg hpath]
    rfl

/-- The file holds an object exactly when nothing of its text is missing, and
then it is one with the property. -/
structure SummaryFile.Tells {S : Type} (file : SummaryFile S) (members : S → Object Runes)
    (R : Object (List Char) → Prop) : Prop where
  told : ∀ ms, Utf8.readObject (file.bytes members) = some ms → R ms
  reads_iff : (∃ ms, Utf8.readObject (file.bytes members) = some ms) ↔
    file.bytes members = Utf8.encode (marshalIndent (members file.sum))
  whole : file.keeps = none →
    file.bytes members = Utf8.encode (marshalIndent (members file.sum))

theorem SummaryFile.bytes_isPrefix {S : Type} (file : SummaryFile S)
    (members : S → Object Runes) :
    file.bytes members <+: Utf8.encode (marshalIndent (members file.sum)) := by
  unfold SummaryFile.bytes
  cases file.keeps with
  | none => exact List.prefix_refl _
  | some n => exact List.take_prefix n _

/-- What the whole text says, a file that is not whole does not contradict. -/
theorem ReadsTo.tells {S : Type} {file : SummaryFile S} {members : S → Object Runes}
    {R : Object (List Char) → Prop} (h : ReadsTo (marshalIndent (members file.sum)) R) :
    file.Tells members R := by
  obtain ⟨ms, hms, hR⟩ := h
  have hread : ∀ ms', Utf8.readObject (file.bytes members) = some ms' →
      file.bytes members = Utf8.encode (marshalIndent (members file.sum)) :=
    fun ms' h' => Utf8.eq_of_readObject_isPrefix h' (file.bytes_isPrefix members)
  refine ⟨?_, ?_, ?_⟩
  · intro ms' h'
    rw [hread ms' h', Utf8.readObject_encode, hms] at h'
    rwa [← Option.some.inj h']
  · constructor
    · rintro ⟨ms', h'⟩
      exact hread ms' h'
    · intro hwhole
      exact ⟨ms, by rw [hwhole, Utf8.readObject_encode, hms]⟩
  · intro hkeeps
    unfold SummaryFile.bytes
    rw [hkeeps]

/-! ## Runs that leave a whole CSV -/

/-- The CSV was made, and has a line for each of the `slots` buckets and one for
the header. -/
structure WholeCsv {S : Type} (x : Exit S) (slots : Nat) (path : GoString) (text : List Char) :
    Prop where
  csv : x.csv = some (path, text)
  lines : text.count '\n' = slots + 1

/-- A run that ended early has no CSV. -/
theorem not_wholeCsv_of_fatal {S : Type} {err : Option String} {slots : Nat} {path : GoString}
    {text : List Char} : ¬ WholeCsv ({ fatal := err } : Exit S) slots path text := by
  intro h
  exact absurd h.csv.symm (Option.some_ne_none _)

/-- The files are those that were passed to `saveBoth`. -/
theorem WholeCsv.of_saveBoth {S : Type} {csvPath summaryPath : GoString}
    {csv : Except String (List Char)} {json : WriteFile} {csvMsg jsonMsg : String} {s : S}
    {slots : Nat} {path : GoString} {text : List Char}
    (h : WholeCsv (saveBoth csvPath summaryPath csv json csvMsg jsonMsg s) slots path text) :
    csv = .ok text ∧ path = csvPath ∧ ∀ file,
      (saveBoth csvPath summaryPath csv json csvMsg jsonMsg s).summary = some file →
        file.sum = s := by
  obtain ⟨hcsv, -⟩ := h
  cases csv with
  | error err => simp [saveBoth] at hcsv
  | ok t =>
      cases json <;> simp only [saveBoth, Option.some.injEq, Prod.mk.injEq] at hcsv ⊢ <;>
        obtain ⟨rfl, rfl⟩ := hcsv <;> simp

/-- A table with every line is that of its counts. -/
theorem WholeCsv.text_eq {S : Type} {x : Exit S} {n : Nat} {path : GoString} {text : List Char}
    (h : WholeCsv x n path text) {fs : Files} {g : Fin n → UInt64}
    (hwrite : writeRows fs path (rowsOf inlineRange (List.ofFn g)) = .ok text) :
    text = csvText (rowsOf inlineRange (List.ofFn g)) := by
  have hlines : HasEveryLine text (List.ofFn g) := by
    rw [HasEveryLine, List.length_ofFn, h.lines]
  exact ((toldByLines_writeRows fs path inlineRange (List.ofFn g) text hwrite).2).mp hlines

/-! ### memlat -/

namespace Memlat

variable {fs : Files} {out path : GoString} {g : Fin maxSlots → UInt64} {text : List Char}
  {s : Summary} {file : SummaryFile Summary}

/-- What the block `if out != ""` leaves, when its CSV is whole. -/
theorem of_save (h : WholeCsv (save fs out (List.ofFn g) s) maxSlots path text) :
    text = csvText (rowsOf inlineRange (List.ofFn g)) ∧
      ∀ file, (save fs out (List.ofFn g) s).summary = some file → file.sum = s := by
  by_cases hout : out = []
  · simp only [save, if_pos hout] at h
    exact absurd h not_wholeCsv_of_fatal
  · simp only [save, if_neg hout] at h ⊢
    cases hmkdir : fs.mkdirAll (csvPath out) with
    | some err =>
        simp only [hmkdir] at h
        exact absurd h not_wholeCsv_of_fatal
    | none =>
        simp only [hmkdir] at h
        obtain ⟨hcsv, rfl, hsum⟩ := h.of_saveBoth
        exact ⟨h.text_eq hcsv, hsum⟩

theorem agree_of_save {durationSec : Nat}
    (h : WholeCsv (save fs out (List.ofFn g) (summary durationSec (wordSum (List.ofFn g))))
      maxSlots path text)
    (hfile : (save fs out (List.ofFn g) (summary durationSec (wordSum (List.ofFn g)))).summary =
      some file) : ReadsTo (marshalIndent file.sum.members) (Agrees (decode text)) := by
  obtain ⟨rfl, hsum⟩ := of_save h
  rw [hsum file hfile]
  apply readsTo_members
  rw [totalOf_ofFn]
  rfl

theorem files_agree {durationSec : Nat} {lookup : UInt32 → Except String UInt64}
    (h : WholeCsv (main fs durationSec out lookup) maxSlots path text)
    (hfile : (main fs durationSec out lookup).summary = some file) :
    ReadsTo (marshalIndent file.sum.members) (Agrees (decode text)) := by
  obtain ⟨g, hg⟩ := exists_readsOrFails (n := maxSlots) lookup
  rcases hg.readsAs_or_firstFailure with hreads | ⟨i, err, hi, hfirst⟩
  · rw [main, readHist_ok hreads] at h hfile
    exact agree_of_save h hfile
  · rw [main, readHist_error hi hfirst] at h
    exact absurd h not_wholeCsv_of_fatal

end Memlat

/-! ### runqlat -/

namespace Runqlat

variable {fs : Files} {out path : GoString} {g : Fin maxSlots → UInt64} {text : List Char}
  {s : Summary} {file : SummaryFile Summary}

theorem of_save (h : WholeCsv (save fs out (List.ofFn g) s) maxSlots path text) :
    text = csvText (rowsOf inlineRange (List.ofFn g)) ∧
      ∀ file, (save fs out (List.ofFn g) s).summary = some file → file.sum = s := by
  by_cases hout : out = []
  · simp only [save, if_pos hout] at h
    exact absurd h not_wholeCsv_of_fatal
  · simp only [save, if_neg hout] at h ⊢
    cases hmkdir : fs.mkdirAll (normalizeCSVPath out) with
    | some err =>
        simp only [hmkdir] at h
        exact absurd h not_wholeCsv_of_fatal
    | none =>
        simp only [hmkdir] at h
        obtain ⟨hcsv, rfl, hsum⟩ := h.of_saveBoth
        exact ⟨h.text_eq hcsv, hsum⟩

theorem agree_of_save {durationSec : Nat}
    (h : WholeCsv (save fs out (List.ofFn g)
      (summary durationSec (List.ofFn g) (wordSum (List.ofFn g)))) maxSlots path text)
    (hfile : (save fs out (List.ofFn g)
      (summary durationSec (List.ofFn g) (wordSum (List.ofFn g)))).summary = some file) :
    ReadsTo (marshalIndent file.sum.members) (Agrees (decode text)) := by
  obtain ⟨rfl, hsum⟩ := of_save h
  rw [hsum file hfile]
  apply readsTo_members
  · rw [totalOf_ofFn]
    rfl
  · rw [tailOf_ofFn]
    rfl
  · exact isMaxBucket_ofFn g

/-- A lookup that fails changes what is in the files, but in both. -/
theorem files_agree {durationSec : Nat} {lookup : UInt32 → Except String (List UInt64)}
    (h : WholeCsv (main fs durationSec out lookup) maxSlots path text)
    (hfile : (main fs durationSec out lookup).summary = some file) :
    ReadsTo (marshalIndent file.sum.members) (Agrees (decode text)) := by
  rw [main_eq, readHist_eq] at h hfile
  exact agree_of_save h hfile

end Runqlat

/-! ### iolat -/

namespace Iolat

variable {fs : Files} {out path : GoString} {g : Fin maxSlots → UInt64} {text : List Char}
  {s : Summary} {file : SummaryFile Summary}

theorem of_save (h : WholeCsv (save fs out (List.ofFn g) s) maxSlots path text) :
    text = csvText (rowsOf inlineRange (List.ofFn g)) ∧ path ≠ [] ∧
      ∀ file, (save fs out (List.ofFn g) s).summary = some file → file.sum = s := by
  by_cases hpath : (normalizeOut out).1 = []
  · simp only [save, if_pos hpath] at h
    exact absurd h not_wholeCsv_of_fatal
  · simp only [save, if_neg hpath] at h ⊢
    obtain ⟨hcsv, rfl, hsum⟩ := h.of_saveBoth
    cases hmkdir : fs.mkdirAll (normalizeOut out).1 with
    | some err => simp [writeCSVTo, hmkdir] at hcsv
    | none =>
        simp only [writeCSVTo, hmkdir] at hcsv
        exact ⟨h.text_eq hcsv, hpath, hsum⟩

theorem agree_of_save {json : String}
    (h : WholeCsv (save fs out (List.ofFn g) (summary (wordSum (List.ofFn g)) json)) maxSlots
      path text)
    (hfile : (save fs out (List.ofFn g) (summary (wordSum (List.ofFn g)) json)).summary =
      some file) (durationSec : Token) (generatedAt : GoString) :
    ReadsTo (marshalIndent (file.sum.members durationSec generatedAt path))
      (Agrees path (decode text)) := by
  obtain ⟨rfl, hpath, hsum⟩ := of_save h
  rw [hsum file hfile]
  apply readsTo_members _ durationSec generatedAt hpath
  rw [totalOf_ofFn]
  rfl

theorem files_agree {json : GoString → String} {lookup : UInt32 → Except String UInt64}
    (h : WholeCsv (main fs json out lookup) maxSlots path text)
    (hfile : (main fs json out lookup).summary = some file) (durationSec : Token)
    (generatedAt : GoString) :
    ReadsTo (marshalIndent (file.sum.members durationSec generatedAt path))
      (Agrees path (decode text)) := by
  obtain ⟨g, hg⟩ := exists_readsOrFails (n := maxSlots) lookup
  rcases hg.readsAs_or_firstFailure with hreads | ⟨i, err, hi, hfirst⟩
  · rw [main, readCounts_ok hreads] at h hfile
    simp only [sumCounts_ofFn] at h hfile
    exact agree_of_save h hfile durationSec generatedAt
  · rw [main, readCounts_error hi hfirst] at h
    exact absurd h not_wholeCsv_of_fatal

end Iolat

/-! ### The three tools -/

/-- Whatever lookups and writes fail, for each tool: if a run leaves both files
and the CSV has every line, the summary file holds an object only if nothing of
it is missing, and then its figures are those of the rows of the CSV; iolat's
also names the CSV, and by its name exactly when that is UTF-8. -/
theorem saved_files_agree (fs : Files) (durationSec : Nat) (out path : GoString)
    (text : List Char) :
    (∀ lookup file, WholeCsv (Memlat.main fs durationSec out lookup) Memlat.maxSlots path text →
      (Memlat.main fs durationSec out lookup).summary = some file →
      file.Tells Memlat.Summary.members (Memlat.Agrees (decode text))) ∧
    (∀ lookup file,
      WholeCsv (Runqlat.main fs durationSec out lookup) Runqlat.maxSlots path text →
      (Runqlat.main fs durationSec out lookup).summary = some file →
      file.Tells Runqlat.Summary.members (Runqlat.Agrees (decode text))) ∧
    (∀ lookup json file, WholeCsv (Iolat.main fs json out lookup) Iolat.maxSlots path text →
      (Iolat.main fs json out lookup).summary = some file →
      ∀ durationSec generatedAt,
        file.Tells (fun s => s.members durationSec generatedAt path)
          (Iolat.Agrees path (decode text))) :=
  ⟨fun _ _ h hfile => (Memlat.files_agree h hfile).tells,
    fun _ _ h hfile => (Runqlat.files_agree h hfile).tells,
    fun _ _ _ h hfile durationSec generatedAt =>
      (Iolat.files_agree h hfile durationSec generatedAt).tells⟩

/-! ## When nothing fails -/

/-- Nothing fails, and every write takes a line of 100 characters. -/
structure AllSucceed (fs : Files) : Prop where
  mkdirAll : ∀ path, fs.mkdirAll path = none
  create : ∀ path, fs.create path = none
  takes : ∀ i, 100 ≤ fs.takes i
  close : fs.closeKeeps = none
  writeFile : ∀ path, fs.writeFile path = .whole

theorem length_decimal_le (n : UInt64) : (decimal n.toNat).length ≤ 20 := by
  have hn : n.toNat < 10 ^ 20 := n.toNat_lt.trans (by decide)
  exact (Nat.length_toDigits_le_iff (by decide) (by decide)).mpr hn

/-- No line of a CSV is longer than 100 characters. -/
theorem length_line_le {r : CsvRow} (h : r.bucket < 2 ^ 64) :
    (r.line ++ ['\n']).length ≤ 100 := by
  have hbucket := length_decimal_le (UInt64.ofNat r.bucket)
  rw [UInt64.toNat_ofNat', Nat.mod_eq_of_lt h] at hbucket
  have hlo := length_decimal_le r.loUs
  have hhi := length_decimal_le r.hiUs
  have hcount := length_decimal_le r.count
  have hline : r.line.length = (decimal r.bucket).length + (decimal r.loUs.toNat).length +
      (decimal r.hiUs.toNat).length + (decimal r.count.toNat).length + 3 := by
    simp only [CsvRow.line, CsvRow.fields, joinDecimals, List.map_cons, List.map_nil,
      List.intercalate_cons_cons, List.intercalate_singleton, List.length_append,
      List.length_singleton]
    omega
  rw [List.length_append, List.length_singleton, hline]
  omega

theorem AllSucceed.takesAll {fs : Files} (h : AllSucceed fs) {i : Nat} {lines : List (List Char)}
    (hlines : ∀ line ∈ lines, line.length ≤ 100) : TakesAll fs i lines := by
  induction lines generalizing i with
  | nil => trivial
  | cons line lines ih =>
      exact ⟨(hlines line List.mem_cons_self).trans (h.takes i),
        ih fun l hl => hlines l (List.mem_cons_of_mem line hl)⟩

/-- The whole table is written, to any path. -/
theorem AllSucceed.writeRows {fs : Files} (h : AllSucceed fs) (path : GoString) {n : Nat}
    (hn : n ≤ 2 ^ 64) (g : Fin n → UInt64) :
    writeRows fs path (rowsOf inlineRange (List.ofFn g)) =
      .ok (csvText (rowsOf inlineRange (List.ofFn g))) := by
  have hlines : ∀ line ∈ csvLines (rowsOf inlineRange (List.ofFn g)), line.length ≤ 100 := by
    intro line hline
    obtain ⟨line, hmem, rfl⟩ := List.mem_map.mp hline
    rcases List.mem_cons.mp hmem with rfl | hrow
    · decide
    · obtain ⟨r, hr, rfl⟩ := List.mem_map.mp hrow
      obtain ⟨b, rfl⟩ := mem_rowsOf.mp hr
      exact length_line_le (b.isLt.trans_le hn)
  have hintact : Intact fs (rowsOf inlineRange (List.ofFn g)) :=
    ⟨h.takesAll hlines, fun n hclose => by rw [h.close] at hclose; contradiction⟩
  cases hwrite : EbpfToy.writeRows fs path (rowsOf inlineRange (List.ofFn g)) with
  | error err => simp [EbpfToy.writeRows, h.create] at hwrite
  | ok text => rw [(writeRows_eq_iff fs path _).mpr (fun _ => hintact) text hwrite]

/-- The exit of a run that saved the counts `g`. -/
def savedExit {S : Type} {n : Nat} (csvPath summaryPath : GoString) (g : Fin n → UInt64)
    (sum : S) : Exit S where
  csv := some (csvPath, csvText (rowsOf inlineRange (List.ofFn g)))
  summary := some ⟨summaryPath, sum, none⟩

/-- It leaves a whole CSV and a whole summary. -/
theorem saved_of_eq_savedExit {S : Type} {n : Nat} {x : Exit S}
    {csvPath summaryPath : GoString} {g : Fin n → UInt64} {sum : S}
    (h : x = savedExit csvPath summaryPath g sum) :
    WholeCsv x n csvPath (csvText (rowsOf inlineRange (List.ofFn g))) ∧
      x.summary = some ⟨summaryPath, sum, none⟩ := by
  subst h
  refine ⟨⟨rfl, ?_⟩, rfl⟩
  rw [count_csvText, length_rowsOf, List.length_ofFn]

theorem Memlat.save_eq {fs : Files} (h : AllSucceed fs) {out : GoString} (hout : out ≠ [])
    (g : Fin maxSlots → UInt64) (s : Memlat.Summary) :
    save fs out (List.ofFn g) s = savedExit (csvPath out) (summaryPath out) g s := by
  have hwrite : saveCSVTo fs (csvPath out) (List.ofFn g) =
      .ok (csvText (rowsOf inlineRange (List.ofFn g))) := h.writeRows (csvPath out) (by decide) g
  rw [save, if_neg hout, h.mkdirAll, hwrite, h.writeFile]
  rfl

theorem Runqlat.save_eq {fs : Files} (h : AllSucceed fs) {out : GoString} (hout : out ≠ [])
    (g : Fin maxSlots → UInt64) (s : Runqlat.Summary) :
    save fs out (List.ofFn g) s =
      savedExit (normalizeCSVPath out) (summaryPath (normalizeCSVPath out)) g s := by
  have hwrite : saveCSVTo fs (normalizeCSVPath out) (List.ofFn g) =
      .ok (csvText (rowsOf inlineRange (List.ofFn g))) :=
    h.writeRows (normalizeCSVPath out) (by decide) g
  simp only [save, if_neg hout, h.mkdirAll, hwrite, h.writeFile]
  rfl

theorem Iolat.save_eq {fs : Files} (h : AllSucceed fs) {out : GoString}
    (hpath : (normalizeOut out).1 ≠ []) (g : Fin maxSlots → UInt64) (s : Iolat.Summary) :
    save fs out (List.ofFn g) s = savedExit (normalizeOut out).1 (normalizeOut out).2 g s := by
  have hwrite : writeCSVTo fs (normalizeOut out).1 (List.ofFn g) =
      .ok (csvText (rowsOf inlineRange (List.ofFn g))) := by
    rw [writeCSVTo, h.mkdirAll]
    exact h.writeRows (normalizeOut out).1 (by decide) g
  simp only [save, if_neg hpath, hwrite, writeSummary, h.mkdirAll, h.writeFile]
  rfl

theorem Memlat.main_of_reads {fs : Files} (h : AllSucceed fs) (durationSec : Nat)
    {out : GoString} (hout : out ≠ []) {lookup : UInt32 → Except String UInt64}
    {g : Fin maxSlots → UInt64} (hg : ReadsAs lookup g) :
    main fs durationSec out lookup = savedExit (csvPath out) (summaryPath out) g
      (summary durationSec (wordSum (List.ofFn g))) := by
  rw [main, readHist_ok hg]
  exact save_eq h hout g _

/-- runqlat does not need the lookups to succeed. -/
theorem Runqlat.main_of_allSucceed {fs : Files} (h : AllSucceed fs) (durationSec : Nat)
    {out : GoString} (hout : out ≠ []) (lookup : UInt32 → Except String (List UInt64)) :
    main fs durationSec out lookup = savedExit (normalizeCSVPath out)
      (summaryPath (normalizeCSVPath out)) (bucketRead lookup)
      (summary durationSec (List.ofFn (bucketRead lookup))
        (wordSum (List.ofFn (bucketRead lookup)))) := by
  rw [main_eq, readHist_eq]
  exact save_eq h hout _ _

theorem Iolat.main_of_reads {fs : Files} (h : AllSucceed fs) (json : GoString → String)
    {out : GoString} (hpath : (normalizeOut out).1 ≠ []) {lookup : UInt32 → Except String UInt64}
    {g : Fin maxSlots → UInt64} (hg : ReadsAs lookup g) :
    main fs json out lookup = savedExit (normalizeOut out).1 (normalizeOut out).2 g
      (summary (sumCounts (List.ofFn g)) (json (normalizeOut out).1)) := by
  rw [main, readCounts_ok hg]
  exact save_eq h hpath g _

theorem allSucceed_allWell : AllSucceed (allWell 100) :=
  ⟨fun _ => rfl, fun _ => rfl, fun _ => Nat.le_refl _, rfl, fun _ => rfl⟩

/-- A map in which every bucket holds `v`. -/
def holds {A : Type} (v : A) (_ : UInt32) : Except String A := .ok v

theorem readsAs_holds {A : Type} {n : Nat} (v : A) : ReadsAs (holds v) fun _ : Fin n => v :=
  fun _ => rfl

/-- A run of each tool over a map of sevens, with all of its output on disk. -/
theorem saved_files_agree_sevens :
    (∃ text, WholeCsv (Memlat.main (allWell 100) 10 dotCsv (holds 7)) Memlat.maxSlots dotCsv text ∧
      ∃ file : SummaryFile Memlat.Summary, file.keeps = none ∧
        file.Tells Memlat.Summary.members (Memlat.Agrees (decode text))) ∧
    (∃ text, WholeCsv (Runqlat.main (allWell 100) 10 dotCsv (holds [3, 4])) Runqlat.maxSlots dotCsv
        text ∧
      ∃ file : SummaryFile Runqlat.Summary, file.keeps = none ∧
        file.Tells Runqlat.Summary.members (Runqlat.Agrees (decode text))) ∧
    ∃ text, WholeCsv (Iolat.main (allWell 100) (fun _ => "") dotCsv (holds 7)) Iolat.maxSlots dotCsv
        text ∧
      ∃ file : SummaryFile Iolat.Summary, file.keeps = none ∧
        file.Tells (fun s => s.members (natToken 10) (literal "2026-01-05T10:00:00Z") dotCsv)
          (Iolat.Agrees dotCsv (decode text)) := by
  have hout : dotCsv ≠ [] := by decide
  have hpath : (Iolat.normalizeOut dotCsv).1 ≠ [] := by decide
  obtain ⟨hm, hm'⟩ := saved_of_eq_savedExit
    (Memlat.main_of_reads allSucceed_allWell 10 hout (readsAs_holds 7))
  obtain ⟨hr, hr'⟩ := saved_of_eq_savedExit
    (Runqlat.main_of_allSucceed allSucceed_allWell 10 hout (holds [3, 4]))
  obtain ⟨hi, hi'⟩ := saved_of_eq_savedExit
    (Iolat.main_of_reads allSucceed_allWell (fun _ => "") hpath (readsAs_holds 7))
  exact ⟨⟨_, hm, _, rfl, (saved_files_agree _ 10 dotCsv dotCsv _).1 _ _ hm hm'⟩,
    ⟨_, hr, _, rfl, (saved_files_agree _ 10 dotCsv dotCsv _).2.1 _ _ hr hr'⟩,
    ⟨_, hi, _, rfl, (saved_files_agree _ 10 dotCsv dotCsv _).2.2 _ _ _ hi hi' _ _⟩⟩

end EbpfToy
