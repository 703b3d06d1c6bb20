import EbpfToy.Go.Save

/-!
# The output paths

runqlat and iolat derive the same two paths from `-out`: the flag without a
`.csv` at its end, with `.csv` and with `.summary.json`. So the paths of two
flags coincide or are all different, and a CSV never has the path of a summary.
-/

namespace EbpfToy

open Lib

/-- The paths of the two files runqlat writes for `out`. -/
def Runqlat.outputs (out : GoString) : List GoString :=
  [normalizeCSVPath out, summaryPath (normalizeCSVPath out)]

/-- The paths of the two files iolat writes for `out`. -/
def Iolat.outputs (out : GoString) : List GoString :=
  [(normalizeOut out).1, (normalizeOut out).2]

/-- The flag without the suffix that a CSV path has. -/
def stem (out : GoString) : GoString := trimSuffix out dotCsv

/-- A flag is its stem, or its stem with the suffix. -/
theorem eq_stem_or (out : GoString) : out = stem out ∨ out = stem out ++ dotCsv := by
  by_cases h : hasSuffix out dotCsv = true
  · exact .inr (trimSuffix_append_of_hasSuffix h).symm
  · exact .inl (trimSuffix_of_not h).symm

@[simp] theorem stem_append (s : GoString) : stem (s ++ dotCsv) = s := trimSuffix_append s dotCsv

theorem append_dotCsv_ne_nil (s : GoString) : s ++ dotCsv ≠ [] := by
  intro h
  exact absurd (List.append_eq_nil_iff.mp h).2 (by decide)

/-- The CSV path is the stem with the suffix. -/
theorem Runqlat.normalizeCSVPath_eq {out : GoString} (hout : out ≠ []) :
    normalizeCSVPath out = stem out ++ dotCsv := by
  rw [normalizeCSVPath, if_neg hout]
  by_cases h : hasSuffix out dotCsv = true
  · rw [if_pos h, stem, trimSuffix_append_of_hasSuffix h]
  · rw [if_neg h, stem, trimSuffix_of_not h]

/-- The summary path is the stem with the other suffix. -/
theorem Runqlat.summaryPath_append (s : GoString) :
    summaryPath (s ++ dotCsv) = s ++ dotSummaryJson := by
  rw [summaryPath, trimSuffix_append]

/-- iolat's one function is runqlat's two. -/
theorem Iolat.normalizeOut_eq (out : GoString) (hout : out ≠ []) :
    normalizeOut out =
      (Runqlat.normalizeCSVPath out, Runqlat.summaryPath (Runqlat.normalizeCSVPath out)) := by
  rw [normalizeOut, if_neg hout, Runqlat.normalizeCSVPath, if_neg hout, Runqlat.summaryPath]

theorem outputs_eq {out : GoString} (hout : out ≠ []) :
    Runqlat.outputs out = [stem out ++ dotCsv, stem out ++ dotSummaryJson] := by
  rw [Runqlat.outputs, Runqlat.normalizeCSVPath_eq hout, Runqlat.summaryPath_append]

/-- A CSV path and a summary path end in different letters. -/
theorem append_dotCsv_ne (s t : GoString) : s ++ dotCsv ≠ t ++ dotSummaryJson := by
  intro h
  have hcsv : dotCsv.getLast? = some 0x76 := rfl
  have hjson : dotSummaryJson.getLast? = some 0x6e := rfl
  have hlast := congrArg List.getLast? h
  rw [List.getLast?_append, List.getLast?_append, hcsv, hjson, Option.some_or,
    Option.some_or] at hlast
  exact absurd hlast (by decide)

/-- Two flags that share a path have the same stem. -/
theorem stem_eq_of_mem_outputs {a b p : GoString} (ha : a ≠ []) (hb : b ≠ [])
    (hpa : p ∈ Runqlat.outputs a) (hpb : p ∈ Runqlat.outputs b) : stem a = stem b := by
  rw [outputs_eq ha] at hpa
  rw [outputs_eq hb] at hpb
  simp only [List.mem_cons, List.not_mem_nil, or_false] at hpa hpb
  rcases hpa with rfl | rfl
  · rcases hpb with heq | heq
    · exact List.append_cancel_right heq
    · exact absurd heq (append_dotCsv_ne _ _)
  · rcases hpb with heq | heq
    · exact absurd heq.symm (append_dotCsv_ne _ _)
    · exact List.append_cancel_right heq

/-- Flags with one stem differ by a suffix at most. -/
theorem eq_or_of_stem_eq {a b : GoString} (h : stem a = stem b) :
    a = b ∨ a = b ++ dotCsv ∨ b = a ++ dotCsv := by
  rcases eq_stem_or a with ha | ha
  · rcases eq_stem_or b with hb | hb
    · exact .inl (by rw [ha, hb, h])
    · right; right
      calc b = stem b ++ dotCsv := hb
        _ = a ++ dotCsv := by rw [← h, ← ha]
  · rcases eq_stem_or b with hb | hb
    · right; left
      calc a = stem a ++ dotCsv := ha
        _ = b ++ dotCsv := by rw [h, ← hb]
    · exact .inl (by rw [ha, hb, h])

/-! ## What is written -/

/-- The paths of the files that a run made. -/
def Exit.paths {S : Type} (x : Exit S) : List GoString :=
  (x.csv.map Prod.fst).toList ++ (x.summary.map SummaryFile.path).toList

theorem paths_saveBoth {S : Type} {csvPath summaryPath p : GoString}
    {csv : Except String (List Char)} {json : WriteFile} {csvMsg jsonMsg : String} {sum : S}
    (h : p ∈ (saveBoth csvPath summaryPath csv json csvMsg jsonMsg sum).paths) :
    p ∈ [csvPath, summaryPath] := by
  cases csv with
  | error err => simp [saveBoth, Exit.paths] at h
  | ok text => cases json <;> simp_all [saveBoth, Exit.paths]

/-- runqlat writes to no other paths. -/
theorem Runqlat.mem_outputs_of_save {fs : Files} {out p : GoString} {counts : List UInt64}
    {sum : Summary} (h : p ∈ (save fs out counts sum).paths) : p ∈ outputs out := by
  by_cases hout : out = []
  · simp [save, hout, Exit.paths] at h
  · cases hmkdir : fs.mkdirAll (normalizeCSVPath out) with
    | some err => simp [save, hout, hmkdir, Exit.paths] at h
    | none =>
        simp only [save, hout, if_false, hmkdir] at h
        exact paths_saveBoth h

/-- Nor does iolat. -/
theorem Iolat.mem_outputs_of_save {fs : Files} {out p : GoString} {counts : List UInt64}
    {sum : Summary} (h : p ∈ (save fs out counts sum).paths) : p ∈ outputs out := by
  by_cases hout : (normalizeOut out).1 = []
  · simp [save, hout, Exit.paths] at h
  · simp only [save, hout, if_false] at h
    exact paths_saveBoth h

/-- What the paths of one flag satisfy. -/
structure StablePaths (out : GoString) : Prop where
  same : Iolat.outputs out = Runqlat.outputs out
  /-- Normalising the CSV path again changes neither path. -/
  again : Runqlat.outputs (Runqlat.normalizeCSVPath out) = Runqlat.outputs out
  againIolat : Iolat.normalizeOut (Iolat.normalizeOut out).1 = Iolat.normalizeOut out
  ends : dotCsv <:+ Runqlat.normalizeCSVPath out
  kept : dotCsv <:+ out → Runqlat.normalizeCSVPath out = out
  gained : ¬ dotCsv <:+ out → Runqlat.normalizeCSVPath out = out ++ dotCsv

/-- Two flags that share a path have the same two paths and differ by a `.csv`
at most; the CSV of one is never the summary of the other. -/
structure ApartPaths (a b : GoString) : Prop where
  coincide : ∀ p, p ∈ Runqlat.outputs a → p ∈ Runqlat.outputs b →
    Runqlat.outputs a = Runqlat.outputs b ∧ (a = b ∨ a = b ++ dotCsv ∨ b = a ++ dotCsv)
  csv_ne_summary : Runqlat.normalizeCSVPath a ≠
    Runqlat.summaryPath (Runqlat.normalizeCSVPath b)

theorem stablePaths {out : GoString} (hout : out ≠ []) : StablePaths out where
  same := by rw [Iolat.outputs, Iolat.normalizeOut_eq out hout, Runqlat.outputs]
  again := by
    rw [outputs_eq hout, Runqlat.normalizeCSVPath_eq hout,
      outputs_eq (append_dotCsv_ne_nil _), stem_append]
  againIolat := by
    rw [Iolat.normalizeOut_eq out hout, Runqlat.normalizeCSVPath_eq hout,
      Iolat.normalizeOut_eq _ (append_dotCsv_ne_nil _),
      Runqlat.normalizeCSVPath_eq (append_dotCsv_ne_nil _), stem_append]
  ends := by
    rw [Runqlat.normalizeCSVPath_eq hout]
    exact List.suffix_append _ _
  kept := by
    intro h
    rw [Runqlat.normalizeCSVPath, if_neg hout, if_pos (hasSuffix_iff.mpr h)]
  gained := by
    intro h
    rw [Runqlat.normalizeCSVPath, if_neg hout, if_neg fun hs => h (hasSuffix_iff.mp hs)]

theorem apartPaths {a b : GoString} (ha : a ≠ []) (hb : b ≠ []) : ApartPaths a b where
  coincide := by
    intro p hpa hpb
    have hstem := stem_eq_of_mem_outputs ha hb hpa hpb
    refine ⟨?_, eq_or_of_stem_eq hstem⟩
    rw [outputs_eq ha, outputs_eq hb, hstem]
  csv_ne_summary := by
    rw [Runqlat.normalizeCSVPath_eq ha, Runqlat.normalizeCSVPath_eq hb,
      Runqlat.summaryPath_append]
    exact append_dotCsv_ne _ _

/-- `p` is the path of a file that runqlat or iolat wrote for `out`. -/
def Written (out p : GoString) : Prop :=
  (∃ fs counts sum, p ∈ (Runqlat.save fs out counts sum).paths) ∨
    ∃ fs counts sum, p ∈ (Iolat.save fs out counts sum).paths

theorem Written.mem_outputs {out p : GoString} (hout : out ≠ []) (h : Written out p) :
    p ∈ Runqlat.outputs out := by
  rcases h with ⟨fs, counts, sum, h⟩ | ⟨fs, counts, sum, h⟩
  · exact Runqlat.mem_outputs_of_save h
  · rw [← (stablePaths hout).same]
    exact Iolat.mem_outputs_of_save h

/-- Files that were written for two flags share a path only if the flags mean
the same two files. -/
theorem Written.outputs_eq {a b p : GoString} (ha : a ≠ []) (hb : b ≠ []) (hpa : Written a p)
    (hpb : Written b p) : Runqlat.outputs a = Runqlat.outputs b :=
  ((apartPaths ha hb).coincide p (hpa.mem_outputs ha) (hpb.mem_outputs hb)).1

/-- The paths of runqlat and iolat are stable, and collide only for flags that
mean the same two files. -/
theorem output_paths_stable_and_apart :
    (∀ out : GoString, out ≠ [] → StablePaths out) ∧
    ∀ a b : GoString, a ≠ [] → b ≠ [] → ApartPaths a b :=
  ⟨fun _ => stablePaths, fun _ _ => apartPaths⟩

/-- A flag that is a bare suffix, and one that has a suffix already twice. -/
theorem output_paths_stable_and_apart_bare :
    StablePaths dotCsv ∧ ApartPaths dotCsv (dotCsv ++ dotCsv) :=
  ⟨output_paths_stable_and_apart.1 dotCsv (by decide),
    output_paths_stable_and_apart.2 dotCsv (dotCsv ++ dotCsv) (by decide) (by decide)⟩

end EbpfToy
