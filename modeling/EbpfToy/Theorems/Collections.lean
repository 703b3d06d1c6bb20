import EbpfToy.Scripts.CollectAll
import EbpfToy.Theorems.OutputPaths
import EbpfToy.Theorems.SavedFiles

/-!
# What collections leave on the disk

A run of `collect_all.sh` that succeeds leaves three pairs of files, and a pair
whose CSV has all its lines agrees. No tool writes to a file of another, and no
run to a file of a run at another time: in the end all pairs of all runs that
succeeded are there, and nothing outside the run directories has changed.
-/

namespace EbpfToy.CollectAll

open Lib Json Paths

variable {cwd : Place}

/-! ## The arguments -/

inductive Flag where
  | duration
  | out
  deriving DecidableEq

def Flag.text : Flag → GoString
  | .duration => literal "--duration"
  | .out => literal "--out"

def Config.set (c : Config) : Flag × GoString → Config
  | (.duration, value) => { c with duration := value }
  | (.out, value) => { c with outdir := value }

/-- The arguments that give the options, in order. -/
def argsOf (options : List (Flag × GoString)) : List GoString :=
  options.flatMap fun o => [o.1.text, o.2]

theorem parse_argsOf (c : Config) (options : List (Flag × GoString)) :
    parse c (argsOf options) = some (options.foldl Config.set c) := by
  induction options generalizing c with
  | nil => rfl
  | cons o options ih =>
      obtain ⟨flag, value⟩ := o
      cases flag with
      | duration =>
          show parse c (literal "--duration" :: value :: argsOf options) = _
          rw [parse, if_pos rfl, ih]
          rfl
      | out =>
          have hne : literal "--out" ≠ literal "--duration" := by decide
          show parse c (literal "--out" :: value :: argsOf options) = _
          rw [parse, if_neg hne, if_pos rfl, ih]
          rfl

/-- The loop accepts options with their values and nothing else, and the last
value of each counts. -/
theorem parse_eq_some_iff (c c' : Config) (args : List GoString) :
    parse c args = some c' ↔
      ∃ options, args = argsOf options ∧ c' = options.foldl Config.set c := by
  constructor
  · intro h
    induction c, args using parse.induct with
    | case1 c => exact ⟨[], rfl, (Option.some.inj h).symm⟩
    | case2 c arg => contradiction
    | case3 c value rest ih =>
        rw [parse, if_pos rfl] at h
        obtain ⟨options, rfl, rfl⟩ := ih h
        exact ⟨(.duration, value) :: options, rfl, rfl⟩
    | case4 c value rest hne ih =>
        rw [parse, if_neg hne, if_pos rfl] at h
        obtain ⟨options, rfl, rfl⟩ := ih h
        exact ⟨(.out, value) :: options, rfl, rfl⟩
    | case5 c arg value rest hduration hout =>
        rw [parse, if_neg hduration, if_neg hout] at h
        contradiction
  · rintro ⟨options, rfl, rfl⟩
    exact parse_argsOf c options

/-! ## The paths -/

/-- A path in a directory. -/
def inDir (dir name : GoString) : GoString := dir ++ slash :: name

/-- The files of some names in a directory. -/
def FilesIn (cwd : Place) (dir : GoString) (names : List GoString) (file : Place) : Prop :=
  ∃ name ∈ names, file = resolve cwd (inDir dir name)

/-- The files of the three tools in a run directory. -/
def memlatNames : List GoString := [literal "memlat.csv", literal "memlat.csv.summary.json"]

def runqlatNames : List GoString := [literal "runqlat.csv", literal "runqlat.summary.json"]

def iolatNames : List GoString := [literal "iolat.csv", literal "iolat.summary.json"]

theorem isName_of_mem :
    ∀ name ∈ memlatNames ++ runqlatNames ++ iolatNames, IsName name := by decide

/-- Other names in a directory are other files. -/
theorem FilesIn.apart {dir : GoString} {names names' : List GoString} {file : Place}
    (hnames : ∀ name ∈ names, IsName name) (hnames' : ∀ name ∈ names', IsName name)
    (hdisjoint : ∀ name ∈ names, name ∉ names') (h : FilesIn cwd dir names file) :
    ¬ FilesIn cwd dir names' file := by
  rintro ⟨name', hmem', heq'⟩
  obtain ⟨name, hmem, rfl⟩ := h
  rw [inDir, inDir, resolve_append_name cwd dir (hnames name hmem),
    resolve_append_name cwd dir (hnames' name' hmem')] at heq'
  obtain ⟨-, hname⟩ := List.append_inj' heq' rfl
  exact hdisjoint name hmem (List.singleton_inj.mp hname ▸ hmem')

/-- Any names in directories of different tags are other files. -/
theorem FilesIn.apart_of_tag {c c' : Config} {tag tag' : GoString} (htag : IsName tag)
    (htag' : IsName tag') (hne : tag ≠ tag') {names names' : List GoString} {file : Place}
    (hnames : ∀ name ∈ names, IsName name) (hnames' : ∀ name ∈ names', IsName name)
    (h : FilesIn cwd (runDir c tag) names file) : ¬ FilesIn cwd (runDir c' tag') names' file := by
  have hdir : ∀ (c : Config) (tag name : GoString),
      inDir (runDir c tag) name = (c.outdir ++ slash :: tag) ++ slash :: name := by
    intro c tag name
    rw [inDir, runDir, List.append_assoc c.outdir]
    rfl
  rintro ⟨name', hmem', heq'⟩
  obtain ⟨name, hmem, rfl⟩ := h
  rw [hdir, hdir, resolve_append_names cwd _ htag (hnames name hmem),
    resolve_append_names cwd _ htag' (hnames' name' hmem')] at heq'
  obtain ⟨hdirs, -⟩ := List.append_inj' heq' rfl
  obtain ⟨-, htags⟩ := List.append_inj' hdirs rfl
  exact hne (List.singleton_inj.mp htags)

theorem normalizeCSVPath_append (s : GoString) :
    Runqlat.normalizeCSVPath (s ++ dotCsv) = s ++ dotCsv := by
  rw [Runqlat.normalizeCSVPath, if_neg (append_dotCsv_ne_nil s), if_pos (hasSuffix_append s dotCsv)]

/-- The paths that the script gives lead to files in the run directory. -/
theorem paths_memlat (dir : GoString) :
    Memlat.csvPath (dir ++ literal "/memlat.csv") = inDir dir (literal "memlat.csv") ∧
    Memlat.summaryPath (dir ++ literal "/memlat.csv") =
      inDir dir (literal "memlat.csv.summary.json") := by
  refine ⟨rfl, ?_⟩
  rw [Memlat.summaryPath, List.append_assoc]
  rfl

theorem paths_runqlat (dir : GoString) :
    Runqlat.normalizeCSVPath (dir ++ literal "/runqlat.csv") =
      inDir dir (literal "runqlat.csv") ∧
    Runqlat.summaryPath (Runqlat.normalizeCSVPath (dir ++ literal "/runqlat.csv")) =
      inDir dir (literal "runqlat.summary.json") := by
  have hout : dir ++ literal "/runqlat.csv" = (dir ++ literal "/runqlat") ++ dotCsv := by
    rw [List.append_assoc]
    rfl
  rw [hout, normalizeCSVPath_append, Runqlat.summaryPath_append, List.append_assoc,
    List.append_assoc]
  exact ⟨rfl, rfl⟩

theorem paths_iolat (dir : GoString) :
    Iolat.normalizeOut (dir ++ literal "/iolat.csv") =
      (inDir dir (literal "iolat.csv"), inDir dir (literal "iolat.summary.json")) := by
  have hout : dir ++ literal "/iolat.csv" = (dir ++ literal "/iolat") ++ dotCsv := by
    rw [List.append_assoc]
    rfl
  rw [hout, Iolat.normalizeOut_eq _ (append_dotCsv_ne_nil _), normalizeCSVPath_append,
    Runqlat.summaryPath_append, List.append_assoc, List.append_assoc]
  rfl

/-! ## The tools -/

/-- Both files are there, and if the CSV has a line for each of the `slots`
buckets and one for the header, the summary has the figures of its rows. -/
def FilesAgree (d : FileSystem) (csv summary : Place) (slots : Nat)
    (agrees : List (List Nat) → Object (List Char) → Prop) : Prop :=
  ∃ text json, d csv = some text ∧ d summary = some json ∧
    (text.count '\n' = slots + 1 → ReadsTo json (agrees (decode text)))

/-- A run of `main` that does not fail has written both. -/
theorem saved_of_saveBoth {S : Type} {csvPath summaryPath : GoString}
    {csv : Except String (List Char)} {json : WriteFile} {csvMsg jsonMsg : String} {s : S}
    (h : (saveBoth csvPath summaryPath csv json csvMsg jsonMsg s).fatal = none) :
    ∃ text, (saveBoth csvPath summaryPath csv json csvMsg jsonMsg s).csv = some (csvPath, text) ∧
      (saveBoth csvPath summaryPath csv json csvMsg jsonMsg s).summary =
        some ⟨summaryPath, s, none⟩ := by
  cases csv with
  | error err => contradiction
  | ok text =>
      cases json with
      | whole => exact ⟨text, rfl, rfl⟩
      | notOpened err => contradiction
      | broken err keeps => contradiction

theorem memlat_saved {fs : Files} {durationSec : Nat} {out : GoString} (hout : out ≠ [])
    {lookup : UInt32 → Except String UInt64}
    (h : (Memlat.main fs durationSec out lookup).fatal = none) :
    ∃ text sum, (Memlat.main fs durationSec out lookup).csv = some (Memlat.csvPath out, text) ∧
      (Memlat.main fs durationSec out lookup).summary =
        some ⟨Memlat.summaryPath out, sum, none⟩ := by
  unfold Memlat.main at h ⊢
  cases hread : Memlat.readHist lookup with
  | error err =>
      rw [hread] at h
      contradiction
  | ok read =>
      simp only [hread, Memlat.save, if_neg hout] at h ⊢
      cases hmkdir : fs.mkdirAll (Memlat.csvPath out) with
      | some err =>
          rw [hmkdir] at h
          contradiction
      | none =>
          simp only [hmkdir] at h
          obtain ⟨text, hsaved⟩ := saved_of_saveBoth h
          exact ⟨text, _, hsaved⟩

theorem runqlat_saved {fs : Files} {durationSec : Nat} {out : GoString} (hout : out ≠ [])
    {lookup : UInt32 → Except String (List UInt64)}
    (h : (Runqlat.main fs durationSec out lookup).fatal = none) :
    ∃ text sum, (Runqlat.main fs durationSec out lookup).csv =
        some (Runqlat.normalizeCSVPath out, text) ∧
      (Runqlat.main fs durationSec out lookup).summary =
        some ⟨Runqlat.summaryPath (Runqlat.normalizeCSVPath out), sum, none⟩ := by
  rw [Runqlat.main_eq] at h ⊢
  simp only [Runqlat.save, if_neg hout] at h ⊢
  cases hmkdir : fs.mkdirAll (Runqlat.normalizeCSVPath out) with
  | some err =>
      rw [hmkdir] at h
      contradiction
  | none =>
      simp only [hmkdir] at h
      obtain ⟨text, hsaved⟩ := saved_of_saveBoth h
      exact ⟨text, _, hsaved⟩

theorem iolat_saved {fs : Files} {json : GoString → String} {out : GoString}
    (hpath : (Iolat.normalizeOut out).1 ≠ []) {lookup : UInt32 → Except String UInt64}
    (h : (Iolat.main fs json out lookup).fatal = none) :
    ∃ text sum, (Iolat.main fs json out lookup).csv = some ((Iolat.normalizeOut out).1, text) ∧
      (Iolat.main fs json out lookup).summary = some ⟨(Iolat.normalizeOut out).2, sum, none⟩ := by
  unfold Iolat.main at h ⊢
  cases hread : Iolat.readCounts lookup with
  | error err =>
      rw [hread] at h
      contradiction
  | ok counts =>
      simp only [hread, Iolat.save, if_neg hpath] at h ⊢
      obtain ⟨text, hsaved⟩ := saved_of_saveBoth h
      exact ⟨text, _, hsaved⟩

/-- What a tool leaves when it has saved both files. -/
theorem Leaves.filesAgree {S : Type} {csvPath summaryPath : GoString} {json : S → List Char}
    {x : Exit S} {d d' : FileSystem} (h : Leaves cwd csvPath summaryPath json x d d')
    {text : List Char} {sum : S} (hcsv : x.csv = some (csvPath, text))
    (hsummary : x.summary = some ⟨summaryPath, sum, none⟩) {slots : Nat}
    {agrees : List (List Nat) → Object (List Char) → Prop}
    (hagrees : ∀ file, x.summary = some file → WholeCsv x slots csvPath text →
      ReadsTo (json file.sum) (agrees (decode text))) :
    FilesAgree d' (resolve cwd csvPath) (resolve cwd summaryPath) slots agrees :=
  ⟨text, json sum, h.csv _ _ hcsv, h.summary _ _ hsummary,
    fun hlines => hagrees _ hsummary ⟨hcsv, hlines⟩⟩

theorem fatal_of_ok {S : Type} {x : Exit S} (h : true = x.fatal.isNone) : x.fatal = none :=
  Option.isNone_iff_eq_none.mp h.symm

/-- A run of memlat that succeeds. -/
theorem memlat_filesAgree {dir : GoString} {d d' : FileSystem}
    (h : memlat cwd (dir ++ literal "/memlat.csv") d d' true) :
    FilesAgree d' (resolve cwd (inDir dir (literal "memlat.csv")))
      (resolve cwd (inDir dir (literal "memlat.csv.summary.json"))) Memlat.maxSlots
      Memlat.Agrees := by
  obtain ⟨x, hends, hleaves, hok⟩ := h
  have hfatal := fatal_of_ok hok
  have hout : dir ++ literal "/memlat.csv" ≠ [] :=
    List.append_ne_nil_of_right_ne_nil dir (by decide)
  rcases hends with ⟨fs, durationSec, lookup, rfl⟩ | ⟨err, rfl⟩
  · obtain ⟨text, sum, hcsv, hsummary⟩ := memlat_saved hout hfatal
    have hagree := hleaves.filesAgree hcsv hsummary fun _ hfile h => Memlat.files_agree h hfile
    rwa [(paths_memlat dir).1, (paths_memlat dir).2] at hagree
  · contradiction

theorem runqlat_filesAgree {dir : GoString} {d d' : FileSystem}
    (h : runqlat cwd (dir ++ literal "/runqlat.csv") d d' true) :
    FilesAgree d' (resolve cwd (inDir dir (literal "runqlat.csv")))
      (resolve cwd (inDir dir (literal "runqlat.summary.json"))) Runqlat.maxSlots
      Runqlat.Agrees := by
  obtain ⟨x, hends, hleaves, hok⟩ := h
  have hfatal := fatal_of_ok hok
  have hout : dir ++ literal "/runqlat.csv" ≠ [] :=
    List.append_ne_nil_of_right_ne_nil dir (by decide)
  rcases hends with ⟨fs, durationSec, lookup, rfl⟩ | ⟨err, rfl⟩
  · obtain ⟨text, sum, hcsv, hsummary⟩ := runqlat_saved hout hfatal
    have hagree := hleaves.filesAgree hcsv hsummary fun _ hfile h => Runqlat.files_agree h hfile
    rwa [(paths_runqlat dir).2, (paths_runqlat dir).1] at hagree
  · contradiction

theorem iolat_filesAgree {dir : GoString} {d d' : FileSystem}
    (h : iolat cwd (dir ++ literal "/iolat.csv") d d' true) :
    FilesAgree d' (resolve cwd (inDir dir (literal "iolat.csv")))
      (resolve cwd (inDir dir (literal "iolat.summary.json"))) Iolat.maxSlots
      (Iolat.Agrees (inDir dir (literal "iolat.csv"))) := by
  obtain ⟨x, durationSec, generatedAt, hends, hleaves, hok⟩ := h
  have hfatal := fatal_of_ok hok
  have hpath : (Iolat.normalizeOut (dir ++ literal "/iolat.csv")).1 ≠ [] := by
    rw [paths_iolat]
    exact List.append_ne_nil_of_right_ne_nil dir (List.cons_ne_nil _ _)
  rcases hends with ⟨fs, json, lookup, rfl⟩ | ⟨err, rfl⟩
  · obtain ⟨text, sum, hcsv, hsummary⟩ := iolat_saved hpath hfatal
    have hagree := hleaves.filesAgree hcsv hsummary
      fun _ hfile h => Iolat.files_agree h hfile durationSec generatedAt
    rwa [paths_iolat] at hagree
  · contradiction

/-! ## The script -/

theorem FilesAgree.kept {d d' : FileSystem} {csv summary : Place} {slots : Nat}
    {agrees : List (List Nat) → Object (List Char) → Prop}
    (h : FilesAgree d csv summary slots agrees) (hcsv : d' csv = d csv)
    (hsummary : d' summary = d summary) : FilesAgree d' csv summary slots agrees := by
  obtain ⟨text, json, htext, hjson, hagrees⟩ := h
  exact ⟨text, json, hcsv.trans htext, hsummary.trans hjson, hagrees⟩

section Jobs

variable (cwd : Place) (dir : GoString)

/-- A command that leaves two files of the run directory, which agree. -/
def pairJob (run : Command Place (List Char)) (csv summary : GoString) (slots : Nat)
    (agrees : List (List Nat) → Object (List Char) → Prop)
    (frame : ∀ d d' ok, run d d' ok → ∀ file, file ≠ resolve cwd (inDir dir csv) →
      file ≠ resolve cwd (inDir dir summary) → d' file = d file)
    (filesAgree : ∀ d d', run d d' true → FilesAgree d' (resolve cwd (inDir dir csv))
      (resolve cwd (inDir dir summary)) slots agrees) : Job Place (List Char) where
  run := run
  files := FilesIn cwd dir [csv, summary]
  post d :=
    FilesAgree d (resolve cwd (inDir dir csv)) (resolve cwd (inDir dir summary)) slots agrees
  frame h file hfile :=
    frame _ _ _ h file (fun heq => hfile ⟨csv, List.mem_cons_self, heq⟩)
      fun heq => hfile ⟨summary, List.mem_cons_of_mem _ List.mem_cons_self, heq⟩
  establishes h := filesAgree _ _ h
  kept huntouched hpost :=
    hpost.kept (huntouched _ ⟨csv, List.mem_cons_self, rfl⟩)
      (huntouched _ ⟨summary, List.mem_cons_of_mem _ List.mem_cons_self, rfl⟩)

def memlatJob : Job Place (List Char) :=
  pairJob cwd dir (memlat cwd (dir ++ literal "/memlat.csv")) (literal "memlat.csv")
    (literal "memlat.csv.summary.json") Memlat.maxSlots Memlat.Agrees
    (fun _ _ _ ⟨_, _, hleaves, _⟩ file hcsv hsummary =>
      hleaves.frame file hcsv (by rwa [(paths_memlat dir).2]))
    fun _ _ h => memlat_filesAgree h

def runqlatJob : Job Place (List Char) :=
  pairJob cwd dir (runqlat cwd (dir ++ literal "/runqlat.csv")) (literal "runqlat.csv")
    (literal "runqlat.summary.json") Runqlat.maxSlots Runqlat.Agrees
    (fun _ _ _ ⟨_, _, hleaves, _⟩ file hcsv hsummary =>
      hleaves.frame file (by rwa [(paths_runqlat dir).1]) (by rwa [(paths_runqlat dir).2]))
    fun _ _ h => runqlat_filesAgree h

def iolatJob : Job Place (List Char) :=
  pairJob cwd dir (iolat cwd (dir ++ literal "/iolat.csv")) (literal "iolat.csv")
    (literal "iolat.summary.json") Iolat.maxSlots (Iolat.Agrees (inDir dir (literal "iolat.csv")))
    (fun _ _ _ ⟨_, _, _, _, hleaves, _⟩ file hcsv hsummary =>
      hleaves.frame file (by rwa [paths_iolat]) (by rwa [paths_iolat]))
    fun _ _ h => iolat_filesAgree h

def noFileJob : Job Place (List Char) where
  run := noFile
  files _ := False
  post _ := True
  frame h file _ := congrFun h file
  establishes _ := trivial
  kept _ _ := trivial

def jobs : List (Job Place (List Char)) :=
  [noFileJob, memlatJob cwd dir, runqlatJob cwd dir, iolatJob cwd dir, noFileJob]

theorem map_run_jobs : (jobs cwd dir).map Job.run = commands cwd dir := rfl

/-- No tool writes to a file of another. -/
theorem pairwise_jobs : (jobs cwd dir).Pairwise Job.Apart := by
  have hmemlat : ∀ name ∈ memlatNames, IsName name := by decide
  have hrunqlat : ∀ name ∈ runqlatNames, IsName name := by decide
  have hiolat : ∀ name ∈ iolatNames, IsName name := by decide
  have hmr : (memlatJob cwd dir).Apart (runqlatJob cwd dir) :=
    fun _ h => FilesIn.apart hmemlat hrunqlat (by decide) h
  have hmi : (memlatJob cwd dir).Apart (iolatJob cwd dir) :=
    fun _ h => FilesIn.apart hmemlat hiolat (by decide) h
  have hri : (runqlatJob cwd dir).Apart (iolatJob cwd dir) :=
    fun _ h => FilesIn.apart hrunqlat hiolat (by decide) h
  have hfirst : ∀ j : Job Place (List Char), noFileJob.Apart j := fun _ _ h => h.elim
  have hlast : ∀ j : Job Place (List Char), j.Apart noFileJob := fun _ _ _ h => h.elim
  simp only [jobs, List.pairwise_cons, List.forall_mem_cons, List.not_mem_nil, false_imp_iff,
    implies_true, List.Pairwise.nil, and_true, hfirst, hlast, hmr, hmi, hri]

end Jobs

/-! ## Histories -/

/-- A run of the script. `date +%y%m%d-%H%M%S` prints digits and a dash. -/
structure Invocation where
  args : List GoString
  tag : GoString
  isName : IsName tag

/-- The three pairs of files of a run directory. -/
structure Collected (cwd : Place) (dir : GoString) (d : FileSystem) : Prop where
  memlat : FilesAgree d (resolve cwd (inDir dir (literal "memlat.csv")))
    (resolve cwd (inDir dir (literal "memlat.csv.summary.json"))) Memlat.maxSlots Memlat.Agrees
  runqlat : FilesAgree d (resolve cwd (inDir dir (literal "runqlat.csv")))
    (resolve cwd (inDir dir (literal "runqlat.summary.json"))) Runqlat.maxSlots Runqlat.Agrees
  iolat : FilesAgree d (resolve cwd (inDir dir (literal "iolat.csv")))
    (resolve cwd (inDir dir (literal "iolat.summary.json"))) Iolat.maxSlots
    (Iolat.Agrees (inDir dir (literal "iolat.csv")))

/-- The files that a run may write. -/
def Invocation.Writes (cwd : Place) (i : Invocation) (file : Place) : Prop :=
  ∃ options, i.args = argsOf options ∧
    FilesIn cwd (runDir (options.foldl Config.set defaults) i.tag)
      (memlatNames ++ runqlatNames ++ iolatNames) file

/-- The arguments were accepted, and the three pairs are in the directory that
they name. -/
def Invocation.Delivered (cwd : Place) (i : Invocation) (d : FileSystem) : Prop :=
  ∃ options, i.args = argsOf options ∧
    Collected cwd (runDir (options.foldl Config.set defaults) i.tag) d

/-- A file of one of the commands is in the directory. -/
theorem filesIn_of_mem_jobs {dir : GoString} {j : Job Place (List Char)} (hj : j ∈ jobs cwd dir)
    {file : Place} (h : j.files file) :
    FilesIn cwd dir (memlatNames ++ runqlatNames ++ iolatNames) file := by
  simp only [jobs, List.mem_cons, List.not_mem_nil, or_false] at hj
  rcases hj with rfl | rfl | rfl | rfl | rfl
  · exact h.elim
  · obtain ⟨name, hmem, heq⟩ := h
    exact ⟨name, List.mem_append_left _ (List.mem_append_left _ hmem), heq⟩
  · obtain ⟨name, hmem, heq⟩ := h
    exact ⟨name, List.mem_append_left _ (List.mem_append_right _ hmem), heq⟩
  · obtain ⟨name, hmem, heq⟩ := h
    exact ⟨name, List.mem_append_right _ hmem, heq⟩
  · exact h.elim

/-- What the promises of the commands come to. -/
theorem collected_of_jobs {dir : GoString} {d : FileSystem}
    (h : ∀ j ∈ jobs cwd dir, j.post d) : Collected cwd dir d where
  memlat := h (memlatJob cwd dir) (by simp [jobs])
  runqlat := h (runqlatJob cwd dir) (by simp [jobs])
  iolat := h (iolatJob cwd dir) (by simp [jobs])

/-- The three pairs are kept with their six files. -/
theorem Collected.kept {dir : GoString} {d d' : FileSystem} (h : Collected cwd dir d)
    (huntouched : ∀ file, FilesIn cwd dir (memlatNames ++ runqlatNames ++ iolatNames) file →
      d' file = d file) : Collected cwd dir d' := by
  have hname : ∀ name ∈ memlatNames ++ runqlatNames ++ iolatNames,
      d' (resolve cwd (inDir dir name)) = d (resolve cwd (inDir dir name)) :=
    fun name hmem => huntouched _ ⟨name, hmem, rfl⟩
  exact ⟨h.memlat.kept (hname _ (by decide)) (hname _ (by decide)),
    h.runqlat.kept (hname _ (by decide)) (hname _ (by decide)),
    h.iolat.kept (hname _ (by decide)) (hname _ (by decide))⟩

/-- The script as one job. -/
def Invocation.job (cwd : Place) (i : Invocation) : Job Place (List Char) where
  run := script cwd i.args i.tag
  files := i.Writes cwd
  post := i.Delivered cwd
  frame := by
    intro d d' ok h file hfile
    unfold script at h
    cases hparse : parse defaults i.args with
    | none =>
        simp only [hparse] at h
        rw [h.1]
    | some c =>
        simp only [hparse] at h
        obtain ⟨options, hargs, rfl⟩ := (parse_eq_some_iff _ _ _).mp hparse
        rw [← map_run_jobs] at h
        exact h.frame file fun j hj hmem => hfile ⟨options, hargs, filesIn_of_mem_jobs hj hmem⟩
  establishes := by
    intro d d' h
    unfold script at h
    cases hparse : parse defaults i.args with
    | none =>
        simp only [hparse] at h
        exact absurd h.2 Bool.noConfusion
    | some c =>
        simp only [hparse] at h
        obtain ⟨options, hargs, rfl⟩ := (parse_eq_some_iff _ _ _).mp hparse
        rw [← map_run_jobs] at h
        exact ⟨options, hargs, collected_of_jobs (h.post (pairwise_jobs _ _))⟩
  kept := by
    rintro d d' huntouched ⟨options, hargs, hcollected⟩
    exact ⟨options, hargs,
      hcollected.kept fun file hfile => huntouched file ⟨options, hargs, hfile⟩⟩

/-- Runs at different times write to different files. -/
theorem Invocation.apart {i i' : Invocation} (hne : i.tag ≠ i'.tag) :
    (i.job cwd).Apart (i'.job cwd) := by
  rintro file ⟨options, -, hfile⟩ ⟨options', -, hfile'⟩
  exact FilesIn.apart_of_tag i.isName i'.isName hne isName_of_mem isName_of_mem hfile hfile'

/-- Any runs of the script, at different times and with any arguments, whatever
their tools come to: in the end each run that succeeded has its three pairs of
files in the directory of its last `--out` and its time, each pair agreeing if
its CSV has all its lines, and a file that no run may write is as it was. -/
theorem collections_are_kept (cwd : Place) (runs : List (Invocation × Bool)) (d d' : FileSystem)
    (htags : (runs.map fun r => r.1.tag).Nodup)
    (h : History (runs.map fun r => (script cwd r.1.args r.1.tag, r.2)) d d') :
    (∀ r ∈ runs, r.2 = true → r.1.Delivered cwd d') ∧
      ∀ file, (∀ r ∈ runs, ¬ r.1.Writes cwd file) → d' file = d file := by
  set js := runs.map fun r => (r.1.job cwd, r.2) with hjs
  have hruns : runs.map (fun r => (script cwd r.1.args r.1.tag, r.2)) =
      js.map fun j => (j.1.run, j.2) := by
    rw [hjs, List.map_map]
    rfl
  have hapart : (js.map Prod.fst).Pairwise Job.Apart := by
    rw [hjs, List.map_map, List.pairwise_map]
    exact (List.pairwise_map.mp htags).imp fun hne => Invocation.apart hne
  rw [hruns] at h
  constructor
  · intro r hr hok
    exact h.post hapart (r.1.job cwd, r.2) (List.mem_map_of_mem hr) hok
  · intro file hfile
    apply h.frame file
    intro j hj
    obtain ⟨r, hr, rfl⟩ := List.mem_map.mp hj
    exact hfile r hr

/-! ## When nothing fails -/

theorem resolve_inDir_ne {dir name name' : GoString} (hname : IsName name)
    (hname' : IsName name') (hne : name ≠ name') :
    resolve cwd (inDir dir name) ≠ resolve cwd (inDir dir name') := by
  rw [inDir, inDir, resolve_append_name cwd dir hname, resolve_append_name cwd dir hname']
  intro h
  exact hne (List.singleton_inj.mp (List.append_inj' h rfl).2)

/-- A run that saved its counts can leave its two files. -/
theorem exists_leaves {S : Type} {n : Nat} {x : Exit S} {csvPath summaryPath : GoString}
    {g : Fin n → UInt64} {sum : S} (hx : x = savedExit csvPath summaryPath g sum)
    (hne : resolve cwd csvPath ≠ resolve cwd summaryPath) (json : S → List Char)
    (d : FileSystem) : ∃ d', Leaves cwd csvPath summaryPath json x d d' := by
  classical
  subst hx
  refine ⟨Function.update (Function.update d (resolve cwd summaryPath) (some (json sum)))
    (resolve cwd csvPath) (some (csvText (rowsOf inlineRange (List.ofFn g)))), ?_, ?_, ?_⟩
  · intro path text h
    obtain ⟨rfl, rfl⟩ := Prod.mk.inj (Option.some.inj h)
    exact Function.update_self _ _ _
  · intro path sum' h
    obtain ⟨rfl, rfl, -⟩ := SummaryFile.mk.inj (Option.some.inj h)
    rw [Function.update_of_ne hne.symm, Function.update_self]
  · intro file hcsv hsummary
    rw [Function.update_of_ne hcsv, Function.update_of_ne hsummary]

theorem exists_memlat (cwd : Place) (dir : GoString) (d : FileSystem) :
    ∃ d', memlat cwd (dir ++ literal "/memlat.csv") d d' true := by
  have hout : dir ++ literal "/memlat.csv" ≠ [] :=
    List.append_ne_nil_of_right_ne_nil dir (by decide)
  have hmain := Memlat.main_of_reads allSucceed_allWell 30 hout (readsAs_holds 7)
  obtain ⟨hcsv, hsummary⟩ := paths_memlat dir
  have hne : resolve cwd (Memlat.csvPath (dir ++ literal "/memlat.csv")) ≠
      resolve cwd (Memlat.summaryPath (dir ++ literal "/memlat.csv")) := by
    rw [hcsv, hsummary]
    exact resolve_inDir_ne (by decide) (by decide) (by decide)
  obtain ⟨d', hleaves⟩ := exists_leaves hmain hne (fun s => marshalIndent s.members) d
  exact ⟨d', _, .inl ⟨_, _, _, rfl⟩, hleaves, by rw [hmain]; rfl⟩

theorem exists_runqlat (cwd : Place) (dir : GoString) (d : FileSystem) :
    ∃ d', runqlat cwd (dir ++ literal "/runqlat.csv") d d' true := by
  have hout : dir ++ literal "/runqlat.csv" ≠ [] :=
    List.append_ne_nil_of_right_ne_nil dir (by decide)
  have hmain := Runqlat.main_of_allSucceed allSucceed_allWell 30 hout (holds [3, 4])
  obtain ⟨hcsv, hsummary⟩ := paths_runqlat dir
  have hne : resolve cwd (Runqlat.normalizeCSVPath (dir ++ literal "/runqlat.csv")) ≠
      resolve cwd (Runqlat.summaryPath (Runqlat.normalizeCSVPath
        (dir ++ literal "/runqlat.csv"))) := by
    rw [hsummary, hcsv]
    exact resolve_inDir_ne (by decide) (by decide) (by decide)
  obtain ⟨d', hleaves⟩ := exists_leaves hmain hne (fun s => marshalIndent s.members) d
  exact ⟨d', _, .inl ⟨_, _, _, rfl⟩, hleaves, by rw [hmain]; rfl⟩

theorem exists_iolat (cwd : Place) (dir : GoString) (d : FileSystem) :
    ∃ d', iolat cwd (dir ++ literal "/iolat.csv") d d' true := by
  have hpaths := paths_iolat dir
  have hpath : (Iolat.normalizeOut (dir ++ literal "/iolat.csv")).1 ≠ [] := by
    rw [hpaths]
    exact List.append_ne_nil_of_right_ne_nil dir (List.cons_ne_nil _ _)
  have hmain := Iolat.main_of_reads allSucceed_allWell (fun _ => "") hpath (readsAs_holds 7)
  have hne : resolve cwd (Iolat.normalizeOut (dir ++ literal "/iolat.csv")).1 ≠
      resolve cwd (Iolat.normalizeOut (dir ++ literal "/iolat.csv")).2 := by
    rw [hpaths]
    exact resolve_inDir_ne (by decide) (by decide) (by decide)
  obtain ⟨d', hleaves⟩ := exists_leaves hmain hne
    (fun s => marshalIndent (s.members (natToken 30) (literal "2026-01-05T10:00:00Z") _)) d
  exact ⟨d', _, _, _, .inl ⟨_, _, _, rfl⟩, hleaves, by rw [hmain]; rfl⟩

/-- With arguments that the loop accepts, the script can succeed. -/
theorem exists_script (cwd : Place) {args : List GoString} {c : Config}
    (h : parse defaults args = some c) (tag : GoString) (d : FileSystem) :
    ∃ d', script cwd args tag d d' true := by
  obtain ⟨d₁, h₁⟩ := exists_memlat cwd (runDir c tag) d
  obtain ⟨d₂, h₂⟩ := exists_runqlat cwd (runDir c tag) d₁
  obtain ⟨d₃, h₃⟩ := exists_iolat cwd (runDir c tag) d₂
  refine ⟨d₃, ?_⟩
  unfold script
  simp only [h]
  exact .next rfl (.next h₁ (.next h₂ (.next h₃ (.next rfl (.finished d₃)))))

/-- A collection into `a`, and one second later a call for help. -/
def collectRun : Invocation where
  args := [literal "--out", literal "a"]
  tag := literal "260105-100000"
  isName := by decide

def helpRun : Invocation where
  args := [literal "-h"]
  tag := literal "260105-100001"
  isName := by decide

theorem collections_are_kept_two :
    ∃ d', collectRun.Delivered [] d' ∧
      ∀ file, ¬ collectRun.Writes [] file → ¬ helpRun.Writes [] file → d' file = none := by
  obtain ⟨d', hcollect⟩ := exists_script []
    (parse_argsOf defaults [(.out, literal "a")]) collectRun.tag fun _ => none
  have hhelp : script [] helpRun.args helpRun.tag d' d' false := ⟨rfl, rfl⟩
  have hkept := collections_are_kept [] [(collectRun, true), (helpRun, false)] (fun _ => none) d'
    (by decide) (.next hcollect (.next hhelp (.start d')))
  refine ⟨d', hkept.1 (collectRun, true) List.mem_cons_self rfl, fun file hfirst hlast => ?_⟩
  refine hkept.2 file fun r hr => ?_
  simp only [List.mem_cons, List.not_mem_nil, or_false] at hr
  rcases hr with rfl | rfl
  · exact hfirst
  · exact hlast

end EbpfToy.CollectAll
