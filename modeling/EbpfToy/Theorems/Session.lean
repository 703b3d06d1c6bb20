import EbpfToy.Go.Session
import EbpfToy.Theorems.CsvRoundTrip
import EbpfToy.Theorems.EndToEnd
import EbpfToy.Theorems.FailedReads
import EbpfToy.Theorems.LiveRead

/-!
# Whole runs of the tools

What a run of `main` leaves behind, whatever the handlers do in the meantime
and whichever call fails. A run that gives up before both probes are attached
has recorded no sample and writes no file. Every other run ends as `main` does
on the answers of its lookups, each of which is what a bucket held at some
moment of the pass: after the sleep had ended, and before the last lookup
returned (`Window`).
-/

namespace EbpfToy.Session

open Lib

variable {S B : Type} {copies slots : Nat} {R : Recorder copies slots}

/-- The start probe has been the only one so far. -/
def OnlyStarts (as : List R.Act) : Prop := ∀ a ∈ as, ¬ R.beginsStop a

/-- The stop probe was attached after some starts, and before `es`. -/
def Opened (es : List R.Act) (n : Notes R) : Prop :=
  ∃ opened, n.opened = some opened ∧ OnlyStarts opened ∧ opened <+: es

/-- The pass over the buckets: `first` is what had been handled when the sleep
ended, with both probes attached, and `last` when the last lookup returned. -/
structure Window (s : Kernel R) (first last : List R.Act) : Prop where
  opened : Opened first s.notes
  slept : s.notes.slept = some first
  pass : first <+: last
  looked : s.notes.looked = some last
  handled : last <+: s.handled

/-- What the lookup of a key answered, or an error if it was not made. -/
def lookupOf (s : Kernel R) (key : UInt32) : Except String (Fin copies → UInt64) :=
  (s.notes.answers key).getD (.error "")

/-- The lookup of bucket `b` failed. -/
def Failed (s : Kernel R) (b : Fin slots) : Prop :=
  ∃ err, s.notes.answers (UInt32.ofNat b.val) = some (.error err)

/-- The lookup of bucket `i` was the first to fail. -/
structure FailedFirst (s : Kernel R) (i : Fin slots) (err : String) : Prop where
  failed : s.notes.answers (UInt32.ofNat i.val) = some (.error err)
  before : ∀ j < i, ∃ value, s.notes.answers (UInt32.ofNat j.val) = some (.ok value)

/-- Every bucket was looked up, and `g` has what the lookups found. -/
structure Shows (s : Kernel R) (g : Fin slots → UInt64) : Prop where
  asked : ∀ b : Fin slots, s.notes.answers (UInt32.ofNat b.val) ≠ none
  read : ∀ (b : Fin slots) value, s.notes.answers (UInt32.ofNat b.val) = some (.ok value) →
    g b = wordSum (List.ofFn value)

/-- Every answer of `lookup` is what the bucket held at some moment after the
actions `first` and before the end of `last`. -/
def ReadDuring (R : Recorder copies slots) (first last : List R.Act)
    (lookup : UInt32 → Except String (Fin copies → UInt64)) : Prop :=
  ∀ (b : Fin slots) value, lookup (UInt32.ofNat b.val) = .ok value →
    ∀ c, ∃ mid, first <+: mid ∧ mid <+: last ∧ value c = R.cell (R.after mid) (c, b)

/-- The loop over the buckets `ps` has come to `acc`: it has looked up all of
them, or the first few and then failed. -/
def LookedUp (round : B → Nat → Except String (Fin copies → UInt64) → Except String B) (init : B)
    (ps : List Nat) (acc : Except String B) (s : Kernel R) : Prop :=
  ∃ qs rest, ps = qs ++ rest ∧ (∀ j ∈ qs, s.notes.answers (UInt32.ofNat j) ≠ none) ∧
    (rest ≠ [] → ∃ err, acc = .error err) ∧
    acc = qs.foldlM (fun b i => round b i (lookupOf s (UInt32.ofNat i))) init

/-- The run gave up before both probes were attached. -/
structure GaveUp (r : Exit S) (s : Kernel R) : Prop where
  fatal : r.fatal ≠ none
  csv : r.csv = none
  summary : r.summary = none
  opened : s.notes.opened = none
  handled : OnlyStarts s.handled

/-- The run read the histogram in the window from `first` to `last`, and ended
like `outcome` on what its loop came to. -/
structure Reported (round : B → Nat → Except String (Fin copies → UInt64) → Except String B)
    (init : B) (outcome : Except String B → Exit S) (first last : List R.Act) (r : Exit S)
    (s : Kernel R) : Prop where
  window : Window s first last
  read : ReadDuring R first last (lookupOf s)
  result : ∃ acc, LookedUp round init (List.range slots) acc s ∧ r = outcome acc

/-- How a run ends. -/
def Ends (round : B → Nat → Except String (Fin copies → UInt64) → Except String B) (init : B)
    (outcome : Except String B → Exit S) (r : Exit S) (s : Kernel R) : Prop :=
  GaveUp r s ∨ ∃ first last, Reported round init outcome first last r s

/-! ## The rules of the calls -/

/-- The process ends, with what the kernel keeps from then on. -/
theorem ensures_exit {Post : Exit S → Kernel R → Prop} {Pre : Kernel R → Prop}
    (hstable : (kernel R).Stable Pre)
    (hexit : ∀ s : Kernel R, Pre s → Pre { s.returned with startOn := false, stopOn := false })
    {s : Kernel R} (hs : Pre s) {r : Exit S} (hpost : ∀ s, Pre s → Post r s) :
    (kernel R).Ensures Post (exit copies r) s := by
  apply Host.Ensures.call hstable hs
  intro s r s' hpre hanswer
  cases hanswer with
  | exited =>
      intro s'' hlater
      exact hpost s'' (hstable.later (hexit s hpre) hlater)

/-- A property of what has been handled that more actions keep. -/
def Grows (G : List R.Act → Notes R → Prop) : Prop := ∀ es e n, G es n → G (es ++ [e]) n

theorem Grows.stable {G : List R.Act → Notes R → Prop} (h : Grows G) :
    (kernel R).Stable fun s => G s.handled s.notes := by
  intro s s' hs hmove
  cases hmove with
  | fire allowed start stop => exact h _ _ _ hs

/-- The probes are taken down, and the process ends. -/
theorem ensures_finish {G : List R.Act → Notes R → Prop} (hgrows : Grows G)
    {Post : Exit S → Kernel R → Prop} {r : Exit S}
    (hpost : ∀ s : Kernel R, G s.handled s.notes → Post r s) {s : Kernel R}
    (hs : G s.handled s.notes) : (kernel R).Ensures Post (finish copies r) s := by
  have hexit : ∀ s : Kernel R, G s.handled s.notes → (kernel R).Ensures Post (exit copies r) s :=
    fun s hs => ensures_exit hgrows.stable (fun _ h => h) hs hpost
  unfold finish
  cases r.fatal with
  | some err => exact hexit s hs
  | none =>
      refine Host.Ensures.call hgrows.stable hs fun s _ s' hpre hanswer => ?_
      cases hanswer
      refine Host.Ensures.call hgrows.stable hpre fun s _ s' hpre hanswer => ?_
      cases hanswer
      refine Host.Ensures.call hgrows.stable hpre fun s _ s' hpre hanswer => ?_
      cases hanswer
      exact hexit _ hpre

/-- No stop has been handled, and none can be. -/
structure Opening (s : Kernel R) : Prop where
  stopOff : s.stopOn = false
  notOpened : s.notes.opened = none
  fresh : ∀ key, s.notes.answers key = none
  handled : OnlyStarts s.handled

theorem stable_opening : (kernel R).Stable (Opening (R := R)) := by
  rintro s s' ⟨hoff, hnot, hfresh, hstarts⟩ hmove
  cases hmove with
  | fire allowed start stop =>
      refine ⟨hoff, hnot, hfresh, fun a ha => ?_⟩
      rcases List.mem_append.mp ha with hold | hnew
      · exact hstarts a hold
      · rw [List.mem_singleton.mp hnew]
        intro hbegins
        rw [hoff] at stop
        exact Bool.false_ne_true (stop hbegins)

theorem opening_boot : Opening (Kernel.boot R) :=
  ⟨rfl, rfl, fun _ => rfl, fun _ he => absurd he List.not_mem_nil⟩

/-- The call before did nothing to the stop probe. -/
theorem Opening.returned {s : Kernel R} (h : Opening s) : Opening s.returned :=
  ⟨h.stopOff, h.notOpened, h.fresh, h.handled⟩

section Attempts

variable {round : B → Nat → Except String (Fin copies → UInt64) → Except String B} {init : B}
  {outcome : Except String B → Exit S}

/-- An attempt before the stop probe is attached: it fails and the run gives
up, or the next one is made. -/
theorem ensures_attempt {a : Attempt} {message : String → String}
    {next : Tool copies (Exit S)} {s : Kernel R} (hs : Opening s)
    (hnext : ∀ s s', Opening s → Kernel.Answers s (.attempt a) none s' →
      (kernel R).Ensures (Ends round init outcome) next s') :
    (kernel R).Ensures (Ends round init outcome) (EbpfToy.attempt copies a message next) s := by
  apply Host.Ensures.call stable_opening hs
  intro s r s' hopen hanswer
  cases r with
  | none => exact hnext s s' hopen hanswer
  | some err =>
      cases hanswer with
      | failed =>
          refine ensures_exit stable_opening
            (fun s hs => ⟨rfl, hs.notOpened, hs.fresh, hs.handled⟩) hopen.returned fun s hs => ?_
          exact .inl ⟨Option.some_ne_none _, rfl, rfl, hs.notOpened, hs.handled⟩

/-- A call that prepares leaves the probes off. -/
theorem ensures_prepare {what : String} {message : String → String}
    {next : Tool copies (Exit S)} {s : Kernel R} (hs : Opening s)
    (hnext : ∀ s, Opening s → (kernel R).Ensures (Ends round init outcome) next s) :
    (kernel R).Ensures (Ends round init outcome)
      (EbpfToy.attempt copies (.prepare what) message next) s := by
  apply ensures_attempt hs
  intro s s' hopen hanswer
  cases hanswer
  exact hnext _ hopen.returned

theorem ensures_attachStart {message : String → String} {next : Tool copies (Exit S)}
    {s : Kernel R} (hs : Opening s)
    (hnext : ∀ s, Opening s → (kernel R).Ensures (Ends round init outcome) next s) :
    (kernel R).Ensures (Ends round init outcome)
      (EbpfToy.attempt copies .attachStart message next) s := by
  apply ensures_attempt hs
  intro s s' hopen hanswer
  cases hanswer
  exact hnext _ ⟨hopen.stopOff, hopen.notOpened, hopen.fresh, hopen.handled⟩

/-- Both probes are attached, and nothing has been looked up. -/
def Ready (es : List R.Act) (n : Notes R) : Prop := Opened es n ∧ ∀ key, n.answers key = none

theorem Opened.mono {es es' : List R.Act} {n : Notes R} (h : Opened es n) (hle : es <+: es') :
    Opened es' n := by
  obtain ⟨opened, hsome, hstarts, hpre⟩ := h
  exact ⟨opened, hsome, hstarts, hpre.trans hle⟩

theorem grows_ready : Grows (R := R) Ready :=
  fun _ e _ h => ⟨h.1.mono (List.prefix_append _ [e]), h.2⟩

/-- From here on stops are handled too. -/
theorem ensures_attachStop {message : String → String} {next : Tool copies (Exit S)}
    {s : Kernel R} (hs : Opening s)
    (hnext : ∀ s : Kernel R, Ready s.handled s.notes →
      (kernel R).Ensures (Ends round init outcome) next s) :
    (kernel R).Ensures (Ends round init outcome)
      (EbpfToy.attempt copies .attachStop message next) s := by
  apply ensures_attempt hs
  intro s s' hopen hanswer
  cases hanswer
  exact hnext _ ⟨⟨s.handled, rfl, hopen.handled, List.prefix_refl _⟩, hopen.fresh⟩

/-- The sleep has just ended. -/
structure Awake (s : Kernel R) : Prop where
  ready : Ready s.handled s.notes
  slept : s.notes.slept = some s.handled
  since : s.since = s.handled

/-- The sleep ends: what has been handled is where the pass begins. -/
theorem ensures_sleep {next : Unit → Tool copies (Exit S)} {s : Kernel R}
    {Post : Exit S → Kernel R → Prop} (hs : Ready s.handled s.notes)
    (hnext : ∀ s : Kernel R, Awake s → (kernel R).Ensures Post (next ()) s) :
    (kernel R).Ensures Post (.call .sleep next) s := by
  apply Host.Ensures.call grows_ready.stable hs
  intro s r s' hpre hanswer
  cases hanswer
  exact hnext _ ⟨hpre, rfl, rfl⟩

end Attempts

/-! ## The loop over the buckets -/

theorem ReadDuring.mono {first last last' : List R.Act}
    {lookup : UInt32 → Except String (Fin copies → UInt64)}
    (h : ReadDuring R first last lookup) (hle : last <+: last') :
    ReadDuring R first last' lookup := by
  intro b value hv c
  obtain ⟨mid, hfirst, hmid, hcell⟩ := h b value hv c
  exact ⟨mid, hfirst, hmid.trans hle, hcell⟩

/-- The pass began after `first`, and the buckets `xs` are left. -/
structure ReadSoFar (round : B → Nat → Except String (Fin copies → UInt64) → Except String B)
    (init : B) (first : List R.Act) (xs : List Nat) (acc : Except String B) (s : Kernel R) :
    Prop where
  opened : Opened first s.notes
  slept : s.notes.slept = some first
  since : first <+: s.since
  handled : s.since <+: s.handled
  read : ReadDuring R first s.since (lookupOf s)
  progress : ∃ ps, List.range slots = ps ++ xs ∧ LookedUp round init ps acc s ∧
    (s.notes.looked = some s.since ∨ acc = .ok init ∧ ps = [])

theorem ReadSoFar.stable
    (round : B → Nat → Except String (Fin copies → UInt64) → Except String B) (init : B)
    (first : List R.Act) (xs : List Nat) (acc : Except String B) :
    (kernel R).Stable (ReadSoFar round init first xs acc) := by
  have hgrow : ∀ (s : Kernel R) (a : R.Act), ReadSoFar round init first xs acc s →
      ReadSoFar round init first xs acc { s with handled := s.handled ++ [a] } := by
    rintro s a ⟨hopened, hslept, hsince, hhandled, hread, hprogress⟩
    exact ⟨hopened, hslept, hsince, hhandled.trans (List.prefix_append _ [a]), hread, hprogress⟩
  intro s s' h hmove
  cases hmove with
  | fire allowed start stop => exact hgrow s _ h

theorem foldlM_congr_mem {A : Type} {f g : B → A → Except String B} {l : List A}
    (h : ∀ b, ∀ x ∈ l, f b x = g b x) (b : B) : l.foldlM f b = l.foldlM g b := by
  induction l generalizing b with
  | nil => rfl
  | cons x l ih =>
      rw [List.foldlM_cons, List.foldlM_cons, h b x List.mem_cons_self]
      congr 1
      funext b'
      exact ih (fun b y hy => h b y (List.mem_cons_of_mem x hy)) b'

theorem foldlM_concat {A : Type} (f : B → A → Except String B) (l : List A) (x : A) (b : B) :
    (l ++ [x]).foldlM f b = (l.foldlM f b).bind fun b' => f b' x := by
  rw [List.foldlM_append]
  show (l.foldlM f b).bind (fun b' => (f b' x).bind Except.ok) = _
  congr 1
  funext b'
  cases f b' x <;> rfl

/-- The buckets have different keys. -/
theorem ofNat_ne_ofNat (hslots : slots ≤ 2 ^ 32) {i j : Nat} (hi : i < slots) (hj : j < slots)
    (hne : j ≠ i) : UInt32.ofNat j ≠ UInt32.ofNat i := by
  intro heq
  have htoNat := congrArg UInt32.toNat heq
  rw [UInt32.toNat_ofNat', UInt32.toNat_ofNat', Nat.mod_eq_of_lt (show j < 2 ^ 32 by omega),
    Nat.mod_eq_of_lt (show i < 2 ^ 32 by omega)] at htoNat
  exact hne htoNat

theorem lookupOf_looked (s : Kernel R) (key : UInt32)
    (r : Except String (Fin copies → UInt64)) : lookupOf (s.looked key r) key = r := by
  show (Function.update s.notes.answers key (some r) key).getD _ = r
  rw [Function.update_self]
  rfl

theorem lookupOf_looked_of_ne {s : Kernel R} {key key' : UInt32}
    {r : Except String (Fin copies → UInt64)} (hne : key' ≠ key) :
    lookupOf (s.looked key r) key' = lookupOf s key' := by
  show (Function.update s.notes.answers key (some r) key').getD _ = _
  rw [Function.update_of_ne hne]
  rfl

/-- A lookup notes its answer, whatever it is. -/
theorem eq_looked {s s' : Kernel R} {key : UInt32} {r : Except String (Fin copies → UInt64)}
    (hanswer : Kernel.Answers s (.lookup key) r s') : s' = s.looked key r := by
  cases hanswer with
  | notFound => rfl
  | found => rfl

/-- What a lookup returns is read after the call before it. -/
theorem ReadDuring.looked (hslots : slots ≤ 2 ^ 32) {first : List R.Act} {s s' : Kernel R}
    {i : Nat} (hi : i < slots) {r : Except String (Fin copies → UInt64)}
    (h : ReadDuring R first s.since (lookupOf s)) (hsince : first <+: s.since)
    (hhandled : s.since <+: s.handled)
    (hanswer : Kernel.Answers s (.lookup (UInt32.ofNat i)) r s') :
    ReadDuring R first s.handled (lookupOf (s.looked (UInt32.ofNat i) r)) := by
  intro b value hv c
  by_cases hb : b.val = i
  · rw [hb, lookupOf_looked] at hv
    subst hv
    cases hanswer with
    | found inside read =>
        obtain ⟨mid, hmid, hmid', hcell⟩ := read c
        refine ⟨mid, hsince.trans hmid, hmid', ?_⟩
        have hindex : (⟨(UInt32.ofNat i).toNat, inside⟩ : Fin slots) = b := by
          apply Fin.ext
          show (UInt32.ofNat i).toNat = b.val
          rw [hb, UInt32.toNat_ofNat']
          exact Nat.mod_eq_of_lt (show i < 2 ^ 32 by omega)
        rw [hcell, hindex]
  · rw [lookupOf_looked_of_ne (ofNat_ne_ofNat hslots hi b.isLt hb)] at hv
    exact h.mono hhandled b value hv c

/-- After an error the rest of the buckets is passed over. -/
theorem LookedUp.skip {round : B → Nat → Except String (Fin copies → UInt64) → Except String B}
    {init : B} {ps : List Nat} {err : String} {s : Kernel R}
    (h : LookedUp round init ps (.error err) s) (i : Nat) :
    LookedUp round init (ps ++ [i]) (.error err) s := by
  obtain ⟨qs, rest, rfl, hasked, -, hacc⟩ := h
  exact ⟨qs, rest ++ [i], List.append_assoc _ _ _, hasked, fun _ => ⟨err, rfl⟩, hacc⟩

/-- One more bucket is looked up. -/
theorem LookedUp.next {round : B → Nat → Except String (Fin copies → UInt64) → Except String B}
    {init : B} {ps : List Nat} {b : B} {s : Kernel R} (h : LookedUp round init ps (.ok b) s)
    {i : Nat} (hnew : ∀ j ∈ ps, UInt32.ofNat j ≠ UInt32.ofNat i)
    (r : Except String (Fin copies → UInt64)) :
    LookedUp round init (ps ++ [i]) (round b i r) (s.looked (UInt32.ofNat i) r) := by
  obtain ⟨qs, rest, rfl, hasked, hrest, hacc⟩ := h
  obtain rfl : rest = [] := by
    by_contra hne
    obtain ⟨err, herr⟩ := hrest hne
    contradiction
  rw [List.append_nil] at hnew ⊢
  refine ⟨qs ++ [i], [], by rw [List.append_nil], ?_, fun hne => absurd rfl hne, ?_⟩
  · intro j hj
    show Function.update s.notes.answers (UInt32.ofNat i) (some r) (UInt32.ofNat j) ≠ none
    rcases List.mem_append.mp hj with hold | hlast
    · rw [Function.update_of_ne (hnew j hold)]
      exact hasked j hold
    · rw [List.mem_singleton.mp hlast, Function.update_self]
      exact Option.some_ne_none r
  · -- the buckets looked up so far have other keys
    have hfold : qs.foldlM (fun b j => round b j
        (lookupOf (s.looked (UInt32.ofNat i) r) (UInt32.ofNat j))) init = .ok b := by
      rw [hacc]
      apply foldlM_congr_mem
      intro b' j hj
      rw [lookupOf_looked_of_ne (hnew j hj)]
    rw [foldlM_concat, hfold]
    show round b i r = round b i (lookupOf (s.looked (UInt32.ofNat i) r) (UInt32.ofNat i))
    rw [lookupOf_looked]

/-- One more bucket is looked up, or passed over after an error. -/
theorem ensures_readRound
    {round : B → Nat → Except String (Fin copies → UInt64) → Except String B} {init : B}
    {first : List R.Act} (hslots : slots ≤ 2 ^ 32) {i : Nat} {xs : List Nat}
    {acc : Except String B} {s : Kernel R} (h : ReadSoFar round init first (i :: xs) acc s) :
    (kernel R).Ensures (ReadSoFar round init first xs) (lookupRound copies round acc i) s := by
  cases acc with
  | error err =>
      obtain ⟨hopened, hslept, hsince, hhandled, hread, ps, hps, hup, hlooked⟩ := h
      apply Host.Ensures.result (ReadSoFar.stable round init first xs _)
      refine ⟨hopened, hslept, hsince, hhandled, hread, ps ++ [i], ?_, hup.skip i, .inl ?_⟩
      · rw [hps, List.append_assoc]
        rfl
      · rcases hlooked with hlooked | ⟨hok, -⟩
        · exact hlooked
        · contradiction
  | ok b =>
      apply Host.Ensures.call (ReadSoFar.stable round init first (i :: xs) _) h
      intro s (r : Except String (Fin copies → UInt64)) s' hpre hanswer
      obtain ⟨hopened, hslept, hsince, hhandled, hread, ps, hps, hup, -⟩ := hpre
      have hmem : ∀ j, j ∈ ps ++ i :: xs → j < slots := fun j hj => List.mem_range.mp (hps ▸ hj)
      have hi : i < slots := hmem i (List.mem_append_right _ List.mem_cons_self)
      have hnew : ∀ j ∈ ps, UInt32.ofNat j ≠ UInt32.ofNat i := by
        intro j hj
        have hnodup : (ps ++ i :: xs).Nodup := hps ▸ List.nodup_range
        exact ofNat_ne_ofNat hslots hi (hmem j (List.mem_append_left _ hj))
          ((List.nodup_append.mp hnodup).2.2 j hj i List.mem_cons_self)
      have hduring := hread.looked hslots hi hsince hhandled hanswer
      obtain rfl := eq_looked hanswer
      apply Host.Ensures.result (ReadSoFar.stable round init first xs _)
      refine ⟨hopened, hslept, hsince.trans hhandled, List.prefix_refl _, hduring, ps ++ [i], ?_,
        hup.next hnew r, .inl rfl⟩
      rw [hps, List.append_assoc]
      rfl

/-- The whole pass. -/
theorem ensures_readLoop
    {round : B → Nat → Except String (Fin copies → UInt64) → Except String B} {init : B}
    (hslots : slots ≤ 2 ^ 32) {s : Kernel R} (hs : Awake s) :
    (kernel R).Ensures (ReadSoFar round init s.handled [])
      (readLoop copies round (List.range slots) init) s := by
  refine Host.Ensures.loop (I := ReadSoFar round init s.handled)
    (ReadSoFar.stable round init s.handled) (fun i xs acc s h => ensures_readRound hslots h) ?_
  refine ⟨hs.ready.1, hs.slept, by rw [hs.since], by rw [hs.since], ?_, [], rfl,
    ⟨[], [], rfl, nofun, fun hne => absurd rfl hne, rfl⟩, .inr ⟨rfl, rfl⟩⟩
  intro b value hv
  rw [lookupOf, hs.ready.2] at hv
  contradiction

/-- From the end of the sleep on, a tool ends like `outcome` on what it reads. -/
theorem ensures_report
    {round : B → Nat → Except String (Fin copies → UInt64) → Except String B} {init : B}
    (outcome : Except String B → Exit S) {k : Except String B → Tool copies (Exit S)}
    (hslots : 0 < slots ∧ slots ≤ 2 ^ 32)
    (hk : ∀ acc, k acc = exit copies (outcome acc) ∨ k acc = finish copies (outcome acc))
    {s : Kernel R} (hs : Awake s) :
    (kernel R).Ensures (Ends round init outcome)
      ((readLoop copies round (List.range slots) init).bind k) s := by
  apply Host.Ensures.bind
  refine (ensures_readLoop hslots.2 hs).mono ?_
  rintro acc s' ⟨hopened, hslept, hsince, hhandled, hread, ps, hps, hup, hlooked⟩
  rw [List.append_nil] at hps
  subst hps
  have hlast : s'.notes.looked = some s'.since := by
    refine hlooked.resolve_right fun hnone => ?_
    have hlength := congrArg List.length hnone.2
    rw [List.length_range, List.length_nil] at hlength
    omega
  -- what is handled from here on comes after the pass, and nothing more is noted
  have hgrows : Grows (R := R) fun es n => s'.since <+: es ∧ n = s'.notes :=
    fun _ e _ h => ⟨h.1.trans (List.prefix_append _ [e]), h.2⟩
  have hpost : ∀ t : Kernel R, s'.since <+: t.handled ∧ t.notes = s'.notes →
      Ends round init outcome (outcome acc) t := by
    rintro ⟨handled, startOn, stopOn, since, notes⟩ ⟨ht, rfl⟩
    exact .inr ⟨s.handled, s'.since, ⟨hopened, hslept, hsince, hlast, ht⟩, hread, acc, hup, rfl⟩
  rcases hk acc with hexit | hfinish
  · rw [hexit]
    exact ensures_exit hgrows.stable (fun _ h => h) ⟨hhandled, rfl⟩ hpost
  · rw [hfinish]
    exact ensures_finish hgrows hpost ⟨hhandled, rfl⟩

/-! ## What the loop came to -/

section LookedUp

variable {round : B → Nat → Except String (Fin copies → UInt64) → Except String B} {init : B}
  {acc : Except String B} {s : Kernel R}

theorem eq_of_lookupOf_ok {key : UInt32} {value : Fin copies → UInt64}
    (h : lookupOf s key = .ok value) : s.notes.answers key = some (.ok value) := by
  unfold lookupOf at h
  cases hanswer : s.notes.answers key with
  | none =>
      rw [hanswer] at h
      contradiction
  | some r =>
      rw [hanswer] at h
      exact congrArg some h

/-- The buckets that were passed over would have changed nothing. -/
theorem LookedUp.acc_eq (h : LookedUp round init (List.range slots) acc s) :
    acc = (List.range slots).foldlM (fun b i => round b i (lookupOf s (UInt32.ofNat i))) init := by
  obtain ⟨qs, rest, hps, -, hrest, hacc⟩ := h
  rw [hps, List.foldlM_append, ← hacc]
  by_cases hne : rest = []
  · rw [hne]
    cases acc <;> rfl
  · obtain ⟨err, rfl⟩ := hrest hne
    rfl

theorem mem_range_append {qs rest : List Nat} (hps : List.range slots = qs ++ rest)
    (b : Fin slots) : b.val ∈ qs ∨ b.val ∈ rest ∧ ∀ j ∈ qs, j < b.val := by
  have hmem : b.val ∈ qs ++ rest := hps ▸ List.mem_range.mpr b.isLt
  rcases List.mem_append.mp hmem with hleft | hright
  · exact .inl hleft
  · refine .inr ⟨hright, fun j hj => ?_⟩
    have hsorted : (qs ++ rest).Pairwise (· < ·) := hps ▸ List.pairwise_lt_range
    exact (List.pairwise_append.mp hsorted).2.2 j hj b.val hright

/-- A loop that did not fail has looked up every bucket. -/
theorem LookedUp.asked_of_ok {b₀ : B} (h : LookedUp round init (List.range slots) (.ok b₀) s)
    (b : Fin slots) : s.notes.answers (UInt32.ofNat b.val) ≠ none := by
  obtain ⟨qs, rest, hps, hasked, hrest, -⟩ := h
  rcases mem_range_append hps b with hleft | ⟨hright, -⟩
  · exact hasked b.val hleft
  · obtain ⟨err, herr⟩ := hrest (List.ne_nil_of_mem hright)
    contradiction

/-- The lookups that were made before bucket `b` was passed over include one
that failed, if a round fails at such lookups only. -/
theorem LookedUp.exists_failed (h : LookedUp round init (List.range slots) acc s)
    (hround : ∀ b i v, ∃ b', round b i (.ok v) = .ok b') {b : Fin slots}
    (hb : s.notes.answers (UInt32.ofNat b.val) = none) : ∃ j < b, ∀ v,
      lookupOf s (UInt32.ofNat j.val) ≠ .ok v := by
  obtain ⟨qs, rest, hps, hasked, hrest, hacc⟩ := h
  rcases mem_range_append hps b with hleft | ⟨hright, hlt⟩
  · exact absurd hb (hasked b.val hleft)
  · by_contra hnone
    have hall : ∀ j < b, ∃ v, lookupOf s (UInt32.ofNat j.val) = .ok v := by
      intro j hj
      by_contra hno
      exact hnone ⟨j, hj, fun v hv => hno ⟨v, hv⟩⟩
    -- then the loop has not failed
    have hfold : ∃ b', qs.foldlM (fun b i => round b i (lookupOf s (UInt32.ofNat i))) init =
        .ok b' := by
      have hok : ∀ j ∈ qs, ∃ v, lookupOf s (UInt32.ofNat j) = .ok v :=
        fun j hj => hall ⟨j, (hlt j hj).trans b.isLt⟩ (hlt j hj)
      clear hacc hps hasked hlt
      induction qs generalizing init with
      | nil => exact ⟨init, rfl⟩
      | cons j qs ih =>
          obtain ⟨v, hv⟩ := hok j List.mem_cons_self
          obtain ⟨b', hb'⟩ := hround init j v
          obtain ⟨b'', hb''⟩ : ∃ b'', qs.foldlM
              (fun b i => round b i (lookupOf s (UInt32.ofNat i))) b' = .ok b'' :=
            ih fun j' hj' => hok j' (List.mem_cons_of_mem j hj')
          refine ⟨b'', ?_⟩
          rw [List.foldlM_cons, hv, hb']
          exact hb''
    obtain ⟨b', hb'⟩ := hfold
    obtain ⟨err, herr⟩ := hrest (List.ne_nil_of_mem hright)
    rw [herr, hb'] at hacc
    contradiction

end LookedUp

/-! ## The three tools -/

/-- How memlat ends after the pass. -/
def Memlat.outcome (fs : Files) (durationSec : Nat) (out : GoString) :
    Except String (List UInt64 × UInt64) → Exit Memlat.Summary
  | .error err => { fatal := some err }
  | .ok (counts, total) => Memlat.save fs out counts (Memlat.summary durationSec total)

def Runqlat.outcome (fs : Files) (durationSec : Nat) (out : GoString) :
    Except String (List UInt64 × UInt64) → Exit Runqlat.Summary
  | .error err => { fatal := some err }
  | .ok (counts, total) =>
      Runqlat.save fs out counts (Runqlat.summary durationSec counts total)

def Iolat.outcome (fs : Files) (json : GoString → String) (out : GoString) :
    Except String (List UInt64) → Exit Iolat.Summary
  | .error err => { fatal := some err }
  | .ok counts => Iolat.save fs out counts
      (Iolat.summary (Iolat.sumCounts counts) (json (Iolat.normalizeOut out).1))

theorem Memlat.ensures_ends (R : Recorder 1 Memlat.maxSlots) (fs : Files) (durationSec : Nat)
    (out : GoString) :
    (kernel R).Ensures
      (Ends Memlat.readRound (List.replicate Memlat.maxSlots 0, 0) (outcome fs durationSec out))
      (Memlat.session fs durationSec out) (Kernel.boot _) := by
  unfold Memlat.session
  refine ensures_prepare opening_boot fun s hs => ?_
  refine ensures_prepare hs fun s hs => ?_
  refine ensures_prepare hs fun s hs => ?_
  refine ensures_prepare hs fun s hs => ?_
  refine ensures_attachStart hs fun s hs => ?_
  refine ensures_attachStop hs fun s hs => ?_
  refine ensures_sleep hs fun s hs => ?_
  refine ensures_report (outcome fs durationSec out) (by decide) ?_ hs
  rintro (err | ⟨counts, total⟩)
  · exact .inl rfl
  · exact .inr rfl

theorem Runqlat.ensures_ends {cpus : Nat} (R : Recorder cpus Runqlat.maxSlots) (fs : Files)
    (durationSec : Nat) (out : GoString) :
    (kernel R).Ensures
      (Ends Runqlat.readRound (List.replicate Runqlat.maxSlots 0, 0) (outcome fs durationSec out))
      (Runqlat.session cpus fs durationSec out) (Kernel.boot _) := by
  unfold Runqlat.session
  refine ensures_prepare opening_boot fun s hs => ?_
  refine ensures_prepare hs fun s hs => ?_
  refine ensures_prepare hs fun s hs => ?_
  refine ensures_prepare hs fun s hs => ?_
  refine ensures_attachStart hs fun s hs => ?_
  refine ensures_attachStop hs fun s hs => ?_
  refine ensures_sleep hs fun s hs => ?_
  refine ensures_report (outcome fs durationSec out) (by decide) ?_ hs
  rintro (err | ⟨counts, total⟩)
  · exact .inl rfl
  · exact .inr rfl

theorem Iolat.ensures_ends (R : Recorder 1 Iolat.maxSlots) (fs : Files)
    (json : GoString → String) (out : GoString) :
    (kernel R).Ensures
      (Ends Iolat.readRound (List.replicate Iolat.maxSlots 0) (outcome fs json out))
      (Iolat.session fs json out) (Kernel.boot _) := by
  unfold Iolat.session
  refine ensures_prepare opening_boot fun s hs => ?_
  refine ensures_prepare hs fun s hs => ?_
  refine ensures_prepare hs fun s hs => ?_
  refine ensures_attachStart hs fun s hs => ?_
  refine ensures_attachStop hs fun s hs => ?_
  refine ensures_sleep hs fun s hs => ?_
  refine ensures_report (outcome fs json out) (by decide) ?_ hs
  rintro (err | counts)
  · exact .inl rfl
  · exact .inr rfl

/-- No round of runqlat fails. -/
theorem Runqlat.foldlM_readRound {cpus : Nat}
    (lookup : UInt32 → Except String (Fin cpus → UInt64)) :
    (List.range Runqlat.maxSlots).foldlM
        (fun acc i => Runqlat.readRound acc i (lookup (UInt32.ofNat i)))
        (List.replicate Runqlat.maxSlots 0, 0) =
      .ok (Runqlat.readHist fun key => (lookup key).map List.ofFn) := by
  have hround : ∀ (acc : List UInt64 × UInt64) (i : Nat),
      Runqlat.readRound acc i (lookup (UInt32.ofNat i)) = .ok
        (match (lookup (UInt32.ofNat i)).map List.ofFn with
          | .error _ => acc
          | .ok perCPU => (acc.1.set i (wordSum perCPU), acc.2 + wordSum perCPU)) := by
    intro acc i
    unfold Runqlat.readRound
    cases lookup (UInt32.ofNat i) <;> rfl
  simp only [hround]
  exact List.foldlM_pure

/-- What a tool with one copy reads, and where it fails. -/
theorem sole_eq_error {r : Except String (Fin 1 → UInt64)} {err : String}
    (h : sole r = .error err) : r = .error err := by
  cases r with
  | error e => exact congrArg Except.error (Except.error.inj h)
  | ok v => contradiction

theorem sole_eq_ok {r : Except String (Fin 1 → UInt64)} {v : UInt64} (h : sole r = .ok v) :
    r = .ok fun _ => v := by
  cases r with
  | error e => contradiction
  | ok w =>
      congr 1
      funext c
      obtain rfl : c = soleCopy := Subsingleton.elim _ _
      exact Except.ok.inj h

section Sole

variable {slots : Nat} {R : Recorder 1 slots} {s : Kernel R}

/-- Lookups that all succeed were all made. -/
theorem answers_of_readsAs {g : Fin slots → UInt64}
    (hg : ReadsAs (fun key => sole (lookupOf s key)) g) (b : Fin slots) :
    s.notes.answers (UInt32.ofNat b.val) = some (.ok fun _ => g b) :=
  eq_of_lookupOf_ok (sole_eq_ok (hg b))

theorem shows_of_readsAs {g : Fin slots → UInt64}
    (hg : ReadsAs (fun key => sole (lookupOf s key)) g) : Shows s g where
  asked b := by
    rw [answers_of_readsAs hg b]
    exact Option.some_ne_none _
  read b value hvalue := by
    rw [answers_of_readsAs hg b] at hvalue
    obtain rfl := Except.ok.inj (Option.some.inj hvalue)
    rw [wordSum_ofFn_one]

theorem not_failed_of_readsAs {g : Fin slots → UInt64}
    (hg : ReadsAs (fun key => sole (lookupOf s key)) g) (b : Fin slots) : ¬ Failed s b := by
  rintro ⟨err, herr⟩
  rw [answers_of_readsAs hg b] at herr
  cases herr

/-- The first failure is one of a lookup that was made. -/
theorem failedFirst_of_firstFailure {B : Type}
    {round : B → Nat → Except String (Fin 1 → UInt64) → Except String B} {init : B}
    {acc : Except String B} (h : LookedUp round init (List.range slots) acc s)
    (hround : ∀ b i v, ∃ b', round b i (.ok v) = .ok b') {i : Nat} {err : String}
    (hi : i < slots) (hfirst : FirstFailure (fun key => sole (lookupOf s key)) i err) :
    FailedFirst s ⟨i, hi⟩ err where
  failed := by
    have hlookup : lookupOf s (UInt32.ofNat i) = .error err := sole_eq_error hfirst.1
    cases hanswer : s.notes.answers (UInt32.ofNat i) with
    | some r =>
        rw [lookupOf, hanswer] at hlookup
        exact congrArg some hlookup
    | none =>
        obtain ⟨j, hj, hnot⟩ := h.exists_failed hround (b := ⟨i, hi⟩) hanswer
        obtain ⟨v, hv⟩ := hfirst.2 j.val hj
        exact absurd (sole_eq_ok hv) (hnot _)
  before := by
    intro j hj
    obtain ⟨v, hv⟩ := hfirst.2 j.val hj
    exact ⟨_, eq_of_lookupOf_ok (sole_eq_ok hv)⟩

end Sole

/-! ## The pass of a run -/

/-- Whatever the process does, the handlers take the steps they may. -/
theorem invariant_legal : (kernel R).Invariant fun s => R.Legal s.handled where
  moves := by
    intro s s' hs hmove
    cases hmove with
    | fire allowed start stop => exact (Machine.legal_concat _ _ _).mpr ⟨hs, allowed⟩
  answers := by
    intro s q r s' hs hanswer
    cases hanswer <;> exact hs

theorem legal_of_run {A : Type} {p p' : Tool copies A} {s : Kernel R}
    (hrun : (kernel R).Run (Kernel.boot R) p s p') : R.Legal s.handled :=
  invariant_legal.run hrun trivial

/-- Along the run `as`, a copy of a bucket never holds less than `lo` of what
was done before, nor more than `hi` of what is done after. -/
structure Bounds (R : Recorder copies slots) (as : List R.Act)
    (lo hi : List R.Act → Fin copies → Fin slots → Nat) : Prop where
  between : ∀ {first moment last : List R.Act}, first <+: moment → moment <+: last → last <+: as →
    ∀ c b, lo first c b ≤ (R.cell (R.after moment) (c, b)).toNat ∧
      (R.cell (R.after moment) (c, b)).toNat ≤ hi last c b
  fits : ∀ {last : List R.Act}, last <+: as → ∑ b, ∑ c, hi last c b < 2 ^ 64

/-- What a report promises of its counts, but for the buckets `skipped`. -/
structure CountsWithin (lo hi : Fin slots → Nat) (skipped : Fin slots → Prop)
    (g : Fin slots → UInt64) (total : UInt64) : Prop where
  lower : ∀ b, ¬ skipped b → lo b ≤ (g b).toNat
  upper : ∀ b, (g b).toNat ≤ hi b
  skipped : ∀ b, skipped b → g b = 0
  total : total.toNat = ∑ b, (g b).toNat

theorem countsWithin {lo hi : Fin slots → Nat} (hfit : ∑ b, hi b < 2 ^ 64)
    {skipped : Fin slots → Prop} {g : Fin slots → UInt64} (hskipped : ∀ b, skipped b → g b = 0)
    (hread : ∀ b, ¬ skipped b → lo b ≤ (g b).toNat ∧ (g b).toNat ≤ hi b) :
    CountsWithin lo hi skipped g (wordSum (List.ofFn g)) := by
  have hupper : ∀ b, (g b).toNat ≤ hi b := by
    intro b
    by_cases hb : skipped b
    · rw [hskipped b hb]
      exact Nat.zero_le _
    · exact (hread b hb).2
  have hle : ∑ b, (g b).toNat ≤ ∑ b, hi b := Finset.sum_le_sum fun b _ => hupper b
  exact ⟨fun b hb => (hread b hb).1, hupper, hskipped, toNat_wordSum_ofFn (hle.trans_lt hfit)⟩

section Reads

variable {as first last : List R.Act} {lo hi : List R.Act → Fin copies → Fin slots → Nat}
  {lookup : UInt32 → Except String (Fin copies → UInt64)}

/-- A bucket that was read lies between the bounds at the two ends of the pass. -/
theorem bucket_within (hbounds : Bounds R as lo hi) (hlast : last <+: as)
    (h : ReadDuring R first last lookup) {b : Fin slots} {value : Fin copies → UInt64}
    (hv : lookup (UInt32.ofNat b.val) = .ok value) :
    ∑ c, lo first c b ≤ (wordSum (List.ofFn value)).toNat ∧
      (wordSum (List.ofFn value)).toNat ≤ ∑ c, hi last c b := by
  have hcopy : ∀ c, lo first c b ≤ (value c).toNat ∧ (value c).toNat ≤ hi last c b := by
    intro c
    obtain ⟨mid, hfirst, hmid, hcell⟩ := h b value hv c
    rw [hcell]
    exact hbounds.between hfirst hmid hlast c b
  have hfit : ∑ c, hi last c b < 2 ^ 64 := by
    have hle : ∑ c, hi last c b ≤ ∑ b, ∑ c, hi last c b :=
      Finset.single_le_sum (f := fun b => ∑ c, hi last c b) (fun _ _ => Nat.zero_le _)
        (Finset.mem_univ b)
    exact hle.trans_lt (hbounds.fits hlast)
  exact (wordSum_ofFn_between hcopy hfit).2

/-- The values of a tool that skips the buckets it cannot read, all of which it
has looked up. -/
theorem countsWithin_bucketRead {cpus : Nat} {R : Recorder cpus Runqlat.maxSlots}
    {as first last : List R.Act} {lo hi : List R.Act → Fin cpus → Fin Runqlat.maxSlots → Nat}
    (hbounds : Bounds R as lo hi) (hlast : last <+: as) {s : Kernel R}
    (h : ReadDuring R first last (lookupOf s))
    (hasked : ∀ b : Fin Runqlat.maxSlots, s.notes.answers (UInt32.ofNat b.val) ≠ none) :
    ∃ g total, Shows s g ∧
      CountsWithin (fun b => ∑ c, lo first c b) (fun b => ∑ c, hi last c b) (Failed s) g total ∧
      Runqlat.readHist (fun key => (lookupOf s key).map List.ofFn) = (List.ofFn g, total) := by
  have hfailed : ∀ (b : Fin Runqlat.maxSlots) err,
      s.notes.answers (UInt32.ofNat b.val) = some (.error err) →
      Runqlat.bucketRead (fun key => (lookupOf s key).map List.ofFn) b = 0 := by
    intro b err herr
    have hlookup : (lookupOf s (UInt32.ofNat b.val)).map List.ofFn = .error err := by
      rw [lookupOf, herr]
      rfl
    exact Runqlat.bucketRead_error hlookup
  have hread : ∀ (b : Fin Runqlat.maxSlots) value,
      s.notes.answers (UInt32.ofNat b.val) = some (.ok value) →
      Runqlat.bucketRead (fun key => (lookupOf s key).map List.ofFn) b =
        wordSum (List.ofFn value) := by
    intro b value hvalue
    have hlookup : (lookupOf s (UInt32.ofNat b.val)).map List.ofFn = .ok (List.ofFn value) := by
      rw [lookupOf, hvalue]
      rfl
    exact Runqlat.bucketRead_ok hlookup
  refine ⟨Runqlat.bucketRead fun key => (lookupOf s key).map List.ofFn, _, ⟨hasked, hread⟩,
    countsWithin (hbounds.fits hlast) ?_ ?_, Runqlat.readHist_eq _⟩
  · rintro b ⟨err, herr⟩
    exact hfailed b err herr
  · intro b hb
    cases hanswer : s.notes.answers (UInt32.ofNat b.val) with
    | none => exact absurd hanswer (hasked b)
    | some r =>
        cases r with
        | error err => exact absurd ⟨err, hanswer⟩ hb
        | ok value =>
            rw [hread b value hanswer]
            refine bucket_within hbounds hlast h ?_
            rw [lookupOf, hanswer]
            rfl

/-- The values of a tool with one copy, when every lookup succeeds. -/
theorem countsWithin_sole {R : Recorder 1 slots} {as first last : List R.Act}
    {lo hi : List R.Act → Fin 1 → Fin slots → Nat} (hbounds : Bounds R as lo hi)
    (hlast : last <+: as) {lookup : UInt32 → Except String (Fin 1 → UInt64)}
    (h : ReadDuring R first last lookup) {g : Fin slots → UInt64}
    (hg : ReadsAs (fun key => sole (lookup key)) g) :
    CountsWithin (fun b => ∑ c, lo first c b) (fun b => ∑ c, hi last c b) (fun _ => False) g
      (wordSum (List.ofFn g)) := by
  refine countsWithin (hbounds.fits hlast) (fun _ hb => absurd hb id) fun b _ => ?_
  have hwithin := bucket_within hbounds hlast h (sole_eq_ok (hg b))
  rwa [wordSum_ofFn_one] at hwithin

end Reads

/-! ## How the tools end -/

/-- memlat after the pass: it saves what the lookups found, or gives up at the
first that failed. -/
def Memlat.Reports {R : Recorder 1 Memlat.maxSlots} (s : Kernel R)
    (lo hi : Fin Memlat.maxSlots → Nat) (fs : Files) (durationSec : Nat) (out : GoString)
    (r : Exit Memlat.Summary) : Prop :=
  (∃ g total, Shows s g ∧ (∀ b, ¬ Failed s b) ∧ CountsWithin lo hi (fun _ => False) g total ∧
    r = Memlat.save fs out (List.ofFn g) (Memlat.summary durationSec total)) ∨
  ∃ i err, FailedFirst s i err ∧ r = { fatal := some s!"hist lookup bucket={i}: {err}" }

/-- runqlat saves what the lookups found, and zero for those that failed. -/
def Runqlat.Reports {cpus : Nat} {R : Recorder cpus Runqlat.maxSlots} (s : Kernel R)
    (lo hi : Fin Runqlat.maxSlots → Nat) (fs : Files) (durationSec : Nat) (out : GoString)
    (r : Exit Runqlat.Summary) : Prop :=
  ∃ g total, Shows s g ∧ CountsWithin lo hi (Failed s) g total ∧
    r = Runqlat.save fs out (List.ofFn g) (Runqlat.summary durationSec (List.ofFn g) total)

/-- iolat, like memlat, gives up at the first lookup that failed. -/
def Iolat.Reports {R : Recorder 1 Iolat.maxSlots} (s : Kernel R)
    (lo hi : Fin Iolat.maxSlots → Nat) (fs : Files) (json : GoString → String) (out : GoString)
    (r : Exit Iolat.Summary) : Prop :=
  (∃ g total, Shows s g ∧ (∀ b, ¬ Failed s b) ∧ CountsWithin lo hi (fun _ => False) g total ∧
    r = Iolat.save fs out (List.ofFn g) (Iolat.summary total (json (Iolat.normalizeOut out).1))) ∨
  ∃ i err, FailedFirst s i err ∧ r = { fatal := some s!"map lookup hist[{i}]: {err}" }

/-- How a run ends: it gave up without a sample and without a file, or it ended
like `reports` says of the two ends of its pass. -/
def Outcome (r : Exit S) (s : Kernel R) (reports : List R.Act → List R.Act → Prop) : Prop :=
  GaveUp r s ∨ ∃ first last, Window s first last ∧ reports first last

theorem Outcome.mono {r : Exit S} {s : Kernel R} {reports reports' : List R.Act → List R.Act → Prop}
    (h : Outcome r s reports)
    (himp : ∀ first last, Window s first last → reports first last → reports' first last) :
    Outcome r s reports' := by
  refine h.imp_right ?_
  rintro ⟨first, last, hwindow, hreports⟩
  exact ⟨first, last, hwindow, himp first last hwindow hreports⟩

theorem Memlat.run_reports {R : Recorder 1 Memlat.maxSlots} {fs : Files} {durationSec : Nat}
    {out : GoString} {s : Kernel R} {r : Exit Memlat.Summary}
    (hrun : (kernel R).Run (Kernel.boot R) (Memlat.session fs durationSec out) s (.result r))
    {lo hi : List R.Act → Fin 1 → Fin Memlat.maxSlots → Nat}
    (hbounds : Bounds R s.handled lo hi) :
    Outcome r s fun first last => Memlat.Reports s (fun b => ∑ c, lo first c b)
      (fun b => ∑ c, hi last c b) fs durationSec out r := by
  rcases (Memlat.ensures_ends R fs durationSec out).sound hrun with hgave | ⟨first, last, hrep⟩
  · exact .inl hgave
  · refine .inr ⟨first, last, hrep.window, ?_⟩
    obtain ⟨acc, hup, rfl⟩ := hrep.result
    have hmain : Memlat.outcome fs durationSec out acc =
        Memlat.main fs durationSec out fun key => sole (lookupOf s key) := by
      rw [hup.acc_eq]
      rfl
    rw [hmain]
    obtain ⟨g, hg⟩ := exists_readsOrFails (n := Memlat.maxSlots) fun key => sole (lookupOf s key)
    rcases hg.readsAs_or_firstFailure with hok | ⟨i, err, hi, hfirst⟩
    · refine .inl ⟨g, _, shows_of_readsAs hok, not_failed_of_readsAs hok,
        countsWithin_sole hbounds hrep.window.handled hrep.read hok, ?_⟩
      rw [Memlat.main, Memlat.readHist_ok hok]
    · refine .inr ⟨⟨i, hi⟩, err, failedFirst_of_firstFailure hup (fun _ _ _ => ⟨_, rfl⟩) hi hfirst,
        ?_⟩
      rw [Memlat.main, Memlat.readHist_error hi hfirst]
      rfl

theorem Runqlat.run_reports {cpus : Nat} {R : Recorder cpus Runqlat.maxSlots} {fs : Files}
    {durationSec : Nat} {out : GoString} {s : Kernel R} {r : Exit Runqlat.Summary}
    (hrun : (kernel R).Run (Kernel.boot R) (Runqlat.session cpus fs durationSec out) s (.result r))
    {lo hi : List R.Act → Fin cpus → Fin Runqlat.maxSlots → Nat}
    (hbounds : Bounds R s.handled lo hi) :
    Outcome r s fun first last => Runqlat.Reports s (fun b => ∑ c, lo first c b)
      (fun b => ∑ c, hi last c b) fs durationSec out r := by
  rcases (Runqlat.ensures_ends R fs durationSec out).sound hrun with hgave | ⟨first, last, hrep⟩
  · exact .inl hgave
  · refine .inr ⟨first, last, hrep.window, ?_⟩
    obtain ⟨acc, hup, rfl⟩ := hrep.result
    obtain rfl := hup.acc_eq.trans (Runqlat.foldlM_readRound (lookupOf s))
    obtain ⟨g, total, hshows, hwithin, hhist⟩ :=
      countsWithin_bucketRead hbounds hrep.window.handled hrep.read hup.asked_of_ok
    refine ⟨g, total, hshows, hwithin, ?_⟩
    rw [hhist]
    rfl

theorem Iolat.run_reports {R : Recorder 1 Iolat.maxSlots} {fs : Files} {json : GoString → String}
    {out : GoString} {s : Kernel R} {r : Exit Iolat.Summary}
    (hrun : (kernel R).Run (Kernel.boot R) (Iolat.session fs json out) s (.result r))
    {lo hi : List R.Act → Fin 1 → Fin Iolat.maxSlots → Nat} (hbounds : Bounds R s.handled lo hi) :
    Outcome r s fun first last => Iolat.Reports s (fun b => ∑ c, lo first c b)
      (fun b => ∑ c, hi last c b) fs json out r := by
  rcases (Iolat.ensures_ends R fs json out).sound hrun with hgave | ⟨first, last, hrep⟩
  · exact .inl hgave
  · refine .inr ⟨first, last, hrep.window, ?_⟩
    obtain ⟨acc, hup, rfl⟩ := hrep.result
    have hmain : Iolat.outcome fs json out acc =
        Iolat.main fs json out fun key => sole (lookupOf s key) := by
      rw [hup.acc_eq]
      rfl
    rw [hmain]
    obtain ⟨g, hg⟩ := exists_readsOrFails (n := Iolat.maxSlots) fun key => sole (lookupOf s key)
    rcases hg.readsAs_or_firstFailure with hok | ⟨i, err, hi, hfirst⟩
    · refine .inl ⟨g, _, shows_of_readsAs hok, not_failed_of_readsAs hok,
        countsWithin_sole hbounds hrep.window.handled hrep.read hok, ?_⟩
      rw [Iolat.main, Iolat.readCounts_ok hok, ← Iolat.sumCounts_ofFn]
    · refine .inr ⟨⟨i, hi⟩, err, failedFirst_of_firstFailure hup (fun _ _ _ => ⟨_, rfl⟩) hi hfirst,
        ?_⟩
      rw [Iolat.main, Iolat.readCounts_error hi hfirst]
      rfl

/-! ## Handlers that run one at a time -/

section Atomic

variable {V : Type} {copies slots cap : Nat} {P : Probe V copies slots cap}

/-- The latencies that were measured for each bucket. -/
noncomputable def latenciesIn (P : Probe V copies slots cap) (slotOf : Nat → Nat)
    (es : List P.Ev) (b : Fin slots) : Nat :=
  P.latencyCount (fun d => slotOf d = b) es

/-- Below `2^64` samples a copy of a bucket holds its samples. -/
theorem bounds_atomic {es : List P.Ev} (hfit : P.sampleCount es < 2 ^ 64) :
    Bounds P.atomic es P.copyCount P.copyCount where
  between := by
    rintro first _ _ ⟨mid, rfl⟩ ⟨post, rfl⟩ ⟨more, rfl⟩ c b
    have hlast : P.sampleCount (first ++ (mid ++ post)) < 2 ^ 64 := by
      rw [← List.append_assoc]
      exact (Stopwatch.matchedCount_le_append _ _ more).trans_lt hfit
    have hbetween := LiveRead.cell_between hlast c b
    rwa [← List.append_assoc] at hbetween
  fits := by
    rintro last ⟨more, rfl⟩
    simp only [Probe.sum_copies, Probe.sum_slotCount]
    exact (Stopwatch.matchedCount_le_append _ last more).trans_lt hfit

/-- With a monotone clock these are the true latencies. -/
theorem sum_copyCount {slotOf : Nat → Nat}
    (hslot : ∀ d : UInt64, (P.slot d).val = slotOf d.toNat) {es : List P.Ev}
    (hmono : P.NonDecreasing es) :
    (fun b => ∑ c, P.copyCount es c b) = latenciesIn P slotOf es := by
  funext b
  rw [Probe.sum_copies, Probe.slotCount_eq_latencyCount hslot hmono]
  rfl

/-- The clock is monotone at both ends of the pass. -/
theorem Window.nonDecreasing {s : Kernel P.atomic} {first last : List P.Ev}
    (h : Window s first last) (hmono : P.NonDecreasing s.handled) :
    P.NonDecreasing first ∧ P.NonDecreasing last := by
  obtain ⟨-, -, ⟨mid, rfl⟩, -, ⟨rest, hrest⟩⟩ := h
  rw [← hrest] at hmono
  exact ⟨hmono.left.left, hmono.left⟩

end Atomic

theorem Memlat.run_atomic {cap : Nat} {fs : Files} {durationSec : Nat} {out : GoString}
    {s : Kernel (Memlat.probe cap).atomic} {r : Exit Memlat.Summary}
    (hrun : (kernel (Memlat.probe cap).atomic).Run (Kernel.boot _)
      (Memlat.session fs durationSec out) s (.result r))
    (hmono : (Memlat.probe cap).NonDecreasing s.handled)
    (hfit : (Memlat.probe cap).sampleCount s.handled < 2 ^ 64) :
    Outcome r s fun first last =>
      Memlat.Reports s (latenciesIn (Memlat.probe cap) Memlat.slotOf first)
        (latenciesIn (Memlat.probe cap) Memlat.slotOf last) fs durationSec out r := by
  refine (Memlat.run_reports hrun (bounds_atomic hfit)).mono ?_
  intro first last hwindow hreports
  obtain ⟨hfirst, hlast⟩ := hwindow.nonDecreasing hmono
  rwa [sum_copyCount Memlat.val_slot hfirst, sum_copyCount Memlat.val_slot hlast] at hreports

theorem Runqlat.run_atomic {cpus cap : Nat} {fs : Files} {durationSec : Nat} {out : GoString}
    {s : Kernel (Runqlat.probe cpus cap).atomic} {r : Exit Runqlat.Summary}
    (hrun : (kernel (Runqlat.probe cpus cap).atomic).Run (Kernel.boot _)
      (Runqlat.session cpus fs durationSec out) s (.result r))
    (hmono : (Runqlat.probe cpus cap).NonDecreasing s.handled)
    (hfit : (Runqlat.probe cpus cap).sampleCount s.handled < 2 ^ 64) :
    Outcome r s fun first last =>
      Runqlat.Reports s (latenciesIn (Runqlat.probe cpus cap) (Nat.log 2) first)
        (latenciesIn (Runqlat.probe cpus cap) (Nat.log 2) last) fs durationSec out r := by
  refine (Runqlat.run_reports hrun (bounds_atomic hfit)).mono ?_
  intro first last hwindow hreports
  obtain ⟨hfirst, hlast⟩ := hwindow.nonDecreasing hmono
  have hslot : ∀ d : UInt64, ((Runqlat.probe cpus cap).slot d).val = Nat.log 2 d.toNat :=
    Runqlat.toNat_log2BucketU64
  rwa [sum_copyCount hslot hfirst, sum_copyCount hslot hlast] at hreports

theorem Iolat.run_atomic {cap : Nat} {fs : Files} {json : GoString → String} {out : GoString}
    {s : Kernel (Iolat.probe cap).atomic} {r : Exit Iolat.Summary}
    (hrun : (kernel (Iolat.probe cap).atomic).Run (Kernel.boot _) (Iolat.session fs json out) s
      (.result r))
    (hmono : (Iolat.probe cap).NonDecreasing s.handled)
    (hfit : (Iolat.probe cap).sampleCount s.handled < 2 ^ 64) :
    Outcome r s fun first last =>
      Iolat.Reports s (latenciesIn (Iolat.probe cap) Iolat.slotOf first)
        (latenciesIn (Iolat.probe cap) Iolat.slotOf last) fs json out r := by
  refine (Iolat.run_reports hrun (bounds_atomic hfit)).mono ?_
  intro first last hwindow hreports
  obtain ⟨hfirst, hlast⟩ := hwindow.nonDecreasing hmono
  rwa [sum_copyCount Iolat.val_slot hfirst, sum_copyCount Iolat.val_slot hlast] at hreports

/-- A kernel in which every call succeeds, and the handlers do `as` during the
sleep. -/
def during [DecidableEq R.Act] (as : List R.Act) (s : Kernel R) :
    (q : Call) → Answer copies q × Kernel R
  | .attempt (.prepare _) => (none, s.returned)
  | .attempt .attachStart => (none, { s.returned with startOn := true })
  | .attempt .attachStop => (none, s.opened)
  | .sleep =>
      if s.startOn = true ∧ s.stopOn = true ∧ s.handled = [] then
        ((), { s with handled := as }.slept)
      else ((), s.slept)
  | .lookup key =>
      let r : Except String (Fin copies → UInt64) :=
        if h : key.toNat < slots ∧ s.since <+: s.handled then
          .ok fun c => R.cell (R.after s.handled) (c, ⟨key.toNat, h.1⟩)
        else .error "lookup failed"
      (r, s.looked key r)
  | .closeStop => ((), { s.returned with stopOn := false })
  | .closeStart => ((), { s.returned with startOn := false })
  | .closeMaps => ((), s.returned)
  | .exit => ((), { s.returned with startOn := false, stopOn := false })

/-- With both probes attached, the handlers may do whatever is legal. -/
theorem later_of_legal {s : Kernel R} (hstart : s.startOn = true) (hstop : s.stopOn = true)
    {as : List R.Act} (h : R.Legal (s.handled ++ as)) :
    (kernel R).Later s { s with handled := s.handled ++ as } := by
  induction as using List.reverseRecOn with
  | nil =>
      rw [List.append_nil]
      exact .refl
  | append_singleton as a ih =>
      rw [← List.append_assoc] at h ⊢
      obtain ⟨hlegal, hallowed⟩ := (Machine.legal_concat _ _ _).mp h
      exact (ih hlegal).tail (.fire hallowed (fun _ => hstart) fun _ => hstop)

theorem serves_during [DecidableEq R.Act] {as : List R.Act} (hlegal : R.Legal as) :
    (kernel R).Serves (during as) := by
  have hnow : ∀ (s : Kernel R) (q : Call) (r : Answer copies q) (s' : Kernel R),
      Kernel.Answers s q r s' →
      ∃ mid, (kernel R).Later s mid ∧ (kernel R).answers mid q r s' :=
    fun s _ _ _ h => ⟨s, Relation.ReflTransGen.refl, h⟩
  rintro s (a | _ | key | _ | _ | _ | _)
  · cases a with
    | prepare what => exact hnow _ _ _ _ (.prepared s what)
    | attachStart => exact hnow _ _ _ _ (.startAttached s)
    | attachStop => exact hnow _ _ _ _ (.stopAttached s)
  · by_cases hon : s.startOn = true ∧ s.stopOn = true ∧ s.handled = []
    · rw [show during as s .sleep = _ from if_pos hon]
      -- the handlers have their time, and then the sleep is over
      have hafter : R.Legal (s.handled ++ as) := by
        rw [hon.2.2]
        exact hlegal
      have hlater := later_of_legal hon.1 hon.2.1 hafter
      rw [hon.2.2, List.nil_append] at hlater
      exact ⟨_, hlater, .slept _⟩
    · rw [show during as s .sleep = _ from if_neg hon]
      exact hnow _ _ _ _ (.slept s)
  · by_cases h : key.toNat < slots ∧ s.since <+: s.handled
    · simp only [during, dif_pos h]
      exact hnow _ _ _ _ (.found h.1 fun c => ⟨s.handled, h.2, List.prefix_refl _, rfl⟩)
    · simp only [during, dif_neg h]
      exact hnow _ _ _ _ (.notFound s key _)
  · exact hnow _ _ _ _ (.stopClosed s false (Bool.false_le _))
  · exact hnow _ _ _ _ (.startClosed s false (Bool.false_le _))
  · exact hnow _ _ _ _ (.mapsClosed s)
  · exact hnow _ _ _ _ (.exited s)

/-- memlat with `-out a`, and one fault during its sleep. -/
def oneFaultRun : Exit Memlat.Summary × Kernel (Memlat.probe 4).atomic :=
  Host.outcome (during [.entry 7 1000, .exit 7 9000]) (Memlat.session (allWell 100) 10 [97])
    (Kernel.boot _)

theorem run_oneFaultRun : (kernel (Memlat.probe 4).atomic).Run (Kernel.boot _)
    (Memlat.session (allWell 100) 10 [97]) oneFaultRun.2 (.result oneFaultRun.1) := by
  have hlegal : (Memlat.probe 4).atomic.Legal [.entry 7 1000, .exit 7 9000] :=
    ⟨trivial, trivial, trivial⟩
  exact (serves_during hlegal).run _ _

set_option maxRecDepth 8000 in
theorem handled_oneFaultRun : oneFaultRun.2.handled = [.entry 7 1000, .exit 7 9000] := by
  rfl

set_option maxRecDepth 8000 in
theorem fatal_oneFaultRun : oneFaultRun.1.fatal = none := by
  rfl

end EbpfToy.Session
