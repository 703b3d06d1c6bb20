import EbpfToy.Go.Report
import EbpfToy.Lib.Machine

/-!
# Reading the histogram while the probes are attached

The Go side reads the cells of `hist` bucket by bucket while the handlers keep
running; the probes are detached only after the report is written. What it
collects is not a state the maps were ever in, but every cell only grows, so
each value read lies between the cell's true values at the two ends of the
pass, and so do all sums of them.
-/

namespace EbpfToy.LiveRead

open Lib

variable {V : Type} {copies slots cap : Nat}

/-- The maps, the buckets still to be looked up, in order, and the values read
so far. -/
structure Pass (P : Probe V copies slots cap) where
  maps : P.St
  todo : List (Fin slots)
  values : Fin slots → Fin copies → Option UInt64

/-- A handler runs, a copy of the current bucket is read, or the reader goes on
to the next bucket. -/
inductive Act (P : Probe V copies slots cap) where
  | handle (e : P.Ev)
  | read (c : Fin copies)
  | next

/-- The lookup of a bucket reads each of its copies once, in any order. -/
def Allowed {P : Probe V copies slots cap} (s : Pass P) : Act P → Prop
  | .handle _ => True
  | .read c =>
      match s.todo with
      | [] => False
      | b :: _ => s.values b c = none
  | .next =>
      match s.todo with
      | [] => False
      | b :: _ => ∀ c, s.values b c ≠ none

def step {P : Probe V copies slots cap} (s : Pass P) : Act P → Pass P
  | .handle e => { s with maps := P.step s.maps e }
  | .read c =>
      match s.todo with
      | [] => s
      | b :: _ =>
        { s with
          values := Function.update s.values b
            (Function.update (s.values b) c (some (P.cell s.maps (c, b)))) }
  | .next => { s with todo := s.todo.tail }

def pass (P : Probe V copies slots cap) : Machine (Pass P) (Act P) where
  allowed := Allowed
  next := step

instance {P : Probe V copies slots cap} (s : Pass P) :
    (a : Act P) → Decidable ((pass P).allowed s a)
  | .handle _ => inferInstanceAs (Decidable True)
  | .read c =>
      match h : s.todo with
      | [] => isFalse (by simp [pass, Allowed, h])
      | b :: _ => decidable_of_iff (s.values b c = none) (by simp [pass, Allowed, h])
  | .next =>
      match h : s.todo with
      | [] => isFalse (by simp [pass, Allowed, h])
      | b :: _ => decidable_of_iff (∀ c, s.values b c ≠ none) (by simp [pass, Allowed, h])

/-- The pass begins after the events `pre`. -/
def begin (P : Probe V copies slots cap) (pre : List P.Ev) : Pass P :=
  ⟨P.run pre, List.finRange slots, fun _ _ => none⟩

/-- The events handled during the pass. -/
def handled {P : Probe V copies slots cap} (as : List (Act P)) : List P.Ev :=
  as.filterMap fun a => match a with
    | .handle e => some e
    | .read _ => none
    | .next => none

/-- The value read for a copy of a bucket. -/
def Pass.value {P : Probe V copies slots cap} (s : Pass P) (b : Fin slots) (c : Fin copies) :
    UInt64 :=
  (s.values b c).getD 0

variable {P : Probe V copies slots cap}

theorem handled_handle (as : List (Act P)) (e : P.Ev) :
    handled (as ++ [.handle e]) = handled as ++ [e] := List.filterMap_append

/-- The reader handles no event. -/
theorem handled_read (as : List (Act P)) (c : Fin copies) :
    handled (as ++ [.read c]) = handled as := by
  rw [handled, List.filterMap_append]
  exact List.append_nil _

theorem handled_next (as : List (Act P)) : handled (as ++ [.next]) = handled as := by
  rw [handled, List.filterMap_append]
  exact List.append_nil _

/-! ## What has been read -/

/-- After the actions `as`: every value read is the cell's value at some point
of the pass, and every bucket that is not to be looked up has been read. -/
structure Inv (pre : List P.Ev) (as : List (Act P)) (s : Pass P) : Prop where
  maps : s.maps = P.run (pre ++ handled as)
  values : ∀ b c v, s.values b c = some v →
    ∃ mid post, handled as = mid ++ post ∧ v = P.cell (P.run (pre ++ mid)) (c, b)
  read : ∀ b, b ∈ s.todo ∨ ∀ c, s.values b c ≠ none

theorem inv_begin (pre : List P.Ev) : Inv pre [] (begin P pre) where
  maps := by rw [handled, List.filterMap_nil, List.append_nil]; rfl
  values b c v h := absurd h (by simp [begin])
  read b := Or.inl (List.mem_finRange b)

/-- A handler changes the maps only. -/
theorem Inv.handle {pre : List P.Ev} {as : List (Act P)} {s : Pass P} (h : Inv pre as s)
    (e : P.Ev) : Inv pre (as ++ [.handle e]) (step s (.handle e)) where
  maps := by
    show P.step s.maps e = _
    rw [handled_handle, ← List.append_assoc, Stopwatch.run_concat, h.maps]
  values := by
    intro b c v hv
    obtain ⟨mid, post, hmid, hcell⟩ := h.values b c v hv
    exact ⟨mid, post ++ [e], by rw [handled_handle, hmid, List.append_assoc], hcell⟩
  read := h.read

/-- The values read, with one more. -/
theorem update_update_apply (values : Fin slots → Fin copies → Option UInt64) (b b' : Fin slots)
    (c c' : Fin copies) (x : Option UInt64) :
    Function.update values b (Function.update (values b) c x) b' c' =
      if b' = b ∧ c' = c then x else values b' c' := by
  by_cases hb : b' = b
  · subst hb
    by_cases hc : c' = c
    · simp [hc]
    · simp [hc]
  · simp [hb]

/-- A read notes the cell's present value. -/
theorem Inv.readCopy {pre : List P.Ev} {as : List (Act P)} {s : Pass P} (h : Inv pre as s)
    (c : Fin copies) : Inv pre (as ++ [.read c]) (step s (.read c)) := by
  cases htodo : s.todo with
  | nil =>
      have hstep : step s (.read c) = s := by simp [step, htodo]
      rw [hstep]
      exact ⟨by rw [handled_read]; exact h.maps, by rw [handled_read]; exact h.values, h.read⟩
  | cons b rest =>
      have hstep : step s (.read c) = { s with
          values := Function.update s.values b
            (Function.update (s.values b) c (some (P.cell s.maps (c, b)))) } := by
        simp [step, htodo]
      rw [hstep]
      refine ⟨by rw [handled_read]; exact h.maps, ?_, ?_⟩
      · intro b' c' v hv
        rw [handled_read]
        simp only [update_update_apply] at hv
        split at hv
        · -- the value just read is the cell's at the end of the pass so far
          rename_i hnew
          obtain ⟨rfl, rfl⟩ := hnew
          refine ⟨handled as, [], (List.append_nil _).symm, ?_⟩
          rw [← h.maps]
          exact (Option.some.inj hv).symm
        · exact h.values b' c' v hv
      · intro b'
        rcases h.read b' with hin | hread
        · exact Or.inl hin
        · right
          intro c'
          simp only [update_update_apply]
          split
          · exact Option.some_ne_none _
          · exact hread c'

/-- Going on to the next bucket leaves a bucket whose copies are all read. -/
theorem Inv.next {pre : List P.Ev} {as : List (Act P)} {s : Pass P} (h : Inv pre as s)
    (hallowed : Allowed s .next) : Inv pre (as ++ [.next]) (step s .next) := by
  refine ⟨by rw [handled_next]; exact h.maps, by rw [handled_next]; exact h.values, ?_⟩
  intro b
  rcases h.read b with hin | hread
  · show b ∈ s.todo.tail ∨ ∀ c, s.values b c ≠ none
    unfold Allowed at hallowed
    cases htodo : s.todo with
    | nil => rw [htodo] at hin; exact absurd hin (by simp)
    | cons b' rest =>
        rw [htodo] at hin
        simp only [htodo] at hallowed
        rcases List.mem_cons.mp hin with rfl | hin
        · exact Or.inr hallowed
        · exact Or.inl hin
  · exact Or.inr hread

theorem inv_of_legal {pre : List P.Ev} {as : List (Act P)}
    (hlegal : (pass P).Legal (begin P pre) as) :
    Inv pre as ((pass P).exec (begin P pre) as) := by
  induction as using List.reverseRecOn with
  | nil => exact inv_begin pre
  | append_singleton as a ih =>
      rw [Machine.legal_concat] at hlegal
      have h := ih hlegal.1
      rw [Machine.exec_concat]
      cases a with
      | handle e => exact h.handle e
      | read c => exact h.readCopy c
      | next => exact h.next hlegal.2

/-! ## Bounds -/

/-- A cell's value at a point of the pass, against its true values at the two
ends. -/
theorem cell_between {pre mid post : List P.Ev}
    (hfit : P.sampleCount (pre ++ (mid ++ post)) < 2 ^ 64) (c : Fin copies) (b : Fin slots) :
    P.copyCount pre c b ≤ (P.cell (P.run (pre ++ mid)) (c, b)).toNat ∧
      (P.cell (P.run (pre ++ mid)) (c, b)).toNat ≤ P.copyCount (pre ++ (mid ++ post)) c b := by
  -- counts only grow along a run, and below `2^64` a cell is its count
  have hlow : P.copyCount pre c b ≤ P.copyCount (pre ++ mid) c b :=
    Stopwatch.matchedCount_le_append _ pre mid
  have hhigh : P.copyCount (pre ++ mid) c b ≤ P.copyCount (pre ++ (mid ++ post)) c b := by
    rw [← List.append_assoc]
    exact Stopwatch.matchedCount_le_append _ (pre ++ mid) post
  have hlt : P.copyCount (pre ++ mid) c b < 2 ^ 64 :=
    (hhigh.trans (Probe.copyCount_le _ c b)).trans_lt hfit
  rw [Probe.cell_eq, UInt64.toNat_ofNat', Nat.mod_eq_of_lt hlt]
  exact ⟨hlow, hhigh⟩

/-- When the pass is over, every value read lies between the two ends. -/
theorem value_between {pre : List P.Ev} {as : List (Act P)}
    (hlegal : (pass P).Legal (begin P pre) as)
    (hover : ((pass P).exec (begin P pre) as).todo = [])
    (hfit : P.sampleCount (pre ++ handled as) < 2 ^ 64) (b : Fin slots) (c : Fin copies) :
    P.copyCount pre c b ≤ (((pass P).exec (begin P pre) as).value b c).toNat ∧
      (((pass P).exec (begin P pre) as).value b c).toNat ≤
        P.copyCount (pre ++ handled as) c b := by
  have hinv := inv_of_legal hlegal
  -- nothing is left to look up, so every bucket has been read
  rcases hinv.read b with hin | hread
  · rw [hover] at hin
    exact absurd hin (by simp)
  · obtain ⟨v, hv⟩ := Option.ne_none_iff_exists'.mp (hread c)
    obtain ⟨mid, post, hmid, hcell⟩ := hinv.values b c v hv
    have hvalue : ((pass P).exec (begin P pre) as).value b c = v := by
      rw [Pass.value, hv]
      rfl
    rw [hvalue, hcell, hmid]
    rw [hmid] at hfit
    exact cell_between hfit c b

/-- So does the sum of a bucket's values over the copies. -/
theorem bucket_between {pre : List P.Ev} {as : List (Act P)}
    (hlegal : (pass P).Legal (begin P pre) as)
    (hover : ((pass P).exec (begin P pre) as).todo = [])
    (hfit : P.sampleCount (pre ++ handled as) < 2 ^ 64) (b : Fin slots) :
    P.slotCount pre b ≤
        (wordSum (List.ofFn (((pass P).exec (begin P pre) as).value b))).toNat ∧
      (wordSum (List.ofFn (((pass P).exec (begin P pre) as).value b))).toNat ≤
        P.slotCount (pre ++ handled as) b := by
  have hsum : ∑ c, P.copyCount (pre ++ handled as) c b < 2 ^ 64 := by
    rw [Probe.sum_copies]
    exact Probe.noOverflow_of_sampleCount hfit b
  have hbounds := (wordSum_ofFn_between (value_between hlegal hover hfit b) hsum).2
  rw [Probe.sum_copies, Probe.sum_copies] at hbounds
  exact hbounds

/-- What a report of a live read promises, when the pass began after the events
`pre` and ended after the events `es`. -/
structure SafeRead (P : Probe V copies slots cap) (pre es : List P.Ev) (counts : List UInt64)
    (total : UInt64) : Prop where
  length : counts.length = slots
  /-- Every count lies between the bucket's true values at the two ends. -/
  count : ∀ (b : Fin slots) n, counts[b.val]? = some n →
    (P.hist (P.run pre) b).toNat ≤ n.toNat ∧ n.toNat ≤ (P.hist (P.run es) b).toNat
  /-- The total is the exact sum of the counts. -/
  sum : total.toNat = (counts.map UInt64.toNat).sum
  /-- The total lies between the samples recorded at the two ends. -/
  samples : P.bumpCount pre ≤ total.toNat ∧ total.toNat ≤ P.bumpCount es

theorem safeRead_of_between {pre post : List P.Ev} {g : Fin slots → UInt64}
    (hfit : P.sampleCount (pre ++ post) < 2 ^ 64)
    (h : ∀ b, P.slotCount pre b ≤ (g b).toNat ∧ (g b).toNat ≤ P.slotCount (pre ++ post) b) :
    SafeRead P pre (pre ++ post) (List.ofFn g) (wordSum (List.ofFn g)) := by
  have hpre : P.sampleCount pre < 2 ^ 64 :=
    (Stopwatch.matchedCount_le_append _ pre post).trans_lt hfit
  have hbounds := wordSum_ofFn_between h (by rw [Probe.sum_slotCount]; exact hfit)
  rw [Probe.sum_slotCount, Probe.sum_slotCount] at hbounds
  refine ⟨List.length_ofFn, ?_, ?_, ?_⟩
  · intro b n hn
    obtain rfl : g b = n := by simpa using hn
    rw [Probe.toNat_hist_run (Probe.noOverflow_of_sampleCount hpre),
      Probe.toNat_hist_run (Probe.noOverflow_of_sampleCount hfit)]
    exact h b
  · rw [hbounds.1, List.map_ofFn, List.sum_ofFn]
    rfl
  · rw [Stopwatch.bumpCount_eq, Stopwatch.bumpCount_eq]
    exact hbounds.2

/-! ## The three tools -/

/-- The read is safe for a tool that adds up its copies. -/
theorem safeRead_sum {pre : List P.Ev} {as : List (Act P)}
    (hlegal : (pass P).Legal (begin P pre) as)
    (hover : ((pass P).exec (begin P pre) as).todo = [])
    (hfit : P.bumpCount (pre ++ handled as) < 2 ^ 64) :
    SafeRead P pre (pre ++ handled as)
      (List.ofFn fun b => wordSum (List.ofFn (((pass P).exec (begin P pre) as).value b)))
      (wordSum (List.ofFn fun b =>
        wordSum (List.ofFn (((pass P).exec (begin P pre) as).value b)))) := by
  rw [Stopwatch.bumpCount_eq] at hfit
  exact safeRead_of_between hfit (bucket_between hlegal hover hfit)

/-- The read is safe for a tool with one copy. -/
theorem safeRead_one {P : Probe V 1 slots cap} {pre : List P.Ev} {as : List (Act P)}
    (hlegal : (pass P).Legal (begin P pre) as)
    (hover : ((pass P).exec (begin P pre) as).todo = [])
    (hfit : P.bumpCount (pre ++ handled as) < 2 ^ 64) :
    SafeRead P pre (pre ++ handled as)
      (List.ofFn fun b => ((pass P).exec (begin P pre) as).value b 0)
      (wordSum (List.ofFn fun b => ((pass P).exec (begin P pre) as).value b 0)) := by
  have hsafe := safeRead_sum hlegal hover hfit
  simp only [wordSum_ofFn_one] at hsafe
  exact hsafe

/-- The true tail count of runqlat after the events `es`: what the buckets hold
whose lower bound is 8, the threshold, or more. -/
def tailCount {cpus : Nat} (cap : Nat) (es : List (Runqlat.Ev cpus)) : Nat :=
  ∑ b : Fin Runqlat.maxSlots,
    if 8 ≤ 2 ^ b.val then
      ((Runqlat.probe cpus cap).hist ((Runqlat.probe cpus cap).run es) b).toNat
    else 0

/-- The buckets that `sumTail` adds up for the declared threshold. -/
theorem startBucket_le_iff_eight_le (b : Nat) :
    Runqlat.startBucket Runqlat.tailThresholdUs ≤ b ↔ 8 ≤ 2 ^ b := by
  rw [Runqlat.startBucket_tailThresholdUs]
  exact (Nat.pow_le_pow_iff_right (a := 2) (by decide)).symm

/-- The reported tail lies between the true tail counts at the two ends. -/
theorem tail_between {cpus cap : Nat} {pre post : List (Runqlat.Ev cpus)}
    {g : Fin Runqlat.maxSlots → UInt64} {total : UInt64}
    (hfit : (Runqlat.probe cpus cap).bumpCount (pre ++ post) < 2 ^ 64)
    (h : SafeRead (Runqlat.probe cpus cap) pre (pre ++ post) (List.ofFn g) total) :
    tailCount cap pre ≤ (Runqlat.sumTail (List.ofFn g) Runqlat.tailThresholdUs).toNat ∧
      (Runqlat.sumTail (List.ofFn g) Runqlat.tailThresholdUs).toNat ≤
        tailCount cap (pre ++ post) := by
  have hcount : ∀ b, ((Runqlat.probe cpus cap).hist ((Runqlat.probe cpus cap).run pre) b).toNat ≤
      (g b).toNat ∧ (g b).toNat ≤
        ((Runqlat.probe cpus cap).hist ((Runqlat.probe cpus cap).run (pre ++ post)) b).toNat :=
    fun b => h.count b (g b) (by simp)
  have hsum : ∑ b, (g b).toNat = total.toNat := by
    rw [h.sum, List.map_ofFn, List.sum_ofFn]
    rfl
  have hlt : ∑ b, (g b).toNat < 2 ^ 64 := by
    rw [hsum]
    exact h.samples.2.trans_lt hfit
  rw [Runqlat.toNat_sumTail_eq hlt]
  simp only [tailCount, ← startBucket_le_iff_eight_le]
  exact ⟨sum_tail_mono (fun b => (hcount b).1) _, sum_tail_mono (fun b => (hcount b).2) _⟩

/-- For each tool, a report read while the probes are attached is within the
bounds of the two ends of its pass. -/
theorem live_reads_are_safe :
    (∀ (cap : Nat) (pre : List Memlat.Ev) (as : List (Act (Memlat.probe cap))),
      (pass (Memlat.probe cap)).Legal (begin _ pre) as →
      ((pass (Memlat.probe cap)).exec (begin _ pre) as).todo = [] →
      (Memlat.probe cap).bumpCount (pre ++ handled as) < 2 ^ 64 →
      ∀ lookup, ReadsAs lookup
          (fun b => ((pass (Memlat.probe cap)).exec (begin _ pre) as).value b 0) →
        ∃ counts total, Memlat.readHist lookup = .ok (counts, total) ∧
          SafeRead (Memlat.probe cap) pre (pre ++ handled as) counts total) ∧
    (∀ (cpus cap : Nat) (pre : List (Runqlat.Ev cpus))
        (as : List (Act (Runqlat.probe cpus cap))),
      (pass (Runqlat.probe cpus cap)).Legal (begin _ pre) as →
      ((pass (Runqlat.probe cpus cap)).exec (begin _ pre) as).todo = [] →
      (Runqlat.probe cpus cap).bumpCount (pre ++ handled as) < 2 ^ 64 →
      ∀ lookup, ReadsAs lookup
          (fun b => List.ofFn (((pass (Runqlat.probe cpus cap)).exec (begin _ pre) as).value b)) →
        SafeRead (Runqlat.probe cpus cap) pre (pre ++ handled as)
            (Runqlat.readHist lookup).1 (Runqlat.readHist lookup).2 ∧
          ∀ durationSec,
            tailCount cap pre ≤ (Runqlat.report durationSec lookup).2.tailEvents.toNat ∧
            (Runqlat.report durationSec lookup).2.tailEvents.toNat ≤
              tailCount cap (pre ++ handled as)) ∧
    (∀ (cap : Nat) (pre : List Iolat.Ev) (as : List (Act (Iolat.probe cap))),
      (pass (Iolat.probe cap)).Legal (begin _ pre) as →
      ((pass (Iolat.probe cap)).exec (begin _ pre) as).todo = [] →
      (Iolat.probe cap).bumpCount (pre ++ handled as) < 2 ^ 64 →
      ∀ lookup, ReadsAs lookup
          (fun b => ((pass (Iolat.probe cap)).exec (begin _ pre) as).value b 0) →
        ∃ counts, Iolat.readCounts lookup = .ok counts ∧
          SafeRead (Iolat.probe cap) pre (pre ++ handled as) counts (Iolat.sumCounts counts)) := by
  refine ⟨?_, ?_, ?_⟩
  · intro cap pre as hlegal hover hfit lookup hreads
    exact ⟨_, _, Memlat.readHist_ok hreads, safeRead_one hlegal hover hfit⟩
  · intro cpus cap pre as hlegal hover hfit lookup hreads
    have hsafe := safeRead_sum hlegal hover hfit
    have htail := tail_between hfit hsafe
    refine ⟨?_, ?_⟩
    · rw [Runqlat.readHist_ok hreads]
      exact hsafe
    · intro durationSec
      rw [Runqlat.report_tailEvents, Runqlat.readHist_ok hreads]
      exact htail
  · intro cap pre as hlegal hover hfit lookup hreads
    refine ⟨_, Iolat.readCounts_ok hreads, ?_⟩
    rw [Iolat.sumCounts_ofFn]
    exact safeRead_one hlegal hover hfit

/-- The lookups of `n` buckets, with nothing in between. -/
def lookups (P : Probe V copies slots cap) (n : Nat) : List (Act P) :=
  (List.replicate n ((List.finRange copies).map .read ++ [.next])).flatten

/-- A pass in which the event `e` comes after the lookup of the first bucket. -/
def passAround (P : Probe V copies slots cap) (e : P.Ev) : List (Act P) :=
  lookups P 1 ++ .handle e :: lookups P (slots - 1)

set_option maxRecDepth 4000 in
/-- One event in the middle of each tool's pass. -/
theorem live_reads_are_safe_around :
    (∃ counts total, Memlat.readHist (lookupAll fun b =>
        ((pass (Memlat.probe 4)).exec (begin _ [.entry 7 0])
          (passAround _ (.exit 7 5000))).value b 0) = .ok (counts, total) ∧
      SafeRead (Memlat.probe 4) [.entry 7 0]
        ([.entry 7 0] ++ handled (passAround (Memlat.probe 4) (.exit 7 5000))) counts total) ∧
    SafeRead (Runqlat.probe 2 4) [.wakeup 0 0 7]
      ([.wakeup 0 0 7] ++ handled (passAround (Runqlat.probe 2 4) (.switch 1 5000 7)))
      (Runqlat.readHist (lookupAll fun b => List.ofFn
        (((pass (Runqlat.probe 2 4)).exec (begin _ [.wakeup 0 0 7])
          (passAround _ (.switch 1 5000 7))).value b))).1
      (Runqlat.readHist (lookupAll fun b => List.ofFn
        (((pass (Runqlat.probe 2 4)).exec (begin _ [.wakeup 0 0 7])
          (passAround _ (.switch 1 5000 7))).value b))).2 ∧
    (∃ counts, Iolat.readCounts (lookupAll fun b =>
        ((pass (Iolat.probe 4)).exec (begin _ [.issue 7 0 3 (Vector.replicate 16 0)])
          (passAround _ (.complete 7 5000 0 4096))).value b 0) = .ok counts ∧
      SafeRead (Iolat.probe 4) [.issue 7 0 3 (Vector.replicate 16 0)]
        ([.issue 7 0 3 (Vector.replicate 16 0)] ++
          handled (passAround (Iolat.probe 4) (.complete 7 5000 0 4096)))
        counts (Iolat.sumCounts counts)) := by
  refine ⟨?_, ?_, ?_⟩
  · exact live_reads_are_safe.1 4 _ _ (by decide) (by decide)
      (Stopwatch.bumpCount_lt_of_length (by decide)) _ (readsAs_lookupAll _ (by decide))
  · exact (live_reads_are_safe.2.1 2 4 _ _ (by decide) (by decide)
      (Stopwatch.bumpCount_lt_of_length (by decide)) _ (readsAs_lookupAll _ (by decide))).1
  · exact live_reads_are_safe.2.2 4 _ _ (by decide) (by decide)
      (Stopwatch.bumpCount_lt_of_length (by decide)) _ (readsAs_lookupAll _ (by decide))

end EbpfToy.LiveRead
