import EbpfToy.Bpf.Iolat
import EbpfToy.Lib.Machine
import Mathlib.Algebra.BigOperators.Group.Finset.Basic
import Mathlib.Data.List.Induction

/-!
# iolat over the lifecycles of requests

A request is issued, possibly issued again after a requeue, completed in
parts, and finished by its final completion; then its pointer may be used for
a new request. Every completion fires the same tracepoint.

The handler takes the first completion it sees for the final one. So a
lifecycle is sampled once, and with the time from its last issue to its final
completion, exactly when it is never issued again after a completion and its
first completion already has the time of the final one. And the samples are
what `hist` is made of: each bucket counts those of the lifecycles that are
over and of the requests in flight.
-/

namespace EbpfToy.Lifecycle

open Lib Iolat

/-- A lifecycle so far: its most recent issue, its first completion, whether
an issue followed a completion, and the deltas that went into `hist`. -/
structure Life where
  issuedAt : UInt64
  firstDone : Option UInt64
  reissued : Bool
  samples : List UInt64
  deriving DecidableEq

/-- A lifecycle that is over, with the time of its final completion. -/
structure Finished where
  rq : UInt64
  life : Life
  finalAt : UInt64
  deriving DecidableEq

/-- The requests in flight, the lifecycles that are over (latest first), and
the maps. -/
structure Disk (cap : Nat) where
  life : UInt64 → Option Life
  finished : List Finished
  maps : Maps cap

inductive Act where
  | issue (rq ts pidTgid : UInt64) (comm : Comm)
  | complete (rq now : UInt64) (error : UInt8) (nrBytes : UInt32) (final : Bool)
  deriving DecidableEq

/-- The lifecycle after an issue. -/
def issued (ts : UInt64) : Option Life → Life
  | none => ⟨ts, none, false, []⟩
  | some l => { l with issuedAt := ts, reissued := l.reissued || l.firstDone.isSome }

/-- The lifecycle after a completion that recorded a sample or none. -/
def Life.completed (l : Life) (now : UInt64) (sample : Option UInt64) : Life :=
  { l with firstDone := some (l.firstDone.getD now), samples := l.samples ++ sample.toList }

/-- The `delta_ns` that `iolat_complete` adds to `hist`, if it adds one. -/
def recorded {cap : Nat} (m : Maps cap) (rq now : UInt64) : Option UInt64 :=
  (m.startTs.lookup rq).map fun info => now - info.ts

def step {cap : Nat} (s : Disk cap) : Act → Disk cap
  | .issue rq ts pidTgid comm =>
      { s with
        life := Function.update s.life rq (some (issued ts (s.life rq)))
        maps := iolatIssue rq ts pidTgid comm s.maps }
  | .complete rq now error nrBytes final =>
      -- the handler runs the same for a partial and a final completion
      let maps := iolatComplete rq now error nrBytes s.maps
      match s.life rq with
      | none => { s with maps := maps }
      | some l =>
        let l := l.completed now (recorded s.maps rq now)
        if final then
          { life := Function.update s.life rq none, finished := ⟨rq, l, now⟩ :: s.finished,
            maps := maps }
        else { s with life := Function.update s.life rq (some l), maps := maps }

/-- Actions come in any order. A completion with nothing in flight, when tracing
started too late, belongs to no lifecycle. -/
def disk (cap : Nat) : Machine (Disk cap) Act where
  allowed _ _ := True
  next := step

/-- No request in flight, empty maps. -/
def idle {cap : Nat} : Disk cap := ⟨fun _ => none, [], empty⟩

/-- The lifecycle contributed one sample, the time from its last issue to its
final completion. -/
def Finished.SampledOnce (f : Finished) : Prop := f.life.samples = [f.finalAt - f.life.issuedAt]

/-- No issue follows a completion, and the first completion has the time of
the final one. -/
def Finished.Plain (f : Finished) : Prop :=
  f.life.reissued = false ∧ f.life.firstDone = some f.finalAt

/-- How many samples of the lifecycle fall into bucket `b`. -/
def Life.samplesIn (l : Life) (b : Fin maxSlots) : Nat := l.samples.countP fun d => slot d = b

/-- The samples in bucket `b` of a request, if it is in flight. -/
def inFlight (b : Fin maxSlots) (o : Option Life) : Nat := o.elim 0 fun l => l.samplesIn b

/-- The samples in bucket `b` of the lifecycles that are over and of the
requests of `rqs` in flight. -/
def Disk.samplesIn {cap : Nat} (s : Disk cap) (rqs : Finset UInt64) (b : Fin maxSlots) : Nat :=
  (s.finished.map fun f => f.life.samplesIn b).sum + ∑ rq ∈ rqs, inFlight b (s.life rq)

/-- Each bucket of `hist` counts these samples, modulo `2^64`. -/
def Disk.HistOfSamples {cap : Nat} (s : Disk cap) (rqs : Finset UInt64) : Prop :=
  ∀ b, s.maps.hist.value b = UInt64.ofNat (s.samplesIn rqs b)

def Act.rq : Act → UInt64
  | .issue rq _ _ _ => rq
  | .complete rq _ _ _ _ => rq

/-- The requests of a run. -/
def requests (as : List Act) : Finset UInt64 := (as.map Act.rq).toFinset

variable {cap : Nat}

/-- No start is refused along the run. -/
def NoRefusal (cap : Nat) (as : List Act) : Prop :=
  ∀ pre rq ts pidTgid comm post, as = pre ++ .issue rq ts pidTgid comm :: post →
    ((disk cap).exec idle pre).maps.startTs.Accepts rq

/-- A completion bumps the bucket of the delta it records. -/
theorem hist_iolatComplete (m : Maps cap) (rq now : UInt64) (error : UInt8) (nrBytes : UInt32) :
    (iolatComplete rq now error nrBytes m).hist =
      match recorded m rq now with
      | none => m.hist
      | some deltaNs => m.hist.bump (bucketOfDelta deltaNs) := by
  cases hl : m.startTs.lookup rq with
  | none => simp [iolatComplete_of_none hl, recorded, hl]
  | some info => simp [iolatComplete_of_some hl, recorded, hl]

/-! ## What one step does -/

/-- Whatever the lifecycle, the maps see the same completion. -/
theorem maps_complete (s : Disk cap) (rq now : UInt64) (error : UInt8) (nrBytes : UInt32)
    (final : Bool) : (step s (.complete rq now error nrBytes final)).maps =
      iolatComplete rq now error nrBytes s.maps := by
  cases hlife : s.life rq with
  | none => simp [step, hlife]
  | some l => cases final <;> simp [step, hlife]

/-- The lifecycle and the entry of every other pointer stay as they are. -/
theorem step_of_ne {s : Disk cap} {a : Act} {k : UInt64} (hk : k ≠ a.rq) :
    (step s a).life k = s.life k ∧
      (step s a).maps.startTs.lookup k = s.maps.startTs.lookup k := by
  cases a with
  | issue rq ts pidTgid comm =>
      exact ⟨Function.update_of_ne hk _ _, lookup_iolatIssue_of_ne hk ts pidTgid comm s.maps⟩
  | complete rq now error nrBytes final =>
      refine ⟨?_, ?_⟩
      · cases hlife : s.life rq with
        | none => simp [step, hlife]
        | some l =>
            have hne : k ≠ rq := hk
            cases final <;> simp [step, hlife, hne]
      · rw [maps_complete]
        exact lookup_iolatComplete_of_ne hk now error nrBytes s.maps

/-- A lifecycle still in flight after a completion is the one it was part of. -/
theorem life_complete {s : Disk cap} {rq now : UInt64} {error : UInt8} {nrBytes : UInt32}
    {final : Bool} {l' : Life}
    (h : (step s (.complete rq now error nrBytes final)).life rq = some l') :
    ∃ l, s.life rq = some l ∧ l' = l.completed now (recorded s.maps rq now) := by
  cases hlife : s.life rq with
  | none => simp [step, hlife] at h
  | some l =>
      cases final with
      | false => exact ⟨l, rfl, by simpa [step, hlife] using h.symm⟩
      | true => simp [step, hlife] at h

/-- A lifecycle that is over after a completion was over before, or is the one
the completion finished. -/
theorem mem_finished_complete {s : Disk cap} {rq now : UInt64} {error : UInt8}
    {nrBytes : UInt32} {final : Bool} {f : Finished}
    (h : f ∈ (step s (.complete rq now error nrBytes final)).finished) :
    f ∈ s.finished ∨
      ∃ l, s.life rq = some l ∧ f = ⟨rq, l.completed now (recorded s.maps rq now), now⟩ := by
  cases hlife : s.life rq with
  | none =>
      left
      simpa [step, hlife] using h
  | some l =>
      cases final with
      | false =>
          left
          simpa [step, hlife] using h
      | true =>
          have hcons : f = ⟨rq, l.completed now (recorded s.maps rq now), now⟩ ∨
              f ∈ s.finished := by simpa [step, hlife] using h
          rcases hcons with hf | hf
          · exact Or.inr ⟨l, rfl, hf⟩
          · exact Or.inl hf

/-! ## Samples and the histogram -/

/-- A pointer with nothing in flight has no entry. -/
def NoOrphan (s : Disk cap) : Prop := ∀ rq, s.life rq = none → s.maps.startTs.lookup rq = none

theorem NoOrphan.step {s : Disk cap} (h : NoOrphan s) (a : Act) : NoOrphan (step s a) := by
  intro k hnone
  by_cases hk : k = a.rq
  · subst hk
    cases a with
    | issue rq ts pidTgid comm =>
        -- the pointer is in flight from now on
        simp [Lifecycle.step, Act.rq] at hnone
    | complete rq now error nrBytes final =>
        rw [maps_complete]
        exact lookup_iolatComplete_self rq now error nrBytes s.maps
  · obtain ⟨hlife, hentry⟩ := step_of_ne (s := s) hk
    rw [hlife] at hnone
    rw [hentry]
    exact h k hnone

theorem noOrphan_exec (as : List Act) : NoOrphan ((disk cap).exec idle as) := by
  induction as using List.reverseRecOn with
  | nil =>
      intro rq _
      rfl
  | append_singleton as a ih =>
      rw [Machine.exec_concat]
      exact ih.step a

/-- A completion that is part of a lifecycle bumps the bucket of the sample it
adds to it, if it adds one, and any other completion changes nothing. -/
theorem hist_complete {s : Disk cap} (h : NoOrphan s) (rq now : UInt64) (error : UInt8)
    (nrBytes : UInt32) (final : Bool) :
    (step s (.complete rq now error nrBytes final)).maps.hist =
      match s.life rq with
      | none => s.maps.hist
      | some _ =>
          match recorded s.maps rq now with
          | none => s.maps.hist
          | some deltaNs => s.maps.hist.bump (bucketOfDelta deltaNs) := by
  rw [maps_complete, hist_iolatComplete]
  cases hlife : s.life rq with
  | none =>
      have hentry := h rq hlife
      simp [recorded, hentry]
  | some l => rfl

/-- Only the request that moves can change a sum over the requests in flight. -/
theorem sum_inFlight_step {s : Disk cap} {a : Act} {rqs : Finset UInt64} (hmem : a.rq ∈ rqs)
    (b : Fin maxSlots) :
    ∑ rq ∈ rqs, inFlight b ((step s a).life rq) + inFlight b (s.life a.rq) =
      ∑ rq ∈ rqs, inFlight b (s.life rq) + inFlight b ((step s a).life a.rq) := by
  have hothers : ∑ rq ∈ rqs.erase a.rq, inFlight b ((step s a).life rq) =
      ∑ rq ∈ rqs.erase a.rq, inFlight b (s.life rq) :=
    Finset.sum_congr rfl fun rq hrq =>
      congrArg (inFlight b) (step_of_ne (Finset.ne_of_mem_erase hrq)).1
  rw [← Finset.add_sum_erase rqs (fun rq => inFlight b ((step s a).life rq)) hmem,
    ← Finset.add_sum_erase rqs (fun rq => inFlight b (s.life rq)) hmem, hothers]
  omega

/-- An issue adds no sample. -/
theorem samplesIn_issue (s : Disk cap) {rq : UInt64} (ts pidTgid : UInt64) (comm : Comm)
    {rqs : Finset UInt64} (hmem : rq ∈ rqs) (b : Fin maxSlots) :
    (step s (.issue rq ts pidTgid comm)).samplesIn rqs b = s.samplesIn rqs b := by
  have hsum := sum_inFlight_step (s := s) (a := .issue rq ts pidTgid comm) hmem b
  have hsame : inFlight b ((step s (.issue rq ts pidTgid comm)).life rq) =
      inFlight b (s.life rq) := by
    cases hlife : s.life rq <;> simp [step, hlife, issued, inFlight, Life.samplesIn]
  show (s.finished.map fun f => f.life.samplesIn b).sum + _ = _
  simp only [Act.rq, hsame] at hsum
  rw [Disk.samplesIn]
  omega

/-- What a completion of the lifecycle `l` adds to bucket `b`. -/
theorem samplesIn_completed (l : Life) (now : UInt64) (sample : Option UInt64)
    (b : Fin maxSlots) :
    (l.completed now sample).samplesIn b =
      l.samplesIn b + sample.elim 0 fun d => if slot d = b then 1 else 0 := by
  cases sample with
  | none => simp [Life.samplesIn, Life.completed]
  | some d => by_cases hd : slot d = b <;> simp [Life.samplesIn, Life.completed, hd]

/-- A completion adds the sample it records to the lifecycle it is part of. -/
theorem samplesIn_complete (s : Disk cap) {rq : UInt64} (now : UInt64) (error : UInt8)
    (nrBytes : UInt32) (final : Bool) {rqs : Finset UInt64} (hmem : rq ∈ rqs)
    (b : Fin maxSlots) :
    (step s (.complete rq now error nrBytes final)).samplesIn rqs b =
      s.samplesIn rqs b +
        match s.life rq with
        | none => 0
        | some _ => (recorded s.maps rq now).elim 0 fun d => if slot d = b then 1 else 0 := by
  have hsum := sum_inFlight_step (s := s) (a := .complete rq now error nrBytes final) hmem b
  unfold Disk.samplesIn
  cases hlife : s.life rq with
  | none => simp [step, hlife]
  | some l =>
      have hadd := samplesIn_completed l now (recorded s.maps rq now) b
      cases final with
      | false =>
          simp [step, hlife, Act.rq, inFlight] at hsum ⊢
          omega
      | true =>
          -- the lifecycle moves to those that are over
          simp [step, hlife, Act.rq, inFlight] at hsum ⊢
          omega

theorem histOfSamples_step {s : Disk cap} (horphan : NoOrphan s) {rqs : Finset UInt64} {a : Act}
    (hmem : a.rq ∈ rqs) (h : s.HistOfSamples rqs) : (step s a).HistOfSamples rqs := by
  intro b
  have hb := h b
  cases a with
  | issue rq ts pidTgid comm =>
      have hrq : rq ∈ rqs := hmem
      rw [samplesIn_issue s ts pidTgid comm hrq]
      exact hb
  | complete rq now error nrBytes final =>
      have hrq : rq ∈ rqs := hmem
      rw [samplesIn_complete s now error nrBytes final hrq, hist_complete horphan]
      cases hlife : s.life rq with
      | none => exact hb
      | some l =>
          cases hrec : recorded s.maps rq now with
          | none => exact hb
          | some d =>
              show (s.maps.hist.bump (bucketOfDelta d)).value b = UInt64.ofNat (_ + _)
              rw [ArrayMap.value_bump _ (bucketOfDelta_lt d), hb]
              show (if slot d = b then _ else _) = _
              by_cases hd : slot d = b <;> simp [hd, UInt64.ofNat_add]

/-- The histogram is made of the samples of the lifecycles. -/
theorem histOfSamples_exec (as : List Act) {rqs : Finset UInt64}
    (hmem : ∀ a ∈ as, a.rq ∈ rqs) : ((disk cap).exec idle as).HistOfSamples rqs := by
  induction as using List.reverseRecOn with
  | nil =>
      intro b
      simp [Disk.samplesIn, inFlight, idle, empty, ArrayMap.zero]
  | append_singleton as a ih =>
      rw [Machine.exec_concat]
      refine histOfSamples_step (noOrphan_exec as) (hmem a (by simp)) (ih fun a' ha' => ?_)
      exact hmem a' (List.mem_append_left _ ha')

theorem histOfSamples_requests (as : List Act) :
    ((disk cap).exec idle as).HistOfSamples (requests as) :=
  histOfSamples_exec as fun _ ha => List.mem_toFinset.mpr (List.mem_map_of_mem ha)

/-! ## The invariant -/

/-- What the entry of a request in flight says about its lifecycle. -/
inductive Tracked (start : Option IolatStart) (l : Life) : Prop
  /-- Not completed yet: the entry is the last issue. -/
  | fresh (info : IolatStart) (hstart : start = some info) (hts : info.ts = l.issuedAt)
      (hfirst : l.firstDone = none) (hre : l.reissued = false) (hsamples : l.samples = [])
  /-- Completed, and not issued since: one sample, taken at the first completion. -/
  | done (first : UInt64) (hstart : start = none) (hfirst : l.firstDone = some first)
      (hre : l.reissued = false) (hsamples : l.samples = [first - l.issuedAt])
  /-- Issued again after a completion: more than one sample, or one and an entry. -/
  | again (hre : l.reissued = true) (hone : 1 ≤ l.samples.length)
      (htwo : start = none → 2 ≤ l.samples.length)

/-- An accepted issue. -/
theorem Tracked.issued {start : Option IolatStart} {l : Life} (h : Tracked start l)
    (info : IolatStart) : Tracked (some info) (issued info.ts (some l)) := by
  cases h with
  | fresh info' hstart hts hfirst hre hsamples =>
      exact .fresh info rfl rfl hfirst (by simp [Lifecycle.issued, hfirst, hre]) hsamples
  | done first hstart hfirst hre hsamples =>
      refine .again ?_ ?_ (fun hnone => ?_)
      · simp [Lifecycle.issued, hfirst]
      · simp [Lifecycle.issued, hsamples]
      · contradiction
  | again hre hone htwo =>
      refine .again ?_ hone (fun hnone => ?_)
      · simp [Lifecycle.issued, hre]
      · contradiction

/-- A completion, partial or final. -/
theorem Tracked.completed {start : Option IolatStart} {l : Life} (h : Tracked start l)
    (now : UInt64) :
    Tracked none (l.completed now (start.map fun info => now - info.ts)) := by
  cases h with
  | fresh info hstart hts hfirst hre hsamples =>
      refine .done now rfl ?_ hre ?_
      · simp [Life.completed, hfirst]
      · simp [Life.completed, hsamples, hstart, hts]
  | done first hstart hfirst hre hsamples =>
      -- no entry: this completion records nothing
      refine .done first rfl ?_ hre ?_
      · simp [Life.completed, hfirst]
      · simp [Life.completed, hsamples, hstart]
  | again hre hone htwo =>
      -- either an entry is still there, or a second sample already is
      have htwo' : 2 ≤ (l.samples ++ (start.map fun info => now - info.ts).toList).length := by
        cases start with
        | none => simpa using htwo rfl
        | some info => simp; omega
      exact .again hre (Nat.le_of_succ_le htwo') (fun _ => htwo')

/-- What the invariant says of a lifecycle whose final completion just came. -/
theorem Tracked.sampledOnce_iff {l : Life} (h : Tracked none l) (hdone : l.firstDone ≠ none)
    (now : UInt64) :
    l.samples = [now - l.issuedAt] ↔ l.reissued = false ∧ l.firstDone = some now := by
  cases h with
  | fresh info hstart hts hfirst hre hsamples => exact absurd hfirst hdone
  | done first hstart hfirst hre hsamples =>
      have hcancel : first - l.issuedAt = now - l.issuedAt ↔ first = now := by
        rw [UInt64.sub_left_inj]
      simp [hsamples, hre, hfirst, hcancel]
  | again hre hone htwo =>
      refine iff_of_false (fun hs => ?_) (fun ⟨hre', _⟩ => ?_)
      · have htwo' := htwo rfl
        rw [hs, List.length_singleton] at htwo'
        contradiction
      · rw [hre] at hre'
        contradiction

/-- Every request in flight is tracked by its entry, and every lifecycle that
is over was sampled once exactly when it was plain. -/
structure Inv (s : Disk cap) : Prop where
  tracked : ∀ rq l, s.life rq = some l → Tracked (s.maps.startTs.lookup rq) l
  finished : ∀ f ∈ s.finished, f.SampledOnce ↔ f.Plain

theorem inv_idle : Inv (idle : Disk cap) where
  tracked rq l hl := absurd hl (by simp [idle])
  finished f hf := absurd hf (by simp [idle])

/-- Other pointers stay tracked. -/
theorem Inv.tracked_of_ne {s : Disk cap} (hinv : Inv s) {a : Act} {k : UInt64} (hk : k ≠ a.rq)
    {l : Life} (hl : (step s a).life k = some l) :
    Tracked ((step s a).maps.startTs.lookup k) l := by
  obtain ⟨hlife, hentry⟩ := step_of_ne (s := s) hk
  rw [hlife] at hl
  rw [hentry]
  exact hinv.tracked k l hl

/-- An accepted issue keeps the invariant. -/
theorem Inv.issue {s : Disk cap} (hinv : Inv s) {rq : UInt64} (ts pidTgid : UInt64) (comm : Comm)
    (hacc : s.maps.startTs.Accepts rq) : Inv (step s (.issue rq ts pidTgid comm)) where
  tracked := by
    intro k l hl
    by_cases hk : k = rq
    · subst hk
      have hentry : (step s (.issue k ts pidTgid comm)).maps.startTs.lookup k =
          some ⟨ts, pidTgid, comm⟩ := BoundedMap.lookup_update_self hacc _
      have hissued : issued ts (s.life k) = l := by simpa [step] using hl
      rw [hentry, ← hissued]
      cases hold : s.life k with
      | none => exact .fresh _ rfl rfl rfl rfl rfl
      | some l' => exact (hinv.tracked k l' hold).issued ⟨ts, pidTgid, comm⟩
    · exact hinv.tracked_of_ne hk hl
  finished := hinv.finished

/-- A completion, partial or final, keeps the invariant. -/
theorem Inv.complete {s : Disk cap} (hinv : Inv s) (rq now : UInt64) (error : UInt8)
    (nrBytes : UInt32) (final : Bool) :
    Inv (step s (.complete rq now error nrBytes final)) where
  tracked := by
    intro k l' hl'
    by_cases hk : k = rq
    · subst hk
      obtain ⟨l, hl, rfl⟩ := life_complete hl'
      rw [maps_complete, lookup_iolatComplete_self]
      exact (hinv.tracked k l hl).completed now
    · exact hinv.tracked_of_ne hk hl'
  finished := by
    intro f hf
    rcases mem_finished_complete hf with hf | ⟨l, hl, rfl⟩
    · exact hinv.finished f hf
    · -- the completion that finishes the request has taken its entry
      have hdone := (hinv.tracked rq l hl).completed now
      exact hdone.sampledOnce_iff (by simp [Life.completed]) now

theorem inv_of_noRefusal {as : List Act} (haccept : NoRefusal cap as) :
    Inv ((disk cap).exec idle as) := by
  induction as using List.reverseRecOn with
  | nil => exact inv_idle
  | append_singleton as a ih =>
      have hinv := ih fun pre rq ts pidTgid comm post has =>
        haccept pre rq ts pidTgid comm (post ++ [a]) (by rw [has]; simp)
      rw [Machine.exec_concat]
      cases a with
      | issue rq ts pidTgid comm =>
          exact hinv.issue ts pidTgid comm (haccept as rq ts pidTgid comm [] rfl)
      | complete rq now error nrBytes final => exact hinv.complete rq now error nrBytes final

/-- In every run in which no start is refused, a lifecycle that is over was
sampled once, from its last issue to its final completion, exactly when no
issue followed a completion and the first completion has the time of the final
one; and the histogram counts the samples of the lifecycles. -/
theorem sampledOnce_iff_plain {as : List Act} (haccept : NoRefusal cap as) :
    (∀ f ∈ ((disk cap).exec idle as).finished, f.SampledOnce ↔ f.Plain) ∧
      ((disk cap).exec idle as).HistOfSamples (requests as) :=
  ⟨(inv_of_noRefusal haccept).finished, histOfSamples_requests as⟩

/-- What the probes see of a run. -/
def seen (as : List Act) : List Ev :=
  as.map fun a => match a with
    | .issue rq ts pidTgid comm => .issue rq ts pidTgid comm
    | .complete rq now error nrBytes _ => .complete rq now error nrBytes

/-- The maps are those of the probes on the events they see. -/
theorem maps_exec (as : List Act) : ((disk cap).exec idle as).maps = (probe cap).run (seen as) := by
  induction as using List.reverseRecOn with
  | nil => rfl
  | append_singleton as a ih =>
      rw [Machine.exec_concat, seen, List.map_append, List.map_singleton]
      cases a with
      | issue rq ts pidTgid comm =>
          show iolatIssue rq ts pidTgid comm _ =
            (probe cap).run (seen as ++ [.issue rq ts pidTgid comm])
          rw [Stopwatch.run_concat, ih]
          rfl
      | complete rq now error nrBytes final =>
          show (step ((disk cap).exec idle as) (.complete rq now error nrBytes final)).maps =
            (probe cap).run (seen as ++ [.complete rq now error nrBytes])
          rw [maps_complete, Stopwatch.run_concat, ih]
          rfl

/-- A run shorter than the table is large refuses no start. -/
theorem noRefusal_of_length_le {as : List Act} (h : as.length ≤ cap) : NoRefusal cap as := by
  intro pre rq ts pidTgid comm post has
  rw [maps_exec]
  have hseen : (seen pre).length = pre.length := List.length_map _
  have hpre : pre.length < as.length := by
    rw [has, List.length_append, List.length_cons]
    omega
  exact Stopwatch.accepts_of_length_lt (W := (probe cap).toStopwatch) (by omega) rq

/-- A request issued twice, then completed as a whole. -/
def requeued : List Act :=
  [.issue 7 0 1 (Vector.replicate 16 0), .issue 7 3 1 (Vector.replicate 16 0),
    .complete 7 10 0 4096 true]

theorem sampledOnce_iff_plain_requeued :
    Finished.SampledOnce ⟨7, ⟨3, some 10, false, [7]⟩, 10⟩ ↔
      Finished.Plain ⟨7, ⟨3, some 10, false, [7]⟩, 10⟩ := by
  have haccept : NoRefusal maxEntries requeued := noRefusal_of_length_le (by decide)
  exact (sampledOnce_iff_plain haccept).1 _ (by decide)

/-- A request completed in two parts, at 5 and at 10. -/
def twoParts : List Act :=
  [.issue 7 0 1 (Vector.replicate 16 0), .complete 7 5 0 2048 false, .complete 7 10 0 2048 true]

/-- Its one sample is 5, not the 10 from its issue to its final completion. -/
theorem twoParts_not_sampledOnce :
    NoRefusal maxEntries twoParts ∧
    ((disk maxEntries).exec idle twoParts).finished = [⟨7, ⟨0, some 5, false, [5]⟩, 10⟩] ∧
    ¬ ∀ f ∈ ((disk maxEntries).exec idle twoParts).finished, f.SampledOnce := by
  have hfinished : ((disk maxEntries).exec idle twoParts).finished =
      [⟨7, ⟨0, some 5, false, [5]⟩, 10⟩] := by decide
  refine ⟨noRefusal_of_length_le (by decide), hfinished, ?_⟩
  intro h
  rw [hfinished] at h
  have honce := h _ List.mem_cons_self
  exact absurd honce (by unfold Finished.SampledOnce; decide)

end EbpfToy.Lifecycle
