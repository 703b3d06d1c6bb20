import EbpfToy.Lib.Timeline
import EbpfToy.Theorems.Lifecycle

/-!
# What iolat counts for one request

A request may be issued again and completed in parts, and each completion that
finds an entry adds a sample. The samples of a lifecycle never overlap: each
begins at an issue that no earlier sample has used, and ends at the completion
that takes its entry. So together they are no longer than the lifecycle, from
its first issue to its final completion, and there are no more of them than
issues, whatever `start_ts` refused. When nothing is refused there is one at
least.
-/

namespace EbpfToy.Lifecycle

open Lib Iolat

def Act.time : Act → UInt64
  | .issue _ ts _ _ => ts
  | .complete _ now _ _ _ => now

/-- A lifecycle that is over, with the time of its first issue and the number
of its issues. -/
structure Lifetime where
  finished : Finished
  openedAt : UInt64
  issues : Nat
  deriving DecidableEq

/-- A disk under observation: the time of the latest action and, for a request
in flight, its first issue and the number of its issues so far. -/
structure Watched (cap : Nat) where
  disk : Disk cap
  clock : UInt64
  openedAt : UInt64 → UInt64
  issues : UInt64 → Nat
  lifetimes : List Lifetime

variable {cap : Nat}

def watch (w : Watched cap) (a : Act) : Watched cap :=
  match a with
  | .issue rq ts _ _ =>
      match w.disk.life rq with
      | none => { w with
          disk := step w.disk a
          clock := ts
          openedAt := Function.update w.openedAt rq ts
          issues := Function.update w.issues rq 1 }
      | some _ => { w with
          disk := step w.disk a
          clock := ts
          issues := Function.update w.issues rq (w.issues rq + 1) }
  | .complete rq now _ _ final =>
      match w.disk.life rq with
      | none => { w with disk := step w.disk a, clock := now }
      | some l =>
        let done : Finished := ⟨rq, l.completed now (recorded w.disk.maps rq now), now⟩
        { w with
          disk := step w.disk a
          clock := now
          lifetimes := if final then ⟨done, w.openedAt rq, w.issues rq⟩ :: w.lifetimes
            else w.lifetimes }

/-- The clock never goes back. -/
def watcher (cap : Nat) : Machine (Watched cap) Act where
  allowed w a := w.clock ≤ a.time
  next := watch

instance (w : Watched cap) (a : Act) : Decidable ((watcher cap).allowed w a) :=
  inferInstanceAs (Decidable (w.clock ≤ a.time))

def watching (cap : Nat) : Watched cap := ⟨idle, 0, fun _ => 0, fun _ => 0, []⟩

/-- The samples of a lifecycle, added up, in nanoseconds. -/
def Life.total (l : Life) : Nat := (l.samples.map UInt64.toNat).sum

/-- The samples fit into the lifecycle. -/
structure Lifetime.Fits (f : Lifetime) : Prop where
  opened : f.openedAt ≤ f.finished.finalAt
  total : f.finished.life.total ≤ f.finished.finalAt.toNat - f.openedAt.toNat
  samples : f.finished.life.samples.length ≤ f.issues

/-! ## The observation does not disturb the disk -/

theorem disk_watch (w : Watched cap) (a : Act) : (watch w a).disk = step w.disk a := by
  cases a with
  | issue rq ts pidTgid comm => cases hlife : w.disk.life rq <;> simp [watch, hlife]
  | complete rq now error nrBytes final => cases hlife : w.disk.life rq <;> simp [watch, hlife]

theorem clock_watch (w : Watched cap) (a : Act) : (watch w a).clock = a.time := by
  cases a with
  | issue rq ts pidTgid comm => cases hlife : w.disk.life rq <;> simp [watch, hlife, Act.time]
  | complete rq now error nrBytes final =>
      cases hlife : w.disk.life rq <;> simp [watch, hlife, Act.time]

theorem disk_exec (as : List Act) :
    ((watcher cap).exec (watching cap) as).disk = (disk cap).exec idle as := by
  induction as using List.reverseRecOn with
  | nil => rfl
  | append_singleton as a ih =>
      rw [Machine.exec_concat, Machine.exec_concat]
      show (watch _ a).disk = step _ a
      rw [disk_watch, ih]

/-- A lifetime is written down for each lifecycle that is over. -/
theorem map_finished_watch {w : Watched cap}
    (h : w.lifetimes.map Lifetime.finished = w.disk.finished) (a : Act) :
    (watch w a).lifetimes.map Lifetime.finished = (watch w a).disk.finished := by
  cases a with
  | issue rq ts pidTgid comm => cases hlife : w.disk.life rq <;> simpa [watch, hlife, step] using h
  | complete rq now error nrBytes final =>
      cases hlife : w.disk.life rq with
      | none => simpa [watch, hlife, step] using h
      | some l => cases final <;> simpa [watch, hlife, step] using h

theorem map_finished_exec (as : List Act) :
    ((watcher cap).exec (watching cap) as).lifetimes.map Lifetime.finished =
      ((disk cap).exec idle as).finished := by
  rw [← disk_exec]
  induction as using List.reverseRecOn with
  | nil => rfl
  | append_singleton as a ih =>
      rw [Machine.exec_concat]
      exact map_finished_watch ih a

/-! ## The samples of a request in flight -/

/-- How far its samples may reach: to its entry, which begins the next one, or
to the present. -/
def Watched.reach (w : Watched cap) (rq : UInt64) : Nat :=
  match w.disk.maps.startTs.lookup rq with
  | some info => info.ts.toNat
  | none => w.clock.toNat

/-- One for an entry, which is an issue without a sample yet. -/
def Watched.unused (w : Watched cap) (rq : UInt64) : Nat :=
  (w.disk.maps.startTs.lookup rq).toList.length

structure Fitting (w : Watched cap) : Prop where
  noOrphan : NoOrphan w.disk
  entry : ∀ rq info, w.disk.maps.startTs.lookup rq = some info → info.ts ≤ w.clock
  total : ∀ rq l, w.disk.life rq = some l → (w.openedAt rq).toNat + l.total ≤ w.reach rq
  samples : ∀ rq l, w.disk.life rq = some l → l.samples.length + w.unused rq ≤ w.issues rq
  ended : ∀ f ∈ w.lifetimes, f.Fits

theorem fitting_watching : Fitting (watching cap) where
  noOrphan _ _ := rfl
  entry rq info h := by simp [watching, idle, empty] at h
  total rq l h := by simp [watching, idle] at h
  samples rq l h := by simp [watching, idle] at h
  ended f h := absurd h List.not_mem_nil

theorem unused_le (w : Watched cap) (rq : UInt64) : w.unused rq ≤ 1 := by
  unfold Watched.unused
  cases w.disk.maps.startTs.lookup rq <;> simp

/-- Nothing reaches beyond the present. -/
theorem Fitting.reach_le {w : Watched cap} (h : Fitting w) (rq : UInt64) :
    w.reach rq ≤ w.clock.toNat := by
  unfold Watched.reach
  cases hl : w.disk.maps.startTs.lookup rq with
  | none => exact Nat.le_refl _
  | some info => exact UInt64.le_iff_toNat_le.mp (h.entry rq info hl)

/-- Other requests reach as far as before, or farther. -/
theorem reach_le_of_ne {w : Watched cap} {a : Act} (hle : w.clock ≤ a.time)
    {k : UInt64} (hk : k ≠ a.rq) : w.reach k ≤ (watch w a).reach k := by
  have hentry := (step_of_ne (s := w.disk) hk).2
  unfold Watched.reach
  rw [disk_watch, hentry, clock_watch]
  cases hl : w.disk.maps.startTs.lookup k with
  | none => exact UInt64.le_iff_toNat_le.mp hle
  | some info => exact Nat.le_refl _

theorem unused_of_ne (w : Watched cap) {a : Act} {k : UInt64} (hk : k ≠ a.rq) :
    (watch w a).unused k = w.unused k := by
  unfold Watched.unused
  rw [disk_watch, (step_of_ne (s := w.disk) hk).2]

/-- What an action writes down about other requests. -/
theorem openedAt_of_ne (w : Watched cap) {a : Act} {k : UInt64} (hk : k ≠ a.rq) :
    (watch w a).openedAt k = w.openedAt k ∧ (watch w a).issues k = w.issues k := by
  cases a with
  | issue rq ts pidTgid comm =>
      have hne : k ≠ rq := hk
      cases hlife : w.disk.life rq <;> simp [watch, hlife, hne]
  | complete rq now error nrBytes final => cases hlife : w.disk.life rq <;> simp [watch, hlife]

/-- An entry after an issue has its time; there is none if it was refused. -/
theorem ts_of_lookup_issue {m : Maps cap} {rq ts pidTgid : UInt64} {comm : Comm}
    {info : IolatStart} (h : (iolatIssue rq ts pidTgid comm m).startTs.lookup rq = some info) :
    info.ts = ts := by
  have hupdate : (m.startTs.update rq ⟨ts, pidTgid, comm⟩).lookup rq = some info := h
  by_cases hacc : m.startTs.Accepts rq
  · rw [BoundedMap.lookup_update_self hacc, Option.some.injEq] at hupdate
    rw [← hupdate]
  · rw [BoundedMap.update_of_not_accepts hacc,
      BoundedMap.lookup_eq_none_of_not_accepts hacc] at hupdate
    contradiction

/-- The samples so far end before an issue. -/
theorem reach_issue (w : Watched cap) (rq ts pidTgid : UInt64) (comm : Comm) :
    (watch w (.issue rq ts pidTgid comm)).reach rq = ts.toNat := by
  unfold Watched.reach
  rw [disk_watch, clock_watch]
  show (match (iolatIssue rq ts pidTgid comm w.disk.maps).startTs.lookup rq with
    | some info => info.ts.toNat
    | none => ts.toNat) = ts.toNat
  cases hl : (iolatIssue rq ts pidTgid comm w.disk.maps).startTs.lookup rq with
  | none => rfl
  | some info => exact congrArg UInt64.toNat (ts_of_lookup_issue hl)

theorem Fitting.issue {w : Watched cap} (h : Fitting w) {rq ts : UInt64} (pidTgid : UInt64)
    (comm : Comm) (hle : w.clock ≤ ts) : Fitting (watch w (.issue rq ts pidTgid comm)) := by
  set a : Act := .issue rq ts pidTgid comm with ha
  have hlife : (watch w a).disk.life rq = some (issued ts (w.disk.life rq)) := by
    rw [disk_watch]
    exact Function.update_self rq _ _
  refine ⟨?_, ?_, ?_, ?_, ?_⟩
  · rw [disk_watch]
    exact h.noOrphan.step a
  · intro k info hl
    rw [clock_watch]
    by_cases hk : k = rq
    · subst hk
      rw [disk_watch] at hl
      rw [ts_of_lookup_issue hl]
      exact UInt64.le_refl ts
    · rw [disk_watch, (step_of_ne (a := a) hk).2] at hl
      exact UInt64.le_trans (h.entry k info hl) hle
  · intro k l hl
    by_cases hk : k = rq
    · subst hk
      obtain rfl : issued ts (w.disk.life k) = l := Option.some.inj (hlife.symm.trans hl)
      rw [ha, reach_issue]
      cases hold : w.disk.life k with
      | none => simp [watch, hold, issued, Life.total]
      | some l₀ =>
          have hopened : (watch w (.issue k ts pidTgid comm)).openedAt k = w.openedAt k := by
            simp [watch, hold]
          have htotal := h.total k l₀ hold
          have hpast := h.reach_le k
          have hle' := UInt64.le_iff_toNat_le.mp hle
          rw [hopened]
          show (w.openedAt k).toNat + l₀.total ≤ ts.toNat
          omega
    · rw [disk_watch, (step_of_ne (a := a) hk).1] at hl
      rw [(openedAt_of_ne w (a := a) hk).1]
      exact (h.total k l hl).trans (reach_le_of_ne (a := a) hle hk)
  · intro k l hl
    by_cases hk : k = rq
    · subst hk
      obtain rfl : issued ts (w.disk.life k) = l := Option.some.inj (hlife.symm.trans hl)
      have hunused := unused_le (watch w a) k
      cases hold : w.disk.life k with
      | none =>
          have hissues : (watch w a).issues k = 1 := by simp [ha, watch, hold]
          rw [hissues]
          show 0 + _ ≤ 1
          omega
      | some l₀ =>
          have hissues : (watch w a).issues k = w.issues k + 1 := by simp [ha, watch, hold]
          have hsamples := h.samples k l₀ hold
          rw [hissues]
          show l₀.samples.length + _ ≤ _
          omega
    · rw [disk_watch, (step_of_ne (a := a) hk).1] at hl
      rw [(openedAt_of_ne w (a := a) hk).2, unused_of_ne w (a := a) hk]
      exact h.samples k l hl
  · intro f hf
    have hsame : (watch w a).lifetimes = w.lifetimes := by
      cases hold : w.disk.life rq <;> simp [ha, watch, hold]
    rw [hsame] at hf
    exact h.ended f hf

/-- A completion that finds an entry adds the time since then, and any other
adds nothing: the samples reach up to it at most. -/
theorem Fitting.completed {w : Watched cap} (h : Fitting w) {rq now : UInt64} {l : Life}
    (hlife : w.disk.life rq = some l) (hle : w.clock ≤ now) :
    (w.openedAt rq).toNat + (l.completed now (recorded w.disk.maps rq now)).total ≤ now.toNat ∧
      (l.completed now (recorded w.disk.maps rq now)).samples.length ≤ w.issues rq := by
  have htotal := h.total rq l hlife
  have hsamples := h.samples rq l hlife
  have hpast := h.reach_le rq
  have hle' := UInt64.le_iff_toNat_le.mp hle
  cases hl : w.disk.maps.startTs.lookup rq with
  | none =>
      have hnone : recorded w.disk.maps rq now = none := by simp [recorded, hl]
      have hsame : (l.completed now none).samples = l.samples := List.append_nil _
      rw [hnone, Life.total, hsame]
      show (w.openedAt rq).toNat + l.total ≤ _ ∧ _
      omega
  | some info =>
      have hsome : recorded w.disk.maps rq now = some (now - info.ts) := by simp [recorded, hl]
      have hreach : w.reach rq = info.ts.toNat := by simp [Watched.reach, hl]
      have hunused : w.unused rq = 1 := by simp [Watched.unused, hl]
      have hentry : info.ts ≤ now := UInt64.le_trans (h.entry rq info hl) hle
      have hdelta : (now - info.ts).toNat = now.toNat - info.ts.toNat :=
        UInt64.toNat_sub_of_le _ _ hentry
      have hentry' := UInt64.le_iff_toNat_le.mp hentry
      have hmore :
          (l.completed now (some (now - info.ts))).samples = l.samples ++ [now - info.ts] := rfl
      rw [hsome, Life.total, hmore, List.map_append, List.sum_append, List.length_append]
      show (w.openedAt rq).toNat + (l.total + ((now - info.ts).toNat + 0)) ≤ _ ∧ _ + 1 ≤ _
      omega

theorem Fitting.complete {w : Watched cap} (h : Fitting w) {rq now : UInt64} (error : UInt8)
    (nrBytes : UInt32) (final : Bool) (hle : w.clock ≤ now) :
    Fitting (watch w (.complete rq now error nrBytes final)) := by
  set a : Act := .complete rq now error nrBytes final with ha
  have hentry : (watch w a).disk.maps.startTs.lookup rq = none := by
    rw [disk_watch, ha, maps_complete]
    exact lookup_iolatComplete_self rq now error nrBytes w.disk.maps
  have hsame : (watch w a).openedAt = w.openedAt ∧ (watch w a).issues = w.issues := by
    cases hold : w.disk.life rq <;> simp [ha, watch, hold]
  refine ⟨?_, ?_, ?_, ?_, ?_⟩
  · rw [disk_watch]
    exact h.noOrphan.step a
  · intro k info hl
    by_cases hk : k = rq
    · subst hk
      rw [hentry] at hl
      contradiction
    · rw [disk_watch, (step_of_ne (a := a) hk).2] at hl
      rw [clock_watch]
      exact UInt64.le_trans (h.entry k info hl) hle
  · intro k l' hl'
    rw [hsame.1]
    by_cases hk : k = rq
    · subst hk
      have hreach : (watch w a).reach k = now.toNat := by
        rw [Watched.reach, hentry, clock_watch]
        rfl
      rw [disk_watch] at hl'
      obtain ⟨l, hl, rfl⟩ := life_complete hl'
      rw [hreach]
      exact (h.completed hl hle).1
    · rw [disk_watch, (step_of_ne (a := a) hk).1] at hl'
      exact (h.total k l' hl').trans (reach_le_of_ne (a := a) hle hk)
  · intro k l' hl'
    rw [hsame.2]
    by_cases hk : k = rq
    · subst hk
      have hunused : (watch w a).unused k = 0 := by rw [Watched.unused, hentry]; rfl
      rw [disk_watch] at hl'
      obtain ⟨l, hl, rfl⟩ := life_complete hl'
      rw [hunused]
      exact (h.completed hl hle).2
    · rw [disk_watch, (step_of_ne (a := a) hk).1] at hl'
      rw [unused_of_ne w (a := a) hk]
      exact h.samples k l' hl'
  · intro f hf
    cases hlife : w.disk.life rq with
    | none => exact h.ended f (by simpa [ha, watch, hlife] using hf)
    | some l =>
        cases final with
        | false => exact h.ended f (by simpa [ha, watch, hlife] using hf)
        | true =>
            have hcons : f = ⟨⟨rq, l.completed now (recorded w.disk.maps rq now), now⟩,
                w.openedAt rq, w.issues rq⟩ ∨ f ∈ w.lifetimes := by
              simpa [ha, watch, hlife] using hf
            rcases hcons with rfl | hold
            · obtain ⟨htotal, hsamples⟩ := h.completed hlife hle
              refine ⟨UInt64.le_iff_toNat_le.mpr ?_, ?_, hsamples⟩
              · show (w.openedAt rq).toNat ≤ now.toNat
                omega
              · show (l.completed now (recorded w.disk.maps rq now)).total ≤
                  now.toNat - (w.openedAt rq).toNat
                omega
            · exact h.ended f hold

theorem fitting_of_legal {as : List Act} (h : (watcher cap).Legal (watching cap) as) :
    Fitting ((watcher cap).exec (watching cap) as) := by
  refine h.invariant (fun w a hfit hle => ?_) fitting_watching
  cases a with
  | issue rq ts pidTgid comm => exact hfit.issue pidTgid comm hle
  | complete rq now error nrBytes final => exact hfit.complete error nrBytes final hle

/-- A tracked lifecycle that was completed has a sample. -/
theorem Tracked.one_le_samples {start : Option IolatStart} {l : Life} (h : Tracked start l)
    (hdone : l.firstDone ≠ none) : 1 ≤ l.samples.length := by
  cases h with
  | fresh info hstart hts hfirst hre hsamples => exact absurd hfirst hdone
  | done first hstart hfirst hre hsamples =>
      rw [hsamples]
      exact Nat.le_refl 1
  | again hre hone htwo => exact hone

/-- With nothing refused, no lifecycle is left out. -/
theorem one_le_samples {as : List Act} (haccept : NoRefusal cap as) :
    ∀ f ∈ ((disk cap).exec idle as).finished, 1 ≤ f.life.samples.length := by
  induction as using List.reverseRecOn with
  | nil =>
      intro f hf
      exact absurd hf List.not_mem_nil
  | append_singleton as a ih =>
      have hpre : NoRefusal cap as := fun pre rq ts pidTgid comm post has =>
        haccept pre rq ts pidTgid comm (post ++ [a]) (by rw [has]; simp)
      have hinv := inv_of_noRefusal hpre
      intro f hf
      rw [Machine.exec_concat] at hf
      cases a with
      | issue rq ts pidTgid comm => exact ih hpre f hf
      | complete rq now error nrBytes final =>
          rcases mem_finished_complete hf with hold | ⟨l, hl, rfl⟩
          · exact ih hpre f hold
          · exact ((hinv.tracked rq l hl).completed now).one_le_samples (by simp [Life.completed])

/-- In every run with a clock that never goes back: the samples of a lifecycle
that is over are together no longer than it was, and no more than its issues;
if nothing was refused there is one at least. The histogram counts the samples
of the lifecycles. -/
theorem samples_fit_lifetime {as : List Act} (hlegal : (watcher cap).Legal (watching cap) as) :
    ((watcher cap).exec (watching cap) as).lifetimes.map Lifetime.finished =
        ((disk cap).exec idle as).finished ∧
      (∀ f ∈ ((watcher cap).exec (watching cap) as).lifetimes, f.Fits ∧
        (NoRefusal cap as → 1 ≤ f.finished.life.samples.length)) ∧
      ((disk cap).exec idle as).HistOfSamples (requests as) := by
  refine ⟨map_finished_exec as, fun f hf => ⟨(fitting_of_legal hlegal).ended f hf, ?_⟩,
    histOfSamples_requests as⟩
  intro haccept
  apply one_le_samples haccept
  rw [← map_finished_exec]
  exact List.mem_map_of_mem hf

/-- A request completed in part, issued again for the rest, and completed: its
samples are 5 and 3, of the 10 that it took. -/
def inParts : List Act :=
  [.issue 7 0 1 (Vector.replicate 16 0), .complete 7 5 0 2048 false,
    .issue 7 7 1 (Vector.replicate 16 0), .complete 7 10 0 2048 true]

theorem samples_fit_lifetime_inParts :
    Lifetime.Fits ⟨⟨7, ⟨7, some 5, true, [5, 3]⟩, 10⟩, 0, 2⟩ := by
  have hlegal : (watcher maxEntries).Legal (watching maxEntries) inParts := by decide
  exact ((samples_fit_lifetime hlegal).2.1 _ (by decide)).1

end EbpfToy.Lifecycle
