import EbpfToy.Bpf.Memlat
import EbpfToy.Bpf.Runqlat
import EbpfToy.Bpf.Iolat
import EbpfToy.Lib.PerKey

/-!
# Keys do not interfere

What one thread or request does is not visible in what the tools record of
another, as long as the shared table refuses nothing: two runs that show every
key the same events, however they interleave the keys and whatever CPUs they
use, end in the same maps. The histogram of a run is the sum of the histograms
of its keys, each running alone.
-/

namespace EbpfToy

open Lib

variable {V : Type} {copies slots cap : Nat}

/-- Every key sees the same starts and stops, with the same timestamps, in the
same order. -/
def SameOnKeys (P : Probe V copies slots cap) (es es' : List P.Ev) : Prop :=
  ∀ k, P.obsOn P.time k es = P.obsOn P.time k es'

/-- The keys of a run, each once. -/
def keysOf (P : Probe V copies slots cap) (es : List P.Ev) : List UInt64 :=
  (es.map fun e => (P.view e).key).dedup

/-- The maps after two runs are the same; the histogram is summed over its
copies. -/
structure SameMaps (P : Probe V copies slots cap) (es es' : List P.Ev) : Prop where
  startTs : P.table (P.run es) = P.table (P.run es')
  hist : ∀ b, P.hist (P.run es) b = P.hist (P.run es') b

/-- The histogram is the sum over the keys of the histograms of each key's own
run. -/
def SumOfKeys (P : Probe V copies slots cap) (es : List P.Ev) : Prop :=
  ∀ b, P.hist (P.run es) b =
    wordSum ((keysOf P es).map fun k => P.hist (P.run (P.onKey k es)) b)

/-- What `delta_ns` is measured from: the clock of the stop and the start's value. -/
def Probe.delta (P : Probe V copies slots cap) (now : UInt64) (v : V) : UInt64 := now - P.tsOf v

variable {P : Probe V copies slots cap}

/-- A bucket's count is the sum over any keys that include those of the run. -/
theorem slotCount_eq_sum_keys {es : List P.Ev} (hno : P.NoRefusal es) {S : Finset UInt64}
    (hS : ∀ e ∈ es, (P.view e).key ∈ S) (b : Fin slots) :
    P.slotCount es b = ∑ k ∈ S, P.keyCount P.time P.delta (fun d => P.slot d = b) k es :=
  Stopwatch.matchedCount_eq_sum P.time P.delta (fun d => P.slot d = b) hno hS

theorem key_mem_keysOf {es : List P.Ev} {e : P.Ev} (h : e ∈ es) :
    (P.view e).key ∈ (keysOf P es).toFinset := by
  simp only [keysOf, List.mem_toFinset, List.mem_dedup, List.mem_map]
  exact ⟨e, h, rfl⟩

theorem sameMaps_of_sameOnKeys {es es' : List P.Ev} (hsame : SameOnKeys P es es')
    (hno : P.NoRefusal es) (hno' : P.NoRefusal es') : SameMaps P es es' where
  startTs := by
    apply BoundedMap.ext_lookup
    intro k
    rw [Stopwatch.lookup_run_eq_held P.time P.delta hno k,
      Stopwatch.lookup_run_eq_held P.time P.delta hno' k, hsame k]
  hist := by
    intro b
    -- both counts are sums over the keys of the two runs together
    have hS : ∀ e ∈ es, (P.view e).key ∈ (keysOf P (es ++ es')).toFinset := fun e he =>
      key_mem_keysOf (List.mem_append_left es' he)
    have hS' : ∀ e ∈ es', (P.view e).key ∈ (keysOf P (es ++ es')).toFinset := fun e he =>
      key_mem_keysOf (List.mem_append_right es he)
    have hkeys : ∀ k, P.keyCount P.time P.delta (fun d => P.slot d = b) k es =
        P.keyCount P.time P.delta (fun d => P.slot d = b) k es' := by
      intro k
      rw [Stopwatch.keyCount, hsame k, Stopwatch.keyCount]
    rw [Probe.hist_run, Probe.hist_run, slotCount_eq_sum_keys hno hS,
      slotCount_eq_sum_keys hno' hS']
    simp only [hkeys]

theorem sumOfKeys {es : List P.Ev} (hno : P.NoRefusal es) : SumOfKeys P es := by
  intro b
  have hone : ∀ k, P.slotCount (P.onKey k es) b =
      P.keyCount P.time P.delta (fun d => P.slot d = b) k es :=
    Stopwatch.matchedCount_onKey P.time P.delta (fun d => P.slot d = b) hno
  have hS : ∀ e ∈ es, (P.view e).key ∈ (keysOf P es).toFinset := fun e he => key_mem_keysOf he
  have honce : (keysOf P es).Nodup := List.nodup_dedup _
  simp only [Probe.hist_run, hone]
  rw [wordSum_map_ofNat, slotCount_eq_sum_keys hno hS, List.sum_toFinset _ honce]

/-- For each tool, when no insert is refused: runs that are the same on every
key end in the same maps, and a histogram is the sum of its keys' own. -/
theorem keys_do_not_interfere :
    (∀ (cap : Nat) (es es' : List Memlat.Ev), SameOnKeys (Memlat.probe cap) es es' →
      (Memlat.probe cap).NoRefusal es → (Memlat.probe cap).NoRefusal es' →
      SameMaps (Memlat.probe cap) es es') ∧
    (∀ (cap : Nat) (es : List Memlat.Ev), (Memlat.probe cap).NoRefusal es →
      SumOfKeys (Memlat.probe cap) es) ∧
    (∀ (cpus cap : Nat) (es es' : List (Runqlat.Ev cpus)),
      SameOnKeys (Runqlat.probe cpus cap) es es' →
      (Runqlat.probe cpus cap).NoRefusal es → (Runqlat.probe cpus cap).NoRefusal es' →
      SameMaps (Runqlat.probe cpus cap) es es') ∧
    (∀ (cpus cap : Nat) (es : List (Runqlat.Ev cpus)), (Runqlat.probe cpus cap).NoRefusal es →
      SumOfKeys (Runqlat.probe cpus cap) es) ∧
    (∀ (cap : Nat) (es es' : List Iolat.Ev), SameOnKeys (Iolat.probe cap) es es' →
      (Iolat.probe cap).NoRefusal es → (Iolat.probe cap).NoRefusal es' →
      SameMaps (Iolat.probe cap) es es') ∧
    (∀ (cap : Nat) (es : List Iolat.Ev), (Iolat.probe cap).NoRefusal es →
      SumOfKeys (Iolat.probe cap) es) := by
  refine ⟨?_, ?_, ?_, ?_, ?_, ?_⟩
  · intro cap es es' hsame hno hno'
    exact sameMaps_of_sameOnKeys hsame hno hno'
  · intro cap es hno
    exact sumOfKeys hno
  · intro cpus cap es es' hsame hno hno'
    exact sameMaps_of_sameOnKeys hsame hno hno'
  · intro cpus cap es hno
    exact sumOfKeys hno
  · intro cap es es' hsame hno hno'
    exact sameMaps_of_sameOnKeys hsame hno hno'
  · intro cap es hno
    exact sumOfKeys hno

/-- Two threads' waits, one after the other and interleaved on other CPUs. -/
theorem keys_do_not_interfere_shuffled :
    SameMaps (Runqlat.probe 2 4)
      [.wakeup 0 10 7, .switch 0 30 7, .wakeup 0 20 8, .switch 0 40 8]
      [.wakeup 1 20 8, .wakeup 0 10 7, .switch 0 40 8, .switch 1 30 7] ∧
    SumOfKeys (Runqlat.probe 2 4)
      [.wakeup 1 20 8, .wakeup 0 10 7, .switch 0 40 8, .switch 1 30 7] := by
  have hno : (Runqlat.probe 2 4).NoRefusal
      [.wakeup 0 10 7, .switch 0 30 7, .wakeup 0 20 8, .switch 0 40 8] :=
    Stopwatch.noRefusal_of_length_le (by decide)
  have hno' : (Runqlat.probe 2 4).NoRefusal
      [.wakeup 1 20 8, .wakeup 0 10 7, .switch 0 40 8, .switch 1 30 7] :=
    Stopwatch.noRefusal_of_length_le (by decide)
  refine ⟨keys_do_not_interfere.2.2.1 2 4 _ _ ?_ hno hno',
    keys_do_not_interfere.2.2.2.1 2 4 _ hno'⟩
  intro k
  by_cases h7 : Runqlat.keyOf 7 = k
  · subst h7
    rfl
  · by_cases h8 : Runqlat.keyOf 8 = k
    · subst h8
      rfl
    · simp [Stopwatch.obsOn, Stopwatch.onKey, Runqlat.Ev.view, h7, h8]

end EbpfToy
