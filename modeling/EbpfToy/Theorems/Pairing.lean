import EbpfToy.Bpf.Memlat
import EbpfToy.Bpf.Runqlat
import EbpfToy.Bpf.Iolat

/-!
# Starts and stops are paired exactly

After any sequence of starts and stops, in any order and over any keys,
`start_ts` holds exactly the starts that are still open, and every bucket
holds the number of stops paired with an open start whose true latency falls
into it. What "open" means is said by the event history alone: the last event
on the key is a start, and its insert was accepted.
-/

namespace EbpfToy

open Lib

variable {V : Type} {copies slots cap : Nat}

/-- The maps after the events `es` are what the history says. -/
structure ExactPairing (P : Probe V copies slots cap) (es : List P.Ev) : Prop where
  /-- A key holds `v` iff the last event on it is an accepted start of `v`. -/
  startTs : ∀ k v, (P.table (P.run es)).lookup k = some v ↔ P.OpenAfter es k v
  /-- A bucket counts the matched stops whose true difference it holds. -/
  hist : ∀ b, P.hist (P.run es) b =
    UInt64.ofNat (P.matchedCount (fun e v => P.trueSlot e v = b) es)
  /-- The unsigned subtraction gives the true difference. -/
  noWrap : ∀ a e b v, es = a ++ e :: b → P.Matches a e v →
    P.tsOf v ≤ P.time e ∧ (P.time e - P.tsOf v).toNat = P.trueDiff e v
  /-- After a refused start its key is empty: no later stop can pair with an
  older start. -/
  refused : ∀ a e b k v, es = a ++ e :: b → P.view e = .start k v → ¬ P.Accepts a k →
    (∀ x ∈ b, (P.view x).key ≠ k) → (P.table (P.run es)).lookup k = none
  /-- A stop with no open start changes nothing. -/
  idle : ∀ e k, P.view e = .stop k → (∀ v, ¬ P.OpenAfter es k v) →
    P.step (P.run es) e = P.run es

theorem exactPairing_of_nonDecreasing (P : Probe V copies slots cap) {es : List P.Ev}
    (hmono : P.NonDecreasing es) : ExactPairing P es where
  startTs := Stopwatch.lookup_run_iff es
  hist b := by rw [Probe.hist_run, Probe.slotCount_eq hmono]
  noWrap a e b v hes hv :=
    ⟨Probe.tsOf_le_time (hmono.upTo hes) hv, Probe.toNat_delta (hmono.upTo hes) hv⟩
  refused a e b k v hes hview href hb := by
    rw [Stopwatch.lookup_run_eq_none_iff, hes]
    exact Stopwatch.not_openAfter_of_refused hview href hb
  idle _ _ hview hopen := Stopwatch.step_eq_of_not_open hview hopen

/-- The three tools pair starts and stops exactly, for every table size and
any number of CPUs. -/
theorem tools_pair_exactly :
    (∀ (cap : Nat) (es : List Memlat.Ev), (Memlat.probe cap).NonDecreasing es →
      ExactPairing (Memlat.probe cap) es) ∧
    (∀ (cpus cap : Nat) (es : List (Runqlat.Ev cpus)),
      (Runqlat.probe cpus cap).NonDecreasing es → ExactPairing (Runqlat.probe cpus cap) es) ∧
    (∀ (cap : Nat) (es : List Iolat.Ev), (Iolat.probe cap).NonDecreasing es →
      ExactPairing (Iolat.probe cap) es) := by
  refine ⟨?_, ?_, ?_⟩
  · intro cap es hmono
    exact exactPairing_of_nonDecreasing _ hmono
  · intro cpus cap es hmono
    exact exactPairing_of_nonDecreasing _ hmono
  · intro cap es hmono
    exact exactPairing_of_nonDecreasing _ hmono

/-- A full table, an overwritten wakeup and a request completed in parts. -/
theorem tools_pair_exactly_small :
    ExactPairing (Memlat.probe 1) [.entry 7 10, .entry 8 20, .exit 8 30, .exit 7 40] ∧
    ExactPairing (Runqlat.probe 2 4)
      [.wakeup 0 10 7, .wakeup 1 20 7, .switch 1 30 7, .switch 0 30 7] ∧
    ExactPairing (Iolat.probe 2)
      [.issue 7 10 3 (Vector.replicate 16 0), .complete 7 20 0 4096, .complete 7 30 0 4096] :=
  ⟨tools_pair_exactly.1 1 _ (by decide), tools_pair_exactly.2.1 2 4 _ (by decide),
    tools_pair_exactly.2.2 2 _ (by decide)⟩

end EbpfToy
