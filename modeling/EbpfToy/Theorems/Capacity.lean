import EbpfToy.Bpf.Memlat
import EbpfToy.Bpf.Runqlat
import EbpfToy.Bpf.Iolat
import EbpfToy.Lib.Capacity

/-!
# What `max_entries` does to a measurement

`start_ts` is declared with 8192 entries in memlat and with 131072 in runqlat
and iolat, and the handlers ignore a refused insert. So the report depends on
the declared number:

* nothing is refused exactly when the operations under way, by the events
  alone, never outnumber `max_entries`;
* a larger `max_entries` never loses a sample that a smaller one records, and
  what the smaller one loses is at most one sample for each refused insert;
* an entry whose key never comes back takes one entry of the capacity for good,
  and does nothing else: a table full of them records nothing any more.
-/

namespace EbpfToy

open Lib

variable {V : Type} {copies slots cap cap' : Nat}

/-- The same tool with another `max_entries`. -/
structure Resized (P : Probe V copies slots cap) (P' : Probe V copies slots cap') extends
    Stopwatch.Twin P.toStopwatch P'.toStopwatch where
  sample_ev : ∀ e v, P'.slot (P'.time (ev e) - P'.tsOf v) = P.slot (P.time e - P.tsOf v)

def Memlat.resized (cap cap' : Nat) : Resized (Memlat.probe cap) (Memlat.probe cap') where
  ev := id
  view_ev _ := rfl
  sample_ev _ _ := rfl

def Runqlat.resized (cpus cap cap' : Nat) :
    Resized (Runqlat.probe cpus cap) (Runqlat.probe cpus cap') where
  ev := id
  view_ev _ := rfl
  sample_ev _ _ := rfl

def Iolat.resized (cap cap' : Nat) : Resized (Iolat.probe cap) (Iolat.probe cap') where
  ev := id
  view_ev _ := rfl
  sample_ev _ _ := rfl

/-! ## When the table is large enough -/

/-- The table is as large as the run needs: no insert is refused exactly when
the keys in use never outnumber `cap`, and then `start_ts` holds just these. -/
structure SizedFor (P : Probe V copies slots cap) (es : List P.Ev) : Prop where
  iff : P.NoRefusal es ↔ ∀ a b, es = a ++ b → (P.inUse a).card ≤ cap
  startTs : P.NoRefusal es → (P.table (P.run es)).keys = P.inUse es

theorem sizedFor (P : Probe V copies slots cap) (es : List P.Ev) : SizedFor P es where
  iff := Stopwatch.noRefusal_iff es
  startTs := Stopwatch.keys_eq_inUse

/-- For each tool, at its declared `max_entries`: no insert is refused in a run
exactly when at no point more operations than that have been started and not
stopped, whatever the maps hold. -/
theorem max_entries_suffice_iff :
    (∀ es : List Memlat.Ev, SizedFor (Memlat.probe Memlat.maxEntries) es) ∧
    (∀ (cpus : Nat) (es : List (Runqlat.Ev cpus)),
      SizedFor (Runqlat.probe cpus Runqlat.maxEntries) es) ∧
    (∀ es : List Iolat.Ev, SizedFor (Iolat.probe Iolat.maxEntries) es) :=
  ⟨fun es => sizedFor (Memlat.probe _) es, fun cpus es => sizedFor (Runqlat.probe cpus _) es,
    fun es => sizedFor (Iolat.probe _) es⟩

/-! ## A larger table -/

/-- What `P` records of the events `es`, `P'` records of `es'` too, and at most
one sample more for each insert that `P` refused. -/
structure RecordsMore (P : Probe V copies slots cap) (P' : Probe V copies slots cap')
    (es : List P.Ev) (es' : List P'.Ev) : Prop where
  startTs : ∀ k v, (P.table (P.run es)).lookup k = some v →
    (P'.table (P'.run es')).lookup k = some v
  hist : es.length < 2 ^ 64 → ∀ b, P.hist (P.run es) b ≤ P'.hist (P'.run es') b
  loss : P'.sampleCount es' ≤ P.sampleCount es + P.refusedCount es

theorem recordsMore {P : Probe V copies slots cap} {P' : Probe V copies slots cap'}
    (T : Resized P P') (hle : cap ≤ cap') (es : List P.Ev) :
    RecordsMore P P' es (es.map T.ev) where
  startTs := (Stopwatch.ahead T.toTwin hle es).held
  hist := by
    intro hlen b
    have hlen' : (es.map T.ev).length < 2 ^ 64 := by rwa [List.length_map]
    rw [UInt64.le_iff_toNat_le, Probe.toNat_hist_run (Probe.noOverflow_of_length hlen),
      Probe.toNat_hist_run (Probe.noOverflow_of_length hlen')]
    apply Stopwatch.matchedCount_le T.toTwin hle
    intro e v hb
    rw [T.sample_ev, hb]
  loss := Stopwatch.matchedCount_le_add_refused T.toTwin hle es

/-- For each tool, a larger `max_entries` records every start and every sample
that a smaller one records, and the smaller one misses at most one sample for
each insert it refuses. -/
theorem larger_table_records_more :
    (∀ (cap cap' : Nat) (es : List Memlat.Ev), cap ≤ cap' →
      RecordsMore (Memlat.probe cap) (Memlat.probe cap') es es) ∧
    (∀ (cpus cap cap' : Nat) (es : List (Runqlat.Ev cpus)), cap ≤ cap' →
      RecordsMore (Runqlat.probe cpus cap) (Runqlat.probe cpus cap') es es) ∧
    (∀ (cap cap' : Nat) (es : List Iolat.Ev), cap ≤ cap' →
      RecordsMore (Iolat.probe cap) (Iolat.probe cap') es es) := by
  refine ⟨?_, ?_, ?_⟩
  · intro cap cap' es hle
    have h := recordsMore (Memlat.resized cap cap') hle es
    rwa [show es.map (Memlat.resized cap cap').ev = es from List.map_id es] at h
  · intro cpus cap cap' es hle
    have h := recordsMore (Runqlat.resized cpus cap cap') hle es
    rwa [show es.map (Runqlat.resized cpus cap cap').ev = es from List.map_id es] at h
  · intro cap cap' es hle
    have h := recordsMore (Iolat.resized cap cap') hle es
    rwa [show es.map (Iolat.resized cap cap').ev = es from List.map_id es] at h

/-- A table of one entry refuses the second of two overlapping faults. -/
theorem larger_table_records_more_overlap :
    RecordsMore (Memlat.probe 1) (Memlat.probe 2)
      [.entry 7 10, .entry 8 20, .exit 8 30, .exit 7 40]
      [.entry 7 10, .entry 8 20, .exit 8 30, .exit 7 40] :=
  larger_table_records_more.1 1 2 _ (by decide)

/-! ## Entries that are never removed -/

/-- After `es` the tool goes on, on the events `fs`, like a tool `P'` that has
only the capacity left: the old entries stay as they are. -/
structure GoesOnAs (P : Probe V copies slots cap) (P' : Probe V copies slots cap')
    (es fs : List P.Ev) (fs' : List P'.Ev) : Prop where
  stale : ∀ k, (P.table (P.run es)).lookup k ≠ none →
    (P.table (P.run (es ++ fs))).lookup k = (P.table (P.run es)).lookup k
  live : ∀ k, (P.table (P.run es)).lookup k = none →
    (P.table (P.run (es ++ fs))).lookup k = (P'.table (P'.run fs')).lookup k
  hist : ∀ b, P.hist (P.run (es ++ fs)) b = P.hist (P.run es) b + P'.hist (P'.run fs') b

theorem goesOnAs {P : Probe V copies slots cap} {P' : Probe V copies slots cap'}
    (T : Resized P P') {es fs : List P.Ev} (hcap : (P.table (P.run es)).size + cap' = cap)
    (hstale : P.Untouched es fs) : GoesOnAs P P' es fs (fs.map T.ev) where
  stale k hk := ((Stopwatch.beside T.toTwin hcap hstale).stale k hk).1
  live := (Stopwatch.beside T.toTwin hcap hstale).live
  hist := by
    intro b
    have hcount : P.slotCount (es ++ fs) b = P.slotCount es b + P'.slotCount (fs.map T.ev) b :=
      Stopwatch.matchedCount_stale T.toTwin hcap hstale fun e v => by rw [T.sample_ev]
    rw [Probe.hist_run, Probe.hist_run, Probe.hist_run, hcount, UInt64.ofNat_add]

/-- A table without entries records nothing. -/
theorem hist_run_of_no_capacity (P : Probe V copies slots 0) (es : List P.Ev) (b : Fin slots) :
    P.hist (P.run es) b = 0 := by
  have hnone : P.slotCount es b = 0 := by
    apply countAt_eq_zero
    rintro a e c - ⟨v, ⟨k, -, hopen⟩, -⟩
    rw [← Stopwatch.lookup_run_iff] at hopen
    have hpos := BoundedMap.pos_of_accepts (BoundedMap.accepts_of_lookup hopen)
    exact absurd hpos (Nat.lt_irrefl 0)
  rw [Probe.hist_run, hnone]
  rfl

/-- The entries stored after `es`, when no later event is on their keys, cost
the tool their number of its capacity, for good; if they fill the table, no
sample is recorded any more. -/
structure CostsCapacity (P : (cap : Nat) → Probe V copies slots cap) (cap : Nat)
    (es fs : List (P cap).Ev) (fs' : List (P (cap - ((P cap).table ((P cap).run es)).size)).Ev) :
    Prop where
  rest : GoesOnAs (P cap) (P (cap - ((P cap).table ((P cap).run es)).size)) es fs fs'
  blind : ((P cap).table ((P cap).run es)).size = cap → ∀ b,
    (P cap).hist ((P cap).run (es ++ fs)) b = (P cap).hist ((P cap).run es) b

theorem costsCapacity {P : (cap : Nat) → Probe V copies slots cap}
    (T : ∀ cap cap', Resized (P cap) (P cap')) {cap : Nat} {es fs : List (P cap).Ev}
    (hstale : (P cap).Untouched es fs) :
    CostsCapacity P cap es fs
      (fs.map (T cap (cap - ((P cap).table ((P cap).run es)).size)).ev) where
  rest := goesOnAs _ (Nat.add_sub_cancel' (BoundedMap.size_le _)) hstale
  blind := by
    intro hfull b
    have h := (goesOnAs (T cap 0) (by rw [hfull, Nat.add_zero]) hstale).hist b
    rw [h, hist_run_of_no_capacity, UInt64.add_zero]

/-- For each tool: when the operations in `start_ts` never show another event,
the tool records the rest of the run as it would with that many fewer entries
in an empty table, and nothing at all when the table is full. -/
theorem stale_entries_cost_capacity :
    (∀ (cap : Nat) (es fs : List Memlat.Ev), (Memlat.probe cap).Untouched es fs →
      CostsCapacity Memlat.probe cap es fs fs) ∧
    (∀ (cpus cap : Nat) (es fs : List (Runqlat.Ev cpus)),
      (Runqlat.probe cpus cap).Untouched es fs →
      CostsCapacity (Runqlat.probe cpus) cap es fs fs) ∧
    (∀ (cap : Nat) (es fs : List Iolat.Ev), (Iolat.probe cap).Untouched es fs →
      CostsCapacity Iolat.probe cap es fs fs) := by
  refine ⟨?_, ?_, ?_⟩
  · intro cap es fs hstale
    have h := costsCapacity Memlat.resized hstale
    rwa [show fs.map (Memlat.resized cap _).ev = fs from List.map_id fs] at h
  · intro cpus cap es fs hstale
    have h := costsCapacity (Runqlat.resized cpus) hstale
    rwa [show fs.map (Runqlat.resized cpus cap _).ev = fs from List.map_id fs] at h
  · intro cap es fs hstale
    have h := costsCapacity Iolat.resized hstale
    rwa [show fs.map (Iolat.resized cap _).ev = fs from List.map_id fs] at h

/-- A fault that never returns, and two faults after it. -/
theorem stale_entries_cost_capacity_lost :
    CostsCapacity Memlat.probe 2 [.entry 7 10]
      [.entry 8 20, .entry 9 25, .exit 8 30, .exit 9 40]
      [.entry 8 20, .entry 9 25, .exit 8 30, .exit 9 40] := by
  apply stale_entries_cost_capacity.1
  intro e he
  simp only [List.mem_cons, List.not_mem_nil, or_false] at he
  rcases he with rfl | rfl | rfl | rfl <;> rfl

end EbpfToy
