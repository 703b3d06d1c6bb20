import EbpfToy.Bpf.Memlat
import EbpfToy.Bpf.Iolat
import EbpfToy.Lib.Overlap
import EbpfToy.Theorems.Interleaving
import EbpfToy.Theorems.KeysApart

/-!
# Overlapping handlers

memlat and iolat have one histogram for all CPUs, and their handlers overlap:
in several contexts (a CPU, or an interrupt on it) they take turns, one map
access at a time. An entry or an issue is one update of `start_ts`. An exit or
a completion looks its key up, reads the clock, and then

* in `memlat_exit` deletes the key (`found`), and after that adds one to the
  bucket with `__sync_fetch_and_add` (`half`);
* in `iolat_complete` adds one to the bucket first, and deletes the key last.

The clock that a handler reads is part of its event. At every moment the two
maps are those of running the handlers one at a time, with the histogram
behind, or ahead, by the contexts that have one of their two writes to go. When
no handler is in progress, what the three tools have recorded is what each key's
own events say.
-/

namespace EbpfToy

open Lib Overlap

variable {V C : Type} {slots cap : Nat} [DecidableEq C] [Fintype C]

/-- The maps of a tool with one histogram, and the contexts its handlers run in. -/
abbrev Contexts (P : Probe V 1 slots cap) (C : Type) := System P.toStopwatch C

/-- Bucket `b` of the histogram that the contexts share. -/
def sharedHist {P : Probe V 1 slots cap} (s : Contexts P C) (b : Fin slots) : UInt64 :=
  s.cell (soleCopy, b)

/-- The contexts that have found a start for bucket `b`, and have one of their
two writes to go. -/
def betweenWrites {P : Probe V 1 slots cap} (s : Contexts P C) (b : Fin slots) : Nat :=
  halfway s.pc (soleCopy, b)

/-- memlat's handlers: the key is deleted before the bucket is bumped. -/
abbrev Memlat.contexts (cap : Nat) (C : Type) [DecidableEq C] :
    Machine (Contexts (Memlat.probe cap) C) (Act (Memlat.probe cap).toStopwatch C) :=
  Overlap.system (Memlat.probe cap).toStopwatch C true

/-- iolat's handlers: the key is deleted after the bucket is bumped. -/
abbrev Iolat.contexts (cap : Nat) (C : Type) [DecidableEq C] :
    Machine (Contexts (Iolat.probe cap) C) (Act (Iolat.probe cap).toStopwatch C) :=
  Overlap.system (Iolat.probe cap).toStopwatch C false

/-- The contexts and the maps of a tool that has just been loaded. -/
abbrev loaded (P : Probe V 1 slots cap) (C : Type) : Contexts P C := Overlap.rest P.toStopwatch C

/-! ## At every moment -/

/-- The state `s`, in which the handlers `begun` have begun, against running the
handlers `order` one at a time. -/
structure Serialized (P : Probe V 1 slots cap) (s : Contexts P C) (begun order : List P.Ev) :
    Prop where
  /-- Each key's own order is kept; a handler in progress may be missing at the end. -/
  keepsKeys : ∀ k, P.onKey k begun = P.onKey k order ∨
    ∃ c e, (s.pc c).handler = some e ∧ P.onKey k begun = P.onKey k order ++ [e]
  startTs : s.table = P.table (P.run order)
  settled : (∀ c, (s.pc c).handler = none) →
    order.Perm begun ∧ ∀ b, sharedHist s b = P.hist (P.run order) b

theorem serialized {P : Probe V 1 slots cap} [DecidableEq P.Ev] {deleteFirst : Bool}
    {as : List (Act P.toStopwatch C)}
    (hlegal : (Overlap.system P.toStopwatch C deleteFirst).Legal (loaded P C) as) :
    Serialized P ((Overlap.system P.toStopwatch C deleteFirst).exec (loaded P C) as) (begun as)
      (done P.toStopwatch deleteFirst as) where
  keepsKeys := by
    intro k
    have hserial := (sim_of_legal hlegal).serial
    by_cases hbusy : ∃ c e, (((Overlap.system P.toStopwatch C deleteFirst).exec (loaded P C)
        as).pc c).pending deleteFirst = some e ∧ (P.view e).key = k
    · obtain ⟨c, e, hpending, rfl⟩ := hbusy
      exact .inr ⟨c, e, Pc.handler_of_pending hpending, hserial.pending c e hpending⟩
    · left
      apply hserial.settled
      intro c e hpending hkey
      exact hbusy ⟨c, e, hpending, hkey⟩
  startTs := (sim_of_legal hlegal).table
  settled := by
    intro hidle
    obtain ⟨hkeys, -, hcell⟩ := serializable hlegal fun c => Pc.handler_eq_none_iff.mp (hidle c)
    refine ⟨perm_of_filter_eq hkeys, fun b => ?_⟩
    rw [P.hist_of_one_copy]
    exact congrFun hcell (soleCopy, b)

/-- With one copy, what the library counts is the bucket's count. -/
theorem counted_eq {P : Probe V 1 slots cap} (order : List P.Ev) (b : Fin slots) :
    counted (W := P.toStopwatch) order (soleCopy, b) = P.slotCount order b := by
  apply Stopwatch.matchedCount_congr
  intro a e c v _ _
  rw [P.cellOf_eq, Prod.mk.injEq]
  exact and_iff_right (Subsingleton.elim _ _)

/-- At every moment of every interleaving of memlat's, or of iolat's, handlers,
`start_ts` is that of running the handlers one at a time, and a bucket of `hist`
misses, or has in advance, one for each context between its two writes. With no
handler in progress all handlers are accounted for. -/
theorem overlapping_handlers_serialize :
    (∀ (cap : Nat) (C : Type) [DecidableEq C] [Fintype C]
      (as : List (Act (Memlat.probe cap).toStopwatch C)),
      (Memlat.contexts cap C).Legal (loaded (Memlat.probe cap) C) as →
      let s := (Memlat.contexts cap C).exec (loaded (Memlat.probe cap) C) as
      ∃ order, Serialized (Memlat.probe cap) s (begun as) order ∧
        ∀ b, ∃ n, sharedHist s b = UInt64.ofNat n ∧
          n + betweenWrites s b = (Memlat.probe cap).slotCount order b) ∧
    (∀ (cap : Nat) (C : Type) [DecidableEq C] [Fintype C]
      (as : List (Act (Iolat.probe cap).toStopwatch C)),
      (Iolat.contexts cap C).Legal (loaded (Iolat.probe cap) C) as →
      let s := (Iolat.contexts cap C).exec (loaded (Iolat.probe cap) C) as
      ∃ order, Serialized (Iolat.probe cap) s (begun as) order ∧
        ∀ b, ∃ n, sharedHist s b = UInt64.ofNat n ∧
          n = (Iolat.probe cap).slotCount order b + betweenWrites s b) := by
  refine ⟨?_, ?_⟩
  · intro cap C _ _ as hlegal
    refine ⟨done _ true as, serialized hlegal, fun b => ?_⟩
    rw [← counted_eq]
    exact (sim_of_legal hlegal).cell (soleCopy, b)
  · intro cap C _ _ as hlegal
    refine ⟨done _ false as, serialized hlegal, fun b => ?_⟩
    rw [← counted_eq]
    exact (sim_of_legal hlegal).cell (soleCopy, b)

/-- memlat on two contexts: the second one's exit is between its two writes. -/
theorem overlapping_handlers_serialize_half :
    let s := (Memlat.contexts 4 (Fin 2)).exec (loaded (Memlat.probe 4) (Fin 2))
      [.enter 0 (.entry 7 1000), .enter 1 (.entry 8 2000), .step 1, .step 0,
        .enter 1 (.exit 8 9000), .enter 0 (.exit 7 9000), .step 1, .step 1, .step 0]
    ∃ order, Serialized (Memlat.probe 4) s
        (begun [Act.enter (0 : Fin 2) (.entry 7 1000), .enter 1 (.entry 8 2000), .step 1, .step 0,
          .enter 1 (.exit 8 9000), .enter 0 (.exit 7 9000), .step 1, .step 1, .step 0]) order ∧
      ∀ b, ∃ n, sharedHist s b = UInt64.ofNat n ∧
        n + betweenWrites s b = (Memlat.probe 4).slotCount order b :=
  overlapping_handlers_serialize.1 4 (Fin 2) _ (by decide)

/-! ## Reading while handlers are in progress -/

/-- The values are at most `behind` below the counts after `first`, and at most
`ahead` above those after `last`. -/
structure Within (P : Probe V 1 slots cap) (first last : List P.Ev) (behind ahead : Nat)
    (values : Fin slots → UInt64) : Prop where
  lower : ∀ b, P.slotCount first b ≤ (values b).toNat + behind
  upper : ∀ b, (values b).toNat ≤ P.slotCount last b + ahead

/-- A reader looks the buckets up at moments of its own, all between the end of
`first` and the end of `last`. -/
def Between {A : Type} (first last : List A) (moment : Fin slots → List A) : Prop :=
  ∀ b, first <+: moment b ∧ moment b <+: last

theorem within_behind {P : Probe V 1 slots cap} {first last : List (Act P.toStopwatch C)}
    {moment : Fin slots → List (Act P.toStopwatch C)}
    (hlegal : (Overlap.system P.toStopwatch C true).Legal (loaded P C) last)
    (hbetween : Between first last moment) (hfit : last.length + Fintype.card C < 2 ^ 64) :
    Within P (done P.toStopwatch true first) (done P.toStopwatch true last) (Fintype.card C) 0
      fun b =>
        sharedHist ((Overlap.system P.toStopwatch C true).exec (loaded P C) (moment b)) b where
  lower := by
    intro b
    rw [← counted_eq]
    exact (reads_behind hlegal (hbetween b).1 (hbetween b).2 hfit (soleCopy, b)).1
  upper := by
    intro b
    rw [← counted_eq]
    exact (reads_behind hlegal (hbetween b).1 (hbetween b).2 hfit (soleCopy, b)).2

theorem within_ahead {P : Probe V 1 slots cap} {first last : List (Act P.toStopwatch C)}
    {moment : Fin slots → List (Act P.toStopwatch C)}
    (hlegal : (Overlap.system P.toStopwatch C false).Legal (loaded P C) last)
    (hbetween : Between first last moment) (hfit : last.length + Fintype.card C < 2 ^ 64) :
    Within P (done P.toStopwatch false first) (done P.toStopwatch false last) 0 (Fintype.card C)
      fun b =>
        sharedHist ((Overlap.system P.toStopwatch C false).exec (loaded P C) (moment b)) b where
  lower := by
    intro b
    rw [← counted_eq]
    exact (reads_ahead hlegal (hbetween b).1 (hbetween b).2 hfit (soleCopy, b)).1
  upper := by
    intro b
    rw [← counted_eq]
    exact (reads_ahead hlegal (hbetween b).1 (hbetween b).2 hfit (soleCopy, b)).2

/-- For both tools: a reading of `hist` that goes on while handlers are in
progress is, in each bucket, at most one off for each context: memlat's may be
below what had been completed before it, and iolat's above what is completed
after it. -/
theorem overlapping_reads_are_close :
    (∀ (cap : Nat) (C : Type) [DecidableEq C] [Fintype C]
      (first last : List (Act (Memlat.probe cap).toStopwatch C))
      (moment : Fin Memlat.maxSlots → List (Act (Memlat.probe cap).toStopwatch C)),
      (Memlat.contexts cap C).Legal (loaded (Memlat.probe cap) C) last →
      Between first last moment → last.length + Fintype.card C < 2 ^ 64 →
      Within (Memlat.probe cap) (done _ true first) (done _ true last) (Fintype.card C) 0
        fun b => sharedHist ((Memlat.contexts cap C).exec (loaded _ C) (moment b)) b) ∧
    (∀ (cap : Nat) (C : Type) [DecidableEq C] [Fintype C]
      (first last : List (Act (Iolat.probe cap).toStopwatch C))
      (moment : Fin Iolat.maxSlots → List (Act (Iolat.probe cap).toStopwatch C)),
      (Iolat.contexts cap C).Legal (loaded (Iolat.probe cap) C) last →
      Between first last moment → last.length + Fintype.card C < 2 ^ 64 →
      Within (Iolat.probe cap) (done _ false first) (done _ false last) 0 (Fintype.card C)
        fun b => sharedHist ((Iolat.contexts cap C).exec (loaded _ C) (moment b)) b) := by
  refine ⟨?_, ?_⟩
  · intro cap C _ _ first last moment hlegal hbetween hfit
    exact within_behind hlegal hbetween hfit
  · intro cap C _ _ first last moment hlegal hbetween hfit
    exact within_ahead hlegal hbetween hfit

/-- A fault, up to the deletion of its key and then to the end. -/
def faultDeleted {C : Type} (c : C) : List (Act (Memlat.probe 4).toStopwatch C) :=
  [.enter c (.entry 7 0), .step c, .enter c (.exit 7 9000), .step c, .step c]

/-- Bucket 3 is read between the two writes of the fault's exit. -/
theorem overlapping_reads_are_close_half :
    Within (Memlat.probe 4) (done (Memlat.probe 4).toStopwatch true (faultDeleted (0 : Fin 1)))
      (done (Memlat.probe 4).toStopwatch true (faultDeleted (0 : Fin 1) ++ [.step 0])) 1 0
      fun b => sharedHist ((Memlat.contexts 4 (Fin 1)).exec (loaded _ _)
        (if b.val = 3 then faultDeleted 0 else faultDeleted 0 ++ [.step 0])) b := by
  refine overlapping_reads_are_close.1 4 (Fin 1) (faultDeleted 0) (faultDeleted 0 ++ [.step 0])
    (fun b => if b.val = 3 then faultDeleted 0 else faultDeleted 0 ++ [.step 0]) (by decide) ?_
    (by decide)
  intro b
  beta_reduce
  split
  · exact ⟨List.prefix_refl _, List.prefix_append _ _⟩
  · exact ⟨List.prefix_append _ _, List.prefix_refl _⟩

/-! ## When no handler is in progress -/

/-- The maps, after the handlers `begun`, are those of one stopwatch for each
key, run on the key's own events. -/
structure KeyByKey {V : Type} {copies slots cap : Nat} (P : Probe V copies slots cap)
    (begun : List P.Ev) (startTs : HashMap V cap) (hist : Fin slots → UInt64) : Prop where
  startTs : ∀ k, startTs.lookup k = (Slot.run P.delta (P.obsOn P.time k begun)).held
  hist : ∀ b, hist b = wordSum ((keysOf P begun).map fun k =>
    UInt64.ofNat (P.keyCount P.time P.delta (fun d => P.slot d = b) k begun))

/-- An order that keeps each key's own shows every key the same. -/
theorem keyByKey {copies : Nat} {P : Probe V copies slots cap} {begun order : List P.Ev}
    (hkeys : ∀ k, P.onKey k order = P.onKey k begun) (hno : P.NoRefusal order) :
    KeyByKey P begun (P.table (P.run order)) (P.hist (P.run order)) where
  startTs := by
    intro k
    rw [Stopwatch.lookup_run_eq_held P.time P.delta hno k, Stopwatch.obsOn, hkeys,
      Stopwatch.obsOn]
  hist := by
    intro b
    have hS : ∀ e ∈ order, (P.view e).key ∈ (keysOf P begun).toFinset := by
      intro e he
      have hmem : e ∈ P.onKey (P.view e).key order := by
        rw [Stopwatch.onKey, List.mem_filter]
        exact ⟨he, decide_eq_true rfl⟩
      rw [hkeys] at hmem
      exact key_mem_keysOf (List.mem_filter.mp hmem).1
    have hcount : ∀ k, P.keyCount P.time P.delta (fun d => P.slot d = b) k order =
        P.keyCount P.time P.delta (fun d => P.slot d = b) k begun := by
      intro k
      rw [Stopwatch.keyCount, Stopwatch.obsOn, hkeys, Stopwatch.keyCount, Stopwatch.obsOn]
    have honce : (keysOf P begun).Nodup := List.nodup_dedup _
    rw [Probe.hist_run, slotCount_eq_sum_keys hno hS, wordSum_map_ofNat,
      List.sum_toFinset _ honce]
    simp only [hcount]

theorem keyByKey_contexts {P : Probe V 1 slots cap} {deleteFirst : Bool}
    {as : List (Act P.toStopwatch C)}
    (hlegal : (Overlap.system P.toStopwatch C deleteFirst).Legal (loaded P C) as)
    (hno : Overlap.NoRefusal P.toStopwatch deleteFirst as)
    (hidle : ∀ c, (((Overlap.system P.toStopwatch C deleteFirst).exec (loaded P C)
      as).pc c).handler = none) :
    KeyByKey P (begun as) ((Overlap.system P.toStopwatch C deleteFirst).exec (loaded P C) as).table
      (sharedHist ((Overlap.system P.toStopwatch C deleteFirst).exec (loaded P C) as)) := by
  obtain ⟨hkeys, htable, hcell⟩ := serializable hlegal fun c => Pc.handler_eq_none_iff.mp (hidle c)
  have hhist : sharedHist ((Overlap.system P.toStopwatch C deleteFirst).exec (loaded P C) as) =
      P.hist (P.run (done P.toStopwatch deleteFirst as)) := by
    funext b
    rw [P.hist_of_one_copy]
    exact congrFun hcell (soleCopy, b)
  rw [htable, hhist]
  exact keyByKey hkeys (noRefusal_done hlegal hno)

end EbpfToy

namespace EbpfToy.Interleaving

open Lib Runqlat

variable {cpus cap : Nat}

/-- No update of `start_ts` is refused along the run. -/
def NoRefusal (cap : Nat) (as : List (Act cpus)) : Prop :=
  ∀ s cpu now tid, (s, .step cpu) ∈ (system cpus cap).trace rest as →
    s.pc cpu = .updating now tid → s.maps.startTs.Accepts (keyOf tid)

/-- A step finishes nothing, a wakeup by its update, or a switch. -/
theorem finished_cases (s : System cpus cap) (cpu : Fin cpus) :
    finished s (.step cpu) = [] ∨
      (∃ now tid, finished s (.step cpu) = [.wakeup cpu now tid] ∧ s.pc cpu = .updating now tid) ∨
      ∃ now tid, finished s (.step cpu) = [.switch cpu now tid] := by
  cases hpc : s.pc cpu with
  | idle => exact .inl (by simp [finished, hpc])
  | updating now tid => exact .inr (.inl ⟨now, tid, by simp [finished, hpc], rfl⟩)
  | lookingUp now tid =>
      cases hl : s.maps.startTs.lookup (keyOf tid) with
      | none => exact .inr (.inr ⟨now, tid, by simp [finished, hpc, hl]⟩)
      | some tsp => exact .inl (by simp [finished, hpc, hl])
  | loading now tid b => exact .inl (by simp [finished, hpc])
  | storing now tid b cnt => exact .inl (by simp [finished, hpc])
  | deleting now tid => exact .inr (.inr ⟨now, tid, by simp [finished, hpc]⟩)

theorem done_concat (as : List (Act cpus)) (a : Act cpus) :
    done cap (as ++ [a]) = done cap as ++ finished ((system cpus cap).exec rest as) a := by
  rw [done, Machine.trace_concat, List.flatMap_append, List.flatMap_singleton]
  rfl

/-- What the run does not refuse, the atomic run does not refuse either. -/
theorem noRefusal_done {as : List (Act cpus)} (hlegal : (system cpus cap).Legal rest as)
    (hno : NoRefusal cap as) : (probe cpus cap).NoRefusal (done cap as) := by
  induction as using List.reverseRecOn with
  | nil => exact Stopwatch.noRefusal_nil
  | append_singleton as a ih =>
      rw [Machine.legal_concat] at hlegal
      have hold : NoRefusal cap as := by
        intro s cpu now tid hmem
        apply hno
        rw [Machine.trace_concat]
        exact List.mem_append_left _ hmem
      have hdone := ih hlegal.1 hold
      rw [done_concat]
      cases a with
      | readClock e => rwa [finished, List.append_nil]
      | step cpu =>
          rcases finished_cases ((system cpus cap).exec rest as) cpu with
            hnone | ⟨now, tid, hone, hpc⟩ | ⟨now, tid, hone⟩
          · rwa [hnone, List.append_nil]
          · -- the update meets the table of the atomic run
            rw [hone, Stopwatch.noRefusal_concat_iff]
            refine ⟨hdone, fun k v hview => ?_⟩
            obtain ⟨rfl, rfl⟩ : keyOf tid = k ∧ now = v := by simpa [Ev.view] using hview
            show ((probe cpus cap).run (done cap as)).startTs.Accepts (keyOf tid)
            rw [← (sim_of_legal hlegal.1).startTs]
            refine hno _ cpu now tid ?_ hpc
            rw [Machine.trace_concat]
            exact List.mem_append_right _ List.mem_cons_self
          · rw [hone, Stopwatch.noRefusal_concat_iff]
            refine ⟨hdone, fun k v hview => ?_⟩
            simp [Ev.view] at hview

theorem key_view (e : Ev cpus) : ((probe cpus cap).view e).key = keyOf e.tid := by
  cases e <;> rfl

/-- The events of a thread are those on its key. -/
theorem onKey_eq_of_tid {es es' : List (Ev cpus)}
    (h : ∀ tid, es.filter (fun e => decide (e.tid = tid)) =
      es'.filter fun e => decide (e.tid = tid)) (k : UInt64) :
    (probe cpus cap).onKey k es = (probe cpus cap).onKey k es' := by
  by_cases hk : ∃ tid, keyOf tid = k
  · obtain ⟨tid, rfl⟩ := hk
    have hthread : ∀ l : List (Ev cpus), (probe cpus cap).onKey (keyOf tid) l =
        l.filter fun e => decide (e.tid = tid) := by
      intro l
      apply List.filter_congr
      intro e _
      rw [decide_eq_decide, key_view]
      exact keyOf_injective.eq_iff
    rw [hthread, hthread, h tid]
  · -- no thread has this key
    have hnone : ∀ l : List (Ev cpus), (probe cpus cap).onKey k l = [] := by
      intro l
      rw [Stopwatch.onKey, List.filter_eq_nil_iff]
      intro e _ hkey
      rw [decide_eq_true_eq, key_view] at hkey
      exact hk ⟨e.tid, hkey⟩
    rw [hnone, hnone]

/-- With no handler in progress, each key has run its own. -/
theorem keyByKey_done {as : List (Act cpus)} (hlegal : (system cpus cap).Legal rest as)
    (hno : NoRefusal cap as) (hidle : ∀ cpu, ((system cpus cap).exec rest as).pc cpu = .idle) :
    KeyByKey (probe cpus cap) (begun as) ((system cpus cap).exec rest as).maps.startTs
      ((probe cpus cap).hist ((system cpus cap).exec rest as).maps) := by
  have hsim := sim_of_legal hlegal
  have hmaps : ((system cpus cap).exec rest as).maps = (probe cpus cap).run (done cap as) := by
    have hhist : ((system cpus cap).exec rest as).maps.hist =
        ((probe cpus cap).run (done cap as)).hist := by
      funext cpu
      have hhalf := hsim.half cpu
      rwa [hidle cpu] at hhalf
    show (⟨_, _⟩ : Maps cpus cap) = ⟨_, _⟩
    rw [Maps.mk.injEq]
    exact ⟨hsim.startTs, hhist⟩
  have hkeys : ∀ k, (probe cpus cap).onKey k (done cap as) =
      (probe cpus cap).onKey k (begun as) := by
    have hfree : ∀ cpu, ((system cpus cap).exec rest as).busy cpu = none := by
      intro cpu
      rw [System.busy, hidle cpu]
      rfl
    intro k
    exact onKey_eq_of_tid (hsim.serial.filter_eq hfree) k
  rw [hmaps]
  exact keyByKey hkeys (noRefusal_done hlegal hno)

end EbpfToy.Interleaving
