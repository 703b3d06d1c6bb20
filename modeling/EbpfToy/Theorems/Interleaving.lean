import EbpfToy.Bpf.Runqlat
import EbpfToy.Lib.Machine
import EbpfToy.Lib.Serial
import Mathlib.Data.List.Induction

/-!
# runqlat on several CPUs

The handlers of several CPUs interleave at the grain of single map accesses:
the clock is read, the start time is looked up, the CPU's own histogram cell
is loaded and stored back by separate steps, and the key is deleted at the
end. A CPU runs one handler at a time, and handlers for the same thread never
overlap.

The run is simulated by one that executes each handler atomically, at the
moment it finishes. In between, a CPU inside a handler is at most one
unfinished increment of its own histogram ahead of the atomic run, and what it
has loaded is still up to date: no other CPU writes its histogram, and no
other handler in progress touches its thread's start.
-/

namespace EbpfToy.Interleaving

open Lib Runqlat

/-- Where a CPU is: outside the handlers, or before one of their map accesses,
with the values it has read so far. -/
inductive Pc where
  | idle
  | updating (now : UInt64) (tid : UInt32)
  | lookingUp (now : UInt64) (tid : UInt32)
  | loading (now : UInt64) (tid : UInt32) (b : UInt32)
  | storing (now : UInt64) (tid : UInt32) (b : UInt32) (cnt : UInt64)
  | deleting (now : UInt64) (tid : UInt32)
  deriving DecidableEq

structure System (cpus cap : Nat) where
  pc : Fin cpus → Pc
  maps : Maps cpus cap

/-- A handler starts by reading the clock; then its CPU takes single steps. -/
inductive Act (cpus : Nat) where
  | readClock (e : Ev cpus)
  | step (cpu : Fin cpus)
  deriving DecidableEq

/-- Right after the handler has read the clock. -/
def entered {cpus : Nat} : Ev cpus → Pc
  | .wakeup _ now pid => .updating now pid
  | .switch _ now nextPid => .lookingUp now nextPid

/-- The handler that a CPU is in. -/
def Pc.handler {cpus : Nat} (cpu : Fin cpus) : Pc → Option (Ev cpus)
  | .idle => none
  | .updating now tid => some (.wakeup cpu now tid)
  | .lookingUp now tid => some (.switch cpu now tid)
  | .loading now tid _ => some (.switch cpu now tid)
  | .storing now tid _ _ => some (.switch cpu now tid)
  | .deleting now tid => some (.switch cpu now tid)

variable {cpus cap : Nat}

def System.busy (s : System cpus cap) (cpu : Fin cpus) : Option (Ev cpus) :=
  (s.pc cpu).handler cpu

/-- A handler starts on a CPU that is in none, for a thread that none is for. -/
def Allowed (s : System cpus cap) : Act cpus → Prop
  | .readClock e => s.busy e.cpu = none ∧ ∀ cpu, ∀ f ∈ s.busy cpu, f.tid ≠ e.tid
  | .step cpu => s.busy cpu ≠ none

instance (s : System cpus cap) : (a : Act cpus) → Decidable (Allowed s a)
  | .readClock e => inferInstanceAs (Decidable (s.busy e.cpu = none ∧ _))
  | .step cpu => inferInstanceAs (Decidable (s.busy cpu ≠ none))

/-- One map access of the handler that `cpu` is in. -/
def stepCpu (cpu : Fin cpus) (s : System cpus cap) : System cpus cap :=
  match s.pc cpu with
  | .idle => s
  -- `bpf_map_update_elem(&start_ts, &key, &now, BPF_ANY)`
  | .updating now tid =>
      { pc := Function.update s.pc cpu .idle
        maps := { s.maps with startTs := s.maps.startTs.update (keyOf tid) now } }
  -- `tsp = bpf_map_lookup_elem(&start_ts, &key)`, and the bucket of the delta
  | .lookingUp now tid =>
      match s.maps.startTs.lookup (keyOf tid) with
      | none => { s with pc := Function.update s.pc cpu .idle }
      | some tsp =>
        { s with pc := Function.update s.pc cpu (.loading now tid (log2BucketU64 (now - tsp))) }
  -- `(*cnt)++` is a load and a store
  | .loading now tid b =>
      match (s.maps.hist cpu).lookup b with
      | none => { s with pc := Function.update s.pc cpu (.deleting now tid) }
      | some cnt => { s with pc := Function.update s.pc cpu (.storing now tid b cnt) }
  | .storing now tid b cnt =>
      { pc := Function.update s.pc cpu (.deleting now tid)
        maps := { s.maps with
          hist := Function.update s.maps.hist cpu ((s.maps.hist cpu).store b (cnt + 1)) } }
  -- `bpf_map_delete_elem(&start_ts, &key)`
  | .deleting _ tid =>
      { pc := Function.update s.pc cpu .idle
        maps := { s.maps with startTs := s.maps.startTs.delete (keyOf tid) } }

def step (s : System cpus cap) : Act cpus → System cpus cap
  | .readClock e => { s with pc := Function.update s.pc e.cpu (entered e) }
  | .step cpu => stepCpu cpu s

def system (cpus cap : Nat) : Machine (System cpus cap) (Act cpus) where
  allowed := Allowed
  next := step

instance (s : System cpus cap) (a : Act cpus) : Decidable ((system cpus cap).allowed s a) :=
  inferInstanceAs (Decidable (Allowed s a))

/-- No handler in progress, empty maps. -/
def rest : System cpus cap := ⟨fun _ => .idle, empty⟩

/-- The handlers of a run, with the clocks they read, in the order in which
they read them. -/
def begun (as : List (Act cpus)) : List (Ev cpus) :=
  as.filterMap fun a => match a with
    | .readClock e => some e
    | .step _ => none

/-- The handler that the action finishes, if it finishes one. -/
def finished (s : System cpus cap) : Act cpus → List (Ev cpus)
  | .readClock _ => []
  | .step cpu =>
      match s.pc cpu with
      | .updating now tid => [.wakeup cpu now tid]
      | .lookingUp now tid =>
          match s.maps.startTs.lookup (keyOf tid) with
          | none => [.switch cpu now tid]
          | some _ => []
      | .deleting now tid => [.switch cpu now tid]
      | _ => []

/-! ## The simulation -/

/-- A CPU's histogram and what it has loaded, against the maps `t` of the
atomic run of the finished handlers. -/
def Half (t : Maps cpus cap) (cpu : Fin cpus) (hist : ArrayMap maxSlots) : Pc → Prop
  | .idle => hist = t.hist cpu
  | .updating _ _ => hist = t.hist cpu
  | .lookingUp _ _ => hist = t.hist cpu
  | .loading now tid b => hist = t.hist cpu ∧
      ∃ tsp, t.startTs.lookup (keyOf tid) = some tsp ∧ b = log2BucketU64 (now - tsp)
  | .storing now tid b cnt => hist = t.hist cpu ∧ hist.lookup b = some cnt ∧
      ∃ tsp, t.startTs.lookup (keyOf tid) = some tsp ∧ b = log2BucketU64 (now - tsp)
  | .deleting now tid => ∃ tsp, t.startTs.lookup (keyOf tid) = some tsp ∧
      hist = (t.hist cpu).bump (log2BucketU64 (now - tsp))

/-- The system against the atomic run of the handlers `done`. -/
structure Sim (s : System cpus cap) (begun done : List (Ev cpus)) : Prop where
  startTs : s.maps.startTs = ((probe cpus cap).run done).startTs
  half : ∀ cpu, Half ((probe cpus cap).run done) cpu (s.maps.hist cpu) (s.pc cpu)
  serial : Serial Ev.tid s.busy begun done

theorem sim_rest : Sim (rest : System cpus cap) [] [] where
  startTs := rfl
  half _ := rfl
  serial := Serial.start Ev.tid

/-- Only the CPU's own histogram and its thread's start matter to `Half`. -/
theorem Half.frame {t t' : Maps cpus cap} {cpu : Fin cpus} {hist : ArrayMap maxSlots} {pc : Pc}
    (h : Half t cpu hist pc) (hhist : t'.hist cpu = t.hist cpu)
    (hstart : ∀ e, pc.handler cpu = some e →
      t'.startTs.lookup (keyOf e.tid) = t.startTs.lookup (keyOf e.tid)) :
    Half t' cpu hist pc := by
  cases pc with
  | idle => exact Eq.trans h hhist.symm
  | updating now tid => exact Eq.trans h hhist.symm
  | lookingUp now tid => exact Eq.trans h hhist.symm
  | loading now tid b =>
      obtain ⟨heq, tsp, hl, hb⟩ := h
      exact ⟨heq.trans hhist.symm, tsp, (hstart _ rfl).trans hl, hb⟩
  | storing now tid b cnt =>
      obtain ⟨heq, hcnt, tsp, hl, hb⟩ := h
      exact ⟨heq.trans hhist.symm, hcnt, tsp, (hstart _ rfl).trans hl, hb⟩
  | deleting now tid =>
      obtain ⟨tsp, hl, heq⟩ := h
      exact ⟨tsp, (hstart _ rfl).trans hl, by rw [heq, hhist]⟩

/-- Moving one CPU moves what it is busy with. -/
theorem busy_update (pc : Fin cpus → Pc) (cpu : Fin cpus) (pc' : Pc) (m : Maps cpus cap) :
    (⟨Function.update pc cpu pc', m⟩ : System cpus cap).busy =
      Function.update (⟨pc, m⟩ : System cpus cap).busy cpu (pc'.handler cpu) := by
  funext c
  by_cases hc : c = cpu
  · subst hc
    simp [System.busy]
  · simp [System.busy, Function.update_of_ne hc]

theorem handler_entered (e : Ev cpus) : (entered e).handler e.cpu = some e := by
  cases e <;> rfl

/-- Reading the clock keeps the simulation. -/
theorem Sim.readClock {s : System cpus cap} {begun done : List (Ev cpus)}
    (h : Sim s begun done) {e : Ev cpus} (hallowed : Allowed s (.readClock e)) :
    Sim (step s (.readClock e)) (begun ++ [e]) done where
  startTs := h.startTs
  half := by
    intro cpu
    by_cases hc : cpu = e.cpu
    · -- the CPU was idle, and nothing is loaded yet
      have hidle : s.pc e.cpu = .idle := by
        have hbusy := hallowed.1
        unfold System.busy at hbusy
        cases hpc : s.pc e.cpu <;> simp [hpc, Pc.handler] at hbusy
        rfl
      have hsame : s.maps.hist e.cpu = ((probe cpus cap).run done).hist e.cpu := by
        have hhalf := h.half e.cpu
        rwa [hidle] at hhalf
      rw [hc]
      show Half _ e.cpu (s.maps.hist e.cpu) (Function.update s.pc e.cpu (entered e) e.cpu)
      rw [Function.update_self]
      cases e <;> exact hsame
    · have hpc : (step s (.readClock e)).pc cpu = s.pc cpu := Function.update_of_ne hc _ _
      rw [hpc]
      exact h.half cpu
  serial := by
    show Serial Ev.tid (System.busy ⟨Function.update s.pc e.cpu (entered e), s.maps⟩) _ _
    rw [busy_update, handler_entered]
    exact h.serial.enter hallowed.1 hallowed.2

/-- A step inside a handler: the CPU's own histogram and place change. -/
theorem Sim.inside {s : System cpus cap} {begun done : List (Ev cpus)} (h : Sim s begun done)
    {cpu : Fin cpus} {pc : Pc} {hist : ArrayMap maxSlots}
    (hhandler : pc.handler cpu = (s.pc cpu).handler cpu)
    (hhalf : Half ((probe cpus cap).run done) cpu hist pc) :
    Sim ⟨Function.update s.pc cpu pc,
      { s.maps with hist := Function.update s.maps.hist cpu hist }⟩ begun done where
  startTs := h.startTs
  half := by
    intro c
    by_cases hc : c = cpu
    · subst hc
      simpa using hhalf
    · simpa [Function.update_of_ne hc] using h.half c
  serial := by
    have hbusy := busy_update s.pc cpu pc
      { s.maps with hist := Function.update s.maps.hist cpu hist }
    rw [hbusy, hhandler]
    have hself : Function.update s.busy cpu (s.busy cpu) = s.busy :=
      Function.update_eq_self cpu s.busy
    exact hself.symm ▸ h.serial

/-- The last step of a handler: the atomic run executes the whole handler. -/
theorem Sim.finish {s : System cpus cap} {begun done : List (Ev cpus)} (h : Sim s begun done)
    {e : Ev cpus} (hbusy : s.busy e.cpu = some e) {m : Maps cpus cap}
    (hstart : m.startTs = (handle ((probe cpus cap).run done) e).startTs)
    (hown : m.hist e.cpu = (handle ((probe cpus cap).run done) e).hist e.cpu)
    (hother : ∀ cpu, cpu ≠ e.cpu → m.hist cpu = s.maps.hist cpu) :
    Sim ⟨Function.update s.pc e.cpu .idle, m⟩ begun (done ++ [e]) where
  startTs := by
    rw [Stopwatch.run_concat]
    exact hstart
  half := by
    intro cpu
    rw [Stopwatch.run_concat]
    by_cases hc : cpu = e.cpu
    · rw [hc]
      show Half _ e.cpu (m.hist e.cpu) (Function.update s.pc e.cpu .idle e.cpu)
      rw [Function.update_self]
      exact hown
    · -- the finished handler is for another CPU and another thread
      show Half _ cpu (m.hist cpu) (Function.update s.pc e.cpu .idle cpu)
      rw [Function.update_of_ne hc, hother cpu hc]
      apply (h.half cpu).frame
      · exact hist_handle_of_ne hc _
      · intro f hf
        apply lookup_handle_of_ne
        intro htid
        exact hc (h.serial.apart cpu e.cpu f e hf hbusy htid)
  serial := by
    rw [busy_update]
    exact h.serial.complete hbusy

/-! ### The steps of a handler -/

/-- A wakeup is over with its one map access. -/
theorem Sim.updating {s : System cpus cap} {begun done : List (Ev cpus)} (h : Sim s begun done)
    {cpu : Fin cpus} {now : UInt64} {tid : UInt32} (hpc : s.pc cpu = .updating now tid) :
    Sim (stepCpu cpu s) begun (done ++ finished s (.step cpu)) := by
  have hhalf := h.half cpu
  rw [hpc] at hhalf
  have hstep : stepCpu cpu s = ⟨Function.update s.pc cpu .idle,
      { s.maps with startTs := s.maps.startTs.update (keyOf tid) now }⟩ := by
    simp [stepCpu, hpc]
  have hfin : finished s (.step cpu) = [.wakeup cpu now tid] := by simp [finished, hpc]
  rw [hstep, hfin]
  refine h.finish (e := .wakeup cpu now tid) ?_ ?_ hhalf (fun _ _ => rfl)
  · simp [System.busy, hpc, Pc.handler, Ev.cpu]
  · show s.maps.startTs.update (keyOf tid) now = _
    rw [h.startTs]
    rfl

/-- A switch that finds no start is over, and atomically it does nothing. -/
theorem Sim.lookingUp_none {s : System cpus cap} {begun done : List (Ev cpus)}
    (h : Sim s begun done) {cpu : Fin cpus} {now : UInt64} {tid : UInt32}
    (hpc : s.pc cpu = .lookingUp now tid) (hl : s.maps.startTs.lookup (keyOf tid) = none) :
    Sim (stepCpu cpu s) begun (done ++ finished s (.step cpu)) := by
  have hhalf := h.half cpu
  rw [hpc] at hhalf
  have hstep : stepCpu cpu s = ⟨Function.update s.pc cpu .idle, s.maps⟩ := by
    simp [stepCpu, hpc, hl]
  have hfin : finished s (.step cpu) = [.switch cpu now tid] := by simp [finished, hpc, hl]
  have hnone : handle ((probe cpus cap).run done) (.switch cpu now tid) =
      (probe cpus cap).run done := by
    rw [h.startTs] at hl
    exact runqlatSwitch_of_none hl cpu now
  rw [hstep, hfin]
  refine h.finish (e := .switch cpu now tid) ?_ ?_ ?_ (fun _ _ => rfl)
  · simp [System.busy, hpc, Pc.handler, Ev.cpu]
  · rw [hnone]
    exact h.startTs
  · rw [hnone]
    exact hhalf

/-- A switch that finds a start goes on with its bucket. -/
theorem Sim.lookingUp_some {s : System cpus cap} {begun done : List (Ev cpus)}
    (h : Sim s begun done) {cpu : Fin cpus} {now tsp : UInt64} {tid : UInt32}
    (hpc : s.pc cpu = .lookingUp now tid) (hl : s.maps.startTs.lookup (keyOf tid) = some tsp) :
    Sim (stepCpu cpu s) begun (done ++ finished s (.step cpu)) := by
  have hhalf := h.half cpu
  rw [hpc] at hhalf
  have hstep : stepCpu cpu s = ⟨Function.update s.pc cpu
        (.loading now tid (log2BucketU64 (now - tsp))),
      { s.maps with hist := Function.update s.maps.hist cpu (s.maps.hist cpu) }⟩ := by
    simp [stepCpu, hpc, hl]
  have hfin : finished s (.step cpu) = [] := by simp [finished, hpc, hl]
  rw [hstep, hfin, List.append_nil]
  apply h.inside
  · rw [hpc]
    rfl
  · rw [h.startTs] at hl
    exact ⟨hhalf, tsp, hl, rfl⟩

/-- A cell that is loaded is the cell of the atomic run. -/
theorem Sim.loading {s : System cpus cap} {begun done : List (Ev cpus)} (h : Sim s begun done)
    {cpu : Fin cpus} {now : UInt64} {tid b : UInt32} (hpc : s.pc cpu = .loading now tid b) :
    Sim (stepCpu cpu s) begun (done ++ finished s (.step cpu)) := by
  have hhalf := h.half cpu
  rw [hpc] at hhalf
  obtain ⟨hsame, tsp, hl, hb⟩ := hhalf
  have hfin : finished s (.step cpu) = [] := by simp [finished, hpc]
  rw [hfin, List.append_nil]
  cases hcnt : (s.maps.hist cpu).lookup b with
  | none =>
      have hstep : stepCpu cpu s = ⟨Function.update s.pc cpu (.deleting now tid),
          { s.maps with hist := Function.update s.maps.hist cpu (s.maps.hist cpu) }⟩ := by
        simp [stepCpu, hpc, hcnt]
      rw [hstep]
      apply h.inside
      · rw [hpc]
        rfl
      · refine ⟨tsp, hl, ?_⟩
        rw [← hb, ← hsame, ArrayMap.bump, hcnt]
  | some cnt =>
      have hstep : stepCpu cpu s = ⟨Function.update s.pc cpu (.storing now tid b cnt),
          { s.maps with hist := Function.update s.maps.hist cpu (s.maps.hist cpu) }⟩ := by
        simp [stepCpu, hpc, hcnt]
      rw [hstep]
      apply h.inside
      · rw [hpc]
        rfl
      · exact ⟨hsame, hcnt, tsp, hl, hb⟩

/-- The loaded value is still the cell's when it is stored back: the store is
the increment. -/
theorem Sim.storing {s : System cpus cap} {begun done : List (Ev cpus)} (h : Sim s begun done)
    {cpu : Fin cpus} {now cnt : UInt64} {tid b : UInt32}
    (hpc : s.pc cpu = .storing now tid b cnt) :
    Sim (stepCpu cpu s) begun (done ++ finished s (.step cpu)) := by
  have hhalf := h.half cpu
  rw [hpc] at hhalf
  obtain ⟨hsame, hcnt, tsp, hl, hb⟩ := hhalf
  have hfin : finished s (.step cpu) = [] := by simp [finished, hpc]
  have hstep : stepCpu cpu s = ⟨Function.update s.pc cpu (.deleting now tid),
      { s.maps with
        hist := Function.update s.maps.hist cpu ((s.maps.hist cpu).store b (cnt + 1)) }⟩ := by
    simp [stepCpu, hpc]
  rw [hfin, List.append_nil, hstep]
  apply h.inside
  · rw [hpc]
    rfl
  · refine ⟨tsp, hl, ?_⟩
    rw [← hb, ← hsame, ArrayMap.bump, hcnt]

/-- With the deletion a switch that found a start is over. -/
theorem Sim.deleting {s : System cpus cap} {begun done : List (Ev cpus)} (h : Sim s begun done)
    {cpu : Fin cpus} {now : UInt64} {tid : UInt32} (hpc : s.pc cpu = .deleting now tid) :
    Sim (stepCpu cpu s) begun (done ++ finished s (.step cpu)) := by
  have hhalf := h.half cpu
  rw [hpc] at hhalf
  obtain ⟨tsp, hl, hbump⟩ := hhalf
  have hfin : finished s (.step cpu) = [.switch cpu now tid] := by simp [finished, hpc]
  have hstep : stepCpu cpu s = ⟨Function.update s.pc cpu .idle,
      { s.maps with startTs := s.maps.startTs.delete (keyOf tid) }⟩ := by
    simp [stepCpu, hpc]
  have hswitch : handle ((probe cpus cap).run done) (.switch cpu now tid) = _ :=
    runqlatSwitch_of_some hl cpu now
  rw [hstep, hfin]
  refine h.finish (e := .switch cpu now tid) ?_ ?_ ?_ (fun _ _ => rfl)
  · simp [System.busy, hpc, Pc.handler, Ev.cpu]
  · rw [hswitch, ← h.startTs]
  · rw [hswitch]
    show s.maps.hist cpu = Function.update ((probe cpus cap).run done).hist cpu _ cpu
    rw [Function.update_self, hbump]

/-- Every step of a CPU keeps the simulation. -/
theorem Sim.stepCpu {s : System cpus cap} {begun done : List (Ev cpus)} (h : Sim s begun done)
    {cpu : Fin cpus} (hbusy : s.busy cpu ≠ none) :
    Sim (stepCpu cpu s) begun (done ++ finished s (.step cpu)) := by
  cases hpc : s.pc cpu with
  | idle =>
      rw [System.busy, hpc] at hbusy
      contradiction
  | updating now tid => exact h.updating hpc
  | lookingUp now tid =>
      cases hl : s.maps.startTs.lookup (keyOf tid) with
      | none => exact h.lookingUp_none hpc hl
      | some tsp => exact h.lookingUp_some hpc hl
  | loading now tid b => exact h.loading hpc
  | storing now tid b cnt => exact h.storing hpc
  | deleting now tid => exact h.deleting hpc

/-! ## Runs -/

/-- The handlers that a run finishes, in the order in which it finishes them. -/
def done (cap : Nat) (as : List (Act cpus)) : List (Ev cpus) :=
  ((system cpus cap).trace rest as).flatMap fun x => finished x.1 x.2

/-- Every allowed step keeps the simulation. -/
theorem Sim.step {s : System cpus cap} {b d : List (Ev cpus)} (h : Sim s b d) {a : Act cpus}
    (hallowed : Allowed s a) :
    Sim (Interleaving.step s a) (b ++ begun [a]) (d ++ finished s a) := by
  cases a with
  | readClock e =>
      show Sim _ (b ++ [e]) (d ++ [])
      rw [List.append_nil]
      exact h.readClock hallowed
  | step cpu =>
      show Sim _ (b ++ []) _
      rw [List.append_nil]
      exact h.stepCpu hallowed

theorem sim_of_legal {as : List (Act cpus)} (hlegal : (system cpus cap).Legal rest as) :
    Sim ((system cpus cap).exec rest as) (begun as) (done cap as) := by
  -- on the last action, as both lists of handlers grow at their ends
  induction as using List.reverseRecOn with
  | nil => exact sim_rest
  | append_singleton as a ih =>
      rw [Machine.legal_concat] at hlegal
      have hbegun : begun (as ++ [a]) = begun as ++ begun [a] := List.filterMap_append
      have hdone : done cap (as ++ [a]) =
          done cap as ++ finished ((system cpus cap).exec rest as) a := by
        rw [done, Machine.trace_concat, List.flatMap_append, List.flatMap_singleton]
        rfl
      rw [Machine.exec_concat, hbegun, hdone]
      exact (ih hlegal.1).step hlegal.2

/-- Whenever no handler is in progress, the maps are those of running the same
handlers one at a time, with the clocks they read, in an order that keeps each
thread's own: the increments are plain loads and stores, and none is lost. -/
theorem runs_are_serializable {as : List (Act cpus)} (hlegal : (system cpus cap).Legal rest as)
    (hidle : ∀ cpu, ((system cpus cap).exec rest as).pc cpu = .idle) :
    ∃ order : List (Ev cpus), order.Perm (begun as) ∧
      (∀ tid, order.filter (fun e => decide (e.tid = tid)) =
        (begun as).filter (fun e => decide (e.tid = tid))) ∧
      ((system cpus cap).exec rest as).maps.startTs = ((probe cpus cap).run order).startTs ∧
      (∀ b, (probe cpus cap).hist ((system cpus cap).exec rest as).maps b =
        (probe cpus cap).hist ((probe cpus cap).run order) b) := by
  have hsim := sim_of_legal hlegal
  have hfree : ∀ cpu, ((system cpus cap).exec rest as).busy cpu = none := by
    intro cpu
    rw [System.busy, hidle cpu]
    rfl
  have hfilter := hsim.serial.filter_eq hfree
  have hhist : ∀ cpu, ((system cpus cap).exec rest as).maps.hist cpu =
      ((probe cpus cap).run (done cap as)).hist cpu := by
    intro cpu
    have hhalf := hsim.half cpu
    rwa [hidle cpu] at hhalf
  refine ⟨done cap as, perm_of_filter_eq hfilter, hfilter, hsim.startTs, ?_⟩
  intro b
  show wordSum (List.ofFn fun cpu => (((system cpus cap).exec rest as).maps.hist cpu).value b) =
    wordSum (List.ofFn fun cpu => (((probe cpus cap).run (done cap as)).hist cpu).value b)
  simp only [hhist]

/-- Two CPUs whose wakeups and switches overlap at every step. -/
def overlapping : List (Act 2) :=
  [.readClock (.wakeup 0 10 7), .readClock (.wakeup 1 12 8), .step 1, .step 0,
    .readClock (.switch 0 20 8), .readClock (.switch 1 21 7),
    .step 0, .step 1, .step 0, .step 1, .step 1, .step 0, .step 1, .step 0]

theorem runs_are_serializable_overlapping :
    ∃ order : List (Ev 2), order.Perm (begun overlapping) ∧
      (∀ tid, order.filter (fun e => decide (e.tid = tid)) =
        (begun overlapping).filter (fun e => decide (e.tid = tid))) ∧
      ((system 2 4).exec rest overlapping).maps.startTs = ((probe 2 4).run order).startTs ∧
      (∀ b, (probe 2 4).hist ((system 2 4).exec rest overlapping).maps b =
        (probe 2 4).hist ((probe 2 4).run order) b) :=
  runs_are_serializable (by decide) (by decide)

end EbpfToy.Interleaving
