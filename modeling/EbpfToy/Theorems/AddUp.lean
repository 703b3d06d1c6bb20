import EbpfToy.Theorems.CpuClocks
import EbpfToy.Theorems.SharedHistogram

/-!
# What overlapping handlers add up to

The handlers of the three tools, access by access, with the clock that they
read: when none is in progress, `start_ts` and the histogram are what each key's
own handlers say, with the times they read, in the order in which they began.
The proof goes down the simulations: from `Handlers` to `Overlap` and
`Interleaving`, and from there to the handlers run one at a time.
-/

namespace EbpfToy

open Lib Handlers

/-- The event of a handler of memlat that has read the clock. -/
def Memlat.event {C : Type} : Reading UInt64 Unit C → Memlat.Ev
  | ⟨_, .start pidTgid _, ts⟩ => .entry pidTgid ts
  | ⟨_, .stop pidTgid, now⟩ => .exit pidTgid now

/-- `error` and `nr_bytes` are nothing that `iolat_complete` looks at. -/
def Iolat.event {C : Type} : Reading UInt64 (UInt64 × Iolat.Comm) C → Iolat.Ev
  | ⟨_, .start rq issuer, ts⟩ => .issue rq ts issuer.1 issuer.2
  | ⟨_, .stop rq, now⟩ => .complete rq now 0 0

def Memlat.renders (C : Type) (cap : Nat) :
    Renders (Memlat.code C) (Memlat.probe cap).toStopwatch where
  event := Memlat.event
  view_start _ _ _ _ := rfl
  view_stop _ _ _ := rfl
  cellOf _ _ _ _ := rfl

def Iolat.renders (C : Type) (cap : Nat) :
    Renders (Iolat.code C) (Iolat.probe cap).toStopwatch where
  event := Iolat.event
  view_start _ _ _ _ := rfl
  view_stop _ _ _ := rfl
  cellOf _ _ _ _ := rfl

theorem Memlat.splits (C : Type) : (Memlat.code C).Splits true := ⟨rfl, rfl⟩

theorem Iolat.splits (C : Type) : (Iolat.code C).Splits false := ⟨rfl, rfl⟩

/-! ## The runs of the coarser machines -/

/-- memlat and iolat refuse no insert over there if they refuse none here, and
end up there with no handler in progress. -/
theorem keyByKey_of_coarse {V Payload C : Type} {slots cap : Nat} [DecidableEq C] [Fintype C]
    {P : Probe V 1 slots cap} {T : Code UInt64 V Payload (Fin 1 × Fin slots) C}
    {deleteFirst : Bool} (R : Renders T P.toStopwatch) (hcode : T.Splits deleteFirst)
    (hprivate : T.Private) {as : List (Act UInt64 Payload C)}
    (hlegal : (system T cap).Legal (Handlers.rest ..) as) (hno : NoRefusal T cap as)
    (hidle : ∀ c, ((system T cap).exec (Handlers.rest ..) as).pc c = none) :
    KeyByKey P ((history T cap as).map R.event) ((system T cap).exec (Handlers.rest ..) as).table
      (histOf ((system T cap).exec (Handlers.rest ..) as)) := by
  obtain ⟨hcoarse, hmirrors⟩ := mirrors_of_legal R hcode hprivate hlegal
  have hidle' : ∀ c, (((Overlap.system P.toStopwatch C deleteFirst).exec (loaded P C)
      (coarseRun R as)).pc c).handler = none := by
    intro c
    rw [(placed_of_idle (hidle c)).mp (hmirrors.placed c)]
    rfl
  have hkeys := keyByKey_contexts hcoarse (noRefusal_coarseRun R hcode hprivate hlegal hno) hidle'
  have hhist : sharedHist ((Overlap.system P.toStopwatch C deleteFirst).exec (loaded P C)
      (coarseRun R as)) = histOf ((system T cap).exec (Handlers.rest ..) as) := by
    funext b
    rw [sharedHist, hmirrors.cell, histOf, wordSum_ofFn_one]
    rfl
  rwa [begun_coarseRun, hmirrors.table, hhist] at hkeys

end EbpfToy

namespace EbpfToy.Interleaving

open Lib

variable {cpus cap : Nat}

/-- runqlat refuses nothing over there if it refuses nothing here. -/
theorem noRefusal_coarseRun {as : List (Handlers.Act UInt64 Unit (Fin cpus))}
    (hrun : ThreadRun cap as) (hno : Handlers.NoRefusal (Runqlat.code cpus) cap as) :
    NoRefusal cap (coarseRun cap as) := by
  intro t cpu now tid hmem hpc
  obtain ⟨s, u, a, hin, hallowed, hmirrors, htrace⟩ :=
    (simulates cpus cap).of_mem_trace hrun.legal mirrors_rest hmem
  obtain ⟨rfl, rfl, f, hf, hop, hcode⟩ := hmirrors.exists_updating hallowed.2 htrace hpc
  rw [Machine.trace_guard] at hin
  rw [hmirrors.table]
  exact hno s cpu f (Runqlat.keyOf tid) () [] hin hf hop hcode

theorem keyByKey_of_coarse {as : List (Handlers.Act UInt64 Unit (Fin cpus))}
    (hrun : ThreadRun cap as) (hno : Handlers.NoRefusal (Runqlat.code cpus) cap as)
    (hidle : ∀ cpu, ((Handlers.system (Runqlat.code cpus) cap).exec (Handlers.rest ..) as).pc cpu =
      none) :
    KeyByKey (Runqlat.probe cpus cap) ((Handlers.history (Runqlat.code cpus) cap as).map event)
      ((Handlers.system (Runqlat.code cpus) cap).exec (Handlers.rest ..) as).table
      (histOf ((Handlers.system (Runqlat.code cpus) cap).exec (Handlers.rest ..) as)) := by
  obtain ⟨hcoarse, hmirrors⟩ := mirrors_of_legal hrun
  have hkeys := keyByKey_done hcoarse (noRefusal_coarseRun hrun hno) fun cpu =>
    (Handlers.placed_of_idle (hidle cpu)).mp (hmirrors.placed cpu)
  have hhist : (Runqlat.probe cpus cap).hist
      ((system cpus cap).exec rest (coarseRun cap as)).maps =
      histOf ((Handlers.system (Runqlat.code cpus) cap).exec (Handlers.rest ..) as) := by
    funext b
    simp only [Probe.hist, histOf, hmirrors.cell]
  rwa [begun_coarseRun, hmirrors.table, hhist] at hkeys

end EbpfToy.Interleaving

namespace EbpfToy

open Lib Handlers

/-! ## The three tools -/

/-- Every handler of the run has read its time (a stop that finds nothing stands
with the time it began), on each key in the order in which they began, and the
maps are those of each key's own handlers. -/
structure EachKeysOwn {V Payload C : Type} {copies slots cap : Nat} [DecidableEq C]
    (P : Probe V copies slots cap) (T : Code UInt64 V Payload (Fin copies × Fin slots) C)
    (event : Reading UInt64 Payload C → P.Ev) (as : List (Act UInt64 Payload C)) : Prop where
  order : ∀ k, ((history T cap as).map Reading.handler).filter (fun x => decide (x.2.key = k)) =
    (begun as).filter fun x => decide (x.2.key = k)
  maps : KeyByKey P ((history T cap as).map event)
    ((system T cap).exec (Handlers.rest ..) as).table
    (histOf ((system T cap).exec (Handlers.rest ..) as))

/-- For each tool, under any interleaving of the accesses of its handlers with a
clock that goes on, in which no insert is refused: when no handler is in
progress, `start_ts` and the histogram are those of each key's own handlers,
with the times that they read, in the order in which they began. runqlat's keys
are those of threads; switches to a thread with no start may overlap. -/
theorem overlapping_runs_add_up (cap : Nat) :
    (∀ (C : Type) [DecidableEq C] [Fintype C] (as : List (Act UInt64 Unit C)),
      (system (Memlat.code C) cap).Legal (Handlers.rest ..) as →
      NoRefusal (Memlat.code C) cap as →
      (∀ c, ((system (Memlat.code C) cap).exec (Handlers.rest ..) as).pc c = none) →
      EachKeysOwn (Memlat.probe cap) (Memlat.code C) Memlat.event as) ∧
    (∀ (cpus : Nat) (as : List (Act UInt64 Unit (Fin cpus))), Interleaving.ThreadRun cap as →
      NoRefusal (Runqlat.code cpus) cap as →
      (∀ cpu, ((system (Runqlat.code cpus) cap).exec (Handlers.rest ..) as).pc cpu = none) →
      EachKeysOwn (Runqlat.probe cpus cap) (Runqlat.code cpus) Interleaving.event as) ∧
    (∀ (C : Type) [DecidableEq C] [Fintype C] (as : List (Act UInt64 (UInt64 × Iolat.Comm) C)),
      (system (Iolat.code C) cap).Legal (Handlers.rest ..) as →
      NoRefusal (Iolat.code C) cap as →
      (∀ c, ((system (Iolat.code C) cap).exec (Handlers.rest ..) as).pc c = none) →
      EachKeysOwn (Iolat.probe cap) (Iolat.code C) Iolat.event as) := by
  refine ⟨?_, ?_, ?_⟩
  · intro C _ _ as hlegal hno hidle
    exact ⟨history_of_idle (Memlat.private_code C) (readsFirst rfl (.inl rfl)) hlegal hidle,
      keyByKey_of_coarse (Memlat.renders C cap) (Memlat.splits C) (Memlat.private_code C) hlegal
        hno hidle⟩
  · intro cpus as hrun hno hidle
    exact ⟨history_of_idle (Runqlat.private_code cpus) (readsFirst rfl (.inr (.inr rfl)))
      hrun.1 hidle, Interleaving.keyByKey_of_coarse hrun hno hidle⟩
  · intro C _ _ as hlegal hno hidle
    exact ⟨history_of_idle (Iolat.private_code C) (readsFirst rfl (.inr (.inl rfl))) hlegal hidle,
      keyByKey_of_coarse (Iolat.renders C cap) (Iolat.splits C) (Iolat.private_code C) hlegal
        hno hidle⟩

/-- Two keys whose handlers overlap in two contexts, also while they read the
clock. -/
def crossed {Payload C : Type} (p : Payload) (c c' : C) : List (Act UInt64 Payload C) :=
  [.tick 1000, .enter c (.start 7 p), .step c, .enter c' (.start 8 p), .tick 2000, .step c',
    .step c', .step c, .step c', .step c, .tick 9000, .enter c (.stop 8), .enter c' (.stop 7),
    .step c, .step c', .step c, .tick 9500, .step c', .step c', .step c, .step c, .step c',
    .step c, .step c']

/-- Two CPUs go idle at once, and then one of them switches to thread 7. -/
def goIdle {C : Type} (c c' : C) : List (Act UInt64 Unit C) :=
  [.tick 1000, .enter c (.start 7 ()), .step c, .step c, .step c, .enter c' (.stop 0),
    .enter c (.stop 0), .step c, .tick 2000, .step c', .step c', .step c, .step c, .step c',
    .enter c' (.stop 7), .step c', .step c', .step c', .step c', .step c', .step c']

theorem overlapping_runs_add_up_two :
    EachKeysOwn (Memlat.probe 32) (Memlat.code (Fin 2)) Memlat.event (crossed () 0 1) ∧
    EachKeysOwn (Runqlat.probe 2 32) (Runqlat.code 2) Interleaving.event (goIdle 0 1) ∧
    EachKeysOwn (Iolat.probe 32) (Iolat.code (Fin 2)) Iolat.event (crossed (1, default) 0 1) :=
  ⟨(overlapping_runs_add_up 32).1 (Fin 2) (crossed () 0 1) (by decide)
      (noRefusal_of_length_le (by decide)) (by decide),
    (overlapping_runs_add_up 32).2.1 2 (goIdle 0 1) ⟨by decide, by decide⟩
      (noRefusal_of_length_le (by decide)) (by decide),
    (overlapping_runs_add_up 32).2.2 (Fin 2) (crossed (1, default) 0 1) (by decide)
      (noRefusal_of_length_le (by decide)) (by decide)⟩

end EbpfToy
