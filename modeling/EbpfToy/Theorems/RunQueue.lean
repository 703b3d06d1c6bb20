import EbpfToy.Bpf.Runqlat
import EbpfToy.Lib.Timeline
import Mathlib.Data.Rat.Cast.Order
import Mathlib.Tactic.IntervalCases

/-!
# runqlat on a scheduler: what a sample measures

The scheduler under the probes: threads sleep, wait in a run queue or run on a
CPU; wakeups name sleeping, waiting or running threads; the two tracepoints
are attached one after the other, while the scheduler is already at work. A
sample is meant to be a pure run-queue wait.

It is not, when a thread that has an entry in `start_ts` is preempted: the
entry was written while the thread was running (or before a switch that went
unseen), survives the preemption, and the next switch to the thread measures
its running time too. When no such preemption happens, every sample is a pure
wait.
-/

namespace EbpfToy.RunQueue

open Lib Runqlat

/-- Thread ids; id 0 is the idle thread of every CPU. -/
abbrev Tid := { tid : UInt32 // tid ≠ 0 }

inductive Status (cpus : Nat) where
  | asleep
  | waiting
  | running (cpu : Fin cpus)
  deriving DecidableEq

/-- The scheduler and the probes. -/
structure Sched (cpus cap : Nat) where
  status : Tid → Status cpus
  maps : Maps cpus cap
  wakeupOn : Bool
  switchOn : Bool

/-- What can happen. In a switch `none` is the idle thread, and `preempted`
says whether the previous thread goes back to the run queue or to sleep. -/
inductive Act (cpus : Nat) where
  | attachWakeup (now : UInt64)
  | attachSwitch (now : UInt64)
  | wakeup (cpu : Fin cpus) (now : UInt64) (tid : Tid)
  | switch (cpu : Fin cpus) (now : UInt64) (prev : Option Tid) (preempted : Bool)
      (next : Option Tid)
  deriving DecidableEq

/-- `next_pid` in the context of the tracepoint. -/
def pidOf : Option Tid → UInt32
  | none => 0
  | some tid => tid.val

def switchOut {cpus : Nat} (status : Tid → Status cpus) (preempted : Bool) :
    Option Tid → Tid → Status cpus
  | none => status
  | some prev => Function.update status prev (if preempted then .waiting else .asleep)

def switchIn {cpus : Nat} (status : Tid → Status cpus) (cpu : Fin cpus) :
    Option Tid → Tid → Status cpus
  | none => status
  | some next => Function.update status next (.running cpu)

/-- Only a sleeping thread is moved by a wakeup. -/
def wake {cpus : Nat} (status : Tid → Status cpus) (tid : Tid) : Tid → Status cpus :=
  if status tid = .asleep then Function.update status tid .waiting else status

/-- The wakeup probe is attached before the switch probe. A switch takes out
the thread that runs on the CPU and puts in a thread of the run queue. -/
def Allowed {cpus cap : Nat} (s : Sched cpus cap) : Act cpus → Prop
  | .attachWakeup _ => s.wakeupOn = false
  | .attachSwitch _ => s.wakeupOn = true ∧ s.switchOn = false
  | .wakeup _ _ _ => True
  | .switch cpu _ prev _ next =>
      (∀ tid, s.status tid = .running cpu ↔ prev = some tid) ∧
        ∀ tid, next = some tid → s.status tid = .waiting

/-- A handler runs when its probe is attached. -/
def step {cpus cap : Nat} (s : Sched cpus cap) : Act cpus → Sched cpus cap
  | .attachWakeup _ => { s with wakeupOn := true }
  | .attachSwitch _ => { s with switchOn := true }
  -- the tracepoint fires for a thread that has not slept yet as well
  | .wakeup _ now tid =>
      { s with
        status := wake s.status tid
        maps := if s.wakeupOn then runqlatWakeup now tid.val s.maps else s.maps }
  -- the handler sees `next` only
  | .switch cpu now prev preempted next =>
      { s with
        status := switchIn (switchOut s.status preempted prev) cpu next
        maps := if s.switchOn then runqlatSwitch cpu now (pidOf next) s.maps else s.maps }

def sched (cpus cap : Nat) : Machine (Sched cpus cap) (Act cpus) where
  allowed := Allowed
  next := step

/-- Threads in any state, no probe attached, empty maps. -/
def boot {cpus cap : Nat} (status : Tid → Status cpus) : Sched cpus cap :=
  ⟨status, empty, false, false⟩

def Act.now {cpus : Nat} : Act cpus → UInt64
  | .attachWakeup now => now
  | .attachSwitch now => now
  | .wakeup _ now _ => now
  | .switch _ now _ _ _ => now

/-- The time of an action as a moment. -/
def Act.moment {cpus : Nat} (a : Act cpus) : ℚ := a.now.toNat

variable {cpus cap : Nat}

/-- The thread runs on no CPU in the state `s`. -/
def OffCpu (s : Sched cpus cap) (tid : Tid) : Prop := ∀ cpu, s.status tid ≠ .running cpu

/-- Every step that changes `hist` switches in a thread with an entry, and the
thread ran at no moment strictly between the entry's time and the switch. -/
def PureWaits (cap : Nat) (status : Tid → Status cpus) (as : List (Act cpus)) : Prop :=
  ∀ pre a post, as = pre ++ a :: post →
    (step ((sched cpus cap).exec (boot status) pre) a).maps.hist ≠
      ((sched cpus cap).exec (boot status) pre).maps.hist →
    ∃ tid ts, (∃ cpu now prev preempted, a = .switch cpu now prev preempted (some tid)) ∧
      ((sched cpus cap).exec (boot status) pre).maps.startTs.lookup (keyOf tid.val) = some ts ∧
      ∀ τ : ℚ, (ts.toNat : ℚ) < τ → τ < a.moment →
        OffCpu ((sched cpus cap).stateAt Act.moment (boot status) as τ) tid

/-- No switch puts a thread that has an entry back into the run queue. -/
def NoRecordedPreempted (cap : Nat) (status : Tid → Status cpus) (as : List (Act cpus)) :
    Prop :=
  ∀ pre cpu now tid next post, as = pre ++ .switch cpu now (some tid) true next :: post →
    ((sched cpus cap).exec (boot status) pre).maps.startTs.lookup (keyOf tid.val) = none

theorem NoRecordedPreempted.left {status : Tid → Status cpus} {as bs : List (Act cpus)}
    (h : NoRecordedPreempted cap status (as ++ bs)) : NoRecordedPreempted cap status as :=
  fun pre cpu now tid next post has =>
    h pre cpu now tid next (post ++ bs) (by rw [has, List.append_assoc, List.cons_append])

/-! ## What one step does -/

theorem maps_wakeup {s : Sched cpus cap} (hon : s.wakeupOn = true) (cpu : Fin cpus)
    (now : UInt64) (tid : Tid) :
    (step s (.wakeup cpu now tid)).maps = runqlatWakeup now tid.val s.maps := by
  simp [step, hon]

theorem maps_switch {s : Sched cpus cap} (hon : s.switchOn = true) (cpu : Fin cpus)
    (now : UInt64) (prev : Option Tid) (preempted : Bool) (next : Option Tid) :
    (step s (.switch cpu now prev preempted next)).maps =
      runqlatSwitch cpu now (pidOf next) s.maps := by
  simp [step, hon]

/-- An entry after a step was there before, or a wakeup has just written it. -/
theorem lookup_step {s : Sched cpus cap} {a : Act cpus} {k ts : UInt64}
    (h : (step s a).maps.startTs.lookup k = some ts) :
    (s.maps.startTs.lookup k = some ts ∧
      ∀ cpu now tid, a = .wakeup cpu now tid → s.wakeupOn = true → k ≠ keyOf tid.val) ∨
    ∃ cpu tid, a = .wakeup cpu ts tid ∧ s.wakeupOn = true ∧ k = keyOf tid.val := by
  cases a with
  | attachWakeup now => exact Or.inl ⟨h, by simp⟩
  | attachSwitch now => exact Or.inl ⟨h, by simp⟩
  | wakeup cpu now tid =>
      cases hon : s.wakeupOn with
      | false =>
          have hsame : (step s (.wakeup cpu now tid)).maps = s.maps := by simp [step, hon]
          rw [hsame] at h
          exact Or.inl ⟨h, by simp⟩
      | true =>
          rw [maps_wakeup hon] at h
          by_cases hk : k = keyOf tid.val
          · subst hk
            obtain ⟨-, rfl⟩ := BoundedMap.lookup_update_self_iff.mp h
            exact Or.inr ⟨cpu, tid, rfl, rfl, rfl⟩
          · left
            rw [runqlatWakeup, BoundedMap.lookup_update_of_ne _ hk] at h
            refine ⟨h, ?_⟩
            intro cpu' now' tid' ha _
            obtain ⟨-, -, rfl⟩ := Act.wakeup.inj ha
            exact hk
  | switch cpu now prev preempted next =>
      refine Or.inl ⟨?_, by simp⟩
      cases hon : s.switchOn with
      | false => simpa [step, hon] using h
      | true =>
          rw [maps_switch hon] at h
          exact lookup_of_runqlatSwitch h

/-- A waiting thread was waiting before, was woken from sleep, or has just
been preempted. -/
theorem waiting_step {s : Sched cpus cap} {a : Act cpus} {tid : Tid}
    (h : (step s a).status tid = .waiting) :
    s.status tid = .waiting ∨ (∃ cpu now, a = .wakeup cpu now tid) ∨
      ∃ cpu now next, a = .switch cpu now (some tid) true next := by
  cases a with
  | attachWakeup now => exact Or.inl h
  | attachSwitch now => exact Or.inl h
  | wakeup cpu now tid' =>
      by_cases ht : tid = tid'
      · exact Or.inr (Or.inl ⟨cpu, now, by rw [ht]⟩)
      · left
        have hsame : wake s.status tid' tid = s.status tid := by
          unfold wake
          split
          · exact Function.update_of_ne ht _ _
          · rfl
        rw [← hsame]
        exact h
  | switch cpu now prev preempted next =>
      have hin : switchOut s.status preempted prev tid = .waiting := by
        have h' : switchIn (switchOut s.status preempted prev) cpu next tid = .waiting := h
        cases next with
        | none => exact h'
        | some tid' =>
            by_cases ht : tid = tid'
            · simp [switchIn, ht] at h'
            · simpa [switchIn, Function.update_of_ne ht] using h'
      cases prev with
      | none => exact Or.inl hin
      | some tid' =>
          by_cases ht : tid = tid'
          · subst ht
            cases preempted with
            | false => simp [switchOut] at hin
            | true => exact Or.inr (Or.inr ⟨cpu, now, next, rfl⟩)
          · left
            simpa [switchOut, Function.update_of_ne ht] using hin

/-- A step that changes `hist` is a switch that found an entry. -/
theorem hist_step_ne {s : Sched cpus cap} {a : Act cpus} (h : (step s a).maps.hist ≠ s.maps.hist) :
    ∃ cpu now prev preempted next ts, a = .switch cpu now prev preempted next ∧
      s.maps.startTs.lookup (keyOf (pidOf next)) = some ts := by
  cases a with
  | attachWakeup now => exact absurd rfl h
  | attachSwitch now => exact absurd rfl h
  | wakeup cpu now tid =>
      cases hon : s.wakeupOn <;> simp [step, hon, runqlatWakeup] at h
  | switch cpu now prev preempted next =>
      cases hon : s.switchOn with
      | false => simp [step, hon] at h
      | true =>
          rw [maps_switch hon, runqlatSwitch_hist_ne_iff] at h
          obtain ⟨ts, hts⟩ := h
          exact ⟨cpu, now, prev, preempted, next, ts, rfl, hts⟩

theorem wakeupOn_of_step {s : Sched cpus cap} {a : Act cpus} (h : (step s a).wakeupOn = false) :
    s.wakeupOn = false := by
  cases a with
  | attachWakeup now => exact absurd h (by simp [step])
  | attachSwitch now => exact h
  | wakeup cpu now tid => exact h
  | switch cpu now prev preempted next => exact h

/-! ## The invariant -/

/-- What holds after the actions `as`: before the wakeup probe is attached
there are no entries; the idle thread never has one; and a waiting thread has
been off the CPUs at every moment after its entry's time. -/
structure Fresh (cap : Nat) (status : Tid → Status cpus) (as : List (Act cpus)) : Prop where
  unattached : ((sched cpus cap).exec (boot status) as).wakeupOn = false →
    ∀ k, ((sched cpus cap).exec (boot status) as).maps.startTs.lookup k = none
  idle : ((sched cpus cap).exec (boot status) as).maps.startTs.lookup (keyOf 0) = none
  waiting : ∀ tid ts,
    ((sched cpus cap).exec (boot status) as).maps.startTs.lookup (keyOf tid.val) = some ts →
    ((sched cpus cap).exec (boot status) as).status tid = .waiting →
    ∀ τ : ℚ, (ts.toNat : ℚ) < τ →
      OffCpu ((sched cpus cap).stateAt Act.moment (boot status) as τ) tid

theorem fresh_nil (status : Tid → Status cpus) : Fresh cap status [] where
  unattached _ _ := rfl
  idle := rfl
  waiting tid ts hts _ := absurd hts (by simp [sched, boot, empty])

theorem offCpu_of_waiting {s : Sched cpus cap} {tid : Tid} (h : s.status tid = .waiting) :
    OffCpu s tid := by
  intro cpu hrun
  rw [h] at hrun
  contradiction

/-- One step keeps the invariant, unless it puts a thread with an entry back
into the run queue. -/
theorem Fresh.concat {status : Tid → Status cpus} {as : List (Act cpus)} {a : Act cpus}
    (hfresh : Fresh cap status as) (hmono : Machine.Timed Act.moment (as ++ [a]))
    (hcond : ∀ cpu now tid next, a = .switch cpu now (some tid) true next →
      ((sched cpus cap).exec (boot status) as).maps.startTs.lookup (keyOf tid.val) = none) :
    Fresh cap status (as ++ [a]) where
  unattached := by
    rw [Machine.exec_concat]
    intro hoff k
    have hoff' := wakeupOn_of_step hoff
    by_contra hk
    obtain ⟨ts, hts⟩ := Option.ne_none_iff_exists'.mp hk
    rcases lookup_step hts with ⟨hold, -⟩ | ⟨-, -, -, hon, -⟩
    · rw [hfresh.unattached hoff' k] at hold
      contradiction
    · rw [hoff'] at hon
      contradiction
  idle := by
    rw [Machine.exec_concat]
    by_contra hk
    obtain ⟨ts, hts⟩ := Option.ne_none_iff_exists'.mp hk
    rcases lookup_step hts with ⟨hold, -⟩ | ⟨-, tid, -, -, hzero⟩
    · rw [hfresh.idle] at hold
      contradiction
    · exact tid.property (keyOf_injective hzero).symm
  waiting := by
    intro tid ts hts hwait τ hτ
    rw [Machine.stateAt_concat hmono]
    split
    · -- from the step on, the thread is waiting
      exact offCpu_of_waiting hwait
    · rename_i hbefore
      rw [Machine.exec_concat] at hts hwait
      rcases lookup_step hts with ⟨hold, hother⟩ | ⟨cpu, tid', rfl, -, -⟩
      · rcases waiting_step hwait with hwait | ⟨cpu, now, rfl⟩ | ⟨cpu, now, next, rfl⟩
        · exact hfresh.waiting tid ts hold hwait τ hτ
        · -- a wakeup of the thread itself that wrote no entry: not attached yet
          cases hon : ((sched cpus cap).exec (boot status) as).wakeupOn with
          | false =>
              rw [hfresh.unattached hon] at hold
              contradiction
          | true => exact absurd rfl (hother cpu now tid rfl hon)
        · -- a preemption: excluded by the condition
          rw [hcond cpu now tid next rfl] at hold
          contradiction
      · -- the step has just written the entry, so `τ` is not before it
        exact absurd hτ.le hbefore

/-- The invariant holds after every run without such a preemption. -/
theorem fresh_of_noRecordedPreempted {status : Tid → Status cpus} {as : List (Act cpus)}
    (hmono : Machine.Timed Act.moment as) (hcond : NoRecordedPreempted cap status as) :
    Fresh cap status as := by
  induction as using List.reverseRecOn with
  | nil => exact fresh_nil status
  | append_singleton as a ih =>
      refine (ih hmono.left hcond.left).concat hmono ?_
      rintro cpu now tid next rfl
      exact hcond as cpu now tid next [] rfl

/-- In every run of the scheduler in which no thread with an entry is
preempted, every sample is a pure run-queue wait. -/
theorem samples_are_pure_waits {status : Tid → Status cpus} {as : List (Act cpus)}
    (hlegal : (sched cpus cap).Legal (boot status) as) (hmono : Machine.Timed Act.moment as)
    (hcond : NoRecordedPreempted cap status as) : PureWaits cap status as := by
  intro pre a post has hhist
  subst has
  obtain ⟨cpu, now, prev, preempted, next, ts, rfl, hts⟩ := hist_step_ne hhist
  have hpre : Fresh cap status pre := fresh_of_noRecordedPreempted hmono.left hcond.left
  have hallowed := (((sched cpus cap).legal_append _ _ _).mp hlegal).2.1
  cases next with
  | none =>
      rw [pidOf, hpre.idle] at hts
      contradiction
  | some tid =>
      refine ⟨tid, ts, ⟨cpu, now, prev, preempted, rfl⟩, hts, ?_⟩
      intro τ hτ hbefore
      rw [Machine.stateAt_of_lt hmono _ hbefore]
      exact hpre.waiting tid ts hts (hallowed.2 tid rfl) τ hτ

def threadA : Tid := ⟨7, by decide⟩

def threadB : Tid := ⟨8, by decide⟩

/-- Thread A is woken and runs 20 nanoseconds later. Then B is woken, and A is
preempted, which has no entry any more, and B runs 10 nanoseconds later. -/
def wokenInTurn (cpu : Fin cpus) : List (Act cpus) :=
  [.attachWakeup 0, .attachSwitch 1, .wakeup cpu 10 threadA,
    .switch cpu 30 none false (some threadA), .wakeup cpu 40 threadB,
    .switch cpu 50 (some threadA) true (some threadB)]

theorem legal_wokenInTurn :
    (sched 1 maxEntries).Legal (boot fun _ => .asleep) (wokenInTurn 0) := by
  refine ⟨rfl, ⟨rfl, rfl⟩, trivial, ⟨fun tid => ?_, fun tid ht => ?_⟩, trivial,
    ⟨fun tid => ?_, fun tid ht => ?_⟩, trivial⟩
  · show Function.update (fun _ => Status.asleep) threadA .waiting tid = .running 0 ↔
      none = some tid
    by_cases hA : tid = threadA <;> simp [hA]
  · obtain rfl := Option.some.inj ht
    rfl
  · show Function.update (Function.update (Function.update (fun _ => Status.asleep) threadA
      .waiting) threadA (.running 0)) threadB .waiting tid = .running 0 ↔ some threadA = some tid
    rw [Option.some_inj]
    by_cases hB : tid = threadB
    · subst hB
      decide
    · rw [Function.update_of_ne hB, Function.update_idem]
      by_cases hA : tid = threadA
      · simp [hA]
      · simp [hA, Ne.symm hA]
  · obtain rfl := Option.some.inj ht
    rfl

/-- Its one preemption is that of a thread whose entry the switch before took. -/
theorem noRecordedPreempted_wokenInTurn :
    NoRecordedPreempted maxEntries (fun _ => .asleep) (wokenInTurn (0 : Fin 1)) := by
  intro pre cpu now tid next post has
  have hpre : pre = (wokenInTurn (0 : Fin 1)).take pre.length := by rw [has, List.take_left]
  have hget : (wokenInTurn (0 : Fin 1))[pre.length]? =
      some (.switch cpu now (some tid) true next) := by
    rw [has, List.getElem?_append_right (Nat.le_refl _), Nat.sub_self]
    rfl
  have hlength : pre.length < 6 := by
    have hsix := congrArg List.length has
    rw [List.length_append, List.length_cons] at hsix
    have hall : (wokenInTurn (0 : Fin 1)).length = 6 := rfl
    omega
  generalize pre.length = n at hpre hget hlength
  subst hpre
  interval_cases n <;> simp [wokenInTurn] at hget
  obtain ⟨-, -, rfl, -⟩ := hget
  rfl

theorem samples_are_pure_waits_wakeup :
    PureWaits maxEntries (fun _ => .asleep) (wokenInTurn (0 : Fin 1)) :=
  samples_are_pure_waits legal_wokenInTurn (by decide) noRecordedPreempted_wokenInTurn

/-! ## A wakeup of a running thread -/

/-- Thread A runs on the CPU, thread B waits, all others sleep. -/
def busy (cpu : Fin cpus) : Tid → Status cpus :=
  fun tid => if tid = threadA then .running cpu else if tid = threadB then .waiting else .asleep

theorem busy_running (cpu : Fin cpus) (tid : Tid) :
    busy cpu tid = .running cpu ↔ some threadA = some tid := by
  rw [Option.some_inj, busy]
  by_cases hA : tid = threadA
  · simp [hA]
  · rw [if_neg hA]
    split <;> simp [Ne.symm hA]

/-- Thread A is woken while it runs, is preempted at 20 and runs again from 30
on. -/
def staleWakeup (cpu : Fin cpus) : List (Act cpus) :=
  [.attachWakeup 0, .attachSwitch 1, .wakeup cpu 10 threadA,
    .switch cpu 20 (some threadA) true (some threadB),
    .switch cpu 30 (some threadB) false (some threadA)]

/-- The sample of the last switch is 20 nanoseconds, 10 of which the thread was
running. -/
theorem staleWakeup_not_pure :
    (sched 1 maxEntries).Legal (boot (busy 0)) (staleWakeup 0) ∧
    Machine.Timed Act.moment (staleWakeup (0 : Fin 1)) ∧
    ¬ PureWaits maxEntries (busy (0 : Fin 1)) (staleWakeup 0) := by
  refine ⟨?_, by decide, ?_⟩
  · refine ⟨rfl, ⟨rfl, rfl⟩, trivial, ⟨busy_running 0, ?_⟩, ⟨?_, ?_⟩, trivial⟩
    · intro tid ht
      obtain rfl := Option.some.inj ht
      rfl
    · intro tid
      show Function.update (Function.update (busy 0) threadA .waiting) threadB (.running 0) tid =
        .running 0 ↔ some threadB = some tid
      by_cases hB : tid = threadB
      · simp [hB]
      · rw [Function.update_of_ne hB]
        by_cases hA : tid = threadA
        · subst hA
          decide
        · rw [Function.update_of_ne hA, busy_running, Option.some_inj, Option.some_inj]
          exact iff_of_false (Ne.symm hA) (Ne.symm hB)
    · intro tid ht
      obtain rfl := Option.some.inj ht
      rfl
  · intro h
    have hentry : ((sched 1 maxEntries).exec (boot (busy 0))
        ((staleWakeup 0).take 4)).maps.startTs.lookup (keyOf threadA.val) = some 10 := rfl
    obtain ⟨tid, ts, ⟨cpu, now, prev, preempted, ha⟩, hts, hoff⟩ :=
      h ((staleWakeup 0).take 4) (.switch 0 30 (some threadB) false (some threadA)) [] rfl
        ((runqlatSwitch_hist_ne_iff (m := ((sched 1 maxEntries).exec (boot (busy 0))
          ((staleWakeup 0).take 4)).maps) 0 30).mpr ⟨10, hentry⟩)
    obtain ⟨-, -, -, -, htid⟩ := Act.switch.inj ha
    obtain rfl := Option.some.inj htid
    obtain rfl : 10 = ts := Option.some.inj hts
    exact hoff 15 (by decide) (by decide) 0 rfl

end EbpfToy.RunQueue
