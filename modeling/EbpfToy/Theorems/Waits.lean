import EbpfToy.Theorems.RunQueue

/-!
# Which waits runqlat samples

A thread waits in the run queue from the wakeup or the preemption that puts it
there to the switch that takes it out. A seen switch samples the wait exactly
when `start_ts` has an entry: when a wakeup of the thread was recorded at its
beginning or during it, or when an entry from before was still there. A sample
is measured from the last of these. So every wait that begins with a recorded
wakeup is sampled, once, and a wait that begins with a preemption is not, unless
the thread was woken while it ran or waited.
-/

namespace EbpfToy.RunQueue

open Lib Runqlat

variable {cpus cap : Nat}

/-- The time of the entry that the action writes for the thread, if it does. -/
def recorded (s : Sched cpus cap) (tid : Tid) : Act cpus → Option UInt64
  | .wakeup _ now tid' =>
      if tid' = tid ∧ s.wakeupOn = true ∧ s.maps.startTs.Accepts (keyOf tid.val) then some now
      else none
  | _ => none

/-- The time of the last entry that the actions write for the thread, and `ts`
if they write none. -/
def lastRecorded (tid : Tid) : Sched cpus cap → List (Act cpus) → Option UInt64 → Option UInt64
  | _, [], ts => ts
  | s, a :: as, ts => lastRecorded tid (step s a) as ((recorded s tid a).or ts)

/-- What `start_ts` holds for a thread. -/
def Sched.entry (s : Sched cpus cap) (tid : Tid) : Option UInt64 :=
  s.maps.startTs.lookup (keyOf tid.val)

/-- A wait of the thread: `first` puts it in the run queue, and a switch at `now`
puts it on `cpu`. -/
structure Wait (cap : Nat) (status : Tid → Status cpus) (tid : Tid) where
  pre : List (Act cpus)
  first : Act cpus
  mid : List (Act cpus)
  cpu : Fin cpus
  now : UInt64
  prev : Option Tid
  preempted : Bool
  begins : ((sched cpus cap).exec (boot status) pre).status tid ≠ .waiting
  lasts : ∀ m₁ m₂, mid = m₁ ++ m₂ →
    ((sched cpus cap).exec (boot status) (pre ++ first :: m₁)).status tid = .waiting

namespace Wait

variable {status : Tid → Status cpus} {tid : Tid} (w : Wait cap status tid)

/-- Before the thread is put in the run queue. -/
def before : Sched cpus cap := (sched cpus cap).exec (boot status) w.pre

/-- Before it is switched in. -/
def last : Sched cpus cap := (sched cpus cap).exec w.before (w.first :: w.mid)

def switchIn : Act cpus := .switch w.cpu w.now w.prev w.preempted (some tid)

/-- A wakeup of the thread is recorded at the beginning of the wait or during it. -/
def Recorded : Prop :=
  ∃ x ∈ (sched cpus cap).trace w.before (w.first :: w.mid), recorded x.1 tid x.2 ≠ none

end Wait

/-! ## The entry of a waiting thread -/

theorem keyOf_pidOf_ne {tid : Tid} {next : Option Tid} (h : next ≠ some tid) :
    tid.val ≠ pidOf next := by
  cases next with
  | none => exact tid.property
  | some tid' =>
      intro heq
      exact h (congrArg some (Subtype.ext heq.symm))

/-- One action changes the entry of a thread by recording a wakeup of it, or by
switching it in. -/
theorem entry_step {s : Sched cpus cap} {tid : Tid} {a : Act cpus}
    (h : ∀ cpu now prev preempted, a ≠ .switch cpu now prev preempted (some tid)) :
    (step s a).entry tid = (recorded s tid a).or (s.entry tid) := by
  cases a with
  | attachWakeup now => rfl
  | attachSwitch now => rfl
  | wakeup cpu now tid' =>
      cases hon : s.wakeupOn with
      | false =>
          have hsame : (step s (.wakeup cpu now tid')).maps = s.maps := by simp [step, hon]
          rw [Sched.entry, hsame, recorded, if_neg (by simp [hon])]
          rfl
      | true =>
          rw [Sched.entry, maps_wakeup hon]
          show (s.maps.startTs.update (keyOf tid'.val) now).lookup _ = _
          by_cases ht : tid' = tid
          · subst ht
            by_cases hacc : s.maps.startTs.Accepts (keyOf tid'.val)
            · rw [BoundedMap.lookup_update_self hacc, recorded, if_pos ⟨rfl, hon, hacc⟩]
              rfl
            · rw [BoundedMap.update_of_not_accepts hacc, recorded,
                if_neg fun hrec => hacc hrec.2.2]
              rfl
          · have hkey : keyOf tid.val ≠ keyOf tid'.val := fun heq =>
              ht (Subtype.ext (keyOf_injective heq.symm))
            rw [BoundedMap.lookup_update_of_ne _ hkey, recorded, if_neg fun hrec => ht hrec.1]
            rfl
  | switch cpu now prev preempted next =>
      have hnext : next ≠ some tid := by
        rintro rfl
        exact h cpu now prev preempted rfl
      show Sched.entry _ tid = s.entry tid
      cases hon : s.switchOn with
      | false => simp [Sched.entry, step, hon]
      | true =>
          rw [Sched.entry, maps_switch hon]
          exact lookup_handle_of_ne (e := .switch cpu now (pidOf next)) (keyOf_pidOf_ne hnext) _

theorem entry_exec {tid : Tid} {as : List (Act cpus)} {s : Sched cpus cap}
    (h : ∀ a ∈ as, ∀ cpu now prev preempted, a ≠ .switch cpu now prev preempted (some tid)) :
    ((sched cpus cap).exec s as).entry tid = lastRecorded tid s as (s.entry tid) := by
  induction as generalizing s with
  | nil => rfl
  | cons a as ih =>
      have hlast := ih (s := step s a) fun b hb => h b (List.mem_cons_of_mem a hb)
      rw [entry_step (h a List.mem_cons_self)] at hlast
      exact hlast

theorem lastRecorded_eq_none_iff {tid : Tid} {as : List (Act cpus)} {s : Sched cpus cap}
    {ts : Option UInt64} : lastRecorded tid s as ts = none ↔
      ts = none ∧ ∀ x ∈ (sched cpus cap).trace s as, recorded x.1 tid x.2 = none := by
  induction as generalizing s ts with
  | nil => simp [lastRecorded, Machine.trace]
  | cons a as ih =>
      rw [lastRecorded, ih, Option.or_eq_none_iff]
      simp only [Machine.trace, List.forall_mem_cons]
      show (_ ∧ _) ∧ (∀ x ∈ (sched cpus cap).trace (step s a) as, _) ↔ _
      tauto

/-! ## The switch that ends a wait -/

section Ends

variable {status : Tid → Status cpus} {tid : Tid} (w : Wait cap status tid)

theorem status_switch (s : Sched cpus cap) (cpu : Fin cpus) (now : UInt64) (prev : Option Tid)
    (preempted : Bool) :
    (step s (.switch cpu now prev preempted (some tid))).status tid = .running cpu := by
  show Function.update _ tid _ tid = _
  rw [Function.update_self]

/-- A waiting thread is not switched in before the end of its wait. -/
theorem Wait.not_switched (a : Act cpus) (ha : a ∈ w.first :: w.mid) (cpu : Fin cpus)
    (now : UInt64) (prev : Option Tid) (preempted : Bool) :
    a ≠ .switch cpu now prev preempted (some tid) := by
  rintro rfl
  obtain ⟨m₁, m₂, hsplit⟩ := List.append_of_mem ha
  -- the state after it is one of those in which the thread waits
  have hwaits : ((sched cpus cap).exec (boot status)
      (w.pre ++ (m₁ ++ [.switch cpu now prev preempted (some tid)]))).status tid = .waiting := by
    cases m₁ with
    | nil =>
        obtain ⟨hfirst, -⟩ := List.cons.inj hsplit
        have h := w.lasts [] w.mid rfl
        rwa [hfirst] at h
    | cons x m₁ =>
        obtain ⟨hfirst, hmid⟩ := List.cons.inj hsplit
        have h := w.lasts (m₁ ++ [.switch cpu now prev preempted (some tid)]) m₂
          (by rw [hmid, List.append_assoc]; rfl)
        rwa [hfirst] at h
  rw [← List.append_assoc, Machine.exec_concat] at hwaits
  have hruns : (step ((sched cpus cap).exec (boot status) (w.pre ++ m₁))
      (.switch cpu now prev preempted (some tid))).status tid = .running cpu :=
    status_switch _ cpu now prev preempted
  rw [show (sched cpus cap).next = step from rfl, hruns] at hwaits
  contradiction

theorem Wait.entry_last :
    w.last.entry tid = lastRecorded tid w.before (w.first :: w.mid) (w.before.entry tid) :=
  entry_exec w.not_switched

theorem Wait.recorded_of_first {cpu : Fin cpus} {now : UInt64} (h : w.first = .wakeup cpu now tid)
    (hon : w.before.wakeupOn = true) (hacc : w.before.maps.startTs.Accepts (keyOf tid.val)) :
    w.Recorded := by
  refine ⟨(w.before, w.first), List.mem_cons_self, ?_⟩
  show recorded w.before tid w.first ≠ none
  rw [h, recorded, if_pos ⟨rfl, hon, hacc⟩]
  exact Option.some_ne_none now

theorem Wait.exists_wakeup (h : w.Recorded) :
    ∃ cpu now, .wakeup cpu now tid ∈ w.first :: w.mid := by
  obtain ⟨⟨s, a⟩, hmem, hrec⟩ := h
  obtain ⟨m₁, m₂, hsplit, -⟩ := Machine.exists_of_mem_trace hmem
  rw [hsplit]
  cases a with
  | wakeup cpu now tid' =>
      rw [recorded] at hrec
      split at hrec
      · rename_i hthread
        obtain rfl := hthread.1
        exact ⟨cpu, now, List.mem_append_right _ List.mem_cons_self⟩
      · contradiction
  | _ => exact absurd rfl hrec

/-- What the switch at the end of a wait does, when it is seen. -/
structure Ends : Prop where
  /-- A wait begins with a wakeup or a preemption. -/
  begins : (∃ cpu now, w.first = .wakeup cpu now tid) ∨
    ∃ cpu now next, w.first = .switch cpu now (some tid) true next
  /-- The wait is sampled exactly when a wakeup was recorded in it, or before it
  and not sampled yet. -/
  sampled_iff : (step w.last w.switchIn).maps.hist ≠ w.last.maps.hist ↔
    w.Recorded ∨ w.before.entry tid ≠ none
  /-- A wait that begins with a recorded wakeup is sampled. -/
  woken : ∀ cpu now, w.first = .wakeup cpu now tid → w.before.wakeupOn = true →
    w.before.maps.startTs.Accepts (keyOf tid.val) →
    (step w.last w.switchIn).maps.hist ≠ w.last.maps.hist
  /-- A wait without any wakeup is not, unless an older one is left. -/
  unwoken : (∀ cpu now, .wakeup cpu now tid ∉ w.first :: w.mid) → w.before.entry tid = none →
    (step w.last w.switchIn).maps.hist = w.last.maps.hist
  /-- The sample is measured from the last of these wakeups, and is the only one. -/
  sample : ∀ ts, lastRecorded tid w.before (w.first :: w.mid) (w.before.entry tid) = some ts →
    ∀ c b, ((step w.last w.switchIn).maps.hist c).value b = (w.last.maps.hist c).value b +
      if c = w.cpu ∧ slot (w.now - ts) = b then 1 else 0
  /-- No entry is left for the next wait. -/
  entry : (step w.last w.switchIn).entry tid = none

theorem Wait.begins_with :
    (∃ cpu now, w.first = .wakeup cpu now tid) ∨
      ∃ cpu now next, w.first = .switch cpu now (some tid) true next := by
  have hwaits := w.lasts [] w.mid rfl
  rw [Machine.exec_concat] at hwaits
  rcases waiting_step hwaits with hbefore | hwoken | hpreempted
  · exact absurd hbefore w.begins
  · exact .inl hwoken
  · exact .inr hpreempted

theorem Wait.sampled_iff (hseen : w.last.switchOn = true) :
    (step w.last w.switchIn).maps.hist ≠ w.last.maps.hist ↔
      w.Recorded ∨ w.before.entry tid ≠ none := by
  show (step w.last (.switch w.cpu w.now w.prev w.preempted (some tid))).maps.hist ≠ _ ↔ _
  rw [maps_switch hseen, runqlatSwitch_hist_ne_iff, ← Option.ne_none_iff_exists']
  show w.last.entry tid ≠ none ↔ _
  rw [w.entry_last, Ne, lastRecorded_eq_none_iff, not_and_or, or_comm]
  refine or_congr_left ?_
  rw [Wait.Recorded]
  simp only [not_forall, exists_prop]

/-- Every wait of every run that a seen switch ends is sampled exactly when a
wakeup of the thread was recorded, and once. -/
theorem waits_sampled (hseen : w.last.switchOn = true) : Ends w where
  begins := w.begins_with
  sampled_iff := w.sampled_iff hseen
  woken cpu now hfirst hon hacc :=
    (w.sampled_iff hseen).mpr (.inl (w.recorded_of_first hfirst hon hacc))
  unwoken := by
    intro hnone hentry
    by_contra hchanged
    rcases (w.sampled_iff hseen).mp hchanged with hrec | hold
    · obtain ⟨cpu, now, hmem⟩ := w.exists_wakeup hrec
      exact hnone cpu now hmem
    · exact hold hentry
  sample := by
    intro ts hts c b
    rw [← w.entry_last] at hts
    have hl : w.last.maps.startTs.lookup (keyOf (pidOf (some tid))) = some ts := hts
    show ((step w.last (.switch w.cpu w.now w.prev w.preempted (some tid))).maps.hist c).value b = _
    rw [maps_switch hseen, runqlatSwitch_of_some hl]
    show (Function.update w.last.maps.hist w.cpu _ c).value b = _
    by_cases hc : c = w.cpu
    · rw [hc, Function.update_self, ArrayMap.value_bump _ (log2BucketU64_lt _)]
      simp only [true_and]
      show (if slot (w.now - ts) = b then _ else _) = _
      split <;> simp
    · rw [Function.update_of_ne hc, if_neg fun h => hc h.1, UInt64.add_zero]
  entry := by
    show (step w.last (.switch w.cpu w.now w.prev w.preempted (some tid))).entry tid = none
    rw [Sched.entry, maps_switch hseen]
    show (runqlatSwitch w.cpu w.now tid.val w.last.maps).startTs.lookup _ = none
    cases hl : w.last.maps.startTs.lookup (keyOf tid.val) with
    | none => rw [runqlatSwitch_of_none hl, hl]
    | some ts => rw [runqlatSwitch_of_some hl, BoundedMap.lookup_delete_self]

/-- Thread A runs, is preempted, and waits without a wakeup. -/
def preemptedWait : Wait 4 (busy (0 : Fin 1)) threadA where
  pre := [.attachWakeup 0, .attachSwitch 1]
  first := .switch 0 20 (some threadA) true (some threadB)
  mid := []
  cpu := 0
  now := 30
  prev := some threadB
  preempted := false
  begins := by decide
  lasts := by
    intro m₁ m₂ h
    obtain ⟨rfl, rfl⟩ := List.append_eq_nil_iff.mp h.symm
    rfl

theorem waits_sampled_preempted : Ends preemptedWait := waits_sampled preemptedWait rfl

end Ends

end EbpfToy.RunQueue
