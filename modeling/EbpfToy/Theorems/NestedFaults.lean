import EbpfToy.Bpf.Memlat
import EbpfToy.Lib.History
import EbpfToy.Lib.Machine

/-!
# memlat under nested faults

`start_ts` has one slot for each thread, but a thread may be inside several
calls of `handle_mm_fault` at once, starts may be refused and returns may go
unseen. Each thread has a stack of calls in progress; the probes see some of
what happens on it.

A sample is always the duration of the very call that returns. The invariant
is about the innermost call: whatever its slot holds is its own entry time, as
long as its return can be seen at all. Calls that contain another call lose
their slot to it, so without losses the samples are the calls with no call
inside.
-/

namespace EbpfToy.NestedFaults

open Lib Memlat

/-- A call of `handle_mm_fault` in progress. -/
structure Frame where
  /-- The clock `memlat_entry` read, if it was attached at the time. -/
  entry : Option UInt64
  /-- Another call was made inside this one. -/
  nested : Bool
  /-- The return will go unseen. -/
  missed : Bool
  deriving DecidableEq

/-- The calls in progress of every thread, innermost first, and the maps. -/
structure Kernel (cap : Nat) where
  stack : UInt64 → List Frame
  maps : Maps cap

/-- A call is entered, returns with `memlat_exit` running, or returns unseen. -/
inductive Act where
  | call (pidTgid ts : UInt64)
  | ret (pidTgid now : UInt64)
  | unseenRet (pidTgid : UInt64)
  deriving DecidableEq

/-- The innermost call contains another one from now on. -/
def markNested : List Frame → List Frame
  | [] => []
  | f :: rest => { f with nested := true } :: rest

/-- The calls whose return will go unseen. -/
def markMissed (calls : List Frame) : List Frame := calls.map fun f => { f with missed := true }

/-- Calls return innermost first. A return is seen only if no return inside
the call went unseen, and only if the call was entered after attachment. -/
def Allowed {cap : Nat} (s : Kernel cap) : Act → Prop
  | .call _ _ => True
  | .ret pidTgid _ => ∃ f rest, s.stack pidTgid = f :: rest ∧ f.missed = false
  | .unseenRet pidTgid => s.stack pidTgid ≠ []

def step {cap : Nat} (s : Kernel cap) : Act → Kernel cap
  -- the call in progress, if any, contains the new one
  | .call pidTgid ts =>
      { stack := Function.update s.stack pidTgid
          (⟨some ts, false, false⟩ :: markNested (s.stack pidTgid))
        maps := memlatEntry pidTgid ts s.maps }
  | .ret pidTgid now =>
      { stack := Function.update s.stack pidTgid (s.stack pidTgid).tail
        maps := memlatExit pidTgid now s.maps }
  -- no probe runs; the calls around this one will go unseen as well
  | .unseenRet pidTgid =>
      { s with stack := Function.update s.stack pidTgid (markMissed (s.stack pidTgid).tail) }

def faults (cap : Nat) : Machine (Kernel cap) Act where
  allowed := Allowed
  next := step

/-- Attachment: threads may be inside calls whose entry no probe saw; their
returns will not be seen either. -/
def attach {cap : Nat} (depth : UInt64 → Nat) : Kernel cap :=
  ⟨fun pidTgid => List.replicate (depth pidTgid) ⟨none, false, true⟩, empty⟩

variable {cap : Nat}

/-- The step adds a sample to the histogram. -/
def AddsSample (s : Kernel cap) (a : Act) : Prop := (step s a).maps.hist ≠ s.maps.hist

/-- The step completes a call that contains no other call. -/
def CompletesLeaf (s : Kernel cap) (a : Act) : Prop :=
  ∃ pidTgid now f rest, a = .ret pidTgid now ∧ s.stack pidTgid = f :: rest ∧ f.nested = false

/-- The sample a step adds is the duration of the call that returns: of its own
entry time and of its return time. -/
def OwnDuration (s : Kernel cap) (a : Act) : Prop :=
  ∃ pidTgid now f rest ts, a = .ret pidTgid now ∧ s.stack pidTgid = f :: rest ∧
    f.entry = some ts ∧ (step s a).maps.hist = s.maps.hist.bump (bucketOfDelta (now - ts))

/-- A step adds a sample exactly when it is a seen return that finds a start. -/
theorem addsSample_iff (s : Kernel cap) (a : Act) :
    AddsSample s a ↔
      ∃ pidTgid now ts, a = .ret pidTgid now ∧ s.maps.startTs.lookup pidTgid = some ts := by
  cases a with
  | call pidTgid ts => exact iff_of_false (fun h => h rfl) (by simp)
  | unseenRet pidTgid => exact iff_of_false (fun h => h rfl) (by simp)
  | ret pidTgid now =>
      show (memlatExit pidTgid now s.maps).hist ≠ s.maps.hist ↔ _
      rw [memlatExit_hist_ne_iff]
      refine ⟨?_, ?_⟩
      · intro ⟨ts, hts⟩
        exact ⟨pidTgid, now, ts, rfl, hts⟩
      · intro ⟨pidTgid', now', ts, hret, hts⟩
        obtain ⟨rfl, -⟩ := Act.ret.inj hret
        exact ⟨ts, hts⟩

/-! ## What one step does to each thread -/

def Act.pidTgid : Act → UInt64
  | .call pidTgid _ => pidTgid
  | .ret pidTgid _ => pidTgid
  | .unseenRet pidTgid => pidTgid

/-- The stack and the slot of every other thread stay as they are. -/
theorem step_of_ne {s : Kernel cap} {a : Act} {k : UInt64} (hk : k ≠ a.pidTgid) :
    (step s a).stack k = s.stack k ∧
      (step s a).maps.startTs.lookup k = s.maps.startTs.lookup k := by
  cases a with
  | call pidTgid ts =>
      exact ⟨Function.update_of_ne hk _ _, lookup_memlatEntry_of_ne hk ts s.maps⟩
  | ret pidTgid now =>
      exact ⟨Function.update_of_ne hk _ _, lookup_memlatExit_of_ne hk now s.maps⟩
  | unseenRet pidTgid => exact ⟨Function.update_of_ne hk _ _, rfl⟩

theorem stack_call (s : Kernel cap) (k ts : UInt64) :
    (step s (.call k ts)).stack k = ⟨some ts, false, false⟩ :: markNested (s.stack k) :=
  Function.update_self _ _ _

theorem stack_ret (s : Kernel cap) (k now : UInt64) :
    (step s (.ret k now)).stack k = (s.stack k).tail :=
  Function.update_self _ _ _

theorem stack_unseenRet (s : Kernel cap) (k : UInt64) :
    (step s (.unseenRet k)).stack k = markMissed (s.stack k).tail :=
  Function.update_self _ _ _

/-! ## What a slot holds -/

/-- The slot of a thread, if it holds anything, holds the entry time of the
thread's innermost call, which contains no other call; unless that call's
return will go unseen. -/
def Own (s : Kernel cap) : Prop :=
  ∀ pidTgid f rest, s.stack pidTgid = f :: rest → f.missed = false →
    ∀ ts, s.maps.startTs.lookup pidTgid = some ts → f.entry = some ts ∧ f.nested = false

theorem own_attach (depth : UInt64 → Nat) : Own (attach depth : Kernel cap) := by
  intro pidTgid f rest _ _ ts hts
  simp [attach, empty] at hts

/-- The slot of a thread that has just made a call holds nothing but the call's
own entry time. -/
theorem own_call {s : Kernel cap} {k now ts : UInt64} {f : Frame} {rest : List Frame}
    (hstack : (step s (.call k now)).stack k = f :: rest)
    (hts : (step s (.call k now)).maps.startTs.lookup k = some ts) :
    f.entry = some ts ∧ f.nested = false := by
  rw [stack_call] at hstack
  obtain ⟨rfl, -⟩ := List.cons.inj hstack
  obtain ⟨-, rfl⟩ := BoundedMap.lookup_update_self_iff.mp hts
  exact ⟨rfl, rfl⟩

/-- The calls around an unseen return go unseen themselves. -/
theorem missed_of_unseenRet {s : Kernel cap} {k : UInt64} {f : Frame} {rest : List Frame}
    (hstack : (step s (.unseenRet k)).stack k = f :: rest) : f.missed = true := by
  rw [stack_unseenRet] at hstack
  have hmem : f ∈ markMissed (s.stack k).tail := by
    rw [hstack]
    exact List.mem_cons_self
  obtain ⟨g, -, rfl⟩ := List.mem_map.mp hmem
  rfl

theorem Own.step {s : Kernel cap} {a : Act} (hown : Own s) : Own (step s a) := by
  intro k f rest hstack hseen ts hts
  by_cases hk : k = a.pidTgid
  · subst hk
    cases a with
    | call pidTgid now => exact own_call hstack hts
    | ret pidTgid now =>
        -- the return has emptied the slot
        have hnone := lookup_memlatExit_self pidTgid now s.maps
        exact absurd (hnone.symm.trans hts) (by simp)
    | unseenRet pidTgid =>
        rw [missed_of_unseenRet hstack] at hseen
        contradiction
  · -- another thread's slot and stack did not change
    obtain ⟨hsame, hslot⟩ := step_of_ne (s := s) hk
    rw [hsame] at hstack
    rw [hslot] at hts
    exact hown k f rest hstack hseen ts hts

theorem own_of_legal {depth : UInt64 → Nat} {as : List Act}
    (hlegal : (faults cap).Legal (attach depth) as) : Own ((faults cap).exec (attach depth) as) :=
  hlegal.invariant (fun _ _ hown _ => hown.step) (own_attach depth)

/-- An allowed step that adds a sample adds the returning call's duration. -/
theorem Own.ownDuration {s : Kernel cap} {a : Act} (hown : Own s) (hallowed : Allowed s a)
    (hadds : AddsSample s a) : OwnDuration s a := by
  obtain ⟨pidTgid, now, ts, rfl, hts⟩ := (addsSample_iff s a).mp hadds
  obtain ⟨f, rest, hstack, hseen⟩ := hallowed
  refine ⟨pidTgid, now, f, rest, ts, rfl, hstack, (hown _ f rest hstack hseen ts hts).1, ?_⟩
  show (memlatExit pidTgid now s.maps).hist = _
  rw [memlatExit_of_some hts]

/-! ## Without losses -/

/-- An innermost call that contains no other call has its start in the slot,
and every call around it knows that it is not innermost. -/
def Kept (s : Kernel cap) : Prop :=
  ∀ pidTgid f rest, s.stack pidTgid = f :: rest →
    (f.missed = false → f.nested = false → ∃ ts, s.maps.startTs.lookup pidTgid = some ts) ∧
      ∀ g ∈ rest, g.nested = true ∨ g.missed = true

theorem kept_attach (depth : UInt64 → Nat) : Kept (attach depth : Kernel cap) := by
  intro pidTgid f rest hstack
  have hmissed : ∀ g ∈ f :: rest, g.missed = true := by
    intro g hg
    rw [← hstack] at hg
    rw [List.eq_of_mem_replicate hg]
  refine ⟨?_, ?_⟩
  · intro hseen
    rw [hmissed f List.mem_cons_self] at hseen
    contradiction
  · intro g hg
    exact Or.inr (hmissed g (List.mem_cons_of_mem f hg))

/-- A call whose start is accepted keeps `Kept`. -/
theorem Kept.call {s : Kernel cap} (hkept : Kept s) {pidTgid ts : UInt64}
    (hacc : s.maps.startTs.Accepts pidTgid) : Kept (step s (.call pidTgid ts)) := by
  intro k f rest hstack
  by_cases hk : k = pidTgid
  · subst hk
    rw [stack_call] at hstack
    obtain ⟨rfl, rfl⟩ := List.cons.inj hstack
    refine ⟨?_, ?_⟩
    · intro _ _
      exact ⟨ts, BoundedMap.lookup_update_self hacc ts⟩
    · -- the call that was innermost contains the new one
      intro g hg
      cases hold : s.stack k with
      | nil =>
          rw [hold] at hg
          contradiction
      | cons f' rest' =>
          rw [hold] at hg
          rcases List.mem_cons.mp hg with rfl | hg
          · exact Or.inl rfl
          · exact (hkept k f' rest' hold).2 g hg
  · obtain ⟨hsame, hslot⟩ := step_of_ne (s := s) (a := .call pidTgid ts) hk
    rw [hsame] at hstack
    rw [hslot]
    exact hkept k f rest hstack

/-- A seen return keeps `Kept`. -/
theorem Kept.ret {s : Kernel cap} (hkept : Kept s) (pidTgid now : UInt64) :
    Kept (step s (.ret pidTgid now)) := by
  intro k f rest hstack
  by_cases hk : k = pidTgid
  · -- the call around the returning one contains it
    subst hk
    rw [stack_ret] at hstack
    cases hold : s.stack k with
    | nil =>
        rw [hold] at hstack
        contradiction
    | cons f' rest' =>
        obtain rfl : rest' = f :: rest := by rwa [hold] at hstack
        have haround := (hkept k f' _ hold).2
        refine ⟨?_, fun g hg => haround g (List.mem_cons_of_mem f hg)⟩
        intro hseen hleaf
        rcases haround f List.mem_cons_self with h | h
        · rw [h] at hleaf
          contradiction
        · rw [h] at hseen
          contradiction
  · obtain ⟨hsame, hslot⟩ := step_of_ne (s := s) (a := .ret pidTgid now) hk
    rw [hsame] at hstack
    rw [hslot]
    exact hkept k f rest hstack

/-- No start is refused along the run. -/
def NoRefusal (cap : Nat) (depth : UInt64 → Nat) (as : List Act) : Prop :=
  ∀ pre pidTgid ts post, as = pre ++ .call pidTgid ts :: post →
    ((faults cap).exec (attach depth) pre).maps.startTs.Accepts pidTgid

/-- Every return along the run is seen. -/
def AllSeen (as : List Act) : Prop := ∀ pidTgid, .unseenRet pidTgid ∉ as

theorem kept_of_lossless {depth : UInt64 → Nat} {as : List Act}
    (haccept : NoRefusal cap depth as) (hseen : AllSeen as) :
    Kept ((faults cap).exec (attach depth) as) := by
  -- the invariant rule does not apply: acceptance is about the run, not a guard
  induction as using List.reverseRecOn with
  | nil => exact kept_attach depth
  | append_singleton as a ih =>
      have hkept := ih
        (fun pre k ts post has => haccept pre k ts (post ++ [a]) (by rw [has]; simp))
        (fun k hk => hseen k (List.mem_append_left [a] hk))
      rw [Machine.exec_concat]
      cases a with
      | call pidTgid ts => exact hkept.call (haccept as pidTgid ts [] rfl)
      | ret pidTgid now => exact hkept.ret pidTgid now
      | unseenRet pidTgid => exact absurd (List.mem_append_right as (by simp)) (hseen pidTgid)

/-- Without losses a step adds a sample exactly when it completes a call that
contains no other call. -/
theorem addsSample_iff_completesLeaf {s : Kernel cap} {a : Act} (hown : Own s) (hkept : Kept s)
    (hallowed : Allowed s a) : AddsSample s a ↔ CompletesLeaf s a := by
  rw [addsSample_iff]
  -- a slot that holds a start is a leaf's (`Own`), a leaf's slot holds one (`Kept`)
  refine ⟨?_, ?_⟩
  · rintro ⟨pidTgid, now, ts, rfl, hts⟩
    obtain ⟨f, rest, hstack, hseen⟩ := hallowed
    exact ⟨pidTgid, now, f, rest, rfl, hstack, (hown pidTgid f rest hstack hseen ts hts).2⟩
  · rintro ⟨pidTgid, now, f, rest, rfl, hstack, hleaf⟩
    obtain ⟨f', rest', hstack', hseen⟩ := hallowed
    obtain ⟨rfl, rfl⟩ := List.cons.inj (hstack.symm.trans hstack')
    obtain ⟨ts, hts⟩ := (hkept pidTgid f rest hstack).1 hseen hleaf
    exact ⟨pidTgid, now, ts, rfl, hts⟩

/-- The number of samples added along the run. -/
noncomputable def sampleCount (cap : Nat) (depth : UInt64 → Nat) (as : List Act) : Nat :=
  countAt (fun pre a => AddsSample ((faults cap).exec (attach depth) pre) a) as

/-- The number of calls completed along the run that contain no other call. -/
noncomputable def leafCount (cap : Nat) (depth : UInt64 → Nat) (as : List Act) : Nat :=
  countAt (fun pre a => CompletesLeaf ((faults cap).exec (attach depth) pre) a) as

/-- Every sample is the duration of exactly the call that returns; and when
nothing is refused or unseen, there is one for each completed call that
contains no other call. -/
theorem samples_are_own_durations {depth : UInt64 → Nat} {as : List Act}
    (hlegal : (faults cap).Legal (attach depth) as) :
    (∀ pre a post, as = pre ++ a :: post →
      AddsSample ((faults cap).exec (attach depth) pre) a →
      OwnDuration ((faults cap).exec (attach depth) pre) a) ∧
    (NoRefusal cap depth as → AllSeen as →
      sampleCount cap depth as = leafCount cap depth as) := by
  refine ⟨?_, ?_⟩
  · intro pre a post has hadds
    rw [has, Machine.legal_append] at hlegal
    exact (own_of_legal hlegal.1).ownDuration hlegal.2.1 hadds
  · intro haccept hseen
    apply countAt_congr
    intro pre a post has
    rw [has, Machine.legal_append] at hlegal
    apply addsSample_iff_completesLeaf (own_of_legal hlegal.1) ?_ hlegal.2.1
    apply kept_of_lossless
    · intro pre' k ts post' hpre
      exact haccept pre' k ts (post' ++ a :: post) (by rw [has, hpre]; simp)
    · intro k hk
      exact hseen k (by rw [has]; exact List.mem_append_left _ hk)

/-- What the probes see of a run. -/
def seen (as : List Act) : List Ev :=
  as.filterMap fun a => match a with
    | .call pidTgid ts => some (.entry pidTgid ts)
    | .ret pidTgid now => some (.exit pidTgid now)
    | .unseenRet _ => none

/-- The maps are those of the probes on the events they see. -/
theorem maps_exec (depth : UInt64 → Nat) (as : List Act) :
    ((faults cap).exec (attach depth) as).maps = (probe cap).run (seen as) := by
  induction as using List.reverseRecOn with
  | nil => rfl
  | append_singleton as a ih =>
      rw [Machine.exec_concat, seen, List.filterMap_append]
      cases a with
      | call pidTgid ts =>
          show memlatEntry pidTgid ts _ = (probe cap).run (seen as ++ [.entry pidTgid ts])
          rw [Stopwatch.run_concat, ih]
          rfl
      | ret pidTgid now =>
          show memlatExit pidTgid now _ = (probe cap).run (seen as ++ [.exit pidTgid now])
          rw [Stopwatch.run_concat, ih]
          rfl
      | unseenRet pidTgid =>
          show ((faults cap).exec (attach depth) as).maps = (probe cap).run (seen as ++ [])
          rw [List.append_nil, ih]

/-- A run shorter than the table is large refuses no start. -/
theorem noRefusal_of_length_le {depth : UInt64 → Nat} {as : List Act} (h : as.length ≤ cap) :
    NoRefusal cap depth as := by
  intro pre k ts post has
  rw [maps_exec]
  have hseen : (seen pre).length ≤ pre.length := List.length_filterMap_le _ pre
  have hpre : pre.length < as.length := by
    rw [has, List.length_append, List.length_cons]
    omega
  exact Stopwatch.accepts_of_length_lt (W := (probe cap).toStopwatch) (by omega) k

/-- A thread already inside a call faults, with a fault inside that one: the
call entered before attachment returns unseen in the first run; in the second
one nothing is lost. -/
theorem samples_are_own_durations_nested :
    (∀ pre a post,
      [.call 7 10, .call 7 20, .ret 7 30, .ret 7 40, .unseenRet 7] = pre ++ a :: post →
      AddsSample ((faults 8192).exec (attach fun _ => 1) pre) a →
      OwnDuration ((faults 8192).exec (attach fun _ => 1) pre) a) ∧
    sampleCount 8192 (fun _ => 1) [.call 7 10, .call 7 20, .ret 7 30, .ret 7 40] =
      leafCount 8192 (fun _ => 1) [.call 7 10, .call 7 20, .ret 7 30, .ret 7 40] := by
  have hlossy : (faults 8192).Legal (attach fun _ => 1)
      [.call 7 10, .call 7 20, .ret 7 30, .ret 7 40, .unseenRet 7] :=
    ⟨trivial, trivial, ⟨_, _, rfl, rfl⟩, ⟨_, _, rfl, rfl⟩, List.cons_ne_nil _ _, trivial⟩
  have hlossless : (faults 8192).Legal (attach fun _ => 1)
      [.call 7 10, .call 7 20, .ret 7 30, .ret 7 40] :=
    ⟨trivial, trivial, ⟨_, _, rfl, rfl⟩, ⟨_, _, rfl, rfl⟩, trivial⟩
  refine ⟨(samples_are_own_durations hlossy).1, ?_⟩
  apply (samples_are_own_durations hlossless).2 (noRefusal_of_length_le (by decide))
  intro k hk
  simp at hk

end EbpfToy.NestedFaults
