import EbpfToy.Bpf.Memlat
import EbpfToy.Bpf.Iolat
import EbpfToy.Lib.Machine

/-!
# Attaching the probes one after the other

memlat and iolat attach their start probe first and their stop probe later,
while threads fault and requests are served. An operation that is recorded by
the start probe, but whose end the stop probe does not see, leaves its entry in
`start_ts` for good: nobody deletes it until its key happens to start again.

Whether an end is seen differs. A kretprobe fires for the calls that were
entered after it was registered; a tracepoint fires for every completion from
its attachment on. Entries are stale exactly when a recorded operation ends
unseen.
-/

namespace EbpfToy.Attachment

open Lib

/-- How a tool's operations are traced: whether the stop probe sees an end,
from whether it was attached at the start and whether it is at the end; and
whether an operation in flight may be started again. -/
structure Tracing where
  sees : Bool → Bool → Bool
  reissue : Bool

/-- `memlat_exit` fires for the calls entered after it was registered; a thread
runs one call at a time. -/
def kretprobe : Tracing := ⟨fun atStart _ => atStart, false⟩

/-- `iolat_complete` fires for every completion once it is attached; a request
may be issued again after a requeue. -/
def tracepoint : Tracing := ⟨fun _ atEnd => atEnd, true⟩

variable {V : Type} {copies slots cap : Nat}

/-- The operations in flight, each with whether the stop probe was attached when
it started; the maps; and the probes that are attached. -/
structure World (P : Probe V copies slots cap) where
  inFlight : UInt64 → Option Bool
  maps : P.St
  startOn : Bool
  stopOn : Bool

/-- A probe is attached, or the operation of an event starts or ends. -/
inductive Act (P : Probe V copies slots cap) where
  | attachStart
  | attachStop
  | starts (e : P.Ev)
  | ends (e : P.Ev)

variable {P : Probe V copies slots cap} (T : Tracing)

/-- The start probe is attached first. -/
def Allowed (s : World P) : Act P → Prop
  | .attachStart => s.startOn = false
  | .attachStop => s.startOn = true ∧ s.stopOn = false
  | .starts e => ∃ k v, P.view e = .start k v ∧ (s.inFlight k = none ∨ T.reissue = true)
  | .ends e => ∃ k, P.view e = .stop k ∧ s.inFlight k ≠ none

/-- The stop probe sees the end `e`. -/
def World.seesEnd (s : World P) (e : P.Ev) : Bool :=
  T.sees ((s.inFlight (P.view e).key).getD false) s.stopOn

def step (s : World P) : Act P → World P
  | .attachStart => { s with startOn := true }
  | .attachStop => { s with stopOn := true }
  | .starts e =>
      { s with
        inFlight := Function.update s.inFlight (P.view e).key (some s.stopOn)
        maps := if s.startOn then P.step s.maps e else s.maps }
  | .ends e =>
      { s with
        inFlight := Function.update s.inFlight (P.view e).key none
        maps := if s.seesEnd T e then P.step s.maps e else s.maps }

def world (P : Probe V copies slots cap) : Machine (World P) (Act P) where
  allowed := Allowed T
  next := step T

/-- No probe attached, empty maps, and some operations already under way. -/
def boot (P : Probe V copies slots cap) (running : UInt64 → Bool) : World P :=
  ⟨fun k => if running k then some false else none, P.init, false, false⟩

/-- Every key in `start_ts` belongs to an operation in flight. -/
def NoStale (s : World P) : Prop :=
  ∀ k v, (P.table s.maps).lookup k = some v → s.inFlight k ≠ none

/-- No operation whose start is in `start_ts` ends unseen. -/
def NoRecordedUnseen (running : UInt64 → Bool) (as : List (Act P)) : Prop :=
  ∀ s e, (s, .ends e) ∈ (world T P).trace (boot P running) as → s.seesEnd T e = false →
    (P.table s.maps).lookup (P.view e).key = none

variable {T}

theorem NoRecordedUnseen.left {running : UInt64 → Bool} {as bs : List (Act P)}
    (h : NoRecordedUnseen T running (as ++ bs)) : NoRecordedUnseen T running as := by
  intro s e hmem
  apply h s e
  rw [Machine.trace_append]
  exact List.mem_append_left _ hmem

/-! ## One step -/

/-- An operation that starts is in flight, and touches no other key. -/
theorem NoStale.starts {s : World P} (h : NoStale s) (e : P.Ev) :
    NoStale (step T s (.starts e)) := by
  intro k v hl
  by_cases hk : k = (P.view e).key
  · subst hk
    show Function.update s.inFlight _ _ _ ≠ none
    rw [Function.update_self]
    exact Option.some_ne_none _
  · show Function.update s.inFlight _ _ k ≠ none
    rw [Function.update_of_ne hk]
    have hsame : (P.table (step T s (.starts e)).maps).lookup k = (P.table s.maps).lookup k := by
      show (P.table (if s.startOn then P.step s.maps e else s.maps)).lookup k = _
      split
      · exact Stopwatch.lookup_step_of_ne (Ne.symm hk)
      · rfl
    rw [hsame] at hl
    exact h k v hl

/-- After a seen end its key holds nothing. -/
theorem lookup_step_stop {m : P.St} {e : P.Ev} {k : UInt64} (hview : P.view e = .stop k) :
    (P.table (P.step m e)).lookup k = none := by
  cases hl : (P.table m).lookup k with
  | none => rw [P.step_stop_none m e k hview hl, hl]
  | some v => rw [(P.step_stop_some m e k v hview hl).1, BoundedMap.lookup_delete_self]

/-- An end that is seen, or whose start is not recorded, leaves nothing stale. -/
theorem NoStale.ends {s : World P} (h : NoStale s) {e : P.Ev} {k : UInt64}
    (hview : P.view e = .stop k)
    (hseen : s.seesEnd T e = false → (P.table s.maps).lookup k = none) :
    NoStale (step T s (.ends e)) := by
  have hkey : (P.view e).key = k := by rw [hview]; rfl
  intro k' v hl
  have hl' : (P.table (if s.seesEnd T e then P.step s.maps e else s.maps)).lookup k' =
    some v := hl
  show Function.update s.inFlight _ _ k' ≠ none
  by_cases hk : k' = k
  · -- the key itself: deleted by the probe, or never recorded
    subst hk
    cases hsee : s.seesEnd T e with
    | true =>
        rw [hsee, if_pos rfl, lookup_step_stop hview] at hl'
        contradiction
    | false =>
        rw [hsee, if_neg Bool.false_ne_true, hseen hsee] at hl'
        contradiction
  · rw [hkey, Function.update_of_ne hk]
    apply h k' v
    rw [← hl']
    split
    · exact (Stopwatch.lookup_step_of_ne (by rw [hkey]; exact Ne.symm hk)).symm
    · rfl

/-! ## Runs -/

/-- Nothing is stale at any moment of a run in which no recorded operation ends
unseen. -/
theorem noStale_of_noRecordedUnseen {running : UInt64 → Bool} {as : List (Act P)}
    (hlegal : (world T P).Legal (boot P running) as) (hcond : NoRecordedUnseen T running as) :
    NoStale ((world T P).exec (boot P running) as) := by
  induction as using List.reverseRecOn with
  | nil =>
      intro k v hl
      have hinit : ((world T P).exec (boot P running) []).maps = P.init := rfl
      rw [hinit, P.table_init, BoundedMap.lookup_empty] at hl
      contradiction
  | append_singleton as a ih =>
      rw [Machine.legal_concat] at hlegal
      have h := ih hlegal.1 hcond.left
      rw [Machine.exec_concat]
      cases a with
      | attachStart => exact h
      | attachStop => exact h
      | starts e => exact h.starts (T := T) e
      | ends e =>
          obtain ⟨k, hview, -⟩ := hlegal.2
          have hkey : (P.view e).key = k := by rw [hview]; rfl
          apply h.ends hview
          intro hunseen
          rw [← hkey]
          apply hcond _ e _ hunseen
          rw [Machine.trace_concat]
          exact List.mem_append_right _ List.mem_cons_self

/-- And only then: an end that breaks the condition leaves its entry stale. -/
theorem noStale_iff_noRecordedUnseen {running : UInt64 → Bool} {as : List (Act P)}
    (hlegal : (world T P).Legal (boot P running) as) :
    (∀ pre post, as = pre ++ post → NoStale ((world T P).exec (boot P running) pre)) ↔
      NoRecordedUnseen T running as := by
  refine ⟨?_, ?_⟩
  · intro h s e hmem hunseen
    obtain ⟨pre, post, rfl, rfl⟩ := Machine.exists_of_mem_trace hmem
    have hafter := h (pre ++ [.ends e]) post (by simp)
    rw [Machine.exec_concat] at hafter
    by_contra hrec
    obtain ⟨v, hv⟩ := Option.ne_none_iff_exists'.mp hrec
    -- the operation is over, and its entry is still there
    refine hafter (P.view e).key v ?_ (Function.update_self _ _ _)
    show (P.table (if _ then _ else _)).lookup _ = some v
    rw [hunseen, if_neg Bool.false_ne_true]
    exact hv
  · rintro hcond pre post rfl
    rw [Machine.legal_append] at hlegal
    exact noStale_of_noRecordedUnseen hlegal.1 hcond.left

/-- At every moment after both attachments, every key in `start_ts` belongs to
an operation in flight. -/
def NeverStale (T : Tracing) (P : Probe V copies slots cap) (running : UInt64 → Bool)
    (as : List (Act P)) : Prop :=
  ∀ pre post, as = pre ++ post → ((world T P).exec (boot P running) pre).stopOn = true →
    NoStale ((world T P).exec (boot P running) pre)

theorem neverStale_of_noRecordedUnseen {running : UInt64 → Bool} {as : List (Act P)}
    (hlegal : (world T P).Legal (boot P running) as) (hcond : NoRecordedUnseen T running as) :
    NeverStale T P running as :=
  fun pre post has _ => (noStale_iff_noRecordedUnseen hlegal).mpr hcond pre post has

/-- memlat and iolat hold no stale start as long as no recorded operation ends
unseen. -/
theorem start_ts_in_flight (cap : Nat) (running : UInt64 → Bool) :
    (∀ as : List (Act (Memlat.probe cap)),
      (world kretprobe (Memlat.probe cap)).Legal (boot _ running) as →
      NoRecordedUnseen kretprobe running as →
      NeverStale kretprobe (Memlat.probe cap) running as) ∧
    (∀ as : List (Act (Iolat.probe cap)),
      (world tracepoint (Iolat.probe cap)).Legal (boot _ running) as →
      NoRecordedUnseen tracepoint running as →
      NeverStale tracepoint (Iolat.probe cap) running as) := by
  refine ⟨?_, ?_⟩
  · intro as hlegal hcond
    exact neverStale_of_noRecordedUnseen hlegal hcond
  · intro as hlegal hcond
    exact neverStale_of_noRecordedUnseen hlegal hcond

/-- A call that was under way before the attachments and one that follows them;
a request issued between the two attachments and completed after. -/
theorem start_ts_in_flight_short :
    NeverStale kretprobe (Memlat.probe 8192) (fun k => k == 7)
      [.attachStart, .attachStop, .ends (.exit 7 10), .starts (.entry 7 20), .ends (.exit 7 30)] ∧
    NeverStale tracepoint (Iolat.probe 131072) (fun _ => false)
      [.attachStart, .starts (.issue 7 10 3 (.replicate 16 0)), .attachStop,
        .ends (.complete 7 20 0 4096)] := by
  refine ⟨(start_ts_in_flight _ _).1 _ ?_ ?_, (start_ts_in_flight _ _).2 _ ?_ ?_⟩
  · exact ⟨rfl, ⟨rfl, rfl⟩, ⟨7, rfl, by decide⟩, ⟨7, 20, rfl, .inl rfl⟩, ⟨7, rfl, by decide⟩,
      trivial⟩
  · intro s e hmem hunseen
    simp only [Machine.trace, List.mem_cons, Prod.mk.injEq, reduceCtorEq, and_false, false_or,
      List.not_mem_nil, or_false, Act.ends.injEq] at hmem
    obtain ⟨rfl, rfl⟩ | ⟨rfl, rfl⟩ := hmem
    · rfl
    · contradiction
  · exact ⟨rfl, ⟨7, _, rfl, .inl rfl⟩, ⟨rfl, rfl⟩, ⟨7, rfl, by decide⟩, trivial⟩
  · intro s e hmem hunseen
    simp only [Machine.trace, List.mem_cons, Prod.mk.injEq, reduceCtorEq, and_false, false_or,
      List.not_mem_nil, or_false, Act.ends.injEq] at hmem
    obtain ⟨rfl, rfl⟩ := hmem
    contradiction

/-- A fault that is entered between the two attachments returns after them, and
a request issued between them completes before the second: both stay in
`start_ts`. -/
theorem start_ts_stale :
    ((world kretprobe (Memlat.probe Memlat.maxEntries)).Legal (boot _ fun _ => false)
        [.attachStart, .starts (.entry 7 10), .attachStop, .ends (.exit 7 20)] ∧
      ¬ NeverStale kretprobe (Memlat.probe Memlat.maxEntries) (fun _ => false)
        [.attachStart, .starts (.entry 7 10), .attachStop, .ends (.exit 7 20)]) ∧
    ((world tracepoint (Iolat.probe Iolat.maxEntries)).Legal (boot _ fun _ => false)
        [.attachStart, .starts (.issue 7 10 3 (.replicate 16 0)),
          .ends (.complete 7 20 0 4096), .attachStop] ∧
      ¬ NeverStale tracepoint (Iolat.probe Iolat.maxEntries) (fun _ => false)
        [.attachStart, .starts (.issue 7 10 3 (.replicate 16 0)),
          .ends (.complete 7 20 0 4096), .attachStop]) := by
  refine ⟨⟨?_, ?_⟩, ⟨?_, ?_⟩⟩
  · exact ⟨rfl, ⟨7, 10, rfl, .inl rfl⟩, ⟨rfl, rfl⟩, ⟨7, rfl, by decide⟩, trivial⟩
  · intro h
    exact h _ [] (List.append_nil _).symm rfl 7 10 rfl rfl
  · exact ⟨rfl, ⟨7, _, rfl, .inl rfl⟩, ⟨7, rfl, by decide⟩, ⟨rfl, rfl⟩, trivial⟩
  · intro h
    exact h _ [] (List.append_nil _).symm rfl 7 _ rfl rfl

end EbpfToy.Attachment
