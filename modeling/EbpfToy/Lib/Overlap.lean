import EbpfToy.Lib.Capacity
import EbpfToy.Lib.Machine
import EbpfToy.Lib.Serial
import Mathlib.Algebra.BigOperators.Group.Finset.Piecewise

/-!
# Stopwatches whose handlers overlap

Several agents run the handlers of one stopwatch on a shared table and shared
counters, one map access at a time. A start is one update. A stop looks its key
up and then makes two writes: it deletes the key, and it adds one to a counter
with an atomic instruction, in an order that is a parameter. An agent runs one
handler at a time, and handlers on the same key never overlap.

The run is simulated by one that executes each handler atomically, at its last
access to the table. The counters of the two runs differ by the agents that are
between their two writes (`Sim.cell`): behind, when the key is deleted first,
and ahead when the counter is bumped first. When no handler is in progress they
agree.
-/

namespace Lib.Overlap

open Stopwatch

variable {K V B C : Type} [DecidableEq K] [DecidableEq B] [DecidableEq C] [Fintype C] {cap : Nat}

/-- Where an agent is: outside the handlers, or before one of their accesses.
After a lookup that found `v` there are two writes to make. -/
inductive Pc (W : Stopwatch K V B cap) where
  | idle
  | updating (e : W.Ev)
  | lookingUp (e : W.Ev)
  | found (e : W.Ev) (v : V)
  | half (e : W.Ev) (v : V)

structure System (W : Stopwatch K V B cap) (C : Type) where
  pc : C → Pc W
  table : BoundedMap K V cap
  cell : B → UInt64

/-- An agent begins the handler of an event, or takes its next step. -/
inductive Act (W : Stopwatch K V B cap) (C : Type) where
  | enter (c : C) (e : W.Ev)
  | step (c : C)

variable {W : Stopwatch K V B cap}

instance [DecidableEq W.Ev] : DecidableEq (Act W C)
  | .enter c e, .enter c' e' => decidable_of_iff (c = c' ∧ e = e') (by simp)
  | .step c, .step c' => decidable_of_iff (c = c') (by simp)
  | .enter _ _, .step _ => isFalse nofun
  | .step _, .enter _ _ => isFalse nofun

/-- The handler that an agent is in. -/
def Pc.handler : Pc W → Option W.Ev
  | .idle => none
  | .updating e => some e
  | .lookingUp e => some e
  | .found e _ => some e
  | .half e _ => some e

theorem Pc.handler_eq_none_iff {p : Pc W} : p.handler = none ↔ p = .idle := by
  cases p <;> simp [Pc.handler]

/-- Where the handler of an event begins. -/
def entered (W : Stopwatch K V B cap) (e : W.Ev) : Pc W :=
  match W.view e with
  | .start _ _ => .updating e
  | .stop _ => .lookingUp e

/-- A handler begins on an agent that is in none, on a key that none is on. -/
def Allowed (s : System W C) : Act W C → Prop
  | .enter c e => (s.pc c).handler = none ∧
      ∀ c', ∀ f ∈ (s.pc c').handler, (W.view f).key ≠ (W.view e).key
  | .step c => (s.pc c).handler ≠ none

instance (s : System W C) : (a : Act W C) → Decidable (Allowed s a)
  | .enter c _ => inferInstanceAs (Decidable ((s.pc c).handler = none ∧ _))
  | .step c => inferInstanceAs (Decidable ((s.pc c).handler ≠ none))

/-- `bump`, on a shared counter: one atomic addition. -/
def fetchAdd (cell : B → UInt64) (b : B) : B → UInt64 :=
  fun b' => if b = b' then cell b' + 1 else cell b'

/-- One access of the handler that `c` is in. -/
def stepAgent (deleteFirst : Bool) (c : C) (s : System W C) : System W C :=
  match s.pc c with
  | .idle => s
  | .updating e =>
      match W.view e with
      | .start k v => { s with pc := Function.update s.pc c .idle, table := s.table.update k v }
      | .stop _ => { s with pc := Function.update s.pc c .idle }
  | .lookingUp e =>
      match s.table.lookup (W.view e).key with
      | none => { s with pc := Function.update s.pc c .idle }
      | some v => { s with pc := Function.update s.pc c (.found e v) }
  | .found e v =>
      if deleteFirst then
        { s with pc := Function.update s.pc c (.half e v)
                 table := s.table.delete (W.view e).key }
      else
        { s with pc := Function.update s.pc c (.half e v)
                 cell := fetchAdd s.cell (W.cellOf e v) }
  | .half e v =>
      if deleteFirst then
        { s with pc := Function.update s.pc c .idle, cell := fetchAdd s.cell (W.cellOf e v) }
      else
        { s with pc := Function.update s.pc c .idle, table := s.table.delete (W.view e).key }

def step (deleteFirst : Bool) (s : System W C) : Act W C → System W C
  | .enter c e => { s with pc := Function.update s.pc c (entered W e) }
  | .step c => stepAgent deleteFirst c s

def system (W : Stopwatch K V B cap) (C : Type) [DecidableEq C] (deleteFirst : Bool) :
    Machine (System W C) (Act W C) where
  allowed := Allowed
  next := step deleteFirst

instance (s : System W C) (a : Act W C) (deleteFirst : Bool) :
    Decidable ((system W C deleteFirst).allowed s a) :=
  inferInstanceAs (Decidable (Allowed s a))

/-- No handler in progress, nothing stored or counted. -/
def rest (W : Stopwatch K V B cap) (C : Type) : System W C :=
  ⟨fun _ => .idle, .empty, fun _ => 0⟩

/-- The events whose handlers began, in order. -/
def begun (as : List (Act W C)) : List W.Ev :=
  as.filterMap fun a => match a with
    | .enter _ e => some e
    | .step _ => none

/-- The event whose handler makes its last access to the table in this step. -/
def settled (deleteFirst : Bool) (s : System W C) : Act W C → List W.Ev
  | .enter _ _ => []
  | .step c =>
      match s.pc c with
      | .idle => []
      | .updating e => [e]
      | .lookingUp e =>
          match s.table.lookup (W.view e).key with
          | none => [e]
          | some _ => []
      | .found e _ => if deleteFirst then [e] else []
      | .half e _ => if deleteFirst then [] else [e]

/-- The events in the order in which their handlers settle. -/
def done (W : Stopwatch K V B cap) (deleteFirst : Bool) (as : List (Act W C)) : List W.Ev :=
  ((system W C deleteFirst).trace (rest W C) as).flatMap fun x => settled deleteFirst x.1 x.2

/-- No update of the table is refused along the run. -/
def NoRefusal (W : Stopwatch K V B cap) (deleteFirst : Bool) (as : List (Act W C)) : Prop :=
  ∀ s c e k v, (s, .step c) ∈ (system W C deleteFirst).trace (rest W C) as →
    s.pc c = .updating e → W.view e = .start k v → s.table.Accepts k

/-- One for an agent between the two writes of a stop that counts in `b`. -/
def Pc.halfIn (b : B) : Pc W → Nat
  | .half e v => if W.cellOf e v = b then 1 else 0
  | _ => 0

/-- The number of agents between the two writes of a stop that counts in `b`. -/
def halfway (pc : C → Pc W) (b : B) : Nat := ∑ c, (pc c).halfIn b

omit [DecidableEq B] in
theorem sum_update_add {A : Type} (pc : C → A) (f : A → Nat) (c : C) (p : A) :
    (∑ c', f (Function.update pc c p c')) + f (pc c) = (∑ c', f (pc c')) + f p := by
  have hrest : ∑ c' ∈ Finset.univ.erase c, f (Function.update pc c p c') =
      ∑ c' ∈ Finset.univ.erase c, f (pc c') := by
    apply Finset.sum_congr rfl
    intro c' hc'
    rw [Function.update_of_ne (Finset.ne_of_mem_erase hc')]
  rw [← Finset.add_sum_erase _ _ (Finset.mem_univ c), hrest,
    ← Finset.add_sum_erase _ (fun c' => f (pc c')) (Finset.mem_univ c), Function.update_self]
  omega

theorem halfway_update (pc : C → Pc W) (c : C) (p : Pc W) (b : B) :
    halfway (Function.update pc c p) b + (pc c).halfIn b = halfway pc b + p.halfIn b :=
  sum_update_add pc (Pc.halfIn b) c p

/-- Moving between two places that are not between two writes. -/
theorem halfway_update_of_zero {pc : C → Pc W} {c : C} {p : Pc W}
    (hold : ∀ b, (pc c).halfIn b = 0) (hnew : ∀ b, p.halfIn b = 0) (b : B) :
    halfway (Function.update pc c p) b = halfway pc b := by
  have h := halfway_update pc c p b
  rw [hold, hnew] at h
  exact h

omit [DecidableEq C] in
/-- Each agent is between the writes of one stop at most. -/
theorem halfway_le (pc : C → Pc W) (b : B) : halfway pc b ≤ Fintype.card C := by
  have hone : ∀ c, (pc c).halfIn b ≤ 1 := by
    intro c
    cases pc c with
    | half e v =>
        show (if W.cellOf e v = b then 1 else 0) ≤ 1
        split <;> omega
    | _ => exact Nat.zero_le 1
  calc halfway pc b ≤ ∑ _c : C, 1 := Finset.sum_le_sum fun c _ => hone c
    _ = Fintype.card C := by rw [Finset.sum_const, Finset.card_univ, smul_eq_mul, Nat.mul_one]

/-! ## The simulation -/

/-- The handler that an agent is in and that is not settled. -/
def Pc.pending (deleteFirst : Bool) : Pc W → Option W.Ev
  | .idle => none
  | .updating e => some e
  | .lookingUp e => some e
  | .found e _ => some e
  | .half e _ => if deleteFirst then none else some e

/-- What an agent has read is still in the table. -/
def Pc.Faithful (deleteFirst : Bool) (table : BoundedMap K V cap) : Pc W → Prop
  | .idle => True
  | .updating e => ∃ k v, W.view e = .start k v
  | .lookingUp e => ∃ k, W.view e = .stop k
  | .found e v => ∃ k, W.view e = .stop k ∧ table.lookup k = some v
  | .half e v => ∃ k, W.view e = .stop k ∧ (deleteFirst = false → table.lookup k = some v)

/-- The matched stops of the atomic run that count in `b`. -/
noncomputable def counted (done : List W.Ev) (b : B) : Nat :=
  W.matchedCount (fun e v => W.cellOf e v = b) done

/-- A counter holds the number `n` of additions made so far. The atomic run is
ahead of it, or behind it, by the agents that are between their two writes. -/
def Balanced (deleteFirst : Bool) (s : System W C) (done : List W.Ev) : Prop :=
  ∀ b, ∃ n, s.cell b = UInt64.ofNat n ∧
    if deleteFirst then n + halfway s.pc b = counted done b
    else n = counted done b + halfway s.pc b

/-- The system against the atomic run of the handlers `done`. -/
structure Sim (deleteFirst : Bool) (s : System W C) (begun done : List W.Ev) : Prop where
  table : s.table = W.table (W.run done)
  cell : Balanced deleteFirst s done
  faithful : ∀ c, (s.pc c).Faithful deleteFirst s.table
  /-- Handlers in progress are on different keys. -/
  apart : ∀ c c' e e', (s.pc c).handler = some e → (s.pc c').handler = some e' →
    (W.view e).key = (W.view e').key → c = c'
  serial : Serial (fun e => (W.view e).key) (fun c => (s.pc c).pending deleteFirst) begun done

variable {deleteFirst : Bool}

omit [DecidableEq C] in
theorem sim_rest : Sim deleteFirst (rest W C) [] [] where
  table := by rw [run_nil, W.table_init]; rfl
  cell := by
    intro b
    have hzero : halfway (rest W C).pc b = 0 := Finset.sum_eq_zero fun _ _ => rfl
    refine ⟨0, rfl, ?_⟩
    rw [hzero]
    cases deleteFirst <;> rfl
  faithful _ := trivial
  apart c c' e e' h := absurd h (by simp [rest, Pc.handler])
  serial := Serial.start _

/-- The agent's own key apart, what it does to the table is invisible. -/
theorem Pc.Faithful.frame {t t' : BoundedMap K V cap} {p : Pc W} (h : p.Faithful deleteFirst t)
    (hsame : ∀ e, p.handler = some e → t'.lookup (W.view e).key = t.lookup (W.view e).key) :
    p.Faithful deleteFirst t' := by
  cases p with
  | idle => trivial
  | updating e => exact h
  | lookingUp e => exact h
  | found e v =>
      obtain ⟨k, hview, hl⟩ := h
      have heq := hsame e rfl
      rw [hview] at heq
      exact ⟨k, hview, heq.trans hl⟩
  | half e v =>
      obtain ⟨k, hview, hl⟩ := h
      have heq := hsame e rfl
      rw [hview] at heq
      exact ⟨k, hview, fun hd => heq.trans (hl hd)⟩

/-- A settled handler is in progress. -/
theorem Pc.handler_of_pending {p : Pc W} {e : W.Ev} (h : p.pending deleteFirst = some e) :
    p.handler = some e := by
  cases p with
  | idle => contradiction
  | updating e' => exact h
  | lookingUp e' => exact h
  | found e' v => exact h
  | half e' v =>
      cases deleteFirst with
      | true => contradiction
      | false => exact h

omit [Fintype C] in
/-- Moving one agent moves what is pending on it. -/
theorem pending_update (pc : C → Pc W) (c : C) (p : Pc W) :
    (fun c' => (Function.update pc c p c').pending deleteFirst) =
      Function.update (fun c' => (pc c').pending deleteFirst) c (p.pending deleteFirst) := by
  funext c'
  by_cases hc : c' = c
  · subst hc
    simp
  · simp [Function.update_of_ne hc]

/-- An agent takes a step inside its handler `e`, and settles the events `ev`:
none, or `e`. -/
theorem Sim.move {s : System W C} {begun done : List W.Ev} (h : Sim deleteFirst s begun done)
    {c : C} {e : W.Ev} (hbusy : (s.pc c).handler = some e) {p : Pc W} {t : BoundedMap K V cap}
    {cell : B → UInt64} {ev : List W.Ev} (htable : t = W.table (W.run (done ++ ev)))
    (hcell : Balanced deleteFirst ⟨Function.update s.pc c p, t, cell⟩ (done ++ ev))
    (hp : p.Faithful deleteFirst t) (hhandler : p.handler = some e ∨ p.handler = none)
    (hframe : ∀ k, k ≠ (W.view e).key → t.lookup k = s.table.lookup k)
    (hpending : (ev = [] ∧ p.pending deleteFirst = (s.pc c).pending deleteFirst) ∨
      (ev = [e] ∧ (s.pc c).pending deleteFirst = some e ∧ p.pending deleteFirst = none)) :
    Sim deleteFirst ⟨Function.update s.pc c p, t, cell⟩ begun (done ++ ev) where
  table := htable
  cell := hcell
  faithful := by
    intro c'
    show (Function.update s.pc c p c').Faithful deleteFirst t
    by_cases hc : c' = c
    · rw [hc, Function.update_self]
      exact hp
    · rw [Function.update_of_ne hc]
      -- another agent is on another key
      apply (h.faithful c').frame
      intro f hf
      apply hframe
      intro hkey
      exact hc (h.apart c' c f e hf hbusy hkey)
  apart := by
    have hold : ∀ c' f, (Function.update s.pc c p c').handler = some f →
        (s.pc c').handler = some f := by
      intro c' f hf
      by_cases hc : c' = c
      · subst hc
        rw [Function.update_self] at hf
        rcases hhandler with hsame | hnone
        · rw [hbusy, ← hsame, hf]
        · rw [hnone] at hf
          contradiction
      · rwa [Function.update_of_ne hc] at hf
    intro c₁ c₂ e₁ e₂ h₁ h₂ hkey
    exact h.apart c₁ c₂ e₁ e₂ (hold c₁ e₁ h₁) (hold c₂ e₂ h₂) hkey
  serial := by
    show Serial _ (fun c' => (Function.update s.pc c p c').pending deleteFirst) _ _
    rw [pending_update]
    rcases hpending with ⟨rfl, hsame⟩ | ⟨rfl, hwas, hnone⟩
    · have hself : Function.update (fun c' => (s.pc c').pending deleteFirst) c
          (p.pending deleteFirst) = fun c' => (s.pc c').pending deleteFirst := by
        rw [hsame]
        exact Function.update_eq_self c _
      rw [hself, List.append_nil]
      exact h.serial
    · rw [hnone]
      exact h.serial.complete hwas

/-- A handler begins. -/
theorem Sim.enter {s : System W C} {begun done : List W.Ev} (h : Sim deleteFirst s begun done)
    {c : C} {e : W.Ev} (hallowed : Allowed s (.enter c e)) :
    Sim deleteFirst (step deleteFirst s (.enter c e)) (begun ++ [e]) done := by
  obtain ⟨hidle, hfree⟩ := hallowed
  have hpc : s.pc c = .idle := Pc.handler_eq_none_iff.mp hidle
  have hentered : (entered W e).handler = some e ∧ (entered W e).pending deleteFirst = some e ∧
      (entered W e).Faithful deleteFirst s.table ∧ ∀ b, (entered W e).halfIn b = 0 := by
    unfold entered
    cases hview : W.view e with
    | start k v => exact ⟨rfl, rfl, ⟨k, v, hview⟩, fun _ => rfl⟩
    | stop k => exact ⟨rfl, rfl, ⟨k, hview⟩, fun _ => rfl⟩
  obtain ⟨hhandler, hpending, hfaithful, hhalf⟩ := hentered
  have hsome : ∀ c' f, (Function.update s.pc c (entered W e) c').handler = some f →
      (c' = c ∧ e = f) ∨ (c' ≠ c ∧ (s.pc c').handler = some f) := by
    intro c' f hf
    by_cases hc : c' = c
    · rw [hc, Function.update_self, hhandler] at hf
      exact .inl ⟨hc, Option.some.inj hf⟩
    · rw [Function.update_of_ne hc] at hf
      exact .inr ⟨hc, hf⟩
  refine ⟨h.table, ?_, ?_, ?_, ?_⟩
  · intro b
    have hold : ∀ b, (s.pc c).halfIn b = 0 := by rw [hpc]; exact fun _ => rfl
    obtain ⟨n, hn, hcount⟩ := h.cell b
    refine ⟨n, hn, ?_⟩
    show if deleteFirst then n + halfway (Function.update s.pc c (entered W e)) b = _
      else n = _ + halfway (Function.update s.pc c (entered W e)) b
    rw [halfway_update_of_zero hold hhalf b]
    exact hcount
  · intro c'
    show (Function.update s.pc c (entered W e) c').Faithful deleteFirst s.table
    by_cases hc : c' = c
    · rw [hc, Function.update_self]
      exact hfaithful
    · rw [Function.update_of_ne hc]
      exact h.faithful c'
  · intro c₁ c₂ e₁ e₂ h₁ h₂ hkey
    rcases hsome c₁ e₁ h₁ with ⟨rfl, rfl⟩ | ⟨-, hold₁⟩
    · rcases hsome c₂ e₂ h₂ with ⟨rfl, -⟩ | ⟨-, hold₂⟩
      · rfl
      · exact absurd hkey.symm (hfree c₂ e₂ hold₂)
    · rcases hsome c₂ e₂ h₂ with ⟨rfl, rfl⟩ | ⟨-, hold₂⟩
      · exact absurd hkey (hfree c₁ e₁ hold₁)
      · exact h.apart c₁ c₂ e₁ e₂ hold₁ hold₂ hkey
  · show Serial _ (fun c' => (Function.update s.pc c (entered W e) c').pending deleteFirst) _ _
    rw [pending_update, hpending]
    apply h.serial.enter
    · rw [hpc]
      rfl
    · intro c' f hf
      exact hfree c' f (Pc.handler_of_pending hf)

/-! ## The steps of a handler -/

section Steps

variable {s : System W C} {begun done : List W.Ev} {c : C} {e : W.Ev} {k : K} {v : V}

theorem counted_start (hview : W.view e = .start k v) (b : B) :
    counted (done ++ [e]) b = counted done b := by
  classical
  rw [counted, matchedCount_concat, if_neg fun ⟨w, hw, _⟩ => not_matches_of_start hview w hw]
  rfl

theorem counted_stop_none (hview : W.view e = .stop k)
    (hl : (W.table (W.run done)).lookup k = none) (b : B) :
    counted (done ++ [e]) b = counted done b := by
  classical
  have hnone : ¬ ∃ w, W.Matches done e w ∧ W.cellOf e w = b := fun ⟨w, hw, _⟩ =>
    (lookup_run_eq_none_iff done k).mp hl w ((matches_iff_of_stop hview w).mp hw)
  rw [counted, matchedCount_concat, if_neg hnone]
  rfl

/-- The atomic run executes the whole stop. -/
theorem counted_stop_some (hview : W.view e = .stop k)
    (hl : (W.table (W.run done)).lookup k = some v) (b : B) :
    counted (done ++ [e]) b = counted done b + if W.cellOf e v = b then 1 else 0 := by
  classical
  have hv : W.Matches done e v :=
    (matches_iff_of_stop hview v).mpr ((lookup_run_iff done k v).mp hl)
  have hiff : (∃ w, W.Matches done e w ∧ W.cellOf e w = b) ↔ W.cellOf e v = b :=
    ⟨fun ⟨w, hw, hb⟩ => hw.unique hv ▸ hb, fun hb => ⟨v, hv, hb⟩⟩
  rw [counted, matchedCount_concat]
  simp only [hiff]
  rfl

/-- Moving between places that are not between two writes keeps the counters in
balance with an atomic run that counts nothing. -/
theorem Sim.balanced_of_zero (h : Sim deleteFirst s begun done) {p : Pc W}
    {t : BoundedMap K V cap} {done' : List W.Ev} (hsame : ∀ b, counted done' b = counted done b)
    (hold : ∀ b, (s.pc c).halfIn b = 0) (hnew : ∀ b, p.halfIn b = 0) :
    Balanced deleteFirst ⟨Function.update s.pc c p, t, s.cell⟩ done' := by
  intro b
  obtain ⟨n, hn, hcount⟩ := h.cell b
  refine ⟨n, hn, ?_⟩
  show if deleteFirst then n + halfway (Function.update s.pc c p) b = _
    else n = _ + halfway (Function.update s.pc c p) b
  rw [halfway_update_of_zero hold hnew b, hsame]
  exact hcount

/-- The one access of a start. -/
theorem Sim.updating (h : Sim deleteFirst s begun done) (hpc : s.pc c = .updating e) :
    Sim deleteFirst (stepAgent deleteFirst c s) begun
      (done ++ settled deleteFirst s (.step c)) := by
  obtain ⟨k, v, hview⟩ : ∃ k v, W.view e = .start k v := by
    have hf := h.faithful c
    rwa [hpc] at hf
  have hstep : stepAgent deleteFirst c s =
      ⟨Function.update s.pc c .idle, s.table.update k v, s.cell⟩ := by
    simp [stepAgent, hpc, hview]
  have hsettled : settled deleteFirst s (.step c) = [e] := by simp [settled, hpc]
  rw [hstep, hsettled]
  refine h.move (by rw [hpc]; rfl) ?_ ?_ trivial (.inr rfl) ?_ (.inr ⟨rfl, by rw [hpc]; rfl, rfl⟩)
  · rw [run_concat, table_start hview, h.table]
  · apply h.balanced_of_zero
    · exact counted_start hview
    · rw [hpc]
      exact fun _ => rfl
    · exact fun _ => rfl
  · intro k' hk'
    rw [hview] at hk'
    exact BoundedMap.lookup_update_of_ne _ hk' v

/-- A stop that finds nothing is over. -/
theorem Sim.lookingUp_none (h : Sim deleteFirst s begun done) (hpc : s.pc c = .lookingUp e)
    (hview : W.view e = .stop k) (hl : s.table.lookup k = none) :
    Sim deleteFirst (stepAgent deleteFirst c s) begun
      (done ++ settled deleteFirst s (.step c)) := by
  have hstep : stepAgent deleteFirst c s = ⟨Function.update s.pc c .idle, s.table, s.cell⟩ := by
    simp [stepAgent, hpc, hview, hl]
  have hsettled : settled deleteFirst s (.step c) = [e] := by simp [settled, hpc, hview, hl]
  have hrun : W.run (done ++ [e]) = W.run done := by
    rw [h.table] at hl
    rw [run_concat, W.step_stop_none _ e k hview hl]
  rw [hstep, hsettled]
  refine h.move (by rw [hpc]; rfl) ?_ ?_ trivial (.inr rfl) (fun _ _ => rfl)
    (.inr ⟨rfl, by rw [hpc]; rfl, rfl⟩)
  · rw [hrun, h.table]
  · apply h.balanced_of_zero
    · rw [h.table] at hl
      exact counted_stop_none hview hl
    · rw [hpc]
      exact fun _ => rfl
    · exact fun _ => rfl

/-- A stop that finds a value goes on with it. -/
theorem Sim.lookingUp_some (h : Sim deleteFirst s begun done) (hpc : s.pc c = .lookingUp e)
    (hview : W.view e = .stop k) (hl : s.table.lookup k = some v) :
    Sim deleteFirst (stepAgent deleteFirst c s) begun
      (done ++ settled deleteFirst s (.step c)) := by
  have hstep : stepAgent deleteFirst c s =
      ⟨Function.update s.pc c (.found e v), s.table, s.cell⟩ := by
    simp [stepAgent, hpc, hview, hl]
  have hsettled : settled deleteFirst s (.step c) = [] := by simp [settled, hpc, hview, hl]
  rw [hstep, hsettled]
  refine h.move (by rw [hpc]; rfl) ?_ ?_ ⟨k, hview, hl⟩ (.inl rfl) (fun _ _ => rfl)
    (.inl ⟨rfl, by rw [hpc]; rfl⟩)
  · rw [List.append_nil, h.table]
  · apply h.balanced_of_zero
    · exact fun b => by rw [List.append_nil]
    · rw [hpc]
      exact fun _ => rfl
    · exact fun _ => rfl

/-- An addition, as a number. -/
theorem fetchAdd_ofNat {cell : B → UInt64} {b : B} {n : Nat} (h : cell b = UInt64.ofNat n)
    (x : B) : fetchAdd cell x b = UInt64.ofNat (n + if x = b then 1 else 0) := by
  unfold fetchAdd
  rw [h, UInt64.ofNat_add]
  split <;> simp

/-- An agent comes between its two writes. -/
theorem halfway_found (hpc : s.pc c = .found e v) (b : B) :
    halfway (Function.update s.pc c (.half e v)) b =
      halfway s.pc b + if W.cellOf e v = b then 1 else 0 := by
  have h := halfway_update s.pc c (.half e v) b
  rw [hpc] at h
  exact h

/-- An agent makes its second write. -/
theorem halfway_half (hpc : s.pc c = .half e v) (b : B) :
    halfway s.pc b =
      halfway (Function.update s.pc c .idle) b + if W.cellOf e v = b then 1 else 0 := by
  have h := halfway_update s.pc c .idle b
  rw [hpc] at h
  exact h.symm

/-- The first write: the key is deleted, and the handler is settled. -/
theorem Sim.found_delete (h : Sim true s begun done) (hpc : s.pc c = .found e v) :
    Sim true (stepAgent true c s) begun (done ++ settled true s (.step c)) := by
  obtain ⟨k, hview, hl⟩ : ∃ k, W.view e = .stop k ∧ s.table.lookup k = some v := by
    have hf := h.faithful c
    rwa [hpc] at hf
  have hstep : stepAgent true c s =
      ⟨Function.update s.pc c (.half e v), s.table.delete k, s.cell⟩ := by
    simp [stepAgent, hpc, hview]
  have hsettled : settled true s (.step c) = [e] := by simp [settled, hpc]
  rw [hstep, hsettled]
  refine h.move (by rw [hpc]; rfl) ?_ ?_ ⟨k, hview, fun hd => by contradiction⟩ (.inl rfl) ?_
    (.inr ⟨rfl, by rw [hpc]; rfl, rfl⟩)
  · rw [run_concat, table_stop hview, h.table]
  · -- the atomic run counts now, the agent is one behind
    intro b
    obtain ⟨n, hn, hcount⟩ := h.cell b
    rw [h.table] at hl
    refine ⟨n, hn, ?_⟩
    show n + halfway (Function.update s.pc c (.half e v)) b = _
    rw [halfway_found hpc, counted_stop_some hview hl, ← Nat.add_assoc]
    exact congrArg (· + _) hcount
  · intro k' hk'
    rw [hview] at hk'
    exact BoundedMap.lookup_delete_of_ne _ hk'

/-- The second write: the counter is bumped, and catches up. -/
theorem Sim.half_add (h : Sim true s begun done) (hpc : s.pc c = .half e v) :
    Sim true (stepAgent true c s) begun (done ++ settled true s (.step c)) := by
  have hstep : stepAgent true c s =
      ⟨Function.update s.pc c .idle, s.table, fetchAdd s.cell (W.cellOf e v)⟩ := by
    simp [stepAgent, hpc]
  have hsettled : settled true s (.step c) = [] := by simp [settled, hpc]
  rw [hstep, hsettled]
  refine h.move (by rw [hpc]; rfl) ?_ ?_ trivial (.inr rfl) (fun _ _ => rfl)
    (.inl ⟨rfl, by rw [hpc]; rfl⟩)
  · rw [List.append_nil, h.table]
  · intro b
    obtain ⟨n, hn, hcount⟩ := h.cell b
    refine ⟨_, fetchAdd_ofNat hn (W.cellOf e v), ?_⟩
    have hbehind : n + halfway s.pc b = counted done b := hcount
    rw [halfway_half hpc] at hbehind
    show _ + halfway (Function.update s.pc c .idle) b = _
    rw [List.append_nil]
    omega

/-- The first write: the counter is bumped, ahead of the atomic run. -/
theorem Sim.found_add (h : Sim false s begun done) (hpc : s.pc c = .found e v) :
    Sim false (stepAgent false c s) begun (done ++ settled false s (.step c)) := by
  obtain ⟨k, hview, hl⟩ : ∃ k, W.view e = .stop k ∧ s.table.lookup k = some v := by
    have hf := h.faithful c
    rwa [hpc] at hf
  have hstep : stepAgent false c s =
      ⟨Function.update s.pc c (.half e v), s.table, fetchAdd s.cell (W.cellOf e v)⟩ := by
    simp [stepAgent, hpc]
  have hsettled : settled false s (.step c) = [] := by simp [settled, hpc]
  rw [hstep, hsettled]
  refine h.move (by rw [hpc]; rfl) ?_ ?_ ⟨k, hview, fun _ => hl⟩ (.inl rfl) (fun _ _ => rfl)
    (.inl ⟨rfl, by rw [hpc]; rfl⟩)
  · rw [List.append_nil, h.table]
  · intro b
    obtain ⟨n, hn, hcount⟩ := h.cell b
    refine ⟨_, fetchAdd_ofNat hn (W.cellOf e v), ?_⟩
    have hahead : n = counted done b + halfway s.pc b := hcount
    show _ = _ + halfway (Function.update s.pc c (.half e v)) b
    rw [List.append_nil, halfway_found hpc]
    omega

/-- The second write: the key is deleted, and the handler is settled. -/
theorem Sim.half_delete (h : Sim false s begun done) (hpc : s.pc c = .half e v) :
    Sim false (stepAgent false c s) begun (done ++ settled false s (.step c)) := by
  obtain ⟨k, hview, hl⟩ : ∃ k, W.view e = .stop k ∧ s.table.lookup k = some v := by
    have hf := h.faithful c
    rw [hpc] at hf
    obtain ⟨k, hview, hl⟩ := hf
    exact ⟨k, hview, hl rfl⟩
  have hstep : stepAgent false c s =
      ⟨Function.update s.pc c .idle, s.table.delete k, s.cell⟩ := by
    simp [stepAgent, hpc, hview]
  have hsettled : settled false s (.step c) = [e] := by simp [settled, hpc]
  rw [hstep, hsettled]
  refine h.move (by rw [hpc]; rfl) ?_ ?_ trivial (.inr rfl) ?_
    (.inr ⟨rfl, by rw [hpc]; rfl, rfl⟩)
  · rw [run_concat, table_stop hview, h.table]
  · -- the atomic run counts now, and catches up with the agent
    intro b
    obtain ⟨n, hn, hcount⟩ := h.cell b
    have hahead : n = counted done b + halfway s.pc b := hcount
    rw [h.table] at hl
    rw [halfway_half hpc] at hahead
    refine ⟨n, hn, ?_⟩
    show n = _ + halfway (Function.update s.pc c .idle) b
    rw [counted_stop_some hview hl]
    omega
  · intro k' hk'
    rw [hview] at hk'
    exact BoundedMap.lookup_delete_of_ne _ hk'

/-- Every step of a handler keeps the simulation. -/
theorem Sim.stepAgent (h : Sim deleteFirst s begun done) (hbusy : (s.pc c).handler ≠ none) :
    Sim deleteFirst (Overlap.stepAgent deleteFirst c s) begun
      (done ++ settled deleteFirst s (.step c)) := by
  cases hpc : s.pc c with
  | idle => exact absurd (by rw [hpc]; rfl) hbusy
  | updating e => exact h.updating hpc
  | lookingUp e =>
      obtain ⟨k, hview⟩ : ∃ k, W.view e = .stop k := by
        have hf := h.faithful c
        rwa [hpc] at hf
      cases hl : s.table.lookup k with
      | none => exact h.lookingUp_none hpc hview hl
      | some v => exact h.lookingUp_some hpc hview hl
  | found e v =>
      cases deleteFirst with
      | true => exact h.found_delete hpc
      | false => exact h.found_add hpc
  | half e v =>
      cases deleteFirst with
      | true => exact h.half_add hpc
      | false => exact h.half_delete hpc

end Steps

/-! ## Runs -/

/-- Every allowed action keeps the simulation. -/
theorem Sim.step {s : System W C} {b d : List W.Ev} (h : Sim deleteFirst s b d) {a : Act W C}
    (hallowed : Allowed s a) :
    Sim deleteFirst (Overlap.step deleteFirst s a) (b ++ begun [a])
      (d ++ settled deleteFirst s a) := by
  cases a with
  | enter c e =>
      show Sim deleteFirst _ (b ++ [e]) (d ++ [])
      rw [List.append_nil]
      exact h.enter hallowed
  | step c =>
      show Sim deleteFirst _ (b ++ []) _
      rw [List.append_nil]
      exact h.stepAgent hallowed

omit [DecidableEq C] [Fintype C] in
theorem begun_concat (as : List (Act W C)) (a : Act W C) :
    begun (as ++ [a]) = begun as ++ begun [a] := List.filterMap_append

omit [Fintype C] in
theorem done_concat (as : List (Act W C)) (a : Act W C) :
    done W deleteFirst (as ++ [a]) = done W deleteFirst as ++
      settled deleteFirst ((system W C deleteFirst).exec (rest W C) as) a := by
  rw [done, Machine.trace_concat, List.flatMap_append, List.flatMap_singleton]
  rfl

omit [Fintype C] in
/-- What is settled stays so. -/
theorem done_append (as bs : List (Act W C)) :
    done W deleteFirst as <+: done W deleteFirst (as ++ bs) := by
  rw [done, done, Machine.trace_append, List.flatMap_append]
  exact List.prefix_append _ _

/-- The system is simulated along every legal run. -/
theorem sim_of_legal {as : List (Act W C)}
    (hlegal : (system W C deleteFirst).Legal (rest W C) as) :
    Sim deleteFirst ((system W C deleteFirst).exec (rest W C) as) (begun as)
      (done W deleteFirst as) := by
  induction as using List.reverseRecOn with
  | nil => exact sim_rest
  | append_singleton as a ih =>
      rw [Machine.legal_concat] at hlegal
      rw [Machine.exec_concat, begun_concat, done_concat]
      exact (ih hlegal.1).step hlegal.2

omit [DecidableEq C] in
/-- A step settles nothing, a start by its update, or a stop. -/
theorem settled_cases {s : System W C} {b d : List W.Ev} (h : Sim deleteFirst s b d) (c : C) :
    settled deleteFirst s (.step c) = [] ∨
      ∃ e, settled deleteFirst s (.step c) = [e] ∧
        (s.pc c = .updating e ∨ ∃ k, W.view e = .stop k) := by
  have hf := h.faithful c
  cases hpc : s.pc c with
  | idle => exact .inl (by simp [settled, hpc])
  | updating e => exact .inr ⟨e, by simp [settled, hpc], .inl rfl⟩
  | lookingUp e =>
      rw [hpc] at hf
      cases hl : s.table.lookup (W.view e).key with
      | none => exact .inr ⟨e, by simp [settled, hpc, hl], .inr hf⟩
      | some v => exact .inl (by simp [settled, hpc, hl])
  | found e v =>
      rw [hpc] at hf
      obtain ⟨k, hview, -⟩ := hf
      cases deleteFirst with
      | true => exact .inr ⟨e, by simp [settled, hpc], .inr ⟨k, hview⟩⟩
      | false => exact .inl (by simp [settled, hpc])
  | half e v =>
      rw [hpc] at hf
      obtain ⟨k, hview, -⟩ := hf
      cases deleteFirst with
      | true => exact .inl (by simp [settled, hpc])
      | false => exact .inr ⟨e, by simp [settled, hpc], .inr ⟨k, hview⟩⟩

/-- What the run does not refuse, the atomic run does not refuse either. -/
theorem noRefusal_done {as : List (Act W C)}
    (hlegal : (system W C deleteFirst).Legal (rest W C) as) (hno : NoRefusal W deleteFirst as) :
    W.NoRefusal (done W deleteFirst as) := by
  induction as using List.reverseRecOn with
  | nil => exact noRefusal_nil
  | append_singleton as a ih =>
      rw [Machine.legal_concat] at hlegal
      have hold : NoRefusal W deleteFirst as := by
        intro s c e k v hmem
        apply hno
        rw [Machine.trace_concat]
        exact List.mem_append_left _ hmem
      have hdone := ih hlegal.1 hold
      have hsim := sim_of_legal hlegal.1
      rw [done_concat]
      cases a with
      | enter c e => rwa [settled, List.append_nil]
      | step c =>
          rcases settled_cases hsim c with hnone | ⟨e, hone, hstart | ⟨k, hstop⟩⟩
          · rwa [hnone, List.append_nil]
          · -- the update meets the table of the atomic run
            rw [hone, noRefusal_concat_iff]
            refine ⟨hdone, fun k v hview => ?_⟩
            rw [Stopwatch.Accepts, ← hsim.table]
            refine hno _ c e k v ?_ hstart hview
            rw [Machine.trace_concat]
            exact List.mem_append_right _ List.mem_cons_self
          · rw [hone, noRefusal_concat_iff]
            refine ⟨hdone, fun k' v hview => ?_⟩
            rw [hstop] at hview
            contradiction

variable (deleteFirst) in
omit [DecidableEq C] [Fintype C] in
theorem length_settled_le (s : System W C) (a : Act W C) :
    (settled deleteFirst s a).length ≤ 1 := by
  unfold settled
  repeat' split
  all_goals simp

variable (deleteFirst) in
omit [Fintype C] in
theorem length_done_le (as : List (Act W C)) : (done W deleteFirst as).length ≤ as.length := by
  induction as using List.reverseRecOn with
  | nil => exact Nat.le_refl 0
  | append_singleton as a ih =>
      have hlast := length_settled_le deleteFirst
        ((system W C deleteFirst).exec (rest W C) as) a
      rw [done_concat, List.length_append, List.length_append, List.length_singleton]
      omega

omit [DecidableEq C] in
/-- With no handler in progress, nothing is half done. -/
theorem halfway_of_idle {pc : C → Pc W} (hidle : ∀ c, pc c = .idle) (b : B) :
    halfway pc b = 0 :=
  Finset.sum_eq_zero fun c _ => by rw [hidle c]; rfl

/-- Whenever no handler is in progress, the table and the counters are those of
running the same handlers atomically, in an order that keeps each key's own. -/
theorem serializable {as : List (Act W C)}
    (hlegal : (system W C deleteFirst).Legal (rest W C) as)
    (hidle : ∀ c, ((system W C deleteFirst).exec (rest W C) as).pc c = .idle) :
    (∀ k, (done W deleteFirst as).filter (fun e => decide ((W.view e).key = k)) =
      (begun as).filter fun e => decide ((W.view e).key = k)) ∧
    ((system W C deleteFirst).exec (rest W C) as).table =
      W.table (W.run (done W deleteFirst as)) ∧
    ((system W C deleteFirst).exec (rest W C) as).cell =
      W.cell (W.run (done W deleteFirst as)) := by
  have hsim := sim_of_legal hlegal
  refine ⟨hsim.serial.filter_eq fun c => by rw [hidle c]; rfl, hsim.table, ?_⟩
  funext b
  obtain ⟨n, hn, hcount⟩ := hsim.cell b
  rw [halfway_of_idle hidle, Nat.add_zero, Nat.add_zero, ite_self] at hcount
  rw [hn, hcount, W.cell_run]
  rfl

/-! ## Reading the counters while handlers are in progress -/

section Reads

variable {s : System W C} {order : List W.Ev} {b : B}

omit [DecidableEq C] in
theorem Balanced.toNat_behind (h : Balanced true s order) (hfit : counted order b < 2 ^ 64) :
    (s.cell b).toNat + halfway s.pc b = counted order b := by
  obtain ⟨n, hn, hcount⟩ := h b
  have hbehind : n + halfway s.pc b = counted order b := hcount
  rw [hn, UInt64.toNat_ofNat', Nat.mod_eq_of_lt (show n < 2 ^ 64 by omega)]
  exact hbehind

omit [DecidableEq C] in
theorem Balanced.toNat_ahead (h : Balanced false s order)
    (hfit : counted order b + Fintype.card C < 2 ^ 64) :
    (s.cell b).toNat = counted order b + halfway s.pc b := by
  obtain ⟨n, hn, hcount⟩ := h b
  have hahead : n = counted order b + halfway s.pc b := hcount
  have hle := halfway_le s.pc b
  rw [hn, UInt64.toNat_ofNat', Nat.mod_eq_of_lt (show n < 2 ^ 64 by omega)]
  exact hahead

end Reads

omit [DecidableEq C] [Fintype C] in
theorem counted_le_of_isPrefix {es fs : List W.Ev} (h : es <+: fs) (b : B) :
    counted es b ≤ counted fs b := by
  obtain ⟨rest, rfl⟩ := h
  exact matchedCount_le_append _ es rest

variable (deleteFirst) in
omit [Fintype C] in
/-- What is settled at a moment of a run lies between what is settled at two
others, and fits when the run is short. -/
theorem counted_done_between {first moment last : List (Act W C)} (hfirst : first <+: moment)
    (hlast : moment <+: last) (b : B) :
    counted (done W deleteFirst first) b ≤ counted (done W deleteFirst moment) b ∧
      counted (done W deleteFirst moment) b ≤ counted (done W deleteFirst last) b ∧
      counted (done W deleteFirst moment) b ≤ last.length := by
  obtain ⟨more, rfl⟩ := hfirst
  obtain ⟨rest, rfl⟩ := hlast
  refine ⟨counted_le_of_isPrefix (done_append _ _) b,
    counted_le_of_isPrefix (done_append _ _) b, ?_⟩
  have hcount : counted (done W deleteFirst (first ++ more)) b ≤
      (done W deleteFirst (first ++ more)).length := matchedCount_le_length _ _
  have hlength := length_done_le deleteFirst (first ++ more)
  rw [List.length_append]
  omega

/-- A counter that is bumped last may be behind what was over before, by one for
each agent, and is never ahead of what is over after. -/
theorem reads_behind {first moment last : List (Act W C)}
    (hlegal : (system W C true).Legal (rest W C) last) (hfirst : first <+: moment)
    (hlast : moment <+: last) (hfit : last.length + Fintype.card C < 2 ^ 64) (b : B) :
    counted (done W true first) b ≤
        (((system W C true).exec (rest W C) moment).cell b).toNat + Fintype.card C ∧
      (((system W C true).exec (rest W C) moment).cell b).toNat ≤
        counted (done W true last) b := by
  have hbetween := counted_done_between true hfirst hlast b
  obtain ⟨more, rfl⟩ := hlast
  rw [Machine.legal_append] at hlegal
  have hsim := sim_of_legal hlegal.1
  have hcount := hsim.cell.toNat_behind (b := b) (by omega)
  have hle := halfway_le ((system W C true).exec (rest W C) moment).pc b
  omega

/-- A counter that is bumped first is never behind, and may be ahead by one for
each agent. -/
theorem reads_ahead {first moment last : List (Act W C)}
    (hlegal : (system W C false).Legal (rest W C) last) (hfirst : first <+: moment)
    (hlast : moment <+: last) (hfit : last.length + Fintype.card C < 2 ^ 64) (b : B) :
    counted (done W false first) b ≤
        (((system W C false).exec (rest W C) moment).cell b).toNat ∧
      (((system W C false).exec (rest W C) moment).cell b).toNat ≤
        counted (done W false last) b + Fintype.card C := by
  have hbetween := counted_done_between false hfirst hlast b
  obtain ⟨more, rfl⟩ := hlast
  rw [Machine.legal_append] at hlegal
  have hsim := sim_of_legal hlegal.1
  have hcount := hsim.cell.toNat_ahead (b := b) (by omega)
  have hle := halfway_le ((system W C false).exec (rest W C) moment).pc b
  omega

end Lib.Overlap
