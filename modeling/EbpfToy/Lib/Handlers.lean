import EbpfToy.Lib.BoundedMap
import EbpfToy.Lib.Machine
import EbpfToy.Lib.Stopwatch

/-!
# Handlers that read the clock

The handlers of a stopwatch as straight-line code: a list of accesses, of which
reading the clock is one. Several agents run them on a shared table and shared
counters, one access at a time, while the clock goes on. An agent runs one
handler at a time, and handlers on one key do not overlap, but for stops that
find nothing: of these there may be any number.

What a stop counts is a difference of two readings of the clock, taken inside
two handlers. Every start is written down with the time its handler began, the
time it read and the time it was stored, and every sample with the same three
times of its stop. `Inv.step` shows that these times are always in order
(`Sample.Measures`), and that the counters count the samples.
-/

namespace Lib.Handlers

open Stopwatch

/-- One access of a handler. -/
inductive Access where
  /-- Read the clock. -/
  | clock
  /-- Store the reading under the key. -/
  | update
  /-- Find the key's value; the handler ends here if there is none. -/
  | lookup
  | delete
  /-- Add one to the counter of the difference, in one atomic step. -/
  | fetchAdd
  /-- Add one to it with a load and a store. -/
  | increment
  deriving DecidableEq

/-- The two handlers of a tool, in the order of their code, and what they
compute: the value a start stores, from the payload of its event, and the
counter an agent bumps for a difference. -/
structure Code (K V P B C : Type) where
  start : List Access
  stop : List Access
  stamp : P → UInt64 → V
  tsOf : V → UInt64
  cellOf : C → UInt64 → B
  tsOf_stamp : ∀ p now, tsOf (stamp p now) = now

/-- An event that a handler is run for. -/
inductive Op (K P : Type) where
  | start (key : K) (payload : P)
  | stop (key : K)
  deriving DecidableEq

def Op.key {K P : Type} : Op K P → K
  | .start k _ => k
  | .stop k => k

def Op.isStop {K P : Type} : Op K P → Bool
  | .start _ _ => false
  | .stop _ => true

/-- A handler in progress: when it began, the accesses to come, and what it has
read. -/
structure Frame (K V P : Type) where
  op : Op K P
  began : UInt64
  code : List Access
  now : Option UInt64
  found : Option V
  cnt : Option UInt64

/-- A start in the table: when its handler began, the time it stored, and when
it stored it. -/
structure Written (K : Type) where
  key : K
  began : UInt64
  ts : UInt64
  ended : UInt64

/-- A difference that was counted: when the handler of the stop began, the two
readings, and when it was counted. -/
structure Sample (K C : Type) where
  agent : C
  key : K
  began : UInt64
  startedAt : UInt64
  now : UInt64
  counted : UInt64

def Sample.delta {K C : Type} (x : Sample K C) : UInt64 := x.now - x.startedAt

/-- The starts and samples so far, latest first, are no data of the tool. -/
structure System (K V P B C : Type) [DecidableEq K] (cap : Nat) where
  pc : C → Option (Frame K V P)
  table : BoundedMap K V cap
  cell : B → UInt64
  clock : UInt64
  written : List (Written K)
  samples : List (Sample K C)

/-- The clock goes on, an agent begins the handler of an event, or it takes its
next step. -/
inductive Act (K P C : Type) where
  | tick (now : UInt64)
  | enter (c : C) (op : Op K P)
  | step (c : C)
  deriving DecidableEq

variable {K V P B C : Type} [DecidableEq K] [DecidableEq B] [DecidableEq C] {cap : Nat}

def Code.codeOf (T : Code K V P B C) : Op K P → List Access
  | .start _ _ => T.start
  | .stop _ => T.stop

/-- The two readings of a stop that has both. -/
def Frame.span (T : Code K V P B C) (f : Frame K V P) : Option (UInt64 × UInt64) :=
  match f.op, f.found, f.now with
  | .stop _, some v, some now => some (T.tsOf v, now)
  | _, _, _ => none

def System.goto (s : System K V P B C cap) (c : C) (f : Option (Frame K V P)) :
    System K V P B C cap :=
  { s with pc := Function.update s.pc c f }

/-- The start `f` stores its reading. -/
def System.write (T : Code K V P B C) (s : System K V P B C cap) (f : Frame K V P) :
    System K V P B C cap :=
  match f.op, f.now with
  | .start k p, some now =>
      { s with
        table := s.table.update k (T.stamp p now)
        written := if s.table.Accepts k then ⟨k, f.began, now, s.clock⟩ :: s.written
          else s.written }
  | _, _ => s

def System.erase (s : System K V P B C cap) (f : Frame K V P) : System K V P B C cap :=
  { s with table := s.table.delete f.op.key }

/-- The counter of the difference gets the value `n`. -/
def System.count (T : Code K V P B C) (s : System K V P B C cap) (c : C) (f : Frame K V P)
    (span : UInt64 × UInt64) (n : UInt64) : System K V P B C cap :=
  { s with
    cell := Function.update s.cell (T.cellOf c (span.2 - span.1)) n
    samples := ⟨c, f.op.key, f.began, span.1, span.2, s.clock⟩ :: s.samples }

/-- One access of the handler `f`, before the accesses `rest`. -/
def perform (T : Code K V P B C) (c : C) (f : Frame K V P) (rest : List Access)
    (s : System K V P B C cap) : Access → System K V P B C cap
  | .clock => s.goto c (some { f with code := rest, now := some s.clock })
  | .update => (s.goto c (some { f with code := rest })).write T f
  | .lookup =>
      match s.table.lookup f.op.key with
      | none => s.goto c (some { f with code := [] })
      | some v => s.goto c (some { f with code := rest, found := some v })
  | .delete => (s.goto c (some { f with code := rest })).erase f
  | .fetchAdd =>
      match f.span T with
      | none => s.goto c (some { f with code := rest })
      | some span => (s.goto c (some { f with code := rest })).count T c f span
          (s.cell (T.cellOf c (span.2 - span.1)) + 1)
  | .increment =>
      match f.span T, f.cnt with
      | none, _ => s.goto c (some { f with code := rest })
      | some span, none =>
          s.goto c (some { f with cnt := some (s.cell (T.cellOf c (span.2 - span.1))) })
      | some span, some n =>
          (s.goto c (some { f with code := rest, cnt := none })).count T c f span (n + 1)

/-- The next step of an agent: an access, or the return when none is left. -/
def stepAgent (T : Code K V P B C) (c : C) (s : System K V P B C cap) : System K V P B C cap :=
  match s.pc c with
  | none => s
  | some f =>
      match f.code with
      | [] => s.goto c none
      | a :: rest => perform T c f rest s a

def step (T : Code K V P B C) (s : System K V P B C cap) : Act K P C → System K V P B C cap
  | .tick now => { s with clock := now }
  | .enter c op => s.goto c (some ⟨op, s.clock, T.codeOf op, none, none, none⟩)
  | .step c => stepAgent T c s

/-- A stop, with nothing stored under its key. -/
def System.Void (s : System K V P B C cap) (op : Op K P) : Prop :=
  op.isStop = true ∧ s.table.lookup op.key = none

instance (s : System K V P B C cap) (op : Op K P) : Decidable (s.Void op) :=
  inferInstanceAs (Decidable (_ ∧ _))

/-- The handler is a stop that has found nothing, and there is nothing to find. -/
def System.FindsNothing (s : System K V P B C cap) (f : Frame K V P) : Prop :=
  s.Void f.op ∧ f.found = none

instance (s : System K V P B C cap) (f : Frame K V P) : Decidable (s.FindsNothing f) :=
  inferInstanceAs (Decidable (_ ∧ _))

/-- The clock never goes back. A handler begins on an agent that is in none, on
a key that none is on; or it is a stop, beside stops that find nothing. -/
def Allowed (s : System K V P B C cap) : Act K P C → Prop
  | .tick now => s.clock ≤ now
  | .enter c op => s.pc c = none ∧ ∀ c', ∀ f ∈ s.pc c',
      f.op.key = op.key → op.isStop = true ∧ s.FindsNothing f
  | .step c => s.pc c ≠ none

instance [Fintype C] (s : System K V P B C cap) :
    (a : Act K P C) → Decidable (Allowed s a)
  | .tick now => inferInstanceAs (Decidable (s.clock ≤ now))
  | .enter c _ => inferInstanceAs (Decidable (s.pc c = none ∧ _))
  | .step c => inferInstanceAs (Decidable (s.pc c ≠ none))

def system (T : Code K V P B C) (cap : Nat) : Machine (System K V P B C cap) (Act K P C) where
  allowed := Allowed
  next := step T

instance [Fintype C] (T : Code K V P B C) (s : System K V P B C cap) (a : Act K P C) :
    Decidable ((system T cap).allowed s a) :=
  inferInstanceAs (Decidable (Allowed s a))

/-- No handler in progress, nothing stored or counted. -/
def rest (K V P B C : Type) [DecidableEq K] (cap : Nat) : System K V P B C cap :=
  ⟨fun _ => none, .empty, fun _ => 0, 0, [], []⟩

/-- A counter that is bumped with a load and a store has one agent. -/
def Code.Private (T : Code K V P B C) : Prop :=
  (∀ c c' d d', T.cellOf c d = T.cellOf c' d' → c = c') ∨ ∀ op, .increment ∉ T.codeOf op

/-- The sample is a difference of the reading that `w` stored and one of the
stop, which began after `w` was stored. -/
structure Sample.Measures (x : Sample K C) (w : Written K) : Prop where
  key : w.key = x.key
  startedAt : w.ts = x.startedAt
  began_le : w.began ≤ w.ts
  le_ended : w.ts ≤ w.ended
  ended_le : w.ended ≤ x.began
  le_now : x.began ≤ x.now
  now_le : x.now ≤ x.counted

variable {T : Code K V P B C}

theorem stepAgent_of_nil {s : System K V P B C cap} {c : C} {f : Frame K V P}
    (hpc : s.pc c = some f) (hcode : f.code = []) : stepAgent T c s = s.goto c none := by
  simp [stepAgent, hpc, hcode]

theorem stepAgent_of_cons {s : System K V P B C cap} {c : C} {f : Frame K V P} {a : Access}
    {rest : List Access} (hpc : s.pc c = some f) (hcode : f.code = a :: rest) :
    stepAgent T c s = perform T c f rest s a := by
  simp [stepAgent, hpc, hcode]

/-! ## The invariant -/

/-- What holds of the handler that agent `c` is in. -/
structure Good (T : Code K V P B C) (s : System K V P B C cap) (c : C) (f : Frame K V P) :
    Prop where
  code : f.code <:+ T.codeOf f.op
  began : f.began ≤ s.clock
  now : ∀ now, f.now = some now → f.began ≤ now ∧ now ≤ s.clock
  /-- A stop finds what was stored before it began: no start is on its key. -/
  found : ∀ k v, f.op = .stop k → (f.found = some v ∨ s.table.lookup k = some v) →
    ∃ w ∈ s.written, w.key = k ∧ w.ts = T.tsOf v ∧ w.ended ≤ f.began
  /-- Between the load and the store of its counter, what was loaded is up to date. -/
  cnt : ∀ n, f.cnt = some n → (∃ rest, f.code = .increment :: rest) ∧
    ∃ span, f.span T = some span ∧ n = s.cell (T.cellOf c (span.2 - span.1))

structure Inv (T : Code K V P B C) (s : System K V P B C cap) : Prop where
  /-- Handlers on one key are stops that find nothing. -/
  apart : ∀ c c' f f', s.pc c = some f → s.pc c' = some f' → c ≠ c' → f.op.key = f'.op.key →
    s.FindsNothing f
  good : ∀ c f, s.pc c = some f → Good T s c f
  written : ∀ w ∈ s.written, w.began ≤ w.ts ∧ w.ts ≤ w.ended ∧ w.ended ≤ s.clock
  table : ∀ k v, s.table.lookup k = some v → ∃ w ∈ s.written, w.key = k ∧ w.ts = T.tsOf v
  samples : ∀ x ∈ s.samples, ∃ w ∈ s.written, x.Measures w
  cell : ∀ b, s.cell b =
    UInt64.ofNat (s.samples.countP fun x => decide (T.cellOf x.agent x.delta = b))

omit [DecidableEq C] in
theorem inv_rest : Inv T (rest K V P B C cap) where
  apart c c' f f' h := by contradiction
  good c f h := by contradiction
  written w h := absurd h List.not_mem_nil
  table k v h := by simp [rest] at h
  samples x h := absurd h List.not_mem_nil
  cell _ := rfl

omit [DecidableEq B] [DecidableEq C] in
/-- What the other agents may do to the handler that `c` is in. -/
theorem Good.mono {s s' : System K V P B C cap} {c : C} {f : Frame K V P} (h : Good T s c f)
    (hclock : s.clock ≤ s'.clock) (hwritten : ∀ w ∈ s.written, w ∈ s'.written)
    (htable : ∀ v, s'.table.lookup f.op.key = some v → s.table.lookup f.op.key = some v)
    (hcell : ∀ d n, f.cnt = some n → s'.cell (T.cellOf c d) = s.cell (T.cellOf c d)) :
    Good T s' c f where
  code := h.code
  began := UInt64.le_trans h.began hclock
  now := fun now hnow => ⟨(h.now now hnow).1, UInt64.le_trans (h.now now hnow).2 hclock⟩
  found := by
    intro k v hop hv
    have hv' : f.found = some v ∨ s.table.lookup k = some v := by
      rcases hv with hv | hv
      · exact .inl hv
      · right
        have hkey : f.op.key = k := by rw [hop]; rfl
        rw [← hkey] at hv ⊢
        exact htable v hv
    obtain ⟨w, hw, hrest⟩ := h.found k v hop hv'
    exact ⟨w, hwritten w hw, hrest⟩
  cnt := by
    intro n hn
    obtain ⟨hcode, span, hspan, heq⟩ := h.cnt n hn
    exact ⟨hcode, span, hspan, by rw [heq, hcell _ n hn]⟩

/-! ## What each step keeps -/

omit [DecidableEq C] in
theorem Inv.tick {s : System K V P B C cap} (h : Inv T s) {now : UInt64} (hle : s.clock ≤ now) :
    Inv T { s with clock := now } where
  apart := h.apart
  good := fun c f hf => (h.good c f hf).mono hle (fun _ hw => hw) (fun _ hv => hv)
    fun _ _ _ => rfl
  written := fun w hw =>
    ⟨(h.written w hw).1, (h.written w hw).2.1, UInt64.le_trans (h.written w hw).2.2 hle⟩
  table := h.table
  samples := h.samples
  cell := h.cell

omit [DecidableEq B] in
/-- Where an agent is when another one is moved. -/
theorem pc_goto {s : System K V P B C cap} {c c' : C} {g : Option (Frame K V P)}
    {f : Frame K V P} (h : (s.goto c g).pc c' = some f) :
    (c' = c ∧ g = some f) ∨ (c' ≠ c ∧ s.pc c' = some f) := by
  by_cases hc : c' = c
  · subst hc
    left
    exact ⟨rfl, by simpa [System.goto] using h⟩
  · right
    exact ⟨hc, by simpa [System.goto, Function.update_of_ne hc] using h⟩

omit [DecidableEq B] in
/-- Where the agents are does not matter. -/
theorem Good.goto {s : System K V P B C cap} {c : C} {f : Frame K V P} (h : Good T s c f)
    (c' : C) (g : Option (Frame K V P)) : Good T (s.goto c' g) c f :=
  ⟨h.code, h.began, h.now, h.found, h.cnt⟩

/-- An agent goes on to `g`, beside the handlers that the others are in. -/
theorem Inv.goto {s : System K V P B C cap} (h : Inv T s) {c : C} {g : Option (Frame K V P)}
    (hbeside : ∀ f ∈ g, ∀ c' f', s.pc c' = some f' → c' ≠ c → f'.op.key = f.op.key →
      s.FindsNothing f' ∧ s.FindsNothing f)
    (hgood : ∀ f ∈ g, Good T s c f) : Inv T (s.goto c g) where
  apart := by
    intro c₁ c₂ f₁ f₂ h₁ h₂ hne hkey
    rcases pc_goto h₁ with ⟨rfl, hg₁⟩ | ⟨-, hold₁⟩
    · rcases pc_goto h₂ with ⟨rfl, -⟩ | ⟨-, hold₂⟩
      · exact absurd rfl hne
      · exact (hbeside f₁ hg₁ c₂ f₂ hold₂ hne.symm hkey.symm).2
    · rcases pc_goto h₂ with ⟨rfl, hg₂⟩ | ⟨-, hold₂⟩
      · exact (hbeside f₂ hg₂ c₁ f₁ hold₁ hne hkey).1
      · exact h.apart c₁ c₂ f₁ f₂ hold₁ hold₂ hne hkey
  good := by
    intro c' f hf
    have hgood' : Good T s c' f := by
      rcases pc_goto hf with ⟨rfl, hg⟩ | ⟨-, hold⟩
      · exact hgood f hg
      · exact h.good c' f hold
    exact hgood'.goto c g
  written := h.written
  table := h.table
  samples := h.samples
  cell := h.cell

/-- A handler begins. -/
theorem Inv.enter {s : System K V P B C cap} (h : Inv T s) {c : C} {op : Op K P}
    (hbeside : ∀ c', ∀ f ∈ s.pc c', f.op.key = op.key → op.isStop = true ∧ s.FindsNothing f) :
    Inv T (s.goto c (some ⟨op, s.clock, T.codeOf op, none, none, none⟩)) := by
  apply h.goto
  · rintro f ⟨rfl⟩ c' f' hf' - hkey
    obtain ⟨hstop, hfinds⟩ := hbeside c' f' hf' hkey
    refine ⟨hfinds, ⟨hstop, ?_⟩, rfl⟩
    show s.table.lookup op.key = none
    rw [← show f'.op.key = op.key from hkey]
    exact hfinds.1.2
  · rintro f ⟨rfl⟩
    refine ⟨List.suffix_refl _, UInt64.le_refl _, nofun, ?_, nofun⟩
    intro k v hop hv
    rcases hv with hv | hv
    · contradiction
    · obtain ⟨w, hw, hkey, hts⟩ := h.table k v hv
      exact ⟨w, hw, hkey, hts, (h.written w hw).2.2⟩

/-- An agent goes on inside its handler. -/
theorem Inv.inside {s : System K V P B C cap} (h : Inv T s) {c : C} {f g : Frame K V P}
    (hf : s.pc c = some f) (hop : g.op = f.op) (hfound : s.FindsNothing f → g.found = none)
    (hgood : Good T s c g) : Inv T (s.goto c (some g)) := by
  apply h.goto
  · rintro g' ⟨rfl⟩ c' f' hf' hne hkey
    rw [hop] at hkey
    have hfinds := h.apart c c' f f' hf hf' hne.symm hkey.symm
    exact ⟨h.apart c' c f' f hf' hf hne hkey, by rw [hop]; exact hfinds.1, hfound hfinds⟩
  · rintro g' ⟨rfl⟩
    exact hgood

theorem Inv.leave {s : System K V P B C cap} (h : Inv T s) (c : C) : Inv T (s.goto c none) :=
  h.goto nofun nofun

omit [DecidableEq B] [DecidableEq C] in
/-- A handler forgets what it loaded and goes on to later accesses. -/
theorem Good.next {s : System K V P B C cap} {c : C} {f : Frame K V P} {a : Access}
    {rest : List Access} (h : Good T s c f) (hcode : f.code = a :: rest) :
    Good T s c { f with code := rest, cnt := none } where
  code := (List.suffix_cons a rest).trans (hcode ▸ h.code)
  began := h.began
  now := h.now
  found := h.found
  cnt := nofun

omit [DecidableEq B] [DecidableEq C] in
/-- Before any access but an increment nothing is loaded. -/
theorem Good.cnt_eq_none {s : System K V P B C cap} {c : C} {f : Frame K V P} {a : Access}
    {rest : List Access} (h : Good T s c f) (hcode : f.code = a :: rest)
    (ha : a ≠ .increment) : f.cnt = none := by
  cases hcnt : f.cnt with
  | none => rfl
  | some n =>
      obtain ⟨⟨rest', hrest⟩, -⟩ := h.cnt n hcnt
      rw [hcode, List.cons.injEq] at hrest
      exact absurd hrest.1 ha

omit [DecidableEq B] [DecidableEq C] in
/-- A write changes nothing, or it is an accepted start. -/
theorem write_cases (T : Code K V P B C) (s : System K V P B C cap) (f : Frame K V P) :
    s.write T f = s ∨ ∃ k p now, f.op = .start k p ∧ f.now = some now ∧ s.table.Accepts k ∧
      s.write T f = { s with
        table := s.table.update k (T.stamp p now)
        written := ⟨k, f.began, now, s.clock⟩ :: s.written } := by
  unfold System.write
  split
  · rename_i k p now hop hnow
    by_cases hacc : s.table.Accepts k
    · exact .inr ⟨k, p, now, hop, hnow, hacc, by rw [if_pos hacc]⟩
    · left
      rw [if_neg hacc, BoundedMap.update_of_not_accepts hacc]
  · exact .inl rfl

omit [DecidableEq C] in
/-- A start stores its reading. -/
theorem Inv.write {s : System K V P B C cap} (h : Inv T s) {c : C} {f g : Frame K V P}
    (hg : s.pc c = some g) (hop : g.op = f.op) (hf : Good T s c f) : Inv T (s.write T f) := by
  rcases write_cases T s f with hsame | ⟨k, p, now, hstart, hnow, hacc, hwrite⟩
  · rw [hsame]
    exact h
  · rw [hwrite]
    obtain ⟨hbegan, hnow'⟩ := hf.now now hnow
    rw [hstart] at hop
    -- nobody else is on the key of a start
    have hself : ∀ c' f', s.pc c' = some f' → f'.op.key = k → c' = c := by
      intro c' f' hf' hkey
      by_contra hne
      obtain ⟨⟨hstop, -⟩, -⟩ := h.apart c c' g f' hg hf' (Ne.symm hne) (by rw [hkey, hop]; rfl)
      rw [hop] at hstop
      contradiction
    refine ⟨?_, ?_, ?_, ?_, ?_, h.cell⟩
    · intro c₁ c₂ f₁ f₂ h₁ h₂ hne hkey
      obtain ⟨⟨hstop, hl⟩, hfound⟩ := h.apart c₁ c₂ f₁ f₂ h₁ h₂ hne hkey
      refine ⟨⟨hstop, ?_⟩, hfound⟩
      have hk : f₁.op.key ≠ k := fun heq =>
        hne ((hself c₁ f₁ h₁ heq).trans (hself c₂ f₂ h₂ (hkey ▸ heq)).symm)
      rw [← hl]
      exact BoundedMap.lookup_update_of_ne _ hk _
    · intro c' f' hf'
      by_cases hc : f'.op.key = k
      · -- the agent itself, and it is in a start
        obtain rfl : c' = c := hself c' f' hf' hc
        obtain rfl : g = f' := Option.some.inj (hg.symm.trans hf')
        have hold := h.good c' g hg
        refine ⟨hold.code, hold.began, hold.now, ?_, hold.cnt⟩
        intro k' v hstop
        rw [hop] at hstop
        contradiction
      · refine (h.good c' f' hf').mono (UInt64.le_refl _) (fun w hw => List.mem_cons_of_mem _ hw)
          (fun v hv => ?_) fun _ _ _ => rfl
        rwa [BoundedMap.lookup_update_of_ne _ hc] at hv
    · intro w hw
      rcases List.mem_cons.mp hw with rfl | hw
      · exact ⟨hbegan, hnow', UInt64.le_refl _⟩
      · exact h.written w hw
    · intro k' v hv
      by_cases hk : k' = k
      · subst hk
        have hlookup : (s.table.update k' (T.stamp p now)).lookup k' = some v := hv
        rw [BoundedMap.lookup_update_self hacc, Option.some.injEq] at hlookup
        subst hlookup
        exact ⟨_, List.mem_cons_self, rfl, (T.tsOf_stamp p now).symm⟩
      · have hlookup : (s.table.update k (T.stamp p now)).lookup k' = some v := hv
        rw [BoundedMap.lookup_update_of_ne _ hk] at hlookup
        obtain ⟨w, hw, hrest⟩ := h.table k' v hlookup
        exact ⟨w, List.mem_cons_of_mem _ hw, hrest⟩
    · intro x hx
      obtain ⟨w, hw, hmeasures⟩ := h.samples x hx
      exact ⟨w, List.mem_cons_of_mem _ hw, hmeasures⟩

omit [DecidableEq C] in
/-- A stop deletes its key. -/
theorem Inv.erase {s : System K V P B C cap} (h : Inv T s) (f : Frame K V P) :
    Inv T (s.erase f) where
  apart := by
    intro c₁ c₂ f₁ f₂ h₁ h₂ hne hkey
    obtain ⟨⟨hstop, hl⟩, hfound⟩ := h.apart c₁ c₂ f₁ f₂ h₁ h₂ hne hkey
    exact ⟨⟨hstop, BoundedMap.lookup_delete_eq_none hl⟩, hfound⟩
  good := by
    intro c' f' hf'
    refine (h.good c' f' hf').mono (UInt64.le_refl _) (fun _ hw => hw) (fun v hv => ?_)
      fun _ _ _ => rfl
    exact BoundedMap.lookup_of_lookup_delete hv
  written := h.written
  table := fun k v hv => h.table k v (BoundedMap.lookup_of_lookup_delete hv)
  samples := h.samples
  cell := h.cell

omit [DecidableEq B] [DecidableEq C] in
/-- What a handler with two readings measures. -/
theorem Good.measures {s : System K V P B C cap} {c : C} {f : Frame K V P} (h : Good T s c f)
    {span : UInt64 × UInt64} (hspan : f.span T = some span) (hwritten : ∀ w ∈ s.written,
      w.began ≤ w.ts ∧ w.ts ≤ w.ended ∧ w.ended ≤ s.clock) :
    ∃ w ∈ s.written,
      (⟨c, f.op.key, f.began, span.1, span.2, s.clock⟩ : Sample K C).Measures w := by
  unfold Frame.span at hspan
  split at hspan
  · rename_i k v now hop hfound hnow
    obtain rfl : (T.tsOf v, now) = span := Option.some.inj hspan
    obtain ⟨w, hw, hkey, hts, hended⟩ := h.found k v hop (.inl hfound)
    obtain ⟨hbegan, hle, -⟩ := hwritten w hw
    obtain ⟨hfirst, hlast⟩ := h.now now hnow
    exact ⟨w, hw, by rw [hkey, hop]; rfl, hts, hbegan, hle, hended, hfirst, hlast⟩
  · contradiction

omit [DecidableEq C] in
/-- A stop counts its difference: the counter goes up by one. -/
theorem Inv.count {s : System K V P B C cap} (h : Inv T s) (hprivate : T.Private) {c : C}
    {f g : Frame K V P} (hg : s.pc c = some g) (hcnt : g.cnt = none) (hf : Good T s c f)
    {span : UInt64 × UInt64} (hspan : f.span T = some span) :
    Inv T (s.count T c f span (s.cell (T.cellOf c (span.2 - span.1)) + 1)) where
  apart := h.apart
  good := by
    intro c' f' hf'
    refine (h.good c' f' hf').mono (UInt64.le_refl _) (fun _ hw => hw) (fun _ hv => hv) ?_
    intro d n hn
    -- whoever has loaded a counter is the only agent to write it
    apply Function.update_of_ne
    intro heq
    rcases hprivate with hown | hatomic
    · obtain rfl : c' = c := hown _ _ _ _ heq
      obtain rfl : g = f' := Option.some.inj (hg.symm.trans hf')
      rw [hcnt] at hn
      contradiction
    · obtain ⟨⟨rest, hcode⟩, -⟩ := (h.good c' f' hf').cnt n hn
      have hmem : .increment ∈ f'.code := by
        rw [hcode]
        exact List.mem_cons_self
      exact hatomic f'.op ((h.good c' f' hf').code.mem hmem)
  written := h.written
  table := h.table
  samples := by
    intro x hx
    rcases List.mem_cons.mp hx with rfl | hx
    · exact hf.measures hspan h.written
    · exact h.samples x hx
  cell := by
    intro b
    show Function.update s.cell (T.cellOf c (span.2 - span.1)) _ b =
      UInt64.ofNat (List.countP _ (_ :: s.samples))
    rw [List.countP_cons]
    by_cases hb : T.cellOf c (span.2 - span.1) = b
    · subst hb
      rw [Function.update_self, h.cell, if_pos (by simp [Sample.delta]), UInt64.ofNat_add]
      rfl
    · rw [Function.update_of_ne (Ne.symm hb), h.cell, if_neg (by simp [Sample.delta, hb]),
        Nat.add_zero]

/-- One access of a handler. -/
theorem Inv.perform {s : System K V P B C cap} (h : Inv T s) (hprivate : T.Private) {c : C}
    {f : Frame K V P} {a : Access} {rest : List Access} (hf : s.pc c = some f)
    (hcode : f.code = a :: rest) : Inv T (perform T c f rest s a) := by
  have hgood := h.good c f hf
  -- where the agent is after the access, with nothing loaded
  have hnext : Good T s c { f with code := rest, cnt := none } := hgood.next hcode
  have hkept (ha : a ≠ .increment) : Good T s c { f with code := rest } := by
    have hcnt : f.cnt = none := hgood.cnt_eq_none hcode ha
    rwa [← hcnt] at hnext
  have hself (g : Frame K V P) : (s.goto c (some g)).pc c = some g := Function.update_self c _ _
  cases a with
  | clock =>
      have hrest := hkept nofun
      refine h.inside hf (g := { f with code := rest, now := some s.clock }) rfl (·.2) ?_
      refine ⟨hrest.code, hrest.began, ?_, hrest.found, ?_⟩
      · rintro now ⟨rfl⟩
        exact ⟨hrest.began, UInt64.le_refl _⟩
      · intro n hn
        have hcnt : f.cnt = some n := hn
        rw [hgood.cnt_eq_none hcode nofun] at hcnt
        contradiction
  | update =>
      have hinv := h.inside hf (g := { f with code := rest }) rfl (·.2) (hkept nofun)
      exact hinv.write (hself _) rfl (hgood.goto c _)
  | lookup =>
      have hrest := hkept nofun
      have hcnt := hgood.cnt_eq_none hcode nofun
      show Inv T (match s.table.lookup f.op.key with
        | none => s.goto c (some { f with code := [] })
        | some v => s.goto c (some { f with code := rest, found := some v }))
      cases hl : s.table.lookup f.op.key with
      | none =>
          refine h.inside hf (g := { f with code := [] }) rfl (·.2) ?_
          exact ⟨List.nil_suffix, hrest.began, hrest.now, hrest.found, by simp [hcnt]⟩
      | some v =>
          refine h.inside hf (g := { f with code := rest, found := some v }) rfl ?_ ?_
          · intro hfinds
            rw [hfinds.1.2] at hl
            contradiction
          refine ⟨hrest.code, hrest.began, hrest.now, ?_, by simp [hcnt]⟩
          intro k v' hop hv
          -- what it finds is what the table holds
          have hkey : f.op.key = k := by rw [show f.op = .stop k from hop]; rfl
          apply hgood.found k v' hop
          right
          rcases hv with hv | hv
          · rw [← hkey, hl]
            exact hv
          · exact hv
  | delete =>
      have hinv := h.inside hf (g := { f with code := rest }) rfl (·.2) (hkept nofun)
      exact hinv.erase f
  | fetchAdd =>
      have hinv := h.inside hf (g := { f with code := rest }) rfl (·.2) (hkept nofun)
      unfold Handlers.perform
      cases hspan : f.span T with
      | none => exact hinv
      | some span =>
          exact hinv.count hprivate (hself _) (hgood.cnt_eq_none hcode nofun) (hgood.goto c _) hspan
  | increment =>
      unfold Handlers.perform
      cases hspan : f.span T with
      | none =>
          refine h.inside hf (g := { f with code := rest }) rfl (·.2) ?_
          refine ⟨hnext.code, hnext.began, hnext.now, hnext.found, ?_⟩
          intro n hn
          obtain ⟨-, span, hsome, -⟩ := hgood.cnt n hn
          rw [hspan] at hsome
          contradiction
      | some span =>
          cases hcnt : f.cnt with
          | none =>
              -- the load
              refine h.inside hf (by rfl) (·.2) ?_
              refine ⟨hgood.code, hgood.began, hgood.now, hgood.found, ?_⟩
              rintro n ⟨rfl⟩
              exact ⟨⟨rest, hcode⟩, span, hspan, rfl⟩
          | some n =>
              -- the store
              have hinv := h.inside hf (g := { f with code := rest, cnt := none }) rfl (·.2)
                hnext
              obtain ⟨-, span', hspan', hn⟩ := hgood.cnt n hcnt
              obtain rfl : span = span' := Option.some.inj (hspan.symm.trans hspan')
              subst hn
              exact hinv.count hprivate (hself _) rfl (hgood.goto c _) hspan

theorem Inv.step {s : System K V P B C cap} (h : Inv T s) (hprivate : T.Private)
    {a : Act K P C} (hallowed : Allowed s a) : Inv T (step T s a) := by
  cases a with
  | tick now => exact h.tick hallowed
  | enter c op => exact h.enter hallowed.2
  | step c =>
      show Inv T (stepAgent T c s)
      cases hpc : s.pc c with
      | none => exact absurd hpc hallowed
      | some f =>
          cases hcode : f.code with
          | nil =>
              rw [stepAgent_of_nil hpc hcode]
              exact h.leave c
          | cons a rest =>
              rw [stepAgent_of_cons hpc hcode]
              exact h.perform hprivate hpc hcode

/-- After any interleaving of the handlers' accesses. -/
theorem inv_of_legal (hprivate : T.Private) {as : List (Act K P C)}
    (hlegal : (system T cap).Legal (rest K V P B C cap) as) :
    Inv T ((system T cap).exec (rest K V P B C cap) as) :=
  hlegal.invariant (fun _ _ h hallowed => h.step hprivate hallowed) inv_rest

/-! ## What is counted -/

/-- A step counts one sample at most, and forgets none. -/
theorem samples_perform (c : C) (f : Frame K V P) (rest : List Access)
    (s : System K V P B C cap) (a : Access) :
    (perform T c f rest s a).samples = s.samples ∨
      ∃ x, (perform T c f rest s a).samples = x :: s.samples := by
  cases a with
  | clock => exact .inl rfl
  | update =>
      left
      rcases write_cases T (s.goto c (some { f with code := rest })) f with
        hsame | ⟨k, p, now, -, -, -, hwrite⟩
      · exact congrArg (·.samples) hsame
      · exact congrArg (·.samples) hwrite
  | lookup =>
      left
      unfold perform
      cases s.table.lookup f.op.key <;> rfl
  | delete => exact .inl rfl
  | fetchAdd =>
      unfold perform
      cases f.span T with
      | none => exact .inl rfl
      | some span => exact .inr ⟨_, rfl⟩
  | increment =>
      unfold perform
      cases f.span T with
      | none => exact .inl rfl
      | some span =>
          cases f.cnt with
          | none => exact .inl rfl
          | some n => exact .inr ⟨_, rfl⟩

theorem samples_step (s : System K V P B C cap) (a : Act K P C) :
    (step T s a).samples = s.samples ∨ ∃ x, (step T s a).samples = x :: s.samples := by
  cases a with
  | tick now => exact .inl rfl
  | enter c op => exact .inl rfl
  | step c =>
      show (stepAgent T c s).samples = s.samples ∨ _
      cases hpc : s.pc c with
      | none => exact .inl (by simp [stepAgent, hpc])
      | some f =>
          cases hcode : f.code with
          | nil =>
              left
              rw [stepAgent_of_nil hpc hcode]
              rfl
          | cons a rest =>
              rw [step, stepAgent_of_cons hpc hcode]
              exact samples_perform c f rest s a

/-- What is counted stays counted. -/
theorem samples_of_isPrefix {s : System K V P B C cap} {as bs : List (Act K P C)} (h : as <+: bs) :
    ((system T cap).exec s as).samples <:+ ((system T cap).exec s bs).samples := by
  obtain ⟨more, rfl⟩ := h
  induction more using List.reverseRecOn with
  | nil => rw [List.append_nil]
  | append_singleton more a ih =>
      rw [← List.append_assoc, Machine.exec_concat]
      rcases samples_step (T := T) ((system T cap).exec s (as ++ more)) a with hsame | ⟨x, hcons⟩
      · exact ih.trans (by rw [show ((system T cap).next _ a).samples = _ from hsame])
      · rw [show ((system T cap).next _ a).samples = _ from hcons]
        exact ih.trans (List.suffix_cons x _)

/-! ## One handler at a time -/

/-- The handler of an event from its beginning to its end, with no other agent
in between; no code has more than six steps. -/
def alone (c : C) (op : Op K P) : List (Act K P C) := .enter c op :: List.replicate 6 (.step c)

/-- The orders in which a stop makes its accesses. -/
def Code.StopsInOrder (T : Code K V P B C) : Prop :=
  T.stop = [.lookup, .clock, .delete, .fetchAdd] ∨
    T.stop = [.lookup, .clock, .fetchAdd, .delete] ∨
    T.stop = [.clock, .lookup, .increment, .delete]

/-- The state `s'` has no handler in progress that `s` has not, and the table
and the counters given. -/
structure Leaves (s s' : System K V P B C cap) (table : BoundedMap K V cap) (cell : B → UInt64) :
    Prop where
  pc : s'.pc = s.pc
  clock : s'.clock = s.clock
  table : s'.table = table
  cell : s'.cell = cell

theorem alone_start (hcode : T.start = [.clock, .update]) {s : System K V P B C cap} {c : C}
    (hidle : s.pc c = none) (k : K) (p : P) :
    Leaves s ((system T cap).exec s (alone c (.start k p)))
      (s.table.update k (T.stamp p s.clock)) s.cell := by
  have hpc : Function.update s.pc c none = s.pc := by rw [← hidle, Function.update_eq_self]
  constructor <;>
    simp [alone, Machine.exec, system, step, stepAgent, perform, System.goto, System.write,
      Code.codeOf, hcode, hpc, hidle]

theorem alone_stop_none (hcode : T.StopsInOrder)
    {s : System K V P B C cap} {c : C} (hidle : s.pc c = none) {k : K}
    (hl : s.table.lookup k = none) :
    Leaves s ((system T cap).exec s (alone c (.stop k))) s.table s.cell := by
  have hpc : Function.update s.pc c none = s.pc := by rw [← hidle, Function.update_eq_self]
  rcases hcode with hcode | hcode | hcode <;> constructor <;>
    simp [alone, Machine.exec, system, step, stepAgent, perform, System.goto, Op.key,
      Code.codeOf, hcode, hpc, hidle, hl]

theorem alone_stop_some (hcode : T.StopsInOrder)
    {s : System K V P B C cap} {c : C} (hidle : s.pc c = none) {k : K} {v : V}
    (hl : s.table.lookup k = some v) :
    Leaves s ((system T cap).exec s (alone c (.stop k))) (s.table.delete k)
      (Function.update s.cell (T.cellOf c (s.clock - T.tsOf v))
        (s.cell (T.cellOf c (s.clock - T.tsOf v)) + 1)) := by
  have hpc : Function.update s.pc c none = s.pc := by rw [← hidle, Function.update_eq_self]
  rcases hcode with hcode | hcode | hcode <;> constructor <;>
    simp [alone, Machine.exec, system, step, stepAgent, perform, System.goto, System.erase,
      System.count, Frame.span, Op.key, Code.codeOf, hcode, hpc, hidle, hl]

/-- The code `T` is that of the stopwatch `W`, whose events carry the time that
their handler reads. -/
structure Implements (T : Code K V P B C) (W : Stopwatch K V B cap) where
  time : W.Ev → UInt64
  op : W.Ev → Op K P
  agent : W.Ev → C
  start : ∀ e k v, W.view e = .start k v → ∃ p, op e = .start k p ∧ v = T.stamp p (time e)
  stop : ∀ e k, W.view e = .stop k → op e = .stop k
  cellOf : ∀ e v, W.cellOf e v = T.cellOf (agent e) (time e - T.tsOf v)
  startCode : T.start = [.clock, .update]
  stopCode : T.StopsInOrder

variable {W : Stopwatch K V B cap}

/-- The handlers of the events, one after the other, each at its own time. -/
def Implements.oneByOne (I : Implements T W) (es : List W.Ev) : List (Act K P C) :=
  es.flatMap fun e => .tick (I.time e) :: alone (I.agent e) (I.op e)

/-- Run one after the other, the handlers do to the table and the counters what
the stopwatch does. -/
theorem Implements.exec_oneByOne (I : Implements T W) (es : List W.Ev) :
    let s := (system T cap).exec (rest K V P B C cap) (I.oneByOne es)
    (∀ c, s.pc c = none) ∧ s.table = W.table (W.run es) ∧ s.cell = W.cell (W.run es) := by
  induction es using List.reverseRecOn with
  | nil =>
      refine ⟨fun _ => rfl, ?_, ?_⟩
      · exact W.table_init.symm
      · funext b
        exact (W.cell_init b).symm
  | append_singleton es e ih =>
      obtain ⟨hidle, htable, hcell⟩ := ih
      have hexec : (system T cap).exec (rest K V P B C cap) (I.oneByOne (es ++ [e])) =
          (system T cap).exec
            { (system T cap).exec (rest K V P B C cap) (I.oneByOne es) with clock := I.time e }
            (alone (I.agent e) (I.op e)) := by
        rw [oneByOne, List.flatMap_append, List.flatMap_singleton, Machine.exec_append]
        rfl
      dsimp only
      rw [hexec, run_concat]
      generalize (system T cap).exec (rest K V P B C cap) (I.oneByOne es) = s at *
      cases hview : W.view e with
      | start k v =>
          obtain ⟨p, hop, rfl⟩ := I.start e k v hview
          have hleaves := alone_start I.startCode (s := { s with clock := I.time e })
            (hidle (I.agent e)) k p
          obtain ⟨hstep, hsame⟩ := W.step_start (W.run es) e k _ hview
          rw [hop, hstep, hsame, ← htable, ← hcell]
          exact ⟨fun c => by rw [hleaves.pc]; exact hidle c, hleaves.table, hleaves.cell⟩
      | stop k =>
          rw [I.stop e k hview]
          cases hl : s.table.lookup k with
          | none =>
              have hleaves := alone_stop_none I.stopCode (s := { s with clock := I.time e })
                (hidle (I.agent e)) hl
              rw [W.step_stop_none _ e k hview (by rw [← htable, hl]), ← htable, ← hcell]
              exact ⟨fun c => by rw [hleaves.pc]; exact hidle c, hleaves.table, hleaves.cell⟩
          | some v =>
              have hleaves := alone_stop_some I.stopCode (s := { s with clock := I.time e })
                (hidle (I.agent e)) hl
              obtain ⟨hstep, hbump⟩ :=
                W.step_stop_some (W.run es) e k v hview (by rw [← htable, hl])
              refine ⟨fun c => by rw [hleaves.pc]; exact hidle c, ?_, ?_⟩
              · rw [hstep, ← htable]
                exact hleaves.table
              · rw [hleaves.cell]
                funext b
                rw [hbump, ← hcell, I.cellOf]
                by_cases hb : T.cellOf (I.agent e) (I.time e - T.tsOf v) = b
                · subst hb
                  rw [if_pos rfl, Function.update_self]
                · rw [if_neg hb, Function.update_of_ne (Ne.symm hb)]

/-! ## What a sample measures -/

/-- The subtraction does not wrap, and the difference is no shorter than the
time from the store of the start to the beginning of the stop, and no longer
than that from the beginning of the start to the moment it is counted. -/
structure Sample.Bracketed (x : Sample K C) (w : Written K) : Prop where
  delta : x.delta.toNat = x.now.toNat - w.ts.toNat
  lower : x.began.toNat - w.ended.toNat ≤ x.delta.toNat
  upper : x.delta.toNat ≤ x.counted.toNat - w.began.toNat

omit [DecidableEq K] [DecidableEq C] in
theorem Sample.Measures.bracketed {x : Sample K C} {w : Written K} (h : x.Measures w) :
    x.Bracketed w := by
  obtain ⟨-, hts, hbegan, hle, hended, hnow, hcounted⟩ := h
  have hstart : x.startedAt ≤ x.now := by
    rw [← hts]
    exact UInt64.le_trans (UInt64.le_trans hle hended) hnow
  have hdelta : x.delta.toNat = x.now.toNat - w.ts.toNat := by
    rw [hts]
    exact UInt64.toNat_sub_of_le _ _ hstart
  rw [UInt64.le_iff_toNat_le] at hbegan hle hended hnow hcounted
  exact ⟨hdelta, by omega, by omega⟩

end Lib.Handlers
