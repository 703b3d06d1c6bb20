import EbpfToy.Lib.Overlap
import EbpfToy.Lib.Readings

/-!
# Handlers whose reading of the clock is no step

The handlers of `Handlers` as those of `Overlap`, whose events carry the time
that the handler reads. The code is that of a stop that looks its key up, reads
the clock and makes two writes. A handler begins over there when it reads the
clock here; a stop that finds nothing begins and ends over there when it begins
here, so that there no two handlers on one key overlap. At every moment the
table and the counters are the same (`Mirrors`).
-/

namespace Lib.Handlers

variable {K V P B C : Type} [DecidableEq K] [DecidableEq B] [DecidableEq C] {cap : Nat}

/-! ## An agent in another machine -/

/-- The place `q` of an agent in another machine: `idle` when it is in no
handler, and otherwise what `follows` says of its handler. -/
def System.Placed {Q : Type} (s : System K V P B C cap) (c : C) (idle : Q)
    (follows : Frame K V P → Q → Prop) (q : Q) : Prop :=
  match s.pc c with
  | none => q = idle
  | some f => follows f q

section Placed

variable {Q : Type} {s s' : System K V P B C cap} {c : C} {idle q : Q}
  {follows follows' : Frame K V P → Q → Prop}

omit [DecidableEq B] [DecidableEq C] in
theorem placed_of_pc {f : Frame K V P} (hf : s.pc c = some f) :
    s.Placed c idle follows q ↔ follows f q := by
  simp [System.Placed, hf]

omit [DecidableEq B] [DecidableEq C] in
theorem placed_of_idle (hpc : s.pc c = none) : s.Placed c idle follows q ↔ q = idle := by
  simp [System.Placed, hpc]

omit [DecidableEq B] in
theorem placed_goto {f : Frame K V P} (h : follows f q) :
    (s.goto c (some f)).Placed c idle follows q :=
  (placed_of_pc (Function.update_self c _ _)).mpr h

omit [DecidableEq B] [DecidableEq C] in
/-- An agent that stays in its handler stays in its place. -/
theorem System.Placed.frame (h : s.Placed c idle follows q) (hpc : s'.pc c = s.pc c)
    (hfollows : ∀ f, s.pc c = some f → follows f q → follows' f q) :
    s'.Placed c idle follows' q := by
  cases hf : s.pc c with
  | none =>
      rw [placed_of_idle hf] at h
      exact (placed_of_idle (hpc.trans hf)).mpr h
  | some f =>
      rw [placed_of_pc hf] at h
      exact (placed_of_pc (hpc.trans hf)).mpr (hfollows f hf h)

end Placed

/-! ## The coarser machine -/

/-- The handlers of `T` as events of the stopwatch `W`, once they have read the
clock. -/
structure Renders (T : Code K V P B C) (W : Stopwatch K V B cap) where
  event : Reading K P C → W.Ev
  view_start : ∀ c k p now, W.view (event ⟨c, .start k p, now⟩) = .start k (T.stamp p now)
  view_stop : ∀ c k now, W.view (event ⟨c, .stop k, now⟩) = .stop k
  cellOf : ∀ c k now v, W.cellOf (event ⟨c, .stop k, now⟩) v = T.cellOf c (now - T.tsOf v)

/-- The two writes of a stop. -/
def writes (deleteFirst : Bool) : List Access :=
  if deleteFirst then [.delete, .fetchAdd] else [.fetchAdd, .delete]

/-- The code that `Overlap` is about. -/
structure Code.Splits (T : Code K V P B C) (deleteFirst : Bool) : Prop where
  start : T.start = [.clock, .update]
  stop : T.stop = .lookup :: .clock :: writes deleteFirst

variable {T : Code K V P B C} {W : Stopwatch K V B cap}

/-- What an action is in the coarser machine. -/
def coarse (R : Renders T W) (s : System K V P B C cap) : Act K P C → List (Overlap.Act W C)
  | .tick _ => []
  | .enter c op =>
      (heard s (.enter c op)).flatMap fun r => [.enter c (R.event r), .step c]
  | .step c =>
      match s.pc c with
      | none => []
      | some f =>
          match f.code with
          | .clock :: _ => (heard s (.step c)).flatMap fun r =>
              .enter c (R.event r) :: if f.op.isStop then [.step c] else []
          | .update :: _ => [.step c]
          | .delete :: _ => [.step c]
          | .fetchAdd :: _ => [.step c]
          | _ => []

/-- Where an agent in the handler `f` is in the coarser machine. -/
inductive Follows (R : Renders T W) (deleteFirst : Bool) (s : System K V P B C cap) (c : C)
    (f : Frame K V P) : Overlap.Pc W → Prop where
  | start {k : K} {p : P} (op : f.op = .start k p) (code : f.code = [.clock, .update]) :
      Follows R deleteFirst s c f .idle
  | updating {k : K} {p : P} {now : UInt64} (op : f.op = .start k p) (code : f.code = [.update])
      (read : f.now = some now) :
      Follows R deleteFirst s c f (.updating (R.event ⟨c, .start k p, now⟩))
  | stop {k : K} (op : f.op = .stop k) (code : f.code = .lookup :: .clock :: writes deleteFirst) :
      Follows R deleteFirst s c f .idle
  | clock {k : K} {v : V} (op : f.op = .stop k) (code : f.code = .clock :: writes deleteFirst)
      (found : f.found = some v) (stored : s.table.lookup k = some v) :
      Follows R deleteFirst s c f .idle
  | found {k : K} {v : V} {now : UInt64} (op : f.op = .stop k) (code : f.code = writes deleteFirst)
      (read : f.now = some now) (found : f.found = some v) :
      Follows R deleteFirst s c f (.found (R.event ⟨c, .stop k, now⟩) v)
  | half {k : K} {v : V} {now : UInt64} (op : f.op = .stop k)
      (code : f.code = (writes deleteFirst).tail) (read : f.now = some now)
      (found : f.found = some v) :
      Follows R deleteFirst s c f (.half (R.event ⟨c, .stop k, now⟩) v)
  | ended (code : f.code = []) : Follows R deleteFirst s c f .idle

/-- An agent, which may be in no handler, in both machines. -/
abbrev Placed (R : Renders T W) (deleteFirst : Bool) (s : System K V P B C cap) (c : C)
    (p : Overlap.Pc W) : Prop :=
  s.Placed c .idle (Follows R deleteFirst s c) p

/-- The state `t` of the coarser machine goes with `s`. -/
structure Mirrors (R : Renders T W) (deleteFirst : Bool) (s : System K V P B C cap)
    (t : Overlap.System W C) : Prop where
  inv : Inv T s
  table : t.table = s.table
  cell : t.cell = s.cell
  placed : ∀ c, Placed R deleteFirst s c (t.pc c)

variable {R : Renders T W} {deleteFirst : Bool}

omit [DecidableEq C] in
theorem mirrors_rest : Mirrors R deleteFirst (rest K V P B C cap) (Overlap.rest W C) where
  inv := inv_rest
  table := rfl
  cell := rfl
  placed _ := rfl

omit [DecidableEq C] in
/-- A handler that is in progress over there is on its key, and finds something. -/
theorem Follows.of_handler {s : System K V P B C cap} {c : C} {f : Frame K V P}
    {p : Overlap.Pc W} (h : Follows R deleteFirst s c f p) {e : W.Ev} (he : p.handler = some e) :
    (W.view e).key = f.op.key ∧ ¬ s.FindsNothing f := by
  cases h with
  | start => contradiction
  | stop => contradiction
  | clock => contradiction
  | ended => contradiction
  | updating hop =>
      obtain rfl := Option.some.inj he
      refine ⟨by rw [R.view_start, hop]; rfl, fun hfinds => ?_⟩
      have hstop := hfinds.1.1
      rw [hop] at hstop
      contradiction
  | found hop _ _ hfound =>
      obtain rfl := Option.some.inj he
      refine ⟨by rw [R.view_stop, hop]; rfl, fun hfinds => ?_⟩
      rw [hfinds.2] at hfound
      contradiction
  | half hop _ _ hfound =>
      obtain rfl := Option.some.inj he
      refine ⟨by rw [R.view_stop, hop]; rfl, fun hfinds => ?_⟩
      rw [hfinds.2] at hfound
      contradiction

omit [DecidableEq C] in
/-- Only what is stored under its key matters to a handler. -/
theorem Follows.frame {s s' : System K V P B C cap} {c : C} {f : Frame K V P}
    {p : Overlap.Pc W} (h : Follows R deleteFirst s c f p)
    (hsame : s'.table.lookup f.op.key = s.table.lookup f.op.key) :
    Follows R deleteFirst s' c f p := by
  cases h with
  | start hop hcode => exact .start hop hcode
  | updating hop hcode hread => exact .updating hop hcode hread
  | stop hop hcode => exact .stop hop hcode
  | clock hop hcode hfound hstored =>
      rw [hop] at hsame
      exact .clock hop hcode hfound (hsame.trans hstored)
  | found hop hcode hread hfound => exact .found hop hcode hread hfound
  | half hop hcode hread hfound => exact .half hop hcode hread hfound
  | ended hcode => exact .ended hcode

omit [DecidableEq C] in
theorem Placed.frame {s s' : System K V P B C cap} {c : C} {p : Overlap.Pc W}
    (h : Placed R deleteFirst s c p) (hpc : s'.pc c = s.pc c)
    (hsame : ∀ f, s.pc c = some f → s'.table.lookup f.op.key = s.table.lookup f.op.key) :
    Placed R deleteFirst s' c p :=
  System.Placed.frame h hpc fun f hf hfollows => hfollows.frame (hsame f hf)

/-- An agent takes a step in both machines. -/
theorem Mirrors.move {s : System K V P B C cap} {t : Overlap.System W C}
    (h : Mirrors R deleteFirst s t) (hprivate : T.Private) {c : C} {f : Frame K V P}
    (hf : s.pc c = some f) {p : Overlap.Pc W} {table : BoundedMap K V cap} {cell : B → UInt64}
    (htable : table = (stepAgent T c s).table) (hcell : cell = (stepAgent T c s).cell)
    (hplaced : Placed R deleteFirst (stepAgent T c s) c p) :
    Mirrors R deleteFirst (stepAgent T c s) ⟨Function.update t.pc c p, table, cell⟩ where
  inv := h.inv.step hprivate (a := .step c) (by rw [Allowed, hf]; exact Option.some_ne_none f)
  table := htable
  cell := hcell
  placed := by
    intro c'
    show Placed R deleteFirst _ c' (Function.update t.pc c p c')
    by_cases hc : c' = c
    · rw [hc, Function.update_self]
      exact hplaced
    · rw [Function.update_of_ne hc]
      exact (h.placed c').frame (pc_stepAgent_of_ne s hc) fun f hf =>
        h.inv.lookup_stepAgent hf hc

omit [DecidableEq C] in
/-- A handler may begin over there, if those on its key find nothing here. -/
theorem Mirrors.allowed_enter {s : System K V P B C cap} {t : Overlap.System W C}
    (h : Mirrors R deleteFirst s t) {c : C} (hidle : t.pc c = .idle) {e : W.Ev}
    (hbeside : ∀ c' f', c' ≠ c → s.pc c' = some f' → f'.op.key = (W.view e).key →
      s.FindsNothing f') : Overlap.Allowed t (.enter c e) := by
  refine ⟨by rw [hidle]; rfl, fun c' e' he' hkey => ?_⟩
  have hne : c' ≠ c := by
    rintro rfl
    rw [hidle] at he'
    contradiction
  have hplaced := h.placed c'
  cases hf : s.pc c' with
  | none =>
      replace hplaced := (placed_of_idle hf).mp hplaced
      rw [hplaced] at he'
      contradiction
  | some f =>
      replace hplaced := (placed_of_pc hf).mp hplaced
      obtain ⟨hsame, hfinds⟩ := hplaced.of_handler he'
      exact hfinds (hbeside c' f hne hf (hsame.symm.trans hkey))

/-! ## The steps -/

/-- The coarser machine answers the action `a`. -/
abbrev Answers (R : Renders T W) (deleteFirst : Bool) (s : System K V P B C cap)
    (t : Overlap.System W C) (a : Act K P C) : Prop :=
  (Overlap.system W C deleteFirst).Legal t (coarse R s a) ∧
    Mirrors R deleteFirst (step T s a)
      ((Overlap.system W C deleteFirst).exec t (coarse R s a))

section Steps

variable {s : System K V P B C cap} {t : Overlap.System W C} {c : C} {f : Frame K V P}

theorem Mirrors.tick (h : Mirrors R deleteFirst s t) {now : UInt64} (hle : s.clock ≤ now) :
    Answers R deleteFirst s t (.tick now) :=
  ⟨trivial, h.inv.tick hle, h.table, h.cell, fun c => (h.placed c).frame rfl fun _ _ => rfl⟩

/-- A handler begins: a stop that finds nothing is over at once. -/
theorem Mirrors.enter (h : Mirrors R deleteFirst s t) (hcode : T.Splits deleteFirst)
    {op : Op K P} (hallowed : Allowed s (.enter c op)) :
    Answers R deleteFirst s t (.enter c op) := by
  obtain ⟨hfree, hbeside⟩ := hallowed
  have hidle : t.pc c = .idle := (placed_of_idle hfree).mp (h.placed c)
  -- here the handler has begun, and has read nothing
  have hstep : Mirrors R deleteFirst (step T s (.enter c op)) t := by
    refine ⟨h.inv.enter hbeside, h.table, h.cell, fun c' => ?_⟩
    by_cases hc : c' = c
    · subst hc
      rw [hidle]
      apply placed_goto
      cases op with
      | start k p => exact .start rfl hcode.start
      | stop k => exact .stop rfl hcode.stop
    · exact (h.placed c').frame (Function.update_of_ne hc _ _) fun _ _ => rfl
  by_cases hvoid : s.Void op
  · -- and there it begins and finds nothing
    obtain ⟨k, rfl⟩ : ∃ k, op = .stop k := by
      cases op with
      | start k p => exact absurd hvoid.1 Bool.false_ne_true
      | stop k => exact ⟨k, rfl⟩
    set e := R.event ⟨c, .stop k, s.clock⟩ with he
    have hview : W.view e = .stop k := R.view_stop c k s.clock
    have hacts : coarse R s (.enter c (.stop k)) = [.enter c e, .step c] := by
      simp [coarse, heard, hvoid, he]
    have hentered : Overlap.step deleteFirst t (.enter c e) =
        { t with pc := Function.update t.pc c (.lookingUp e) } := by
      simp [Overlap.step, Overlap.entered, hview]
    have hl : t.table.lookup k = none := by
      rw [h.table]
      exact hvoid.2
    have hend : (Overlap.system W C deleteFirst).exec t [.enter c e, .step c] = t := by
      show Overlap.stepAgent deleteFirst c (Overlap.step deleteFirst t (.enter c e)) = t
      rw [hentered]
      simp only [Overlap.stepAgent, Function.update_self, hview, Event.key_stop, hl,
        Function.update_idem]
      rw [← hidle, Function.update_eq_self]
    rw [Answers, hacts, hend]
    refine ⟨⟨h.allowed_enter hidle fun c' f' _ hf' hkey => ?_, ?_, trivial⟩, hstep⟩
    · rw [hview] at hkey
      exact (hbeside c' f' hf' hkey).2
    · show ((Overlap.step deleteFirst t (.enter c e)).pc c).handler ≠ none
      rw [hentered]
      simp [Overlap.Pc.handler]
  · have hacts : coarse R s (.enter c op) = [] := by simp [coarse, heard, hvoid]
    rw [Answers, hacts]
    exact ⟨trivial, hstep⟩

/-- A start reads the clock. -/
theorem Mirrors.start (h : Mirrors R deleteFirst s t) (hprivate : T.Private)
    (hf : s.pc c = some f) (hidle : t.pc c = .idle) {k : K} {p : P} (hop : f.op = .start k p)
    (hcode : f.code = [.clock, .update]) : Answers R deleteFirst s t (.step c) := by
  set e := R.event ⟨c, .start k p, s.clock⟩ with he
  have hview : W.view e = .start k (T.stamp p s.clock) := R.view_start c k p s.clock
  have hacts : coarse R s (.step c) = [.enter c e] := by
    simp [coarse, heard, hf, hcode, hop, System.Void, Op.isStop, he]
  have hend : (Overlap.system W C deleteFirst).exec t [.enter c e] =
      ⟨Function.update t.pc c (.updating e), t.table, t.cell⟩ := by
    show Overlap.step deleteFirst t (.enter c e) = _
    simp [Overlap.step, Overlap.entered, hview]
  have hstep : stepAgent T c s =
      s.goto c (some { f with code := [.update], now := some s.clock }) :=
    stepAgent_of_cons hf hcode
  rw [Answers, hacts, hend]
  refine ⟨⟨h.allowed_enter hidle fun c' f' hne hf' hkey => ?_, trivial⟩,
    h.move hprivate hf ?_ ?_ ?_⟩
  · rw [hview] at hkey
    exact h.inv.apart c' c f' f hf' hf hne (by rw [hkey, hop]; rfl)
  · rw [hstep]
    exact h.table
  · rw [hstep]
    exact h.cell
  · rw [hstep]
    exact placed_goto (.updating hop rfl rfl)

/-- A start stores its reading. -/
theorem Mirrors.updating (h : Mirrors R deleteFirst s t) (hprivate : T.Private)
    (hf : s.pc c = some f) {k : K} {p : P} {now : UInt64} (hop : f.op = .start k p)
    (hcode : f.code = [.update]) (hread : f.now = some now)
    (hpc : t.pc c = .updating (R.event ⟨c, .start k p, now⟩)) :
    Answers R deleteFirst s t (.step c) := by
  have hview := R.view_start c k p now
  have hacts : coarse R s (.step c) = [.step c] := by simp [coarse, hf, hcode]
  have hend : (Overlap.system W C deleteFirst).exec t [.step c] =
      ⟨Function.update t.pc c .idle, t.table.update k (T.stamp p now), t.cell⟩ := by
    show Overlap.stepAgent deleteFirst c t = _
    simp [Overlap.stepAgent, hpc, hview]
  have hstep : stepAgent T c s = (s.goto c (some { f with code := [] })).write T f :=
    stepAgent_of_cons hf hcode
  have hwrite : (stepAgent T c s).table = s.table.update k (T.stamp p now) ∧
      (stepAgent T c s).cell = s.cell ∧ (stepAgent T c s).pc c = some { f with code := [] } := by
    rw [hstep]
    simp [System.write, hop, hread, System.goto]
  rw [Answers, hacts, hend]
  refine ⟨⟨by simp [Overlap.system, Overlap.Allowed, hpc, Overlap.Pc.handler], trivial⟩,
    h.move hprivate hf ?_ ?_ ?_⟩
  · rw [hwrite.1, h.table]
  · rw [hwrite.2.1, h.cell]
  · exact (placed_of_pc hwrite.2.2).mpr (.ended rfl)

/-- A step that the coarser machine does not take. -/
theorem Mirrors.silent (h : Mirrors R deleteFirst s t) (hprivate : T.Private)
    (hf : s.pc c = some f) (hidle : t.pc c = .idle) (hacts : coarse R s (.step c) = [])
    {g : Option (Frame K V P)} (hstep : Handlers.stepAgent T c s = s.goto c g)
    (hplaced : Placed R deleteFirst (s.goto c g) c .idle) :
    Answers R deleteFirst s t (.step c) := by
  have hend : (Overlap.system W C deleteFirst).exec t [] =
      ⟨Function.update t.pc c .idle, t.table, t.cell⟩ := by
    rw [← hidle, Function.update_eq_self]
    rfl
  rw [Answers, hacts, hend]
  refine ⟨trivial, h.move hprivate hf ?_ ?_ ?_⟩
  · rw [hstep]
    exact h.table
  · rw [hstep]
    exact h.cell
  · rw [hstep]
    exact hplaced

/-- A stop looks its key up. -/
theorem Mirrors.stop (h : Mirrors R deleteFirst s t) (hprivate : T.Private)
    (hf : s.pc c = some f) (hidle : t.pc c = .idle) {k : K} (hop : f.op = .stop k)
    (hcode : f.code = .lookup :: .clock :: writes deleteFirst) :
    Answers R deleteFirst s t (.step c) := by
  have hacts : coarse R s (.step c) = [] := by simp [coarse, hf, hcode]
  have hkey : f.op.key = k := by rw [hop]; rfl
  have hstep : stepAgent T c s = _ := stepAgent_of_cons hf hcode
  cases hl : s.table.lookup k with
  | none =>
      refine h.silent hprivate hf hidle hacts (g := some { f with code := [] }) ?_
        (placed_goto (.ended rfl))
      rw [hstep, perform, hkey, hl]
  | some v =>
      refine h.silent hprivate hf hidle hacts
        (g := some { f with code := .clock :: writes deleteFirst, found := some v }) ?_
        (placed_goto (.clock hop rfl rfl hl))
      rw [hstep, perform, hkey, hl]

/-- A stop that has found its start reads the clock. -/
theorem Mirrors.clock (h : Mirrors R deleteFirst s t) (hprivate : T.Private)
    (hf : s.pc c = some f) (hidle : t.pc c = .idle) {k : K} {v : V} (hop : f.op = .stop k)
    (hcode : f.code = .clock :: writes deleteFirst) (hfound : f.found = some v)
    (hstored : s.table.lookup k = some v) : Answers R deleteFirst s t (.step c) := by
  set e := R.event ⟨c, .stop k, s.clock⟩ with he
  have hview : W.view e = .stop k := R.view_stop c k s.clock
  have hacts : coarse R s (.step c) = [.enter c e, .step c] := by
    simp [coarse, heard, hf, hcode, hop, System.Void, Op.isStop, Op.key, hstored, he]
  have hentered : Overlap.step deleteFirst t (.enter c e) =
      { t with pc := Function.update t.pc c (.lookingUp e) } := by
    simp [Overlap.step, Overlap.entered, hview]
  have hl : t.table.lookup k = some v := by rw [h.table, hstored]
  have hend : (Overlap.system W C deleteFirst).exec t [.enter c e, .step c] =
      ⟨Function.update t.pc c (.found e v), t.table, t.cell⟩ := by
    show Overlap.stepAgent deleteFirst c (Overlap.step deleteFirst t (.enter c e)) = _
    rw [hentered]
    simp only [Overlap.stepAgent, Function.update_self, hview, Event.key_stop, hl,
      Function.update_idem]
  have hstep : stepAgent T c s =
      s.goto c (some { f with code := writes deleteFirst, now := some s.clock }) :=
    stepAgent_of_cons hf hcode
  rw [Answers, hacts, hend]
  refine ⟨⟨h.allowed_enter hidle fun c' f' hne hf' hkey => ?_, ?_, trivial⟩,
    h.move hprivate hf ?_ ?_ ?_⟩
  · rw [hview] at hkey
    exact h.inv.apart c' c f' f hf' hf hne (by rw [hkey, hop]; rfl)
  · show ((Overlap.step deleteFirst t (.enter c e)).pc c).handler ≠ none
    rw [hentered]
    simp [Overlap.Pc.handler]
  · rw [hstep]
    exact h.table
  · rw [hstep]
    exact h.cell
  · rw [hstep]
    exact placed_goto (.found hop rfl rfl hfound)

/-- The atomic addition of both machines. -/
theorem fetchAdd_eq_update (cell : B → UInt64) (b : B) :
    Overlap.fetchAdd cell b = Function.update cell b (cell b + 1) := by
  funext b'
  by_cases hb : b = b'
  · subst hb
    simp [Overlap.fetchAdd]
  · simp [Overlap.fetchAdd, hb, Function.update_of_ne (Ne.symm hb)]

/-- A stop deletes its key, in both machines. -/
theorem Mirrors.delete (h : Mirrors R deleteFirst s t) (hprivate : T.Private)
    (hf : s.pc c = some f) {k : K} (hop : f.op = .stop k) {rest : List Access}
    (hcode : f.code = .delete :: rest) {p : Overlap.Pc W} (hbusy : (t.pc c).handler ≠ none)
    (hend : Overlap.stepAgent deleteFirst c t =
      ⟨Function.update t.pc c p, t.table.delete k, t.cell⟩)
    (hplaced : Follows R deleteFirst (stepAgent T c s) c { f with code := rest } p) :
    Answers R deleteFirst s t (.step c) := by
  have hacts : coarse R s (.step c) = [.step c] := by simp [coarse, hf, hcode]
  have hstep : stepAgent T c s = (s.goto c (some { f with code := rest })).erase f :=
    stepAgent_of_cons hf hcode
  have hkey : f.op.key = k := by rw [hop]; rfl
  have hmirrors : Mirrors R deleteFirst (stepAgent T c s)
      ⟨Function.update t.pc c p, t.table.delete k, t.cell⟩ := by
    refine h.move hprivate hf ?_ ?_ ?_
    · rw [hstep, System.erase, hkey, h.table]
      rfl
    · rw [hstep]
      exact h.cell
    · refine (placed_of_pc ?_).mpr hplaced
      rw [hstep]
      exact Function.update_self c _ _
  rw [Answers, hacts]
  rw [← hend] at hmirrors
  exact ⟨⟨hbusy, trivial⟩, hmirrors⟩

/-- A stop counts its difference, in both machines. -/
theorem Mirrors.fetchAdd (h : Mirrors R deleteFirst s t) (hprivate : T.Private)
    (hf : s.pc c = some f) {k : K} {v : V} {now : UInt64} (hop : f.op = .stop k)
    (hread : f.now = some now) (hfound : f.found = some v) {rest : List Access}
    (hcode : f.code = .fetchAdd :: rest) {p : Overlap.Pc W} (hbusy : (t.pc c).handler ≠ none)
    (hend : Overlap.stepAgent deleteFirst c t = ⟨Function.update t.pc c p, t.table,
      Overlap.fetchAdd t.cell (W.cellOf (R.event ⟨c, .stop k, now⟩) v)⟩)
    (hplaced : Follows R deleteFirst (stepAgent T c s) c { f with code := rest } p) :
    Answers R deleteFirst s t (.step c) := by
  have hacts : coarse R s (.step c) = [.step c] := by simp [coarse, hf, hcode]
  have hspan : f.span T = some (T.tsOf v, now) := by simp [Frame.span, hop, hread, hfound]
  have hstep : stepAgent T c s = (s.goto c (some { f with code := rest })).count T c f
      (T.tsOf v, now) (s.cell (T.cellOf c (now - T.tsOf v)) + 1) := by
    rw [stepAgent_of_cons hf hcode, perform, hspan]
  have hmirrors : Mirrors R deleteFirst (stepAgent T c s) ⟨Function.update t.pc c p, t.table,
      Overlap.fetchAdd t.cell (W.cellOf (R.event ⟨c, .stop k, now⟩) v)⟩ := by
    refine h.move hprivate hf ?_ ?_ ?_
    · rw [hstep]
      exact h.table
    · rw [hstep, fetchAdd_eq_update, R.cellOf, h.cell]
      rfl
    · refine (placed_of_pc ?_).mpr hplaced
      rw [hstep]
      exact Function.update_self c _ _
  rw [Answers, hacts]
  rw [← hend] at hmirrors
  exact ⟨⟨hbusy, trivial⟩, hmirrors⟩

/-- The first write of a stop. -/
theorem Mirrors.found (h : Mirrors R deleteFirst s t) (hprivate : T.Private)
    (hf : s.pc c = some f) {k : K} {v : V} {now : UInt64} (hop : f.op = .stop k)
    (hcode : f.code = writes deleteFirst) (hread : f.now = some now) (hfound : f.found = some v)
    (hpc : t.pc c = .found (R.event ⟨c, .stop k, now⟩) v) :
    Answers R deleteFirst s t (.step c) := by
  have hbusy : (t.pc c).handler ≠ none := by simp [hpc, Overlap.Pc.handler]
  cases deleteFirst with
  | true =>
      refine h.delete hprivate hf hop hcode hbusy (p := .half (R.event ⟨c, .stop k, now⟩) v) ?_
        (.half hop rfl hread hfound)
      simp [Overlap.stepAgent, hpc, R.view_stop]
  | false =>
      refine h.fetchAdd hprivate hf hop hread hfound hcode hbusy
        (p := .half (R.event ⟨c, .stop k, now⟩) v) ?_ (.half hop rfl hread hfound)
      simp [Overlap.stepAgent, hpc]

/-- The second write. -/
theorem Mirrors.half (h : Mirrors R deleteFirst s t) (hprivate : T.Private)
    (hf : s.pc c = some f) {k : K} {v : V} {now : UInt64} (hop : f.op = .stop k)
    (hcode : f.code = (writes deleteFirst).tail) (hread : f.now = some now)
    (hfound : f.found = some v) (hpc : t.pc c = .half (R.event ⟨c, .stop k, now⟩) v) :
    Answers R deleteFirst s t (.step c) := by
  have hbusy : (t.pc c).handler ≠ none := by simp [hpc, Overlap.Pc.handler]
  cases deleteFirst with
  | true =>
      refine h.fetchAdd hprivate hf hop hread hfound hcode hbusy (p := .idle) ?_ (.ended rfl)
      simp [Overlap.stepAgent, hpc]
  | false =>
      refine h.delete hprivate hf hop hcode hbusy (p := .idle) ?_ (.ended rfl)
      simp [Overlap.stepAgent, hpc, R.view_stop]

/-- A handler returns; over there it is over already. -/
theorem Mirrors.ended (h : Mirrors R deleteFirst s t) (hprivate : T.Private)
    (hf : s.pc c = some f) (hidle : t.pc c = .idle) (hcode : f.code = []) :
    Answers R deleteFirst s t (.step c) := by
  have hacts : coarse R s (.step c) = [] := by simp [coarse, hf, hcode]
  exact h.silent hprivate hf hidle hacts (stepAgent_of_nil hf hcode)
    ((placed_of_idle (Function.update_self c _ _)).mpr rfl)

theorem Mirrors.stepAgent (h : Mirrors R deleteFirst s t) (hprivate : T.Private)
    (hbusy : s.pc c ≠ none) : Answers R deleteFirst s t (.step c) := by
  have hplaced := h.placed c
  cases hf : s.pc c with
  | none => contradiction
  | some f =>
      replace hplaced := (placed_of_pc hf).mp hplaced
      generalize hpc : t.pc c = p at hplaced
      cases hplaced with
      | start hop hcode => exact h.start hprivate hf hpc hop hcode
      | updating hop hcode hread => exact h.updating hprivate hf hop hcode hread hpc
      | stop hop hcode => exact h.stop hprivate hf hpc hop hcode
      | clock hop hcode hfound hstored => exact h.clock hprivate hf hpc hop hcode hfound hstored
      | found hop hcode hread hfound => exact h.found hprivate hf hop hcode hread hfound hpc
      | half hop hcode hread hfound => exact h.half hprivate hf hop hcode hread hfound hpc
      | ended hcode => exact h.ended hprivate hf hpc hcode

end Steps

/-! ## Runs -/

/-- The machine of `Overlap` simulates that of `Handlers`. -/
theorem simulates (R : Renders T W) (hcode : T.Splits deleteFirst) (hprivate : T.Private) :
    (system T cap).Simulates (Overlap.system W C deleteFirst) (coarse R)
      (Mirrors R deleteFirst) := by
  intro s t a h hallowed
  cases a with
  | tick now => exact h.tick hallowed
  | enter c op => exact h.enter hcode hallowed
  | step c => exact h.stepAgent hprivate hallowed

/-- The run of the coarser machine that goes with a run. -/
def coarseRun (R : Renders T W) (as : List (Act K P C)) : List (Overlap.Act W C) :=
  (system T cap).shadow (coarse R) (rest K V P B C cap) as

theorem mirrors_of_legal (R : Renders T W) (hcode : T.Splits deleteFirst)
    (hprivate : T.Private) {as : List (Act K P C)}
    (hlegal : (system T cap).Legal (rest K V P B C cap) as) :
    (Overlap.system W C deleteFirst).Legal (Overlap.rest W C) (coarseRun R as) ∧
      Mirrors R deleteFirst ((system T cap).exec (rest K V P B C cap) as)
        ((Overlap.system W C deleteFirst).exec (Overlap.rest W C) (coarseRun R as)) :=
  (simulates R hcode hprivate).run hlegal mirrors_rest

/-- The handlers that begin over there are those that have read their time here. -/
theorem begun_coarseRun (R : Renders T W) (as : List (Act K P C)) :
    Overlap.begun (coarseRun R as) = (history T cap as).map R.event := by
  have hone : ∀ (s : System K V P B C cap) (a : Act K P C),
      Overlap.begun (coarse R s a) = (heard s a).map R.event := by
    intro s a
    cases a with
    | tick now => rfl
    | enter c op =>
        by_cases hvoid : s.Void op <;> simp [coarse, heard, hvoid, Overlap.begun]
    | step c =>
        cases hf : s.pc c with
        | none => simp [coarse, heard, hf, Overlap.begun]
        | some f =>
            cases hcode : f.code with
            | nil => simp [coarse, heard, hf, hcode, Overlap.begun]
            | cons a rest =>
                cases a with
                | clock =>
                    by_cases hvoid : s.Void f.op <;> by_cases hstop : f.op.isStop = true <;>
                      simp [coarse, heard, hf, hcode, hvoid, hstop, Overlap.begun]
                | _ => simp [coarse, heard, hf, hcode, Overlap.begun]
  rw [coarseRun, Machine.shadow, history, Overlap.begun, List.filterMap_flatMap, List.map_flatMap]
  congr 1
  funext x
  exact hone x.1 x.2

/-- A stop that begins over there is not about to update. -/
theorem not_updating_of_entered {t u : Overlap.System W C} {c c' : C} {e e' : W.Ev} {k : K}
    (hview : W.view e' = .stop k)
    (hmem : (u, .step c) ∈ (Overlap.system W C deleteFirst).trace t [.enter c' e', .step c']) :
    u.pc c ≠ .updating e := by
  have htrace : (Overlap.system W C deleteFirst).trace t [.enter c' e', .step c'] =
      [(t, .enter c' e'), (Overlap.step deleteFirst t (.enter c' e'), .step c')] := rfl
  rw [htrace, List.mem_cons, List.mem_singleton] at hmem
  rcases hmem with heq | heq
  · obtain ⟨-, hact⟩ := Prod.mk.inj heq
    contradiction
  · obtain ⟨rfl, hact⟩ := Prod.mk.inj heq
    obtain rfl := Overlap.Act.step.inj hact
    simp [Overlap.step, Overlap.entered, hview]

/-- An update over there is one here. -/
theorem Mirrors.exists_updating {s : System K V P B C cap} {t u : Overlap.System W C}
    (h : Mirrors R deleteFirst s t) {a : Act K P C} {c : C} {e : W.Ev}
    (hmem : (u, .step c) ∈ (Overlap.system W C deleteFirst).trace t (coarse R s a))
    (hpc : u.pc c = .updating e) :
    u = t ∧ a = .step c ∧ ∃ f k p now, s.pc c = some f ∧ f.op = .start k p ∧
      f.code = [.update] ∧ e = R.event ⟨c, .start k p, now⟩ := by
  cases a with
  | tick now => exact absurd hmem List.not_mem_nil
  | enter c' op =>
      by_cases hvoid : s.Void op
      · cases op with
        | start k p => exact absurd hvoid.1 Bool.false_ne_true
        | stop k =>
            have hacts : coarse R s (.enter c' (.stop k)) =
                [.enter c' (R.event ⟨c', .stop k, s.clock⟩), .step c'] := by
              simp [coarse, heard, hvoid]
            rw [hacts] at hmem
            exact absurd hpc (not_updating_of_entered (R.view_stop c' k s.clock) hmem)
      · have hacts : coarse R s (.enter c' op) = [] := by simp [coarse, heard, hvoid]
        rw [hacts] at hmem
        exact absurd hmem List.not_mem_nil
  | step c' =>
      have hplaced := h.placed c'
      cases hf : s.pc c' with
      | none =>
          have hacts : coarse R s (.step c') = [] := by simp [coarse, hf]
          rw [hacts] at hmem
          exact absurd hmem List.not_mem_nil
      | some f =>
          replace hplaced := (placed_of_pc hf).mp hplaced
          generalize hpc' : t.pc c' = p at hplaced
          -- over there one step of the handler is taken, or none
          have hone (hacts : coarse R s (.step c') = [.step c']) : u = t ∧ c = c' := by
            rw [hacts] at hmem
            obtain ⟨rfl, hact⟩ := Prod.mk.inj (List.mem_singleton.mp hmem)
            exact ⟨rfl, Overlap.Act.step.inj hact⟩
          have hnone (hacts : coarse R s (.step c') = []) : False := by
            rw [hacts] at hmem
            exact absurd hmem List.not_mem_nil
          cases hplaced with
          | start hop hcode =>
              have hacts : coarse R s (.step c') = [.enter c' (R.event ⟨c', f.op, s.clock⟩)] := by
                simp [coarse, heard, hf, hcode, hop, System.Void, Op.isStop]
              rw [hacts] at hmem
              obtain ⟨-, hact⟩ := Prod.mk.inj (List.mem_singleton.mp hmem)
              contradiction
          | updating hop hcode hread =>
              obtain ⟨rfl, rfl⟩ := hone (by simp [coarse, hf, hcode])
              rw [hpc'] at hpc
              obtain rfl := Overlap.Pc.updating.inj hpc
              exact ⟨rfl, rfl, f, _, _, _, hf, hop, hcode, rfl⟩
          | stop hop hcode => exact (hnone (by simp [coarse, hf, hcode])).elim
          | @clock k v hop hcode hfound hstored =>
              have hacts : coarse R s (.step c') =
                  [.enter c' (R.event ⟨c', .stop k, s.clock⟩), .step c'] := by
                simp [coarse, heard, hf, hcode, hop, System.Void, Op.isStop, Op.key, hstored]
              rw [hacts] at hmem
              exact absurd hpc (not_updating_of_entered (R.view_stop c' k s.clock) hmem)
          | found hop hcode =>
              obtain ⟨rfl, rfl⟩ := hone (by cases deleteFirst <;> simp [coarse, hf, hcode, writes])
              rw [hpc'] at hpc
              contradiction
          | half hop hcode =>
              obtain ⟨rfl, rfl⟩ := hone (by cases deleteFirst <;> simp [coarse, hf, hcode, writes])
              rw [hpc'] at hpc
              contradiction
          | ended hcode => exact (hnone (by simp [coarse, hf, hcode])).elim

theorem noRefusal_coarseRun (R : Renders T W) (hcode : T.Splits deleteFirst)
    (hprivate : T.Private) {as : List (Act K P C)}
    (hlegal : (system T cap).Legal (rest K V P B C cap) as) (hno : NoRefusal T cap as) :
    Overlap.NoRefusal W deleteFirst (coarseRun R as) := by
  intro t c e k v hmem hpc hview
  obtain ⟨s, u, a, hin, -, hmirrors, htrace⟩ :=
    (simulates R hcode hprivate).of_mem_trace hlegal mirrors_rest hmem
  obtain ⟨rfl, rfl, f, k', p, now, hf, hop, hupdate, rfl⟩ := hmirrors.exists_updating htrace hpc
  rw [R.view_start, Event.start.injEq] at hview
  obtain ⟨rfl, -⟩ := hview
  rw [hmirrors.table]
  exact hno s c f k' p [] hin hf hop hupdate

end Lib.Handlers
