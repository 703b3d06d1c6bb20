import EbpfToy.Lib.Coarse
import EbpfToy.Theorems.Clocks
import EbpfToy.Theorems.Interleaving

/-!
# runqlat's clocks on several CPUs

`Interleaving` has the clock that a handler reads in its event, and lets no two
handlers be for one thread. Its machine simulates that of `Runqlat.code`, where
reading the clock is an access like the others, and switches to a thread that
has no start may overlap: when several CPUs go idle at once, they all switch to
thread 0. Over there such a switch begins and ends at once, when it begins here.
-/

namespace EbpfToy.Interleaving

open Lib Runqlat

variable {cpus cap : Nat}

/-- runqlat's handlers, access by access. -/
abbrev Fine (cpus cap : Nat) :=
  Handlers.System UInt64 UInt64 Unit (Fin cpus × Fin maxSlots) (Fin cpus) cap

/-- The event of a handler that has read the clock. -/
def event {cpus : Nat} : Handlers.Reading UInt64 Unit (Fin cpus) → Ev cpus
  | ⟨cpu, .start k _, now⟩ => .wakeup cpu now k.toUInt32
  | ⟨cpu, .stop k, now⟩ => .switch cpu now k.toUInt32

theorem toUInt32_keyOf (tid : UInt32) : (keyOf tid).toUInt32 = tid := by simp [keyOf]

/-- The key of a handler is that of a thread. -/
def OfThread : Handlers.Act UInt64 Unit (Fin cpus) → Prop
  | .enter _ op => ∃ tid, op.key = keyOf tid
  | _ => True

instance : (a : Handlers.Act UInt64 Unit (Fin cpus)) → Decidable (OfThread a)
  | .tick _ => inferInstanceAs (Decidable True)
  | .enter _ op => decidable_of_iff (op.key = keyOf op.key.toUInt32) (by
      constructor
      · exact fun h => ⟨_, h⟩
      · rintro ⟨tid, h⟩
        rw [h, toUInt32_keyOf])
  | .step _ => inferInstanceAs (Decidable True)

/-- What an action is in `system`. -/
def coarse (s : Fine cpus cap) : Handlers.Act UInt64 Unit (Fin cpus) → List (Act cpus)
  | .tick _ => []
  | .enter cpu op =>
      (Handlers.heard s (.enter cpu op)).flatMap fun r => [.readClock (event r), .step cpu]
  | .step cpu =>
      match s.pc cpu with
      | none => []
      | some f =>
          match f.code with
          | [] => []
          | .clock :: _ => (Handlers.heard s (.step cpu)).map fun r => .readClock (event r)
          | .lookup :: _ => if s.Void f.op then [] else [.step cpu]
          | _ :: _ => [.step cpu]

/-- Where a CPU in the handler `f` is in `system`. -/
inductive Follows (s : Fine cpus cap) (f : Handlers.Frame UInt64 UInt64 Unit) : Pc → Prop where
  | start {tid : UInt32} (op : f.op = .start (keyOf tid) ()) (code : f.code = [.clock, .update]) :
      Follows s f .idle
  | updating {tid : UInt32} {now : UInt64} (op : f.op = .start (keyOf tid) ())
      (code : f.code = [.update]) (read : f.now = some now) : Follows s f (.updating now tid)
  | stop {tid : UInt32} (op : f.op = .stop (keyOf tid))
      (code : f.code = [.clock, .lookup, .increment, .delete]) (found : f.found = none)
      (cnt : f.cnt = none) : Follows s f .idle
  | void {tid : UInt32} (op : f.op = .stop (keyOf tid))
      (code : f.code = [.lookup, .increment, .delete])
      (stored : s.table.lookup (keyOf tid) = none) : Follows s f .idle
  | lookingUp {tid : UInt32} {now tsp : UInt64} (op : f.op = .stop (keyOf tid))
      (code : f.code = [.lookup, .increment, .delete]) (read : f.now = some now)
      (cnt : f.cnt = none) (stored : s.table.lookup (keyOf tid) = some tsp) :
      Follows s f (.lookingUp now tid)
  | loading {tid : UInt32} {now tsp : UInt64} (op : f.op = .stop (keyOf tid))
      (code : f.code = [.increment, .delete]) (read : f.now = some now)
      (found : f.found = some tsp) (cnt : f.cnt = none) :
      Follows s f (.loading now tid (log2BucketU64 (now - tsp)))
  | storing {tid : UInt32} {now tsp cnt : UInt64} (op : f.op = .stop (keyOf tid))
      (code : f.code = [.increment, .delete]) (read : f.now = some now)
      (found : f.found = some tsp) (loaded : f.cnt = some cnt) :
      Follows s f (.storing now tid (log2BucketU64 (now - tsp)) cnt)
  | deleting {tid : UInt32} {now tsp : UInt64} (op : f.op = .stop (keyOf tid))
      (code : f.code = [.delete]) (read : f.now = some now) (found : f.found = some tsp) :
      Follows s f (.deleting now tid)
  | ended (code : f.code = []) : Follows s f .idle

/-- A CPU, which may be in no handler, in both machines. -/
abbrev Placed (s : Fine cpus cap) (cpu : Fin cpus) (p : Pc) : Prop :=
  s.Placed cpu .idle (Follows s) p

/-- The state `t` of `system` goes with `s`. -/
structure Mirrors (s : Fine cpus cap) (t : System cpus cap) : Prop where
  inv : Handlers.Inv (code cpus) s
  table : t.maps.startTs = s.table
  cell : ∀ cpu b, (t.maps.hist cpu).value b = s.cell (cpu, b)
  placed : ∀ cpu, Placed s cpu (t.pc cpu)

theorem mirrors_rest : Mirrors (Handlers.rest ..) (rest : System cpus cap) where
  inv := Handlers.inv_rest
  table := rfl
  cell _ _ := rfl
  placed _ := rfl

/-- A handler that is in progress over there is for its thread, and finds
something. -/
theorem Follows.of_handler {s : Fine cpus cap} {f : Handlers.Frame UInt64 UInt64 Unit} {p : Pc}
    (h : Follows s f p) {cpu : Fin cpus} {e : Ev cpus} (he : p.handler cpu = some e) :
    f.op.key = keyOf e.tid ∧ ¬ s.FindsNothing f := by
  cases h with
  | start => contradiction
  | stop => contradiction
  | void => contradiction
  | ended => contradiction
  | updating hop =>
      obtain rfl := Option.some.inj he
      refine ⟨by rw [hop]; rfl, fun hfinds => ?_⟩
      have hstop := hfinds.1.1
      rw [hop] at hstop
      contradiction
  | lookingUp hop _ _ _ hstored =>
      obtain rfl := Option.some.inj he
      refine ⟨by rw [hop]; rfl, fun hfinds => ?_⟩
      have hnone := hfinds.1.2
      rw [hop] at hnone
      exact absurd (hnone.symm.trans hstored) (Option.some_ne_none _).symm
  | loading hop _ _ hfound =>
      obtain rfl := Option.some.inj he
      refine ⟨by rw [hop]; rfl, fun hfinds => ?_⟩
      exact absurd (hfinds.2.symm.trans hfound) (Option.some_ne_none _).symm
  | storing hop _ _ hfound =>
      obtain rfl := Option.some.inj he
      refine ⟨by rw [hop]; rfl, fun hfinds => ?_⟩
      exact absurd (hfinds.2.symm.trans hfound) (Option.some_ne_none _).symm
  | deleting hop _ _ hfound =>
      obtain rfl := Option.some.inj he
      refine ⟨by rw [hop]; rfl, fun hfinds => ?_⟩
      exact absurd (hfinds.2.symm.trans hfound) (Option.some_ne_none _).symm

/-- Only what is stored under its key matters to a handler. -/
theorem Follows.frame {s s' : Fine cpus cap} {f : Handlers.Frame UInt64 UInt64 Unit} {p : Pc}
    (h : Follows s f p) (hsame : s'.table.lookup f.op.key = s.table.lookup f.op.key) :
    Follows s' f p := by
  cases h with
  | start hop hcode => exact .start hop hcode
  | updating hop hcode hread => exact .updating hop hcode hread
  | stop hop hcode hfound hcnt => exact .stop hop hcode hfound hcnt
  | void hop hcode hstored =>
      rw [hop] at hsame
      exact .void hop hcode (hsame.trans hstored)
  | lookingUp hop hcode hread hcnt hstored =>
      rw [hop] at hsame
      exact .lookingUp hop hcode hread hcnt (hsame.trans hstored)
  | loading hop hcode hread hfound hcnt => exact .loading hop hcode hread hfound hcnt
  | storing hop hcode hread hfound hcnt => exact .storing hop hcode hread hfound hcnt
  | deleting hop hcode hread hfound => exact .deleting hop hcode hread hfound
  | ended hcode => exact .ended hcode

theorem Placed.frame {s s' : Fine cpus cap} {cpu : Fin cpus} {p : Pc} (h : Placed s cpu p)
    (hpc : s'.pc cpu = s.pc cpu)
    (hsame : ∀ f, s.pc cpu = some f → s'.table.lookup f.op.key = s.table.lookup f.op.key) :
    Placed s' cpu p :=
  Handlers.System.Placed.frame h hpc fun f hf hfollows => hfollows.frame (hsame f hf)

/-- A CPU takes a step in both machines. -/
theorem Mirrors.move {s : Fine cpus cap} {t : System cpus cap} (h : Mirrors s t)
    {cpu : Fin cpus} {f : Handlers.Frame UInt64 UInt64 Unit} (hf : s.pc cpu = some f) {p : Pc}
    {m : Maps cpus cap}
    (htable : m.startTs = (Handlers.stepAgent (code cpus) cpu s).table)
    (hcell : ∀ c b, (m.hist c).value b = (Handlers.stepAgent (code cpus) cpu s).cell (c, b))
    (hplaced : Placed (Handlers.stepAgent (code cpus) cpu s) cpu p) :
    Mirrors (Handlers.stepAgent (code cpus) cpu s) ⟨Function.update t.pc cpu p, m⟩ where
  inv := h.inv.step (private_code cpus) (a := .step cpu)
    (by rw [Handlers.Allowed, hf]; exact Option.some_ne_none f)
  table := htable
  cell := hcell
  placed := by
    intro c
    show Placed _ c (Function.update t.pc cpu p c)
    by_cases hc : c = cpu
    · rw [hc, Function.update_self]
      exact hplaced
    · rw [Function.update_of_ne hc]
      exact (h.placed c).frame (Handlers.pc_stepAgent_of_ne s hc) fun f hf =>
        h.inv.lookup_stepAgent hf hc

/-- A handler may begin over there, if those for its thread find nothing here. -/
theorem Mirrors.allowed_readClock {s : Fine cpus cap} {t : System cpus cap} (h : Mirrors s t)
    {e : Ev cpus} (hidle : t.pc e.cpu = .idle)
    (hbeside : ∀ cpu f, cpu ≠ e.cpu → s.pc cpu = some f → f.op.key = keyOf e.tid →
      s.FindsNothing f) : Allowed t (.readClock e) := by
  refine ⟨by rw [System.busy, hidle]; rfl, fun cpu e' he' htid => ?_⟩
  have hne : cpu ≠ e.cpu := by
    rintro rfl
    rw [System.busy, hidle] at he'
    contradiction
  have hplaced := h.placed cpu
  have hbusy : (t.pc cpu).handler cpu = some e' := he'
  cases hf : s.pc cpu with
  | none =>
      replace hplaced := (Handlers.placed_of_idle hf).mp hplaced
      rw [hplaced] at hbusy
      contradiction
  | some f =>
      replace hplaced := (Handlers.placed_of_pc hf).mp hplaced
      obtain ⟨hkey, hfinds⟩ := hplaced.of_handler hbusy
      exact hfinds (hbeside cpu f hne hf (by rw [hkey, htid]))

/-! ## The steps -/

/-- `system` answers the action `a`. -/
abbrev Answers (s : Fine cpus cap) (t : System cpus cap)
    (a : Handlers.Act UInt64 Unit (Fin cpus)) : Prop :=
  (system cpus cap).Legal t (coarse s a) ∧
    Mirrors (Handlers.step (code cpus) s a) ((system cpus cap).exec t (coarse s a))

section Steps

variable {s : Fine cpus cap} {t : System cpus cap} {cpu : Fin cpus}
  {f : Handlers.Frame UInt64 UInt64 Unit} {tid : UInt32}

theorem Mirrors.tick (h : Mirrors s t) {now : UInt64} (hle : s.clock ≤ now) :
    Answers s t (.tick now) :=
  ⟨trivial, h.inv.tick hle, h.table, h.cell, fun cpu => (h.placed cpu).frame rfl fun _ _ => rfl⟩

/-- A handler begins: a switch that finds nothing is over at once. -/
theorem Mirrors.enter (h : Mirrors s t) {op : Handlers.Op UInt64 Unit}
    (hallowed : Handlers.Allowed s (.enter cpu op)) (htid : op.key = keyOf tid) :
    Answers s t (.enter cpu op) := by
  obtain ⟨hfree, hbeside⟩ := hallowed
  have hidle : t.pc cpu = .idle := (Handlers.placed_of_idle hfree).mp (h.placed cpu)
  -- here the handler has begun, and has read nothing
  have hstep : Mirrors (Handlers.step (code cpus) s (.enter cpu op)) t := by
    refine ⟨h.inv.enter hbeside, h.table, h.cell, fun c => ?_⟩
    by_cases hc : c = cpu
    · subst hc
      rw [hidle]
      apply Handlers.placed_goto
      cases op with
      | start k p =>
          obtain rfl : k = keyOf tid := htid
          exact .start rfl rfl
      | stop k =>
          obtain rfl : k = keyOf tid := htid
          exact .stop rfl rfl rfl rfl
    · exact (h.placed c).frame (Function.update_of_ne hc _ _) fun _ _ => rfl
  by_cases hvoid : s.Void op
  · -- and there it begins and finds nothing
    obtain rfl : op = .stop (keyOf tid) := by
      cases op with
      | start k p => exact absurd hvoid.1 Bool.false_ne_true
      | stop k => exact congrArg Handlers.Op.stop htid
    have hacts : coarse s (.enter cpu (.stop (keyOf tid))) =
        [.readClock (.switch cpu s.clock tid), .step cpu] := by
      simp [coarse, Handlers.heard, hvoid, event, toUInt32_keyOf]
    have hl : t.maps.startTs.lookup (keyOf tid) = none := by
      rw [h.table]
      exact hvoid.2
    have hend : (system cpus cap).exec t [.readClock (.switch cpu s.clock tid), .step cpu] = t := by
      show stepCpu cpu ⟨Function.update t.pc cpu (.lookingUp s.clock tid), t.maps⟩ = t
      simp only [stepCpu, Function.update_self, hl, Function.update_idem]
      rw [← hidle, Function.update_eq_self]
    rw [Answers, hacts, hend]
    refine ⟨⟨h.allowed_readClock (e := .switch cpu s.clock tid) hidle
      fun c f _ hf hkey => (hbeside c f hf hkey).2, ?_, trivial⟩, hstep⟩
    show System.busy ⟨Function.update t.pc cpu (.lookingUp s.clock tid), t.maps⟩ cpu ≠ none
    simp [System.busy, Pc.handler]
  · have hacts : coarse s (.enter cpu op) = [] := by simp [coarse, Handlers.heard, hvoid]
    rw [Answers, hacts]
    exact ⟨trivial, hstep⟩

/-- A step that `system` does not take. -/
theorem Mirrors.silent (h : Mirrors s t) (hf : s.pc cpu = some f) (hidle : t.pc cpu = .idle)
    (hacts : coarse s (.step cpu) = [])
    (htable : (Handlers.stepAgent (code cpus) cpu s).table = s.table)
    (hcell : (Handlers.stepAgent (code cpus) cpu s).cell = s.cell)
    (hplaced : Placed (Handlers.stepAgent (code cpus) cpu s) cpu .idle) :
    Answers s t (.step cpu) := by
  have hend : (system cpus cap).exec t [] = ⟨Function.update t.pc cpu .idle, t.maps⟩ := by
    rw [← hidle, Function.update_eq_self]
    rfl
  rw [Answers, hacts, hend]
  refine ⟨trivial, h.move hf ?_ ?_ hplaced⟩
  · rw [htable, h.table]
  · rw [hcell]
    exact h.cell

/-- A handler reads the clock, and begins over there. -/
theorem Mirrors.clock (h : Mirrors s t) (hf : s.pc cpu = some f) (hidle : t.pc cpu = .idle)
    {rest : List Handlers.Access} (hcode : f.code = .clock :: rest) {e : Ev cpus}
    (hcpu : e.cpu = cpu) (hkey : f.op.key = keyOf e.tid)
    (hacts : coarse s (.step cpu) = [.readClock e])
    (hplaced : Follows (Handlers.stepAgent (code cpus) cpu s)
      { f with code := rest, now := some s.clock } (entered e)) : Answers s t (.step cpu) := by
  subst hcpu
  have hstep : Handlers.stepAgent (code cpus) e.cpu s =
      s.goto e.cpu (some { f with code := rest, now := some s.clock }) :=
    Handlers.stepAgent_of_cons hf hcode
  have hend : (system cpus cap).exec t [.readClock e] =
      ⟨Function.update t.pc e.cpu (entered e), t.maps⟩ := rfl
  rw [Answers, hacts, hend]
  refine ⟨⟨h.allowed_readClock hidle fun c f' hne hf' hkey' => ?_, trivial⟩,
    h.move hf ?_ ?_ ?_⟩
  · exact h.inv.apart c e.cpu f' f hf' hf hne (hkey'.trans hkey.symm)
  · rw [hstep]
    exact h.table
  · rw [hstep]
    exact h.cell
  · refine (Handlers.placed_of_pc ?_).mpr hplaced
    rw [hstep]
    exact Function.update_self e.cpu _ _

/-- A step that both machines take. -/
theorem Mirrors.both (h : Mirrors s t) (hf : s.pc cpu = some f) {p q : Pc} {m : Maps cpus cap}
    (hpc : t.pc cpu = p) (hhandler : p.handler cpu ≠ none)
    (hacts : coarse s (.step cpu) = [.step cpu])
    (hend : stepCpu cpu t = ⟨Function.update t.pc cpu q, m⟩)
    (htable : m.startTs = (Handlers.stepAgent (code cpus) cpu s).table)
    (hcell : ∀ c b, (m.hist c).value b = (Handlers.stepAgent (code cpus) cpu s).cell (c, b))
    (hplaced : Placed (Handlers.stepAgent (code cpus) cpu s) cpu q) :
    Answers s t (.step cpu) := by
  have hmirrors := h.move hf htable hcell hplaced
  rw [← hend] at hmirrors
  have hbusy : t.busy cpu ≠ none := by rwa [System.busy, hpc]
  rw [Answers, hacts]
  exact ⟨⟨hbusy, trivial⟩, hmirrors⟩

/-- A wakeup stores its reading. -/
theorem Mirrors.updating (h : Mirrors s t) (hf : s.pc cpu = some f) {now : UInt64}
    (hop : f.op = .start (keyOf tid) ()) (hcode : f.code = [.update]) (hread : f.now = some now)
    (hpc : t.pc cpu = .updating now tid) : Answers s t (.step cpu) := by
  have hstep : Handlers.stepAgent (code cpus) cpu s =
      (s.goto cpu (some { f with code := [] })).write (code cpus) f :=
    Handlers.stepAgent_of_cons hf hcode
  have hwrite : (Handlers.stepAgent (code cpus) cpu s).table = s.table.update (keyOf tid) now ∧
      (Handlers.stepAgent (code cpus) cpu s).cell = s.cell ∧
      (Handlers.stepAgent (code cpus) cpu s).pc cpu = some { f with code := [] } := by
    rw [hstep]
    simp [Handlers.System.write, hop, hread, Handlers.System.goto, code]
  refine h.both hf hpc (by simp [Pc.handler]) (by simp [coarse, hf, hcode]) (q := .idle)
    (by simp [stepCpu, hpc]; rfl) ?_ ?_ ?_
  · rw [hwrite.1, h.table]
  · rw [hwrite.2.1]
    exact h.cell
  · exact (Handlers.placed_of_pc hwrite.2.2).mpr (.ended rfl)

/-- A switch looks its thread's start up. -/
theorem Mirrors.lookingUp (h : Mirrors s t) (hf : s.pc cpu = some f) {now tsp : UInt64}
    (hop : f.op = .stop (keyOf tid)) (hcode : f.code = [.lookup, .increment, .delete])
    (hread : f.now = some now) (hcnt : f.cnt = none)
    (hstored : s.table.lookup (keyOf tid) = some tsp) (hpc : t.pc cpu = .lookingUp now tid) :
    Answers s t (.step cpu) := by
  have hkey : f.op.key = keyOf tid := by rw [hop]; rfl
  have hstep : Handlers.stepAgent (code cpus) cpu s =
      s.goto cpu (some { f with code := [.increment, .delete], found := some tsp }) := by
    rw [Handlers.stepAgent_of_cons hf hcode, Handlers.perform, hkey, hstored]
  have hl : t.maps.startTs.lookup (keyOf tid) = some tsp := by rw [h.table, hstored]
  refine h.both hf hpc (by simp [Pc.handler])
    (by simp [coarse, hf, hcode, Handlers.System.Void, hkey, hstored])
    (q := .loading now tid (log2BucketU64 (now - tsp))) (m := t.maps)
    (by simp [stepCpu, hpc, hl]) ?_ ?_ ?_
  · rw [hstep]
    exact h.table
  · rw [hstep]
    exact h.cell
  · rw [hstep]
    exact Handlers.placed_goto (.loading hop rfl hread rfl hcnt)

/-- The two readings of a switch that has found its start. -/
theorem span_of_found {f : Handlers.Frame UInt64 UInt64 Unit} {now tsp : UInt64}
    (hop : f.op = .stop (keyOf tid)) (hread : f.now = some now) (hfound : f.found = some tsp) :
    f.span (code cpus) = some (tsp, now) := by
  simp [Handlers.Frame.span, hop, hread, hfound, code]

/-- The load of a counter. -/
theorem Mirrors.loading (h : Mirrors s t) (hf : s.pc cpu = some f) {now tsp : UInt64}
    (hop : f.op = .stop (keyOf tid)) (hcode : f.code = [.increment, .delete])
    (hread : f.now = some now) (hfound : f.found = some tsp) (hcnt : f.cnt = none)
    (hpc : t.pc cpu = .loading now tid (log2BucketU64 (now - tsp))) :
    Answers s t (.step cpu) := by
  have hspan : f.span (code cpus) = some (tsp, now) := span_of_found hop hread hfound
  have hstep : Handlers.stepAgent (code cpus) cpu s =
      s.goto cpu (some { f with cnt := some (s.cell (cpu, slot (now - tsp))) }) := by
    rw [Handlers.stepAgent_of_cons hf hcode, Handlers.perform, hspan, hcnt]
    rfl
  have hload : (t.maps.hist cpu).lookup (log2BucketU64 (now - tsp)) =
      some (s.cell (cpu, slot (now - tsp))) := by
    rw [ArrayMap.lookup_of_lt _ (log2BucketU64_lt _), ← h.cell]
    rfl
  refine h.both hf hpc (by simp [Pc.handler]) (by simp [coarse, hf, hcode])
    (q := .storing now tid (log2BucketU64 (now - tsp)) (s.cell (cpu, slot (now - tsp))))
    (m := t.maps) (by simp [stepCpu, hpc, hload]) ?_ ?_ ?_
  · rw [hstep]
    exact h.table
  · rw [hstep]
    exact h.cell
  · rw [hstep]
    exact Handlers.placed_goto (.storing hop hcode hread hfound rfl)

/-- The store of a counter. -/
theorem Mirrors.storing (h : Mirrors s t) (hf : s.pc cpu = some f) {now tsp cnt : UInt64}
    (hop : f.op = .stop (keyOf tid)) (hcode : f.code = [.increment, .delete])
    (hread : f.now = some now) (hfound : f.found = some tsp) (hcnt : f.cnt = some cnt)
    (hpc : t.pc cpu = .storing now tid (log2BucketU64 (now - tsp)) cnt) :
    Answers s t (.step cpu) := by
  have hspan : f.span (code cpus) = some (tsp, now) := span_of_found hop hread hfound
  have hstep : Handlers.stepAgent (code cpus) cpu s =
      (s.goto cpu (some { f with code := [.delete], cnt := none })).count (code cpus) cpu f
        (tsp, now) (cnt + 1) := by
    rw [Handlers.stepAgent_of_cons hf hcode, Handlers.perform, hspan, hcnt]
  refine h.both hf hpc (by simp [Pc.handler]) (by simp [coarse, hf, hcode])
    (q := .deleting now tid) (by simp [stepCpu, hpc]; rfl) ?_ ?_ ?_
  · rw [hstep]
    exact h.table
  · intro c b
    rw [hstep]
    show (Function.update t.maps.hist cpu _ c).value b =
      Function.update s.cell (cpu, slot (now - tsp)) (cnt + 1) (c, b)
    by_cases hc : c = cpu
    · subst hc
      rw [Function.update_self, ArrayMap.value_store]
      by_cases hb : b.val = (log2BucketU64 (now - tsp)).toNat
      · obtain rfl : b = slot (now - tsp) := Fin.ext hb
        rw [if_pos hb, Function.update_self]
      · have hne : (c, b) ≠ (c, slot (now - tsp)) := fun heq =>
          hb (congrArg Fin.val (congrArg Prod.snd heq))
        rw [if_neg hb, Function.update_of_ne hne]
        exact h.cell c b
    · have hne : (c, b) ≠ (cpu, slot (now - tsp)) := fun heq => hc (congrArg Prod.fst heq)
      rw [Function.update_of_ne hc, Function.update_of_ne hne]
      exact h.cell c b
  · refine (Handlers.placed_of_pc ?_).mpr
      (.deleting (f := { f with code := [.delete], cnt := none }) hop rfl hread hfound)
    rw [hstep]
    exact Function.update_self cpu _ _

/-- A switch deletes its thread's start. -/
theorem Mirrors.deleting (h : Mirrors s t) (hf : s.pc cpu = some f) {now : UInt64}
    (hop : f.op = .stop (keyOf tid)) (hcode : f.code = [.delete])
    (hpc : t.pc cpu = .deleting now tid) : Answers s t (.step cpu) := by
  have hkey : f.op.key = keyOf tid := by rw [hop]; rfl
  have hstep : Handlers.stepAgent (code cpus) cpu s =
      (s.goto cpu (some { f with code := [] })).erase f := Handlers.stepAgent_of_cons hf hcode
  refine h.both hf hpc (by simp [Pc.handler]) (by simp [coarse, hf, hcode])
    (q := .idle) (by simp [stepCpu, hpc]; rfl) ?_ ?_ ?_
  · rw [hstep, Handlers.System.erase, hkey]
    show t.maps.startTs.delete (keyOf tid) = s.table.delete (keyOf tid)
    rw [h.table]
  · rw [hstep]
    exact h.cell
  · refine (Handlers.placed_of_pc ?_).mpr (.ended (f := { f with code := [] }) rfl)
    rw [hstep]
    exact Function.update_self cpu _ _

/-- The events of the handlers that read the clock. -/
theorem coarse_clock (hf : s.pc cpu = some f) {rest : List Handlers.Access}
    (hcode : f.code = .clock :: rest) (hvoid : ¬ s.Void f.op) :
    coarse s (.step cpu) = [.readClock (event ⟨cpu, f.op, s.clock⟩)] := by
  simp [coarse, Handlers.heard, hf, hcode, hvoid]

/-- A handler that finds nothing, or has returned, is no longer over there. -/
theorem coarse_silent (hf : s.pc cpu = some f) (hcode : f.code = [] ∨ s.Void f.op ∧
    (f.code.head? = some .clock ∨ f.code.head? = some .lookup)) : coarse s (.step cpu) = [] := by
  rcases hcode with hnil | ⟨hvoid, hhead⟩
  · simp [coarse, hf, hnil]
  · cases hcode : f.code with
    | nil => simp [coarse, hf, hcode]
    | cons a rest =>
        rw [hcode, List.head?_cons, Option.some_inj, Option.some_inj] at hhead
        rcases hhead with rfl | rfl <;> simp [coarse, Handlers.heard, hf, hcode, hvoid]

theorem Mirrors.stepAgent (h : Mirrors s t) (hbusy : s.pc cpu ≠ none) :
    Answers s t (.step cpu) := by
  have hplaced := h.placed cpu
  cases hf : s.pc cpu with
  | none => contradiction
  | some f =>
      replace hplaced := (Handlers.placed_of_pc hf).mp hplaced
      generalize hpc : t.pc cpu = p at hplaced
      cases hplaced with
      | @start tid hop hcode =>
          refine h.clock hf hpc hcode (e := .wakeup cpu s.clock tid) rfl (by rw [hop]; rfl) ?_
            (.updating hop rfl rfl)
          rw [coarse_clock hf hcode (by simp [Handlers.System.Void, hop, Handlers.Op.isStop]), hop,
            event, toUInt32_keyOf]
      | updating hop hcode hread => exact h.updating hf hop hcode hread hpc
      | @stop tid hop hcode hfound hcnt =>
          have hkey : f.op.key = keyOf tid := by rw [hop]; rfl
          have hstep : Handlers.stepAgent (code cpus) cpu s = s.goto cpu
              (some { f with code := [.lookup, .increment, .delete], now := some s.clock }) :=
            Handlers.stepAgent_of_cons hf hcode
          cases hl : s.table.lookup (keyOf tid) with
          | none =>
              have hvoid : s.Void f.op := ⟨by rw [hop]; rfl, by rw [hkey, hl]⟩
              refine h.silent hf hpc (coarse_silent hf (.inr ⟨hvoid, .inl (by rw [hcode]; rfl)⟩))
                (by rw [hstep]; rfl) (by rw [hstep]; rfl) ?_
              rw [hstep]
              exact Handlers.placed_goto (.void hop rfl hl)
          | some tsp =>
              have hvoid : ¬ s.Void f.op := by simp [Handlers.System.Void, hkey, hl]
              refine h.clock hf hpc hcode (e := .switch cpu s.clock tid) rfl hkey ?_ ?_
              · rw [coarse_clock hf hcode hvoid, hop, event, toUInt32_keyOf]
              · rw [hstep]
                exact .lookingUp hop rfl rfl hcnt hl
      | @void tid hop hcode hstored =>
          have hkey : f.op.key = keyOf tid := by rw [hop]; rfl
          have hvoid : s.Void f.op := ⟨by rw [hop]; rfl, by rw [hkey, hstored]⟩
          have hstep : Handlers.stepAgent (code cpus) cpu s =
              s.goto cpu (some { f with code := [] }) := by
            rw [Handlers.stepAgent_of_cons hf hcode, Handlers.perform, hkey, hstored]
          refine h.silent hf hpc (coarse_silent hf (.inr ⟨hvoid, .inr (by rw [hcode]; rfl)⟩))
            (by rw [hstep]; rfl) (by rw [hstep]; rfl) ?_
          rw [hstep]
          exact Handlers.placed_goto (.ended rfl)
      | lookingUp hop hcode hread hcnt hstored =>
          exact h.lookingUp hf hop hcode hread hcnt hstored hpc
      | loading hop hcode hread hfound hcnt => exact h.loading hf hop hcode hread hfound hcnt hpc
      | storing hop hcode hread hfound hcnt => exact h.storing hf hop hcode hread hfound hcnt hpc
      | deleting hop hcode => exact h.deleting hf hop hcode hpc
      | ended hcode =>
          have hstep : Handlers.stepAgent (code cpus) cpu s = s.goto cpu none :=
            Handlers.stepAgent_of_nil hf hcode
          refine h.silent hf hpc (coarse_silent hf (.inl hcode)) (by rw [hstep]; rfl)
            (by rw [hstep]; rfl) ?_
          rw [hstep]
          exact (Handlers.placed_of_idle (Function.update_self cpu _ _)).mpr rfl

end Steps

/-! ## Runs -/

/-- runqlat's handlers, run for threads only. -/
abbrev threads (cpus cap : Nat) :
    Machine (Fine cpus cap) (Handlers.Act UInt64 Unit (Fin cpus)) :=
  (Handlers.system (code cpus) cap).guard OfThread

/-- `system` simulates them. -/
theorem simulates (cpus cap : Nat) :
    (threads cpus cap).Simulates (system cpus cap) coarse Mirrors := by
  intro s t a h hallowed
  cases a with
  | tick now => exact h.tick hallowed.1
  | enter cpu op =>
      obtain ⟨tid, htid⟩ := hallowed.2
      exact h.enter hallowed.1 htid
  | step cpu => exact h.stepAgent hallowed.1

/-- The run of `system` that goes with a run. -/
def coarseRun (cap : Nat) (as : List (Handlers.Act UInt64 Unit (Fin cpus))) : List (Act cpus) :=
  (threads cpus cap).shadow coarse (Handlers.rest ..) as

/-- A legal run, whose handlers are for threads. -/
def ThreadRun (cap : Nat) (as : List (Handlers.Act UInt64 Unit (Fin cpus))) : Prop :=
  (Handlers.system (code cpus) cap).Legal (Handlers.rest ..) as ∧ ∀ a ∈ as, OfThread a

theorem ThreadRun.legal {as : List (Handlers.Act UInt64 Unit (Fin cpus))}
    (h : ThreadRun cap as) : (threads cpus cap).Legal (Handlers.rest ..) as := h.1.guard h.2

theorem mirrors_of_legal {as : List (Handlers.Act UInt64 Unit (Fin cpus))}
    (h : ThreadRun cap as) :
    (system cpus cap).Legal rest (coarseRun cap as) ∧
      Mirrors ((Handlers.system (code cpus) cap).exec (Handlers.rest ..) as)
        ((system cpus cap).exec rest (coarseRun cap as)) :=
  (simulates cpus cap).run h.legal mirrors_rest

/-- The handlers that begin over there are those that have read their time here. -/
theorem begun_coarseRun (as : List (Handlers.Act UInt64 Unit (Fin cpus))) :
    begun (coarseRun cap as) = (Handlers.history (code cpus) cap as).map event := by
  have hone : ∀ (s : Fine cpus cap) (a : Handlers.Act UInt64 Unit (Fin cpus)),
      begun (coarse s a) = (Handlers.heard s a).map event := by
    intro s a
    cases a with
    | tick now => rfl
    | enter cpu op =>
        by_cases hvoid : s.Void op <;> simp [coarse, Handlers.heard, hvoid, begun]
    | step cpu =>
        cases hf : s.pc cpu with
        | none => simp [coarse, Handlers.heard, hf, begun]
        | some f =>
            cases hcode : f.code with
            | nil => simp [coarse, Handlers.heard, hf, hcode, begun]
            | cons a rest =>
                by_cases hvoid : s.Void f.op <;> cases a <;>
                  simp [coarse, Handlers.heard, hf, hcode, hvoid, begun]
  rw [coarseRun, Machine.shadow, Machine.trace_guard, Handlers.history, begun,
    List.filterMap_flatMap, List.map_flatMap]
  congr 1
  funext x
  exact hone x.1 x.2

/-- A switch that begins over there is not about to update. -/
theorem not_updating_of_switch {t u : System cpus cap} {cpu cpu' : Fin cpus}
    {now now' : UInt64} {tid tid' : UInt32}
    (hmem : (u, .step cpu) ∈
      (system cpus cap).trace t [.readClock (.switch cpu' now' tid'), .step cpu']) :
    u.pc cpu ≠ .updating now tid := by
  have htrace : (system cpus cap).trace t [.readClock (.switch cpu' now' tid'), .step cpu'] =
      [(t, .readClock (.switch cpu' now' tid')),
        (⟨Function.update t.pc cpu' (.lookingUp now' tid'), t.maps⟩, .step cpu')] := rfl
  rw [htrace, List.mem_cons, List.mem_singleton] at hmem
  rcases hmem with heq | heq
  · obtain ⟨-, hact⟩ := Prod.mk.inj heq
    contradiction
  · obtain ⟨rfl, hact⟩ := Prod.mk.inj heq
    obtain rfl := Act.step.inj hact
    simp

/-- An update over there is one here. -/
theorem Mirrors.exists_updating {s : Fine cpus cap} {t u : System cpus cap} (h : Mirrors s t)
    {a : Handlers.Act UInt64 Unit (Fin cpus)} (hthread : OfThread a) {cpu : Fin cpus}
    {now : UInt64} {tid : UInt32}
    (hmem : (u, .step cpu) ∈ (system cpus cap).trace t (coarse s a))
    (hpc : u.pc cpu = .updating now tid) :
    u = t ∧ a = .step cpu ∧ ∃ f, s.pc cpu = some f ∧ f.op = .start (keyOf tid) () ∧
      f.code = [.update] := by
  cases a with
  | tick now' => exact absurd hmem List.not_mem_nil
  | enter cpu' op =>
      obtain ⟨tid', htid⟩ := hthread
      by_cases hvoid : s.Void op
      · obtain rfl : op = .stop (keyOf tid') := by
          cases op with
          | start k p => exact absurd hvoid.1 Bool.false_ne_true
          | stop k => exact congrArg Handlers.Op.stop htid
        have hacts : coarse s (.enter cpu' (.stop (keyOf tid'))) =
            [.readClock (.switch cpu' s.clock tid'), .step cpu'] := by
          simp [coarse, Handlers.heard, hvoid, event, toUInt32_keyOf]
        rw [hacts] at hmem
        exact absurd hpc (not_updating_of_switch hmem)
      · have hacts : coarse s (.enter cpu' op) = [] := by simp [coarse, Handlers.heard, hvoid]
        rw [hacts] at hmem
        exact absurd hmem List.not_mem_nil
  | step cpu' =>
      -- over there one step is taken at most, unless a handler begins
      have hcases : coarse s (.step cpu') = [.step cpu'] ∨
          (u, .step cpu) ∉ (system cpus cap).trace t (coarse s (.step cpu')) := by
        cases hf : s.pc cpu' with
        | none => exact .inr (by simp [coarse, hf, Machine.trace])
        | some f =>
            cases hcode : f.code with
            | nil => exact .inr (by simp [coarse, hf, hcode, Machine.trace])
            | cons a rest =>
                by_cases hvoid : s.Void f.op <;> cases a <;>
                  simp [coarse, Handlers.heard, hf, hcode, hvoid, Machine.trace]
      rcases hcases with hacts | hnot
      · rw [hacts] at hmem
        obtain ⟨rfl, hact⟩ := Prod.mk.inj (List.mem_singleton.mp hmem)
        obtain rfl := Act.step.inj hact
        have hplaced := h.placed cpu
        cases hf : s.pc cpu with
        | none =>
            replace hplaced := (Handlers.placed_of_idle hf).mp hplaced
            rw [hpc] at hplaced
            contradiction
        | some f =>
            replace hplaced := (Handlers.placed_of_pc hf).mp hplaced
            rw [hpc] at hplaced
            cases hplaced with
            | updating hop hcode => exact ⟨rfl, rfl, f, rfl, hop, hcode⟩
      · exact absurd hmem hnot

end EbpfToy.Interleaving
