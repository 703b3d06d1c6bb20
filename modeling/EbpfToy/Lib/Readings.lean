import EbpfToy.Lib.Handlers
import EbpfToy.Lib.Serial

/-!
# The readings of a run

The handlers of a run, each with the time that it read, in the order in which
they read it (`history`). A stop that finds nothing does nothing with its
reading, and may read no clock at all: it stands where it began, with the time
it began. On each key the handlers stand in the order in which they began
(`serial_of_legal`), although they overlap with those on other keys.
-/

namespace Lib.Handlers

variable {K V P B C : Type} [DecidableEq K] [DecidableEq B] [DecidableEq C] {cap : Nat}

/-- A handler of a run, and the time it read. -/
structure Reading (K P C : Type) where
  agent : C
  op : Op K P
  now : UInt64

def Reading.handler {K P C : Type} (r : Reading K P C) : C × Op K P := (r.agent, r.op)

/-- The handlers that begin in a run. -/
def begun (as : List (Act K P C)) : List (C × Op K P) :=
  as.filterMap fun a => match a with
    | .enter c op => some (c, op)
    | _ => none

/-- The handler that reads its time in the action. -/
def heard (s : System K V P B C cap) : Act K P C → List (Reading K P C)
  | .tick _ => []
  | .enter c op => if s.Void op then [⟨c, op, s.clock⟩] else []
  | .step c =>
      match s.pc c with
      | none => []
      | some f => if f.code.head? = some .clock ∧ ¬ s.Void f.op then [⟨c, f.op, s.clock⟩] else []

/-- The handlers of a run with their readings. -/
def history (T : Code K V P B C) (cap : Nat) (as : List (Act K P C)) : List (Reading K P C) :=
  ((system T cap).trace (rest K V P B C cap) as).flatMap fun x => heard x.1 x.2

/-- No update of the table is refused along the run. -/
def NoRefusal (T : Code K V P B C) (cap : Nat) (as : List (Act K P C)) : Prop :=
  ∀ s c f k p rest', (s, .step c) ∈ (system T cap).trace (rest K V P B C cap) as →
    s.pc c = some f → f.op = .start k p → f.code = .update :: rest' → s.table.Accepts k

/-- A handler reads the clock, and before it writes. A start looks nothing up. -/
structure Code.ReadsFirst (T : Code K V P B C) : Prop where
  reads : ∀ op, .clock ∈ T.codeOf op
  once : ∀ op a rest, a :: rest <:+ T.codeOf op → a = .clock ∨ a = .update ∨ a = .delete →
    .clock ∉ rest
  start : .lookup ∉ T.start

variable {T : Code K V P B C}

omit [DecidableEq K] [DecidableEq B] [DecidableEq C] in
theorem readsFirst (hstart : T.start = [.clock, .update]) (hstop : T.StopsInOrder) :
    T.ReadsFirst where
  reads op := by
    cases op with
    | start k p => simp [Code.codeOf, hstart]
    | stop k => rcases hstop with h | h | h <;> simp [Code.codeOf, h]
  once op a rest hsuffix ha := by
    cases op with
    | start k p =>
        simp only [Code.codeOf, hstart, List.suffix_cons_iff, List.cons.injEq] at hsuffix
        rcases hsuffix with ⟨-, rfl⟩ | ⟨-, rfl⟩ | hnil <;> simp_all
    | stop k =>
        rcases hstop with h | h | h <;>
          simp only [Code.codeOf, h, List.suffix_cons_iff, List.cons.injEq] at hsuffix <;>
          rcases hsuffix with ⟨rfl, rfl⟩ | ⟨rfl, rfl⟩ | ⟨rfl, rfl⟩ | ⟨rfl, rfl⟩ | hnil <;>
          simp_all
  start := by simp [hstart]

/-! ## What an access does -/

/-- Only the handler's own key is touched. -/
theorem lookup_perform_of_ne {s : System K V P B C cap} {c : C} {f : Frame K V P}
    {rest : List Access} (a : Access) {k : K} (hk : k ≠ f.op.key) :
    (perform T c f rest s a).table.lookup k = s.table.lookup k := by
  cases a with
  | clock => rfl
  | update =>
      rcases write_cases T (s.goto c (some { f with code := rest })) f with
        hsame | ⟨k', p, now, hstart, -, -, hwrite⟩
      · exact congrArg (·.table.lookup k) hsame
      · have hne : k ≠ k' := by
          rw [hstart] at hk
          exact hk
        rw [show perform T c f rest s .update = _ from hwrite]
        exact BoundedMap.lookup_update_of_ne _ hne _
  | lookup =>
      unfold perform
      cases s.table.lookup f.op.key <;> rfl
  | delete => exact BoundedMap.lookup_delete_of_ne _ hk
  | fetchAdd =>
      unfold perform
      cases f.span T <;> rfl
  | increment =>
      unfold perform
      cases f.span T <;> cases f.cnt <;> rfl

/-- Before the writes the table stays as it is. -/
theorem table_perform {s : System K V P B C cap} {c : C} {f : Frame K V P}
    {rest : List Access} {a : Access} (ha : a ≠ .update) (ha' : a ≠ .delete) :
    (perform T c f rest s a).table = s.table := by
  cases a with
  | clock => rfl
  | update => contradiction
  | lookup =>
      unfold perform
      cases s.table.lookup f.op.key <;> rfl
  | delete => contradiction
  | fetchAdd =>
      unfold perform
      cases f.span T <;> rfl
  | increment =>
      unfold perform
      cases f.span T <;> cases f.cnt <;> rfl

/-- A stop that finds nothing leaves nothing. -/
theorem lookup_perform_of_void {s : System K V P B C cap} {c : C} {f : Frame K V P}
    {rest : List Access} (a : Access) (h : s.Void f.op) :
    (perform T c f rest s a).table.lookup f.op.key = none := by
  by_cases hupdate : a = .update
  · subst hupdate
    rcases write_cases T (s.goto c (some { f with code := rest })) f with
      hsame | ⟨k, p, now, hstart, -⟩
    · rw [show perform T c f rest s .update = _ from hsame]
      exact h.2
    · have hstop := h.1
      rw [hstart] at hstop
      contradiction
  · by_cases hdelete : a = .delete
    · subst hdelete
      exact BoundedMap.lookup_delete_self _ _
    · rw [table_perform hupdate hdelete]
      exact h.2

/-- Where the handler is after an access: it goes on, or it has found nothing,
or it has loaded a counter. -/
theorem pc_perform (s : System K V P B C cap) (c : C) {f : Frame K V P} {a : Access}
    {rest : List Access} (hcode : f.code = a :: rest) :
    ∃ g, (perform T c f rest s a).pc = Function.update s.pc c (some g) ∧ g.op = f.op ∧
      (g.code = rest ∨ a = .increment ∧ g.code = f.code ∨
        a = .lookup ∧ s.table.lookup f.op.key = none ∧ g.code = []) := by
  cases a with
  | clock => exact ⟨{ f with code := rest, now := some s.clock }, rfl, rfl, .inl rfl⟩
  | update =>
      refine ⟨{ f with code := rest }, ?_, rfl, .inl rfl⟩
      rcases write_cases T (s.goto c (some { f with code := rest })) f with
        hsame | ⟨k, p, now, -, -, -, hwrite⟩
      · exact congrArg (·.pc) hsame
      · exact congrArg (·.pc) hwrite
  | lookup =>
      unfold perform
      cases hl : s.table.lookup f.op.key with
      | none => exact ⟨{ f with code := [] }, rfl, rfl, .inr (.inr ⟨rfl, rfl, rfl⟩)⟩
      | some v => exact ⟨{ f with code := rest, found := some v }, rfl, rfl, .inl rfl⟩
  | delete => exact ⟨{ f with code := rest }, rfl, rfl, .inl rfl⟩
  | fetchAdd =>
      refine ⟨{ f with code := rest }, ?_, rfl, .inl rfl⟩
      unfold perform
      cases f.span T <;> rfl
  | increment =>
      unfold perform
      cases f.span T with
      | none => exact ⟨{ f with code := rest }, rfl, rfl, .inl rfl⟩
      | some span =>
          cases f.cnt with
          | none =>
              exact ⟨{ f with cnt := some (s.cell (T.cellOf c (span.2 - span.1))) }, rfl, rfl,
                .inr (.inl ⟨rfl, rfl⟩)⟩
          | some n => exact ⟨{ f with code := rest, cnt := none }, rfl, rfl, .inl rfl⟩

/-- What is stored for a handler is not touched by the others. -/
theorem Inv.lookup_stepAgent {s : System K V P B C cap} (h : Inv T s) {c c' : C}
    {f : Frame K V P} (hf : s.pc c' = some f) (hne : c' ≠ c) :
    (stepAgent T c s).table.lookup f.op.key = s.table.lookup f.op.key := by
  cases hpc : s.pc c with
  | none => rw [show stepAgent T c s = s by simp [stepAgent, hpc]]
  | some g =>
      cases hcode : g.code with
      | nil =>
          rw [stepAgent_of_nil hpc hcode]
          rfl
      | cons a rest =>
          rw [stepAgent_of_cons hpc hcode]
          by_cases hkey : f.op.key = g.op.key
          · -- both find nothing
            obtain ⟨⟨-, hnone⟩, -⟩ := h.apart c' c f g hf hpc hne hkey
            have hvoid := (h.apart c c' g f hpc hf (Ne.symm hne) hkey.symm).1
            rw [hnone, hkey]
            exact lookup_perform_of_void a hvoid
          · exact lookup_perform_of_ne a hkey

theorem pc_stepAgent_of_ne (s : System K V P B C cap) {c c' : C} (hne : c' ≠ c) :
    (stepAgent T c s).pc c' = s.pc c' := by
  cases hpc : s.pc c with
  | none => rw [show stepAgent T c s = s by simp [stepAgent, hpc]]
  | some f =>
      cases hcode : f.code with
      | nil =>
          rw [stepAgent_of_nil hpc hcode]
          exact Function.update_of_ne hne _ _
      | cons a rest =>
          obtain ⟨g, hg, -⟩ := pc_perform (T := T) s c hcode
          rw [stepAgent_of_cons hpc hcode, hg]
          exact Function.update_of_ne hne _ _

/-- A step stores one key at most. -/
theorem size_stepAgent_le (c : C) (s : System K V P B C cap) :
    (stepAgent T c s).table.size ≤ s.table.size + 1 := by
  cases hpc : s.pc c with
  | none =>
      rw [show stepAgent T c s = s by simp [stepAgent, hpc]]
      exact Nat.le_succ _
  | some f =>
      cases hcode : f.code with
      | nil =>
          rw [stepAgent_of_nil hpc hcode]
          exact Nat.le_succ _
      | cons a rest =>
          rw [stepAgent_of_cons hpc hcode]
          by_cases hupdate : a = .update
          · subst hupdate
            rcases write_cases T (s.goto c (some { f with code := rest })) f with
              hsame | ⟨k, p, now, -, -, -, hwrite⟩
            · rw [show perform T c f rest s .update = _ from hsame]
              exact Nat.le_succ _
            · rw [show perform T c f rest s .update = _ from hwrite]
              exact BoundedMap.size_update_le _ _ _
          · by_cases hdelete : a = .delete
            · subst hdelete
              exact (BoundedMap.size_delete_le _ _).trans (Nat.le_succ _)
            · rw [table_perform hupdate hdelete]
              exact Nat.le_succ _

theorem size_exec_le (as : List (Act K P C)) :
    ((system T cap).exec (rest K V P B C cap) as).table.size ≤ as.length := by
  induction as using List.reverseRecOn with
  | nil => exact Nat.le_of_eq BoundedMap.size_empty
  | append_singleton as a ih =>
      rw [Machine.exec_concat, List.length_append, List.length_singleton]
      cases a with
      | tick now => exact ih.trans (Nat.le_succ _)
      | enter c op => exact ih.trans (Nat.le_succ _)
      | step c => exact (size_stepAgent_le c _).trans (Nat.succ_le_succ ih)

/-- A run shorter than the table is large refuses nothing. -/
theorem noRefusal_of_length_le {as : List (Act K P C)} (h : as.length ≤ cap) :
    NoRefusal T cap as := by
  intro s c f k p rest' hmem _ _ _
  obtain ⟨pre, post, rfl, rfl⟩ := Machine.exists_of_mem_trace hmem
  have hsize : ((system T cap).exec (rest K V P B C cap) pre).table.size ≤ pre.length :=
    size_exec_le pre
  rw [List.length_append, List.length_cons] at h
  exact (BoundedMap.accepts_iff _ k).mpr (.inr (by omega))

/-! ## The order on each key -/

/-- The handler that an agent is in, if its reading is still to come. -/
def pending (s : System K V P B C cap) (c : C) : Option (C × Op K P) :=
  match s.pc c with
  | none => none
  | some f => if .clock ∈ f.code ∧ ¬ s.Void f.op then some (c, f.op) else none

/-- The handlers that have begun, and those that have read their time. -/
abbrev InOrder (s : System K V P B C cap) (began read : List (C × Op K P)) : Prop :=
  Serial (fun x => x.2.key) (pending s) began read

omit [DecidableEq B] [DecidableEq C] in
theorem pending_of_pc {s : System K V P B C cap} {c : C} {f : Frame K V P}
    (hf : s.pc c = some f) :
    pending s c = if .clock ∈ f.code ∧ ¬ s.Void f.op then some (c, f.op) else none := by
  simp [pending, hf]

omit [DecidableEq B] [DecidableEq C] in
theorem pending_of_idle {s : System K V P B C cap} {c : C} (hpc : s.pc c = none) :
    pending s c = none := by
  simp [pending, hpc]

omit [DecidableEq B] [DecidableEq C] in
theorem exists_of_pending {s : System K V P B C cap} {c : C} {x : C × Op K P}
    (h : pending s c = some x) : ∃ f, s.pc c = some f ∧ ¬ s.Void f.op ∧ x = (c, f.op) := by
  cases hpc : s.pc c with
  | none =>
      rw [pending_of_idle hpc] at h
      contradiction
  | some f =>
      rw [pending_of_pc hpc] at h
      split at h
      · rename_i hreads
        exact ⟨f, rfl, hreads.2, (Option.some.inj h).symm⟩
      · contradiction

omit [DecidableEq B] in
/-- Moving one agent. -/
theorem pending_goto (s : System K V P B C cap) (c : C) (g : Option (Frame K V P)) :
    pending (s.goto c g) = Function.update (pending s) c (pending (s.goto c g) c) := by
  funext c'
  by_cases hc : c' = c
  · rw [hc, Function.update_self]
  · rw [Function.update_of_ne hc]
    have hpc : (s.goto c g).pc c' = s.pc c' := Function.update_of_ne hc _ _
    show (match (s.goto c g).pc c' with | none => none | some f => _) = pending s c'
    rw [hpc]
    rfl

/-- A handler begins. If it finds nothing, it is done with the clock. -/
theorem InOrder.enter {s : System K V P B C cap} {began read : List (C × Op K P)}
    (h : InOrder s began read) (hreads : T.ReadsFirst) {c : C} {op : Op K P}
    (hallowed : Allowed s (.enter c op)) :
    InOrder (step T s (.enter c op)) (began ++ [(c, op)])
      (read ++ (heard s (.enter c op)).map Reading.handler) := by
  obtain ⟨hidle, hbeside⟩ := hallowed
  have hfree : ∀ c' x, pending s c' = some x → x.2.key ≠ op.key := by
    intro c' x hx hkey
    obtain ⟨f, hf, hvoid, rfl⟩ := exists_of_pending hx
    exact hvoid (hbeside c' f hf hkey).2.1
  have hentered := Serial.enter h (e := (c, op)) (pending_of_idle hidle) hfree
  show InOrder (s.goto c (some ⟨op, s.clock, T.codeOf op, none, none, none⟩)) _
    (read ++ List.map _ (if s.Void op then _ else _))
  rw [InOrder, pending_goto, pending_of_pc (Function.update_self c _ _)]
  by_cases hvoid : s.Void op
  · rw [if_neg fun hboth => hboth.2 hvoid, if_pos hvoid]
    have hcomplete := hentered.complete (c := c) (Function.update_self c _ _)
    rw [Function.update_idem] at hcomplete
    exact hcomplete
  · rw [if_pos ⟨hreads.reads op, hvoid⟩, if_neg hvoid, List.map_nil, List.append_nil]
    exact hentered

/-- The other handlers still have their readings to come. -/
theorem pending_stepAgent_of_ne {s : System K V P B C cap} (h : Inv T s) {c c' : C}
    (hne : c' ≠ c) : pending (stepAgent T c s) c' = pending s c' := by
  have hpc := pc_stepAgent_of_ne (T := T) s hne
  cases hf : s.pc c' with
  | none => rw [pending_of_idle hf, pending_of_idle (hpc.trans hf)]
  | some f =>
      have hvoid : (stepAgent T c s).Void f.op ↔ s.Void f.op := by
        rw [System.Void, System.Void, h.lookup_stepAgent hf hne]
      rw [pending_of_pc hf, pending_of_pc (hpc.trans hf)]
      simp only [hvoid]

/-- The handler that takes a step goes on to its reading, or makes it. -/
theorem pending_perform {s : System K V P B C cap} (h : Inv T s) (hreads : T.ReadsFirst) {c : C}
    {f : Frame K V P} {a : Access} {rest : List Access} (hf : s.pc c = some f)
    (hcode : f.code = a :: rest) :
    if a = .clock ∧ ¬ s.Void f.op then
      pending s c = some (c, f.op) ∧ pending (perform T c f rest s a) c = none
    else pending (perform T c f rest s a) c = pending s c := by
  obtain ⟨g, hg, hop, hcases⟩ := pc_perform (T := T) s c hcode
  have hg : (perform T c f rest s a).pc c = some g := by rw [hg, Function.update_self]
  have hsuffix : a :: rest <:+ T.codeOf f.op := hcode ▸ (h.good c f hf).code
  rw [pending_of_pc hf, pending_of_pc hg, hop]
  by_cases hwrites : a = .clock ∨ a = .update ∨ a = .delete
  · -- the reading is made here, or has been made
    have hnone : .clock ∉ rest := hreads.once f.op a rest hsuffix hwrites
    have hrest : g.code = rest := by
      rcases hcases with heq | ⟨rfl, -⟩ | ⟨rfl, -⟩
      · exact heq
      · simp at hwrites
      · simp at hwrites
    rw [hrest, hcode, if_neg fun hboth : _ ∧ _ => hnone hboth.1]
    by_cases hclock : a = .clock
    · subst hclock
      by_cases hvoid : s.Void f.op
      · simp [hvoid]
      · simp [hvoid]
    · simp [hclock, Ne.symm hclock, hnone]
  · have hne : a ≠ .clock ∧ a ≠ .update ∧ a ≠ .delete := by simpa using hwrites
    have hvoid : (perform T c f rest s a).Void f.op ↔ s.Void f.op := by
      rw [System.Void, System.Void, table_perform hne.2.1 hne.2.2]
    rw [if_neg fun hboth => hne.1 hboth.1]
    simp only [hvoid]
    rcases hcases with hrest | ⟨-, hsame⟩ | ⟨rfl, hl, hnil⟩
    · simp [hrest, hcode, Ne.symm hne.1]
    · rw [hsame]
    · -- a lookup that finds nothing is that of a stop
      have hstop : s.Void f.op := by
        refine ⟨?_, hl⟩
        cases hstart : f.op with
        | stop k => rfl
        | start k p =>
            rw [hstart] at hsuffix
            exact absurd (hsuffix.mem List.mem_cons_self) hreads.start
      simp [hstop]

/-- Every step keeps the order. -/
theorem InOrder.stepAgent {s : System K V P B C cap} {began read : List (C × Op K P)}
    (h : InOrder s began read) (hinv : Inv T s) (hreads : T.ReadsFirst) (c : C) :
    InOrder (stepAgent T c s) began (read ++ (heard s (.step c)).map Reading.handler) := by
  have hothers : pending (Handlers.stepAgent T c s) =
      Function.update (pending s) c (pending (Handlers.stepAgent T c s) c) := by
    funext c'
    by_cases hc : c' = c
    · rw [hc, Function.update_self]
    · rw [Function.update_of_ne hc]
      exact pending_stepAgent_of_ne hinv hc
  have hsame (heq : pending (Handlers.stepAgent T c s) c = pending s c) :
      pending (Handlers.stepAgent T c s) = pending s := by
    rw [hothers, heq, Function.update_eq_self]
  cases hpc : s.pc c with
  | none =>
      rw [show Handlers.stepAgent T c s = s by simp [Handlers.stepAgent, hpc],
        show heard s (.step c) = [] by simp [heard, hpc], List.map_nil, List.append_nil]
      exact h
  | some f =>
      cases hcode : f.code with
      | nil =>
          rw [InOrder, hsame, show heard s (.step c) = [] by simp [heard, hpc, hcode],
            List.map_nil, List.append_nil]
          · exact h
          · rw [stepAgent_of_nil hpc hcode, pending_of_pc hpc,
              pending_of_idle (show (s.goto c none).pc c = none from Function.update_self c _ _)]
            simp [hcode]
      | cons a rest =>
          have hstep := pending_perform hinv hreads hpc hcode
          rw [← stepAgent_of_cons hpc hcode] at hstep
          split at hstep
          · rename_i hclock
            have hheard : heard s (.step c) = [⟨c, f.op, s.clock⟩] := by
              simp [heard, hpc, hcode, hclock]
            rw [InOrder, hothers, hstep.2, hheard]
            exact h.complete hstep.1
          · rename_i hclock
            have hheard : heard s (.step c) = [] := by
              simpa [heard, hpc, hcode] using hclock
            rw [InOrder, hsame hstep, hheard, List.map_nil, List.append_nil]
            exact h

theorem InOrder.step {s : System K V P B C cap} {began read : List (C × Op K P)}
    (h : InOrder s began read) (hinv : Inv T s) (hreads : T.ReadsFirst) {a : Act K P C}
    (hallowed : Allowed s a) :
    InOrder (Handlers.step T s a) (began ++ begun [a])
      (read ++ (heard s a).map Reading.handler) := by
  cases a with
  | tick now =>
      show InOrder { s with clock := now } (began ++ []) (read ++ [])
      rw [List.append_nil, List.append_nil]
      exact h
  | enter c op => exact h.enter hreads hallowed
  | step c =>
      show InOrder _ (began ++ []) _
      rw [List.append_nil]
      exact h.stepAgent hinv hreads c

omit [DecidableEq B] [DecidableEq C] in
theorem inOrder_rest : InOrder (rest K V P B C cap) [] [] := Serial.start _

/-- Along every run the readings keep each key's own order. -/
theorem serial_of_legal (hprivate : T.Private) (hreads : T.ReadsFirst) {as : List (Act K P C)}
    (hlegal : (system T cap).Legal (rest K V P B C cap) as) :
    InOrder ((system T cap).exec (rest K V P B C cap) as) (begun as)
      ((history T cap as).map Reading.handler) := by
  induction as using List.reverseRecOn with
  | nil => exact inOrder_rest
  | append_singleton as a ih =>
      rw [Machine.legal_concat] at hlegal
      have hbegun : begun (as ++ [a]) = begun as ++ begun [a] := List.filterMap_append
      have hhistory : history T cap (as ++ [a]) =
          history T cap as ++ heard ((system T cap).exec (rest K V P B C cap) as) a := by
        rw [history, Machine.trace_concat, List.flatMap_append, List.flatMap_singleton]
        rfl
      rw [Machine.exec_concat, hbegun, hhistory, List.map_append]
      exact (ih hlegal.1).step (inv_of_legal hprivate hlegal.1) hreads hlegal.2

/-- With no handler in progress every handler has read its time, and each key's
own order is kept. -/
theorem history_of_idle (hprivate : T.Private) (hreads : T.ReadsFirst) {as : List (Act K P C)}
    (hlegal : (system T cap).Legal (rest K V P B C cap) as)
    (hidle : ∀ c, ((system T cap).exec (rest K V P B C cap) as).pc c = none) (k : K) :
    ((history T cap as).map Reading.handler).filter (fun x => decide (x.2.key = k)) =
      (begun as).filter fun x => decide (x.2.key = k) :=
  (serial_of_legal hprivate hreads hlegal).filter_eq (fun c => pending_of_idle (hidle c)) k

end Lib.Handlers
