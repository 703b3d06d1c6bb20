import EbpfToy.Lib.Stopwatch

/-!
# A stopwatch key by key

When no start is refused, a stopwatch with a shared table is one stopwatch per
key: what is stored under a key, and what its stops measure, depends on the
key's own events alone. An event is observed by its view and a label (its
timestamp, say), from which a stop measures.

* `lookup_run_eq_held` : the table holds what each key's own stopwatch holds;
* `matchedCount_eq_sum` : the counts are the sums over the keys.
-/

namespace Lib

/-- One key's own stopwatch: the value stored, if any, and what the stops have
measured, oldest first. -/
structure Slot (V D : Type) where
  held : Option V
  measured : List D

namespace Slot

variable {K V T D : Type} (measure : T → V → D)

def init : Slot V D := ⟨none, []⟩

def step (s : Slot V D) : Event K V × T → Slot V D
  | (.start _ v, _) => { s with held := some v }
  | (.stop _, t) =>
      match s.held with
      | none => s
      | some v => ⟨none, s.measured ++ [measure t v]⟩

/-- The key's stopwatch after its observed events. -/
def run (obs : List (Event K V × T)) : Slot V D := obs.foldl (step measure) init

theorem run_concat (obs : List (Event K V × T)) (o : Event K V × T) :
    run measure (obs ++ [o]) = step measure (run measure obs) o := by
  simp [run]

/-- A stop measures what is held. -/
theorem measured_stop (s : Slot V D) (k : K) (t : T) :
    (step measure s (.stop k, t)).measured = s.measured ++ (s.held.map (measure t)).toList := by
  cases hs : s.held <;> simp [step, hs]

end Slot

namespace Stopwatch

variable {K V B : Type} [DecidableEq K] [DecidableEq B] {cap : Nat} (W : Stopwatch K V B cap)
  {T D : Type} (label : W.Ev → T) (measure : T → V → D)

/-- The events of `es` on `k`. -/
def onKey (k : K) (es : List W.Ev) : List W.Ev :=
  es.filter fun e => decide ((W.view e).key = k)

/-- What is observed of the events of `es` on `k`. -/
def obsOn (k : K) (es : List W.Ev) : List (Event K V × T) :=
  (W.onKey k es).map fun e => (W.view e, label e)

variable {W label measure}

theorem obsOn_concat_of_eq {es : List W.Ev} {e : W.Ev} {k : K} (hk : (W.view e).key = k) :
    W.obsOn label k (es ++ [e]) = W.obsOn label k es ++ [(W.view e, label e)] := by
  simp [obsOn, onKey, List.filter_append, hk]

theorem obsOn_concat_of_ne {es : List W.Ev} {e : W.Ev} {k : K} (hk : (W.view e).key ≠ k) :
    W.obsOn label k (es ++ [e]) = W.obsOn label k es := by
  simp [obsOn, onKey, List.filter_append, hk]

theorem NoRefusal.left {es fs : List W.Ev} (h : W.NoRefusal (es ++ fs)) : W.NoRefusal es :=
  fun a e b k v hes hview => h a e (b ++ fs) k v (by rw [hes]; simp) hview

/-- The last start of a run without refusals is accepted. -/
theorem NoRefusal.last {es : List W.Ev} {e : W.Ev} (h : W.NoRefusal (es ++ [e])) {k : K} {v : V}
    (hview : W.view e = .start k v) : W.Accepts es k :=
  h es e [] k v rfl hview

/-- The table holds what each key's own stopwatch holds. -/
theorem lookup_run_eq_held (label : W.Ev → T) (measure : T → V → D) {es : List W.Ev}
    (hno : W.NoRefusal es) (k : K) :
    (W.table (W.run es)).lookup k = (Slot.run measure (W.obsOn label k es)).held := by
  induction es using List.reverseRecOn with
  | nil => rw [run_nil, W.table_init]; exact BoundedMap.lookup_empty k
  | append_singleton es e ih =>
      have ih := ih hno.left
      rw [run_concat]
      by_cases hk : (W.view e).key = k
      · rw [obsOn_concat_of_eq hk, Slot.run_concat]
        cases hview : W.view e with
        | start k' v =>
            obtain rfl : k' = k := by simpa [hview] using hk
            rw [(W.step_start _ e k' v hview).1]
            exact BoundedMap.lookup_update_self (hno.last hview) v
        | stop k' =>
            obtain rfl : k' = k := by simpa [hview] using hk
            cases hl : (W.table (W.run es)).lookup k' with
            | none =>
                rw [hl] at ih
                rw [W.step_stop_none _ e k' hview hl, hl, Slot.step, ← ih]
                exact ih
            | some v =>
                rw [hl] at ih
                rw [(W.step_stop_some _ e k' v hview hl).1, BoundedMap.lookup_delete_self,
                  Slot.step, ← ih]
      · rw [obsOn_concat_of_ne hk, lookup_step_of_ne hk, ih]

/-! ## Counting -/

/-- The number of a key's measurements with `Q`. -/
def keyCount (W : Stopwatch K V B cap) (label : W.Ev → T) (measure : T → V → D) (Q : D → Prop)
    [DecidablePred Q] (k : K) (es : List W.Ev) : Nat :=
  (Slot.run measure (W.obsOn label k es)).measured.countP fun d => decide (Q d)

/-- A stop is matched by what the key's own stopwatch holds. -/
theorem exists_matches_iff_held (label : W.Ev → T) (measure : T → V → D) {es : List W.Ev}
    {e : W.Ev} {k : K} (hno : W.NoRefusal es) (hview : W.view e = .stop k) (Q : V → Prop) :
    (∃ v, W.Matches es e v ∧ Q v) ↔
      ∃ v, (Slot.run measure (W.obsOn label k es)).held = some v ∧ Q v := by
  simp only [matches_iff_of_stop hview, ← lookup_run_iff, lookup_run_eq_held label measure hno k]

open Classical in
/-- One more event adds to its own key, when it is a matched stop. -/
theorem keyCount_concat {es : List W.Ev} {e : W.Ev} (hno : W.NoRefusal es) (Q : D → Prop)
    [DecidablePred Q] (k : K) :
    W.keyCount label measure Q k (es ++ [e]) = W.keyCount label measure Q k es +
      if (W.view e).key = k ∧ ∃ v, W.Matches es e v ∧ Q (measure (label e) v) then 1 else 0 := by
  by_cases hk : (W.view e).key = k
  · rw [keyCount, obsOn_concat_of_eq hk, Slot.run_concat, keyCount]
    cases hview : W.view e with
    | start k' v =>
        have hnone : ¬ ∃ v, W.Matches es e v ∧ Q (measure (label e) v) :=
          fun ⟨w, hw, _⟩ => not_matches_of_start hview w hw
        rw [if_neg fun h => hnone h.2]
        rfl
    | stop k' =>
        obtain rfl : k' = k := by simpa [hview] using hk
        have hiff := exists_matches_iff_held label measure hno hview
          fun v => Q (measure (label e) v)
        simp only [Event.key_stop, true_and, hiff, Slot.measured_stop, List.countP_append]
        -- what is held is measured; an idle stopwatch measures nothing
        cases (Slot.run measure (W.obsOn label k' es)).held with
        | none => simp
        | some v => simp
  · rw [keyCount, obsOn_concat_of_ne hk, keyCount, if_neg fun h => hk h.1, Nat.add_zero]

/-- The matched stops are those of the keys, each on its own. -/
theorem matchedCount_eq_sum (label : W.Ev → T) (measure : T → V → D) (Q : D → Prop)
    [DecidablePred Q] {es : List W.Ev} (hno : W.NoRefusal es) {S : Finset K}
    (hS : ∀ e ∈ es, (W.view e).key ∈ S) :
    W.matchedCount (fun e v => Q (measure (label e) v)) es =
      ∑ k ∈ S, W.keyCount label measure Q k es := by
  classical
  induction es using List.reverseRecOn with
  | nil => simp [keyCount, obsOn, onKey, Slot.run, Slot.init]
  | append_singleton es e ih =>
      have hmem : (W.view e).key ∈ S := hS e (by simp)
      rw [matchedCount_concat, ih hno.left fun x hx => hS x (List.mem_append_left [e] hx)]
      simp only [keyCount_concat hno.left, Finset.sum_add_distrib]
      congr 1
      by_cases hQ : ∃ v, W.Matches es e v ∧ Q (measure (label e) v)
      · simp [hQ, hmem]
      · simp [hQ]

/-! ## The run of one key -/

/-- A key's own events are all observed alike in the run of the key alone. -/
theorem obsOn_onKey (k : K) (es : List W.Ev) :
    W.obsOn label k (W.onKey k es) = W.obsOn label k es := by
  simp [obsOn, onKey]

/-- A key with no event holds nothing. -/
theorem lookup_run_eq_none {es : List W.Ev} {k : K} (h : ∀ e ∈ es, (W.view e).key ≠ k) :
    (W.table (W.run es)).lookup k = none := by
  rw [lookup_run_eq_none_iff]
  rintro v ⟨a, e, b, rfl, hview, -⟩
  exact h e (by simp) (by rw [hview]; rfl)

/-- A key alone is refused nothing that it was not refused among the others:
one accepted start shows that the table has room for one key. -/
theorem NoRefusal.onKey {es : List W.Ev} (h : W.NoRefusal es) (k : K) :
    W.NoRefusal (W.onKey k es) := by
  intro a e b k' v hes hview
  have hmem : ∀ x ∈ a ++ e :: b, x ∈ es ∧ (W.view x).key = k := by
    rw [← hes]
    intro x hx
    simpa [Stopwatch.onKey] using hx
  obtain ⟨hin, hkey⟩ := hmem e (by simp)
  obtain ⟨a₀, b₀, hes₀⟩ := List.append_of_mem hin
  have hroom : 0 < cap := BoundedMap.pos_of_accepts (h a₀ e b₀ k' v hes₀ hview)
  obtain rfl : k' = k := by simpa [hview] using hkey
  by_contra href
  -- refused, the key itself is absent, and no other key has an event
  have hempty : W.table (W.run a) = .empty := by
    apply BoundedMap.ext_lookup
    intro k₀
    rw [BoundedMap.lookup_empty]
    by_cases hk₀ : k₀ = k'
    · rw [hk₀]
      exact BoundedMap.lookup_eq_none_of_not_accepts href
    · apply lookup_run_eq_none
      intro x hx heq
      exact hk₀ (heq.symm.trans (hmem x (List.mem_append_left _ hx)).2)
  apply href
  rw [Accepts, hempty]
  exact BoundedMap.accepts_empty hroom k'

/-- In the run of one key the matched stops are the key's own. -/
theorem matchedCount_onKey (label : W.Ev → T) (measure : T → V → D) (Q : D → Prop)
    [DecidablePred Q] {es : List W.Ev} (hno : W.NoRefusal es) (k : K) :
    W.matchedCount (fun e v => Q (measure (label e) v)) (W.onKey k es) =
      W.keyCount label measure Q k es := by
  have hS : ∀ e ∈ W.onKey k es, (W.view e).key ∈ ({k} : Finset K) := by
    intro e he
    simpa [Stopwatch.onKey] using (List.mem_filter.mp he).2
  rw [matchedCount_eq_sum label measure Q (hno.onKey k) hS, Finset.sum_singleton, keyCount,
    obsOn_onKey, keyCount]

end Stopwatch
end Lib
