import EbpfToy.Lib.Stopwatch

/-!
# What the capacity of a table costs

Two stopwatches that differ in nothing but the capacity of their tables, on the
same events.

* `noRefusal_iff` : a table refuses no start exactly when the keys that are in
  use, by the history alone, never outnumber its capacity;
* `ahead`, `matchedCount_le` : a larger table holds all that a smaller one
  holds, and measures all that it measures;
* `matchedCount_le_add_refused` : each measurement that the smaller table
  misses is one of the starts that it refused;
* `beside`, `matchedCount_stale` : entries whose keys never occur again cost exactly their number of
  the capacity, and nothing else.
-/

namespace Lib

variable {K V B : Type} [DecidableEq K] [DecidableEq B] {cap cap' : Nat}

namespace Stopwatch

variable (W : Stopwatch K V B cap)

/-! ## Keys in use -/

/-- The keys whose last event is a start, refused or not. -/
def inUse (es : List W.Ev) : Finset K :=
  es.foldl
    (fun S e => match W.view e with
      | .start k _ => insert k S
      | .stop k => S.erase k) ∅

variable {W}

theorem inUse_concat_start {e : W.Ev} {k : K} {v : V} (hview : W.view e = .start k v)
    (es : List W.Ev) : W.inUse (es ++ [e]) = insert k (W.inUse es) := by
  simp [inUse, hview]

theorem inUse_concat_stop {e : W.Ev} {k : K} (hview : W.view e = .stop k) (es : List W.Ev) :
    W.inUse (es ++ [e]) = (W.inUse es).erase k := by
  simp [inUse, hview]

theorem noRefusal_nil : W.NoRefusal [] := by
  intro a e b k v hes
  simp at hes

/-- One more event: a start must be accepted, a stop always is. -/
theorem noRefusal_concat_iff (es : List W.Ev) (e : W.Ev) :
    W.NoRefusal (es ++ [e]) ↔
      W.NoRefusal es ∧ ∀ k v, W.view e = .start k v → W.Accepts es k := by
  constructor
  · intro h
    refine ⟨?_, fun k v hview => h es e [] k v rfl hview⟩
    intro a x b k v hes hview
    exact h a x (b ++ [e]) k v (by rw [hes]; simp) hview
  · rintro ⟨hes, hlast⟩ a x b k v heq hview
    rcases List.eq_nil_or_concat b with rfl | ⟨b', y, rfl⟩
    · obtain ⟨rfl, hex⟩ := List.append_inj' heq rfl
      obtain rfl : e = x := by simpa using hex
      exact hlast k v hview
    · rw [List.concat_eq_append, ← List.cons_append, ← List.append_assoc] at heq
      obtain ⟨heq', -⟩ := List.append_inj' heq rfl
      exact hes a x b' k v heq' hview

/-- Without refusals the table holds the keys in use, and no others. -/
theorem keys_eq_inUse {es : List W.Ev} (hno : W.NoRefusal es) :
    (W.table (W.run es)).keys = W.inUse es := by
  induction es using List.reverseRecOn with
  | nil =>
      rw [run_nil, W.table_init]
      rfl
  | append_singleton es e ih =>
      rw [noRefusal_concat_iff] at hno
      have ih := ih hno.1
      rw [run_concat]
      cases hview : W.view e with
      | start k v =>
          rw [table_start hview, BoundedMap.keys_update (hno.2 k v hview), ih,
            inUse_concat_start hview]
      | stop k => rw [table_stop hview, BoundedMap.keys_delete, ih, inUse_concat_stop hview]

/-- No start is refused exactly when the keys in use never outnumber the
capacity. -/
theorem noRefusal_iff (es : List W.Ev) :
    W.NoRefusal es ↔ ∀ a b, es = a ++ b → (W.inUse a).card ≤ cap := by
  constructor
  · rintro h a b rfl
    have hno : W.NoRefusal a := fun a' e b' k v hes hview =>
      h a' e (b' ++ b) k v (by rw [hes]; simp) hview
    rw [← keys_eq_inUse hno, BoundedMap.card_keys]
    exact BoundedMap.size_le _
  · intro h
    induction es using List.reverseRecOn with
    | nil => exact noRefusal_nil
    | append_singleton es e ih =>
        have hno := ih fun a b hes => h a (b ++ [e]) (by rw [hes]; simp)
        rw [noRefusal_concat_iff]
        refine ⟨hno, fun k v hview => ?_⟩
        have hcard := h (es ++ [e]) [] (by simp)
        rw [inUse_concat_start hview] at hcard
        -- the key is stored already, or it is one more and still fits
        rw [Accepts, BoundedMap.accepts_iff]
        by_cases hk : k ∈ W.inUse es
        · left
          rwa [← BoundedMap.mem_keys, keys_eq_inUse hno]
        · right
          rw [Finset.card_insert_of_notMem hk] at hcard
          rw [← BoundedMap.card_keys, keys_eq_inUse hno]
          omega

end Stopwatch

/-! ## Two tables -/

/-- The larger table `m'` holds what `m` holds, and has at least as much room
left. -/
structure Ahead (m : BoundedMap K V cap) (m' : BoundedMap K V cap') : Prop where
  held : ∀ k v, m.lookup k = some v → m'.lookup k = some v
  room : m'.size + cap ≤ m.size + cap'

namespace Ahead

variable {m : BoundedMap K V cap} {m' : BoundedMap K V cap'}

theorem empty (hle : cap ≤ cap') :
    Ahead (.empty : BoundedMap K V cap) (.empty : BoundedMap K V cap') where
  held k v h := by
    rw [BoundedMap.lookup_empty] at h
    contradiction
  room := by
    rw [BoundedMap.size_empty, BoundedMap.size_empty]
    omega

/-- What the smaller table takes, the larger one takes too. -/
theorem accepts (h : Ahead m m') {k : K} (hacc : m.Accepts k) : m'.Accepts k := by
  have hroom := h.room
  rw [BoundedMap.accepts_iff] at hacc ⊢
  rcases hacc with hmem | hlt
  · left
    obtain ⟨v, hv⟩ := Option.ne_none_iff_exists'.mp hmem
    rw [h.held k v hv]
    exact Option.some_ne_none v
  · right
    omega

/-- The room is enough for one more key. -/
theorem size_update_le (h : Ahead m m') (k : K) (v : V) :
    (m'.update k v).size + cap ≤ (m.update k v).size + cap' := by
  have hroom := h.room
  by_cases hacc : m.Accepts k
  · cases hl : m.lookup k with
    | some w =>
        rw [BoundedMap.size_update_of_lookup hl, BoundedMap.size_update_of_lookup (h.held k w hl)]
        exact hroom
    | none =>
        rw [BoundedMap.size_update_of_none hl hacc]
        cases hl' : m'.lookup k with
        | none =>
            rw [BoundedMap.size_update_of_none hl' (h.accepts hacc)]
            omega
        | some w =>
            rw [BoundedMap.size_update_of_lookup hl']
            omega
  · -- refused: the smaller table is full, and the larger one is at most full
    have hfull := (m.not_accepts_iff k).mp hacc
    have hle := (m'.update k v).size_le
    rw [BoundedMap.update_of_not_accepts hacc]
    omega

theorem update (h : Ahead m m') (k : K) (v : V) : Ahead (m.update k v) (m'.update k v) where
  held k' w hl := by
    by_cases hk : k' = k
    · rw [hk, BoundedMap.lookup_update_self_iff] at hl ⊢
      exact ⟨h.accepts hl.1, hl.2⟩
    · rw [BoundedMap.lookup_update_of_ne _ hk] at hl ⊢
      exact h.held k' w hl
  room := h.size_update_le k v

theorem delete (h : Ahead m m') (k : K) : Ahead (m.delete k) (m'.delete k) where
  held k' w hl := by
    by_cases hk : k' = k
    · rw [hk, BoundedMap.lookup_delete_self] at hl
      contradiction
    · rw [BoundedMap.lookup_delete_of_ne _ hk] at hl ⊢
      exact h.held k' w hl
  room := by
    have hroom := h.room
    cases hl : m.lookup k with
    | some v =>
        have hsize := BoundedMap.size_delete_of_lookup hl
        have hsize' := BoundedMap.size_delete_of_lookup (h.held k v hl)
        omega
    | none =>
        rw [BoundedMap.delete_of_lookup_eq_none hl]
        cases hl' : m'.lookup k with
        | none =>
            rw [BoundedMap.delete_of_lookup_eq_none hl']
            exact hroom
        | some w =>
            have hsize' := BoundedMap.size_delete_of_lookup hl'
            omega

theorem size_le (h : Ahead m m') : m.size ≤ m'.size := by
  rw [← BoundedMap.card_keys, ← BoundedMap.card_keys]
  apply Finset.card_le_card
  intro k hk
  rw [BoundedMap.mem_keys] at hk ⊢
  obtain ⟨v, hv⟩ := Option.ne_none_iff_exists'.mp hk
  rw [h.held k v hv]
  exact Option.some_ne_none v

end Ahead

namespace Stopwatch

/-- A stopwatch of another capacity that sees the same of every event. -/
structure Twin (W : Stopwatch K V B cap) (W' : Stopwatch K V B cap') where
  ev : W.Ev → W'.Ev
  view_ev : ∀ e, W'.view (ev e) = W.view e

variable {W : Stopwatch K V B cap} {W' : Stopwatch K V B cap'}

/-- On every run the larger table is ahead. -/
theorem ahead (T : Twin W W') (hle : cap ≤ cap') (es : List W.Ev) :
    Ahead (W.table (W.run es)) (W'.table (W'.run (es.map T.ev))) := by
  induction es using List.reverseRecOn with
  | nil =>
      rw [List.map_nil, run_nil, run_nil, W.table_init, W'.table_init]
      exact Ahead.empty hle
  | append_singleton es e ih =>
      rw [List.map_append, List.map_singleton, run_concat, run_concat]
      cases hview : W.view e with
      | start k v =>
          rw [table_start hview, table_start (by rw [T.view_ev, hview])]
          exact ih.update k v
      | stop k =>
          rw [table_stop hview, table_stop (by rw [T.view_ev, hview])]
          exact ih.delete k

/-- What the smaller table pairs, the larger one pairs too. -/
theorem matches_of_le (T : Twin W W') (hle : cap ≤ cap') {es : List W.Ev} {e : W.Ev} {v : V}
    (h : W.Matches es e v) : W'.Matches (es.map T.ev) (T.ev e) v := by
  obtain ⟨k, hview, hopen⟩ := h
  refine ⟨k, by rw [T.view_ev, hview], ?_⟩
  rw [← lookup_run_iff] at hopen ⊢
  exact (ahead T hle es).held k v hopen

/-- A larger table measures no less. -/
theorem matchedCount_le (T : Twin W W') (hle : cap ≤ cap') {P : W.Ev → V → Prop}
    {P' : W'.Ev → V → Prop} (hP : ∀ e v, P e v → P' (T.ev e) v) (es : List W.Ev) :
    W.matchedCount P es ≤ W'.matchedCount P' (es.map T.ev) := by
  classical
  induction es using List.reverseRecOn with
  | nil => simp
  | append_singleton es e ih =>
      rw [List.map_append, List.map_singleton, matchedCount_concat, matchedCount_concat]
      by_cases hm : ∃ v, W.Matches es e v ∧ P e v
      · obtain ⟨v, hv, hPv⟩ := hm
        rw [if_pos ⟨v, hv, hPv⟩, if_pos ⟨v, matches_of_le T hle hv, hP e v hPv⟩]
        omega
      · rw [if_neg hm]
        omega

theorem startCount_map (T : Twin W W') (es : List W.Ev) :
    W'.startCount (es.map T.ev) = W.startCount es := by
  classical
  unfold startCount
  induction es using List.reverseRecOn with
  | nil => rfl
  | append_singleton es e ih =>
      rw [List.map_append, List.map_singleton, countAt_concat, countAt_concat, ih, T.view_ev]

/-- The larger table overwrites at least as often. -/
theorem overwrittenCount_le (T : Twin W W') (hle : cap ≤ cap') (es : List W.Ev) :
    W.overwrittenCount es ≤ W'.overwrittenCount (es.map T.ev) := by
  classical
  unfold overwrittenCount
  induction es using List.reverseRecOn with
  | nil => exact Nat.le_refl _
  | append_singleton es e ih =>
      rw [List.map_append, List.map_singleton, countAt_concat, countAt_concat]
      by_cases hover : ∃ k v v₀, W.view e = .start k v ∧ W.OpenAfter es k v₀
      · obtain ⟨k, v, v₀, hview, hopen⟩ := hover
        have hopen' : W'.OpenAfter (es.map T.ev) k v₀ := by
          rw [← lookup_run_iff] at hopen ⊢
          exact (ahead T hle es).held k v₀ hopen
        rw [if_pos ⟨k, v, v₀, hview, hopen⟩,
          if_pos ⟨k, v, v₀, by rw [T.view_ev, hview], hopen'⟩]
        omega
      · rw [if_neg hover]
        omega

/-- All the measurements that the smaller table misses are starts it refused:
by the ledgers of the two runs. -/
theorem matchedCount_le_add_refused (T : Twin W W') (hle : cap ≤ cap') (es : List W.Ev) :
    W'.matchedCount (fun _ _ => True) (es.map T.ev) ≤
      W.matchedCount (fun _ _ => True) es + W.refusedCount es := by
  have hledger := ledger es
  have hledger' := ledger (es.map T.ev)
  have hstarts := startCount_map T es
  have hover := overwrittenCount_le T hle es
  have hsize := (ahead T hle es).size_le
  omega

/-! ## Stale entries -/

/-- Nothing in `fs` is on a key that is stored after `es`. -/
def Untouched (W : Stopwatch K V B cap) (es fs : List W.Ev) : Prop :=
  ∀ e ∈ fs, (W.table (W.run es)).lookup (W.view e).key = none

/-- A table `m` that holds the entries of `m₀`, which nobody touches, and
besides them what the table `m'` of capacity `cap'` holds. -/
structure Beside (m₀ m : BoundedMap K V cap) (m' : BoundedMap K V cap') : Prop where
  stale : ∀ k, m₀.lookup k ≠ none → m.lookup k = m₀.lookup k ∧ m'.lookup k = none
  live : ∀ k, m₀.lookup k = none → m.lookup k = m'.lookup k
  size : m.size = m₀.size + m'.size

namespace Beside

variable {m₀ m : BoundedMap K V cap} {m' : BoundedMap K V cap'} {k : K}

theorem start (m₀ : BoundedMap K V cap) : Beside m₀ m₀ (.empty : BoundedMap K V cap') where
  stale k _ := ⟨rfl, BoundedMap.lookup_empty k⟩
  live k h := by rw [h, BoundedMap.lookup_empty]
  size := by rw [BoundedMap.size_empty, Nat.add_zero]

/-- The smaller table accepts exactly what fits beside the stale entries. -/
theorem accepts_iff (h : Beside m₀ m m') (hcap : m₀.size + cap' = cap)
    (hk : m₀.lookup k = none) : m.Accepts k ↔ m'.Accepts k := by
  have hsize := h.size
  rw [BoundedMap.accepts_iff, BoundedMap.accepts_iff, h.live k hk]
  refine or_congr_right ?_
  omega

theorem update (h : Beside m₀ m m') (hcap : m₀.size + cap' = cap) (hk : m₀.lookup k = none)
    (v : V) : Beside m₀ (m.update k v) (m'.update k v) := by
  by_cases hacc : m.Accepts k
  · have hacc' : m'.Accepts k := (h.accepts_iff hcap hk).mp hacc
    refine ⟨?_, ?_, ?_⟩
    · intro k' hk'
      have hne : k' ≠ k := by
        rintro rfl
        exact hk' hk
      rw [BoundedMap.lookup_update_of_ne _ hne, BoundedMap.lookup_update_of_ne _ hne]
      exact h.stale k' hk'
    · intro k' hk'
      by_cases hne : k' = k
      · rw [hne, BoundedMap.lookup_update_self hacc, BoundedMap.lookup_update_self hacc']
      · rw [BoundedMap.lookup_update_of_ne _ hne, BoundedMap.lookup_update_of_ne _ hne]
        exact h.live k' hk'
    · have hsize := h.size
      cases hl : m.lookup k with
      | some w =>
          have hl' : m'.lookup k = some w := by rw [← h.live k hk, hl]
          rw [BoundedMap.size_update_of_lookup hl, BoundedMap.size_update_of_lookup hl']
          exact hsize
      | none =>
          have hl' : m'.lookup k = none := by rw [← h.live k hk, hl]
          rw [BoundedMap.size_update_of_none hl hacc, BoundedMap.size_update_of_none hl' hacc']
          omega
  · have hacc' : ¬ m'.Accepts k := fun hk' => hacc ((h.accepts_iff hcap hk).mpr hk')
    rw [BoundedMap.update_of_not_accepts hacc, BoundedMap.update_of_not_accepts hacc']
    exact h

theorem delete (h : Beside m₀ m m') (hk : m₀.lookup k = none) :
    Beside m₀ (m.delete k) (m'.delete k) where
  stale k' hk' := by
    have hne : k' ≠ k := by
      rintro rfl
      exact hk' hk
    rw [BoundedMap.lookup_delete_of_ne _ hne, BoundedMap.lookup_delete_of_ne _ hne]
    exact h.stale k' hk'
  live k' hk' := by
    by_cases hne : k' = k
    · rw [hne, BoundedMap.lookup_delete_self, BoundedMap.lookup_delete_self]
    · rw [BoundedMap.lookup_delete_of_ne _ hne, BoundedMap.lookup_delete_of_ne _ hne]
      exact h.live k' hk'
  size := by
    have hsize := h.size
    cases hl : m.lookup k with
    | some w =>
        have hl' : m'.lookup k = some w := by rw [← h.live k hk, hl]
        have hdel := BoundedMap.size_delete_of_lookup hl
        have hdel' := BoundedMap.size_delete_of_lookup hl'
        omega
    | none =>
        have hl' : m'.lookup k = none := by rw [← h.live k hk, hl]
        rw [BoundedMap.delete_of_lookup_eq_none hl, BoundedMap.delete_of_lookup_eq_none hl']
        exact hsize

end Beside

/-- After `es`, when none of its entries is touched again, the rest of the run
fills the table like one of the capacity that is left. -/
theorem beside (T : Twin W W') {es fs : List W.Ev}
    (hcap : (W.table (W.run es)).size + cap' = cap) (hstale : Untouched W es fs) :
    Beside (W.table (W.run es)) (W.table (W.run (es ++ fs)))
      (W'.table (W'.run (fs.map T.ev))) := by
  induction fs using List.reverseRecOn with
  | nil =>
      rw [List.append_nil, List.map_nil, run_nil, W'.table_init]
      exact Beside.start _
  | append_singleton fs e ih =>
      have ih := ih fun x hx => hstale x (List.mem_append_left _ hx)
      have hkey := hstale e (by simp)
      rw [← List.append_assoc, List.map_append, List.map_singleton, run_concat, run_concat]
      cases hview : W.view e with
      | start k v =>
          rw [hview] at hkey
          rw [table_start hview, table_start (by rw [T.view_ev, hview])]
          exact ih.update hcap hkey v
      | stop k =>
          rw [hview] at hkey
          rw [table_stop hview, table_stop (by rw [T.view_ev, hview])]
          exact ih.delete hkey

/-- The rest of the run measures what a stopwatch of the capacity that is left
would measure on its own. -/
theorem matchedCount_stale (T : Twin W W') {es fs : List W.Ev}
    (hcap : (W.table (W.run es)).size + cap' = cap) (hstale : Untouched W es fs)
    {P : W.Ev → V → Prop} {P' : W'.Ev → V → Prop} (hP : ∀ e v, P e v ↔ P' (T.ev e) v) :
    W.matchedCount P (es ++ fs) = W.matchedCount P es + W'.matchedCount P' (fs.map T.ev) := by
  classical
  induction fs using List.reverseRecOn with
  | nil => simp
  | append_singleton fs e ih =>
      have hfs : Untouched W es fs := fun x hx => hstale x (List.mem_append_left _ hx)
      have hkey := hstale e (by simp)
      have hmatches : ∀ v, W.Matches (es ++ fs) e v ↔ W'.Matches (fs.map T.ev) (T.ev e) v := by
        intro v
        unfold Matches
        rw [T.view_ev]
        refine exists_congr fun k => and_congr_right fun hview => ?_
        rw [hview] at hkey
        rw [← lookup_run_iff, ← lookup_run_iff, (beside T hcap hfs).live k hkey]
      rw [← List.append_assoc, List.map_append, List.map_singleton, matchedCount_concat,
        matchedCount_concat, ih hfs, Nat.add_assoc]
      simp only [hmatches, hP]

end Stopwatch
end Lib
