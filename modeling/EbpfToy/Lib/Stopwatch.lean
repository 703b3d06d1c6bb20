import EbpfToy.Lib.BoundedMap
import EbpfToy.Lib.History
import EbpfToy.Lib.Word

/-!
# Stopwatches

The start/stop measuring pattern, as an interface with laws. A *start* stores
a value under its key in a bounded table; a *stop* takes the value stored
under its key out of the table and bumps one 64-bit counter; a stop whose key
holds nothing changes nothing.

The theory describes the table and the counters by the event history alone:

* `lookup_run_iff` : a key holds `v` iff the last event on it is an accepted
  start of `v` (`OpenAfter`);
* `cell_run` : a counter is the number, modulo `2^64`, of the stops matched
  by such a start (`Matches`) that fall into it;
* `ledger` : every start is matched, overwritten, refused or still open.
-/

namespace Lib

/-- What a stopwatch sees of an event. -/
inductive Event (K V : Type) where
  | start (key : K) (val : V)
  | stop (key : K)
  deriving DecidableEq

namespace Event

variable {K V : Type}

def key : Event K V → K
  | start k _ => k
  | stop k => k

@[simp] theorem key_start (k : K) (v : V) : (start k v).key = k := rfl

@[simp] theorem key_stop (k : K) : (stop k : Event K V).key = k := rfl

end Event

/-- A start/stop measuring machine with keys `K`, stored values `V`, counters
indexed by `B`, and a table of `cap` keys. -/
structure Stopwatch (K V B : Type) [DecidableEq K] [DecidableEq B] (cap : Nat) where
  Ev : Type
  St : Type
  init : St
  step : St → Ev → St
  view : Ev → Event K V
  /-- The counter a stop bumps when it takes `v` out of the table. -/
  cellOf : Ev → V → B
  table : St → BoundedMap K V cap
  cell : St → B → UInt64
  table_init : table init = .empty
  cell_init : ∀ b, cell init b = 0
  step_start : ∀ s e k v, view e = .start k v →
    table (step s e) = (table s).update k v ∧ cell (step s e) = cell s
  step_stop_none : ∀ s e k, view e = .stop k → (table s).lookup k = none → step s e = s
  step_stop_some : ∀ s e k v, view e = .stop k → (table s).lookup k = some v →
    table (step s e) = (table s).delete k ∧
      ∀ b, cell (step s e) b = if cellOf e v = b then cell s b + 1 else cell s b

namespace Stopwatch

variable {K V B : Type} [DecidableEq K] [DecidableEq B] {cap : Nat} (W : Stopwatch K V B cap)

/-- The state after the events `es`, from the initial state. -/
def run (es : List W.Ev) : W.St := es.foldl W.step W.init

/-- A start on `k` right after `es` succeeds. -/
def Accepts (es : List W.Ev) (k : K) : Prop := (W.table (W.run es)).Accepts k

/-- The last event of `es` on `k` is a start of `v`, and it was accepted. -/
def OpenAfter (es : List W.Ev) (k : K) (v : V) : Prop :=
  ∃ a e b, es = a ++ e :: b ∧ W.view e = .start k v ∧ W.Accepts a k ∧
    ∀ x ∈ b, (W.view x).key ≠ k

/-- `e` is a stop, and the last event of `es` on its key is an accepted start
of `v`. -/
def Matches (es : List W.Ev) (e : W.Ev) (v : V) : Prop :=
  ∃ k, W.view e = .stop k ∧ W.OpenAfter es k v

/-- The number of matched stops, with their starts, that satisfy `P`. -/
noncomputable def matchedCount (P : W.Ev → V → Prop) (es : List W.Ev) : Nat :=
  countAt (fun a e => ∃ v, W.Matches a e v ∧ P e v) es

/-- The number of events that change a counter. -/
noncomputable def bumpCount (es : List W.Ev) : Nat :=
  countAt (fun a e => W.cell (W.step (W.run a) e) ≠ W.cell (W.run a)) es

/-- The number of start events. -/
noncomputable def startCount (es : List W.Ev) : Nat :=
  countAt (fun _ e => ∃ k v, W.view e = .start k v) es

/-- The number of starts that overwrite an accepted start of their key, with
no stop of the key in between. -/
noncomputable def overwrittenCount (es : List W.Ev) : Nat :=
  countAt (fun a e => ∃ k v v₀, W.view e = .start k v ∧ W.OpenAfter a k v₀) es

/-- The number of refused starts. -/
noncomputable def refusedCount (es : List W.Ev) : Nat :=
  countAt (fun a e => ∃ k v, W.view e = .start k v ∧ ¬ W.Accepts a k) es

/-- No start of `es` is refused. -/
def NoRefusal (es : List W.Ev) : Prop :=
  ∀ a e b k v, es = a ++ e :: b → W.view e = .start k v → W.Accepts a k

variable {W}

@[simp] theorem run_nil : W.run [] = W.init := rfl

theorem run_concat (es : List W.Ev) (e : W.Ev) : W.run (es ++ [e]) = W.step (W.run es) e := by
  simp [run]

/-! ## The table -/

theorem table_start {s : W.St} {e : W.Ev} {k : K} {v : V} (hview : W.view e = .start k v) :
    W.table (W.step s e) = (W.table s).update k v :=
  (W.step_start s e k v hview).1

/-- A stop leaves nothing under its key, matched or not. -/
theorem table_stop {s : W.St} {e : W.Ev} {k : K} (hview : W.view e = .stop k) :
    W.table (W.step s e) = (W.table s).delete k := by
  cases hl : (W.table s).lookup k with
  | none => rw [W.step_stop_none s e k hview hl, BoundedMap.delete_of_lookup_eq_none hl]
  | some v => exact (W.step_stop_some s e k v hview hl).1

theorem OpenAfter.not_nil {k : K} {v : V} : ¬ W.OpenAfter [] k v := by
  rintro ⟨a, e, b, h, -⟩
  simp at h

/-- An event on another key leaves what is open under `k`. -/
theorem openAfter_concat_of_ne {es : List W.Ev} {e : W.Ev} {k : K} (hk : (W.view e).key ≠ k)
    (v : V) : W.OpenAfter (es ++ [e]) k v ↔ W.OpenAfter es k v := by
  constructor
  · rintro ⟨a, x, b, hes, hx, hacc, hb⟩
    rcases List.eq_nil_or_concat b with rfl | ⟨b', y, rfl⟩
    · -- the start would be `e` itself
      obtain ⟨-, hex⟩ := List.append_inj' hes rfl
      obtain rfl : e = x := by simpa using hex
      exact absurd (by rw [hx]; rfl) hk
    · rw [List.concat_eq_append, ← List.cons_append, ← List.append_assoc] at hes
      obtain ⟨hes', -⟩ := List.append_inj' hes rfl
      exact ⟨a, x, b', hes', hx, hacc, fun z hz => hb z (by simp [hz])⟩
  · rintro ⟨a, x, b, rfl, hx, hacc, hb⟩
    refine ⟨a, x, b ++ [e], by simp, hx, hacc, ?_⟩
    intro z hz
    rcases List.mem_append.mp hz with hz | hz
    · exact hb z hz
    · rw [List.mem_singleton.mp hz]
      exact hk

/-- After an event on `k`, only that event can be open under `k`. -/
theorem openAfter_concat_of_eq {es : List W.Ev} {e : W.Ev} {k : K} (hk : (W.view e).key = k)
    (v : V) : W.OpenAfter (es ++ [e]) k v ↔ W.view e = .start k v ∧ W.Accepts es k := by
  constructor
  · rintro ⟨a, x, b, hes, hx, hacc, hb⟩
    rcases List.eq_nil_or_concat b with rfl | ⟨b', y, rfl⟩
    · obtain ⟨rfl, hex⟩ := List.append_inj' hes rfl
      obtain rfl : e = x := by simpa using hex
      exact ⟨hx, hacc⟩
    · -- `e` would come after the last event on its own key
      rw [List.concat_eq_append, ← List.cons_append, ← List.append_assoc] at hes
      obtain ⟨-, hey⟩ := List.append_inj' hes rfl
      obtain rfl : e = y := by simpa using hey
      exact absurd hk (hb e (by simp))
  · rintro ⟨hview, hacc⟩
    exact ⟨es, e, [], rfl, hview, hacc, by simp⟩

/-- An event on another key leaves what is stored under `k`. -/
theorem lookup_step_of_ne {s : W.St} {e : W.Ev} {k : K} (hk : (W.view e).key ≠ k) :
    (W.table (W.step s e)).lookup k = (W.table s).lookup k := by
  cases hview : W.view e with
  | start k' w =>
      have hne : k ≠ k' := fun h => hk (by simp [hview, h])
      rw [(W.step_start _ e k' w hview).1, BoundedMap.lookup_update_of_ne _ hne]
  | stop k' =>
      have hne : k ≠ k' := fun h => hk (by simp [hview, h])
      cases hl : (W.table s).lookup k' with
      | none => rw [W.step_stop_none _ e k' hview hl]
      | some w =>
          rw [(W.step_stop_some _ e k' w hview hl).1, BoundedMap.lookup_delete_of_ne _ hne]

/-- The table holds `v` under `k` exactly when the last event on `k` is an
accepted start of `v`. -/
theorem lookup_run_iff (es : List W.Ev) (k : K) (v : V) :
    (W.table (W.run es)).lookup k = some v ↔ W.OpenAfter es k v := by
  -- on the last event: on another key it changes neither side
  induction es using List.reverseRecOn generalizing k v with
  | nil => simp [W.table_init, OpenAfter.not_nil]
  | append_singleton es e ih =>
      rw [run_concat]
      by_cases hk : (W.view e).key = k
      · rw [openAfter_concat_of_eq hk]
        cases hview : W.view e with
        | start k' w =>
            obtain rfl : k' = k := by simpa [hview] using hk
            -- accepted, the start is open; refused, the key was absent before
            rw [(W.step_start _ e k' w hview).1, BoundedMap.lookup_update_self_iff]
            simp [Accepts, and_comm]
        | stop k' =>
            obtain rfl : k' = k := by simpa [hview] using hk
            cases hl : (W.table (W.run es)).lookup k' with
            | none => rw [W.step_stop_none _ e k' hview hl, hl]; simp
            | some w => rw [(W.step_stop_some _ e k' w hview hl).1]; simp
      · rw [openAfter_concat_of_ne hk, ← ih, lookup_step_of_ne hk]

theorem lookup_run_eq_none_iff (es : List W.Ev) (k : K) :
    (W.table (W.run es)).lookup k = none ↔ ∀ v, ¬ W.OpenAfter es k v := by
  rw [Option.eq_none_iff_forall_ne_some]
  exact forall_congr' fun v => not_congr (lookup_run_iff es k v)

theorem OpenAfter.unique {es : List W.Ev} {k : K} {v w : V} (hv : W.OpenAfter es k v)
    (hw : W.OpenAfter es k w) : v = w := by
  rw [← lookup_run_iff] at hv hw
  exact Option.some.inj (hv.symm.trans hw)

theorem Matches.unique {es : List W.Ev} {e : W.Ev} {v w : V} (hv : W.Matches es e v)
    (hw : W.Matches es e w) : v = w := by
  obtain ⟨k, hk, hopen⟩ := hv
  obtain ⟨k', hk', hopen'⟩ := hw
  obtain rfl : k = k' := by simpa [hk] using hk'
  exact hopen.unique hopen'

/-- A stop with nothing open under its key changes nothing. -/
theorem step_eq_of_not_open {es : List W.Ev} {e : W.Ev} {k : K} (hview : W.view e = .stop k)
    (h : ∀ v, ¬ W.OpenAfter es k v) : W.step (W.run es) e = W.run es :=
  W.step_stop_none _ e k hview ((lookup_run_eq_none_iff es k).mpr h)

/-- After a refused start, and until the next event on its key, nothing is
open under the key. -/
theorem not_openAfter_of_refused {a b : List W.Ev} {e : W.Ev} {k : K} {v : V}
    (hview : W.view e = .start k v) (href : ¬ W.Accepts a k)
    (hb : ∀ x ∈ b, (W.view x).key ≠ k) (w : V) : ¬ W.OpenAfter (a ++ e :: b) k w := by
  induction b using List.reverseRecOn with
  | nil =>
      rw [openAfter_concat_of_eq (by rw [hview]; rfl)]
      exact fun h => href h.2
  | append_singleton b x ih =>
      rw [← List.cons_append, ← List.append_assoc, openAfter_concat_of_ne (hb x (by simp))]
      exact ih fun y hy => hb y (by simp [hy])

/-! ## The counters -/

theorem not_matches_of_start {es : List W.Ev} {e : W.Ev} {k : K} {v : V}
    (hview : W.view e = .start k v) (w : V) : ¬ W.Matches es e w := by
  rintro ⟨k', hk', -⟩
  simp [hview] at hk'

theorem matches_iff_of_stop {es : List W.Ev} {e : W.Ev} {k : K} (hview : W.view e = .stop k)
    (v : V) : W.Matches es e v ↔ W.OpenAfter es k v := by
  constructor
  · rintro ⟨k', hk', hopen⟩
    obtain rfl : k = k' := by simpa [hview] using hk'
    exact hopen
  · exact fun hopen => ⟨k, hview, hopen⟩

theorem accepts_nil (h : 0 < cap) (k : K) : W.Accepts [] k := by
  rw [Accepts, run_nil, W.table_init]
  exact BoundedMap.accepts_empty h k

/-- A stop right after an accepted start of its key is matched by it. -/
theorem matches_concat {es : List W.Ev} {e f : W.Ev} {k : K} {v : V}
    (hstart : W.view e = .start k v) (hacc : W.Accepts es k) (hstop : W.view f = .stop k) :
    W.Matches (es ++ [e]) f v :=
  ⟨k, hstop, (openAfter_concat_of_eq (by rw [hstart]; rfl) v).mpr ⟨hstart, hacc⟩⟩

open Classical in
theorem matchedCount_concat (P : W.Ev → V → Prop) (es : List W.Ev) (e : W.Ev) :
    W.matchedCount P (es ++ [e]) =
      W.matchedCount P es + if ∃ v, W.Matches es e v ∧ P e v then 1 else 0 :=
  countAt_concat _ es e

@[simp] theorem matchedCount_nil (P : W.Ev → V → Prop) : W.matchedCount P [] = 0 := rfl

/-- One step of a counter, in terms of the history. -/
theorem cell_step (es : List W.Ev) (e : W.Ev) (b : B)
    [Decidable (∃ v, W.Matches es e v ∧ W.cellOf e v = b)] :
    W.cell (W.step (W.run es) e) b =
      W.cell (W.run es) b + if ∃ v, W.Matches es e v ∧ W.cellOf e v = b then 1 else 0 := by
  cases hview : W.view e with
  | start k v =>
      have hnone : ¬ ∃ v, W.Matches es e v ∧ W.cellOf e v = b := fun ⟨w, hw, _⟩ =>
        not_matches_of_start hview w hw
      rw [if_neg hnone, (W.step_start _ e k v hview).2, UInt64.add_zero]
  | stop k =>
      cases hl : (W.table (W.run es)).lookup k with
      | none =>
          have hnone : ¬ ∃ v, W.Matches es e v ∧ W.cellOf e v = b := fun ⟨w, hw, _⟩ =>
            (lookup_run_eq_none_iff es k).mp hl w ((matches_iff_of_stop hview w).mp hw)
          rw [if_neg hnone, W.step_stop_none _ e k hview hl, UInt64.add_zero]
      | some v =>
          have hv : W.Matches es e v :=
            (matches_iff_of_stop hview v).mpr ((lookup_run_iff es k v).mp hl)
          have hiff : (∃ w, W.Matches es e w ∧ W.cellOf e w = b) ↔ W.cellOf e v = b :=
            ⟨fun ⟨w, hw, hb⟩ => hw.unique hv ▸ hb, fun hb => ⟨v, hv, hb⟩⟩
          rw [(W.step_stop_some _ e k v hview hl).2 b]
          simp only [hiff]
          split <;> simp

/-- A counter holds the number of matched stops that fall into it, modulo
`2^64`. -/
theorem cell_run (es : List W.Ev) (b : B) :
    W.cell (W.run es) b = UInt64.ofNat (W.matchedCount (fun e v => W.cellOf e v = b) es) := by
  induction es using List.reverseRecOn with
  | nil => simp [W.cell_init]
  | append_singleton es e ih =>
      classical
      rw [run_concat, cell_step, ih, matchedCount_concat, UInt64.ofNat_add]
      split <;> rfl

theorem matchedCount_mono {P Q : W.Ev → V → Prop} (h : ∀ e v, P e v → Q e v)
    (es : List W.Ev) : W.matchedCount P es ≤ W.matchedCount Q es :=
  countAt_mono (fun _ e ⟨v, hv, hP⟩ => ⟨v, hv, h e v hP⟩) es

/-- Predicates that agree on the matched stops of a run count the same. -/
theorem matchedCount_congr {P Q : W.Ev → V → Prop} (es : List W.Ev)
    (h : ∀ a e b v, es = a ++ e :: b → W.Matches a e v → (P e v ↔ Q e v)) :
    W.matchedCount P es = W.matchedCount Q es :=
  countAt_congr es fun a e b hes =>
    exists_congr fun v => and_congr_right fun hv => h a e b v hes hv

theorem matchedCount_le_append (P : W.Ev → V → Prop) (es fs : List W.Ev) :
    W.matchedCount P es ≤ W.matchedCount P (es ++ fs) :=
  countAt_le_append _ es fs

theorem matchedCount_le_length (P : W.Ev → V → Prop) (es : List W.Ev) :
    W.matchedCount P es ≤ es.length :=
  countAt_le_length _ es

/-- Exactly the matched stops change a counter. -/
theorem cell_step_ne_iff (es : List W.Ev) (e : W.Ev) :
    W.cell (W.step (W.run es) e) ≠ W.cell (W.run es) ↔ ∃ v, W.Matches es e v := by
  cases hview : W.view e with
  | start k v =>
      rw [(W.step_start _ e k v hview).2]
      exact iff_of_false (fun h => h rfl) fun ⟨w, hw⟩ => not_matches_of_start hview w hw
  | stop k =>
      simp only [matches_iff_of_stop hview]
      cases hl : (W.table (W.run es)).lookup k with
      | none =>
          rw [W.step_stop_none _ e k hview hl]
          exact iff_of_false (fun h => h rfl)
            (not_exists.mpr ((lookup_run_eq_none_iff es k).mp hl))
      | some v =>
          refine iff_of_true (fun h => ?_) ⟨v, (lookup_run_iff es k v).mp hl⟩
          have hcell := (W.step_stop_some _ e k v hview hl).2 (W.cellOf e v)
          rw [h, if_pos rfl] at hcell
          exact add_one_ne _ hcell.symm

theorem bumpCount_eq (es : List W.Ev) :
    W.bumpCount es = W.matchedCount (fun _ _ => True) es :=
  countAt_congr es fun a e _ _ => by simp [cell_step_ne_iff]

theorem bumpCount_lt_of_length {es : List W.Ev} {n : Nat} (h : es.length < n) :
    W.bumpCount es < n :=
  (countAt_le_length _ es).trans_lt h

/-! ## The ledger -/

open Classical in
/-- What one more start does to the ledger. -/
private theorem ledger_start (es : List W.Ev) {e : W.Ev} {k : K} {v : V}
    (hview : W.view e = .start k v) :
    W.matchedCount (fun _ _ => True) (es ++ [e]) = W.matchedCount (fun _ _ => True) es ∧
    W.startCount (es ++ [e]) = W.startCount es + 1 ∧
    W.overwrittenCount (es ++ [e]) =
      W.overwrittenCount es + (if ∃ v₀, W.OpenAfter es k v₀ then 1 else 0) ∧
    W.refusedCount (es ++ [e]) = W.refusedCount es + if W.Accepts es k then 0 else 1 := by
  have hnone : ¬ ∃ w, W.Matches es e w ∧ True := fun ⟨w, hw, _⟩ =>
    not_matches_of_start hview w hw
  have hover : (∃ k' w v₀, W.view e = .start k' w ∧ W.OpenAfter es k' v₀) ↔
      ∃ v₀, W.OpenAfter es k v₀ := by simp [hview]
  have href : (∃ k' w, W.view e = .start k' w ∧ ¬ W.Accepts es k') ↔ ¬ W.Accepts es k := by
    simp [hview]
  refine ⟨?_, ?_, ?_, ?_⟩
  · rw [matchedCount_concat, if_neg hnone, Nat.add_zero]
  · rw [startCount, countAt_concat, if_pos ⟨k, v, hview⟩]
    rfl
  · rw [overwrittenCount, countAt_concat]
    simp only [hover]
    rfl
  · rw [refusedCount, countAt_concat]
    simp only [href, ite_not]
    rfl

open Classical in
/-- What one more stop does to the ledger. -/
private theorem ledger_stop (es : List W.Ev) {e : W.Ev} {k : K} (hview : W.view e = .stop k) :
    W.matchedCount (fun _ _ => True) (es ++ [e]) =
      W.matchedCount (fun _ _ => True) es + (if ∃ v, W.OpenAfter es k v then 1 else 0) ∧
    W.startCount (es ++ [e]) = W.startCount es ∧
    W.overwrittenCount (es ++ [e]) = W.overwrittenCount es ∧
    W.refusedCount (es ++ [e]) = W.refusedCount es := by
  refine ⟨?_, ?_, ?_, ?_⟩
  · rw [matchedCount_concat]
    simp only [matches_iff_of_stop hview, and_true]
  · rw [startCount, countAt_concat, if_neg (by simp [hview])]
    rfl
  · rw [overwrittenCount, countAt_concat, if_neg (by simp [hview])]
    rfl
  · rw [refusedCount, countAt_concat, if_neg (by simp [hview])]
    rfl

/-- Every start is matched, overwritten, refused or still in the table. -/
theorem ledger (es : List W.Ev) :
    W.startCount es = W.matchedCount (fun _ _ => True) es + W.overwrittenCount es +
      W.refusedCount es + (W.table (W.run es)).size := by
  induction es using List.reverseRecOn with
  | nil => simp [startCount, overwrittenCount, refusedCount, W.table_init]
  | append_singleton es e ih =>
      classical
      rw [run_concat]
      -- a start adds one on the left, and one to exactly one of: the size, the
      -- overwritten, the refused; a matched stop moves one out of the size
      cases hview : W.view e with
      | start k v =>
          obtain ⟨hmatched, hstarts, hover, href⟩ := ledger_start es hview
          rw [hmatched, hstarts, hover, href, (W.step_start _ e k v hview).1]
          cases hl : (W.table (W.run es)).lookup k with
          | none =>
              have hopen : ¬ ∃ v₀, W.OpenAfter es k v₀ :=
                not_exists.mpr ((lookup_run_eq_none_iff es k).mp hl)
              by_cases hacc : W.Accepts es k
              · rw [if_neg hopen, if_pos hacc, BoundedMap.size_update_of_none hl hacc]
                omega
              · have hfull : ¬ (W.table (W.run es)).Accepts k := hacc
                rw [if_neg hopen, if_neg hacc, BoundedMap.update_of_not_accepts hfull]
                omega
          | some v₀ =>
              have hopen : ∃ v₀, W.OpenAfter es k v₀ := ⟨v₀, (lookup_run_iff es k v₀).mp hl⟩
              have hacc : W.Accepts es k := BoundedMap.accepts_of_lookup hl
              rw [if_pos hopen, if_pos hacc, BoundedMap.size_update_of_lookup hl]
              omega
      | stop k =>
          obtain ⟨hmatched, hstarts, hover, href⟩ := ledger_stop es hview
          rw [hmatched, hstarts, hover, href]
          cases hl : (W.table (W.run es)).lookup k with
          | none =>
              have hopen : ¬ ∃ v, W.OpenAfter es k v :=
                not_exists.mpr ((lookup_run_eq_none_iff es k).mp hl)
              rw [if_neg hopen, W.step_stop_none _ e k hview hl]
              omega
          | some v =>
              have hopen : ∃ v, W.OpenAfter es k v := ⟨v, (lookup_run_iff es k v).mp hl⟩
              have hsize := BoundedMap.size_delete_of_lookup hl
              rw [if_pos hopen, (W.step_stop_some _ e k v hview hl).1]
              omega

/-- A table is at most as full as there were starts. -/
theorem size_le_length (es : List W.Ev) : (W.table (W.run es)).size ≤ es.length := by
  have hledger := ledger es
  have hstarts : W.startCount es ≤ es.length := countAt_le_length _ es
  omega

/-- A table that is larger than the run refuses nothing. -/
theorem accepts_of_length_lt {es : List W.Ev} (h : es.length < cap) (k : K) : W.Accepts es k :=
  Or.inr ((size_le_length es).trans_lt h)

/-- A run shorter than the table is large refuses no start. -/
theorem noRefusal_of_length_le {es : List W.Ev} (h : es.length ≤ cap) : W.NoRefusal es := by
  rintro a e b k v rfl -
  apply accepts_of_length_lt
  rw [List.length_append, List.length_cons] at h
  omega

end Stopwatch
end Lib
