import Mathlib.Data.List.Count
import Mathlib.Data.List.Perm.Basic
import Mathlib.Logic.Function.Basic
import Mathlib.Tactic.Common

/-!
# Operations that are serial on each key

Agents run operations, one at a time each. Operations on different keys may
overlap in any way; two operations on the same key never do. `Serial` relates
the operations in progress, those that have begun and those that are done, in
the order in which they began and finished. When none is in progress the two
orders agree on each key, so one is a permutation of the other.
-/

namespace Lib

variable {C E K : Type} [DecidableEq K]

/-- `busy` says which operation an agent is running, `begun` and `done` list
the operations in the order in which they began and finished. -/
structure Serial (key : E → K) (busy : C → Option E) (begun done : List E) : Prop where
  /-- Operations in progress have different keys. -/
  apart : ∀ c c' e e', busy c = some e → busy c' = some e' → key e = key e' → c = c'
  /-- On a key with nothing in progress the two orders agree. -/
  settled : ∀ k, (∀ c e, busy c = some e → key e ≠ k) →
    begun.filter (fun e => decide (key e = k)) = done.filter (fun e => decide (key e = k))
  /-- An operation in progress is the last one begun on its key. -/
  pending : ∀ c e, busy c = some e →
    begun.filter (fun f => decide (key f = key e)) =
      done.filter (fun f => decide (key f = key e)) ++ [e]

namespace Serial

variable {key : E → K} {busy : C → Option E} {begun done : List E}

theorem start (key : E → K) : Serial key (fun _ : C => none) [] [] where
  apart _ _ _ _ h := absurd h (by simp)
  settled _ _ := rfl
  pending _ _ h := absurd h (by simp)

/-- What is in progress once `c` has begun `e`. -/
theorem update_some_iff [DecidableEq C] {c c' : C} {e f : E} :
    Function.update busy c (some e) c' = some f ↔
      (c' = c ∧ e = f) ∨ (c' ≠ c ∧ busy c' = some f) := by
  by_cases hc : c' = c <;> simp [hc]

/-- What is in progress once `c` has finished. -/
theorem update_none_iff [DecidableEq C] {c c' : C} {f : E} :
    Function.update busy c none c' = some f ↔ c' ≠ c ∧ busy c' = some f := by
  by_cases hc : c' = c <;> simp [hc]

/-- An idle agent begins an operation on a key that nobody is working on. -/
theorem enter [DecidableEq C] (h : Serial key busy begun done) {c : C} {e : E}
    (hidle : busy c = none) (hfree : ∀ c' f, busy c' = some f → key f ≠ key e) :
    Serial key (Function.update busy c (some e)) (begun ++ [e]) done where
  apart := by
    intro c₁ c₂ e₁ e₂ h₁ h₂ hkey
    rcases update_some_iff.mp h₁ with ⟨rfl, rfl⟩ | ⟨-, hold₁⟩
    · rcases update_some_iff.mp h₂ with ⟨rfl, -⟩ | ⟨-, hold₂⟩
      · rfl
      · exact absurd hkey.symm (hfree c₂ e₂ hold₂)
    · rcases update_some_iff.mp h₂ with ⟨rfl, rfl⟩ | ⟨-, hold₂⟩
      · exact absurd hkey (hfree c₁ e₁ hold₁)
      · exact h.apart c₁ c₂ e₁ e₂ hold₁ hold₂ hkey
  settled := by
    intro k hk
    have hek : key e ≠ k := hk c e (Function.update_self c (some e) busy)
    have hold : ∀ c' f, busy c' = some f → key f ≠ k := by
      intro c' f hf
      refine hk c' f (update_some_iff.mpr (.inr ⟨?_, hf⟩))
      rintro rfl
      exact absurd (hidle.symm.trans hf) (Option.some_ne_none f).symm
    rw [List.filter_append, h.settled k hold]
    simp [hek]
  pending := by
    intro c' f hf
    rcases update_some_iff.mp hf with ⟨rfl, rfl⟩ | ⟨-, hold⟩
    · -- the new operation: its key was settled
      rw [List.filter_append, h.settled (key e) hfree]
      simp
    · have hne : key e ≠ key f := fun heq => hfree c' f hold heq.symm
      rw [List.filter_append, h.pending c' f hold]
      simp [hne]

/-- An agent finishes its operation. -/
theorem complete [DecidableEq C] (h : Serial key busy begun done) {c : C} {e : E}
    (hbusy : busy c = some e) :
    Serial key (Function.update busy c none) begun (done ++ [e]) where
  apart := by
    intro c₁ c₂ e₁ e₂ h₁ h₂ hkey
    exact h.apart c₁ c₂ e₁ e₂ (update_none_iff.mp h₁).2 (update_none_iff.mp h₂).2 hkey
  settled := by
    intro k hk
    by_cases hek : key e = k
    · -- the finished operation was the last one begun on `k`
      subst hek
      rw [h.pending c e hbusy, List.filter_append]
      simp
    · have hold : ∀ c' f, busy c' = some f → key f ≠ k := by
        intro c' f hf
        by_cases hc : c' = c
        · rw [hc, hbusy] at hf
          obtain rfl := Option.some.inj hf
          exact hek
        · exact hk c' f (update_none_iff.mpr ⟨hc, hf⟩)
      rw [h.settled k hold, List.filter_append]
      simp [hek]
  pending := by
    intro c' f hf
    obtain ⟨hc, hf⟩ := update_none_iff.mp hf
    have hne : key e ≠ key f := fun heq => hc (h.apart c' c f e hf hbusy heq.symm)
    rw [h.pending c' f hf, List.filter_append]
    simp [hne]

/-- With nothing in progress each key's own order is kept. -/
theorem filter_eq (h : Serial key busy begun done) (hidle : ∀ c, busy c = none) (k : K) :
    done.filter (fun e => decide (key e = k)) = begun.filter (fun e => decide (key e = k)) :=
  (h.settled k fun c e he => absurd ((hidle c).symm.trans he) (by simp)).symm

end Serial

/-- Lists that agree on each key are permutations of each other. -/
theorem perm_of_filter_eq [DecidableEq E] {key : E → K} {l l' : List E}
    (h : ∀ k, l.filter (fun e => decide (key e = k)) = l'.filter (fun e => decide (key e = k))) :
    l.Perm l' := by
  rw [List.perm_iff_count]
  intro e
  have hcount : ∀ m : List E, (m.filter fun f => decide (key f = key e)).count e = m.count e :=
    fun m => List.count_filter (by simp)
  rw [← hcount l, ← hcount l', h (key e)]

end Lib
