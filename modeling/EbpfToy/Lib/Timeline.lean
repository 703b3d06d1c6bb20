import Mathlib.Order.Lattice
import EbpfToy.Lib.Machine

/-!
# The state of a run at a moment in time

When the actions of a run carry timestamps that never go back, the run has a
state at every moment: the one after all actions up to and including that
moment. Moments may lie between two timestamps, so they are taken from any
linear order.
-/

namespace Lib.Machine

variable {S A T : Type} (M : Machine S A) [LinearOrder T] (time : A → T)

/-- The clock never goes back along the actions. -/
def Timed (as : List A) : Prop := as.Pairwise fun a b => time a ≤ time b

instance (as : List A) : Decidable (Timed time as) :=
  inferInstanceAs (Decidable (List.Pairwise _ as))

/-- The state at the moment `τ` of the run `as` from `s`. -/
def stateAt (s : S) (as : List A) (τ : T) : S :=
  M.exec s (as.filter fun a => decide (time a ≤ τ))

variable {M time}

theorem Timed.left {as bs : List A} (h : Timed time (as ++ bs)) : Timed time as :=
  (List.pairwise_append.mp h).1

/-- No action comes before an earlier one. -/
theorem Timed.le_of_mem {pre post : List A} {a b : A} (h : Timed time (pre ++ a :: post))
    (hb : b ∈ pre) : time b ≤ time a :=
  (List.pairwise_append.mp h).2.2 b hb a List.mem_cons_self

/-- Actions after the moment do not matter. -/
theorem stateAt_append_of_lt (s : S) (as : List A) {bs : List A} {τ : T}
    (h : ∀ b ∈ bs, τ < time b) : M.stateAt time s (as ++ bs) τ = M.stateAt time s as τ := by
  have hnone : bs.filter (fun b => decide (time b ≤ τ)) = [] := by
    rw [List.filter_eq_nil_iff]
    intro b hb
    simpa using h b hb
  rw [stateAt, List.filter_append, hnone, List.append_nil]
  rfl

/-- From the last action on, the state is the final one. -/
theorem stateAt_of_forall_le (s : S) {as : List A} {τ : T} (h : ∀ a ∈ as, time a ≤ τ) :
    M.stateAt time s as τ = M.exec s as := by
  have hall : as.filter (fun a => decide (time a ≤ τ)) = as := by
    rw [List.filter_eq_self]
    intro a ha
    simpa using h a ha
  rw [stateAt, hall]

/-- One more action: before its time nothing changes, from its time on the
state is the new one. -/
theorem stateAt_concat {as : List A} {a : A} (h : Timed time (as ++ [a])) (s : S) (τ : T) :
    M.stateAt time s (as ++ [a]) τ =
      if time a ≤ τ then M.exec s (as ++ [a]) else M.stateAt time s as τ := by
  split
  · rename_i hle
    apply stateAt_of_forall_le
    intro b hb
    rcases List.mem_append.mp hb with hb | hb
    · exact le_trans (h.le_of_mem hb) hle
    · rw [List.mem_singleton.mp hb]
      exact hle
  · rename_i hlt
    apply stateAt_append_of_lt
    intro b hb
    rw [List.mem_singleton.mp hb]
    exact lt_of_not_ge hlt

/-- Before an action of the run, its moments are those of the run so far. -/
theorem stateAt_of_lt {pre post : List A} {a : A} (h : Timed time (pre ++ a :: post)) (s : S)
    {τ : T} (hτ : τ < time a) :
    M.stateAt time s (pre ++ a :: post) τ = M.stateAt time s pre τ := by
  apply stateAt_append_of_lt
  intro b hb
  rcases List.mem_cons.mp hb with rfl | hb
  · exact hτ
  · exact lt_of_lt_of_le hτ ((List.pairwise_cons.mp (List.pairwise_append.mp h).2.1).1 b hb)

end Lib.Machine
