import Mathlib.Data.Finset.Card
import Mathlib.Data.List.Induction
import Mathlib.Algebra.BigOperators.Group.Finset.Basic
import Mathlib.Algebra.BigOperators.Ring.Finset

/-!
# Counting over a history

A history is the list of events so far, oldest first. `countAt Q es` counts
the positions of `es` at which `Q` holds of the events before and the event
itself. It grows by at most one with each event (`countAt_concat`), which is
all that an induction over a run needs.
-/

namespace Lib

variable {E : Type}

/-- `Q` holds at position `i` of `es`, of the events before it and its event. -/
def HoldsAt (Q : List E → E → Prop) (es : List E) (i : Nat) : Prop :=
  ∃ e, es[i]? = some e ∧ Q (es.take i) e

open Classical in
/-- The number of positions of `es` at which `Q` holds. -/
noncomputable def countAt (Q : List E → E → Prop) (es : List E) : Nat :=
  ((Finset.range es.length).filter (HoldsAt Q es)).card

@[simp] theorem countAt_nil (Q : List E → E → Prop) : countAt Q [] = 0 := rfl

/-- A position inside `es` sees the same events once `e` is appended. -/
private theorem holdsAt_concat_of_lt (Q : List E → E → Prop) (es : List E) (e : E) {i : Nat}
    (hi : i < es.length) : HoldsAt Q (es ++ [e]) i ↔ HoldsAt Q es i := by
  unfold HoldsAt
  rw [List.getElem?_append_left hi, List.take_append_of_le_length hi.le]

private theorem holdsAt_concat_length (Q : List E → E → Prop) (es : List E) (e : E) :
    HoldsAt Q (es ++ [e]) es.length ↔ Q es e := by
  simp [HoldsAt]

open Classical in
theorem countAt_concat (Q : List E → E → Prop) (es : List E) (e : E) :
    countAt Q (es ++ [e]) = countAt Q es + if Q es e then 1 else 0 := by
  unfold countAt
  rw [List.length_append, List.length_singleton, Finset.range_add_one, Finset.filter_insert,
    Finset.filter_congr fun i hi => holdsAt_concat_of_lt Q es e (Finset.mem_range.mp hi)]
  by_cases hQ : Q es e
  · rw [if_pos ((holdsAt_concat_length Q es e).mpr hQ), if_pos hQ,
      Finset.card_insert_of_notMem (by simp)]
  · rw [if_neg fun h => hQ ((holdsAt_concat_length Q es e).mp h), if_neg hQ, Nat.add_zero]

/-- Predicates that agree at every point of the history count the same. -/
theorem countAt_congr {Q R : List E → E → Prop} (es : List E)
    (h : ∀ a e b, es = a ++ e :: b → (Q a e ↔ R a e)) : countAt Q es = countAt R es := by
  induction es using List.reverseRecOn with
  | nil => rfl
  | append_singleton es e ih =>
      have hlast : Q es e ↔ R es e := h es e [] rfl
      have hrest := ih fun a x b hab => h a x (b ++ [e]) (by simp [hab])
      rw [countAt_concat, countAt_concat, hrest]
      by_cases hQ : Q es e
      · rw [if_pos hQ, if_pos (hlast.mp hQ)]
      · rw [if_neg hQ, if_neg fun hR => hQ (hlast.mpr hR)]

theorem countAt_mono {Q R : List E → E → Prop} (h : ∀ a e, Q a e → R a e) (es : List E) :
    countAt Q es ≤ countAt R es := by
  induction es using List.reverseRecOn with
  | nil => exact le_rfl
  | append_singleton es e ih =>
      rw [countAt_concat, countAt_concat]
      have := h es e
      split <;> split <;> first | omega | tauto

theorem countAt_le_append (Q : List E → E → Prop) (es fs : List E) :
    countAt Q es ≤ countAt Q (es ++ fs) := by
  induction fs using List.reverseRecOn with
  | nil => simp
  | append_singleton fs e ih =>
      rw [← List.append_assoc, countAt_concat]
      omega

/-- A count is zero when nothing in the history qualifies. -/
theorem countAt_eq_zero {Q : List E → E → Prop} {es : List E}
    (h : ∀ a e b, es = a ++ e :: b → ¬ Q a e) : countAt Q es = 0 := by
  have hfalse : countAt Q es = countAt (fun _ _ => False) es :=
    countAt_congr es fun a e b hab => iff_false_intro (h a e b hab)
  rw [hfalse]
  simp [countAt, HoldsAt]

theorem countAt_le_length (Q : List E → E → Prop) (es : List E) : countAt Q es ≤ es.length := by
  classical
  calc countAt Q es ≤ (Finset.range es.length).card := Finset.card_filter_le _ _
    _ = es.length := Finset.card_range es.length

theorem countAt_pos {Q : List E → E → Prop} {es a b : List E} {e : E}
    (hes : es = a ++ e :: b) (h : Q a e) : 0 < countAt Q es := by
  subst hes
  have hle := countAt_le_append Q (a ++ [e]) b
  rw [countAt_concat, if_pos h, List.append_assoc, List.singleton_append] at hle
  omega

open Classical in
/-- Counting by classes: when `R` gives a qualifying event one class, the
classes' counts add up to the count. -/
theorem sum_countAt {B : Type} [Fintype B] {Q : List E → E → Prop}
    {R : B → List E → E → Prop} (es : List E)
    (hclass : ∀ a e, Q a e → ∃! b, R b a e) (honly : ∀ b a e, R b a e → Q a e) :
    ∑ b, countAt (R b) es = countAt Q es := by
  induction es using List.reverseRecOn with
  | nil => simp
  | append_singleton es e ih =>
      simp only [countAt_concat, Finset.sum_add_distrib, ih]
      congr 1
      by_cases hQ : Q es e
      · obtain ⟨b₀, hb₀, huniq⟩ := hclass es e hQ
        have hiff : ∀ b, R b es e ↔ b = b₀ := fun b =>
          ⟨huniq b, fun hb => hb ▸ hb₀⟩
        simp [hQ, hiff]
      · have hnone : ∀ b, ¬ R b es e := fun b hb => hQ (honly b es e hb)
        simp [hQ, hnone]

end Lib
