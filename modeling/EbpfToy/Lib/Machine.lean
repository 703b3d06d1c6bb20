import Mathlib.Data.List.Induction

/-!
# Guarded machines

A machine is a total step function with a guard. A run is a list of actions;
it is legal when every action is allowed in the state it meets. `trace` lists
the actions with the states they meet, so that a property of single steps can
be stated over a whole run. One machine simulates another when it can answer
each action with actions of its own.
-/

namespace Lib

/-- A guarded machine over states `S` and actions `A`. -/
structure Machine (S A : Type) where
  allowed : S → A → Prop
  next : S → A → S

namespace Machine

variable {S A : Type} (M : Machine S A)

/-- The state after the actions `as`. -/
def exec (s : S) (as : List A) : S := as.foldl M.next s

/-- Every action of `as` is allowed where it happens. -/
def Legal : S → List A → Prop
  | _, [] => True
  | s, a :: as => M.allowed s a ∧ Legal (M.next s a) as

instance decidableLegal [∀ s a, Decidable (M.allowed s a)] : ∀ s as, Decidable (M.Legal s as)
  | _, [] => inferInstanceAs (Decidable True)
  | s, a :: as =>
      have := decidableLegal (M.next s a) as
      inferInstanceAs (Decidable (_ ∧ _))

/-- The actions of a run, each with the state it meets. -/
def trace : S → List A → List (S × A)
  | _, [] => []
  | s, a :: as => (s, a) :: trace (M.next s a) as

variable {M}

@[simp] theorem exec_nil (s : S) : M.exec s [] = s := rfl

@[simp] theorem exec_cons (s : S) (a : A) (as : List A) :
    M.exec s (a :: as) = M.exec (M.next s a) as := rfl

theorem exec_append (s : S) (as bs : List A) :
    M.exec s (as ++ bs) = M.exec (M.exec s as) bs := List.foldl_append

theorem exec_concat (s : S) (as : List A) (a : A) :
    M.exec s (as ++ [a]) = M.next (M.exec s as) a := exec_append s as [a]

theorem legal_append (s : S) (as bs : List A) :
    M.Legal s (as ++ bs) ↔ M.Legal s as ∧ M.Legal (M.exec s as) bs := by
  induction as generalizing s with
  | nil => simp [Legal]
  | cons a as ih => simp [Legal, ih, and_assoc]

theorem legal_concat (s : S) (as : List A) (a : A) :
    M.Legal s (as ++ [a]) ↔ M.Legal s as ∧ M.allowed (M.exec s as) a := by
  simp [legal_append, Legal]

theorem trace_append (s : S) (as bs : List A) :
    M.trace s (as ++ bs) = M.trace s as ++ M.trace (M.exec s as) bs := by
  induction as generalizing s with
  | nil => rfl
  | cons a as ih => simp [trace, ih]

theorem trace_concat (s : S) (as : List A) (a : A) :
    M.trace s (as ++ [a]) = M.trace s as ++ [(M.exec s as, a)] := trace_append s as [a]

/-- A step of the trace is a step of the run. -/
theorem exists_of_mem_trace {s₀ s : S} {as : List A} {a : A} (h : (s, a) ∈ M.trace s₀ as) :
    ∃ pre post, as = pre ++ a :: post ∧ s = M.exec s₀ pre := by
  induction as generalizing s₀ with
  | nil => simp [trace] at h
  | cons b as ih =>
      rcases List.mem_cons.mp h with hhead | htail
      · obtain ⟨rfl, rfl⟩ := Prod.mk.inj hhead
        exact ⟨[], as, rfl, rfl⟩
      · obtain ⟨pre, post, rfl, rfl⟩ := ih htail
        exact ⟨b :: pre, post, rfl, rfl⟩

/-- The invariant rule: what holds at the start and is kept by every allowed
step holds after every legal run. -/
theorem Legal.invariant {P : S → Prop} (hstep : ∀ s a, P s → M.allowed s a → P (M.next s a))
    {s : S} {as : List A} (h : M.Legal s as) (h0 : P s) : P (M.exec s as) := by
  induction as generalizing s with
  | nil => exact h0
  | cons a as ih => exact ih h.2 (hstep s a h0 h.1)

/-! ## Simulation -/

section Simulation

variable {S' A' : Type} {N : Machine S' A'} {emit : S → A → List A'} {Sim : S → S' → Prop}

variable (M) in
/-- Only the actions that satisfy `p` are allowed. -/
def guard (p : A → Prop) : Machine S A where
  allowed s a := M.allowed s a ∧ p a
  next := M.next

variable (M) in
/-- The actions of another machine, `emit s a` for each action `a` of a run. -/
def shadow (emit : S → A → List A') (s : S) (as : List A) : List A' :=
  (M.trace s as).flatMap fun x => emit x.1 x.2

variable (M N emit Sim) in
/-- Whatever `M` may do, `N` may do `emit s a` instead, and they stay related. -/
def Simulates : Prop :=
  ∀ s t a, Sim s t → M.allowed s a → N.Legal t (emit s a) ∧ Sim (M.next s a) (N.exec t (emit s a))

theorem Legal.guard {p : A → Prop} {s : S} {as : List A} (h : M.Legal s as) (hp : ∀ a ∈ as, p a) :
    (M.guard p).Legal s as := by
  induction as generalizing s with
  | nil => trivial
  | cons a as ih =>
      exact ⟨⟨h.1, hp a List.mem_cons_self⟩, ih h.2 fun b hb => hp b (List.mem_cons_of_mem a hb)⟩

theorem trace_guard (p : A → Prop) (s : S) (as : List A) :
    (M.guard p).trace s as = M.trace s as := by
  induction as generalizing s with
  | nil => rfl
  | cons a as ih => exact congrArg _ (ih (M.next s a))

/-- The simulation rule: a legal run has a legal shadow, which ends in a related
state. -/
theorem Simulates.run (hsim : M.Simulates N emit Sim) {s : S} {t : S'} {as : List A}
    (h : M.Legal s as) (h0 : Sim s t) :
    N.Legal t (M.shadow emit s as) ∧ Sim (M.exec s as) (N.exec t (M.shadow emit s as)) := by
  induction as generalizing s t with
  | nil => exact ⟨trivial, h0⟩
  | cons a as ih =>
      obtain ⟨hlegal, hnext⟩ := hsim s t a h0 h.1
      have hshadow : M.shadow emit s (a :: as) = emit s a ++ M.shadow emit (M.next s a) as := rfl
      obtain ⟨hrest, hend⟩ := ih h.2 hnext
      rw [hshadow, legal_append, exec_append]
      exact ⟨⟨hlegal, hrest⟩, hend⟩

/-- A step of the shadow belongs to a step of the run. -/
theorem Simulates.of_mem_trace (hsim : M.Simulates N emit Sim) {s : S} {t t' : S'} {as : List A}
    {b : A'} (h : M.Legal s as) (h0 : Sim s t) (hmem : (t', b) ∈ N.trace t (M.shadow emit s as)) :
    ∃ s' u a, (s', a) ∈ M.trace s as ∧ M.allowed s' a ∧ Sim s' u ∧
      (t', b) ∈ N.trace u (emit s' a) := by
  induction as generalizing s t with
  | nil => exact absurd hmem List.not_mem_nil
  | cons a as ih =>
      obtain ⟨-, hnext⟩ := hsim s t a h0 h.1
      have hshadow : M.shadow emit s (a :: as) = emit s a ++ M.shadow emit (M.next s a) as := rfl
      rw [hshadow, trace_append, List.mem_append] at hmem
      rcases hmem with hhead | htail
      · exact ⟨s, t, a, List.mem_cons_self, h.1, h0, hhead⟩
      · obtain ⟨s', u, a', hin, hrest⟩ := ih h.2 hnext htail
        exact ⟨s', u, a', List.mem_cons_of_mem _ hin, hrest⟩

end Simulation

end Machine
end Lib
