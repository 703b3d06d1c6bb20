import Mathlib.Logic.Relation
import Mathlib.Tactic.Common

/-!
# Programs that call a host

A program makes calls, each of which the host answers, and ends with a result.
The host has a state of its own, and changes it at any time, between two calls
as well as while one is in progress; how it answers a call, and what the call
does to the state, is a relation, so a call may fail or succeed as the host
likes.

`Ensures` is the weakest precondition of a program in such a host: whatever the
host does on its own and answers, the program ends only with the postcondition.
Its rules follow the program: a result, a call, two programs in sequence, a
loop over a list.
-/

namespace Lib

/-- A program with calls `Q`, answers `R`, and a result in `A`. -/
inductive Program (Q : Type) (R : Q → Type) (A : Type) where
  | result (a : A)
  | call (q : Q) (next : R q → Program Q R A)

namespace Program

variable {Q : Type} {R : Q → Type} {A B X : Type}

def bind : Program Q R A → (A → Program Q R B) → Program Q R B
  | .result a, f => f a
  | .call q next, f => .call q fun r => (next r).bind f

/-- A body for each element of a list, in order. -/
def loop (body : B → X → Program Q R B) : List X → B → Program Q R B
  | [], b => .result b
  | x :: xs, b => (body b x).bind (loop body xs)

end Program

/-- The host: what it does on its own, and how it answers calls. -/
structure Host (Q : Type) (R : Q → Type) (S : Type) where
  moves : S → S → Prop
  answers : S → (q : Q) → R q → S → Prop

namespace Host

variable {Q : Type} {R : Q → Type} {S A B X : Type} (H : Host Q R S)

/-- What the host may have done on its own. -/
def Later : S → S → Prop := Relation.ReflTransGen H.moves

/-- A program in its host, run up to some point. -/
inductive Run : S → Program Q R A → S → Program Q R A → Prop where
  | start (s : S) (p : Program Q R A) : Run s p s p
  | moved {s s' s'' : S} {p p' : Program Q R A} (run : Run s p s' p') (move : H.moves s' s'') :
      Run s p s'' p'
  | answered {s s' s'' : S} {p : Program Q R A} {q : Q} {next : R q → Program Q R A} {r : R q}
      (run : Run s p s' (.call q next)) (answer : H.answers s' q r s'') : Run s p s'' (next r)

/-- Whatever the host does, the program ends only with `Post`. -/
def Ensures (Post : A → S → Prop) : Program Q R A → S → Prop
  | .result a, s => ∀ s', H.Later s s' → Post a s'
  | .call q next, s =>
      ∀ s', H.Later s s' → ∀ r s'', H.answers s' q r s'' → Ensures Post (next r) s''

/-- The host keeps the property on its own. -/
def Stable (P : S → Prop) : Prop := ∀ s s', P s → H.moves s s' → P s'

/-- The host keeps the property, on its own and with every answer. -/
structure Invariant (I : S → Prop) : Prop where
  moves : H.Stable I
  answers : ∀ s q r s', I s → H.answers s q r s' → I s'

variable {H}

theorem Stable.later {P : S → Prop} (h : H.Stable P) {s s' : S} (hs : P s)
    (hlater : H.Later s s') : P s' := by
  induction hlater with
  | refl => exact hs
  | tail _ hmove ih => exact h _ _ ih hmove

/-- An invariant holds wherever a run gets, whatever the program is. -/
theorem Invariant.run {I : S → Prop} (h : H.Invariant I) {s s' : S} {p p' : Program Q R A}
    (hrun : H.Run s p s' p') (hs : I s) : I s' := by
  induction hrun with
  | start => exact hs
  | moved _ hmove ih => exact h.moves _ _ ih hmove
  | answered _ hanswer ih => exact h.answers _ _ _ _ ih hanswer

/-! ## Soundness -/

theorem Ensures.moved {Post : A → S → Prop} {p : Program Q R A} {s s' : S}
    (h : H.Ensures Post p s) (hmove : H.moves s s') : H.Ensures Post p s' := by
  cases p with
  | result a => exact fun t ht => h t (Relation.ReflTransGen.head hmove ht)
  | call q next => exact fun t ht => h t (Relation.ReflTransGen.head hmove ht)

theorem Ensures.run {Post : A → S → Prop} {p p' : Program Q R A} {s s' : S}
    (hrun : H.Run s p s' p') (h : H.Ensures Post p s) : H.Ensures Post p' s' := by
  induction hrun with
  | start => exact h
  | moved _ hmove ih => exact (ih h).moved hmove
  | answered _ hanswer ih => exact ih h _ Relation.ReflTransGen.refl _ _ hanswer

/-- A run that has ended has the postcondition. -/
theorem Ensures.sound {Post : A → S → Prop} {p : Program Q R A} {s s' : S} {a : A}
    (h : H.Ensures Post p s) (hrun : H.Run s p s' (.result a)) : Post a s' :=
  h.run hrun s' Relation.ReflTransGen.refl

/-! ## The rules -/

theorem Ensures.result {Post : A → S → Prop} {a : A} {s : S} (hstable : H.Stable (Post a))
    (h : Post a s) : H.Ensures Post (.result a) s :=
  fun _ hlater => hstable.later h hlater

/-- A call, entered with a property that the host keeps. -/
theorem Ensures.call {Post : A → S → Prop} {q : Q} {next : R q → Program Q R A} {P : S → Prop}
    (hstable : H.Stable P) {s : S} (hs : P s)
    (h : ∀ s r s', P s → H.answers s q r s' → H.Ensures Post (next r) s') :
    H.Ensures Post (.call q next) s :=
  fun s' hlater r s'' hanswer => h s' r s'' (hstable.later hs hlater) hanswer

theorem Ensures.mono {Post Post' : A → S → Prop} (hpost : ∀ a s, Post a s → Post' a s)
    {p : Program Q R A} {s : S} (h : H.Ensures Post p s) : H.Ensures Post' p s := by
  induction p generalizing s with
  | result a => exact fun s' hlater => hpost a s' (h s' hlater)
  | call q next ih => exact fun s' hlater r s'' hanswer => ih r (h s' hlater r s'' hanswer)

theorem Ensures.bind {Post : B → S → Prop} {p : Program Q R A} {f : A → Program Q R B} {s : S}
    (h : H.Ensures (fun a s' => H.Ensures Post (f a) s') p s) :
    H.Ensures Post (p.bind f) s := by
  induction p generalizing s with
  | result a => exact h s Relation.ReflTransGen.refl
  | call q next ih => exact fun s' hlater r s'' hanswer => ih r (h s' hlater r s'' hanswer)

/-- The loop rule. The invariant speaks of the elements that are left. -/
theorem Ensures.loop {I : List X → B → S → Prop} {body : B → X → Program Q R B}
    (hstable : ∀ xs b, H.Stable (I xs b))
    (hbody : ∀ x xs b s, I (x :: xs) b s → H.Ensures (I xs) (body b x) s) {xs : List X} {b : B}
    {s : S} (h : I xs b s) : H.Ensures (I []) (Program.loop body xs b) s := by
  induction xs generalizing b s with
  | nil => exact Ensures.result (hstable [] b) h
  | cons x xs ih => exact Ensures.bind ((hbody x xs b s h).mono fun b' s' h' => ih h')

/-! ## Runs that end -/

/-- A host that answers each call as `serve` says, after some moves of its own. -/
def Serves (H : Host Q R S) (serve : S → (q : Q) → R q × S) : Prop :=
  ∀ s q, ∃ mid, H.Later s mid ∧ H.answers mid q (serve s q).1 (serve s q).2

/-- The run of a program in such a host, to its end. -/
def outcome (serve : S → (q : Q) → R q × S) : Program Q R A → S → A × S
  | .result a, s => (a, s)
  | .call q next, s => outcome serve (next (serve s q).1) (serve s q).2

theorem Run.later {s s' s'' : S} {p p' : Program Q R A} (hrun : H.Run s p s' p')
    (hlater : H.Later s' s'') : H.Run s p s'' p' := by
  induction hlater with
  | refl => exact hrun
  | tail _ hmove ih => exact ih.moved hmove

theorem Run.trans {s s' s'' : S} {p p' p'' : Program Q R A} (hrun : H.Run s p s' p')
    (hrun' : H.Run s' p' s'' p'') : H.Run s p s'' p'' := by
  induction hrun' with
  | start => exact hrun
  | moved _ hmove ih => exact (ih hrun).moved hmove
  | answered _ hanswer ih => exact (ih hrun).answered hanswer

theorem Serves.run {serve : S → (q : Q) → R q × S} (h : H.Serves serve) (p : Program Q R A)
    (s : S) : H.Run s p (outcome serve p s).2 (.result (outcome serve p s).1) := by
  induction p generalizing s with
  | result a => exact Run.start s _
  | call q next ih =>
      obtain ⟨mid, hlater, hanswer⟩ := h s q
      exact (((Run.start s _).later hlater).answered hanswer).trans (ih _ _)

end Host
end Lib
