import Mathlib.Data.List.Basic
import Mathlib.Tactic.Common

/-!
# Commands on a disk

Commands that write named files, in scripts that end at the first failure and
in histories that do not. A command comes with the files it may touch and with
a promise about these files. When no two commands touch the same file, what a
command promised is kept by all that come after it, whatever becomes of them.
-/

namespace Lib

/-- The text of each file, if there is one. -/
abbrev Disk (Name Text : Type) := Name → Option Text

/-- What a command may do: the disk before it and after it, and whether it
succeeds. -/
abbrev Command (Name Text : Type) := Disk Name Text → Disk Name Text → Bool → Prop

section Shell

variable {Name Text : Type} {d d' : Disk Name Text} {ok : Bool}

/-- Commands under `set -e`: in order, until one fails. The script may also be
stopped before a command. -/
inductive Script : List (Command Name Text) → Disk Name Text → Disk Name Text → Bool → Prop where
  | finished (d : Disk Name Text) : Script [] d d true
  | stopped (c : Command Name Text) (cs : List (Command Name Text)) (d : Disk Name Text) :
      Script (c :: cs) d d false
  | failed {c : Command Name Text} {cs : List (Command Name Text)} {d d' : Disk Name Text}
      (run : c d d' false) : Script (c :: cs) d d' false
  | next {c : Command Name Text} {cs : List (Command Name Text)} {d d' d'' : Disk Name Text}
      {ok : Bool} (run : c d d' true) (rest : Script cs d' d'' ok) : Script (c :: cs) d d'' ok

/-- Commands that are given one after the other, with how each of them ends. -/
inductive History : List (Command Name Text × Bool) → Disk Name Text → Disk Name Text → Prop where
  | start (d : Disk Name Text) : History [] d d
  | next {c : Command Name Text} {ok : Bool} {cs : List (Command Name Text × Bool)}
      {d d' d'' : Disk Name Text} (run : c d d' ok) (rest : History cs d' d'') :
      History ((c, ok) :: cs) d d''

/-! ## Jobs -/

/-- A command, the files it may touch, and what it promises if it succeeds. -/
structure Job (Name Text : Type) where
  run : Command Name Text
  files : Name → Prop
  post : Disk Name Text → Prop
  /-- All other files stay as they are. -/
  frame : ∀ {d d' ok}, run d d' ok → ∀ name, ¬ files name → d' name = d name
  establishes : ∀ {d d'}, run d d' true → post d'
  /-- The promise is only about the command's own files. -/
  kept : ∀ {d d'}, (∀ name, files name → d' name = d name) → post d → post d'

/-- No file is touched by both. -/
def Job.Apart (j j' : Job Name Text) : Prop := ∀ name, j.files name → ¬ j'.files name

/-! ## Scripts -/

theorem Script.frame {js : List (Job Name Text)} (h : Script (js.map Job.run) d d' ok)
    (name : Name) (hfiles : ∀ j ∈ js, ¬ j.files name) : d' name = d name := by
  induction js generalizing d with
  | nil =>
      cases h
      rfl
  | cons j js ih =>
      have hj : ¬ j.files name := hfiles j List.mem_cons_self
      cases h with
      | stopped => rfl
      | failed run => exact j.frame run name hj
      | next run rest =>
          rw [ih rest fun j' hj' => hfiles j' (List.mem_cons_of_mem j hj')]
          exact j.frame run name hj

/-- A script that succeeds keeps all promises of its commands. -/
theorem Script.post {js : List (Job Name Text)} (hapart : js.Pairwise Job.Apart)
    (h : Script (js.map Job.run) d d' true) : ∀ j ∈ js, j.post d' := by
  induction js generalizing d with
  | nil => exact fun j hj => absurd hj List.not_mem_nil
  | cons j js ih =>
      obtain ⟨hhead, htail⟩ := List.pairwise_cons.mp hapart
      cases h with
      | next run rest =>
          intro i hi
          rcases List.mem_cons.mp hi with rfl | hmem
          · refine i.kept (fun name hname => ?_) (i.establishes run)
            exact rest.frame name fun j' hj' => hhead j' hj' name hname
          · exact ih htail rest i hmem

/-! ## Histories -/

theorem History.frame {js : List (Job Name Text × Bool)}
    (h : History (js.map fun j => (j.1.run, j.2)) d d') (name : Name)
    (hfiles : ∀ j ∈ js, ¬ j.1.files name) : d' name = d name := by
  induction js generalizing d with
  | nil =>
      cases h
      rfl
  | cons j js ih =>
      cases h with
      | next run rest =>
          rw [ih rest fun j' hj' => hfiles j' (List.mem_cons_of_mem j hj')]
          exact j.1.frame run name (hfiles j List.mem_cons_self)

/-- After a history, what each command that succeeded promised still holds. -/
theorem History.post {js : List (Job Name Text × Bool)}
    (hapart : (js.map Prod.fst).Pairwise Job.Apart)
    (h : History (js.map fun j => (j.1.run, j.2)) d d') : ∀ j ∈ js, j.2 = true → j.1.post d' := by
  induction js generalizing d with
  | nil => exact fun j hj => absurd hj List.not_mem_nil
  | cons j js ih =>
      obtain ⟨hhead, htail⟩ := List.pairwise_cons.mp hapart
      cases h with
      | next run rest =>
          intro i hi hok
          rcases List.mem_cons.mp hi with rfl | hmem
          · rw [hok] at run
            refine i.1.kept (fun name hname => ?_) (i.1.establishes run)
            refine rest.frame name fun j' hj' => ?_
            exact hhead j'.1 (List.mem_map_of_mem hj') name hname
          · exact ih htail rest i hmem hok

end Shell
end Lib
