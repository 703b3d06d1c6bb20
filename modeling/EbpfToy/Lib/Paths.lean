import Mathlib.Data.List.Basic
import Mathlib.Tactic.Common

/-!
# Paths and the files they name

A path is taken apart at its slashes and followed from the root or from the
working directory. Two paths may name one file; where no directory is a link,
they do exactly when this ends at the same components.
-/

namespace Lib.Paths

/-- A file or a directory: the names from the root to it. -/
abbrev Place := List (List UInt8)

def slash : UInt8 := 0x2f

def dot : UInt8 := 0x2e

/-- One component of a path: nothing and `.` stay, `..` goes up. -/
def descend (dir : Place) (component : List UInt8) : Place :=
  if component = [] ∨ component = [dot] then dir
  else if component = [dot, dot] then dir.dropLast
  else dir ++ [component]

/-- What a path names, in the working directory `cwd`. -/
def resolve (cwd : Place) (path : List UInt8) : Place :=
  (path.splitOn slash).foldl descend (if path.head? = some slash then [] else cwd)

/-- A component that names something in its directory. -/
structure IsName (name : List UInt8) : Prop where
  noSlash : slash ∉ name
  nonempty : name ≠ []
  not_dot : name ≠ [dot]
  not_dots : name ≠ [dot, dot]

instance (name : List UInt8) : Decidable (IsName name) :=
  decidable_of_iff (slash ∉ name ∧ name ≠ [] ∧ name ≠ [dot] ∧ name ≠ [dot, dot])
    ⟨fun ⟨h, h', h'', h'''⟩ => ⟨h, h', h'', h'''⟩,
      fun ⟨h, h', h'', h'''⟩ => ⟨h, h', h'', h'''⟩⟩

theorem descend_name {name : List UInt8} (h : IsName name) (dir : Place) :
    descend dir name = dir ++ [name] := by
  have hstay : ¬ (name = [] ∨ name = [dot]) := fun hor => hor.elim h.nonempty h.not_dot
  rw [descend, if_neg hstay, if_neg h.not_dots]

theorem splitOn_append_name {name : List UInt8} (h : slash ∉ name) (path : List UInt8) :
    (path ++ slash :: name).splitOn slash = path.splitOn slash ++ [name] := by
  have hname : ∀ x ∈ name, (x == slash) = false := by
    intro x hx
    exact beq_false_of_ne fun heq => h (heq ▸ hx)
  have hsplit := List.splitOnP_append_cons (p := fun x => x == slash) path name
    (beq_self_eq_true slash)
  rw [List.splitOn_eq_splitOnP, List.splitOn_eq_splitOnP, hsplit,
    List.splitOnP_eq_singleton hname]

/-- A slash at the end of a path changes nothing. -/
theorem resolve_append_slash (cwd : Place) {path : List UInt8} (h : path ≠ []) :
    resolve cwd (path ++ [slash]) = resolve cwd path := by
  have hhead : (path ++ [slash]).head? = path.head? := by
    cases path with
    | nil => contradiction
    | cons c path => rfl
  rw [resolve, hhead, splitOn_append_name List.not_mem_nil, List.foldl_append]
  rfl

/-- The files of a directory are told apart by their names. -/
theorem resolve_append_name (cwd : Place) (path : List UInt8) {name : List UInt8}
    (h : IsName name) :
    resolve cwd (path ++ slash :: name) = resolve cwd (path ++ [slash]) ++ [name] := by
  have hhead : (path ++ slash :: name).head? = (path ++ [slash]).head? := by
    cases path with
    | nil => rfl
    | cons c path => rfl
  rw [resolve, hhead, splitOn_append_name h.noSlash, List.foldl_append, resolve,
    splitOn_append_name List.not_mem_nil, List.foldl_append]
  exact descend_name h _

/-- A file in a directory that has a name itself. -/
theorem resolve_append_names (cwd : Place) (path : List UInt8) {dir name : List UInt8}
    (hdir : IsName dir) (hname : IsName name) :
    resolve cwd ((path ++ slash :: dir) ++ slash :: name) =
      resolve cwd (path ++ [slash]) ++ [dir] ++ [name] := by
  have hne : path ++ slash :: dir ≠ [] := by
    intro h
    exact absurd (List.append_eq_nil_iff.mp h).2 (List.cons_ne_nil _ _)
  rw [resolve_append_name cwd _ hname, resolve_append_slash cwd hne, resolve_append_name cwd _ hdir]

end Lib.Paths
