import EbpfToy.Lib.BoundedMap
import EbpfToy.Lib.Word
import Mathlib.Tactic.Common

/-!
# BPF maps

The two map types the probes use. `BPF_MAP_TYPE_HASH` is a bounded table: with
`BPF_ANY` an update is refused only when the key is absent and `max_entries`
keys are stored. `BPF_MAP_TYPE_ARRAY` holds `n` 64-bit values, all zero at
first; a lookup past the end gives the null pointer.
-/

namespace EbpfToy

open Lib

/-- A `BPF_MAP_TYPE_HASH` with 64-bit keys and `max_entries = cap`. -/
abbrev HashMap (V : Type) (cap : Nat) := BoundedMap UInt64 V cap

/-- A `BPF_MAP_TYPE_ARRAY` of `n` 64-bit values. -/
structure ArrayMap (n : Nat) where
  value : Fin n → UInt64

namespace ArrayMap

variable {n : Nat}

def zero : ArrayMap n := ⟨fun _ => 0⟩

/-- `bpf_map_lookup_elem`: the cell's value, or null past the end. -/
def lookup (a : ArrayMap n) (b : UInt32) : Option UInt64 :=
  if h : b.toNat < n then some (a.value ⟨b.toNat, h⟩) else none

/-- Write `x` through a pointer that `lookup b` returned. -/
def store (a : ArrayMap n) (b : UInt32) (x : UInt64) : ArrayMap n :=
  ⟨fun i => if i.val = b.toNat then x else a.value i⟩

/-- `cnt = bpf_map_lookup_elem(&hist, &b); if (cnt) *cnt += 1`. -/
def bump (a : ArrayMap n) (b : UInt32) : ArrayMap n :=
  match a.lookup b with
  | none => a
  | some cnt => a.store b (cnt + 1)

@[ext] theorem ext {a a' : ArrayMap n} (h : ∀ i, a.value i = a'.value i) : a = a' := by
  obtain ⟨f⟩ := a
  obtain ⟨g⟩ := a'
  obtain rfl : f = g := funext h
  rfl

theorem lookup_of_lt (a : ArrayMap n) {b : UInt32} (h : b.toNat < n) :
    a.lookup b = some (a.value ⟨b.toNat, h⟩) := by
  simp [lookup, h]

@[simp] theorem value_store (a : ArrayMap n) (b : UInt32) (x : UInt64) (i : Fin n) :
    (a.store b x).value i = if i.val = b.toNat then x else a.value i := rfl

/-- A bump inside the array adds one to its cell and leaves the others. -/
theorem value_bump (a : ArrayMap n) {b : UInt32} (h : b.toNat < n) (i : Fin n) :
    (a.bump b).value i = if (⟨b.toNat, h⟩ : Fin n) = i then a.value i + 1 else a.value i := by
  simp only [bump, lookup_of_lt a h, value_store, Fin.ext_iff]
  by_cases hi : i.val = b.toNat
  · obtain rfl : i = ⟨b.toNat, h⟩ := Fin.ext hi
    simp
  · rw [if_neg hi, if_neg (Ne.symm hi)]

/-- A bump inside the array is visible. -/
theorem bump_ne (a : ArrayMap n) {b : UInt32} (h : b.toNat < n) : a.bump b ≠ a := by
  intro heq
  have hcell := value_bump a h ⟨b.toNat, h⟩
  rw [heq, if_pos rfl] at hcell
  exact add_one_ne _ hcell.symm

end ArrayMap
end EbpfToy
