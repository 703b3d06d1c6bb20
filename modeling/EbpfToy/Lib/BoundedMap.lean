import Mathlib.Data.Finmap
import Mathlib.Data.Finset.Card

/-!
# Finite maps of bounded capacity

A key-value table that never holds more than `cap` keys. An update of a key
that is absent is refused once the table is full; an update of a present key
always succeeds. The bound is a field, so a table past its capacity cannot be
built. Equality is extensional in `lookup`.
-/

namespace Lib

/-- A finite map holding at most `cap` keys. -/
structure BoundedMap (K V : Type) [DecidableEq K] (cap : Nat) where
  entries : Finmap fun _ : K => V
  card_le : entries.keys.card ≤ cap

namespace BoundedMap

variable {K V : Type} [DecidableEq K] {cap : Nat}

/-- The table with no key. -/
def empty : BoundedMap K V cap := ⟨∅, by simp⟩

/-- The value stored under `k`. -/
def lookup (m : BoundedMap K V cap) (k : K) : Option V := m.entries.lookup k

/-- The number of stored keys. -/
def size (m : BoundedMap K V cap) : Nat := m.entries.keys.card

/-- The stored keys. -/
def keys (m : BoundedMap K V cap) : Finset K := m.entries.keys

/-- An update of `k` succeeds: `k` is stored already, or there is room. -/
def Accepts (m : BoundedMap K V cap) (k : K) : Prop := k ∈ m.entries ∨ m.size < cap

instance (m : BoundedMap K V cap) (k : K) : Decidable (m.Accepts k) :=
  inferInstanceAs (Decidable (_ ∨ _))

private theorem keys_insert (f : Finmap fun _ : K => V) (k : K) (v : V) :
    (f.insert k v).keys = insert k f.keys := by
  ext a
  simp [Finmap.mem_keys]

private theorem card_insert_le (m : BoundedMap K V cap) {k : K} (h : m.Accepts k) (v : V) :
    (m.entries.insert k v).keys.card ≤ cap := by
  rw [keys_insert]
  rcases h with hmem | hroom
  · rw [Finset.insert_eq_of_mem (Finmap.mem_keys.mpr hmem)]
    exact m.card_le
  · exact (Finset.card_insert_le _ _).trans hroom

/-- Store `v` under `k`, or leave the table as it is when it is full. -/
def update (m : BoundedMap K V cap) (k : K) (v : V) : BoundedMap K V cap :=
  if h : m.Accepts k then ⟨m.entries.insert k v, card_insert_le m h v⟩ else m

/-- Remove `k`; a key that is absent is no change. -/
def delete (m : BoundedMap K V cap) (k : K) : BoundedMap K V cap :=
  ⟨m.entries.erase k, by
    rw [Finmap.keys_erase]
    exact (Finset.card_erase_le).trans m.card_le⟩

@[ext] theorem ext_lookup {m n : BoundedMap K V cap} (h : ∀ k, m.lookup k = n.lookup k) :
    m = n := by
  obtain ⟨f, _⟩ := m
  obtain ⟨g, _⟩ := n
  obtain rfl : f = g := Finmap.ext_lookup h
  rfl

theorem size_le (m : BoundedMap K V cap) : m.size ≤ cap := m.card_le

@[simp] theorem lookup_empty (k : K) : (empty : BoundedMap K V cap).lookup k = none :=
  Finmap.lookup_empty k

@[simp] theorem size_empty : (empty : BoundedMap K V cap).size = 0 := rfl

theorem accepts_empty (h : 0 < cap) (k : K) : (empty : BoundedMap K V cap).Accepts k := Or.inr h

theorem card_keys (m : BoundedMap K V cap) : m.keys.card = m.size := rfl

theorem mem_entries_iff (m : BoundedMap K V cap) (k : K) :
    k ∈ m.entries ↔ m.lookup k ≠ none := by
  rw [← Finmap.lookup_isSome, Option.isSome_iff_ne_none]
  rfl

theorem mem_keys {m : BoundedMap K V cap} {k : K} : k ∈ m.keys ↔ m.lookup k ≠ none := by
  rw [keys, Finmap.mem_keys, mem_entries_iff]

theorem accepts_iff (m : BoundedMap K V cap) (k : K) :
    m.Accepts k ↔ m.lookup k ≠ none ∨ m.size < cap := by
  rw [Accepts, mem_entries_iff]

/-- A stored key is never refused. -/
theorem accepts_of_lookup {m : BoundedMap K V cap} {k : K} {v : V} (h : m.lookup k = some v) :
    m.Accepts k :=
  Or.inl ((m.mem_entries_iff k).mpr (by simp [h]))

theorem lookup_eq_none_of_not_accepts {m : BoundedMap K V cap} {k : K} (h : ¬ m.Accepts k) :
    m.lookup k = none := by
  by_contra hk
  exact h (Or.inl ((m.mem_entries_iff k).mpr hk))

/-- A table that takes a key has room for one. -/
theorem pos_of_accepts {m : BoundedMap K V cap} {k : K} (h : m.Accepts k) : 0 < cap := by
  rcases h with hmem | hroom
  · have hpos : 0 < m.size := Finset.card_pos.mpr ⟨k, Finmap.mem_keys.mpr hmem⟩
    exact hpos.trans_le m.size_le
  · exact Nat.zero_lt_of_lt hroom

/-- What the kernel promises: refused exactly when the key is absent and the
table is full. -/
theorem not_accepts_iff (m : BoundedMap K V cap) (k : K) :
    ¬ m.Accepts k ↔ m.lookup k = none ∧ m.size = cap := by
  have hle := m.size_le
  unfold Accepts
  rw [mem_entries_iff]
  constructor
  · intro h
    push Not at h
    exact ⟨h.1, by omega⟩
  · rintro ⟨hnone, hfull⟩
    simp [hnone, hfull]

theorem update_of_not_accepts {m : BoundedMap K V cap} {k : K} (h : ¬ m.Accepts k) (v : V) :
    m.update k v = m := by
  simp [update, h]

theorem lookup_update_self {m : BoundedMap K V cap} {k : K} (h : m.Accepts k) (v : V) :
    (m.update k v).lookup k = some v := by
  simp [update, h, lookup]

/-- What an update leaves under its own key. -/
theorem lookup_update_self_iff {m : BoundedMap K V cap} {k : K} {v w : V} :
    (m.update k v).lookup k = some w ↔ m.Accepts k ∧ v = w := by
  by_cases h : m.Accepts k
  · rw [lookup_update_self h, Option.some_inj, and_iff_right h]
  · rw [update_of_not_accepts h, lookup_eq_none_of_not_accepts h]
    simp [h]

@[simp] theorem lookup_update_of_ne (m : BoundedMap K V cap) {k k' : K} (h : k' ≠ k) (v : V) :
    (m.update k v).lookup k' = m.lookup k' := by
  unfold update
  split
  · exact Finmap.lookup_insert_of_ne _ h
  · rfl

@[simp] theorem lookup_delete_self (m : BoundedMap K V cap) (k : K) :
    (m.delete k).lookup k = none :=
  Finmap.lookup_erase k m.entries

@[simp] theorem lookup_delete_of_ne (m : BoundedMap K V cap) {k k' : K} (h : k' ≠ k) :
    (m.delete k).lookup k' = m.lookup k' :=
  Finmap.lookup_erase_ne h

/-- What is found after a deletion was there before. -/
theorem lookup_of_lookup_delete {m : BoundedMap K V cap} {k k' : K} {v : V}
    (h : (m.delete k).lookup k' = some v) : m.lookup k' = some v := by
  by_cases hk : k' = k
  · subst hk
    simp at h
  · rwa [lookup_delete_of_ne m hk] at h

/-- A deletion stores nothing. -/
theorem lookup_delete_eq_none {m : BoundedMap K V cap} {k k' : K} (h : m.lookup k' = none) :
    (m.delete k).lookup k' = none := by
  by_cases hk : k' = k
  · subst hk
    exact lookup_delete_self m k'
  · rwa [lookup_delete_of_ne m hk]

/-- Removing an absent key changes nothing. -/
theorem delete_of_lookup_eq_none {m : BoundedMap K V cap} {k : K} (h : m.lookup k = none) :
    m.delete k = m := by
  apply ext_lookup
  intro k'
  by_cases hk : k' = k
  · rw [hk, lookup_delete_self, h]
  · rw [lookup_delete_of_ne m hk]

theorem keys_update {m : BoundedMap K V cap} {k : K} (h : m.Accepts k) (v : V) :
    (m.update k v).keys = insert k m.keys := by
  simp only [update, h, dite_true, keys, keys_insert]

theorem keys_delete (m : BoundedMap K V cap) (k : K) : (m.delete k).keys = m.keys.erase k := by
  rw [keys, delete, Finmap.keys_erase]
  rfl

/-- Overwriting a stored key keeps the size. -/
theorem size_update_of_lookup {m : BoundedMap K V cap} {k : K} {v : V}
    (h : m.lookup k = some v) (w : V) : (m.update k w).size = m.size := by
  have hmem : k ∈ m.entries := (m.mem_entries_iff k).mpr (by simp [h])
  simp only [update, accepts_of_lookup h, dite_true, size, keys_insert]
  rw [Finset.insert_eq_of_mem (Finmap.mem_keys.mpr hmem)]

/-- Storing a new key, when there is room, adds one to the size. -/
theorem size_update_of_none {m : BoundedMap K V cap} {k : K} (h : m.lookup k = none)
    (ha : m.Accepts k) (v : V) : (m.update k v).size = m.size + 1 := by
  have hmem : k ∉ m.entries := fun hk => (m.mem_entries_iff k).mp hk h
  simp only [update, ha, dite_true, size, keys_insert]
  rw [Finset.card_insert_of_notMem (by rwa [Finmap.mem_keys])]

/-- Deleting a stored key takes one from the size. -/
theorem size_delete_of_lookup {m : BoundedMap K V cap} {k : K} {v : V}
    (h : m.lookup k = some v) : (m.delete k).size + 1 = m.size := by
  have hmem : k ∈ m.entries.keys :=
    Finmap.mem_keys.mpr ((m.mem_entries_iff k).mpr (by simp [h]))
  simp only [delete, size, Finmap.keys_erase]
  exact Finset.card_erase_add_one hmem

theorem size_update_le (m : BoundedMap K V cap) (k : K) (v : V) :
    (m.update k v).size ≤ m.size + 1 := by
  by_cases ha : m.Accepts k
  · cases hl : m.lookup k with
    | none => exact (size_update_of_none hl ha v).le
    | some w => exact (size_update_of_lookup hl v).le.trans (Nat.le_succ _)
  · rw [update_of_not_accepts ha]
    exact Nat.le_succ _

theorem size_delete_le (m : BoundedMap K V cap) (k : K) : (m.delete k).size ≤ m.size := by
  cases hl : m.lookup k with
  | none => rw [delete_of_lookup_eq_none hl]
  | some v =>
      have hsize := size_delete_of_lookup hl
      omega

end BoundedMap
end Lib
