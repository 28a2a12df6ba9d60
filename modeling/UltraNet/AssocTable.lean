/-
Finite tables as Mathlib association lists.  The model keeps every keyed
container as one of these: lookups, insertions and erasures come from `AList`,
and this module adds the whole-table update, the in-place update and the size.
-/
import Mathlib.Data.List.AList

namespace UltraNet

universe u v

/-- A finite table from keys to values, each key at most once. -/
abbrev Table (K : Type u) (V : Type v) : Type (max u v) :=
  AList (fun _ : K => V)

namespace Table

variable {K : Type u} {V : Type v}

def size (table : Table K V) : Nat :=
  table.entries.length

/-- Apply a function to every value. -/
def mapVals (table : Table K V) (f : K → V → V) : Table K V where
  entries := table.entries.map fun entry => ⟨entry.1, f entry.1 entry.2⟩
  nodupKeys := by
    have hkeys : (table.entries.map fun entry =>
        (⟨entry.1, f entry.1 entry.2⟩ : Sigma fun _ : K => V)).keys =
          table.entries.keys := by
      simp [List.keys, Function.comp_def]
    rw [List.NodupKeys, hkeys]
    exact table.nodupKeys

theorem size_eq_keys_length (table : Table K V) :
    table.size = table.keys.length := by
  simp [size, AList.keys, List.keys]

theorem size_pos_of_mem (table : Table K V) {key : K} (hkey : key ∈ table) :
    0 < table.size := by
  rw [size_eq_keys_length]
  exact List.length_pos_of_mem (AList.mem_keys.mp hkey)

@[simp] theorem size_mapVals (table : Table K V) (f : K → V → V) :
    (table.mapVals f).size = table.size := by
  simp [size, mapVals]

variable [DecidableEq K]

/-- Update the value at a key in place; an absent key stays absent. -/
def modify (table : Table K V) (key : K) (f : V → V) : Table K V :=
  table.mapVals fun other value => if other = key then f value else value

theorem dlookup_map (f : K → V → V) (entries : List (Sigma fun _ : K => V))
    (key : K) :
    (entries.map fun entry =>
        (⟨entry.1, f entry.1 entry.2⟩ : Sigma fun _ : K => V)).dlookup key =
      (entries.dlookup key).map (f key) := by
  induction entries with
  | nil => rfl
  | cons entry rest ih =>
      obtain ⟨other, value⟩ := entry
      by_cases hkey : key = other
      · subst hkey
        simp
      · rw [List.map_cons, List.dlookup_cons_ne _ _ hkey,
          List.dlookup_cons_ne _ _ hkey, ih]

@[simp] theorem lookup_mapVals (table : Table K V) (f : K → V → V)
    (key : K) :
    (table.mapVals f).lookup key = (table.lookup key).map (f key) :=
  dlookup_map f table.entries key

/-- Only the value at the key is updated. -/
theorem lookup_modify (table : Table K V) (key other : K) (f : V → V) :
    (table.modify key f).lookup other =
      if other = key then (table.lookup other).map f
      else table.lookup other := by
  rw [modify, lookup_mapVals]
  by_cases hkey : other = key <;> simp [hkey]

@[simp] theorem size_modify (table : Table K V) (key : K) (f : V → V) :
    (table.modify key f).size = table.size :=
  size_mapVals table _

/-- An insertion hides what the key had before. -/
theorem lookup_insert (table : Table K V) (key other : K) (value : V) :
    (table.insert key value).lookup other =
      if other = key then some value else table.lookup other := by
  by_cases hkey : other = key
  · subst hkey
    simp
  · simp [hkey, AList.lookup_insert_ne hkey]

theorem lookup_erase (table : Table K V) (key other : K) :
    (table.erase key).lookup other =
      if other = key then none else table.lookup other := by
  by_cases hkey : other = key
  · subst hkey
    simp
  · simp [hkey, AList.lookup_erase_ne hkey]

/-- What is found behind an insertion is the new value or was there before. -/
theorem of_lookup_insert {table : Table K V} {key other : K} {value found : V}
    (hlookup : (table.insert key value).lookup other = some found) :
    (other = key ∧ value = found) ∨ (other ≠ key ∧ table.lookup other = some found) := by
  rw [lookup_insert] at hlookup
  split at hlookup
  next hkey => exact .inl ⟨hkey, Option.some.inj hlookup⟩
  next hkey => exact .inr ⟨hkey, hlookup⟩

/-- What is found behind an erasure was there before, at another key. -/
theorem of_lookup_erase {table : Table K V} {key other : K} {found : V}
    (hlookup : (table.erase key).lookup other = some found) :
    other ≠ key ∧ table.lookup other = some found := by
  rw [lookup_erase] at hlookup
  exact Option.ite_none_left_eq_some.mp hlookup

theorem lookup_erase_none {table : Table K V} {other : K}
    (hnone : table.lookup other = none) (key : K) :
    (table.erase key).lookup other = none := by
  rw [lookup_erase, hnone, ite_self]

/-- The keys are those at which something is found. -/
theorem mem_iff_lookup (table : Table K V) (key : K) :
    key ∈ table ↔ ∃ value, table.lookup key = some value := by
  rw [← AList.lookup_isSome, Option.isSome_iff_exists]

theorem lookup_eq_some_iff (table : Table K V) (key : K) (value : V) :
    table.lookup key = some value ↔
      (⟨key, value⟩ : Sigma fun _ : K => V) ∈ table.entries := by
  rw [← AList.mem_lookup_iff, Option.mem_def]

/-- Only a new key makes the table larger. -/
theorem size_insert_of_not_mem (table : Table K V) {key : K} (value : V)
    (hkey : key ∉ table) :
    Table.size (table.insert key value) = table.size + 1 := by
  rw [size, size, AList.entries_insert_of_notMem hkey, List.length_cons]

theorem size_insert_of_mem (table : Table K V) {key : K} (value : V)
    (hkey : key ∈ table) :
    Table.size (table.insert key value) = table.size := by
  have hpos := size_pos_of_mem table hkey
  rw [size_eq_keys_length, size_eq_keys_length, AList.keys_insert,
    List.length_cons, List.length_erase_of_mem (AList.mem_keys.mp hkey)]
  rw [size_eq_keys_length] at hpos
  omega

theorem size_erase_le (table : Table K V) (key : K) :
    Table.size (table.erase key) ≤ table.size := by
  rw [size_eq_keys_length, size_eq_keys_length, AList.keys_erase]
  exact List.length_erase_le

theorem size_erase_of_mem (table : Table K V) {key : K} (hkey : key ∈ table) :
    Table.size (table.erase key) = table.size - 1 := by
  rw [size_eq_keys_length, size_eq_keys_length, AList.keys_erase,
    List.length_erase_of_mem (AList.mem_keys.mp hkey)]

end Table

end UltraNet
