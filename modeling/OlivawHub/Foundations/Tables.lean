import Mathlib.Data.List.AList
import Mathlib.Data.List.Sort

/-!
# Tables

A hash map is an association list without duplicate keys (`AList`): the invariant is a
field of the type, and the order of the entries stands for the unspecified iteration
order. `upsert` is the entry-or-insert-then-modify idiom; `sortedValues` collects the
values in the order of a key computed from each.
-/

namespace OlivawHub.Foundations

universe u v

/-- A hash map from `κ` to `α`. -/
abbrev Table (κ : Type u) (α : Type v) := AList fun _ : κ => α

namespace Table

variable {κ : Type u} {α : Type v} [DecidableEq κ]

/-- Replace the value at `k`, or the default `d` when `k` is absent, by its image. -/
def upsert (t : Table κ α) (k : κ) (d : α) (f : α → α) : Table κ α :=
  t.insert k (f ((t.lookup k).getD d))

@[simp] theorem lookup_upsert_self (t : Table κ α) (k : κ) (d : α) (f : α → α) :
    (t.upsert k d f).lookup k = some (f ((t.lookup k).getD d)) := by
  simp [upsert]

theorem lookup_upsert_ne (t : Table κ α) {k k' : κ} (d : α) (f : α → α) (h : k' ≠ k) :
    (t.upsert k d f).lookup k' = t.lookup k' :=
  AList.lookup_insert_ne h

theorem mem_upsert (t : Table κ α) (k k' : κ) (d : α) (f : α → α) :
    k' ∈ t.upsert k d f ↔ k' = k ∨ k' ∈ t := by
  simp [upsert]

/-- The values, in iteration order. -/
def values (t : Table κ α) : List α := t.entries.map Sigma.snd

theorem mem_values {t : Table κ α} {a : α} : a ∈ t.values ↔ ∃ k, t.lookup k = some a := by
  simp only [values, List.mem_map, Sigma.exists, exists_eq_right]
  exact exists_congr fun k => (AList.mem_lookup_iff (s := t)).symm

/-- The values sorted by a key. -/
def sortedValues {ι : Type u} [LE ι] [DecidableLE ι] (t : Table κ α) (key : α → ι) : List α :=
  t.values.insertionSort fun a b => key a ≤ key b

theorem mem_sortedValues {ι : Type u} [LE ι] [DecidableLE ι] {t : Table κ α} {key : α → ι}
    {a : α} : a ∈ t.sortedValues key ↔ ∃ k, t.lookup k = some a :=
  (List.mem_insertionSort _).trans mem_values

/-- When every value carries its own key, sorting by it lists exactly the keys, strictly
ascending. -/
theorem sortedValues_keys {ι : Type u} [LinearOrder ι] (t : Table ι α) (key : α → ι)
    (hKey : ∀ k a, t.lookup k = some a → key a = k) :
    ((t.sortedValues key).map key).Pairwise (· < ·) ∧
      ∀ k, k ∈ (t.sortedValues key).map key ↔ k ∈ t := by
  have hKeys : t.values.map key = t.keys := by
    simp only [values, AList.keys, List.keys, List.map_map]
    refine List.map_congr_left fun e he => ?_
    exact hKey e.1 e.2 (AList.mem_lookup_iff.mpr he)
  have hPerm : ((t.sortedValues key).map key).Perm t.keys :=
    hKeys ▸ (List.perm_insertionSort _ _).map key
  have hLe : ((t.sortedValues key).map key).Pairwise (· ≤ ·) := by
    rw [List.pairwise_map]
    exact List.pairwise_insertionSort _ _
  refine ⟨?_, fun k => by rw [hPerm.mem_iff, AList.mem_keys]⟩
  have hNodup : ((t.sortedValues key).map key).Nodup := hPerm.nodup_iff.mpr t.keys_nodup
  exact (hLe.and hNodup).imp fun h => lt_of_le_of_ne h.1 h.2

/-- Looking a value up by the key it carries, in the sorted listing, is the table's own
lookup. -/
theorem find?_sortedValues {ι : Type u} [LinearOrder ι] {t : Table ι α} {key : α → ι}
    (hKey : ∀ k a, t.lookup k = some a → key a = k) (k : ι) :
    (t.sortedValues key).find? (fun a => key a = k) = t.lookup k := by
  cases hFind : (t.sortedValues key).find? (fun a => key a = k) with
  | some a =>
      obtain ⟨k', hk'⟩ := mem_sortedValues.mp (List.mem_of_find?_eq_some hFind)
      have hk : key a = k := by simpa using List.find?_some hFind
      rw [← hk, hKey k' a hk', hk']
  | none =>
      cases hLook : t.lookup k with
      | none => rfl
      | some a =>
          have hNot := List.find?_eq_none.mp hFind a (mem_sortedValues.mpr ⟨k, hLook⟩)
          simp [hKey k a hLook] at hNot

end Table

end OlivawHub.Foundations
