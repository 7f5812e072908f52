import Mathlib.Algebra.BigOperators.Group.List.Basic
import Mathlib.Data.List.AList
import Mathlib.Tactic

/-!
# Weighted finite maps

The total weight of the entries of an association list, and how inserting and
erasing a key change it.
-/

universe u v

namespace AList

variable {α : Type u} {β : Type v}

/-- The sum of a weight over all entries. -/
def total (weight : α → β → Int) (entries : AList fun _ : α => β) : Int :=
  (entries.entries.map fun entry => weight entry.1 entry.2).sum

@[simp]
theorem total_empty (weight : α → β → Int) :
    total weight (∅ : AList fun _ : α => β) = 0 := rfl

variable [DecidableEq α]

theorem total_erase (weight : α → β → Int) (entries : AList fun _ : α => β)
    {key : α} {value : β} (present : entries.lookup key = some value) :
    (entries.erase key).total weight = entries.total weight - weight key value := by
  have membership : (⟨key, value⟩ : Sigma fun _ : α => β) ∈ entries.entries :=
    List.of_mem_dlookup present
  have inKeys : key ∈ entries.entries.keys := List.mem_keys_of_mem membership
  rcases List.exists_of_kerase inKeys with ⟨stored, before, behind, _, split, erased⟩
  have same : stored = value := by
    have storedMember : (⟨key, stored⟩ : Sigma fun _ : α => β) ∈ entries.entries := by
      rw [split]
      simp
    exact entries.nodupKeys.eq_of_mk_mem storedMember membership
  subst stored
  have erasedEntries : (entries.erase key).entries = before ++ behind := erased
  simp only [total, erasedEntries, split, List.map_append, List.map_cons, List.sum_append,
    List.sum_cons]
  ring

theorem total_insert (weight : α → β → Int) (entries : AList fun _ : α => β)
    (key : α) (value : β) :
    (entries.insert key value).total weight =
      entries.total weight + weight key value -
        ((entries.lookup key).map (weight key)).getD 0 := by
  have inserted : (entries.insert key value).total weight =
      weight key value + (entries.erase key).total weight := by
    have erased : (entries.erase key).entries = List.kerase key entries.entries := rfl
    simp [total, entries_insert, erased]
  rw [inserted]
  cases present : entries.lookup key with
  | none =>
      have unchanged : entries.erase key = entries := by
        apply AList.ext
        exact List.kerase_of_notMem_keys (lookup_eq_none.mp present)
      rw [unchanged]
      simp
      ring
  | some old =>
      rw [total_erase weight entries present]
      simp
      ring

/-- An entry and the others. -/
theorem perm_of_lookup {entries : AList fun _ : α => β} {key : α} {value : β}
    (present : entries.lookup key = some value) :
    entries.entries.Perm (⟨key, value⟩ :: (entries.erase key).entries) := by
  have membership : (⟨key, value⟩ : Sigma fun _ : α => β) ∈ entries.entries :=
    List.of_mem_dlookup present
  rcases List.exists_of_kerase (List.mem_keys_of_mem membership) with
    ⟨stored, before, behind, _, split, erased⟩
  have inside : (⟨key, stored⟩ : Sigma fun _ : α => β) ∈ entries.entries := by
    rw [split]
    exact List.mem_append_right _ List.mem_cons_self
  have same : stored = value := entries.nodupKeys.eq_of_mk_mem inside membership
  subst same
  have rest : (entries.erase key).entries = before ++ behind := erased
  rw [rest, split]
  exact List.perm_middle

end AList
