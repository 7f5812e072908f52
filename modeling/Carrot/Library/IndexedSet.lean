import Mathlib.Data.List.AList
import Mathlib.Data.List.GetD
import Mathlib.Tactic

/-!
# Sets with positional access

A set of keys kept as a dense sequence together with the position of each
key.  Removal moves the last key into the freed position, so the order of the
sequence is not preserved, but positions stay the exact inverse of the
sequence.
-/

universe u

/-- A dense sequence of keys and the position of each of them. -/
structure IndexedSet (α : Type u) where
  keys : List α
  pos : AList fun _ : α => Nat

namespace IndexedSet

variable {α : Type u}

def empty : IndexedSet α := ⟨[], ∅⟩

def size (set : IndexedSet α) : Nat := set.keys.length

variable [Inhabited α]

def atIndex (set : IndexedSet α) (index : Nat) : α := set.keys.getD index default

variable [DecidableEq α]

def add (set : IndexedSet α) (key : α) : IndexedSet α :=
  match set.pos.lookup key with
  | some _ => set
  | none =>
      { pos := set.pos.insert key set.keys.length
        keys := set.keys ++ [key] }

def remove (set : IndexedSet α) (key : α) : IndexedSet α :=
  match set.pos.lookup key with
  | none => set
  | some index =>
      let last := set.keys.length - 1
      let moved := set.keys.getD last default
      { keys := (set.keys.set index moved).take last
        pos := (set.pos.insert moved index).erase key }

omit [Inhabited α] in
/-- The sequence has no repetition and `pos` is its exact inverse. -/
structure WellFormed (set : IndexedSet α) : Prop where
  nodup : set.keys.Nodup
  inverse : ∀ key index, set.pos.lookup key = some index ↔ set.keys[index]? = some key

omit [Inhabited α] in
theorem empty_wellFormed : (empty : IndexedSet α).WellFormed :=
  ⟨List.nodup_nil, by simp [empty]⟩

omit [Inhabited α] in
theorem WellFormed.mem_iff {set : IndexedSet α} (wellFormed : set.WellFormed) (key : α) :
    key ∈ set.keys ↔ ∃ index, set.pos.lookup key = some index := by
  simp only [wellFormed.inverse, List.mem_iff_getElem?]

omit [Inhabited α] in
theorem WellFormed.lookup_eq_none {set : IndexedSet α} (wellFormed : set.WellFormed)
    {key : α} : set.pos.lookup key = none ↔ key ∉ set.keys := by
  rw [wellFormed.mem_iff, ← Option.not_isSome_iff_eq_none, Option.isSome_iff_exists]

omit [Inhabited α] in
theorem WellFormed.add_of_mem {set : IndexedSet α} (wellFormed : set.WellFormed)
    {key : α} (present : key ∈ set.keys) : set.add key = set := by
  obtain ⟨index, found⟩ := (wellFormed.mem_iff key).mp present
  simp [IndexedSet.add, found]

theorem WellFormed.remove_of_notMem {set : IndexedSet α} (wellFormed : set.WellFormed)
    {key : α} (absent : key ∉ set.keys) : set.remove key = set := by
  simp [IndexedSet.remove, wellFormed.lookup_eq_none.mpr absent]

omit [Inhabited α] in
theorem WellFormed.add {set : IndexedSet α} (wellFormed : set.WellFormed) (key : α) :
    (set.add key).WellFormed ∧ ∀ other, other ∈ (set.add key).keys ↔
      other = key ∨ other ∈ set.keys := by
  cases found : set.pos.lookup key with
  | some index =>
      have present : key ∈ set.keys := (wellFormed.mem_iff key).mpr ⟨index, found⟩
      rw [wellFormed.add_of_mem present]
      refine ⟨wellFormed, fun other => ⟨Or.inr, ?_⟩⟩
      rintro (rfl | membership)
      · exact present
      · exact membership
  | none =>
      have absent : key ∉ set.keys := wellFormed.lookup_eq_none.mp found
      have added : set.add key =
          { pos := set.pos.insert key set.keys.length, keys := set.keys ++ [key] } := by
        simp [IndexedSet.add, found]
      rw [added]
      refine ⟨⟨?_, ?_⟩, fun other => by simp [or_comm]⟩
      · refine List.nodup_append.mpr ⟨wellFormed.nodup, List.nodup_singleton key, ?_⟩
        rintro other membership _ (_ | ⟨_, ⟨⟩⟩) rfl
        exact absent membership
      · intro other index
        by_cases same : other = key
        · subst other
          rw [AList.lookup_insert, List.getElem?_append]
          constructor
          · rintro ⟨⟩
            simp
          · intro stored
            by_cases inside : index < set.keys.length
            · rw [if_pos inside] at stored
              exact absurd (List.mem_of_getElem? stored) absent
            · rw [if_neg inside, List.getElem?_singleton] at stored
              by_cases boundary : index - set.keys.length = 0
              · have exact : set.keys.length = index := by omega
                rw [exact]
              · simp [boundary] at stored
        · rw [AList.lookup_insert_ne same, wellFormed.inverse, List.getElem?_append]
          by_cases inside : index < set.keys.length
          · rw [if_pos inside]
          · rw [if_neg inside, List.getElem?_eq_none (Nat.not_lt.mp inside)]
            constructor
            · intro impossible
              cases impossible
            · intro stored
              have equal := List.mem_of_getElem? stored
              simp at equal
              exact absurd equal same

/-- Reading the sequence after a removal: the freed position holds the former
last key, and the last position is gone. -/
theorem getElem?_remove (set : IndexedSet α) {key : α} {index : Nat}
    (found : set.pos.lookup key = some index) (position : Nat) :
    (set.remove key).keys[position]? =
      if position < set.keys.length - 1 then
        if index = position then some (set.keys.getD (set.keys.length - 1) default)
        else set.keys[position]?
      else none := by
  have removed : (set.remove key).keys =
      (set.keys.set index (set.keys.getD (set.keys.length - 1) default)).take
        (set.keys.length - 1) := by
    simp [IndexedSet.remove, found]
  rw [removed, List.getElem?_take, List.getElem?_set]
  by_cases inside : position < set.keys.length - 1
  · rw [if_pos inside, if_pos inside]
    by_cases freed : index = position
    · rw [if_pos freed, if_pos freed, if_pos (by omega)]
    · rw [if_neg freed, if_neg freed]
  · rw [if_neg inside, if_neg inside]

omit [Inhabited α] in
theorem nodup_of_inverse {set : IndexedSet α}
    (inverse : ∀ key index, set.pos.lookup key = some index ↔
      set.keys[index]? = some key) : set.keys.Nodup := by
  rw [List.nodup_iff_injective_get]
  intro first second same
  have firstFound := (inverse _ _).mpr (List.getElem?_eq_getElem first.isLt)
  have secondFound := (inverse _ _).mpr (List.getElem?_eq_getElem second.isLt)
  simp only [List.get_eq_getElem] at same
  rw [same] at firstFound
  exact Fin.ext (Option.some.inj (firstFound.symm.trans secondFound))

omit [Inhabited α] in
theorem WellFormed.unique {set : IndexedSet α} (wellFormed : set.WellFormed)
    {first second : Nat} {key : α} (firstStored : set.keys[first]? = some key)
    (secondStored : set.keys[second]? = some key) : first = second := by
  have firstFound := (wellFormed.inverse key first).mpr firstStored
  have secondFound := (wellFormed.inverse key second).mpr secondStored
  exact Option.some.inj (firstFound.symm.trans secondFound)

/-- Removing a stored key: `moved` is the former last key, which takes over
the freed position. -/
theorem WellFormed.remove_cases {set : IndexedSet α} (wellFormed : set.WellFormed)
    {key : α} {index : Nat} (found : set.pos.lookup key = some index) :
    ∃ last moved, last + 1 = set.keys.length ∧ set.keys[last]? = some moved ∧
      set.keys[index]? = some key ∧
      (set.remove key).pos = (set.pos.insert moved index).erase key ∧
      ∀ position, (set.remove key).keys[position]? =
        if position < last then
          if index = position then some moved else set.keys[position]?
        else none := by
  have stored := (wellFormed.inverse key index).mp found
  have indexBound : index < set.keys.length := (List.getElem?_eq_some_iff.mp stored).1
  have lastBound : set.keys.length - 1 < set.keys.length := by omega
  refine ⟨set.keys.length - 1, set.keys.getD (set.keys.length - 1) default, by omega, ?_,
    stored, ?_, set.getElem?_remove found⟩
  · rw [List.getD_eq_getElem _ _ lastBound, List.getElem?_eq_getElem lastBound]
  · simp [IndexedSet.remove, found]

theorem WellFormed.remove_inverse {set : IndexedSet α} (wellFormed : set.WellFormed)
    {key : α} {index : Nat} (found : set.pos.lookup key = some index)
    (other : α) (position : Nat) :
    (set.remove key).pos.lookup other = some position ↔
      (set.remove key).keys[position]? = some other := by
  obtain ⟨last, moved, length, lastStored, stored, positions, reads⟩ :=
    wellFormed.remove_cases found
  rw [positions, reads]
  by_cases isKey : other = key
  · -- The removed key is nowhere: its position now holds the moved key.
    subst other
    rw [AList.lookup_erase]
    constructor
    · intro impossible
      cases impossible
    · intro read
      split at read
      next inside =>
        split at read
        next freed =>
          cases read
          have same := wellFormed.unique lastStored stored
          omega
        next kept => exact absurd (wellFormed.unique stored read) kept
      next => cases read
  · rw [AList.lookup_erase_ne isKey]
    by_cases isMoved : other = moved
    · subst other
      rw [AList.lookup_insert]
      constructor
      · rintro ⟨⟩
        have indexBound := (List.getElem?_eq_some_iff.mp stored).1
        have notLast : index ≠ last := by
          rintro rfl
          exact isKey (Option.some.inj (lastStored.symm.trans stored))
        rw [if_pos (by omega), if_pos rfl]
      · intro read
        split at read
        next inside =>
          split at read
          next freed => rw [freed]
          next kept =>
            have same := wellFormed.unique lastStored read
            omega
        next => cases read
    · rw [AList.lookup_insert_ne isMoved, wellFormed.inverse]
      constructor
      · intro read
        have positionBound := (List.getElem?_eq_some_iff.mp read).1
        have notLast : position ≠ last := by
          rintro rfl
          exact isMoved (Option.some.inj (read.symm.trans lastStored))
        have notFreed : index ≠ position := by
          rintro rfl
          exact isKey (Option.some.inj (read.symm.trans stored))
        rw [if_pos (by omega), if_neg notFreed]
        exact read
      · intro read
        split at read
        next inside =>
          split at read
          next freed => exact absurd (Option.some.inj read).symm isMoved
          next kept => exact read
        next => cases read

theorem WellFormed.size_remove {set : IndexedSet α} (wellFormed : set.WellFormed) {key : α}
    (member : key ∈ set.keys) : (set.remove key).size + 1 = set.size := by
  have nonempty := List.length_pos_of_mem member
  obtain ⟨index, found⟩ := (wellFormed.mem_iff key).mp member
  simp only [size, IndexedSet.remove, found, List.length_take, List.length_set]
  omega

theorem WellFormed.remove {set : IndexedSet α} (wellFormed : set.WellFormed) (key : α) :
    (set.remove key).WellFormed ∧ ∀ other, other ∈ (set.remove key).keys ↔
      other ≠ key ∧ other ∈ set.keys := by
  cases found : set.pos.lookup key with
  | none =>
      have absent : key ∉ set.keys := wellFormed.lookup_eq_none.mp found
      rw [wellFormed.remove_of_notMem absent]
      refine ⟨wellFormed, fun other => ⟨fun membership => ⟨?_, membership⟩, And.right⟩⟩
      exact fun same => absent (same ▸ membership)
  | some index =>
      have inverse := wellFormed.remove_inverse found
      have result : (set.remove key).WellFormed := ⟨nodup_of_inverse inverse, inverse⟩
      obtain ⟨last, moved, length, lastStored, stored, positions, reads⟩ :=
        wellFormed.remove_cases found
      refine ⟨result, ?_⟩
      intro other
      rw [result.mem_iff, wellFormed.mem_iff, positions]
      by_cases isKey : other = key
      · subst other
        simp [AList.lookup_erase]
      · rw [AList.lookup_erase_ne isKey]
        by_cases isMoved : other = moved
        · subst other
          simp only [AList.lookup_insert, ne_eq, isKey, not_false_eq_true, true_and]
          exact ⟨fun _ => ⟨last, (wellFormed.inverse _ _).mpr lastStored⟩,
            fun _ => ⟨index, rfl⟩⟩
        · rw [AList.lookup_insert_ne isMoved]
          simp [isKey]

end IndexedSet
