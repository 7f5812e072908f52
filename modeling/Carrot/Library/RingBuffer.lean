import Mathlib.Data.List.GetD
import Mathlib.Data.Nat.ModEq
import Mathlib.Tactic

/-!
# Growable circular buffers

A circular buffer keeps its elements in a window of `size` consecutive slots
that starts at `head` and wraps around the end of `buffer`.  Slots outside the
window hold the default value.  Every operation is related to the list read
off the window, `toList`.
-/

universe u

/-- The physical layout: backing store, first slot and number of elements. -/
structure RingBuffer (α : Type u) where
  buffer : List α
  head : Nat
  size : Nat
  deriving DecidableEq, Repr

namespace RingBuffer

variable {α : Type u}

/-- The buffer without any backing store. -/
def empty : RingBuffer α := ⟨[], 0, 0⟩

/-- The physical position of a logical index. -/
def slot (ring : RingBuffer α) (index : Nat) : Nat :=
  (ring.head + index) % ring.buffer.length

def set (ring : RingBuffer α) (index : Nat) (value : α) : RingBuffer α :=
  { ring with buffer := ring.buffer.set (ring.slot index) value }

/-- Move the window start one slot back. -/
def retreat (ring : RingBuffer α) : RingBuffer α :=
  { ring with
    head := (ring.head + ring.buffer.length - 1) % ring.buffer.length }

/-- Move the window start one slot forward. -/
def advance (ring : RingBuffer α) : RingBuffer α :=
  { ring with head := (ring.head + 1) % ring.buffer.length }

/-- A buffer that holds exactly the given items. -/
def ofList (items : List α) : RingBuffer α := ⟨items, 0, items.length⟩

theorem slot_lt (ring : RingBuffer α) (index : Nat)
    (nonempty : 0 < ring.buffer.length) : ring.slot index < ring.buffer.length :=
  Nat.mod_lt _ nonempty

/-- Distinct indices within one revolution denote distinct slots. -/
theorem slot_inj (ring : RingBuffer α) {first second : Nat}
    (firstBound : first < ring.buffer.length)
    (secondBound : second < ring.buffer.length)
    (same : ring.slot first = ring.slot second) : first = second := by
  have congruent : first ≡ second [MOD ring.buffer.length] :=
    Nat.ModEq.add_left_cancel' ring.head same
  rwa [Nat.ModEq, Nat.mod_eq_of_lt firstBound, Nat.mod_eq_of_lt secondBound] at congruent

@[simp]
theorem length_buffer_set (ring : RingBuffer α) (index : Nat) (value : α) :
    (ring.set index value).buffer.length = ring.buffer.length := by
  simp [set]

@[simp]
theorem size_set (ring : RingBuffer α) (index : Nat) (value : α) :
    (ring.set index value).size = ring.size := rfl

@[simp]
theorem head_set (ring : RingBuffer α) (index : Nat) (value : α) :
    (ring.set index value).head = ring.head := rfl

@[simp]
theorem slot_set (ring : RingBuffer α) (target index : Nat) (value : α) :
    (ring.set target value).slot index = ring.slot index := by
  simp [slot]

@[simp]
theorem buffer_retreat (ring : RingBuffer α) : ring.retreat.buffer = ring.buffer := rfl

@[simp]
theorem size_retreat (ring : RingBuffer α) : ring.retreat.size = ring.size := rfl

@[simp]
theorem buffer_advance (ring : RingBuffer α) : ring.advance.buffer = ring.buffer := rfl

@[simp]
theorem size_advance (ring : RingBuffer α) : ring.advance.size = ring.size := rfl

variable [Inhabited α]

def atIndex (ring : RingBuffer α) (index : Nat) : α :=
  ring.buffer.getD (ring.slot index) default

/-- The elements of the window in logical order. -/
def toList (ring : RingBuffer α) : List α :=
  (List.range ring.size).map ring.atIndex

/-- The layout invariant.  Its last clause says that no removed value is
retained by the backing store. -/
structure WellFormed (ring : RingBuffer α) : Prop where
  size_le : ring.size ≤ ring.buffer.length
  head_lt : 0 < ring.buffer.length → ring.head < ring.buffer.length
  clear : ∀ index, ring.size ≤ index → index < ring.buffer.length →
    ring.atIndex index = default

/-- Copy the elements at `low + 1, ..., low + count` one index down, in
ascending order. -/
def shiftDown (ring : RingBuffer α) (low count : Nat) : RingBuffer α :=
  (List.range count).foldl
    (fun current offset =>
      current.set (low + offset) (current.atIndex (low + offset + 1))) ring

/-- Copy the elements at `high - count, ..., high - 1` one index up, in
descending order. -/
def shiftUp (ring : RingBuffer α) (high count : Nat) : RingBuffer α :=
  (List.range count).foldl
    (fun current offset =>
      current.set (high - offset) (current.atIndex (high - offset - 1))) ring

/-- Double the backing store when the window fills it, rebasing the window at
slot zero. -/
def grow (ring : RingBuffer α) : RingBuffer α :=
  if ring.size < ring.buffer.length then
    ring
  else
    let capacity := if ring.buffer.length * 2 = 0 then 8 else ring.buffer.length * 2
    { ring with
      buffer := ring.toList ++ List.replicate (capacity - ring.size) default
      head := 0 }

def push (ring : RingBuffer α) (value : α) (left : Bool) : RingBuffer α :=
  let grown := ring.grow
  if left then
    { grown.retreat.set 0 value with size := grown.size + 1 }
  else
    { grown.set grown.size value with size := grown.size + 1 }

def pop (ring : RingBuffer α) (left : Bool) : RingBuffer α :=
  if left then
    { (ring.set 0 default).advance with size := ring.size - 1 }
  else
    { ring.set (ring.size - 1) default with size := ring.size - 1 }

/-- Insert before `index`, shifting the shorter side. -/
def insert (ring : RingBuffer α) (index : Nat) (value : α) : RingBuffer α :=
  let grown := ring.grow
  let opened :=
    if index < grown.size - index then
      grown.retreat.shiftDown 0 index
    else
      grown.shiftUp grown.size (grown.size - index)
  { opened.set index value with size := grown.size + 1 }

/-- Remove the element at `index`, shifting the shorter side. -/
def removeAt (ring : RingBuffer α) (index : Nat) : RingBuffer α :=
  let closed :=
    if index < ring.size - index - 1 then
      ((ring.shiftUp index index).set 0 default).advance
    else
      (ring.shiftDown index (ring.size - 1 - index)).set (ring.size - 1) default
  { closed with size := ring.size - 1 }

def rangeCopy (ring : RingBuffer α) (start stop : Nat) : List α :=
  (List.range (stop - start)).map fun offset => ring.atIndex (start + offset)

/-! ## The backing store -/

theorem length_shiftDown (ring : RingBuffer α) (low count : Nat) :
    (ring.shiftDown low count).buffer.length = ring.buffer.length := by
  induction count with
  | zero => rfl
  | succ count inductionHypothesis =>
      rw [shiftDown, List.range_succ, List.foldl_append]
      exact (length_buffer_set _ _ _).trans inductionHypothesis

theorem length_shiftUp (ring : RingBuffer α) (high count : Nat) :
    (ring.shiftUp high count).buffer.length = ring.buffer.length := by
  induction count with
  | zero => rfl
  | succ count inductionHypothesis =>
      rw [shiftUp, List.range_succ, List.foldl_append]
      exact (length_buffer_set _ _ _).trans inductionHypothesis

/-- Removing an element keeps the backing store. -/
theorem length_removeAt (ring : RingBuffer α) (index : Nat) :
    (ring.removeAt index).buffer.length = ring.buffer.length := by
  unfold removeAt
  dsimp only
  split
  next => rw [buffer_advance, length_buffer_set, length_shiftUp]
  next => rw [length_buffer_set, length_shiftDown]

/-! ## Slots -/

@[simp]
theorem length_toList (ring : RingBuffer α) : ring.toList.length = ring.size := by
  simp [toList]

@[simp]
theorem getElem_toList (ring : RingBuffer α) (index : Nat)
    (bounded : index < ring.toList.length) :
    ring.toList[index] = ring.atIndex index := by
  simp [toList]

theorem drop_toList (ring : RingBuffer α) {index : Nat} (inside : index < ring.size) :
    ring.toList.drop index = ring.atIndex index :: ring.toList.drop (index + 1) := by
  have bound : index < ring.toList.length := by rwa [length_toList]
  rw [List.drop_eq_getElem_cons bound, getElem_toList]

theorem take_succ_toList (ring : RingBuffer α) {index : Nat} (inside : index < ring.size) :
    ring.toList.take (index + 1) = ring.toList.take index ++ [ring.atIndex index] := by
  have bound : index < ring.toList.length := by rwa [length_toList]
  rw [List.take_succ_eq_append_getElem bound, getElem_toList]

theorem toList_eq_of_atIndex (ring : RingBuffer α) (items : List α)
    (size : ring.size = items.length)
    (same : ∀ (index : Nat) (bounded : index < items.length),
      ring.atIndex index = items[index]) :
    ring.toList = items := by
  apply List.ext_getElem
  · rw [length_toList, size]
  · intro index _ bounded
    rw [getElem_toList]
    exact same index bounded

theorem atIndex_set (ring : RingBuffer α) {target index : Nat} (value : α)
    (targetBound : target < ring.buffer.length)
    (indexBound : index < ring.buffer.length) :
    (ring.set target value).atIndex index =
      if index = target then value else ring.atIndex index := by
  have nonempty : 0 < ring.buffer.length := by omega
  have buffer : (ring.set target value).buffer =
      ring.buffer.set (ring.slot target) value := rfl
  simp only [atIndex, slot_set, buffer, List.getD_eq_getElem?_getD, List.getElem?_set]
  by_cases equal : index = target
  · subst index
    simp [ring.slot_lt target nonempty]
  · have differ : ring.slot target ≠ ring.slot index := by
      intro same
      exact equal (ring.slot_inj targetBound indexBound same).symm
    simp [differ, equal]

/-! ## Moving the window -/

theorem atIndex_retreat_succ (ring : RingBuffer α) (index : Nat)
    (nonempty : 0 < ring.buffer.length) :
    ring.retreat.atIndex (index + 1) = ring.atIndex index := by
  have sameSlot : ring.retreat.slot (index + 1) = ring.slot index := by
    simp only [slot, retreat, Nat.mod_add_mod]
    have unfolded : ring.head + ring.buffer.length - 1 + (index + 1) =
        ring.head + index + ring.buffer.length := by omega
    rw [unfolded, Nat.add_mod_right]
  simp [atIndex, sameSlot]

theorem atIndex_advance (ring : RingBuffer α) (index : Nat) :
    ring.advance.atIndex index = ring.atIndex (index + 1) := by
  have sameSlot : ring.advance.slot index = ring.slot (index + 1) := by
    simp only [slot, advance, Nat.mod_add_mod]
    rw [Nat.add_assoc, Nat.add_comm 1 index]
  simp [atIndex, sameSlot]

/-- Indices that differ by one revolution denote the same element. -/
theorem atIndex_add_length (ring : RingBuffer α) (index : Nat) :
    ring.atIndex (index + ring.buffer.length) = ring.atIndex index := by
  have sameSlot : ring.slot (index + ring.buffer.length) = ring.slot index := by
    simp only [slot, ← Nat.add_assoc, Nat.add_mod_right]
  simp [atIndex, sameSlot]

/-! ## Shift loops -/

/-- What a shift loop leaves alone, and the elements it yields below the
capacity. -/
structure Rearranged (before after : RingBuffer α) (element : Nat → α) : Prop where
  length : after.buffer.length = before.buffer.length
  head : after.head = before.head
  size : after.size = before.size
  atIndex : ∀ index, index < before.buffer.length → after.atIndex index = element index

theorem Rearranged.set {before after : RingBuffer α} {element : Nat → α}
    (rearranged : Rearranged before after element) {target : Nat} (value : α)
    (bounded : target < before.buffer.length) :
    Rearranged before (after.set target value)
      (fun index => if index = target then value else element index) where
  length := by simp [rearranged.length]
  head := by simp [rearranged.head]
  size := by simp [rearranged.size]
  atIndex := by
    intro index indexBound
    rw [atIndex_set]
    · rw [rearranged.atIndex index indexBound]
    · rw [rearranged.length]
      exact bounded
    · rw [rearranged.length]
      exact indexBound

theorem shiftDown_rearranged (ring : RingBuffer α) (low count : Nat)
    (bounded : low + count < ring.buffer.length) :
    Rearranged ring (ring.shiftDown low count) (fun index =>
      if low ≤ index ∧ index < low + count then ring.atIndex (index + 1)
      else ring.atIndex index) := by
  induction count with
  | zero =>
      refine ⟨rfl, rfl, rfl, ?_⟩
      intro index _
      rw [if_neg (by omega)]
      rfl
  | succ count inductionHypothesis =>
      have previous := inductionHypothesis (by omega)
      have unfolded : ring.shiftDown low (count + 1) =
          (ring.shiftDown low count).set (low + count)
            ((ring.shiftDown low count).atIndex (low + count + 1)) := by
        simp [shiftDown, List.range_succ]
      have source : (ring.shiftDown low count).atIndex (low + count + 1) =
          ring.atIndex (low + count + 1) := by
        rw [previous.atIndex _ (by omega), if_neg (by omega)]
      have stepped := previous.set (ring.atIndex (low + count + 1))
        (show low + count < ring.buffer.length by omega)
      rw [unfolded, source]
      refine ⟨stepped.length, stepped.head, stepped.size, ?_⟩
      intro index indexBound
      rw [stepped.atIndex index indexBound]
      by_cases target : index = low + count
      · subst index
        rw [if_pos rfl, if_pos (by omega)]
      · rw [if_neg target]
        by_cases inside : low ≤ index ∧ index < low + count
        · rw [if_pos inside, if_pos (by omega)]
        · rw [if_neg inside, if_neg (by omega)]

theorem shiftUp_rearranged (ring : RingBuffer α) (high count : Nat)
    (bounded : high < ring.buffer.length) (enough : count ≤ high) :
    Rearranged ring (ring.shiftUp high count) (fun index =>
      if high - count < index ∧ index ≤ high then ring.atIndex (index - 1)
      else ring.atIndex index) := by
  induction count with
  | zero =>
      refine ⟨rfl, rfl, rfl, ?_⟩
      intro index _
      rw [if_neg (by omega)]
      rfl
  | succ count inductionHypothesis =>
      have previous := inductionHypothesis (by omega)
      have unfolded : ring.shiftUp high (count + 1) =
          (ring.shiftUp high count).set (high - count)
            ((ring.shiftUp high count).atIndex (high - count - 1)) := by
        simp [shiftUp, List.range_succ]
      have source : (ring.shiftUp high count).atIndex (high - count - 1) =
          ring.atIndex (high - count - 1) := by
        rw [previous.atIndex _ (by omega), if_neg (by omega)]
      have stepped := previous.set (ring.atIndex (high - count - 1))
        (show high - count < ring.buffer.length by omega)
      rw [unfolded, source]
      refine ⟨stepped.length, stepped.head, stepped.size, ?_⟩
      intro index indexBound
      rw [stepped.atIndex index indexBound]
      by_cases target : index = high - count
      · subst index
        rw [if_pos rfl, if_pos (by omega)]
      · rw [if_neg target]
        by_cases inside : high - count < index ∧ index ≤ high
        · rw [if_pos inside, if_pos (by omega)]
        · rw [if_neg inside, if_neg (by omega)]

/-! ## Growing -/

theorem atIndex_of_head_zero (ring : RingBuffer α) {index : Nat}
    (rebased : ring.head = 0) (bounded : index < ring.buffer.length) :
    ring.atIndex index = ring.buffer[index] := by
  simp [atIndex, slot, rebased, Nat.mod_eq_of_lt bounded, bounded]

@[simp]
theorem size_grow (ring : RingBuffer α) : ring.grow.size = ring.size := by
  unfold grow
  split <;> rfl

/-- When the window fills the store, growing lays the elements out from slot
zero and leaves the remaining slots at the default value. -/
theorem grow_full (ring : RingBuffer α) (full : ring.size = ring.buffer.length) :
    ∃ spare, 0 < spare ∧
      ring.grow = ⟨ring.toList ++ List.replicate spare default, 0, ring.size⟩ := by
  refine ⟨(if ring.buffer.length * 2 = 0 then 8 else ring.buffer.length * 2) - ring.size,
    ?_, ?_⟩
  · split <;> omega
  · rw [grow, if_neg (by omega)]

theorem WellFormed.size_lt_grow {ring : RingBuffer α} (wellFormed : ring.WellFormed) :
    ring.size < ring.grow.buffer.length := by
  by_cases room : ring.size < ring.buffer.length
  · rwa [grow, if_pos room]
  · have full := Nat.le_antisymm wellFormed.size_le (Nat.not_lt.mp room)
    rcases ring.grow_full full with ⟨spare, positive, grown⟩
    simp [grown, positive]

theorem WellFormed.atIndex_grow {ring : RingBuffer α} (wellFormed : ring.WellFormed)
    (index : Nat) (bounded : index < ring.size) :
    ring.grow.atIndex index = ring.atIndex index := by
  by_cases room : ring.size < ring.buffer.length
  · rw [grow, if_pos room]
  · have full := Nat.le_antisymm wellFormed.size_le (Nat.not_lt.mp room)
    rcases ring.grow_full full with ⟨spare, positive, grown⟩
    rw [grown, atIndex_of_head_zero _ rfl (by simp; omega)]
    rw [List.getElem_append_left (by simpa using bounded), getElem_toList]

theorem WellFormed.grow {ring : RingBuffer α} (wellFormed : ring.WellFormed) :
    ring.grow.WellFormed := by
  by_cases room : ring.size < ring.buffer.length
  · rwa [RingBuffer.grow, if_pos room]
  · have full := Nat.le_antisymm wellFormed.size_le (Nat.not_lt.mp room)
    rcases ring.grow_full full with ⟨spare, positive, grown⟩
    rw [grown]
    refine ⟨by simp, fun nonempty => nonempty, ?_⟩
    intro index outside bounded
    rw [atIndex_of_head_zero _ rfl bounded]
    exact List.getElem_append_right (by simpa using outside) |>.trans (by simp)

theorem WellFormed.toList_grow {ring : RingBuffer α} (wellFormed : ring.WellFormed) :
    ring.grow.toList = ring.toList := by
  apply toList_eq_of_atIndex
  · simp
  · intro index bounded
    rw [getElem_toList]
    exact wellFormed.atIndex_grow index (by simpa using bounded)

/-! ## Operations on the window -/

theorem empty_wellFormed : (empty : RingBuffer α).WellFormed :=
  ⟨Nat.le_refl 0, fun impossible => impossible, fun _ _ impossible => by simp [empty] at impossible⟩

theorem ofList_wellFormed (items : List α) : (ofList items).WellFormed :=
  ⟨Nat.le_refl _, fun nonempty => nonempty,
    fun _ outside bounded => absurd bounded (Nat.not_lt.mpr outside)⟩

@[simp]
theorem toList_ofList (items : List α) : (ofList items).toList = items := by
  apply toList_eq_of_atIndex _ _ rfl
  intro index bounded
  exact atIndex_of_head_zero _ rfl bounded

/-- Build the invariant and the list of a buffer from its elements. -/
theorem wellFormed_toList_of_atIndex (ring : RingBuffer α) (items : List α)
    (headBound : 0 < ring.buffer.length → ring.head < ring.buffer.length)
    (size : ring.size = items.length) (fits : items.length ≤ ring.buffer.length)
    (elements : ∀ index, index < ring.buffer.length →
      ring.atIndex index = items.getD index default) :
    ring.WellFormed ∧ ring.toList = items := by
  constructor
  · refine ⟨by omega, headBound, ?_⟩
    intro index outside bounded
    rw [elements index bounded]
    exact List.getD_eq_default _ _ (by omega)
  · apply toList_eq_of_atIndex _ _ size
    intro index bounded
    rw [elements index (by omega), List.getD_eq_getElem _ _ bounded]

theorem WellFormed.atIndex_eq_getD {ring : RingBuffer α} (wellFormed : ring.WellFormed)
    (index : Nat) (bounded : index < ring.buffer.length) :
    ring.atIndex index = ring.toList.getD index default := by
  by_cases inside : index < ring.size
  · rw [List.getD_eq_getElem _ _ (by simpa using inside), getElem_toList]
  · rw [wellFormed.clear index (Nat.not_lt.mp inside) bounded]
    exact (List.getD_eq_default _ _ (by simpa using inside)).symm

/-- The elements of a well-formed buffer after growing, at every slot. -/
theorem WellFormed.atIndex_grow_eq_getD {ring : RingBuffer α}
    (wellFormed : ring.WellFormed) (index : Nat)
    (bounded : index < ring.grow.buffer.length) :
    ring.grow.atIndex index = ring.toList.getD index default := by
  rw [wellFormed.grow.atIndex_eq_getD index bounded, wellFormed.toList_grow]

@[simp]
theorem atIndex_with_size (ring : RingBuffer α) (size index : Nat) :
    ({ ring with size := size } : RingBuffer α).atIndex index = ring.atIndex index := rfl

theorem WellFormed.push {ring : RingBuffer α} (wellFormed : ring.WellFormed)
    (value : α) (left : Bool) :
    (ring.push value left).WellFormed ∧
      (ring.push value left).toList =
        if left then value :: ring.toList else ring.toList ++ [value] := by
  have room := wellFormed.size_lt_grow
  have nonempty : 0 < ring.grow.buffer.length := by omega
  cases left with
  | false =>
      apply wellFormed_toList_of_atIndex
      · simpa [RingBuffer.push] using wellFormed.grow.head_lt
      · simp [RingBuffer.push]
      · simpa [RingBuffer.push] using room
      · intro index bounded
        have indexBound : index < ring.grow.buffer.length := by
          simpa [RingBuffer.push] using bounded
        simp only [RingBuffer.push, Bool.false_eq_true, if_false, atIndex_with_size, size_grow]
        rw [atIndex_set _ _ room indexBound]
        by_cases last : index = ring.size
        · simp [last]
        · rw [if_neg last, wellFormed.atIndex_grow_eq_getD index indexBound]
          by_cases inside : index < ring.size
          · rw [List.getD_append _ _ _ _ (by simpa using inside)]
          · rw [List.getD_eq_default _ _ (by simpa using inside),
              List.getD_eq_default _ _ (by simp; omega)]
  | true =>
      apply wellFormed_toList_of_atIndex
      · intro _
        simpa [RingBuffer.push, RingBuffer.retreat] using Nat.mod_lt _ nonempty
      · simp [RingBuffer.push]
      · simpa [RingBuffer.push] using room
      · intro index bounded
        have indexBound : index < ring.grow.buffer.length := by
          simpa [RingBuffer.push] using bounded
        simp only [RingBuffer.push, if_true, atIndex_with_size]
        rw [atIndex_set ring.grow.retreat value nonempty indexBound]
        cases index with
        | zero => simp
        | succ index =>
            rw [if_neg (Nat.succ_ne_zero index), atIndex_retreat_succ _ _ nonempty,
              wellFormed.atIndex_grow_eq_getD index (by omega)]
            simp

theorem WellFormed.pop {ring : RingBuffer α} (wellFormed : ring.WellFormed)
    (left : Bool) (nonempty : ring.toList ≠ []) :
    (ring.pop left).WellFormed ∧
      (ring.pop left).toList = if left then ring.toList.tail else ring.toList.dropLast := by
  have positive : 0 < ring.size := by
    rw [← length_toList]
    exact List.length_pos_iff.mpr nonempty
  have fits := wellFormed.size_le
  cases left with
  | false =>
      apply wellFormed_toList_of_atIndex
      · simpa [RingBuffer.pop] using wellFormed.head_lt
      · simp [RingBuffer.pop]
      · simp [RingBuffer.pop]
        omega
      · intro index bounded
        have indexBound : index < ring.buffer.length := by
          simpa [RingBuffer.pop] using bounded
        simp only [RingBuffer.pop, Bool.false_eq_true, if_false, atIndex_with_size]
        rw [atIndex_set _ _ (by omega) indexBound]
        by_cases last : index = ring.size - 1
        · rw [if_pos last, List.getD_eq_default _ _ (by simp; omega)]
        · rw [if_neg last, wellFormed.atIndex_eq_getD index indexBound]
          by_cases inside : index < ring.size - 1
          · rw [List.getD_eq_getElem _ _ (by simp; omega),
              List.getD_eq_getElem _ _ (by simpa using inside), List.getElem_dropLast]
          · rw [List.getD_eq_default _ _ (by simp; omega),
              List.getD_eq_default _ _ (by simpa using inside)]
  | true =>
      have storePositive : 0 < ring.buffer.length := by omega
      apply wellFormed_toList_of_atIndex
      · intro _
        simpa [RingBuffer.pop, RingBuffer.advance] using Nat.mod_lt _ storePositive
      · simp [RingBuffer.pop]
      · simp [RingBuffer.pop]
        omega
      · intro index bounded
        have indexBound : index < ring.buffer.length := by
          simpa [RingBuffer.pop] using bounded
        simp only [RingBuffer.pop, if_true, atIndex_with_size, atIndex_advance]
        by_cases wraps : index + 1 < ring.buffer.length
        · rw [atIndex_set _ _ storePositive wraps, if_neg (Nat.succ_ne_zero index),
            wellFormed.atIndex_eq_getD (index + 1) wraps]
          cases elements : ring.toList with
          | nil => simp
          | cons head tail => simp
        · -- The slot behind the window is the one just cleared.
          have revolution : index + 1 = 0 + (ring.set 0 default).buffer.length := by
            simp
            omega
          rw [revolution, atIndex_add_length, atIndex_set _ _ storePositive storePositive,
            if_pos rfl, List.getD_eq_default _ _ (by simp; omega)]

/-- Opening a gap at `index` moves the elements behind it one index up,
whichever side is shifted. -/
theorem WellFormed.insert_elements {ring : RingBuffer α} (wellFormed : ring.WellFormed)
    {index : Nat} (bounded : index ≤ ring.size) (value : α) :
    (ring.insert index value).buffer.length = ring.grow.buffer.length ∧
      (0 < ring.grow.buffer.length →
        (ring.insert index value).head < ring.grow.buffer.length) ∧
      (∀ position, position < ring.grow.buffer.length →
        (ring.insert index value).atIndex position =
          if position < index then ring.grow.atIndex position
          else if position = index then value
          else ring.grow.atIndex (position - 1)) := by
  have room := wellFormed.size_lt_grow
  have nonempty : 0 < ring.grow.buffer.length := by omega
  by_cases front : index < ring.size - index
  · have moved := ring.grow.retreat.shiftDown_rearranged 0 index
      (by simp only [buffer_retreat]; omega)
    have placed := moved.set value (show index < ring.grow.retreat.buffer.length by
      simp only [buffer_retreat]; omega)
    have unfolded : ring.insert index value =
        { (ring.grow.retreat.shiftDown 0 index).set index value with
          size := ring.size + 1 } := by
      simp [RingBuffer.insert, front]
    rw [unfolded]
    refine ⟨by simpa using placed.length, ?_, ?_⟩
    · intro _
      change ((ring.grow.retreat.shiftDown 0 index).set index value).head < _
      rw [head_set, moved.head]
      exact Nat.mod_lt _ nonempty
    · intro position positionBound
      rw [atIndex_with_size, placed.atIndex position positionBound]
      rcases Nat.lt_trichotomy position index with before | same | behind
      · rw [if_neg (by omega), if_pos (by omega), if_pos before,
          atIndex_retreat_succ _ _ nonempty]
      · rw [if_pos same, if_neg (by omega), if_pos same]
      · obtain ⟨previous, rfl⟩ : ∃ previous, position = previous + 1 :=
          ⟨position - 1, by omega⟩
        rw [if_neg (by omega), if_neg (by omega), if_neg (by omega), if_neg (by omega),
          atIndex_retreat_succ _ _ nonempty, Nat.add_sub_cancel]
  · have moved := ring.grow.shiftUp_rearranged ring.size (ring.size - index) room (by omega)
    have placed := moved.set value (show index < ring.grow.buffer.length by omega)
    have unfolded : ring.insert index value =
        { (ring.grow.shiftUp ring.size (ring.size - index)).set index value with
          size := ring.size + 1 } := by
      simp [RingBuffer.insert, front]
    rw [unfolded]
    refine ⟨by simpa using placed.length, ?_, ?_⟩
    · intro _
      simpa [moved.head] using wellFormed.grow.head_lt nonempty
    · intro position positionBound
      rw [atIndex_with_size, placed.atIndex position positionBound]
      rcases Nat.lt_trichotomy position index with before | same | behind
      · rw [if_neg (by omega), if_neg (by omega), if_pos before]
      · rw [if_pos same, if_neg (by omega), if_pos same]
      · have differ : position ≠ index := by omega
        simp only [if_neg differ, if_neg (Nat.not_lt.mpr (Nat.le_of_lt behind))]
        by_cases inside : position ≤ ring.size
        · rw [if_pos (by omega)]
        · rw [if_neg (by omega), wellFormed.grow.clear position (by simp; omega) positionBound,
            wellFormed.grow.clear (position - 1) (by simp; omega) (by omega)]

theorem WellFormed.insert {ring : RingBuffer α} (wellFormed : ring.WellFormed)
    {index : Nat} (bounded : index ≤ ring.size) (value : α) :
    (ring.insert index value).WellFormed ∧
      (ring.insert index value).toList = ring.toList.insertIdx index value := by
  have room := wellFormed.size_lt_grow
  obtain ⟨length, head, elements⟩ := wellFormed.insert_elements bounded value
  have sized : (ring.toList.insertIdx index value).length = ring.size + 1 := by
    rw [List.length_insertIdx_of_le_length (by simpa using bounded), length_toList]
  apply wellFormed_toList_of_atIndex
  · rwa [length]
  · rw [sized]
    simp [RingBuffer.insert]
  · rw [sized, length]
    exact room
  · intro position positionBound
    rw [length] at positionBound
    rw [elements position positionBound, List.getD_eq_getElem?_getD, List.getElem?_insertIdx]
    rcases Nat.lt_trichotomy position index with before | same | behind
    · rw [if_pos before, if_pos before, wellFormed.atIndex_grow_eq_getD position positionBound,
        List.getD_eq_getElem?_getD]
    · rw [if_neg (by omega), if_pos same, if_neg (by omega), if_pos same,
        if_pos (by simp; omega)]
      rfl
    · rw [if_neg (by omega), if_neg (by omega), if_neg (by omega), if_neg (by omega),
        wellFormed.atIndex_grow_eq_getD (position - 1) (by omega), List.getD_eq_getElem?_getD]

/-- Closing the gap at `index` moves the elements behind it one index down,
whichever side is shifted. -/
theorem WellFormed.removeAt_elements {ring : RingBuffer α} (wellFormed : ring.WellFormed)
    {index : Nat} (bounded : index < ring.size) :
    (ring.removeAt index).buffer.length = ring.buffer.length ∧
      (ring.removeAt index).head < ring.buffer.length ∧
      (∀ position, position < ring.buffer.length →
        (ring.removeAt index).atIndex position =
          if position < index then ring.atIndex position
          else if position + 1 < ring.size then ring.atIndex (position + 1)
          else default) := by
  have fits := wellFormed.size_le
  have nonempty : 0 < ring.buffer.length := by omega
  by_cases front : index < ring.size - index - 1
  · have moved := ring.shiftUp_rearranged index index (by omega) (Nat.le_refl _)
    have cleared := moved.set default nonempty
    have unfolded : ring.removeAt index =
        { ((ring.shiftUp index index).set 0 default).advance with
          size := ring.size - 1 } := by
      simp [RingBuffer.removeAt, front]
    rw [unfolded]
    refine ⟨by simpa using cleared.length, ?_, ?_⟩
    · simpa [RingBuffer.advance, moved.length] using Nat.mod_lt _ nonempty
    · intro position positionBound
      rw [atIndex_with_size, atIndex_advance]
      by_cases wraps : position + 1 < ring.buffer.length
      · rw [cleared.atIndex _ wraps, if_neg (Nat.succ_ne_zero position)]
        by_cases before : position < index
        · rw [if_pos (by omega), if_pos before, Nat.add_sub_cancel]
        · rw [if_neg (by omega), if_neg before]
          by_cases inside : position + 1 < ring.size
          · rw [if_pos inside]
          · rw [if_neg inside, wellFormed.clear _ (by omega) wraps]
      · have revolution : position + 1 =
            0 + ((ring.shiftUp index index).set 0 default).buffer.length := by
          simp [moved.length]
          omega
        rw [revolution, atIndex_add_length, cleared.atIndex 0 nonempty, if_pos rfl,
          if_neg (by omega), cleared.length, if_neg (by omega)]
  · have moved := ring.shiftDown_rearranged index (ring.size - 1 - index) (by omega)
    have cleared := moved.set default (show ring.size - 1 < ring.buffer.length by omega)
    have unfolded : ring.removeAt index =
        { (ring.shiftDown index (ring.size - 1 - index)).set (ring.size - 1) default with
          size := ring.size - 1 } := by
      simp [RingBuffer.removeAt, front]
    rw [unfolded]
    refine ⟨by simpa using cleared.length, ?_, ?_⟩
    · simpa [moved.head] using wellFormed.head_lt nonempty
    · intro position positionBound
      rw [atIndex_with_size, cleared.atIndex position positionBound]
      by_cases last : position = ring.size - 1
      · rw [if_pos last, if_neg (by omega), if_neg (by omega)]
      · rw [if_neg last]
        by_cases before : position < index
        · rw [if_neg (by omega), if_pos before]
        · rw [if_neg before]
          by_cases inside : position + 1 < ring.size
          · rw [if_pos (by omega), if_pos inside]
          · rw [if_neg (by omega), if_neg inside, wellFormed.clear _ (by omega) positionBound]

theorem WellFormed.removeAt {ring : RingBuffer α} (wellFormed : ring.WellFormed)
    {index : Nat} (bounded : index < ring.size) :
    (ring.removeAt index).WellFormed ∧
      (ring.removeAt index).toList = ring.toList.eraseIdx index := by
  have fits := wellFormed.size_le
  obtain ⟨length, head, elements⟩ := wellFormed.removeAt_elements bounded
  have sized : (ring.toList.eraseIdx index).length = ring.size - 1 := by
    rw [List.length_eraseIdx_of_lt (by simpa using bounded), length_toList]
  apply wellFormed_toList_of_atIndex
  · intro _
    rwa [length]
  · rw [sized]
    simp [RingBuffer.removeAt]
  · rw [sized, length]
    omega
  · intro position positionBound
    rw [length] at positionBound
    rw [elements position positionBound, List.getD_eq_getElem?_getD, List.getElem?_eraseIdx]
    by_cases before : position < index
    · rw [if_pos before, if_pos before, wellFormed.atIndex_eq_getD position positionBound,
        List.getD_eq_getElem?_getD]
    · rw [if_neg before, if_neg before]
      by_cases inside : position + 1 < ring.size
      · rw [if_pos inside, wellFormed.atIndex_eq_getD (position + 1) (by omega),
          List.getD_eq_getElem?_getD]
      · rw [if_neg inside, List.getElem?_eq_none (by simpa using inside)]
        rfl

theorem WellFormed.set {ring : RingBuffer α} (wellFormed : ring.WellFormed)
    {index : Nat} (bounded : index < ring.size) (value : α) :
    (ring.set index value).WellFormed ∧
      (ring.set index value).toList = ring.toList.set index value := by
  have fits := wellFormed.size_le
  apply wellFormed_toList_of_atIndex
  · simpa using wellFormed.head_lt
  · simp
  · simpa using fits
  · intro position positionBound
    rw [length_buffer_set] at positionBound
    rw [atIndex_set _ _ (by omega) positionBound, List.getD_eq_getElem?_getD, List.getElem?_set]
    by_cases same : position = index
    · simp [same, bounded]
    · rw [if_neg same, if_neg (fun equal => same equal.symm),
        wellFormed.atIndex_eq_getD position positionBound, List.getD_eq_getElem?_getD]

theorem rangeCopy_eq (ring : RingBuffer α) {start stop : Nat}
    (bounded : stop ≤ ring.size) :
    ring.rangeCopy start stop = (ring.toList.drop start).take (stop - start) := by
  apply List.ext_getElem
  · simp [rangeCopy]
    omega
  · intro index _ _
    simp [rangeCopy]

end RingBuffer
