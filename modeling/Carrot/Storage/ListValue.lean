import Carrot.Library.RingBuffer
import Carrot.Storage.Clock

/-!
# List values

A stored list is a circular buffer of strings together with the total length
of the strings in it.
-/

namespace Carrot

/-- The size of one string header in a list buffer. -/
def stringHeaderBytes : Int := 16

structure ListValue extends RingBuffer Bytes where
  bytes : Int
  deriving DecidableEq, Repr

namespace ListValue

/-- The zero value `listValue{}`. -/
def zero : ListValue := { RingBuffer.empty with bytes := 0 }

/-- The total length of some strings. -/
def byteLength (items : List Bytes) : Int := (items.map fun item => (item.length : Int)).sum

def push (list : ListValue) (value : Bytes) (left : Bool) : ListValue :=
  { list.toRingBuffer.push value left with bytes := list.bytes + value.length }

/-- The popped value, and whether there was one. -/
def pop (list : ListValue) (left : Bool) : ListValue × Bytes × Bool :=
  if list.size = 0 then
    (list, [], false)
  else
    let value := if left then list.atIndex 0 else list.atIndex (list.size - 1)
    ({ list.toRingBuffer.pop left with bytes := list.bytes - value.length }, value, true)

def insert (list : ListValue) (index : Nat) (value : Bytes) : ListValue :=
  { list.toRingBuffer.insert index value with bytes := list.bytes + value.length }

def removeAt (list : ListValue) (index : Nat) : ListValue :=
  { list.toRingBuffer.removeAt index with
    bytes := list.bytes - (list.atIndex index).length }

def replace (_list : ListValue) (items : List Bytes) : ListValue :=
  { RingBuffer.ofList items with bytes := byteLength items }

/-- Overwrite the element at `index` and keep the byte count current. -/
def assign (list : ListValue) (index : Nat) (value : Bytes) : ListValue :=
  { list.toRingBuffer.set index value with
    bytes := list.bytes + (value.length - (list.atIndex index).length) }

/-- Normalize an index that counts from the end when negative. -/
def index (list : ListValue) (position : Int) : Option Nat :=
  let length : Int := list.size
  let normalized := if position < 0 then position + length else position
  if normalized < 0 ∨ normalized ≥ length then none else some normalized.toNat

def memorySize (list : ListValue) : Int :=
  list.buffer.length * stringHeaderBytes + list.bytes

/-- The buffer invariant together with an exact byte count. -/
structure WellFormed (list : ListValue) : Prop where
  ring : list.toRingBuffer.WellFormed
  bytes_eq : list.bytes = byteLength list.toList

@[simp]
theorem byteLength_nil : byteLength [] = 0 := rfl

@[simp]
theorem byteLength_cons (item : Bytes) (items : List Bytes) :
    byteLength (item :: items) = item.length + byteLength items := by
  simp [byteLength]

@[simp]
theorem byteLength_append (first second : List Bytes) :
    byteLength (first ++ second) = byteLength first + byteLength second := by
  simp [byteLength]

theorem zero_wellFormed : zero.WellFormed := ⟨RingBuffer.empty_wellFormed, rfl⟩

@[simp]
theorem toList_zero : zero.toList = [] := rfl

theorem WellFormed.push {list : ListValue} (wellFormed : list.WellFormed)
    (value : Bytes) (left : Bool) :
    (list.push value left).WellFormed ∧
      (list.push value left).toList =
        if left then value :: list.toList else list.toList ++ [value] := by
  obtain ⟨ring, elements⟩ := wellFormed.ring.push value left
  refine ⟨⟨ring, ?_⟩, elements⟩
  change list.bytes + value.length = byteLength (list.toRingBuffer.push value left).toList
  rw [elements, wellFormed.bytes_eq]
  cases left with
  | false => simp
  | true =>
      simp
      ring

/-- Splitting a nonempty list at the end a pop takes from. -/
theorem WellFormed.pop {list : ListValue} (wellFormed : list.WellFormed) (left : Bool)
    (nonempty : list.toList ≠ []) :
    (list.pop left).1.WellFormed ∧ (list.pop left).2.2 = true ∧
      list.toList = if left then (list.pop left).2.1 :: (list.pop left).1.toList
        else (list.pop left).1.toList ++ [(list.pop left).2.1] := by
  have positive : list.size ≠ 0 := by
    rw [← RingBuffer.length_toList]
    exact fun none => nonempty (List.length_eq_zero_iff.mp none)
  obtain ⟨ring, elements⟩ := wellFormed.ring.pop left nonempty
  have popped : list.pop left =
      ({ list.toRingBuffer.pop left with
          bytes := list.bytes -
            (if left then list.atIndex 0 else list.atIndex (list.size - 1)).length },
        if left then list.atIndex 0 else list.atIndex (list.size - 1), true) := by
    simp [ListValue.pop, positive]
  have split : list.toList =
      if left then list.atIndex 0 :: (list.toRingBuffer.pop left).toList
      else (list.toRingBuffer.pop left).toList ++ [list.atIndex (list.size - 1)] := by
    rw [elements]
    cases left with
    | false =>
        have last : list.toList.getLast nonempty = list.atIndex (list.size - 1) := by
          simp [List.getLast_eq_getElem]
        simp only [Bool.false_eq_true, if_false, ← last, List.dropLast_append_getLast]
    | true =>
        have first : list.toList.head nonempty = list.atIndex 0 := by
          simp [List.head_eq_getElem]
        simp only [if_true, ← first, List.cons_head_tail]
  rw [popped]
  refine ⟨⟨ring, ?_⟩, rfl, ?_⟩
  · change list.bytes - _ = byteLength (list.toRingBuffer.pop left).toList
    rw [wellFormed.bytes_eq, split]
    cases left <;> simp
  · cases left <;> exact split

theorem WellFormed.insert {list : ListValue} (wellFormed : list.WellFormed)
    {index : Nat} (bounded : index ≤ list.size) (value : Bytes) :
    (list.insert index value).WellFormed ∧
      (list.insert index value).toList = list.toList.insertIdx index value := by
  obtain ⟨ring, elements⟩ := wellFormed.ring.insert bounded value
  refine ⟨⟨ring, ?_⟩, elements⟩
  change list.bytes + value.length = byteLength (list.toRingBuffer.insert index value).toList
  rw [elements, wellFormed.bytes_eq]
  have shuffled : (list.toList.insertIdx index value).Perm (value :: list.toList) :=
    List.perm_insertIdx value list.toList (by simpa using bounded)
  have sums := (shuffled.map fun item => (item.length : Int)).sum_eq
  simp only [byteLength]
  rw [sums, List.map_cons, List.sum_cons]
  ring

theorem WellFormed.removeAt {list : ListValue} (wellFormed : list.WellFormed)
    {index : Nat} (bounded : index < list.size) :
    (list.removeAt index).WellFormed ∧
      (list.removeAt index).toList = list.toList.eraseIdx index := by
  obtain ⟨ring, elements⟩ := wellFormed.ring.removeAt bounded
  refine ⟨⟨ring, ?_⟩, elements⟩
  change list.bytes - _ = byteLength (list.toRingBuffer.removeAt index).toList
  rw [elements, wellFormed.bytes_eq]
  have inside : index < list.toList.length := by simpa using bounded
  have shuffled := List.getElem_cons_eraseIdx_perm inside
  have sums := (shuffled.map fun item => (item.length : Int)).sum_eq
  simp only [byteLength]
  rw [← sums, List.map_cons, List.sum_cons, RingBuffer.getElem_toList]
  ring

theorem replace_wellFormed (list : ListValue) (items : List Bytes) :
    (list.replace items).WellFormed ∧ (list.replace items).toList = items := by
  refine ⟨⟨RingBuffer.ofList_wellFormed items, ?_⟩, RingBuffer.toList_ofList items⟩
  change byteLength items = byteLength (RingBuffer.ofList items).toList
  rw [RingBuffer.toList_ofList]

theorem WellFormed.assign {list : ListValue} (wellFormed : list.WellFormed)
    {index : Nat} (bounded : index < list.size) (value : Bytes) :
    (list.assign index value).WellFormed ∧
      (list.assign index value).toList = list.toList.set index value := by
  obtain ⟨ring, elements⟩ := wellFormed.ring.set bounded value
  refine ⟨⟨ring, ?_⟩, elements⟩
  change list.bytes + _ = byteLength (list.toRingBuffer.set index value).toList
  rw [elements, wellFormed.bytes_eq]
  have inside : index < list.toList.length := by simpa using bounded
  have before := List.getElem_cons_eraseIdx_perm inside
  have after := List.getElem_cons_eraseIdx_perm
    (show index < (list.toList.set index value).length by simpa using inside)
  have beforeSum := (before.map fun item => (item.length : Int)).sum_eq
  have afterSum := (after.map fun item => (item.length : Int)).sum_eq
  simp only [List.getElem_set_self, List.eraseIdx_set_eq, List.map_cons, List.sum_cons]
    at beforeSum afterSum
  simp only [byteLength]
  rw [← beforeSum, ← afterSum, RingBuffer.getElem_toList]
  ring

end ListValue

end Carrot
