import Carrot.Library.Slice
import Carrot.Storage.ListValue

/-!
# The circular buffer with its index arithmetic

The functions of `listValue` statement by statement.  All positions are signed,
and a division by zero or an index out of range ends a function without an
outcome.
-/

namespace Carrot

structure RawList where
  buffer : List Bytes
  head : Int
  size : Int
  bytes : Int
  deriving DecidableEq, Repr

namespace RawList

/-- The zero value `listValue{}`. -/
def zero : RawList := ⟨[], 0, 0, 0⟩

def atIndex (list : RawList) (index : Int) : Option Bytes := do
  let slot ← Slice.remainder (list.head + index) list.buffer.length
  Slice.load list.buffer slot

def set (list : RawList) (index : Int) (value : Bytes) : Option RawList := do
  let slot ← Slice.remainder (list.head + index) list.buffer.length
  let buffer ← Slice.store list.buffer slot value
  some { list with buffer }

/-- `for i := start; i < start+count; i++ { items[i-start] = l.at(i) }` -/
def copyInto (list : RawList) (items : List Bytes) (start : Int) (count : Nat) :
    Option (List Bytes) :=
  (List.range count).foldlM (fun items (offset : Nat) => do
    let value ← list.atIndex (start + offset)
    Slice.store items offset value) items

/-- The length of the buffer after it has grown. -/
def capacity (list : RawList) : Int :=
  if (list.buffer.length : Int) * 2 = 0 then 8 else list.buffer.length * 2

def grow (list : RawList) : Option RawList :=
  if list.size < list.buffer.length then some list
  else do
    let buffer ← Slice.make [] list.capacity
    let buffer ← list.copyInto buffer 0 list.size.toNat
    some { list with buffer, head := 0 }

/-- `l.head = (l.head - 1 + len(l.buffer)) % len(l.buffer)` -/
def retreat (list : RawList) : Option RawList := do
  let head ← Slice.remainder (list.head - 1 + list.buffer.length) list.buffer.length
  some { list with head }

/-- `l.head = (l.head + 1) % len(l.buffer)` -/
def advance (list : RawList) : Option RawList := do
  let head ← Slice.remainder (list.head + 1) list.buffer.length
  some { list with head }

/-- `l.buffer[l.head] = value` -/
def setHead (list : RawList) (value : Bytes) : Option RawList := do
  let buffer ← Slice.store list.buffer list.head value
  some { list with buffer }

def push (list : RawList) (value : Bytes) (left : Bool) : Option RawList := do
  let list ← list.grow
  let list := { list with bytes := list.bytes + value.length }
  let list ← if left then list.retreat else list.set list.size value
  let list ← if left then list.setHead value else some list
  some { list with size := list.size + 1 }

/-- The list, the value popped and whether there was one. -/
def pop (list : RawList) (left : Bool) : Option (RawList × Bytes × Bool) :=
  if list.size = 0 then some (list, [], false)
  else if left then do
    let value ← list.atIndex 0
    let list := { list with bytes := list.bytes - value.length }
    let list ← list.setHead []
    let list ← list.advance
    some ({ list with size := list.size - 1 }, value, true)
  else do
    let last := list.size - 1
    let value ← list.atIndex last
    let list := { list with bytes := list.bytes - value.length }
    let list ← list.set last []
    some ({ list with size := list.size - 1 }, value, true)

/-- `for i := start; i < stop; i++ { l.set(i, l.at(i+1)) }` -/
def shiftDown (list : RawList) (start stop : Int) : Option RawList :=
  (List.range (stop - start).toNat).foldlM (fun list (offset : Nat) => do
    let value ← list.atIndex (start + offset + 1)
    list.set (start + offset) value) list

/-- `for i := start; i > stop; i-- { l.set(i, l.at(i-1)) }` -/
def shiftUp (list : RawList) (start stop : Int) : Option RawList :=
  (List.range (start - stop).toNat).foldlM (fun list (offset : Nat) => do
    let value ← list.atIndex (start - offset - 1)
    list.set (start - offset) value) list

def insert (list : RawList) (index : Int) (value : Bytes) : Option RawList := do
  let list ← list.grow
  let list := { list with bytes := list.bytes + value.length }
  let list ←
    if index < list.size - index then do
      let list ← list.retreat
      list.shiftDown 0 index
    else list.shiftUp list.size index
  let list ← list.set index value
  some { list with size := list.size + 1 }

def removeAt (list : RawList) (index : Int) : Option RawList := do
  let removed ← list.atIndex index
  let list := { list with bytes := list.bytes - removed.length }
  let list ←
    if index < list.size - index - 1 then do
      let list ← list.shiftUp index 0
      let list ← list.setHead []
      list.advance
    else do
      let list ← list.shiftDown index (list.size - 1)
      list.set (list.size - 1) []
  some { list with size := list.size - 1 }

def rangeCopy (list : RawList) (start stop : Int) : Option (List Bytes) := do
  let items ← Slice.make [] (stop - start)
  list.copyInto items start (stop - start).toNat

def replace (_list : RawList) (items : List Bytes) : RawList where
  buffer := items
  head := 0
  size := items.length
  bytes := items.foldl (fun bytes item => bytes + item.length) 0

def assign (list : RawList) (index : Int) (value : Bytes) : Option RawList := do
  let replaced ← list.atIndex index
  let list := { list with bytes := list.bytes + (value.length - replaced.length) }
  list.set index value

/-! ## Nothing goes wrong -/

/-- A circular buffer and a byte count as the source stores them. -/
def of (ring : RingBuffer Bytes) (bytes : Int) : RawList :=
  ⟨ring.buffer, ring.head, ring.size, bytes⟩

section

variable {ring : RingBuffer Bytes} {bytes : Int}

theorem remainder_slot (nonempty : 0 < ring.buffer.length) (index : Nat) :
    Slice.remainder (ring.head + index) ring.buffer.length =
      some ((ring.slot index : Nat) : Int) := by
  rw [← Nat.cast_add, Slice.remainder_natCast _ nonempty]
  rfl

theorem atIndex_of (nonempty : 0 < ring.buffer.length) (index : Nat) :
    (of ring bytes).atIndex index = some (ring.atIndex index) := by
  have inside := ring.slot_lt index nonempty
  simp only [atIndex, of, remainder_slot nonempty, Option.bind_eq_bind, Option.bind_some,
    Slice.load_natCast, RingBuffer.atIndex, List.getElem?_eq_getElem inside,
    List.getD_eq_getElem?_getD, Option.getD_some]

theorem set_of (nonempty : 0 < ring.buffer.length) (index : Nat) (value : Bytes) :
    (of ring bytes).set index value = some (of (ring.set index value) bytes) := by
  have inside := ring.slot_lt index nonempty
  simp only [set, of, remainder_slot nonempty, Option.bind_eq_bind, Option.bind_some,
    Slice.store_natCast inside]
  rfl

theorem copyInto_of {count : Nat} (nonempty : 0 < count → 0 < ring.buffer.length)
    {items : List Bytes} (space : count ≤ items.length) (start : Nat) :
    (of ring bytes).copyInto items start count =
      some ((List.range count).map (fun offset => ring.atIndex (start + offset)) ++
        items.drop count) := by
  induction count with
  | zero => rfl
  | succ count inductionHypothesis =>
      have previous := inductionHypothesis (fun _ => nonempty (Nat.succ_pos count)) (by omega)
      have next : count < ((List.range count).map (fun offset => ring.atIndex (start + offset)) ++
          items.drop count).length := by
        simp
        omega
      rw [copyInto] at previous ⊢
      rw [List.range_succ, List.foldlM_append, previous]
      simp only [List.foldlM_cons, List.foldlM_nil, Option.bind_eq_bind, Option.bind_some,
        ← Nat.cast_add, atIndex_of (nonempty (Nat.succ_pos count)), Slice.store_natCast next]
      have dropped := List.drop_eq_getElem_cons (show count < items.length by omega)
      rw [List.set_append_right _ _ (by simp)]
      simp only [List.length_map, List.length_range, Nat.sub_self, dropped, List.set_cons_zero,
        List.map_append, List.map_cons, List.map_nil, List.append_assoc, List.singleton_append,
        Option.pure_def]

theorem retreat_of (nonempty : 0 < ring.buffer.length) :
    (of ring bytes).retreat = some (of ring.retreat bytes) := by
  have same : (ring.head : Int) - 1 + ring.buffer.length =
      ((ring.head + ring.buffer.length - 1 : Nat) : Int) := by omega
  simp only [retreat, of, same, Slice.remainder_natCast _ nonempty, Option.bind_eq_bind,
    Option.bind_some]
  rfl

theorem advance_of (nonempty : 0 < ring.buffer.length) :
    (of ring bytes).advance = some (of ring.advance bytes) := by
  have same : (ring.head : Int) + 1 = ((ring.head + 1 : Nat) : Int) := by omega
  simp only [advance, of, same, Slice.remainder_natCast _ nonempty, Option.bind_eq_bind,
    Option.bind_some]
  rfl

theorem setHead_of (inside : ring.head < ring.buffer.length) (value : Bytes) :
    (of ring bytes).setHead value = some (of (ring.set 0 value) bytes) := by
  have slot : ring.slot 0 = ring.head := Nat.mod_eq_of_lt inside
  simp only [setHead, of, Slice.store_natCast inside, Option.bind_eq_bind, Option.bind_some,
    RingBuffer.set, slot]

theorem shiftDown_of (nonempty : 0 < ring.buffer.length) (low count : Nat) :
    (of ring bytes).shiftDown low (low + count) = some (of (ring.shiftDown low count) bytes) := by
  have counted : ((low : Int) + count - low).toNat = count := by omega
  rw [shiftDown, counted]
  refine Slice.foldlM_eq_some (of · bytes) (fun ring => 0 < ring.buffer.length) ?_ nonempty
  intro ring offset _ nonempty
  refine ⟨?_, by rwa [RingBuffer.length_buffer_set]⟩
  rw [← Nat.cast_add, ← Nat.cast_succ, atIndex_of nonempty]
  exact set_of nonempty _ _

theorem shiftUp_of (nonempty : 0 < ring.buffer.length) {high count : Nat} (bounded : count ≤ high) :
    (of ring bytes).shiftUp high (high - count) = some (of (ring.shiftUp high count) bytes) := by
  have counted : ((high : Int) - (high - count)).toNat = count := by omega
  rw [shiftUp, counted]
  refine Slice.foldlM_eq_some (of · bytes) (fun ring => 0 < ring.buffer.length) ?_ nonempty
  intro ring offset membership nonempty
  rw [List.mem_range] at membership
  refine ⟨?_, by rwa [RingBuffer.length_buffer_set]⟩
  rw [show (high : Int) - offset = ((high - offset : Nat) : Int) by omega,
    show ((high - offset : Nat) : Int) - 1 = ((high - offset - 1 : Nat) : Int) by omega,
    atIndex_of nonempty]
  exact set_of nonempty _ _

theorem capacity_of (ring : RingBuffer Bytes) (bytes : Int) :
    (of ring bytes).capacity =
      ((if ring.buffer.length * 2 = 0 then 8 else ring.buffer.length * 2 : Nat) : Int) := by
  change (if (ring.buffer.length : Int) * 2 = 0 then (8 : Int) else ring.buffer.length * 2) = _
  by_cases empty : ring.buffer.length * 2 = 0
  · rw [if_pos empty, if_pos (by omega)]
    rfl
  · rw [if_neg empty, if_neg (by omega)]
    rfl

theorem grow_of (wellFormed : ring.WellFormed) :
    (of ring bytes).grow = some (of ring.grow bytes) := by
  have fits := wellFormed.size_le
  by_cases room : ring.size < ring.buffer.length
  · rw [grow, if_pos (show (of ring bytes).size < (of ring bytes).buffer.length from
      Int.ofNat_lt.mpr room), RingBuffer.grow, if_pos room]
  · have full : ¬ (of ring bytes).size < (of ring bytes).buffer.length :=
      fun less => room (Int.ofNat_lt.mp less)
    have enough : ring.size ≤
        if ring.buffer.length * 2 = 0 then 8 else ring.buffer.length * 2 := by
      by_cases empty : ring.buffer.length * 2 = 0
      · rw [if_pos empty]
        omega
      · rw [if_neg empty]
        omega
    rw [grow, if_neg full, capacity_of, RingBuffer.grow, if_neg room]
    revert enough
    generalize (if ring.buffer.length * 2 = 0 then 8 else ring.buffer.length * 2) = capacity
    intro enough
    have copied : (of ring bytes).copyInto (List.replicate capacity []) 0
        (of ring bytes).size.toNat = some (_ ++ _) :=
      copyInto_of (fun positive => lt_of_lt_of_le positive fits) (by rwa [List.length_replicate]) 0
    simp only [Slice.make_natCast, Option.bind_eq_bind, Option.bind_some, copied, Nat.zero_add,
      List.drop_replicate]
    rfl

theorem push_of (wellFormed : ring.WellFormed) (value : Bytes) (left : Bool) :
    (of ring bytes).push value left = some (of (ring.push value left) (bytes + value.length)) := by
  have nonempty : 0 < ring.grow.buffer.length := Nat.zero_lt_of_lt wellFormed.size_lt_grow
  rw [push, grow_of wellFormed]
  cases left with
  | false =>
      change ((of ring.grow (bytes + value.length)).set ring.grow.size value).bind _ = _
      rw [set_of nonempty]
      rfl
  | true =>
      have inside : ring.grow.retreat.head < ring.grow.retreat.buffer.length :=
        Nat.mod_lt _ nonempty
      change ((of ring.grow (bytes + value.length)).retreat).bind _ = _
      rw [retreat_of nonempty, Option.bind_some]
      change ((of ring.grow.retreat (bytes + value.length)).setHead value).bind _ = _
      rw [setHead_of inside]
      rfl

theorem pop_of (wellFormed : ring.WellFormed) (nonempty : ring.size ≠ 0) (left : Bool) :
    (of ring bytes).pop left =
      let value := if left then ring.atIndex 0 else ring.atIndex (ring.size - 1)
      some (of (ring.pop left) (bytes - value.length), value, true) := by
  have fits := wellFormed.size_le
  have space : 0 < ring.buffer.length := by omega
  have last : (ring.size : Int) - 1 = ((ring.size - 1 : Nat) : Int) := by omega
  rw [pop, if_neg (show (of ring bytes).size ≠ 0 by simpa [of] using nonempty)]
  cases left with
  | false =>
      change ((of ring bytes).atIndex (ring.size - 1)).bind _ = _
      rw [last, atIndex_of space, Option.bind_some]
      change ((of ring (bytes - (ring.atIndex (ring.size - 1)).length)).set (ring.size - 1) []).bind
        _ = _
      rw [last, set_of space]
      change some (RawList.mk _ _ (ring.size - 1) _, _, _) = _
      rw [last]
      rfl
  | true =>
      change ((of ring bytes).atIndex ((0 : Nat) : Int)).bind _ = _
      rw [atIndex_of space, Option.bind_some]
      change ((of ring (bytes - (ring.atIndex 0).length)).setHead []).bind _ = _
      rw [setHead_of (wellFormed.head_lt space), Option.bind_some]
      change ((of (ring.set 0 []) (bytes - (ring.atIndex 0).length)).advance).bind _ = _
      rw [advance_of (by rwa [RingBuffer.length_buffer_set])]
      change some (RawList.mk _ _ (ring.size - 1) _, _, _) = _
      rw [last]
      rfl

/-- The last step of an insertion: the gap is filled. -/
theorem fill_gap {before after : RingBuffer Bytes} {element : Nat → Bytes}
    (moved : before.Rearranged after element) (nonempty : 0 < before.buffer.length)
    (index : Nat) (value : Bytes) :
    ((of after bytes).set index value).bind
        (fun list => some { list with size := list.size + 1 }) =
      some (of { after.set index value with size := before.size + 1 } bytes) := by
  rw [set_of (by rwa [moved.length]), Option.bind_some]
  simp only [of, RingBuffer.size_set, moved.size]
  rfl

theorem insert_of (wellFormed : ring.WellFormed) {index : Nat} (bounded : index ≤ ring.size)
    (value : Bytes) :
    (of ring bytes).insert index value =
      some (of (ring.insert index value) (bytes + value.length)) := by
  have room := wellFormed.size_lt_grow
  have nonempty : 0 < ring.grow.buffer.length := Nat.zero_lt_of_lt room
  have size := ring.size_grow
  rw [insert, grow_of wellFormed]
  change (if (index : Int) < ring.grow.size - index then
      (of ring.grow (bytes + value.length)).retreat.bind _
    else ((of ring.grow (bytes + value.length)).shiftUp ring.grow.size index).bind _) = _
  rw [RingBuffer.insert]
  by_cases front : index < ring.grow.size - index
  · have moved := ring.grow.retreat.shiftDown_rearranged 0 index
      (show 0 + index < ring.grow.buffer.length by omega)
    have shifted : (of ring.grow.retreat (bytes + value.length)).shiftDown ((0 : Nat) : Int)
        ((0 : Nat) + index) = _ :=
      shiftDown_of (show 0 < ring.grow.retreat.buffer.length from nonempty) 0 index
    rw [Nat.cast_zero, zero_add] at shifted
    rw [if_pos (by omega), retreat_of nonempty, Option.bind_some]
    change ((of ring.grow.retreat (bytes + value.length)).shiftDown 0 index).bind _ = _
    rw [shifted]
    simp only [if_pos front]
    exact fill_gap moved nonempty index value
  · have moved := ring.grow.shiftUp_rearranged ring.grow.size (ring.grow.size - index)
      (by omega) (by omega)
    have shifted : (of ring.grow (bytes + value.length)).shiftUp ring.grow.size
        (ring.grow.size - (ring.grow.size - index : Nat)) = _ := shiftUp_of nonempty (by omega)
    rw [show (ring.grow.size : Int) - (ring.grow.size - index : Nat) = index by omega] at shifted
    rw [if_neg (by omega), shifted]
    simp only [if_neg front]
    exact fill_gap moved nonempty index value

theorem removeAt_of (wellFormed : ring.WellFormed) {index : Nat} (bounded : index < ring.size) :
    (of ring bytes).removeAt index =
      some (of (ring.removeAt index) (bytes - (ring.atIndex index).length)) := by
  have fits := wellFormed.size_le
  have nonempty : 0 < ring.buffer.length := by omega
  have last : (ring.size : Int) - 1 = ((ring.size - 1 : Nat) : Int) := by omega
  rw [removeAt, atIndex_of nonempty]
  change (if (index : Int) < ring.size - index - 1 then
      ((of ring (bytes - (ring.atIndex index).length)).shiftUp index 0).bind _
    else ((of ring (bytes - (ring.atIndex index).length)).shiftDown index
      (ring.size - 1)).bind _) = _
  generalize bytes - (ring.atIndex index).length = remaining
  rw [RingBuffer.removeAt]
  by_cases front : index < ring.size - index - 1
  · have moved := ring.shiftUp_rearranged index index (by omega) (Nat.le_refl _)
    have shifted : (of ring remaining).shiftUp index (index - index) = _ :=
      shiftUp_of nonempty (Nat.le_refl index)
    rw [sub_self] at shifted
    rw [if_pos (by omega), shifted, Option.bind_some]
    change ((of (ring.shiftUp index index) remaining).setHead []).bind _ = _
    rw [setHead_of (by rw [moved.head, moved.length]; exact wellFormed.head_lt nonempty),
      Option.bind_some]
    change ((of ((ring.shiftUp index index).set 0 []) remaining).advance).bind _ = _
    rw [advance_of (by rwa [RingBuffer.length_buffer_set, moved.length])]
    simp only [if_pos front]
    change some (RawList.mk _ _ (((ring.shiftUp index index).size : Int) - 1) _) = _
    rw [moved.size, last]
    rfl
  · have moved := ring.shiftDown_rearranged index (ring.size - 1 - index) (by omega)
    have shifted : (of ring remaining).shiftDown index
        (index + (ring.size - 1 - index : Nat)) = _ :=
      shiftDown_of nonempty index (ring.size - 1 - index)
    rw [show (index : Int) + (ring.size - 1 - index : Nat) = ring.size - 1 by omega] at shifted
    rw [if_neg (by omega), shifted, Option.bind_some]
    change ((of (ring.shiftDown index (ring.size - 1 - index)) remaining).set
      ((ring.shiftDown index (ring.size - 1 - index)).size - 1) []).bind _ = _
    rw [moved.size, last, set_of (by rwa [moved.length])]
    simp only [if_neg front]
    change some (RawList.mk _ _ (((ring.shiftDown index (ring.size - 1 - index)).size : Int) - 1) _)
      = _
    rw [moved.size, last]
    rfl

theorem rangeCopy_of (wellFormed : ring.WellFormed) {start stop : Nat} (ordered : start ≤ stop)
    (bounded : stop ≤ ring.size) :
    (of ring bytes).rangeCopy start stop = some (ring.rangeCopy start stop) := by
  have fits := wellFormed.size_le
  have length : (stop : Int) - start = ((stop - start : Nat) : Int) := by omega
  rw [rangeCopy, length, Slice.make_natCast, Int.toNat_natCast]
  change (of ring bytes).copyInto (List.replicate (stop - start) []) start (stop - start) = _
  rw [copyInto_of (fun _ => by omega) (by rw [List.length_replicate])]
  simp [RingBuffer.rangeCopy]

theorem assign_of (nonempty : 0 < ring.buffer.length) (index : Nat) (value : Bytes) :
    (of ring bytes).assign index value =
      some (of (ring.set index value) (bytes + (value.length - (ring.atIndex index).length))) := by
  rw [assign, atIndex_of nonempty]
  change (of ring (bytes + (value.length - (ring.atIndex index).length))).set index value = _
  exact set_of nonempty index value

theorem foldl_length (items : List Bytes) (start : Int) :
    items.foldl (fun (bytes : Int) (item : Bytes) => bytes + item.length) start =
      start + ListValue.byteLength items := by
  induction items generalizing start with
  | nil => simp
  | cons item items inductionHypothesis =>
      rw [List.foldl_cons, inductionHypothesis, ListValue.byteLength_cons, add_assoc]

theorem replace_of (list : RawList) (items : List Bytes) :
    list.replace items = of (.ofList items) (ListValue.byteLength items) := by
  rw [replace, foldl_length, zero_add]
  rfl

end

end RawList

/-! ## Runs -/

/-- A call of a function of `listValue`. -/
inductive ListOperation where
  | push (value : Bytes) (left : Bool)
  | pop (left : Bool)
  | insert (index : Nat) (value : Bytes)
  | removeAt (index : Nat)
  | assign (index : Nat) (value : Bytes)
  | replace (items : List Bytes)
  | rangeCopy (start stop : Nat)

namespace ListOperation

/-- The list after the call, and the strings that are returned. -/
def apply (items : List Bytes) : ListOperation → List Bytes × List Bytes
  | .push value left => (if left then value :: items else items ++ [value], [])
  | .pop left =>
      if left then (items.tail, items.head?.toList) else (items.dropLast, items.getLast?.toList)
  | .insert index value => (items.insertIdx index value, [])
  | .removeAt index => (items.eraseIdx index, [])
  | .assign index value => (items.set index value, [])
  | .replace items => (items, [])
  | .rangeCopy start stop => (items, (items.drop start).take (stop - start))

/-- The positions exist in the list. -/
def Allowed (items : List Bytes) : ListOperation → Prop
  | .insert index _ => index ≤ items.length
  | .removeAt index => index < items.length
  | .assign index _ => index < items.length
  | .rangeCopy start stop => start ≤ stop ∧ stop ≤ items.length
  | _ => True

def applyAll (items : List Bytes) : List ListOperation → List Bytes × List (List Bytes)
  | [] => (items, [])
  | operation :: operations =>
      let (after, returned) := operation.apply items
      let (final, others) := applyAll after operations
      (final, returned :: others)

def AllowedAll (items : List Bytes) : List ListOperation → Prop
  | [] => True
  | operation :: operations =>
      operation.Allowed items ∧ AllowedAll (operation.apply items).1 operations

end ListOperation

namespace RawList

def perform (list : RawList) : ListOperation → Option (RawList × List Bytes)
  | .push value left => (list.push value left).map fun list => (list, [])
  | .pop left => (list.pop left).map fun (list, value, found) =>
      (list, if found then [value] else [])
  | .insert index value => (list.insert index value).map fun list => (list, [])
  | .removeAt index => (list.removeAt index).map fun list => (list, [])
  | .assign index value => (list.assign index value).map fun list => (list, [])
  | .replace items => some (list.replace items, [])
  | .rangeCopy start stop => (list.rangeCopy start stop).map fun items => (list, items)

def run (list : RawList) : List ListOperation → Option (RawList × List (List Bytes))
  | [] => some (list, [])
  | operation :: operations => do
      let (list, returned) ← list.perform operation
      let (list, others) ← list.run operations
      some (list, returned :: others)

/-- The buffer holds a list and nothing else. -/
structure Holds (list : RawList) (items : List Bytes) : Prop where
  size_eq : list.size = items.length
  elements : ∀ (index : Nat) (inside : index < items.length),
    list.atIndex index = some items[index]
  size_le : list.size ≤ list.buffer.length
  head_nonneg : 0 ≤ list.head
  head_lt : list.buffer ≠ [] → list.head < list.buffer.length
  bytes_eq : list.bytes = ListValue.byteLength items
  clear : ∀ (slot : Nat) (inside : slot < list.buffer.length),
    (∀ index : Nat, index < items.length →
      Slice.remainder (list.head + index) list.buffer.length ≠ some (slot : Int)) →
    list.buffer[slot] = []

/-- A list value as the source stores it. -/
def ofList (list : ListValue) : RawList := of list.toRingBuffer list.bytes

/-- Every slot is at some distance from the head. -/
theorem slot_surjective {ring : RingBuffer Bytes} {slot : Nat} (inside : slot < ring.buffer.length)
    (head : ring.head < ring.buffer.length) :
    ∃ index, index < ring.buffer.length ∧ ring.slot index = slot := by
  by_cases before : slot < ring.head
  · refine ⟨slot + ring.buffer.length - ring.head, by omega, ?_⟩
    rw [RingBuffer.slot, show ring.head + (slot + ring.buffer.length - ring.head) =
      slot + ring.buffer.length by omega, Nat.add_mod_right, Nat.mod_eq_of_lt inside]
  · refine ⟨slot - ring.head, by omega, ?_⟩
    rw [RingBuffer.slot, show ring.head + (slot - ring.head) = slot by omega,
      Nat.mod_eq_of_lt inside]

theorem holds_of_wellFormed {list : ListValue} (wellFormed : list.WellFormed) :
    (ofList list).Holds list.toList where
  size_eq := by
    rw [RingBuffer.length_toList]
    rfl
  elements index inside := by
    have fits := wellFormed.ring.size_le
    rw [RingBuffer.length_toList] at inside
    rw [ofList, atIndex_of (by omega), RingBuffer.getElem_toList]
  size_le := Int.ofNat_le.mpr wellFormed.ring.size_le
  head_nonneg := Int.natCast_nonneg _
  head_lt nonempty := Int.ofNat_lt.mpr (wellFormed.ring.head_lt (List.length_pos_iff.mpr nonempty))
  bytes_eq := wellFormed.bytes_eq
  clear slot inside outside := by
    have nonempty : 0 < list.buffer.length := Nat.zero_lt_of_lt inside
    obtain ⟨index, indexInside, rfl⟩ := slot_surjective inside (wellFormed.ring.head_lt nonempty)
    have unused : list.size ≤ index := by
      by_contra used
      refine outside index (by simpa using used) ?_
      exact remainder_slot nonempty index
    have cleared := wellFormed.ring.clear index unused indexInside
    rwa [RingBuffer.atIndex, List.getD_eq_getElem?_getD,
      List.getElem?_eq_getElem (show list.slot index < list.buffer.length from inside)] at cleared

theorem perform_pop {list : ListValue} (wellFormed : list.WellFormed) (left : Bool) :
    ∃ after : ListValue, after.WellFormed ∧
      after.toList = ((ListOperation.pop left).apply list.toList).1 ∧
      (ofList list).perform (.pop left) =
        some (ofList after, ((ListOperation.pop left).apply list.toList).2) := by
  have size : list.toList.length = list.size := RingBuffer.length_toList _
  rcases eq_or_ne list.toList [] with empty | nonempty
  · have vacant : list.size = 0 := by rw [← size, empty, List.length_nil]
    refine ⟨list, wellFormed, ?_, ?_⟩
    · cases left <;> simp [ListOperation.apply, empty]
    · rw [perform, pop, if_pos (show (ofList list).size = 0 from Int.ofNat_eq_zero.mpr vacant)]
      cases left <;> simp [ListOperation.apply, empty]
  · have sized : list.size ≠ 0 := by
      rw [← size]
      exact fun none => nonempty (List.length_eq_zero_iff.mp none)
    obtain ⟨kept, -, split⟩ := wellFormed.pop left nonempty
    have popped : (ofList list).pop left =
        some (ofList (list.pop left).1, (list.pop left).2.1, true) := by
      rw [ofList, pop_of wellFormed.ring sized]
      simp only [ListValue.pop, if_neg sized]
      rfl
    refine ⟨_, kept, ?_⟩
    rw [perform, popped]
    cases left with
    | false =>
        rw [if_neg Bool.false_ne_true] at split
        simp only [ListOperation.apply, Bool.false_eq_true, if_false, split,
          List.dropLast_concat, List.getLast?_concat, Option.map_some, if_true,
          Option.toList_some, and_self]
    | true =>
        rw [if_pos rfl] at split
        simp only [ListOperation.apply, if_true, split, List.tail_cons, List.head?_cons,
          Option.map_some, Option.toList_some, and_self]

/-- One call. -/
theorem perform_ofList {list : ListValue} (wellFormed : list.WellFormed)
    {operation : ListOperation} (allowed : operation.Allowed list.toList) :
    ∃ after : ListValue, after.WellFormed ∧ after.toList = (operation.apply list.toList).1 ∧
      (ofList list).perform operation =
        some (ofList after, (operation.apply list.toList).2) := by
  have size : list.toList.length = list.size := RingBuffer.length_toList _
  have fits := wellFormed.ring.size_le
  cases operation with
  | push value left =>
      obtain ⟨kept, elements⟩ := wellFormed.push value left
      refine ⟨_, kept, elements, ?_⟩
      rw [perform, ofList, push_of wellFormed.ring]
      rfl
  | pop left => exact perform_pop wellFormed left
  | insert index value =>
      have bounded : index ≤ list.size := size ▸ allowed
      obtain ⟨kept, elements⟩ := wellFormed.insert bounded value
      refine ⟨_, kept, elements, ?_⟩
      rw [perform, ofList, insert_of wellFormed.ring bounded]
      rfl
  | removeAt index =>
      have bounded : index < list.size := size ▸ allowed
      obtain ⟨kept, elements⟩ := wellFormed.removeAt bounded
      refine ⟨_, kept, elements, ?_⟩
      rw [perform, ofList, removeAt_of wellFormed.ring bounded]
      rfl
  | assign index value =>
      have bounded : index < list.size := size ▸ allowed
      obtain ⟨kept, elements⟩ := wellFormed.assign bounded value
      refine ⟨_, kept, elements, ?_⟩
      rw [perform, ofList, assign_of (by omega)]
      rfl
  | replace items =>
      obtain ⟨kept, elements⟩ := list.replace_wellFormed items
      refine ⟨_, kept, elements, ?_⟩
      rw [perform, replace_of]
      rfl
  | rangeCopy start stop =>
      have bounded : stop ≤ list.size := size ▸ allowed.2
      refine ⟨list, wellFormed, rfl, ?_⟩
      rw [perform, ofList, rangeCopy_of wellFormed.ring allowed.1 bounded]
      simp only [Option.map_some, ListOperation.apply, RingBuffer.rangeCopy_eq _ bounded]

/-- A run of calls. -/
theorem run_ofList {list : ListValue} (wellFormed : list.WellFormed)
    {operations : List ListOperation} (allowed : ListOperation.AllowedAll list.toList operations) :
    ∃ after : ListValue, after.WellFormed ∧
      after.toList = (ListOperation.applyAll list.toList operations).1 ∧
      (ofList list).run operations =
        some (ofList after, (ListOperation.applyAll list.toList operations).2) := by
  induction operations generalizing list with
  | nil => exact ⟨list, wellFormed, rfl, rfl⟩
  | cons operation operations inductionHypothesis =>
      obtain ⟨between, betweenWellFormed, elements, first⟩ := perform_ofList wellFormed allowed.1
      have later := allowed.2
      rw [← elements] at later
      obtain ⟨after, afterWellFormed, final, rest⟩ := inductionHypothesis betweenWellFormed later
      refine ⟨after, afterWellFormed, ?_, ?_⟩
      · rw [final, elements]
        rfl
      · rw [run, first]
        simp only [Option.bind_eq_bind, Option.bind_some, rest, elements]
        rfl

/-- Whatever calls are made on the zero value, each with positions that exist
in the list, none of them goes wrong, they return what they return for the
list, and the buffer holds the list. -/
theorem run_holds {operations : List ListOperation}
    (allowed : ListOperation.AllowedAll [] operations) :
    ∃ list, zero.run operations = some (list, (ListOperation.applyAll [] operations).2) ∧
      list.Holds (ListOperation.applyAll [] operations).1 := by
  obtain ⟨after, wellFormed, elements, outcome⟩ :=
    run_ofList ListValue.zero_wellFormed
      (show ListOperation.AllowedAll ListValue.zero.toList operations from allowed)
  rw [ListValue.toList_zero] at elements outcome
  rw [← elements]
  exact ⟨ofList after, outcome, holds_of_wellFormed wellFormed⟩

/-- A buffer that is pushed to at both ends, grows and is closed again from
either side. -/
theorem run_holds_both_ends :
    let operations : List ListOperation :=
      [.push [1] false, .push [2] true, .insert 1 [3], .pop true, .assign 0 [4, 5], .removeAt 1,
        .rangeCopy 0 1, .pop false, .pop false, .replace [[6]]]
    ∃ list, zero.run operations =
        some (list, [[], [], [], [[2]], [], [], [[4, 5]], [[4, 5]], [], []]) ∧
      list.Holds [[6]] :=
  run_holds (by simp [ListOperation.AllowedAll, ListOperation.Allowed, ListOperation.apply])

end RawList

end Carrot
