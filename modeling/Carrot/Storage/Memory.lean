import Carrot.Storage.Call

/-!
# Calls that do not use more memory

The estimate of a list counts the slots of its buffer and the bytes of its
elements.  Popping and removing elements keep the buffer, and trimming makes a
buffer for the elements that stay, so that none of them raises the estimate.
-/

namespace Carrot

namespace ListValue

/-- A list that is not estimated higher than another one. -/
structure Within (after before : ListValue) : Prop where
  buffer : after.buffer.length ≤ before.buffer.length
  bytes : after.bytes ≤ before.bytes

theorem Within.refl (list : ListValue) : list.Within list := ⟨Nat.le_refl _, le_refl _⟩

theorem Within.trans {first second third : ListValue} (start : first.Within second)
    (next : second.Within third) : first.Within third :=
  ⟨start.buffer.trans next.buffer, start.bytes.trans next.bytes⟩

theorem Within.memorySize_le {after before : ListValue} (within : after.Within before) :
    after.memorySize ≤ before.memorySize := by
  have buffer := within.buffer
  have bytes := within.bytes
  simp only [memorySize, stringHeaderBytes]
  omega

theorem pop_within (list : ListValue) (left : Bool) : (list.pop left).1.Within list := by
  unfold pop
  split
  next => exact .refl list
  next =>
    refine ⟨?_, Int.sub_le_self _ (Int.natCast_nonneg _)⟩
    cases left <;> simp [RingBuffer.pop]

theorem popMany_within (list : ListValue) (left : Bool) (count : Nat) :
    (list.popMany left count).1.Within list := by
  induction count generalizing list with
  | zero => exact .refl list
  | succ count inductionHypothesis =>
      exact (inductionHypothesis _).trans (list.pop_within left)

theorem removeAt_within (list : ListValue) (index : Nat) : (list.removeAt index).Within list :=
  ⟨(RingBuffer.length_removeAt _ index).le, Int.sub_le_self _ (Int.natCast_nonneg _)⟩

theorem remForward_within (value : Bytes) (count limit : Int) (remaining position : Nat)
    (removed : Int) (list : ListValue) :
    (remForward value count limit remaining position removed list).1.Within list := by
  induction remaining generalizing position removed list with
  | zero => exact .refl list
  | succ remaining inductionHypothesis =>
      rw [remForward]
      split
      next => exact (inductionHypothesis _ _ _).trans (list.removeAt_within position)
      next => exact inductionHypothesis _ _ _

theorem remBackward_within (value : Bytes) (limit : Int) (position : Nat) (removed : Int)
    (list : ListValue) : (remBackward value limit position removed list).1.Within list := by
  induction position generalizing removed list with
  | zero => exact .refl list
  | succ position inductionHypothesis =>
      rw [remBackward]
      split
      next => exact (inductionHypothesis _ _).trans (list.removeAt_within position)
      next => exact inductionHypothesis _ _

theorem byteLength_nonneg (items : List Bytes) : 0 ≤ byteLength items := by
  refine List.sum_nonneg fun length membership => ?_
  obtain ⟨item, -, rfl⟩ := List.mem_map.mp membership
  exact Int.natCast_nonneg _

theorem byteLength_le_of_sublist {some all : List Bytes} (sublist : some.Sublist all) :
    byteLength some ≤ byteLength all := by
  refine (sublist.map fun item : Bytes => (item.length : Int)).sum_le_sum ?_
  intro length membership
  obtain ⟨item, -, rfl⟩ := List.mem_map.mp membership
  exact Int.natCast_nonneg _

/-- A list that is replaced by elements of itself. -/
theorem WellFormed.replace_within {list : ListValue} (wellFormed : list.WellFormed)
    {items : List Bytes} (sublist : items.Sublist list.toList) :
    (list.replace items).Within list := by
  have fits := wellFormed.ring.size_le
  have shorter := sublist.length_le
  rw [RingBuffer.length_toList] at shorter
  refine ⟨shorter.trans fits, ?_⟩
  rw [wellFormed.bytes_eq]
  exact byteLength_le_of_sublist sublist

theorem slice_sublist (start stop : Int) (items : List Bytes) :
    (Lists.slice start stop items).Sublist items :=
  (List.drop_sublist _ _).trans (List.take_sublist _ _)

end ListValue

/-! ## The estimate of the store -/

namespace Store

variable {store after : Store} {key : Key} {obj old : Obj} {clock : Clock}

theorem memorySize_nonneg (consistent : obj.WellFormed) (key : Key) : 0 ≤ obj.memorySize key := by
  have bytes := ListValue.byteLength_nonneg obj.list.toList
  rw [← consistent.list.bytes_eq] at bytes
  simp only [Obj.memorySize, entryOverhead, ListValue.memorySize, stringHeaderBytes]
  omega

theorem WellFormed.used_remove_le (wellFormed : store.WellFormed) (key : Key) :
    (store.remove (getShardIndex key) key).usedMemory ≤ store.usedMemory := by
  rw [wellFormed.remove_eq]
  refine Int.sub_le_self _ ?_
  unfold charge
  cases found : (store.shards (getShardIndex key)).data.lookup key with
  | none => exact le_refl 0
  | some obj => exact memorySize_nonneg ((wellFormed.shards _).objects key obj found) key

/-- An object that takes the place of one that is estimated as high. -/
theorem WellFormed.used_put_le (wellFormed : store.WellFormed) (found : store.peek key = some old)
    (smaller : obj.memorySize key ≤ old.memorySize key) :
    (store.put (getShardIndex key) key obj clock).usedMemory ≤ store.usedMemory := by
  have charged : store.charge (getShardIndex key) key = old.memorySize key := by
    rw [charge, show (store.shards (getShardIndex key)).data.lookup key = some old from found]
    rfl
  have same : ({ obj with lastAccess := clock.unixNano } : Obj).memorySize key =
      obj.memorySize key := rfl
  rw [wellFormed.put_eq, charged, same]
  change store.usedBytes + _ ≤ store.usedBytes
  omega

theorem WellFormed.used_putOrRemove_le (wellFormed : store.WellFormed)
    (found : store.peek key = some old) (smaller : obj.memorySize key ≤ old.memorySize key) :
    (store.putOrRemove (getShardIndex key) key obj clock).usedMemory ≤ store.usedMemory := by
  unfold putOrRemove
  split
  next => exact wellFormed.used_remove_le key
  next => exact wellFormed.used_put_le found smaller

theorem WellFormed.used_liveObjectLocked_le (wellFormed : store.WellFormed) (key : Key)
    (clock : Clock) :
    (store.liveObjectLocked (getShardIndex key) key clock).1.usedMemory ≤ store.usedMemory := by
  unfold Store.liveObjectLocked
  split
  next => exact le_refl _
  next =>
    split
    next => exact wellFormed.used_remove_le key
    next => exact le_refl _

/-- Operations on a list that do not raise the estimate once it is found. -/
theorem WellFormed.used_withLiveList_le {Result : Type} (wellFormed : store.WellFormed)
    {missing : Except StorageError Result}
    {body : Store → Obj → Store × Except StorageError Result}
    (shrinks : ∀ after obj, Found store key clock obj after →
      (body after obj).1.usedMemory ≤ after.usedMemory) :
    (store.withLiveList key clock missing body).1.usedMemory ≤ store.usedMemory := by
  have looked := wellFormed.used_liveObjectLocked_le key clock
  unfold Store.withLiveList
  rcases wellFormed.liveObjectLocked key clock with
    ⟨after, lookup, -⟩ | ⟨after, obj, lookup, found⟩
  · rw [lookup] at looked ⊢
    exact looked
  · rw [lookup] at looked ⊢
    dsimp only
    split
    next => exact looked
    next => exact (shrinks after obj found).trans looked

/-- A list that takes the place of one that is estimated as high. -/
theorem memorySize_list_le {list : ListValue} (within : list.Within obj.list) (key : Key) :
    ({ obj with list } : Obj).memorySize key ≤ obj.memorySize key := by
  have smaller := within.memorySize_le
  simp only [Obj.memorySize]
  omega

theorem WellFormed.used_getString_le (wellFormed : store.WellFormed) (key : Key) (clock : Clock) :
    (store.getString key clock).1.usedMemory ≤ store.usedMemory := by
  have looked := wellFormed.used_liveObjectLocked_le key clock
  unfold Store.getString
  split
  next lookup =>
    rw [lookup] at looked
    exact looked
  next lookup =>
    rw [lookup] at looked
    split <;> exact looked

theorem WellFormed.used_ttl_le (wellFormed : store.WellFormed) (key : Key) (clock : Clock) :
    (store.ttl key clock).1.usedMemory ≤ store.usedMemory := by
  unfold Store.ttl
  dsimp only
  split
  next => exact le_refl _
  next =>
    split_ifs
    · exact wellFormed.used_remove_le key
    · exact le_refl _
    · exact wellFormed.used_remove_le key
    · exact le_refl _

theorem WellFormed.used_del_le (wellFormed : store.WellFormed) (key : Key) (clock : Clock) :
    (store.del key clock).1.usedMemory ≤ store.usedMemory := by
  unfold Store.del
  dsimp only
  split
  next => exact le_refl _
  next => split <;> exact wellFormed.used_remove_le key

theorem WellFormed.used_listTrim_le (wellFormed : store.WellFormed) (key : Key)
    (start stop : Int) (clock : Clock) :
    (store.listTrim key start stop clock).1.usedMemory ≤ store.usedMemory := by
  refine wellFormed.used_withLiveList_le fun after obj found => ?_
  have sliced := ListValue.clampRange_slice obj.list start stop
  split
  next => exact found.wellFormed.used_remove_le key
  next low high clamped =>
    rw [clamped] at sliced
    have consistent := (found.wellFormed.peek_wellFormed found.stored).list
    refine found.wellFormed.used_put_le found.stored (memorySize_list_le ?_ key)
    rw [sliced.1]
    exact consistent.replace_within (ListValue.slice_sublist start stop _)

theorem WellFormed.used_expireAt_le (wellFormed : store.WellFormed) (key : Key) (expiresAt : Int)
    (clock : Clock) : (store.expireAt key expiresAt clock).1.usedMemory ≤ store.usedMemory := by
  unfold Store.expireAt
  dsimp only
  split
  next => exact le_refl _
  next obj stored =>
    split
    next => exact wellFormed.used_remove_le key
    next =>
      split
      next => exact wellFormed.used_remove_le key
      next => exact wellFormed.used_put_le stored (le_refl (obj.memorySize key))

end Store

/-- The calls that are not subject to the limit on memory. -/
def StoreCall.Shrinks {Result : Type} : StoreCall Result → Prop
  | .set _ _ _ | .setAt _ _ _ | .listPush _ _ _ _ _ | .listSet _ _ _ | .listInsert _ _ _ _
  | .listMove _ _ _ _ => False
  | _ => True

/-- Such a call does not raise the estimate. -/
theorem Store.WellFormed.used_perform_le {store : Store} (wellFormed : store.WellFormed)
    (clock : Clock) {Result : Type} {call : StoreCall Result} (shrinks : call.Shrinks) :
    (store.perform clock call).1.usedMemory ≤ store.usedMemory := by
  cases call with
  | getString key => exact wellFormed.used_getString_le key clock
  | ttl key => exact wellFormed.used_ttl_le key clock
  | del key => exact wellFormed.used_del_le key clock
  | expire key seconds => exact wellFormed.used_expireAt_le key _ clock
  | expireAt key expiresAt => exact wellFormed.used_expireAt_le key expiresAt clock
  | listPop key left count nonnegative =>
      refine wellFormed.used_withLiveList_le fun after obj found => ?_
      exact found.wellFormed.used_putOrRemove_le found.stored
        (memorySize_list_le (obj.list.popMany_within left _) key)
  | listLen key => exact wellFormed.used_withLiveList_le fun _ _ _ => le_refl _
  | listRange key start stop =>
      refine wellFormed.used_withLiveList_le fun after obj _ => ?_
      split <;> exact le_refl _
  | listIndex key position =>
      refine wellFormed.used_withLiveList_le fun after obj _ => ?_
      split <;> exact le_refl _
  | listTrim key start stop => exact wellFormed.used_listTrim_le key start stop clock
  | listRem key count value =>
      refine wellFormed.used_withLiveList_le fun after obj found => ?_
      refine found.wellFormed.used_putOrRemove_le found.stored (memorySize_list_le ?_ key)
      split
      next => exact ListValue.remForward_within value _ _ _ _ _ _
      next => exact ListValue.remBackward_within value _ _ _ _
  | listPosition key value rank count maxLen =>
      change (store.listPosition key value rank count maxLen clock).1.usedMemory ≤ _
      unfold Store.listPosition
      split
      next => exact le_refl _
      next =>
        refine wellFormed.used_withLiveList_le fun after obj _ => ?_
        split <;> exact le_refl _
  | set | setAt | listPush | listSet | listInsert | listMove => exact shrinks.elim

end Carrot
