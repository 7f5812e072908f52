import Carrot.Storage.View

/-!
# The operations refine the keyspace

Every operation of the store acts on the live cell of its key as the
corresponding cell function does.
-/

namespace Carrot.Store

/-! ## Strings and deadlines -/

theorem WellFormed.set {store : Store} (wellFormed : store.WellFormed) (key : Key)
    (value : Bytes) (ttl : Int) (clock : Clock) :
    KeyStep store key clock
      (some ⟨.string value, if ttl > 0 then clock.now + ttl else 0⟩)
      (store.set key value ttl clock) := by
  have now := clock.now_pos
  generalize deadline : (if ttl > 0 then clock.now + ttl else 0) = expiresAt
  have later : expiresAt = 0 ∨ clock.now < expiresAt := by
    rw [← deadline]
    split <;> omega
  have consistent : (Obj.ofString value expiresAt).WellFormed :=
    ⟨ListValue.zero_wellFormed, fun kind => by cases kind⟩
  have alive : (Obj.ofString value expiresAt).isExpired clock.now = false := by
    rcases later with persistent | future
    · simp [Obj.isExpired, Obj.ofString, persistent]
    · simp [Obj.isExpired, Obj.ofString, future]
  by_cases persistent : expiresAt = 0
  · have unfolded : store.set key value ttl clock =
        (store.put (getShardIndex key) key (.ofString value expiresAt) clock).volatileRemove
          (getShardIndex key) key := by
      simp [Store.set, deadline, persistent]
    rw [unfolded]
    refine ⟨wellFormed.put_volatileRemove consistent persistent clock, ?_, ?_⟩
    · intro other different
      simp [different]
    · exact view_of_written (by simp) alive
  · have unfolded : store.set key value ttl clock =
        (store.put (getShardIndex key) key (.ofString value expiresAt) clock).volatileAdd
          (getShardIndex key) key := by
      simp [Store.set, deadline, persistent]
    rw [unfolded]
    refine ⟨wellFormed.put_volatileAdd consistent persistent clock, ?_, ?_⟩
    · intro other different
      simp [different]
    · exact view_of_written (by simp) alive

theorem WellFormed.remove_step {store : Store} (wellFormed : store.WellFormed) (key : Key)
    (clock : Clock) : KeyStep store key clock none (store.remove (getShardIndex key) key) := by
  refine ⟨wellFormed.remove _ _, ?_, view_of_missing clock (by simp)⟩
  intro other different
  simp [different]

theorem WellFormed.setAt {store : Store} (wellFormed : store.WellFormed) (key : Key)
    (value : Bytes) (expiresAt : Int) (clock : Clock) :
    KeyStep store key clock (Cell.setAt value expiresAt clock.now)
      (store.setAt key value expiresAt clock) := by
  have now := clock.now_pos
  by_cases future : clock.now < expiresAt
  · have persistent : expiresAt ≠ 0 := by omega
    have consistent : (Obj.ofString value expiresAt).WellFormed :=
      ⟨ListValue.zero_wellFormed, fun kind => by cases kind⟩
    have unfolded : store.setAt key value expiresAt clock =
        (store.put (getShardIndex key) key (.ofString value expiresAt) clock).volatileAdd
          (getShardIndex key) key := by
      simp [Store.setAt, future]
    rw [unfolded, Cell.setAt, if_pos future]
    refine ⟨wellFormed.put_volatileAdd consistent persistent clock, ?_, ?_⟩
    · intro other different
      simp [different]
    · have alive : (Obj.ofString value expiresAt).isExpired clock.now = false := by
        simp [Obj.isExpired, Obj.ofString, future]
      exact view_of_written (by simp) alive
  · rw [Cell.setAt, if_neg future, Store.setAt, if_pos future]
    exact wellFormed.remove_step key clock

theorem WellFormed.getString {store : Store} (wellFormed : store.WellFormed) (key : Key)
    (clock : Clock) :
    Performs store key clock (fun cell => (cell, cell.getString))
      (store.getString key clock) := by
  rcases wellFormed.liveObjectLocked key clock with
    ⟨after, looked, missing⟩ | ⟨after, obj, looked, found⟩
  · simp only [Performs, Store.getString, looked, missing.view]
    exact ⟨missing.keep, rfl⟩
  · rcases obj.kind_cases with kind | kind
    · simp only [Performs, Store.getString, looked, found.view, kind, ne_eq, not_true_eq_false,
        if_false]
      exact ⟨found.keep, by rw [Obj.entry_of_string kind]; rfl⟩
    · simp only [Performs, Store.getString, looked, found.view, kind, ne_eq, reduceCtorEq,
        not_false_eq_true, if_true]
      exact ⟨found.keep, by rw [Obj.entry_of_list kind]; rfl⟩

/-- The objects that `TTL`, `DEL` and `PEXPIREAT` look up without touching. -/
theorem WellFormed.lookup_cases {store : Store} (wellFormed : store.WellFormed) (key : Key)
    (clock : Clock) :
    (store.peek key = none ∧ Missing store key clock store) ∨
      (∃ obj, store.peek key = some obj ∧ obj.isExpired clock.now = true ∧
        store.view clock key = none) ∨
      ∃ obj, store.peek key = some obj ∧ Found store key clock obj store := by
  cases stored : store.peek key with
  | none => exact .inl ⟨rfl, wellFormed.missing clock stored⟩
  | some obj =>
      cases dead : obj.isExpired clock.now with
      | true => exact .inr (.inl ⟨obj, rfl, dead, view_of_expired stored dead⟩)
      | false => exact .inr (.inr ⟨obj, rfl, wellFormed.found stored dead⟩)

theorem WellFormed.ttl {store : Store} (wellFormed : store.WellFormed) (key : Key)
    (clock : Clock) :
    Performs store key clock (fun cell => (cell, cell.ttl clock.now))
      (store.ttl key clock) := by
  rcases wellFormed.lookup_cases key clock with
    ⟨stored, missing⟩ | ⟨obj, stored, dead, view⟩ | ⟨obj, stored, found⟩
  · have lookup : (store.shards (getShardIndex key)).data.lookup key = none := stored
    simp only [Performs, Store.ttl, lookup, missing.view]
    exact ⟨missing.keep, rfl⟩
  · have lookup : (store.shards (getShardIndex key)).data.lookup key = some obj := stored
    simp only [Performs, Store.ttl, lookup, dead, if_true, view]
    exact ⟨wellFormed.remove_step key clock, rfl⟩
  · have lookup : (store.shards (getShardIndex key)).data.lookup key = some obj := stored
    simp only [Performs, Store.ttl, lookup, found.alive, Bool.false_eq_true, if_false,
      found.view, Cell.ttl, Obj.deadline_entry]
    by_cases persistent : obj.expiresAt = 0
    · simp only [persistent, if_true]
      exact ⟨found.keep, trivial⟩
    · have future : ¬ obj.expiresAt - clock.now < 0 := by
        have alive := found.alive
        simp [Obj.isExpired, persistent] at alive
        omega
      simp only [persistent, if_false, future]
      exact ⟨found.keep, trivial⟩

theorem WellFormed.del {store : Store} (wellFormed : store.WellFormed) (key : Key)
    (clock : Clock) :
    Performs store key clock (fun cell => (none, cell.isSome)) (store.del key clock) := by
  rcases wellFormed.lookup_cases key clock with
    ⟨stored, missing⟩ | ⟨obj, stored, dead, view⟩ | ⟨obj, stored, found⟩
  · have lookup : (store.shards (getShardIndex key)).data.lookup key = none := stored
    simp only [Performs, Store.del, lookup, missing.view]
    exact ⟨missing.keep, rfl⟩
  · have lookup : (store.shards (getShardIndex key)).data.lookup key = some obj := stored
    simp only [Performs, Store.del, lookup, dead, if_true, view]
    exact ⟨wellFormed.remove_step key clock, rfl⟩
  · have lookup : (store.shards (getShardIndex key)).data.lookup key = some obj := stored
    simp only [Performs, Store.del, lookup, found.alive, Bool.false_eq_true, if_false, found.view]
    exact ⟨found.remove, rfl⟩

theorem WellFormed.expireAt {store : Store} (wellFormed : store.WellFormed) (key : Key)
    (expiresAt : Int) (clock : Clock) :
    Performs store key clock (Cell.expireAt expiresAt clock.now)
      (store.expireAt key expiresAt clock) := by
  rcases wellFormed.lookup_cases key clock with
    ⟨stored, missing⟩ | ⟨obj, stored, dead, view⟩ | ⟨obj, stored, found⟩
  · have lookup : (store.shards (getShardIndex key)).data.lookup key = none := stored
    simp only [Performs, Store.expireAt, lookup, missing.view]
    exact ⟨missing.keep, rfl⟩
  · have lookup : (store.shards (getShardIndex key)).data.lookup key = some obj := stored
    simp only [Performs, Store.expireAt, lookup, dead, if_true, view]
    exact ⟨wellFormed.remove_step key clock, rfl⟩
  · have lookup : (store.shards (getShardIndex key)).data.lookup key = some obj := stored
    simp only [Performs, Store.expireAt, lookup, found.alive, Bool.false_eq_true, if_false,
      found.view, Cell.expireAt]
    by_cases future : clock.now < expiresAt
    · have now := clock.now_pos
      have persistent : expiresAt ≠ 0 := by omega
      simp only [future, not_true_eq_false, if_false, if_true]
      refine ⟨⟨?_, ?_, ?_⟩, trivial⟩
      · have old := wellFormed.peek_wellFormed stored
        have consistent : ({ obj with expiresAt } : Obj).WellFormed := ⟨old.list, old.nonempty⟩
        exact wellFormed.put_volatileAdd consistent persistent clock
      · intro other different
        simp [different]
      · have alive : ({ obj with expiresAt } : Obj).isExpired clock.now = false := by
          simp [Obj.isExpired, future]
        exact view_of_written (by simp) alive
    · simp only [future, not_false_eq_true, if_true, if_false]
      exact ⟨found.remove, trivial⟩

/-! ## Lists -/

/-- The common beginning of the list operations. -/
theorem WellFormed.withLiveList {Result : Type} {store : Store} (wellFormed : store.WellFormed)
    {key : Key} {clock : Clock} {missing : Except StorageError Result}
    {body : Store → Obj → Store × Except StorageError Result}
    {change : List Bytes → List Bytes × Except StorageError Result}
    (correct : ∀ after obj, Found store key clock obj after → obj.kind = .list →
      obj.list.WellFormed → obj.list.toList ≠ [] →
      KeyStep store key clock (Cell.ofList (change obj.list.toList).1 obj.expiresAt)
          (body after obj).1 ∧
        (body after obj).2 = (change obj.list.toList).2) :
    Performs store key clock (Cell.withList missing change)
      (store.withLiveList key clock missing body) := by
  rcases wellFormed.liveObjectLocked key clock with
    ⟨after, looked, absent⟩ | ⟨after, obj, looked, found⟩
  · simp only [Performs, Store.withLiveList, looked, absent.view]
    exact ⟨absent.keep, rfl⟩
  · rcases obj.kind_cases with kind | kind
    · simp only [Performs, Store.withLiveList, looked, found.view, kind, ne_eq, reduceCtorEq,
        not_false_eq_true, if_true]
      have kept := found.keep
      rw [Obj.entry_of_string kind] at kept ⊢
      exact ⟨kept, rfl⟩
    · simp only [Performs, Store.withLiveList, looked, found.view, kind, ne_eq,
        not_true_eq_false, if_false]
      have consistent := found.wellFormed.peek_wellFormed found.stored
      rw [Obj.entry_of_list kind]
      exact correct after obj found kind consistent.list (consistent.nonempty kind)

/-- A list that an operation only reads. -/
theorem Found.keepList {store after : Store} {key : Key} {clock : Clock} {obj : Obj}
    (found : Found store key clock obj after) (kind : obj.kind = .list)
    (nonempty : obj.list.toList ≠ []) :
    KeyStep store key clock (Cell.ofList obj.list.toList obj.expiresAt) after := by
  have kept := found.keep
  rw [Obj.entry_of_list kind] at kept
  rwa [Cell.ofList, if_neg nonempty]

theorem Found.putNonempty {store after : Store} {key : Key} {clock : Clock} {obj : Obj}
    (found : Found store key clock obj after) (kind : obj.kind = .list) {list : ListValue}
    (wellFormed : list.WellFormed) (nonempty : list.toList ≠ []) :
    KeyStep store key clock (Cell.ofList list.toList obj.expiresAt)
      (after.put (getShardIndex key) key { obj with list } clock) := by
  rw [Cell.ofList, if_neg nonempty]
  exact found.putList kind wellFormed nonempty

theorem pushAll_ne_nil (left : Bool) {values : List Bytes} (items : List Bytes)
    (some : values ≠ []) : Lists.pushAll left values items ≠ [] := by
  cases left <;> simp [Lists.pushAll, some]

theorem WellFormed.listPush {store : Store} (wellFormed : store.WellFormed) (key : Key)
    {values : List Bytes} (some : values ≠ []) (left onlyExisting : Bool) (clock : Clock) :
    Performs store key clock (Cell.listPush values left onlyExisting)
      (store.listPush key values left onlyExisting clock) := by
  rcases wellFormed.liveObjectLocked key clock with
    ⟨after, looked, missing⟩ | ⟨after, obj, looked, found⟩
  · cases onlyExisting with
    | true =>
        simp only [Performs, Store.listPush, looked, missing.view, Cell.listPush, and_self, if_true]
        exact ⟨missing.keep, trivial⟩
    | false =>
        obtain ⟨pushed, elements⟩ := ListValue.zero_wellFormed.pushAll values left
        have nonempty : (ListValue.zero.pushAll values left).toList ≠ [] := by
          rw [elements]
          exact pushAll_ne_nil left _ some
        have stepped := missing.putList pushed nonempty
        have size : ((ListValue.zero.pushAll values left).size : Int) = values.length := by
          rw [← RingBuffer.length_toList, elements]
          cases left <;> simp [Lists.pushAll]
        simp only [Performs, Store.listPush, looked, missing.view, Cell.listPush,
          Bool.false_eq_true, and_false, if_false, Option.getD_none, Obj.emptyList, ne_eq,
          not_true_eq_false]
        refine ⟨?_, by rw [size]⟩
        rw [elements] at stepped nonempty
        have created : Cell.ofList (Lists.pushAll left values []) 0 =
            Option.some ⟨.list (Lists.pushAll left values []), 0⟩ := if_neg nonempty
        rw [created]
        exact stepped
  · have present : ¬ ((Option.some obj) = none ∧ onlyExisting = true) := by simp
    rcases obj.kind_cases with kind | kind
    · simp only [Performs, Store.listPush, looked, found.view, Cell.listPush, Option.getD_some,
        kind, ne_eq, reduceCtorEq, not_false_eq_true, if_true]
      have kept := found.keep
      rw [Obj.entry_of_string kind] at kept ⊢
      exact ⟨kept, rfl⟩
    · have consistent := found.wellFormed.peek_wellFormed found.stored
      obtain ⟨pushed, elements⟩ := consistent.list.pushAll values left
      have nonempty : (obj.list.pushAll values left).toList ≠ [] := by
        rw [elements]
        exact pushAll_ne_nil left _ some
      have stepped := found.putNonempty kind pushed nonempty
      simp only [Performs, Store.listPush, looked, found.view, Cell.listPush, present, if_false,
        Option.getD_some, kind, ne_eq, not_true_eq_false]
      simp only [Obj.entry_of_list kind, Cell.withList, ← elements, RingBuffer.length_toList]
      refine ⟨?_, trivial⟩
      rw [← kind]
      exact stepped

theorem WellFormed.listPop {store : Store} (wellFormed : store.WellFormed) (key : Key)
    (left : Bool) {count : Int} (nonnegative : 0 ≤ count) (clock : Clock) :
    Performs store key clock (Cell.listPop left count) (store.listPop key left count clock) := by
  apply wellFormed.withLiveList
  intro after obj found kind consistent _
  have bound : (if count > obj.list.size then (obj.list.size : Int) else count).toNat =
      min count.toNat obj.list.size := by
    split <;> omega
  have length := obj.list.toRingBuffer.length_toList
  obtain ⟨popped, elements⟩ := consistent.popMany left (Nat.min_le_right count.toNat obj.list.size)
  simp only [bound, length]
  rw [← elements]
  exact ⟨found.putOrRemove kind popped, rfl⟩

theorem WellFormed.listLen {store : Store} (wellFormed : store.WellFormed) (key : Key)
    (clock : Clock) :
    Performs store key clock Cell.listLen (store.listLen key clock) := by
  apply wellFormed.withLiveList
  intro after obj found kind _ nonempty
  refine ⟨found.keepList kind nonempty, ?_⟩
  rw [RingBuffer.length_toList]

theorem WellFormed.listRange {store : Store} (wellFormed : store.WellFormed) (key : Key)
    (start stop : Int) (clock : Clock) :
    Performs store key clock (Cell.listRange start stop)
      (store.listRange key start stop clock) := by
  apply wellFormed.withLiveList
  intro after obj found kind _ nonempty
  have clamped := obj.list.clampRange_slice start stop
  cases range : clampRange start stop obj.list.size with
  | none =>
      rw [range] at clamped
      exact ⟨found.keepList kind nonempty, by simp [clamped]⟩
  | some bounds =>
      rw [range] at clamped
      exact ⟨found.keepList kind nonempty, by simp [clamped.1]⟩

theorem locate_lt {items : List Bytes} {position : Int} {index : Nat}
    (located : Lists.locate items position = some index) : index < items.length := by
  unfold Lists.locate at located
  split at located
  next inside =>
    cases located
    omega
  next => cases located

theorem WellFormed.listIndex {store : Store} (wellFormed : store.WellFormed) (key : Key)
    (position : Int) (clock : Clock) :
    Performs store key clock (Cell.listIndex position)
      (store.listIndex key position clock) := by
  apply wellFormed.withLiveList
  intro after obj found kind _ nonempty
  cases located : Lists.locate obj.list.toList position with
  | none =>
      simp only [ListValue.index_eq_locate, located]
      exact ⟨found.keepList kind nonempty, rfl⟩
  | some index =>
      simp only [ListValue.index_eq_locate, located]
      refine ⟨found.keepList kind nonempty, ?_⟩
      simp [List.getElem?_eq_getElem (locate_lt located)]

theorem WellFormed.listSet {store : Store} (wellFormed : store.WellFormed) (key : Key)
    (position : Int) (value : Bytes) (clock : Clock) :
    Performs store key clock (Cell.listSet position value)
      (store.listSet key position value clock) := by
  apply wellFormed.withLiveList
  intro after obj found kind consistent nonempty
  cases located : Lists.locate obj.list.toList position with
  | none =>
      simp only [ListValue.index_eq_locate, located]
      exact ⟨found.keepList kind nonempty, trivial⟩
  | some index =>
      have inside := locate_lt located
      rw [RingBuffer.length_toList] at inside
      obtain ⟨assigned, elements⟩ := consistent.assign inside value
      have stillNonempty : (obj.list.assign index value).toList ≠ [] := by
        rw [elements]
        simpa using nonempty
      have stepped := found.putNonempty kind assigned stillNonempty
      simp only [ListValue.index_eq_locate, located]
      rw [← elements]
      exact ⟨stepped, trivial⟩

theorem WellFormed.listTrim {store : Store} (wellFormed : store.WellFormed) (key : Key)
    (start stop : Int) (clock : Clock) :
    Performs store key clock (Cell.listTrim start stop)
      (store.listTrim key start stop clock) := by
  apply wellFormed.withLiveList
  intro after obj found kind _ _
  have clamped := obj.list.clampRange_slice start stop
  cases range : clampRange start stop obj.list.size with
  | none =>
      rw [range] at clamped
      simp only [clamped, Cell.ofList, if_true]
      exact ⟨found.remove, trivial⟩
  | some bounds =>
      rw [range] at clamped
      obtain ⟨copied, nonempty⟩ := clamped
      obtain ⟨replaced, elements⟩ := obj.list.replace_wellFormed
        (Lists.slice start stop obj.list.toList)
      have stepped := found.putNonempty kind replaced (by rwa [elements])
      rw [elements] at stepped
      simp only [copied]
      exact ⟨stepped, trivial⟩

/-- Removing every occurrence is removing a number that covers the list. -/
theorem remove_zero_eq (value : Bytes) (items : List Bytes) :
    Lists.remove 0 value items = Lists.removeFirst value items.length items := by
  rw [Lists.removeFirst_eq_filter value _ items (Nat.le_refl _)]
  simp [Lists.remove]

theorem WellFormed.listRem {store : Store} (wellFormed : store.WellFormed) (key : Key)
    (count : Int) (value : Bytes) (clock : Clock) :
    Performs store key clock (Cell.listRem count value)
      (store.listRem key count value clock) := by
  apply wellFormed.withLiveList
  intro after obj found kind consistent _
  have length := obj.list.toRingBuffer.length_toList
  generalize effective : (if count = minInt64 then -maxInt64 else count) = signed
  have limit : (if count < 0 then if count = minInt64 then maxInt64 else -count else count) =
      (signed.natAbs : Int) := by
    rw [← effective]
    simp only [minInt64, maxInt64]
    split_ifs <;> omega
  have sign : count < 0 ↔ signed < 0 := by
    rw [← effective]
    simp only [minInt64, maxInt64]
    split_ifs <;> omega
  by_cases backward : signed < 0
  · obtain ⟨removed, elements, number⟩ := consistent.remBackward value (signed.natAbs : Int)
      obj.list.size 0 signed.natAbs (Nat.le_refl _) (by intro further _; omega)
    have result : Lists.remove signed value obj.list.toList =
        (ListValue.remBackward value (signed.natAbs : Int) obj.list.size 0 obj.list).1.toList := by
      rw [elements, Lists.remove, if_neg (by omega), if_neg (by omega),
        List.take_of_length_le (Nat.le_of_eq length), List.drop_of_length_le (Nat.le_of_eq length),
        List.append_nil]
    have descending : ¬ count ≥ 0 := by omega
    simp only [limit, result, if_neg descending, RingBuffer.length_toList]
    refine ⟨found.putOrRemove kind removed, ?_⟩
    rw [number]
    simp
  · have magnitude : (signed.natAbs : Int) = signed := by omega
    have same : signed = count := by
      rw [← effective]
      simp only [minInt64] at *
      split_ifs <;> omega
    obtain ⟨removed, elements, number⟩ := consistent.remForward value count signed
      obj.list.size 0 0 (if signed = 0 then obj.list.size else signed.toNat) (Nat.zero_add _)
      (by intro further _; split <;> omega)
    have result : Lists.remove signed value obj.list.toList =
        (ListValue.remForward value count signed obj.list.size 0 0 obj.list).1.toList := by
      rw [elements]
      by_cases every : signed = 0
      · simp [every, remove_zero_eq]
      · simp [every, Lists.remove, show 0 < signed by omega]
    have ascending : count ≥ 0 := by omega
    simp only [limit, magnitude, result, if_pos ascending, RingBuffer.length_toList]
    refine ⟨found.putOrRemove kind removed, ?_⟩
    rw [number]
    simp

theorem WellFormed.listInsert {store : Store} (wellFormed : store.WellFormed) (key : Key)
    (pivot value : Bytes) (before : Bool) (clock : Clock) :
    Performs store key clock (Cell.listInsert pivot value before)
      (store.listInsert key pivot value before clock) := by
  apply wellFormed.withLiveList
  intro after obj found kind consistent nonempty
  have searched := obj.list.findPivot_eq pivot obj.list.size 0 (Nat.zero_add _)
  simp only [List.drop_zero, Nat.zero_add, Option.map_id_fun', id_eq] at searched
  cases located : obj.list.toList.findIdx? (fun item => item = pivot) with
  | none =>
      simp only [searched, Lists.insertNear, located, Option.map_none]
      exact ⟨found.keepList kind nonempty, trivial⟩
  | some index =>
      obtain ⟨inside, _⟩ := List.findIdx?_eq_some_iff_getElem.mp located
      rw [RingBuffer.length_toList] at inside
      generalize target : (if before then index else index + 1) = position
      have bounded : position ≤ obj.list.size := by
        rw [← target]
        split <;> omega
      obtain ⟨inserted, elements⟩ := consistent.insert bounded value
      have stillNonempty : (obj.list.insert position value).toList ≠ [] := by
        intro empty
        have length := congrArg List.length (elements.symm.trans empty)
        rw [List.length_insertIdx_of_le_length (by simpa using bounded)] at length
        simp at length
      have stepped := found.putNonempty kind inserted stillNonempty
      simp only [searched, Lists.insertNear, located, Option.map_some, target]
      rw [← elements, RingBuffer.length_toList]
      exact ⟨stepped, rfl⟩

/-- A step that leaves the store alone. -/
theorem WellFormed.keep {store : Store} (wellFormed : store.WellFormed) (key : Key)
    (clock : Clock) : KeyStep store key clock (store.view clock key) store :=
  ⟨wellFormed, fun _ _ => rfl, rfl⟩

theorem WellFormed.listPosition {store : Store} (wellFormed : store.WellFormed) (key : Key)
    (value : Bytes) (rank count maxLen : Int) (clock : Clock) :
    Performs store key clock (Cell.listPosition value rank count maxLen)
      (store.listPosition key value rank count maxLen clock) := by
  by_cases invalid : rank = minInt64
  · simp only [Performs, Cell.listPosition, Store.listPosition, invalid, if_true]
    exact ⟨wellFormed.keep key clock, trivial⟩
  · have opened : Cell.listPosition value rank count maxLen =
        Cell.withList (.ok []) fun items =>
          (items, .ok (Lists.positions value rank count maxLen items)) := by
      funext cell
      simp [Cell.listPosition, invalid]
    rw [opened, Store.listPosition, if_neg invalid]
    apply wellFormed.withLiveList
    intro after obj found kind _ nonempty
    have scanned := obj.list.scanPositions_positions value rank count maxLen
    by_cases descending : rank < 0
    · rw [if_pos descending] at scanned
      simp only [if_pos descending, scanned]
      exact ⟨found.keepList kind nonempty, trivial⟩
    · rw [if_neg descending] at scanned
      simp only [if_neg descending, scanned]
      exact ⟨found.keepList kind nonempty, trivial⟩

/-! ## Moving between lists -/

theorem pop_push_elements {list : ListValue} (wellFormed : list.WellFormed)
    (nonempty : list.toList ≠ []) (left : Bool) :
    Lists.popMany left 1 list.toList =
      ((list.pop left).1.toList, [(list.pop left).2.1]) := by
  obtain ⟨_, _, split⟩ := wellFormed.pop left nonempty
  cases left with
  | true =>
      rw [if_pos rfl] at split
      rw [split]
      simp [Lists.popMany]
  | false =>
      rw [if_neg Bool.false_ne_true] at split
      rw [split]
      simp [Lists.popMany]

theorem push_elements {list : ListValue} (wellFormed : list.WellFormed) (value : Bytes)
    (left : Bool) :
    (list.push value left).WellFormed ∧
      (list.push value left).toList = Lists.pushAll left [value] list.toList := by
  obtain ⟨pushed, elements⟩ := wellFormed.push value left
  refine ⟨pushed, elements.trans ?_⟩
  cases left <;> simp [Lists.pushAll]

/-- The effect of an operation on the whole view. -/
structure Refines {Result : Type} (store : Store) (clock : Clock)
    (target : Keyspace × Result) (outcome : Store × Result) : Prop where
  wellFormed : outcome.1.WellFormed
  view : outcome.1.view clock = target.1
  result : outcome.2 = target.2

theorem KeyStep.view_eq {store after : Store} {key : Key} {clock : Clock} {cell : Cell}
    (step : KeyStep store key clock cell after) :
    after.view clock = Function.update (store.view clock) key cell := by
  funext other
  by_cases same : other = key
  · subst other
    rw [step.view, Function.update_self]
  · rw [Function.update_of_ne same]
    exact view_congr clock (step.frame other same)

/-- Looking a key up does not change the view. -/
theorem Found.view_eq {store after : Store} {key : Key} {clock : Clock} {obj : Obj}
    (found : Found store key clock obj after) : after.view clock = store.view clock := by
  rw [found.keep.view_eq, ← found.view, Function.update_eq_self]

theorem Missing.view_eq {store after : Store} {key : Key} {clock : Clock}
    (missing : Missing store key clock after) : after.view clock = store.view clock := by
  rw [missing.keep.view_eq, ← missing.view, Function.update_eq_self]

theorem view_live (store : Store) (clock : Clock) (key : Key) :
    (store.view clock).live clock key = store.view clock key :=
  congrFun (store.contents.live_live (le_refl clock)) key

section

variable {store after ready : Store} {src dst : Key} {clock : Clock} {source destination : Obj}

/-- A live list gives up its first or last element. -/
theorem Found.pop (found : Found store src clock source after) (kind : source.kind = .list)
    (left : Bool) :
    (source.list.pop left).1.WellFormed ∧
      Lists.popMany left 1 source.list.toList =
        ((source.list.pop left).1.toList, [(source.list.pop left).2.1]) := by
  have consistent := found.wellFormed.peek_wellFormed found.stored
  have nonempty := consistent.nonempty kind
  exact ⟨(consistent.list.pop left nonempty).1, pop_push_elements consistent.list nonempty left⟩

theorem Found.listMove_self
    (looked : store.liveObjectLocked (getShardIndex src) src clock = (after, some source))
    (found : Found store src clock source after) (kind : source.kind = .list)
    (fromLeft toLeft : Bool) :
    Refines store clock (Keyspace.listMove (store.view clock) src src fromLeft toLeft clock)
      (store.listMove src src fromLeft toLeft clock) := by
  obtain ⟨popped, elements⟩ := found.pop kind fromLeft
  obtain ⟨pushed, rotated⟩ := push_elements popped (source.list.pop fromLeft).2.1 toLeft
  have stepped := found.putNonempty kind pushed (by
    rw [rotated]
    exact pushAll_ne_nil toLeft _ (List.cons_ne_nil _ _))
  rw [rotated] at stepped
  simp only [Store.listMove, Store.listMoveLocked, looked, Keyspace.listMove, view_live,
    found.view, Obj.entry_of_list kind, ne_eq, not_true_eq_false, if_false, kind,
    elements, List.headD_cons, if_true]
  rw [← kind]
  exact ⟨stepped.wellFormed, stepped.view_eq, rfl⟩

/-- The source is written first and the destination last. -/
theorem Found.listMove_missing
    (looked : store.liveObjectLocked (getShardIndex src) src clock = (after, some source))
    (found : Found store src clock source after) (kind : source.kind = .list)
    (different : src ≠ dst)
    (lookedDst : after.liveObjectLocked (getShardIndex dst) dst clock = (ready, none))
    (missing : Missing after dst clock ready) (fromLeft toLeft : Bool) :
    Refines store clock (Keyspace.listMove (store.view clock) src dst fromLeft toLeft clock)
      (store.listMove src dst fromLeft toLeft clock) := by
  obtain ⟨popped, elements⟩ := found.pop kind fromLeft
  have dstView : after.view clock dst = store.view clock dst := congrFun found.view_eq dst
  have unmoved : ready.peek src = some source := by
    rw [missing.frame src different, found.stored]
  have sourceStep := (missing.wellFormed.found unmoved found.alive).putOrRemove kind popped
  have absent := sourceStep.wellFormed.missing clock
    ((sourceStep.frame dst different.symm).trans missing.stored)
  obtain ⟨pushed, moved⟩ := push_elements ListValue.zero_wellFormed
    (source.list.pop fromLeft).2.1 toLeft
  have single : Lists.pushAll toLeft [(source.list.pop fromLeft).2.1] ListValue.zero.toList =
      [(source.list.pop fromLeft).2.1] := by
    cases toLeft <;> simp [Lists.pushAll]
  have targetStep := absent.putList pushed (by rw [moved, single]; simp)
  rw [moved, single] at targetStep
  have opened : store.listMove src dst fromLeft toLeft clock =
      ((ready.putOrRemove (getShardIndex src) src
          { source with list := (source.list.pop fromLeft).1 } clock).put (getShardIndex dst) dst
        { Obj.emptyList with
          list := ListValue.zero.push (source.list.pop fromLeft).2.1 toLeft } clock,
        .ok (some (source.list.pop fromLeft).2.1)) := by
    simp [Store.listMove, Store.listMoveLocked, looked, kind, different, lookedDst, Obj.emptyList]
  rw [opened]
  refine ⟨targetStep.wellFormed, ?_, ?_⟩
  · rw [targetStep.view_eq, sourceStep.view_eq, missing.view_eq, found.view_eq]
    simp [Keyspace.listMove, view_live, found.view, Obj.entry_of_list kind, elements, different,
      ← dstView, missing.view, Cell.ofList]
  · simp [Keyspace.listMove, view_live, found.view, Obj.entry_of_list kind, elements, different,
      ← dstView, missing.view]

theorem Found.listMove_found
    (looked : store.liveObjectLocked (getShardIndex src) src clock = (after, some source))
    (found : Found store src clock source after) (kind : source.kind = .list)
    (different : src ≠ dst)
    (lookedDst : after.liveObjectLocked (getShardIndex dst) dst clock =
      (ready, some destination))
    (target : Found after dst clock destination ready) (kindDst : destination.kind = .list)
    (fromLeft toLeft : Bool) :
    Refines store clock (Keyspace.listMove (store.view clock) src dst fromLeft toLeft clock)
      (store.listMove src dst fromLeft toLeft clock) := by
  obtain ⟨popped, elements⟩ := found.pop kind fromLeft
  have dstView : after.view clock dst = store.view clock dst := congrFun found.view_eq dst
  have unmoved : ready.peek src = some source := by
    rw [target.frame src different, found.stored]
  have sourceStep := (target.wellFormed.found unmoved found.alive).putOrRemove kind popped
  have present := sourceStep.wellFormed.found
    ((sourceStep.frame dst different.symm).trans target.stored) target.alive
  have consistentDst := target.wellFormed.peek_wellFormed target.stored
  obtain ⟨pushed, moved⟩ := push_elements consistentDst.list
    (source.list.pop fromLeft).2.1 toLeft
  have targetStep := present.putNonempty kindDst pushed (by
    rw [moved]
    exact pushAll_ne_nil toLeft _ (List.cons_ne_nil _ _))
  rw [moved] at targetStep
  have opened : store.listMove src dst fromLeft toLeft clock =
      ((ready.putOrRemove (getShardIndex src) src
          { source with list := (source.list.pop fromLeft).1 } clock).put (getShardIndex dst) dst
        { destination with
          list := destination.list.push (source.list.pop fromLeft).2.1 toLeft } clock,
        .ok (some (source.list.pop fromLeft).2.1)) := by
    simp [Store.listMove, Store.listMoveLocked, looked, kind, different, lookedDst, kindDst]
  rw [opened]
  refine ⟨targetStep.wellFormed, ?_, ?_⟩
  · rw [targetStep.view_eq, sourceStep.view_eq, target.view_eq, found.view_eq]
    simp [Keyspace.listMove, view_live, found.view, Obj.entry_of_list kind, elements, different,
      ← dstView, target.view, Obj.entry_of_list kindDst]
  · simp [Keyspace.listMove, view_live, found.view, Obj.entry_of_list kind, elements, different,
      ← dstView, target.view, Obj.entry_of_list kindDst]

end

theorem WellFormed.listMove {store : Store} (wellFormed : store.WellFormed) (src dst : Key)
    (fromLeft toLeft : Bool) (clock : Clock) :
    Refines store clock (Keyspace.listMove (store.view clock) src dst fromLeft toLeft clock)
      (store.listMove src dst fromLeft toLeft clock) := by
  rcases wellFormed.liveObjectLocked src clock with
    ⟨after, looked, missing⟩ | ⟨after, source, looked, found⟩
  · simp only [Store.listMove, Store.listMoveLocked, looked, Keyspace.listMove, view_live,
      missing.view]
    exact ⟨missing.wellFormed, missing.view_eq, rfl⟩
  rcases source.kind_cases with kind | kind
  · simp only [Store.listMove, Store.listMoveLocked, looked, Keyspace.listMove, view_live,
      found.view, Obj.entry_of_string kind, kind, ne_eq, reduceCtorEq, not_false_eq_true, if_true]
    exact ⟨found.wellFormed, found.view_eq, rfl⟩
  by_cases same : src = dst
  · subst dst
    exact found.listMove_self looked kind fromLeft toLeft
  rcases found.wellFormed.liveObjectLocked dst clock with
    ⟨ready, lookedDst, missing⟩ | ⟨ready, destination, lookedDst, target⟩
  · exact found.listMove_missing looked kind same lookedDst missing fromLeft toLeft
  rcases destination.kind_cases with kindDst | kindDst
  · have elements := (found.pop kind fromLeft).2
    have dstView : after.view clock dst = store.view clock dst := congrFun found.view_eq dst
    simp only [Store.listMove, Store.listMoveLocked, looked, Keyspace.listMove, view_live,
      found.view, Obj.entry_of_list kind, ne_eq, not_true_eq_false, if_false, same,
      elements, lookedDst, ← dstView, target.view, Obj.entry_of_string kindDst,
      Option.any_some, kindDst, reduceCtorEq, not_false_eq_true, decide_true, if_true, kind]
    exact ⟨target.wellFormed, by rw [target.view_eq, found.view_eq], rfl⟩
  · exact found.listMove_found looked kind same lookedDst target kindDst fromLeft toLeft

end Carrot.Store
