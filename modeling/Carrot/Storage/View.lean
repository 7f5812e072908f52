import Carrot.Keyspace.Cell
import Carrot.Storage.Invariant
import Carrot.Storage.ListLoops

/-!
# Stores represent keyspaces

The view of a store at a clock reading is the keyspace a client observes then.
`Performs` says that an operation on a store acts on the cell of one key as a
given function does, leaves every other key alone and keeps the
representation invariant.
-/

namespace Carrot

def Obj.entry (obj : Obj) : Entry where
  content :=
    match obj.kind with
    | .string => .string obj.value
    | .list => .list obj.list.toList
  deadline := obj.expiresAt

@[simp]
theorem Obj.expired_entry (obj : Obj) (now : Int) : obj.entry.expired now = obj.isExpired now :=
  rfl

@[simp]
theorem Obj.deadline_entry (obj : Obj) : obj.entry.deadline = obj.expiresAt := rfl

theorem Obj.entry_of_string {obj : Obj} (kind : obj.kind = .string) :
    obj.entry = ⟨.string obj.value, obj.expiresAt⟩ := by
  simp [entry, kind]

theorem Obj.entry_of_list {obj : Obj} (kind : obj.kind = .list) :
    obj.entry = ⟨.list obj.list.toList, obj.expiresAt⟩ := by
  simp [entry, kind]

theorem Obj.kind_cases (obj : Obj) : obj.kind = .string ∨ obj.kind = .list := by
  cases obj.kind
  · exact .inl rfl
  · exact .inr rfl

namespace Store

/-- Everything stored, whether or not its deadline has passed. -/
def contents (store : Store) : Keyspace := fun key => (store.peek key).map Obj.entry

/-- What a client can observe. -/
def view (store : Store) (clock : Clock) : Keyspace := store.contents.live clock

theorem view_of_peek {store : Store} {key : Key} {obj : Obj} {clock : Clock}
    (stored : store.peek key = some obj) (alive : obj.isExpired clock.now = false) :
    store.view clock key = some obj.entry := by
  simp [view, contents, Keyspace.live, stored, Cell.live_some, alive]

/-- An object is stamped when it is written. -/
theorem view_of_written {store : Store} {key : Key} {obj : Obj} {clock : Clock}
    (stored : store.peek key = some { obj with lastAccess := clock.unixNano })
    (alive : obj.isExpired clock.now = false) : store.view clock key = some obj.entry := by
  rw [view_of_peek stored alive]
  rfl

theorem view_of_expired {store : Store} {key : Key} {obj : Obj} {clock : Clock}
    (stored : store.peek key = some obj) (dead : obj.isExpired clock.now = true) :
    store.view clock key = none := by
  simp [view, contents, Keyspace.live, stored, Cell.live_some, dead]

theorem view_of_missing {store : Store} {key : Key} (clock : Clock)
    (missing : store.peek key = none) : store.view clock key = none := by
  simp [view, contents, Keyspace.live, missing]

theorem view_congr {first second : Store} {key : Key} (clock : Clock)
    (same : first.peek key = second.peek key) :
    first.view clock key = second.view clock key := by
  simp [view, contents, Keyspace.live, same]

/-- Later views only lose the entries that expire in between. -/
theorem view_later (store : Store) {first second : Clock} (ordered : first ≤ second) :
    store.view second = (store.view first).live second :=
  (store.contents.live_live ordered).symm

/-- The effect of a step on one key. -/
structure KeyStep (store : Store) (key : Key) (clock : Clock) (cell : Cell) (after : Store) :
    Prop where
  wellFormed : after.WellFormed
  frame : ∀ other, other ≠ key → after.peek other = store.peek other
  view : after.view clock key = cell

/-- An operation whose new cell and result are computed from the live cell. -/
def Performs {Result : Type} (store : Store) (key : Key) (clock : Clock)
    (change : Cell → Cell × Result) (outcome : Store × Result) : Prop :=
  KeyStep store key clock (change (store.view clock key)).1 outcome.1 ∧
    outcome.2 = (change (store.view clock key)).2

/-! ## Looking a key up -/

/-- `liveObjectLocked` found an object and touched it. -/
structure Found (store : Store) (key : Key) (clock : Clock) (obj : Obj) (after : Store) :
    Prop where
  wellFormed : after.WellFormed
  stored : after.peek key = some obj
  alive : obj.isExpired clock.now = false
  view : store.view clock key = some obj.entry
  frame : ∀ other, other ≠ key → after.peek other = store.peek other

/-- `liveObjectLocked` found nothing, and nothing is stored any more. -/
structure Missing (store : Store) (key : Key) (clock : Clock) (after : Store) : Prop where
  wellFormed : after.WellFormed
  stored : after.peek key = none
  view : store.view clock key = none
  frame : ∀ other, other ≠ key → after.peek other = store.peek other

theorem WellFormed.liveObjectLocked {store : Store} (wellFormed : store.WellFormed)
    (key : Key) (clock : Clock) :
    (∃ after, store.liveObjectLocked (getShardIndex key) key clock = (after, none) ∧
        Missing store key clock after) ∨
      ∃ after obj, store.liveObjectLocked (getShardIndex key) key clock = (after, some obj) ∧
        Found store key clock obj after := by
  cases stored : (store.shards (getShardIndex key)).data.lookup key with
  | none =>
      refine .inl ⟨store, by simp [Store.liveObjectLocked, stored], wellFormed, stored,
        view_of_missing clock stored, fun _ _ => rfl⟩
  | some obj =>
      cases dead : obj.isExpired clock.now with
      | true =>
          refine .inl ⟨store.remove (getShardIndex key) key,
            by simp [Store.liveObjectLocked, stored, dead], wellFormed.remove _ _, by simp,
            view_of_expired stored dead, ?_⟩
          intro other different
          simp [different]
      | false =>
          refine .inr ⟨(store.touch (getShardIndex key) key obj clock).1,
            { obj with lastAccess := clock.unixNano }, ?_, wellFormed.touch stored clock,
            by simp, dead, (view_of_peek stored dead : _ = some obj.entry), ?_⟩
          · simp [Store.liveObjectLocked, stored, dead, Store.touch]
          · intro other different
            simp [different]

/-- An object that is looked up without being touched. -/
theorem WellFormed.found {store : Store} (wellFormed : store.WellFormed) {key : Key}
    {clock : Clock} {obj : Obj} (stored : store.peek key = some obj)
    (alive : obj.isExpired clock.now = false) : Found store key clock obj store :=
  ⟨wellFormed, stored, alive, view_of_peek stored alive, fun _ _ => rfl⟩

theorem WellFormed.missing {store : Store} (wellFormed : store.WellFormed) {key : Key}
    (clock : Clock) (absent : store.peek key = none) : Missing store key clock store :=
  ⟨wellFormed, absent, view_of_missing clock absent, fun _ _ => rfl⟩

/-! ## Writing a key back -/

theorem Found.keep {store after : Store} {key : Key} {clock : Clock} {obj : Obj}
    (found : Found store key clock obj after) :
    KeyStep store key clock (some obj.entry) after :=
  ⟨found.wellFormed, found.frame, view_of_peek found.stored found.alive⟩

theorem Missing.keep {store after : Store} {key : Key} {clock : Clock}
    (missing : Missing store key clock after) : KeyStep store key clock none after :=
  ⟨missing.wellFormed, missing.frame, view_of_missing clock missing.stored⟩

theorem Found.remove {store after : Store} {key : Key} {clock : Clock} {obj : Obj}
    (found : Found store key clock obj after) :
    KeyStep store key clock none (after.remove (getShardIndex key) key) := by
  refine ⟨found.wellFormed.remove _ _, ?_, view_of_missing clock (by simp)⟩
  intro other different
  simp [different, found.frame other different]

/-- Writing back a list under the deadline it had. -/
theorem Found.putList {store after : Store} {key : Key} {clock : Clock} {obj : Obj}
    (found : Found store key clock obj after) (kind : obj.kind = .list) {list : ListValue}
    (wellFormed : list.WellFormed) (nonempty : list.toList ≠ []) :
    KeyStep store key clock (some ⟨.list list.toList, obj.expiresAt⟩)
      (after.put (getShardIndex key) key { obj with list } clock) := by
  refine ⟨?_, ?_, ?_⟩
  · have consistent : ({ obj with list } : Obj).WellFormed := ⟨wellFormed, fun _ => nonempty⟩
    have tracked := found.wellFormed.mem_volatile found.stored
    exact found.wellFormed.put consistent tracked clock
  · intro other different
    simp [different, found.frame other different]
  · have stored : (after.put (getShardIndex key) key { obj with list } clock).peek key =
        some { obj with list, lastAccess := clock.unixNano } := by simp
    rw [view_of_peek stored found.alive]
    simp [Obj.entry, kind]

theorem Found.putOrRemove {store after : Store} {key : Key} {clock : Clock} {obj : Obj}
    (found : Found store key clock obj after) (kind : obj.kind = .list) {list : ListValue}
    (wellFormed : list.WellFormed) :
    KeyStep store key clock (Cell.ofList list.toList obj.expiresAt)
      (after.putOrRemove (getShardIndex key) key { obj with list } clock) := by
  have size := list.toRingBuffer.length_toList
  by_cases empty : list.toList = []
  · have zero : list.size = 0 := by
      rw [← size, empty]
      rfl
    simpa [Store.putOrRemove, zero, Cell.ofList, empty] using found.remove
  · have positive : list.size ≠ 0 := by
      rw [← size]
      exact fun none => empty (List.length_eq_zero_iff.mp none)
    simpa [Store.putOrRemove, positive, Cell.ofList, empty] using
      found.putList kind wellFormed empty

/-- Creating a list under a key that holds nothing. -/
theorem Missing.putList {store after : Store} {key : Key} {clock : Clock}
    (missing : Missing store key clock after) {list : ListValue}
    (wellFormed : list.WellFormed) (nonempty : list.toList ≠ []) :
    KeyStep store key clock (some ⟨.list list.toList, 0⟩)
      (after.put (getShardIndex key) key { Obj.emptyList with list } clock) := by
  refine ⟨?_, ?_, ?_⟩
  · have consistent : ({ Obj.emptyList with list } : Obj).WellFormed :=
      ⟨wellFormed, fun _ => nonempty⟩
    apply missing.wellFormed.put consistent
    simpa [Obj.emptyList] using missing.wellFormed.notMem_volatile missing.stored
  · intro other different
    simp [different, missing.frame other different]
  · have stored : (after.put (getShardIndex key) key { Obj.emptyList with list } clock).peek key =
        some { Obj.emptyList with list, lastAccess := clock.unixNano } := by simp
    rw [view_of_peek stored (by simp [Obj.isExpired, Obj.emptyList]), Obj.entry_of_list rfl]
    rfl

end Store

end Carrot
