import Carrot.Library.Program
import Carrot.Storage.Refinement

/-!
# The store as an interface

The operations that command handlers use, as data, and their meaning on stores
and on keyspaces.  A store represents a keyspace when both show the same live
entries; every operation keeps them in step and returns the same result.
-/

namespace Carrot

/-- A call of a store operation.  Callers of `ListPush` pass at least one
value and callers of `ListPop` a count that is not negative. -/
inductive StoreCall : Type → Type where
  | set (key : Key) (value : Bytes) (duration : Int) : StoreCall Unit
  | setAt (key : Key) (value : Bytes) (expiresAt : Int) : StoreCall Unit
  | getString (key : Key) : StoreCall (Except StorageError (Option Bytes))
  | ttl (key : Key) : StoreCall Int
  | del (key : Key) : StoreCall Bool
  | expire (key : Key) (seconds : Int) : StoreCall Bool
  | expireAt (key : Key) (expiresAt : Int) : StoreCall Bool
  | listPush (key : Key) (values : List Bytes) (nonempty : values ≠ [])
      (left onlyExisting : Bool) : StoreCall (Except StorageError Int)
  | listPop (key : Key) (left : Bool) (count : Int) (nonnegative : 0 ≤ count) :
      StoreCall (Except StorageError (List Bytes))
  | listLen (key : Key) : StoreCall (Except StorageError Int)
  | listRange (key : Key) (start stop : Int) : StoreCall (Except StorageError (List Bytes))
  | listIndex (key : Key) (position : Int) : StoreCall (Except StorageError (Option Bytes))
  | listSet (key : Key) (position : Int) (value : Bytes) : StoreCall (Except StorageError Unit)
  | listTrim (key : Key) (start stop : Int) : StoreCall (Except StorageError Unit)
  | listRem (key : Key) (count : Int) (value : Bytes) : StoreCall (Except StorageError Int)
  | listInsert (key : Key) (pivot value : Bytes) (before : Bool) :
      StoreCall (Except StorageError Int)
  | listPosition (key : Key) (value : Bytes) (rank count maxLen : Int) :
      StoreCall (Except StorageError (List Int))
  | listMove (src dst : Key) (fromLeft toLeft : Bool) :
      StoreCall (Except StorageError (Option Bytes))

/-- Perform a call on a store. -/
def Store.perform (clock : Clock) {Result : Type} (store : Store) :
    StoreCall Result → Store × Result
  | .set key value duration => (store.set key value duration clock, ())
  | .setAt key value expiresAt => (store.setAt key value expiresAt clock, ())
  | .getString key => store.getString key clock
  | .ttl key => store.ttl key clock
  | .del key => store.del key clock
  | .expire key seconds => store.expire key seconds clock
  | .expireAt key expiresAt => store.expireAt key expiresAt clock
  | .listPush key values _ left onlyExisting => store.listPush key values left onlyExisting clock
  | .listPop key left count _ => store.listPop key left count clock
  | .listLen key => store.listLen key clock
  | .listRange key start stop => store.listRange key start stop clock
  | .listIndex key position => store.listIndex key position clock
  | .listSet key position value => store.listSet key position value clock
  | .listTrim key start stop => store.listTrim key start stop clock
  | .listRem key count value => store.listRem key count value clock
  | .listInsert key pivot value before => store.listInsert key pivot value before clock
  | .listPosition key value rank count maxLen =>
      store.listPosition key value rank count maxLen clock
  | .listMove src dst fromLeft toLeft => store.listMove src dst fromLeft toLeft clock

/-- What a call means to the clients of a database. -/
def Keyspace.perform (clock : Clock) {Result : Type} (keyspace : Keyspace) :
    StoreCall Result → Keyspace × Result
  | .set key value duration =>
      keyspace.onKey key clock fun _ =>
        (some ⟨.string value, if duration > 0 then clock.now + duration else 0⟩, ())
  | .setAt key value expiresAt =>
      keyspace.onKey key clock fun _ => (Cell.setAt value expiresAt clock.now, ())
  | .getString key => keyspace.onKey key clock fun cell => (cell, cell.getString)
  | .ttl key => keyspace.onKey key clock fun cell => (cell, cell.ttl clock.now)
  | .del key => keyspace.onKey key clock fun cell => (none, cell.isSome)
  | .expire key seconds =>
      keyspace.onKey key clock (Cell.expireAt
        (if seconds > 0 then clock.now + int64 (seconds * Time.second) else clock.now) clock.now)
  | .expireAt key expiresAt => keyspace.onKey key clock (Cell.expireAt expiresAt clock.now)
  | .listPush key values _ left onlyExisting =>
      keyspace.onKey key clock (Cell.listPush values left onlyExisting)
  | .listPop key left count _ => keyspace.onKey key clock (Cell.listPop left count)
  | .listLen key => keyspace.onKey key clock Cell.listLen
  | .listRange key start stop => keyspace.onKey key clock (Cell.listRange start stop)
  | .listIndex key position => keyspace.onKey key clock (Cell.listIndex position)
  | .listSet key position value => keyspace.onKey key clock (Cell.listSet position value)
  | .listTrim key start stop => keyspace.onKey key clock (Cell.listTrim start stop)
  | .listRem key count value => keyspace.onKey key clock (Cell.listRem count value)
  | .listInsert key pivot value before =>
      keyspace.onKey key clock (Cell.listInsert pivot value before)
  | .listPosition key value rank count maxLen =>
      keyspace.onKey key clock (Cell.listPosition value rank count maxLen)
  | .listMove src dst fromLeft toLeft => keyspace.listMove src dst fromLeft toLeft clock

/-- A consistent store with the live entries of a keyspace. -/
structure Represents (clock : Clock) (store : Store) (keyspace : Keyspace) : Prop where
  wellFormed : store.WellFormed
  view : store.view clock = keyspace.live clock

namespace Represents

theorem new (clock : Clock) : Represents clock Store.new fun _ => none :=
  ⟨Store.new_wellFormed, rfl⟩

/-- Entries that expire disappear from both sides. -/
theorem later {first second : Clock} {store : Store} {keyspace : Keyspace}
    (represents : Represents first store keyspace) (ordered : first ≤ second) :
    Represents second store keyspace := by
  refine ⟨represents.wellFormed, ?_⟩
  rw [store.view_later ordered, represents.view, Keyspace.live_live _ ordered]

theorem onKey {Result : Type} {clock : Clock} {store : Store} {keyspace : Keyspace}
    (represents : Represents clock store keyspace) {key : Key} {change : Cell → Cell × Result}
    {outcome : Store × Result} (performs : Store.Performs store key clock change outcome) :
    Represents clock outcome.1 (keyspace.onKey key clock change).1 ∧
      outcome.2 = (keyspace.onKey key clock change).2 := by
  obtain ⟨step, result⟩ := performs
  have cell : store.view clock key = keyspace.live clock key := congrFun represents.view key
  rw [cell] at step result
  refine ⟨⟨step.wellFormed, ?_⟩, result⟩
  have settled : Cell.live (change (keyspace.live clock key)).1 clock.now =
      (change (keyspace.live clock key)).1 := by
    rw [← step.view]
    exact Cell.live_self _ _
  rw [step.view_eq, represents.view]
  funext other
  by_cases same : other = key
  · subst other
    simp only [Function.update_self, Keyspace.onKey, Keyspace.live] at settled ⊢
    exact settled.symm
  · simp only [Function.update_of_ne same, Keyspace.onKey, Keyspace.live]

theorem listMove {clock : Clock} {store : Store} {keyspace : Keyspace}
    (represents : Represents clock store keyspace) (src dst : Key) (fromLeft toLeft : Bool) :
    Represents clock (store.listMove src dst fromLeft toLeft clock).1
        (keyspace.listMove src dst fromLeft toLeft clock).1 ∧
      (store.listMove src dst fromLeft toLeft clock).2 =
        (keyspace.listMove src dst fromLeft toLeft clock).2 := by
  have refines := represents.wellFormed.listMove src dst fromLeft toLeft clock
  obtain ⟨sameView, sameResult⟩ := keyspace.listMove_live src dst fromLeft toLeft clock
  rw [represents.view] at refines
  refine ⟨⟨refines.wellFormed, ?_⟩, refines.result.trans sameResult⟩
  rw [← sameView, ← refines.view]
  exact (Keyspace.live_self _ clock).symm

/-- Every call keeps a store and the keyspace it represents in step. -/
theorem perform {clock : Clock} {store : Store} {keyspace : Keyspace}
    (represents : Represents clock store keyspace) {Result : Type} (call : StoreCall Result) :
    Represents clock (store.perform clock call).1 (keyspace.perform clock call).1 ∧
      (store.perform clock call).2 = (keyspace.perform clock call).2 := by
  have wellFormed := represents.wellFormed
  cases call with
  | set key value duration =>
      have performs : Store.Performs store key clock (fun _ => (some ⟨.string value,
          if duration > 0 then clock.now + duration else 0⟩, ()))
          (store.set key value duration clock, ()) :=
        ⟨wellFormed.set key value duration clock, rfl⟩
      exact represents.onKey performs
  | setAt key value expiresAt =>
      have performs : Store.Performs store key clock
          (fun _ => (Cell.setAt value expiresAt clock.now, ()))
          (store.setAt key value expiresAt clock, ()) :=
        ⟨wellFormed.setAt key value expiresAt clock, rfl⟩
      exact represents.onKey performs
  | getString key => exact represents.onKey (wellFormed.getString key clock)
  | ttl key => exact represents.onKey (wellFormed.ttl key clock)
  | del key => exact represents.onKey (wellFormed.del key clock)
  | expire key seconds => exact represents.onKey (wellFormed.expireAt key _ clock)
  | expireAt key expiresAt => exact represents.onKey (wellFormed.expireAt key expiresAt clock)
  | listPush key values nonempty left onlyExisting =>
      exact represents.onKey (wellFormed.listPush key nonempty left onlyExisting clock)
  | listPop key left count nonnegative =>
      exact represents.onKey (wellFormed.listPop key left nonnegative clock)
  | listLen key => exact represents.onKey (wellFormed.listLen key clock)
  | listRange key start stop => exact represents.onKey (wellFormed.listRange key start stop clock)
  | listIndex key position => exact represents.onKey (wellFormed.listIndex key position clock)
  | listSet key position value =>
      exact represents.onKey (wellFormed.listSet key position value clock)
  | listTrim key start stop => exact represents.onKey (wellFormed.listTrim key start stop clock)
  | listRem key count value => exact represents.onKey (wellFormed.listRem key count value clock)
  | listInsert key pivot value before =>
      exact represents.onKey (wellFormed.listInsert key pivot value before clock)
  | listPosition key value rank count maxLen =>
      exact represents.onKey (wellFormed.listPosition key value rank count maxLen clock)
  | listMove src dst fromLeft toLeft => exact represents.listMove src dst fromLeft toLeft

end Represents

/-- A consistent store represents its own view. -/
theorem Store.WellFormed.represents {store : Store} (wellFormed : store.WellFormed)
    (clock : Clock) : Represents clock store (store.view clock) :=
  ⟨wellFormed, (Keyspace.live_self _ clock).symm⟩

end Carrot
