import Carrot.Storage.Call

/-!
# What a call touches

A call changes nothing but the keys that it names, whether or not a client can
see the change.
-/

namespace Carrot

namespace StoreCall

/-- The keys that a call names. -/
def keys {Result : Type} : StoreCall Result → List Key
  | .set key _ _ | .setAt key _ _ | .getString key | .ttl key | .del key | .expire key _
  | .expireAt key _ | .listPush key _ _ _ _ | .listPop key _ _ _ | .listLen key
  | .listRange key _ _ | .listIndex key _ | .listSet key _ _ | .listTrim key _ _
  | .listRem key _ _ | .listInsert key _ _ _ | .listPosition key _ _ _ _ => [key]
  | .listMove src dst _ _ => [src, dst]

/-- The values that a call may store. -/
def values {Result : Type} : StoreCall Result → List Bytes
  | .set _ value _ | .setAt _ value _ | .listSet _ _ value | .listInsert _ _ value _ => [value]
  | .listPush _ values _ _ _ => values
  | _ => []

end StoreCall

namespace Store

theorem Performs.frame {Result : Type} {store : Store} {key : Key} {clock : Clock}
    {change : Cell → Cell × Result} {outcome : Store × Result}
    (performs : Performs store key clock change outcome) {other : Key} (elsewhere : other ∉ [key]) :
    outcome.1.peek other = store.peek other :=
  performs.1.frame other fun same => elsewhere (List.mem_singleton.mpr same)

section

variable {store after : Store} {key other : Key} (clock : Clock)

theorem peek_liveObjectLocked (store : Store) (different : other ≠ key) :
    (store.liveObjectLocked (getShardIndex key) key clock).1.peek other = store.peek other := by
  unfold liveObjectLocked
  split
  next => rfl
  next =>
    split
    next => simp [different]
    next => simp [different]

theorem peek_putOrRemove (store : Store) (obj : Obj) (different : other ≠ key) :
    (store.putOrRemove (getShardIndex key) key obj clock).peek other = store.peek other := by
  unfold putOrRemove
  split <;> simp [different]

/-- A move touches its source and its destination. -/
theorem peek_listMove (store : Store) {src dst : Key} (notSrc : other ≠ src) (notDst : other ≠ dst)
    (fromLeft toLeft : Bool) :
    (store.listMove src dst fromLeft toLeft clock).1.peek other = store.peek other := by
  have looked := peek_liveObjectLocked clock store notSrc
  unfold listMove listMoveLocked
  split
  next found =>
    rw [found] at looked
    exact looked
  next between source found =>
    rw [found] at looked
    split
    next => exact looked
    next =>
      split
      next => simpa [notSrc] using looked
      next =>
        have target := peek_liveObjectLocked clock between notDst
        dsimp only
        split
        next => exact target.trans looked
        next =>
          rw [peek_put, if_neg notDst, peek_putOrRemove clock _ _ notSrc, target, looked]

end

/-- A call leaves all other keys alone. -/
theorem WellFormed.perform_frame {store : Store} (wellFormed : store.WellFormed) (clock : Clock)
    {Result : Type} (call : StoreCall Result) {other : Key} (elsewhere : other ∉ call.keys) :
    (store.perform clock call).1.peek other = store.peek other := by
  cases call with
  | set key value duration =>
      exact (wellFormed.set key value duration clock).frame other
        fun same => elsewhere (List.mem_singleton.mpr same)
  | setAt key value expiresAt =>
      exact (wellFormed.setAt key value expiresAt clock).frame other
        fun same => elsewhere (List.mem_singleton.mpr same)
  | getString key => exact (wellFormed.getString key clock).frame elsewhere
  | ttl key => exact (wellFormed.ttl key clock).frame elsewhere
  | del key => exact (wellFormed.del key clock).frame elsewhere
  | expire key seconds => exact (wellFormed.expireAt key _ clock).frame elsewhere
  | expireAt key expiresAt => exact (wellFormed.expireAt key expiresAt clock).frame elsewhere
  | listPush key values nonempty left onlyExisting =>
      exact (wellFormed.listPush key nonempty left onlyExisting clock).frame elsewhere
  | listPop key left count nonnegative =>
      exact (wellFormed.listPop key left nonnegative clock).frame elsewhere
  | listLen key => exact (wellFormed.listLen key clock).frame elsewhere
  | listRange key start stop => exact (wellFormed.listRange key start stop clock).frame elsewhere
  | listIndex key position => exact (wellFormed.listIndex key position clock).frame elsewhere
  | listSet key position value =>
      exact (wellFormed.listSet key position value clock).frame elsewhere
  | listTrim key start stop => exact (wellFormed.listTrim key start stop clock).frame elsewhere
  | listRem key count value => exact (wellFormed.listRem key count value clock).frame elsewhere
  | listInsert key pivot value before =>
      exact (wellFormed.listInsert key pivot value before clock).frame elsewhere
  | listPosition key value rank count maxLen =>
      exact (wellFormed.listPosition key value rank count maxLen clock).frame elsewhere
  | listMove src dst fromLeft toLeft =>
      rw [StoreCall.keys, List.mem_cons, List.mem_singleton, not_or] at elsewhere
      exact peek_listMove clock store elsewhere.1 elsewhere.2 fromLeft toLeft

end Store

end Carrot
