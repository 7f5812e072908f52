import Carrot.Storage.Call

/-!
# The deadlines that are stored

A property of deadlines holds of everything that is stored, expired or not, as
long as the calls set no deadline without it.  No order of the clock readings
is needed.
-/

namespace Carrot

/-- The deadlines that a call may set have a property.  A deadline that has
passed is not stored. -/
def StoreCall.Sets (clock : Clock) (property : Int → Prop) {Result : Type} :
    StoreCall Result → Prop
  | .set _ _ duration => duration > 0 → property (clock.now + duration)
  | .setAt _ _ expiresAt => clock.now < expiresAt → property expiresAt
  | .expire _ seconds =>
      let deadline :=
        if seconds > 0 then clock.now + int64 (seconds * Time.second) else clock.now
      clock.now < deadline → property deadline
  | .expireAt _ expiresAt => clock.now < expiresAt → property expiresAt
  | _ => True

namespace Store

/-- All stored deadlines have a property. -/
structure AllDeadlines (property : Int → Prop) (store : Store) : Prop where
  stored : ∀ {key obj}, store.peek key = some obj → property obj.expiresAt

namespace AllDeadlines

variable {property : Int → Prop} {store : Store} {clock : Clock}

theorem new : AllDeadlines property Store.new := ⟨nofun⟩

/-! ## Primitives -/

theorem put (all : AllDeadlines property store) (key : Key) (obj : Obj)
    (holds : property obj.expiresAt) :
    AllDeadlines property (store.put (getShardIndex key) key obj clock) := by
  refine ⟨fun {other found} stored => ?_⟩
  rw [peek_put] at stored
  split at stored
  next =>
    cases stored
    exact holds
  next => exact all.stored stored

theorem remove (all : AllDeadlines property store) (key : Key) :
    AllDeadlines property (store.remove (getShardIndex key) key) := by
  refine ⟨fun {other found} stored => ?_⟩
  rw [peek_remove] at stored
  split at stored
  next => cases stored
  next => exact all.stored stored

theorem volatileAdd (all : AllDeadlines property store) (shard : Fin numShards) (key : Key) :
    AllDeadlines property (store.volatileAdd shard key) :=
  ⟨fun stored => all.stored (by rwa [peek_volatileAdd] at stored)⟩

theorem volatileRemove (all : AllDeadlines property store) (shard : Fin numShards) (key : Key) :
    AllDeadlines property (store.volatileRemove shard key) :=
  ⟨fun stored => all.stored (by rwa [peek_volatileRemove] at stored)⟩

theorem putOrRemove (all : AllDeadlines property store) (key : Key) (obj : Obj)
    (holds : property obj.expiresAt) :
    AllDeadlines property (store.putOrRemove (getShardIndex key) key obj clock) := by
  unfold Store.putOrRemove
  split
  next => exact all.remove key
  next => exact all.put key obj holds

theorem liveObjectLocked (all : AllDeadlines property store) (key : Key) (clock : Clock) :
    AllDeadlines property (store.liveObjectLocked (getShardIndex key) key clock).1 ∧
      ∀ obj, (store.liveObjectLocked (getShardIndex key) key clock).2 = some obj →
        property obj.expiresAt := by
  unfold Store.liveObjectLocked
  split
  next => exact ⟨all, nofun⟩
  next obj stored =>
    have holds : property obj.expiresAt := all.stored stored
    split
    next => exact ⟨all.remove key, nofun⟩
    next =>
      refine ⟨⟨fun {other found} touched => ?_⟩, ?_⟩
      · rw [peek_touch] at touched
        split at touched
        next =>
          cases touched
          exact holds
        next => exact all.stored touched
      · rintro _ ⟨⟩
        exact holds

/-! ## Strings and deadlines -/

theorem set (all : AllDeadlines property store) (persistent : property 0) (key : Key)
    (value : Bytes) {duration : Int} (sets : duration > 0 → property (clock.now + duration)) :
    AllDeadlines property (store.set key value duration clock) := by
  generalize deadline : (if duration > 0 then clock.now + duration else 0) = expiresAt
  have holds : property expiresAt := by
    rw [← deadline]
    split
    next positive => exact sets positive
    next => exact persistent
  simp only [Store.set, deadline]
  split
  next => exact (all.put key (.ofString value expiresAt) holds).volatileRemove _ key
  next => exact (all.put key (.ofString value expiresAt) holds).volatileAdd _ key

theorem setAt (all : AllDeadlines property store) (key : Key) (value : Bytes) {expiresAt : Int}
    (sets : clock.now < expiresAt → property expiresAt) :
    AllDeadlines property (store.setAt key value expiresAt clock) := by
  unfold Store.setAt
  split
  next => exact all.remove key
  next future =>
    exact (all.put key (.ofString value expiresAt) (sets (not_not.mp future))).volatileAdd _ key

theorem ttl (all : AllDeadlines property store) (key : Key) (clock : Clock) :
    AllDeadlines property (store.ttl key clock).1 := by
  unfold Store.ttl
  dsimp only
  split
  next => exact all
  next =>
    split_ifs
    · exact all.remove key
    · exact all
    · exact all.remove key
    · exact all

theorem del (all : AllDeadlines property store) (key : Key) (clock : Clock) :
    AllDeadlines property (store.del key clock).1 := by
  unfold Store.del
  dsimp only
  split
  next => exact all
  next => split <;> exact all.remove key

theorem expireAt (all : AllDeadlines property store) (key : Key) {expiresAt : Int}
    (sets : clock.now < expiresAt → property expiresAt) :
    AllDeadlines property (store.expireAt key expiresAt clock).1 := by
  unfold Store.expireAt
  dsimp only
  split
  next => exact all
  next obj stored =>
    split_ifs with dead future
    · exact all.remove key
    · exact (all.put key { obj with expiresAt } (sets future)).volatileAdd _ key
    · exact all.remove key

theorem getString (all : AllDeadlines property store) (key : Key) (clock : Clock) :
    AllDeadlines property (store.getString key clock).1 := by
  have looked := (all.liveObjectLocked key clock).1
  unfold Store.getString
  split
  next found =>
    rw [found] at looked
    exact looked
  next found =>
    rw [found] at looked
    split <;> exact looked

/-! ## Lists -/

theorem withLiveList {Result : Type} (all : AllDeadlines property store) {key : Key}
    {missing : Except StorageError Result}
    {body : Store → Obj → Store × Except StorageError Result}
    (preserved : ∀ after obj, AllDeadlines property after → property obj.expiresAt →
      AllDeadlines property (body after obj).1) :
    AllDeadlines property (store.withLiveList key clock missing body).1 := by
  obtain ⟨looked, holds⟩ := all.liveObjectLocked key clock
  unfold Store.withLiveList
  split
  next found =>
    rw [found] at looked
    exact looked
  next after obj found =>
    rw [found] at looked holds
    split
    next => exact looked
    next => exact preserved after obj looked (holds obj rfl)

theorem listPush (all : AllDeadlines property store) (persistent : property 0) (key : Key)
    (values : List Bytes) (left onlyExisting : Bool) :
    AllDeadlines property (store.listPush key values left onlyExisting clock).1 := by
  obtain ⟨looked, holds⟩ := all.liveObjectLocked key clock
  simp only [Store.listPush]
  split_ifs
  · exact looked
  · exact looked
  · refine looked.put key _ ?_
    cases found : (store.liveObjectLocked (getShardIndex key) key clock).2 with
    | none => exact persistent
    | some obj => exact holds obj found

theorem listMove (all : AllDeadlines property store) (persistent : property 0) (src dst : Key)
    (fromLeft toLeft : Bool) :
    AllDeadlines property (store.listMove src dst fromLeft toLeft clock).1 := by
  obtain ⟨looked, holds⟩ := all.liveObjectLocked src clock
  unfold Store.listMove Store.listMoveLocked
  split
  next found =>
    rw [found] at looked
    exact looked
  next after source found =>
    rw [found] at looked holds
    have kept : property source.expiresAt := holds source rfl
    obtain ⟨ready, target⟩ := looked.liveObjectLocked dst clock
    dsimp only
    split_ifs
    · exact looked
    · exact looked.put src _ kept
    · exact ready
    · refine (ready.putOrRemove src { source with list := (source.list.pop fromLeft).1 } kept).put
        dst _ ?_
      cases present : (after.liveObjectLocked (getShardIndex dst) dst clock).2 with
      | none => exact persistent
      | some destination => exact target destination present

/-! ## Every call -/

theorem perform (all : AllDeadlines property store) (persistent : property 0) {Result : Type}
    {call : StoreCall Result} (sets : call.Sets clock property) :
    AllDeadlines property (store.perform clock call).1 := by
  cases call with
  | set key value duration => exact all.set persistent key value sets
  | setAt key value expiresAt => exact all.setAt key value sets
  | getString key => exact all.getString key clock
  | ttl key => exact all.ttl key clock
  | del key => exact all.del key clock
  | expire key seconds => exact all.expireAt key sets
  | expireAt key expiresAt => exact all.expireAt key sets
  | listPush key values nonempty left onlyExisting =>
      exact all.listPush persistent key values left onlyExisting
  | listMove src dst fromLeft toLeft => exact all.listMove persistent src dst fromLeft toLeft
  | listLen key => exact all.withLiveList fun _ _ looked _ => looked
  | listPop key left count nonnegative =>
      exact all.withLiveList fun _ _ looked holds => looked.putOrRemove key _ holds
  | listRem key count value =>
      exact all.withLiveList fun _ _ looked holds => looked.putOrRemove key _ holds
  | listRange key start stop =>
      refine all.withLiveList fun _ _ looked _ => ?_
      split <;> exact looked
  | listIndex key position =>
      refine all.withLiveList fun _ _ looked _ => ?_
      split <;> exact looked
  | listSet key position value =>
      refine all.withLiveList fun _ _ looked holds => ?_
      split
      · exact looked
      · exact looked.put key _ holds
  | listTrim key start stop =>
      refine all.withLiveList fun _ _ looked holds => ?_
      split
      · exact looked.remove key
      · exact looked.put key _ holds
  | listInsert key pivot value before =>
      refine all.withLiveList fun _ _ looked holds => ?_
      split
      · exact looked
      · exact looked.put key _ holds
  | listPosition key value rank count maxLen =>
      simp only [Store.perform, Store.listPosition]
      split
      · exact all
      · refine all.withLiveList fun _ _ looked _ => ?_
        split <;> exact looked

end AllDeadlines

end Store

end Carrot
