import Carrot.Command.Tracks
import Carrot.Storage.Operations
import Carrot.Storage.Snapshot

/-!
# Expired keys are invisible

Two stores with the same live entries answer every command alike, whatever
expired entries either of them still holds.  So it does not show whether, and
when, an expired key was deleted.
-/

namespace Carrot

namespace Store

/-- The keys that are stored, expired or not. -/
def keys (store : Store) : List Key :=
  (List.finRange numShards).flatMap fun shard => (store.shards shard).data.keys

/-- The store without the keys that are expired at a reading of the clock. -/
def withoutExpired (store : Store) (clock : Clock) : Store :=
  (store.deleteExpired store.keys clock).1

theorem mem_keys_of_peek {store : Store} {key : Key} {obj : Obj}
    (stored : store.peek key = some obj) : key ∈ store.keys :=
  List.mem_flatMap.mpr ⟨getShardIndex key, List.mem_finRange _,
    AList.lookup_isSome.mp (Option.isSome_iff_exists.mpr ⟨obj, stored⟩)⟩

/-- What is left are the objects that are not expired. -/
theorem WellFormed.peek_withoutExpired {store : Store} (wellFormed : store.WellFormed)
    (clock : Clock) (key : Key) :
    (store.withoutExpired clock).peek key =
      (store.peek key).filter fun obj => !obj.isExpired clock.now := by
  have expires := wellFormed.deleteExpired store.keys clock
  cases stored : store.peek key with
  | none =>
      rcases expires.dropped key with same | ⟨absent, _⟩
      · exact same.trans stored
      · exact absent
  | some obj =>
      cases dead : obj.isExpired clock.now with
      | true =>
          have gone : (store.withoutExpired clock).peek key = none :=
            deleteExpired_removes (mem_keys_of_peek stored)
              (holdsExpired_iff.mpr ⟨obj, stored, dead⟩)
          rw [gone, Option.filter_some, dead]
          rfl
      | false =>
          rcases expires.dropped key with same | ⟨_, other, held, expired⟩
          · rw [Option.filter_some, dead]
            exact same.trans stored
          · rw [stored, Option.some.injEq] at held
            subst other
            rw [dead] at expired
            cases expired

/-! ## Snapshots -/

theorem WellFormed.mem_snapshotEntries {store : Store} (wellFormed : store.WellFormed)
    (clock : Clock) {arrange : List Key → List Key} (arranged : ∀ keys, (arrange keys).Perm keys)
    {copy : SnapshotEntry} :
    copy ∈ store.snapshotEntries clock arrange ↔
      snapshotEntry (store.shards (getShardIndex copy.key)) clock.now copy.key = some copy := by
  constructor
  · intro membership
    obtain ⟨shard, -, inShard⟩ := List.mem_flatMap.mp membership
    obtain ⟨key, listed, copied⟩ := List.mem_filterMap.mp inShard
    obtain ⟨rfl, -⟩ := snapshotEntry_eq_some copied
    rwa [(wellFormed.shards shard).home_eq copy.key ((arranged _).mem_iff.mp listed)]
  · intro copied
    obtain ⟨-, obj, stored, -⟩ := snapshotEntry_eq_some copied
    refine List.mem_flatMap.mpr ⟨getShardIndex copy.key, List.mem_finRange _,
      List.mem_filterMap.mpr ⟨copy.key, (arranged _).mem_iff.mpr ?_, copied⟩⟩
    exact AList.lookup_isSome.mp (Option.isSome_iff_exists.mpr ⟨obj, stored⟩)

/-- Of a key that is not expired the same copy is taken. -/
theorem WellFormed.snapshotEntry_withoutExpired {store : Store} (wellFormed : store.WellFormed)
    {clock later : Clock} (ordered : clock ≤ later) (key : Key) :
    snapshotEntry ((store.withoutExpired clock).shards (getShardIndex key)) later.now key =
      snapshotEntry (store.shards (getShardIndex key)) later.now key := by
  have remains := wellFormed.peek_withoutExpired clock key
  change ((store.withoutExpired clock).shards (getShardIndex key)).data.lookup key =
    ((store.shards (getShardIndex key)).data.lookup key).filter _ at remains
  rw [snapshotEntry, snapshotEntry, remains]
  cases (store.shards (getShardIndex key)).data.lookup key with
  | none => rfl
  | some obj =>
      cases dead : obj.isExpired clock.now with
      | false =>
          rw [Option.filter_some, dead]
          rfl
      | true =>
          have stillDead : obj.entry.expired later.now = true :=
            Entry.expired_of_le (Clock.now_le_now ordered) dead
          rw [Option.filter_some, dead]
          exact (if_pos stillDead).symm

theorem WellFormed.snapshot_withoutExpired {store : Store} (wellFormed : store.WellFormed)
    {clock later : Clock} (ordered : clock ≤ later) {arrange arrange' : List Key → List Key}
    (arranged : ∀ keys, (arrange keys).Perm keys) (arranged' : ∀ keys, (arrange' keys).Perm keys) :
    (store.snapshotEntries later arrange).Perm
      ((store.withoutExpired clock).snapshotEntries later arrange') := by
  have purged := (wellFormed.deleteExpired store.keys clock).wellFormed
  refine (List.perm_ext_iff_of_nodup (wellFormed.snapshot_nodup later arranged).of_map
    (WellFormed.snapshot_nodup purged later arranged').of_map).mpr fun copy => ?_
  rw [wellFormed.mem_snapshotEntries later arranged,
    WellFormed.mem_snapshotEntries purged later arranged']
  exact (congrArg (· = some copy)
    (wellFormed.snapshotEntry_withoutExpired ordered copy.key)).to_iff.symm

end Store

/-! ## Replies -/

/-- What happens to a store: a command runs, or active expiry deletes those of
its candidates that are expired. -/
inductive StoreEvent where
  | command (command : Command)
  | expiry (candidates : List Key)

def StoreEvent.isCommand : StoreEvent → Bool
  | .command _ => true
  | .expiry _ => false

variable [GoTables]

/-- The replies to the commands among events at readings of the clock. -/
def Store.replies (store : Store) : List (Clock × StoreEvent) → List Value
  | [] => []
  | (clock, .command command) :: events =>
      (store.execute clock command).2 :: (store.execute clock command).1.replies events
  | (clock, .expiry candidates) :: events =>
      (store.deleteExpired candidates clock).1.replies events

namespace Store

/-- The passes of active expiry do not show in any reply. -/
theorem WellFormed.replies_eq {first second : Store} (wellFormed : first.WellFormed)
    (otherWellFormed : second.WellFormed) {clock : Clock}
    (same : first.view clock = second.view clock) {events : List (Clock × StoreEvent)}
    (ordered : (clock :: events.map Prod.fst).Pairwise (· ≤ ·)) :
    first.replies events = second.replies (events.filter fun event => event.2.isCommand) := by
  induction events generalizing first second clock with
  | nil => rfl
  | cons event events inductionHypothesis =>
      rcases event with ⟨time, command | candidates⟩
      · obtain ⟨first_le, rest⟩ := List.pairwise_cons.mp ordered
        have soon : clock ≤ time := first_le time List.mem_cons_self
        obtain ⟨reply, views⟩ := wellFormed.execute_congr otherWellFormed
          (view_mono same soon) command
        have next := inductionHypothesis (wellFormed.execute time command).wellFormed
          (otherWellFormed.execute time command).wellFormed (views time (le_refl time)) rest
        simp only [List.filter_cons, StoreEvent.isCommand, if_true, replies, reply, next]
      · obtain ⟨first_le, rest⟩ := List.pairwise_cons.mp ordered
        have soon : clock ≤ time := first_le time List.mem_cons_self
        have expires := wellFormed.deleteExpired candidates time
        simp only [List.filter_cons, StoreEvent.isCommand, Bool.false_eq_true, if_false, replies]
        exact inductionHypothesis expires.wellFormed otherWellFormed
          ((expires.view_eq (le_refl time)).trans (view_mono same soon)) rest

/-- Whether the expired keys of a store have been deleted shows neither in
replies nor in later views and snapshots. -/
theorem expired_invisible (history : List (Operation × Clock)) (clock : Clock) :
    (∀ key, ((run history).withoutExpired clock).peek key =
        ((run history).peek key).filter fun obj => !obj.isExpired clock.now) ∧
      (∀ command,
        ((run history).execute clock command).2 =
            (((run history).withoutExpired clock).execute clock command).2 ∧
          ∀ later, clock ≤ later →
            ((run history).execute clock command).1.view later =
              (((run history).withoutExpired clock).execute clock command).1.view later) ∧
      (∀ later, clock ≤ later → ∀ arrange arrange' : List Key → List Key,
        (∀ keys, (arrange keys).Perm keys) → (∀ keys, (arrange' keys).Perm keys) →
          ((run history).snapshotEntries later arrange).Perm
            (((run history).withoutExpired clock).snapshotEntries later arrange')) ∧
      ∀ events : List (Clock × StoreEvent), (clock :: events.map Prod.fst).Pairwise (· ≤ ·) →
        (run history).replies events =
          ((run history).withoutExpired clock).replies
            (events.filter fun event => event.2.isCommand) := by
  have wellFormed : (run history).WellFormed := foldl_wellFormed history new_wellFormed
  have expires := wellFormed.deleteExpired (run history).keys clock
  have same : (run history).view clock = ((run history).withoutExpired clock).view clock :=
    (expires.view_eq (le_refl clock)).symm
  refine ⟨wellFormed.peek_withoutExpired clock, ?_, ?_, ?_⟩
  · exact wellFormed.execute_congr expires.wellFormed same
  · intro later ordered arrange arrange' arranged arranged'
    exact wellFormed.snapshot_withoutExpired ordered arranged arranged'
  · intro events ordered
    exact wellFormed.replies_eq expires.wellFormed same ordered

end Store

end Carrot
