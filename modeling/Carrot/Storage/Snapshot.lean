import Carrot.Storage.View

/-!
# Copies of the live entries

A snapshot copies every key that is alive at one reading of the clock.  It
holds exactly the view of the store, each key once.
-/

namespace Carrot

/-- A copy of one live key. -/
structure SnapshotEntry where
  key : Key
  value : Bytes
  expiresAt : Int
  kind : ValueKind
  list : List Bytes
  deriving DecidableEq

/-- What the copy stands for. -/
def SnapshotEntry.entry (copy : SnapshotEntry) : Entry where
  content :=
    match copy.kind with
    | .string => .string copy.value
    | .list => .list copy.list
  deadline := copy.expiresAt

namespace Store

/-- The copy of a stored key, unless it is expired. -/
def snapshotEntry (sh : Shard) (now : Int) (key : Key) : Option SnapshotEntry :=
  match sh.data.lookup key with
  | none => none
  | some obj =>
      if obj.isExpired now then none
      else
        some
          { key, value := obj.value, expiresAt := obj.expiresAt, kind := obj.kind
            list := if obj.kind = .list then obj.list.rangeCopy 0 obj.list.size else [] }

/-- The copies of all live keys, shard after shard.  Go visits the keys of a
shard in any order; `arrange` is the order it takes. -/
def snapshotEntries (store : Store) (clock : Clock) (arrange : List Key → List Key) :
    List SnapshotEntry :=
  (List.finRange numShards).flatMap fun shard =>
    (arrange (store.shards shard).data.keys).filterMap
      (snapshotEntry (store.shards shard) clock.now)

/-- The copy is of an object that is stored and alive. -/
theorem snapshotEntry_eq_some {sh : Shard} {now : Int} {key : Key} {copy : SnapshotEntry} :
    snapshotEntry sh now key = some copy →
      copy.key = key ∧ ∃ obj, sh.data.lookup key = some obj ∧ obj.isExpired now = false ∧
        copy.entry = obj.entry := by
  intro copied
  unfold snapshotEntry at copied
  split at copied
  next => cases copied
  next obj stored =>
    split at copied
    next => cases copied
    next alive =>
      cases copied
      refine ⟨rfl, obj, stored, by simpa using alive, ?_⟩
      have whole : obj.list.rangeCopy 0 obj.list.size = obj.list.toList := by
        rw [RingBuffer.rangeCopy_eq _ (Nat.le_refl _), List.drop_zero, Nat.sub_zero,
          ← RingBuffer.length_toList, List.take_length]
      rcases obj.kind_cases with kind | kind
      · simp [SnapshotEntry.entry, Obj.entry, kind]
      · simp [SnapshotEntry.entry, Obj.entry, kind, whole]

theorem snapshotEntry_of_alive {sh : Shard} {now : Int} {key : Key} {obj : Obj}
    (stored : sh.data.lookup key = some obj) (alive : obj.isExpired now = false) :
    ∃ copy, snapshotEntry sh now key = some copy := by
  simp [snapshotEntry, stored, alive]

section

variable {store : Store} {clock : Clock} {arrange : List Key → List Key}

/-- A copy shows what a client sees. -/
theorem WellFormed.view_of_snapshot (wellFormed : store.WellFormed)
    (arranged : ∀ keys, (arrange keys).Perm keys) {copy : SnapshotEntry}
    (membership : copy ∈ store.snapshotEntries clock arrange) :
    store.view clock copy.key = some copy.entry := by
  obtain ⟨shard, -, inShard⟩ := List.mem_flatMap.mp membership
  obtain ⟨key, listed, copied⟩ := List.mem_filterMap.mp inShard
  obtain ⟨rfl, obj, stored, alive, same⟩ := snapshotEntry_eq_some copied
  have home : getShardIndex copy.key = shard :=
    (wellFormed.shards shard).home_eq copy.key ((arranged _).mem_iff.mp listed)
  subst shard
  rw [view_of_peek stored alive, same]

/-- Everything a client sees is copied. -/
theorem snapshot_of_view (arranged : ∀ keys, (arrange keys).Perm keys) {key : Key} {entry : Entry}
    (shown : store.view clock key = some entry) :
    ∃ copy ∈ store.snapshotEntries clock arrange, copy.key = key := by
  obtain ⟨found, alive⟩ := Cell.live_eq_some.mp shown
  obtain ⟨obj, stored, rfl⟩ := Option.map_eq_some_iff.mp found
  obtain ⟨copy, copied⟩ := snapshotEntry_of_alive stored alive
  refine ⟨copy, List.mem_flatMap.mpr ⟨getShardIndex key, List.mem_finRange _, ?_⟩,
    (snapshotEntry_eq_some copied).1⟩
  refine List.mem_filterMap.mpr ⟨key, (arranged _).mem_iff.mpr ?_, copied⟩
  exact AList.lookup_isSome.mp (Option.isSome_iff_exists.mpr ⟨obj, stored⟩)

theorem keys_filterMap_snapshotEntry (sh : Shard) (now : Int) (keys : List Key) :
    ((keys.filterMap (snapshotEntry sh now)).map SnapshotEntry.key).Sublist keys := by
  induction keys with
  | nil => exact .slnil
  | cons key keys inductionHypothesis =>
      rw [List.filterMap_cons]
      split
      next => exact inductionHypothesis.cons key
      next copy copied =>
        rw [List.map_cons, (snapshotEntry_eq_some copied).1]
        exact inductionHypothesis.cons_cons key

/-- No key is copied twice. -/
theorem WellFormed.snapshot_nodup (wellFormed : store.WellFormed) (clock : Clock)
    (arranged : ∀ keys, (arrange keys).Perm keys) :
    ((store.snapshotEntries clock arrange).map SnapshotEntry.key).Nodup := by
  rw [snapshotEntries, List.map_flatMap, List.nodup_flatMap]
  have listed := fun shard => keys_filterMap_snapshotEntry (store.shards shard) clock.now
    (arrange (store.shards shard).data.keys)
  have home : ∀ shard key, key ∈ ((arrange (store.shards shard).data.keys).filterMap
      (snapshotEntry (store.shards shard) clock.now)).map SnapshotEntry.key →
      getShardIndex key = shard := fun shard key membership =>
    (wellFormed.shards shard).home_eq key
      ((arranged _).mem_iff.mp ((listed shard).subset membership))
  refine ⟨fun shard _ => ?_, ?_⟩
  · exact (listed shard).nodup ((arranged _).nodup_iff.mpr (store.shards shard).data.keys_nodup)
  · refine (List.nodup_finRange numShards).pairwise_of_forall_ne
      fun first _ second _ different => ?_
    intro key inFirst inSecond
    exact different ((home first key inFirst).symm.trans (home second key inSecond))

end

end Store

end Carrot
