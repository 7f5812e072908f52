import Carrot.Storage.List
import Mathlib.Algebra.BigOperators.Fin

/-!
# The representation invariant

The maps, the two key indexes, the circular buffers and the byte counter of a
store describe one set of entries.  Every write goes through `put`, `touch`,
`remove` and the two index updates, so the invariant is established for these
and for the combinations in which the operations use them.
-/

namespace Carrot

/-- A stored object has a consistent list, which is not empty when the object
is a list. -/
structure Obj.WellFormed (obj : Obj) : Prop where
  list : obj.list.WellFormed
  nonempty : obj.kind = .list → obj.list.toList ≠ []

/-- The bytes charged for a shard. -/
def Shard.used (shard : Shard) : Int :=
  shard.data.total fun key obj => obj.memorySize key

structure Shard.WellFormed (home : Fin numShards) (shard : Shard) : Prop where
  home_eq : ∀ key, key ∈ shard.data → getShardIndex key = home
  all : shard.all.WellFormed
  mem_all : ∀ key, key ∈ shard.all.keys ↔ key ∈ shard.data
  volatile : shard.volatile.WellFormed
  mem_volatile : ∀ key, key ∈ shard.volatile.keys ↔
    ∃ obj, shard.data.lookup key = some obj ∧ obj.expiresAt ≠ 0
  objects : ∀ key obj, shard.data.lookup key = some obj → obj.WellFormed

structure Store.WellFormed (store : Store) : Prop where
  shards : ∀ home, (store.shards home).WellFormed home
  used_eq : store.usedBytes = ∑ home, (store.shards home).used

/-- The object stored under a key, dead or alive. -/
def Store.peek (store : Store) (key : Key) : Option Obj :=
  (store.shards (getShardIndex key)).data.lookup key

namespace Store

theorem new_wellFormed : new.WellFormed where
  shards home := by
    refine ⟨?_, IndexedSet.empty_wellFormed, ?_, IndexedSet.empty_wellFormed, ?_, ?_⟩
    · intro key membership
      exact absurd membership (AList.notMem_empty key)
    · intro key
      simp [new, IndexedSet.empty]
    · intro key
      simp [new, IndexedSet.empty]
    · intro key obj found
      simp [new] at found
  used_eq := by simp [new, Shard.used]

/-- Replacing one shard by a consistent one keeps the invariant when the
counter moves by the difference of their sizes. -/
theorem WellFormed.replaceShard {store : Store} (wellFormed : store.WellFormed)
    (home : Fin numShards) {shard : Shard} (consistent : shard.WellFormed home) {used : Int}
    (counted : used = store.usedBytes + (shard.used - (store.shards home).used)) :
    ({ shards := Function.update store.shards home shard, usedBytes := used } :
      Store).WellFormed where
  shards index := by
    by_cases same : index = home
    · subst index
      simpa using consistent
    · simpa [same] using wellFormed.shards index
  used_eq := by
    have spread : ∀ index, (Function.update store.shards home shard index).used =
        Function.update (fun index => (store.shards index).used) home shard.used index := by
      intro index
      by_cases same : index = home
      · subst index
        simp
      · simp [same]
    simp only [spread]
    rw [Finset.sum_update_of_mem (Finset.mem_univ home), counted, wellFormed.used_eq,
      ← Finset.add_sum_erase _ _ (Finset.mem_univ home), Finset.sdiff_singleton_eq_erase]
    ring

end Store

namespace Shard

variable {home : Fin numShards} {shard : Shard}

/-- Insert an object while bringing both indexes in line with it. -/
theorem WellFormed.insert (wellFormed : shard.WellFormed home) {key : Key} {obj : Obj}
    (homed : getShardIndex key = home) (consistent : obj.WellFormed)
    {volatile : IndexedSet Key} (volatileWellFormed : volatile.WellFormed)
    (tracked : key ∈ volatile.keys ↔ obj.expiresAt ≠ 0)
    (others : ∀ other, other ≠ key →
      (other ∈ volatile.keys ↔ other ∈ shard.volatile.keys)) :
    ({ data := shard.data.insert key obj, all := shard.all.add key, volatile } :
      Shard).WellFormed home where
  home_eq other membership := by
    rcases (AList.mem_insert shard.data).mp membership with rfl | present
    · exact homed
    · exact wellFormed.home_eq other present
  all := (wellFormed.all.add key).1
  mem_all other := by
    rw [(wellFormed.all.add key).2, AList.mem_insert, wellFormed.mem_all]
  volatile := volatileWellFormed
  mem_volatile other := by
    by_cases same : other = key
    · subst other
      simp [AList.lookup_insert, tracked]
    · rw [others other same, wellFormed.mem_volatile, AList.lookup_insert_ne same]
  objects other stored found := by
    by_cases same : other = key
    · subst other
      rw [AList.lookup_insert] at found
      cases found
      exact consistent
    · rw [AList.lookup_insert_ne same] at found
      exact wellFormed.objects other stored found

theorem WellFormed.erase (wellFormed : shard.WellFormed home) (key : Key) :
    ({ data := shard.data.erase key
       all := shard.all.remove key
       volatile := shard.volatile.remove key } : Shard).WellFormed home where
  home_eq other membership := wellFormed.home_eq other (AList.mem_erase.mp membership).2
  all := (wellFormed.all.remove key).1
  mem_all other := by
    rw [(wellFormed.all.remove key).2, AList.mem_erase, wellFormed.mem_all]
  volatile := (wellFormed.volatile.remove key).1
  mem_volatile other := by
    rw [(wellFormed.volatile.remove key).2, wellFormed.mem_volatile]
    by_cases same : other = key
    · subst other
      simp [AList.lookup_erase]
    · rw [AList.lookup_erase_ne same]
      simp [same]
  objects other stored found := by
    by_cases same : other = key
    · subst other
      simp [AList.lookup_erase] at found
    · rw [AList.lookup_erase_ne same] at found
      exact wellFormed.objects other stored found

end Shard

namespace Store

/-- The bytes charged for what is stored under a key. -/
def charge (store : Store) (shard : Fin numShards) (key : Key) : Int :=
  (((store.shards shard).data.lookup key).map fun obj => obj.memorySize key).getD 0

/-- On a consistent store both branches of `put` are one update. -/
theorem WellFormed.put_eq {store : Store} (wellFormed : store.WellFormed)
    (shard : Fin numShards) (key : Key) (obj : Obj) (clock : Clock) :
    store.put shard key obj clock =
      { shards := Function.update store.shards shard
          { data := (store.shards shard).data.insert key
              { obj with lastAccess := clock.unixNano }
            all := (store.shards shard).all.add key
            volatile := (store.shards shard).volatile }
        usedBytes := store.usedBytes +
          (({ obj with lastAccess := clock.unixNano } : Obj).memorySize key -
            store.charge shard key) } := by
  cases found : (store.shards shard).data.lookup key with
  | none => simp [put, found, charge, modifyShard]
  | some old =>
      have present : key ∈ (store.shards shard).all.keys := by
        rw [(wellFormed.shards shard).mem_all, ← AList.lookup_isSome, found]
        rfl
      have unchanged := (wellFormed.shards shard).all.add_of_mem present
      simp [put, found, charge, modifyShard, unchanged]

/-- On a consistent store both branches of `remove` are one update. -/
theorem WellFormed.remove_eq {store : Store} (wellFormed : store.WellFormed)
    (shard : Fin numShards) (key : Key) :
    store.remove shard key =
      { shards := Function.update store.shards shard
          { data := (store.shards shard).data.erase key
            all := (store.shards shard).all.remove key
            volatile := (store.shards shard).volatile.remove key }
        usedBytes := store.usedBytes - store.charge shard key } := by
  cases found : (store.shards shard).data.lookup key with
  | some old => simp [remove, found, charge, modifyShard]
  | none =>
      have absent : key ∉ (store.shards shard).data := AList.lookup_eq_none.mp found
      have notIndexed : key ∉ (store.shards shard).all.keys := by
        rwa [(wellFormed.shards shard).mem_all]
      have unindexed := (wellFormed.shards shard).all.remove_of_notMem notIndexed
      have unchanged : (store.shards shard).data.erase key = (store.shards shard).data := by
        apply AList.ext
        exact List.kerase_of_notMem_keys absent
      simp [remove, found, charge, modifyShard, unindexed, unchanged]

theorem used_insert (store : Store) (shard : Fin numShards) (key : Key) (obj : Obj)
    (all volatile : IndexedSet Key) :
    ({ data := (store.shards shard).data.insert key obj, all, volatile } : Shard).used =
      (store.shards shard).used + (obj.memorySize key - store.charge shard key) := by
  simp only [Shard.used, AList.total_insert, charge]
  ring

theorem used_erase (store : Store) (shard : Fin numShards) (key : Key)
    (all volatile : IndexedSet Key) :
    ({ data := (store.shards shard).data.erase key, all, volatile } : Shard).used =
      (store.shards shard).used - store.charge shard key := by
  simp only [Shard.used, charge]
  cases found : (store.shards shard).data.lookup key with
  | some old =>
      rw [AList.total_erase _ _ found]
      simp
  | none =>
      have unchanged : (store.shards shard).data.erase key = (store.shards shard).data := by
        apply AList.ext
        exact List.kerase_of_notMem_keys (AList.lookup_eq_none.mp found)
      simp [unchanged]

theorem touched_wellFormed {obj : Obj} (consistent : obj.WellFormed) (access : Int) :
    ({ obj with lastAccess := access } : Obj).WellFormed :=
  ⟨consistent.list, consistent.nonempty⟩

/-! ## The write combinations -/

/-- A `put` that keeps the presence of a deadline needs no index update. -/
theorem WellFormed.put {store : Store} (wellFormed : store.WellFormed) {key : Key} {obj : Obj}
    (consistent : obj.WellFormed)
    (tracked : key ∈ (store.shards (getShardIndex key)).volatile.keys ↔ obj.expiresAt ≠ 0)
    (clock : Clock) : (store.put (getShardIndex key) key obj clock).WellFormed := by
  rw [wellFormed.put_eq]
  apply wellFormed.replaceShard
  · exact (wellFormed.shards _).insert rfl (touched_wellFormed consistent _)
      (wellFormed.shards _).volatile tracked (fun _ _ => Iff.rfl)
  · rw [used_insert]
    ring

theorem WellFormed.put_volatileAdd {store : Store} (wellFormed : store.WellFormed)
    {key : Key} {obj : Obj} (consistent : obj.WellFormed) (deadline : obj.expiresAt ≠ 0)
    (clock : Clock) :
    ((store.put (getShardIndex key) key obj clock).volatileAdd
      (getShardIndex key) key).WellFormed := by
  have added := (wellFormed.shards (getShardIndex key)).volatile.add key
  rw [wellFormed.put_eq]
  simp only [volatileAdd, modifyShard, Function.update_self, Function.update_idem]
  apply wellFormed.replaceShard
  · apply (wellFormed.shards _).insert rfl (touched_wellFormed consistent _) added.1
    · simp [added.2, deadline]
    · intro other different
      simp [added.2, different]
  · rw [used_insert]
    ring

theorem WellFormed.put_volatileRemove {store : Store} (wellFormed : store.WellFormed)
    {key : Key} {obj : Obj} (consistent : obj.WellFormed) (persistent : obj.expiresAt = 0)
    (clock : Clock) :
    ((store.put (getShardIndex key) key obj clock).volatileRemove
      (getShardIndex key) key).WellFormed := by
  have removed := (wellFormed.shards (getShardIndex key)).volatile.remove key
  rw [wellFormed.put_eq]
  simp only [volatileRemove, modifyShard, Function.update_self, Function.update_idem]
  apply wellFormed.replaceShard
  · apply (wellFormed.shards _).insert rfl (touched_wellFormed consistent _) removed.1
    · simp [removed.2, persistent]
    · intro other different
      simp [removed.2, different]
  · rw [used_insert]
    ring

theorem WellFormed.remove {store : Store} (wellFormed : store.WellFormed)
    (shard : Fin numShards) (key : Key) : (store.remove shard key).WellFormed := by
  rw [wellFormed.remove_eq]
  apply wellFormed.replaceShard
  · exact (wellFormed.shards shard).erase key
  · rw [used_erase]
    ring

theorem WellFormed.touch {store : Store} (wellFormed : store.WellFormed) {key : Key} {obj : Obj}
    (found : (store.shards (getShardIndex key)).data.lookup key = some obj) (clock : Clock) :
    (store.touch (getShardIndex key) key obj clock).1.WellFormed := by
  have shardWellFormed := wellFormed.shards (getShardIndex key)
  have present : key ∈ (store.shards (getShardIndex key)).all.keys := by
    rw [shardWellFormed.mem_all, ← AList.lookup_isSome, found]
    rfl
  have tracked : key ∈ (store.shards (getShardIndex key)).volatile.keys ↔
      obj.expiresAt ≠ 0 := by
    rw [shardWellFormed.mem_volatile]
    constructor
    · rintro ⟨stored, storedFound, deadline⟩
      rw [found] at storedFound
      cases storedFound
      exact deadline
    · exact fun deadline => ⟨obj, found, deadline⟩
  have inserted := shardWellFormed.insert rfl
    (touched_wellFormed (shardWellFormed.objects key obj found) clock.unixNano)
    shardWellFormed.volatile tracked (fun _ _ => Iff.rfl)
  rw [shardWellFormed.all.add_of_mem present] at inserted
  apply wellFormed.replaceShard _ inserted
  rw [used_insert]
  have charged : store.charge (getShardIndex key) key = obj.memorySize key := by
    simp [charge, found]
  rw [charged]
  simp [Obj.memorySize]

/-! ## What the primitives do to the stored objects -/

theorem peek_update (store : Store) (shard : Fin numShards) (replaced : Shard) (used : Int)
    (other : Key) :
    ({ shards := Function.update store.shards shard replaced, usedBytes := used } :
        Store).peek other =
      if getShardIndex other = shard then replaced.data.lookup other
      else store.peek other := by
  by_cases same : getShardIndex other = shard
  · subst shard
    simp [peek]
  · simp [peek, same]

@[simp]
theorem peek_volatileAdd (store : Store) (shard : Fin numShards) (key other : Key) :
    (store.volatileAdd shard key).peek other = store.peek other := by
  rw [volatileAdd, modifyShard, peek_update]
  split
  next same =>
    subst shard
    rfl
  next => rfl

@[simp]
theorem peek_volatileRemove (store : Store) (shard : Fin numShards) (key other : Key) :
    (store.volatileRemove shard key).peek other = store.peek other := by
  rw [volatileRemove, modifyShard, peek_update]
  split
  next same =>
    subst shard
    rfl
  next => rfl

theorem lookup_insert_shard (store : Store) (key other : Key) (obj : Obj) :
    (if getShardIndex other = getShardIndex key then
        ((store.shards (getShardIndex key)).data.insert key obj).lookup other
      else store.peek other) =
      if other = key then some obj else store.peek other := by
  by_cases same : other = key
  · subst other
    simp [AList.lookup_insert]
  · rw [if_neg same, AList.lookup_insert_ne same]
    split
    next shared =>
      rw [← shared]
      rfl
    next => rfl

@[simp]
theorem peek_put (store : Store) (key other : Key) (obj : Obj) (clock : Clock) :
    (store.put (getShardIndex key) key obj clock).peek other =
      if other = key then some { obj with lastAccess := clock.unixNano }
      else store.peek other := by
  rw [← store.lookup_insert_shard key other]
  simp only [put, modifyShard]
  split <;> rw [peek_update]

@[simp]
theorem peek_touch (store : Store) (key other : Key) (obj : Obj) (clock : Clock) :
    (store.touch (getShardIndex key) key obj clock).1.peek other =
      if other = key then some { obj with lastAccess := clock.unixNano }
      else store.peek other := by
  rw [← store.lookup_insert_shard key other, touch, modifyShard, peek_update]

@[simp]
theorem peek_remove (store : Store) (key other : Key) :
    (store.remove (getShardIndex key) key).peek other =
      if other = key then none else store.peek other := by
  have erased : (if getShardIndex other = getShardIndex key then
        ((store.shards (getShardIndex key)).data.erase key).lookup other
      else store.peek other) = if other = key then none else store.peek other := by
    by_cases same : other = key
    · subst other
      simp [AList.lookup_erase]
    · rw [if_neg same, AList.lookup_erase_ne same]
      split
      next shared =>
        rw [← shared]
        rfl
      next => rfl
  simp only [remove, modifyShard]
  split
  next old found => rw [← erased, peek_update]
  next missing =>
    rw [peek_update]
    by_cases same : other = key
    · subst other
      simpa using missing
    · rw [if_neg same]
      split
      next shared =>
        rw [← shared]
        rfl
      next => rfl

theorem WellFormed.peek_wellFormed {store : Store} (wellFormed : store.WellFormed)
    {key : Key} {obj : Obj} (found : store.peek key = some obj) : obj.WellFormed :=
  (wellFormed.shards _).objects key obj found

theorem WellFormed.mem_volatile {store : Store} (wellFormed : store.WellFormed) {key : Key}
    {obj : Obj} (found : store.peek key = some obj) :
    key ∈ (store.shards (getShardIndex key)).volatile.keys ↔ obj.expiresAt ≠ 0 := by
  rw [(wellFormed.shards _).mem_volatile]
  constructor
  · rintro ⟨stored, storedFound, deadline⟩
    cases storedFound.symm.trans found
    exact deadline
  · exact fun deadline => ⟨obj, found, deadline⟩

theorem WellFormed.notMem_volatile {store : Store} (wellFormed : store.WellFormed) {key : Key}
    (missing : store.peek key = none) :
    key ∉ (store.shards (getShardIndex key)).volatile.keys := by
  rw [(wellFormed.shards _).mem_volatile]
  rintro ⟨stored, found, _⟩
  cases found.symm.trans missing

end Store

end Carrot
