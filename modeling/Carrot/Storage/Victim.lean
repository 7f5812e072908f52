import Carrot.Storage.Operations
import Mathlib.Data.List.MinMax

/-!
# Which key is evicted

The pass over the shards takes one key from each of the first five shards that
hold any, and returns the one that was not used for the longest time.  Keys
that share a shard are not compared with each other.
-/

namespace Carrot

/-! ## The order in which the shards are visited -/

namespace Draws

theorem shard_inj (draws : Draws) {first second : Nat} (firstBound : first < numShards)
    (secondBound : second < numShards) (same : draws.shard first = draws.shard second) :
    first = second := by
  have congruent : first ≡ second [MOD numShards] :=
    Nat.ModEq.add_left_cancel' (draws.start % numShards) (Fin.mk.inj same)
  rwa [Nat.ModEq, Nat.mod_eq_of_lt firstBound, Nat.mod_eq_of_lt secondBound] at congruent

/-- All shards, in the order in which a pass visits them. -/
def order (draws : Draws) : List (Fin numShards) := (List.range numShards).map draws.shard

theorem order_nodup (draws : Draws) : draws.order.Nodup := by
  refine List.Nodup.map_on ?_ List.nodup_range
  intro first firstBound second secondBound same
  exact draws.shard_inj (List.mem_range.mp firstBound) (List.mem_range.mp secondBound) same

theorem mem_order (draws : Draws) (shard : Fin numShards) : shard ∈ draws.order := by
  have all : draws.order.toFinset = Finset.univ := by
    refine Finset.eq_univ_of_card _ ?_
    rw [List.toFinset_card_of_nodup draws.order_nodup, order, List.length_map, List.length_range,
      Fintype.card_fin]
  rw [← List.mem_toFinset, all]
  exact Finset.mem_univ shard

end Draws

namespace Store

/-- The number of keys. -/
def keyCount (store : Store) : Nat := ∑ shard, (store.shards shard).all.size

theorem WellFormed.keyCount_remove {store : Store} (wellFormed : store.WellFormed) {key : Key}
    {obj : Obj} (found : store.peek key = some obj) :
    (store.remove (getShardIndex key) key).keyCount + 1 = store.keyCount := by
  have consistent := wellFormed.shards (getShardIndex key)
  have stored : key ∈ (store.shards (getShardIndex key)).data := by
    rw [← AList.lookup_isSome]
    exact Option.isSome_of_eq_some found
  have shrunk := consistent.all.size_remove ((consistent.mem_all key).mpr stored)
  have others : ∀ shard ∈ Finset.univ.erase (getShardIndex key),
      ((store.remove (getShardIndex key) key).shards shard).all.size =
        (store.shards shard).all.size := by
    intro shard membership
    rw [wellFormed.remove_eq]
    simp only [Function.update_of_ne (Finset.ne_of_mem_erase membership)]
  rw [keyCount, keyCount, ← Finset.add_sum_erase _ _ (Finset.mem_univ (getShardIndex key)),
    Finset.sum_congr rfl others,
    ← Finset.add_sum_erase _ (fun shard => (store.shards shard).all.size)
      (Finset.mem_univ (getShardIndex key)), ← shrunk, wellFormed.remove_eq]
  simp only [Function.update_self]
  ring

/-- An empty store uses no memory. -/
theorem WellFormed.usedBytes_eq_zero {store : Store} (wellFormed : store.WellFormed)
    (empty : store.keyCount = 0) : store.usedBytes = 0 := by
  rw [wellFormed.used_eq]
  refine Finset.sum_eq_zero fun shard _ => ?_
  have vacant : (store.shards shard).all.keys = [] :=
    List.length_eq_zero_iff.mp (Finset.sum_eq_zero_iff.mp empty shard (Finset.mem_univ shard))
  have nothing : (store.shards shard).data = ∅ := by
    refine AList.ext (List.eq_nil_iff_forall_not_mem.mpr fun entry membership => ?_)
    have stored : entry.1 ∈ (store.shards shard).data := List.mem_keys_of_mem membership
    rw [← (wellFormed.shards shard).mem_all, vacant] at stored
    cases stored
  rw [Shard.used, nothing]
  rfl

def Occupied (store : Store) (shard : Fin numShards) : Prop := 0 < (store.shards shard).all.size

instance (store : Store) (shard : Fin numShards) : Decidable (store.Occupied shard) :=
  inferInstanceAs (Decidable (0 < _))

/-- The key that is drawn from a shard, and when it was last used. -/
def candidate (store : Store) (draws : Draws) (shard : Fin numShards) : Key × Int :=
  let sh := store.shards shard
  let key := sh.all.atIndex (draws.inShard shard % sh.all.size)
  (key, ((sh.data.lookup key).map Obj.lastAccess).getD 0)

/-- The keys that are compared. -/
def sample (store : Store) (draws : Draws) : List (Key × Int) :=
  ((draws.order.filter (store.Occupied ·)).take 5).map (store.candidate draws)

theorem lruVictimLoop_eq (store : Store) (draws : Draws) (remaining step sampled : Nat)
    (best : Option (Key × Int)) :
    store.lruVictimLoop draws remaining step sampled best =
      ((((((List.range' step remaining).map draws.shard).filter (store.Occupied ·)).take
        (5 - sampled)).map (store.candidate draws)).foldl
          (List.argAux fun first second => first.2 < second.2) best).map Prod.fst := by
  induction remaining generalizing step sampled best with
  | zero => simp [lruVictimLoop]
  | succ remaining inductionHypothesis =>
      rw [lruVictimLoop]
      split
      next full =>
        rw [show 5 - sampled = 0 by omega, List.take_zero]
        rfl
      next room =>
        rw [List.range'_succ, List.map_cons, List.filter_cons]
        dsimp only
        by_cases occupied : store.Occupied (draws.shard step)
        · rw [if_pos (show (store.shards (draws.shard step)).all.size > 0 from occupied),
            if_pos (decide_eq_true occupied), show 5 - sampled = 5 - (sampled + 1) + 1 by omega,
            List.take_succ_cons, List.map_cons, List.foldl_cons, inductionHypothesis]
          cases best with
          | none => rfl
          | some pair => rfl
        · rw [if_neg (show ¬ (store.shards (draws.shard step)).all.size > 0 from occupied),
            if_neg (by simpa using occupied), inductionHypothesis]

/-- The pass returns the first of the keys compared that was used least recently. -/
theorem lruVictim_eq (store : Store) (draws : Draws) :
    store.lruVictim draws = ((store.sample draws).argmin Prod.snd).map Prod.fst := by
  rw [lruVictim, lruVictimLoop_eq, ← List.range_eq_range']
  rfl

section

variable {store : Store}

/-- What is drawn from a shard is stored there. -/
theorem WellFormed.candidate_stored (wellFormed : store.WellFormed) (draws : Draws)
    {shard : Fin numShards} (occupied : store.Occupied shard) :
    getShardIndex (store.candidate draws shard).1 = shard ∧
      ∃ obj, store.peek (store.candidate draws shard).1 = some obj ∧
        (store.candidate draws shard).2 = obj.lastAccess := by
  have consistent := wellFormed.shards shard
  have bound : draws.inShard shard % (store.shards shard).all.size <
      (store.shards shard).all.keys.length := Nat.mod_lt _ occupied
  have indexed : (store.candidate draws shard).1 ∈ (store.shards shard).all.keys := by
    rw [candidate, IndexedSet.atIndex, List.getD_eq_getElem _ _ bound]
    exact List.getElem_mem bound
  have stored := (consistent.mem_all _).mp indexed
  have home := consistent.home_eq _ stored
  obtain ⟨obj, found⟩ := Option.isSome_iff_exists.mp (AList.lookup_isSome.mpr stored)
  refine ⟨home, obj, ?_, ?_⟩
  · rw [peek, home]
    exact found
  · change (((store.shards shard).data.lookup (store.candidate draws shard).1).map
      Obj.lastAccess).getD 0 = _
    rw [found]
    rfl

/-- The pass returns what is drawn from some shard, and compares it with the
rest of the sample. -/
theorem lruVictim_candidate {draws : Draws} {key : Key}
    (chosen : store.lruVictim draws = some key) :
    ∃ shard, store.Occupied shard ∧ (store.candidate draws shard).1 = key ∧
      ∀ pair ∈ store.sample draws, (store.candidate draws shard).2 ≤ pair.2 := by
  rw [lruVictim_eq, Option.map_eq_some_iff] at chosen
  obtain ⟨pair, least, rfl⟩ := chosen
  obtain ⟨shard, membership, rfl⟩ := List.mem_map.mp (List.argmin_mem least)
  refine ⟨shard, ?_, rfl, fun pair compared => List.le_of_mem_argmin compared least⟩
  exact of_decide_eq_true (List.mem_filter.mp (List.mem_of_mem_take membership)).2

/-- What the pass returns is stored. -/
theorem WellFormed.lruVictim_stored (wellFormed : store.WellFormed) {draws : Draws} {key : Key}
    (chosen : store.lruVictim draws = some key) : ∃ obj, store.peek key = some obj := by
  obtain ⟨shard, occupied, rfl, -⟩ := lruVictim_candidate chosen
  obtain ⟨-, obj, found, -⟩ := wellFormed.candidate_stored draws occupied
  exact ⟨obj, found⟩

/-- A store that holds a key has a victim. -/
theorem lruVictim_isSome (draws : Draws) (nonempty : store.keyCount ≠ 0) :
    ∃ key, store.lruVictim draws = some key := by
  obtain ⟨shard, -, occupied⟩ := Finset.exists_ne_zero_of_sum_ne_zero nonempty
  have visited : shard ∈ draws.order.filter (store.Occupied ·) :=
    List.mem_filter.mpr ⟨draws.mem_order shard, decide_eq_true (Nat.pos_of_ne_zero occupied)⟩
  have compared : store.sample draws ≠ [] := by
    rw [sample, ne_eq, List.map_eq_nil_iff, List.take_eq_nil_iff]
    rintro (impossible | none)
    · cases impossible
    · rw [none] at visited
      cases visited
  rw [lruVictim_eq]
  cases least : (store.sample draws).argmin Prod.snd with
  | none => exact absurd (List.argmin_eq_none.mp least) compared
  | some pair => exact ⟨pair.1, rfl⟩

/-! ## Small stores -/

theorem occupied_le_keyCount (draws : Draws) :
    (draws.order.filter (store.Occupied ·)).length ≤ store.keyCount := by
  have distinct := draws.order_nodup.filter (store.Occupied ·)
  rw [← List.toFinset_card_of_nodup distinct, Finset.card_eq_sum_ones]
  calc ∑ _shard ∈ (draws.order.filter (store.Occupied ·)).toFinset, 1
      ≤ ∑ shard ∈ (draws.order.filter (store.Occupied ·)).toFinset,
          (store.shards shard).all.size := by
        refine Finset.sum_le_sum fun shard membership => ?_
        exact of_decide_eq_true (List.mem_filter.mp (List.mem_toFinset.mp membership)).2
    _ ≤ store.keyCount := Finset.sum_le_univ_sum_of_nonneg fun _ => Nat.zero_le _

/-- Every occupied shard of a small store is sampled. -/
theorem mem_sample_of_small (few : store.keyCount ≤ 5) (draws : Draws) {shard : Fin numShards}
    (occupied : store.Occupied shard) : store.candidate draws shard ∈ store.sample draws := by
  rw [sample, List.take_of_length_le ((occupied_le_keyCount draws).trans few)]
  exact List.mem_map_of_mem
    (List.mem_filter.mpr ⟨draws.mem_order shard, decide_eq_true occupied⟩)

/-- A stored key that no other key was used before. -/
def Oldest (store : Store) (key : Key) : Prop :=
  ∃ obj, store.peek key = some obj ∧
    ∀ other stored, store.peek other = some stored → obj.lastAccess ≤ stored.lastAccess

/-- If some shard holds nothing but oldest keys, an oldest key is chosen. -/
theorem WellFormed.lruVictim_oldest (wellFormed : store.WellFormed) (few : store.keyCount ≤ 5)
    {shard : Fin numShards} (occupied : store.Occupied shard)
    (oldest : ∀ key ∈ (store.shards shard).all.keys, store.Oldest key) {draws : Draws} {key : Key}
    (chosen : store.lruVictim draws = some key) : store.Oldest key := by
  obtain ⟨other, otherOccupied, rfl, least⟩ := lruVictim_candidate chosen
  obtain ⟨-, obj, found, access⟩ := wellFormed.candidate_stored draws otherOccupied
  obtain ⟨home, drawn, drawnFound, drawnAccess⟩ := wellFormed.candidate_stored draws occupied
  have stored : (store.candidate draws shard).1 ∈ (store.shards shard).data := by
    rw [← AList.lookup_isSome]
    rw [peek, home] at drawnFound
    exact Option.isSome_of_eq_some drawnFound
  obtain ⟨oldestObj, agedFound, before⟩ :=
    oldest _ (((wellFormed.shards shard).mem_all _).mpr stored)
  cases agedFound.symm.trans drawnFound
  refine ⟨obj, found, fun third thirdObj thirdFound => ?_⟩
  calc obj.lastAccess = (store.candidate draws other).2 := access.symm
    _ ≤ (store.candidate draws shard).2 := least _ (mem_sample_of_small few draws occupied)
    _ = drawn.lastAccess := drawnAccess
    _ ≤ thirdObj.lastAccess := before third thirdObj thirdFound

/-- The draws that take a given key from every shard. -/
def drawsOf (store : Store) (choice : Fin numShards → Key) : Draws where
  start := 0
  inShard shard := (store.shards shard).all.keys.idxOf (choice shard)

theorem candidate_drawsOf {choice : Fin numShards → Key} {shard : Fin numShards}
    (member : choice shard ∈ (store.shards shard).all.keys) :
    (store.candidate (store.drawsOf choice) shard).1 = choice shard := by
  have bound := List.idxOf_lt_length_of_mem member
  change (store.shards shard).all.atIndex (_ % (store.shards shard).all.keys.length) = _
  rw [drawsOf, Nat.mod_eq_of_lt bound, IndexedSet.atIndex, List.getD_eq_getElem _ _ bound,
    List.getElem_idxOf]

/-- A small reachable store always has a victim.  It is an oldest key whatever
is drawn if and only if some shard holds nothing but oldest keys. -/
theorem lruVictim_oldest_iff (history : List (Operation × Clock))
    (nonempty : (Store.run history).keyCount ≠ 0) (few : (Store.run history).keyCount ≤ 5) :
    (∀ draws, ∃ key obj, (Store.run history).lruVictim draws = some key ∧
        (Store.run history).peek key = some obj) ∧
      ((∀ draws, ∃ key, (Store.run history).lruVictim draws = some key ∧
          (Store.run history).Oldest key) ↔
        ∃ shard, (Store.run history).Occupied shard ∧
          ∀ key ∈ ((Store.run history).shards shard).all.keys, (Store.run history).Oldest key) := by
  have wellFormed : (Store.run history).WellFormed := foldl_wellFormed history new_wellFormed
  generalize Store.run history = store at nonempty few wellFormed ⊢
  refine ⟨fun draws => ?_, fun always => ?_, ?_⟩
  · obtain ⟨key, chosen⟩ := lruVictim_isSome draws nonempty
    obtain ⟨obj, found⟩ := wellFormed.lruVictim_stored chosen
    exact ⟨key, obj, chosen, found⟩
  · -- Otherwise every shard holds a key that is not an oldest one, and all of them may be drawn.
    by_contra none
    have younger : ∀ shard, ∃ key, store.Occupied shard →
        key ∈ (store.shards shard).all.keys ∧ ¬ store.Oldest key := by
      intro shard
      by_contra impossible
      push Not at impossible
      refine none ⟨shard, (impossible []).1, fun key member => (impossible key).2 member⟩
    choose choice chosenYounger using younger
    obtain ⟨key, chosen, oldest⟩ := always (store.drawsOf choice)
    obtain ⟨shard, occupied, rfl, -⟩ := lruVictim_candidate chosen
    obtain ⟨member, young⟩ := chosenYounger shard occupied
    rw [candidate_drawsOf member] at oldest
    exact young oldest
  · rintro ⟨shard, occupied, oldest⟩ draws
    obtain ⟨key, chosen⟩ := lruVictim_isSome draws nonempty
    exact ⟨key, chosen, wellFormed.lruVictim_oldest few occupied oldest chosen⟩

/-- A store with one key. -/
theorem lruVictim_oldest_iff_single :
    let store := Store.run [(.call (.set [97] [] 0), ⟨1, by decide⟩)]
    (∀ draws, ∃ key obj, store.lruVictim draws = some key ∧ store.peek key = some obj) ∧
      ((∀ draws, ∃ key, store.lruVictim draws = some key ∧ store.Oldest key) ↔
        ∃ shard, store.Occupied shard ∧
          ∀ key ∈ (store.shards shard).all.keys, store.Oldest key) :=
  lruVictim_oldest_iff _ (by decide +kernel) (by decide +kernel)

/-- The keys `k4` and `k79` share a shard.  The one that was used last may be
chosen. -/
theorem lruVictim_of_shared_shard :
    let store := Store.run [(.call (.set [107, 52] [] 0), ⟨1, by decide⟩),
      (.call (.set [107, 55, 57] [] 0), ⟨2, by decide⟩)]
    store.keyCount = 2 ∧ store.lruVictim ⟨0, fun _ => 1⟩ = some [107, 55, 57] ∧
      (store.peek [107, 52]).map Obj.lastAccess = some 1 ∧
      (store.peek [107, 55, 57]).map Obj.lastAccess = some 2 := by
  decide +kernel

end

end Store

end Carrot
