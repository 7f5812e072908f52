import Carrot.Storage.Victim
import Mathlib.Data.List.Rotate
import Mathlib.Data.Set.Card

/-!
# Active expiry of a small store

A sample looks at no more than five keys of a shard and twenty in all, from
random places.  If no shard has more than five keys with a deadline, and the
store no more than twenty, it looks at all of them: then one pass deletes every
key that is expired.
-/

namespace Carrot.Store

/-- A key that is stored with a deadline. -/
def HasDeadline (store : Store) (key : Key) : Prop :=
  ∃ obj, store.peek key = some obj ∧ obj.expiresAt ≠ 0

theorem hasDeadline_of_holdsExpired {store : Store} {key : Key} {now : Int}
    (dead : store.holdsExpired key now = true) : store.HasDeadline key := by
  obtain ⟨obj, stored, expired⟩ := holdsExpired_iff.mp dead
  rw [Obj.isExpired, Bool.and_eq_true] at expired
  exact ⟨obj, stored, of_decide_eq_true expired.1⟩

/-- The keys that a sample without limits would visit in some shards. -/
def visits (store : Store) (draws : Draws) (shards : List (Fin numShards)) : List Key :=
  shards.flatMap fun shard =>
    (store.shards shard).volatile.keys.rotate
      (draws.inShard shard % (store.shards shard).volatile.size)

theorem visited_all (sh : Shard) (offset : Nat) :
    visited sh offset sh.volatile.size = sh.volatile.keys.rotate offset := by
  refine List.ext_getElem ?_ fun index firstBound secondBound => ?_
  · rw [visited, List.length_map, List.length_range, List.length_rotate, IndexedSet.size]
  · rw [List.length_rotate] at secondBound
    have bound : (offset + index) % sh.volatile.size < sh.volatile.keys.length :=
      Nat.mod_lt _ (Nat.zero_lt_of_lt secondBound)
    simp only [visited, List.getElem_map, List.getElem_range, List.getElem_rotate]
    rw [IndexedSet.atIndex, List.getD_eq_getElem _ _ bound]
    simp only [IndexedSet.size, Nat.add_comm]

section

variable {store : Store} (wellFormed : store.WellFormed)

include wellFormed

theorem WellFormed.mem_tracked (shard : Fin numShards) (key : Key) :
    key ∈ (store.shards shard).volatile.keys ↔
      store.HasDeadline key ∧ getShardIndex key = shard := by
  rw [(wellFormed.shards shard).mem_volatile]
  constructor
  · rintro ⟨obj, stored, deadline⟩
    have homed := (wellFormed.shards shard).home_eq key
      (AList.lookup_isSome.mp (Option.isSome_of_eq_some stored))
    subst homed
    exact ⟨⟨obj, stored, deadline⟩, rfl⟩
  · rintro ⟨deadline, rfl⟩
    exact deadline

theorem WellFormed.visits_nodup (draws : Draws) {shards : List (Fin numShards)}
    (distinct : shards.Nodup) : (store.visits draws shards).Nodup := by
  rw [visits, List.nodup_flatMap]
  refine ⟨fun shard _ => List.nodup_rotate.mpr (wellFormed.shards shard).volatile.nodup, ?_⟩
  apply distinct.imp
  intro first second different key inFirst inSecond
  rw [List.mem_rotate, wellFormed.mem_tracked] at inFirst inSecond
  exact different (inFirst.2.symm.trans inSecond.2)

omit wellFormed in
theorem mem_visits {draws : Draws} {shards : List (Fin numShards)} {key : Key} :
    key ∈ store.visits draws shards ↔
      ∃ shard ∈ shards, key ∈ (store.shards shard).volatile.keys := by
  simp only [visits, List.mem_flatMap, List.mem_rotate]

/-! ## A sample without limits -/

theorem WellFormed.filter_visited (shard : Fin numShards) (offset : Nat) (now : Int) :
    ((store.shards shard).volatile.keys.rotate offset).filter (fun key =>
        ((store.shards shard).data.lookup key).any fun obj => obj.isExpired now) =
      ((store.shards shard).volatile.keys.rotate offset).filter (store.holdsExpired · now) := by
  apply List.filter_congr
  intro key membership
  rw [List.mem_rotate, wellFormed.mem_tracked] at membership
  rw [holdsExpired, membership.2]

/-- If nothing is cut off, a sample is all that it would visit. -/
theorem WellFormed.sampleLoop_all (draws : Draws) {limit : Int} (now : Int)
    (spread : ∀ shard, (store.shards shard).volatile.size ≤ 5) (remaining step sampled : Nat)
    (expired : List Key)
    (fits : (sampled : Int) +
      (store.visits draws ((List.range' step remaining).map draws.shard)).length ≤ limit) :
    Store.sampleLoop draws limit now remaining step store sampled expired =
      (store, sampled + (store.visits draws ((List.range' step remaining).map draws.shard)).length,
        expired ++ (store.visits draws ((List.range' step remaining).map draws.shard)).filter
          (store.holdsExpired · now)) := by
  induction remaining generalizing step sampled expired with
  | zero => simp [Store.sampleLoop, visits]
  | succ remaining inductionHypothesis =>
      rw [Store.sampleLoop]
      by_cases room : (sampled : Int) < limit
      · rw [if_neg (not_not_intro room)]
        rw [List.range'_succ, List.map_cons, visits, List.flatMap_cons, ← visits] at fits ⊢
        rw [List.length_append, List.length_rotate, Nat.cast_add] at fits
        rw [List.length_append, List.length_rotate, List.filter_append]
        by_cases empty : (store.shards (draws.shard step)).volatile.size = 0
        · have nothing : (store.shards (draws.shard step)).volatile.keys = [] :=
            List.eq_nil_of_length_eq_zero empty
          simp only [if_pos empty]
          rw [inductionHypothesis _ _ _ (by rw [nothing] at fits; simpa using fits), nothing]
          simp
        · have whole : min (min ((store.shards (draws.shard step)).volatile.size : Int) 5)
              (limit - sampled) = (store.shards (draws.shard step)).volatile.size := by
            have small := spread (draws.shard step)
            rw [IndexedSet.size] at small ⊢
            omega
          simp only [if_neg empty, whole, Int.toNat_natCast]
          rw [sampleShard_eq (wellFormed.shards _) empty, visited_all, wellFormed.filter_visited]
          simp only [List.foldl_nil]
          have rest : ((sampled + (store.shards (draws.shard step)).volatile.size : Nat) : Int) +
              (store.visits draws ((List.range' (step + 1) remaining).map draws.shard)).length ≤
                limit := by
            rw [IndexedSet.size, Nat.cast_add]
            omega
          rw [inductionHypothesis _ _ _ rest, IndexedSet.size, Nat.add_assoc, List.append_assoc]
      · have nothing :
            store.visits draws ((List.range' step (remaining + 1)).map draws.shard) = [] :=
          List.eq_nil_of_length_eq_zero (by omega)
        rw [if_pos room, nothing]
        simp

end

/-! ## Small stores -/

theorem length_le_of_encard_le {keys : List Key} {property : Set Key} {bound : Nat}
    (distinct : keys.Nodup) (among : ∀ key ∈ keys, key ∈ property)
    (few : property.encard ≤ bound) : keys.length ≤ bound := by
  have included : (keys.toFinset : Set Key) ⊆ property := by
    intro key membership
    exact among key (List.mem_toFinset.mp membership)
  have counted := (Set.encard_le_encard included).trans few
  rw [Set.encard_coe_eq_coe_finsetCard, List.toFinset_card_of_nodup distinct] at counted
  exact_mod_cast counted

section

variable {store : Store} (wellFormed : store.WellFormed)
  (few : {key | store.HasDeadline key}.encard ≤ 20)
  (spread : ∀ shard, {key | store.HasDeadline key ∧ getShardIndex key = shard}.encard ≤ 5)

include wellFormed few spread

/-- A sample of a small store finds every expired key. -/
theorem WellFormed.mem_sampleExpired (draws : Draws) (clock : Clock) {key : Key}
    (dead : store.holdsExpired key clock.now = true) :
    key ∈ (store.sampleExpired 20 draws clock).2.2 ∧
      (store.sampleExpired 20 draws clock).2.1 ≠ 0 := by
  have eachFew : ∀ shard, (store.shards shard).volatile.size ≤ 5 := fun shard =>
    length_le_of_encard_le (wellFormed.shards shard).volatile.nodup
      (fun key membership => (wellFormed.mem_tracked shard key).mp membership) (spread shard)
  have allFew : (store.visits draws draws.order).length ≤ 20 :=
    length_le_of_encard_le (wellFormed.visits_nodup draws draws.order_nodup)
      (fun key membership => by
        obtain ⟨shard, _, tracked⟩ := mem_visits.mp membership
        exact ((wellFormed.mem_tracked shard key).mp tracked).1) few
  have seen : key ∈ store.visits draws draws.order :=
    mem_visits.mpr ⟨getShardIndex key, draws.mem_order _,
      (wellFormed.mem_tracked _ key).mpr ⟨hasDeadline_of_holdsExpired dead, rfl⟩⟩
  have sampled : store.sampleExpired 20 draws clock =
      (store, (store.visits draws draws.order).length,
        (store.visits draws draws.order).filter (store.holdsExpired · clock.now)) := by
    rw [Draws.order, List.range_eq_range'] at allFew ⊢
    have fits : ((0 : Nat) : Int) + ((store.visits draws
        ((List.range' 0 numShards).map draws.shard)).length : Int) ≤ 20 := by
      rw [Nat.cast_zero, zero_add]
      exact_mod_cast allFew
    have all := wellFormed.sampleLoop_all draws clock.now eachFew numShards 0 0 [] fits
    rwa [zero_add, List.nil_append] at all
  rw [sampled]
  exact ⟨List.mem_filter.mpr ⟨seen, dead⟩, List.length_pos_of_mem seen |>.ne'⟩

end

/-! ## The pass -/

theorem activeExpireCycleWith_succ {Context : Type} (started : Clock) (rounds : Nat → ExpireRound)
    (remove : Context → Store → List Key → Clock → Context × Store × Int × Bool)
    (remaining iteration : Nat) (context : Context) (store : Store) (total : Int) :
    activeExpireCycleWith started rounds remove (remaining + 1) iteration context store total =
      let round := rounds iteration
      if round.checked.now - started.now ≥ 25 * Time.millisecond then (context, store, total)
      else
        let sample := store.sampleExpired 20 round.draws round.sampled
        if sample.2.1 = 0 then (context, sample.1, total)
        else
          let removed :=
            if sample.2.2.length > 0 then remove context sample.1 sample.2.2 round.deleted
            else (context, sample.1, 0, false)
          if removed.2.2.2 then (removed.1, removed.2.1, total + removed.2.2.1)
          else if 4 * sample.2.2.length ≤ sample.2.1 then
            (removed.1, removed.2.1, total + removed.2.2.1)
          else
            activeExpireCycleWith started rounds remove remaining (iteration + 1) removed.1
              removed.2.1 (total + removed.2.2.1) := rfl

/-- If the time allows one round, a pass deletes every key of a small store that
was expired when it started. -/
theorem WellFormed.activeExpireCycle_removes {store : Store} (wellFormed : store.WellFormed)
    (few : {key | store.HasDeadline key}.encard ≤ 20)
    (spread : ∀ shard, {key | store.HasDeadline key ∧ getShardIndex key = shard}.encard ≤ 5)
    {started : Clock} {rounds : Nat → ExpireRound}
    (budget : (rounds 0).checked.now - started.now < 25 * Time.millisecond)
    (sampledLater : started ≤ (rounds 0).sampled)
    (deletedLater : (rounds 0).sampled ≤ (rounds 0).deleted) {key : Key}
    (dead : store.holdsExpired key started.now = true) :
    (store.activeExpireCycle started rounds).1.peek key = none := by
  have sampledDead := holdsExpired_later dead sampledLater
  obtain ⟨found, some⟩ :=
    wellFormed.mem_sampleExpired few spread (rounds 0).draws (rounds 0).sampled sampledDead
  have removed := deleteExpired_removes found (holdsExpired_later sampledDead deletedLater)
  have unchanged := wellFormed.sampleExpired 20 (rounds 0).draws (rounds 0).sampled
  have consistent := (wellFormed.deleteExpired
    (store.sampleExpired 20 (rounds 0).draws (rounds 0).sampled).2.2
      (rounds 0).deleted).wellFormed
  rw [Store.activeExpireCycle, activeExpireCycleWith_succ]
  simp only [unchanged, if_neg (not_le_of_gt budget), if_neg some,
    if_pos (List.length_pos_of_mem found), Bool.false_eq_true, if_false]
  split
  next => exact removed
  next =>
    -- The later rounds do not bring the key back.
    exact (activeExpireCycleWith_preserves
      (fun _ after => after.WellFormed ∧ after.peek key = none) (fun _ _ holds => holds.1)
      (fun _ after keys clock holds => ⟨(holds.1.deleteExpired keys clock).wellFormed,
        foldl_deleteCandidate_none holds.2 keys⟩) 15 1 _ ⟨consistent, removed⟩).2

end Carrot.Store
