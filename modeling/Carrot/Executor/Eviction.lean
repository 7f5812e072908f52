import Carrot.Executor.Execute
import Carrot.Executor.WritePath

/-!
# Eviction

While memory is full, `admit` chooses a key, journals its deletion and deletes
it.  Every round removes one stored key, so that the loop ends, at the latest
with an empty store, which uses no memory.
-/

namespace Carrot

namespace Executor

variable [GoTables]

/-- Delete a key whose deletion was journaled. -/
def dropJournaled (world : World) (executor : Executor) (key : Key) : Executor :=
  { executor with
    store := (executor.store.del key (executor.now world)).1
    applied := executor.applied ++ [Step.mk (executor.now world) (delCommand key)] }.wait 1

/-- Rounds of the loop in `admit`, and the keys that they evict.  With a journal
each key is deleted after its deletion was appended. -/
inductive Evicts (world : World) : Bool → Executor → List Key → Executor → Prop where
  | done (journaled : Bool) (executor : Executor) : Evicts world journaled executor [] executor
  | journaled {executor appended after : Executor} {key : Key} {keys : List Key}
      {batch : List Persisted} (full : executor.store.usedMemory > executor.maxMemory)
      (chosen : executor.store.lruVictim (world.draws executor.tick) = some key)
      (append : (executor.wait 1).appendBatch world [delCommand key] = (appended, .ok batch))
      (rest : Evicts world true (appended.dropJournaled world key) keys after) :
      Evicts world true executor (key :: keys) after
  | plain {executor after : Executor} {key : Key} {keys : List Key}
      (full : executor.store.usedMemory > executor.maxMemory)
      (chosen : executor.store.lruVictim (world.draws executor.tick) = some key)
      (rest : Evicts world false (executor.drop world key) keys after) :
      Evicts world false executor (key :: keys) after

/-! ## What an append leaves alone -/

/-- The store and the configuration are the same. -/
structure SameData (before after : Executor) : Prop where
  ordered : before.tick ≤ after.tick
  store : after.store = before.store
  maxMemory : after.maxMemory = before.maxMemory
  evictLRU : after.evictLRU = before.evictLRU

omit [GoTables] in
theorem SameData.refl (executor : Executor) : SameData executor executor :=
  ⟨Nat.le_refl _, rfl, rfl, rfl⟩

omit [GoTables] in
theorem SameData.trans {first second third : Executor} (start : SameData first second)
    (next : SameData second third) : SameData first third :=
  ⟨start.ordered.trans next.ordered, next.store.trans start.store,
    next.maxMemory.trans start.maxMemory, next.evictLRU.trans start.evictLRU⟩

omit [GoTables] in
theorem background_sameData (executor : Executor) (action : Background) :
    SameData executor (executor.background action) := by
  cases action <;> exact ⟨Nat.le_refl _, rfl, rfl, rfl⟩

omit [GoTables] in
theorem backgrounds_sameData (executor : Executor) (actions : List Background) :
    SameData executor (actions.foldl background executor) := by
  induction actions generalizing executor with
  | nil => exact .refl executor
  | cons action actions inductionHypothesis =>
      exact (background_sameData executor action).trans (inductionHypothesis _)

theorem appendBatch_sameData {world : World} {executor after : Executor} {commands : List Command}
    {outcome : Except Bytes (List Persisted)}
    (appended : executor.appendBatch world commands = (after, outcome)) :
    SameData executor after := by
  have quiet := backgrounds_sameData (executor.wait commands.length)
    (world.background (executor.wait commands.length).tick)
  have later : executor.tick ≤ ((world.background (executor.wait commands.length).tick).foldl
      background (executor.wait commands.length)).tick + 1 :=
    (Nat.le_add_right _ _).trans (quiet.ordered.trans (Nat.le_succ _))
  have fields : SameData executor (executor.appendBatch world commands).1 := by
    simp only [appendBatch]
    split
    all_goals exact ⟨later, quiet.store, quiet.maxMemory, quiet.evictLRU⟩
  rwa [appended] at fields

/-! ## What eviction does to the store -/

end Executor

/-- Some keys were removed and nothing else happened. -/
structure Store.Loses (before : Store) (keys : List Key) (after : Store) : Prop where
  wellFormed : after.WellFormed
  stored : ∀ key ∈ keys, ∃ obj, before.peek key = some obj
  distinct : keys.Nodup
  peek : ∀ key, after.peek key = if key ∈ keys then none else before.peek key
  count : after.keyCount + keys.length = before.keyCount

namespace Store

theorem WellFormed.loses_nil {store : Store} (wellFormed : store.WellFormed) :
    store.Loses [] store :=
  ⟨wellFormed, fun _ membership => (List.not_mem_nil membership).elim, List.nodup_nil,
    fun _ => (if_neg List.not_mem_nil).symm, Nat.add_zero _⟩

theorem del_of_peek {store : Store} {key : Key} {obj : Obj} (found : store.peek key = some obj)
    (clock : Clock) : (store.del key clock).1 = store.remove (getShardIndex key) key := by
  have lookup : (store.shards (getShardIndex key)).data.lookup key = some obj := found
  simp only [del, lookup]
  split
  next => rfl
  next => rfl

theorem WellFormed.loses_del {store : Store} (wellFormed : store.WellFormed) {key : Key}
    {obj : Obj} (found : store.peek key = some obj) (clock : Clock) :
    store.Loses [key] (store.del key clock).1 := by
  rw [del_of_peek found]
  refine ⟨wellFormed.remove _ _, ?_, List.nodup_singleton key, ?_, wellFormed.keyCount_remove found⟩
  · rintro other (_ | ⟨_, impossible⟩)
    · exact ⟨obj, found⟩
    · cases impossible
  · intro other
    rw [peek_remove]
    simp only [List.mem_singleton]

/-- Some keys are removed and then others. -/
theorem Loses.trans {before middle after : Store} {keys more : List Key}
    (start : before.Loses keys middle) (next : middle.Loses more after) :
    before.Loses (keys ++ more) after := by
  have kept : ∀ key ∈ more, key ∉ keys ∧ ∃ obj, before.peek key = some obj := by
    intro key membership
    obtain ⟨obj, found⟩ := next.stored key membership
    rw [start.peek] at found
    split at found
    next => cases found
    next notRemoved => exact ⟨notRemoved, obj, found⟩
  refine ⟨next.wellFormed, ?_, ?_, ?_, ?_⟩
  · intro key membership
    rcases List.mem_append.mp membership with first | second
    · exact start.stored key first
    · exact (kept key second).2
  · apply start.distinct.append next.distinct
    intro key first second
    exact (kept key second).1 first
  · intro key
    rw [next.peek, start.peek]
    by_cases first : key ∈ keys <;> by_cases second : key ∈ more <;> simp [first, second]
  · have firstCount := start.count
    have secondCount := next.count
    rw [List.length_append]
    omega

end Store

namespace Executor

variable [GoTables] {world : World}

/-- Rounds of eviction remove the keys that they evict, and nothing else. -/
theorem Evicts.loses {journaled : Bool} {before after : Executor} {keys : List Key}
    (evicts : Evicts world journaled before keys after) (wellFormed : before.store.WellFormed) :
    before.store.Loses keys after.store := by
  induction evicts with
  | done journaled executor => exact wellFormed.loses_nil
  | @journaled executor appended after key keys batch full chosen append rest inductionHypothesis =>
      obtain ⟨obj, found⟩ := wellFormed.lruVictim_stored chosen
      have first : executor.store.Loses [key] (appended.dropJournaled world key).store := by
        change executor.store.Loses [key] (appended.store.del key _).1
        rw [(appendBatch_sameData append).store]
        exact wellFormed.loses_del found _
      exact first.trans (inductionHypothesis first.wellFormed)
  | @plain executor after key keys full chosen rest inductionHypothesis =>
      obtain ⟨obj, found⟩ := wellFormed.lruVictim_stored chosen
      have first : executor.store.Loses [key] (executor.drop world key).store :=
        wellFormed.loses_del found _
      exact first.trans (inductionHypothesis first.wellFormed)

/-- What is evicted is recorded, in order. -/
theorem Evicts.grows (rollsBack : world.RollsBack) {before after : Executor} {keys : List Key}
    (evicts : Evicts world true before keys after) (ready : before.Ready) :
    before.log.Grows (keys.map delCommand) after.log ∧ after.Ready := by
  generalize same : true = journaled at evicts
  induction evicts with
  | done journaled executor => exact ⟨.of_eq rfl rfl, ready⟩
  | @journaled executor appended after key keys batch full chosen append rest inductionHypothesis =>
      have waited : Follows world executor [] (executor.wait 1) := follows_wait ready 1
      have deletes : (executor.wait 1).appendBatch world ([key].map delCommand) =
          (appended, .ok batch) := append
      have journals := journals_delCommands rollsBack (waited.ready ready) deletes
      have evicted := follows_evict rollsBack (waited.ready ready) key
      rw [evict, append] at evicted
      obtain ⟨steps, follows⟩ := evicted
      obtain ⟨grows, afterReady⟩ := inductionHypothesis (follows.ready (waited.ready ready)) rfl
      exact ⟨(waited.log.trans journals.log).trans grows, afterReady⟩
  | plain => cases same

/-! ## The loop ends -/

/-- How the loop of `admit` ends when it may evict: memory is no longer full, or
the deletion of the next key could not be journaled. -/
inductive Admits (world : World) (journaled : Bool) (before : Executor) (keys : List Key) :
    Executor × Except Bytes Bool → Prop where
  | fits {after : Executor} (evicts : Evicts world journaled before keys after)
      (fits : after.store.usedMemory ≤ before.maxMemory) :
      Admits world journaled before keys (after, .ok true)
  | failed {middle after : Executor} {key : Key} {error : Bytes} (installed : journaled = true)
      (evicts : Evicts world journaled before keys middle)
      (full : middle.store.usedMemory > middle.maxMemory)
      (chosen : middle.store.lruVictim (world.draws middle.tick) = some key)
      (append : (middle.wait 1).appendBatch world [delCommand key] = (after, .error error))
      (kept : ∃ obj, after.store.peek key = some obj) :
      Admits world journaled before keys (after, .error (wrapError "persist eviction: " error))

/-- A round before the others. -/
theorem Admits.journaled {executor appended : Executor} {key : Key} {keys : List Key}
    {batch : List Persisted} {outcome : Executor × Except Bytes Bool}
    (full : executor.store.usedMemory > executor.maxMemory)
    (chosen : executor.store.lruVictim (world.draws executor.tick) = some key)
    (append : (executor.wait 1).appendBatch world [delCommand key] = (appended, .ok batch))
    (rest : Admits world true (appended.dropJournaled world key) keys outcome) :
    Admits world true executor (key :: keys) outcome := by
  cases rest with
  | fits evicts fits =>
      have same : appended.maxMemory = executor.maxMemory := (appendBatch_sameData append).maxMemory
      exact .fits (.journaled full chosen append evicts) (fits.trans_eq same)
  | failed installed evicts laterFull laterChosen laterAppend kept =>
      exact .failed rfl (.journaled full chosen append evicts) laterFull laterChosen laterAppend
        kept

theorem Admits.plain {executor : Executor} {key : Key} {keys : List Key}
    {outcome : Executor × Except Bytes Bool}
    (full : executor.store.usedMemory > executor.maxMemory)
    (chosen : executor.store.lruVictim (world.draws executor.tick) = some key)
    (rest : Admits world false (executor.drop world key) keys outcome) :
    Admits world false executor (key :: keys) outcome := by
  cases rest with
  | fits evicts fits => exact .fits (.plain full chosen evicts) fits
  | failed installed => cases installed

omit [GoTables] in
/-- A full store holds a key. -/
theorem keyCount_pos_of_full {store : Store} (wellFormed : store.WellFormed) {maxMemory : Int}
    (limited : 0 < maxMemory) (full : store.usedMemory > maxMemory) : store.keyCount ≠ 0 := by
  intro empty
  have unused : store.usedMemory = 0 := wellFormed.usedBytes_eq_zero empty
  omega

theorem admits_admitLoop {journaled : Bool} {rounds : Nat} {executor : Executor}
    (wellFormed : executor.store.WellFormed) (limited : 0 < executor.maxMemory)
    (lru : executor.evictLRU = true) (enough : executor.store.keyCount < rounds) :
    ∃ keys, Admits world journaled executor keys (admitLoop world journaled rounds executor) := by
  induction rounds generalizing executor with
  | zero => omega
  | succ rounds inductionHypothesis =>
      rw [admitLoop]
      split
      next fits => exact ⟨[], .fits (.done journaled executor) (not_lt.mp fits)⟩
      next full =>
        rw [not_not] at full
        rw [if_neg (by rw [lru]; decide)]
        obtain ⟨key, chosen⟩ := Store.lruVictim_isSome (world.draws executor.tick)
          (keyCount_pos_of_full wellFormed limited full)
        obtain ⟨obj, found⟩ := wellFormed.lruVictim_stored chosen
        simp only [chosen]
        cases journaled with
        | true =>
            simp only [evictWith, evict]
            rcases append : (executor.wait 1).appendBatch world [delCommand key] with
              ⟨appended, error | batch⟩
            · refine ⟨[], .failed rfl (.done true executor) full chosen append ⟨obj, ?_⟩⟩
              rw [(appendBatch_sameData append).store]
              exact found
            · have same := appendBatch_sameData append
              have first : executor.store.Loses [key] (appended.dropJournaled world key).store := by
                change executor.store.Loses [key] (appended.store.del key _).1
                rw [same.store]
                exact wellFormed.loses_del found _
              have shrunk := first.count
              rw [List.length_singleton] at shrunk
              obtain ⟨keys, rest⟩ := inductionHypothesis first.wellFormed
                (show 0 < appended.maxMemory from same.maxMemory ▸ limited)
                (show appended.evictLRU = true from same.evictLRU.trans lru) (by omega)
              exact ⟨key :: keys, .journaled full chosen append rest⟩
        | false =>
            have first : executor.store.Loses [key] (executor.drop world key).store :=
              wellFormed.loses_del found _
            have shrunk := first.count
            rw [List.length_singleton] at shrunk
            obtain ⟨keys, rest⟩ := inductionHypothesis first.wellFormed
              (show 0 < executor.maxMemory from limited) (show executor.evictLRU = true from lru)
              (by omega)
            exact ⟨key :: keys, .plain full chosen rest⟩

/-- What the loop does to the store and to the log, however it ends. -/
theorem Admits.loses {journaled : Bool} {executor : Executor} {keys : List Key}
    {outcome : Executor × Except Bytes Bool} (admits : Admits world journaled executor keys outcome)
    (wellFormed : executor.store.WellFormed) : executor.store.Loses keys outcome.1.store := by
  cases admits with
  | fits evicts _ => exact evicts.loses wellFormed
  | failed _ evicts _ _ append _ =>
      rw [(appendBatch_sameData append).store]
      exact evicts.loses wellFormed

theorem Admits.grows (rollsBack : world.RollsBack) {executor : Executor} {keys : List Key}
    {outcome : Executor × Except Bytes Bool} (admits : Admits world true executor keys outcome)
    (ready : executor.Ready) : executor.log.Grows (keys.map delCommand) outcome.1.log := by
  cases admits with
  | fits evicts _ => exact (evicts.grows rollsBack ready).1
  | @failed middle after key error _ evicts _ _ append _ =>
      obtain ⟨grows, middleReady⟩ := evicts.grows rollsBack ready
      have waited : Follows world middle [] (middle.wait 1) := follows_wait middleReady 1
      have refused := follows_of_error rollsBack (waited.ready middleReady) append
      have whole := grows.trans (waited.log.trans refused.log)
      rwa [List.map_nil, List.append_nil, List.append_nil] at whole

variable (world) in
/-- Without a limit, or for a command that does not need memory, nothing is
checked. -/
theorem admitWith_of_free (journaled : Bool) {executor : Executor} {command : Command}
    (free : executor.maxMemory ≤ 0 ∨ growsMemory command.name = false) :
    executor.admitWith world journaled command = (executor, .ok true) := by
  rw [admitWith, if_pos free]

variable (world) in
theorem admits_admitWith (journaled : Bool) {executor : Executor} {command : Command}
    (wellFormed : executor.store.WellFormed)
    (applies : ¬ (executor.maxMemory ≤ 0 ∨ growsMemory command.name = false))
    (lru : executor.evictLRU = true) :
    ∃ keys, Admits world journaled executor keys (executor.admitWith world journaled command) := by
  have limited : 0 < executor.maxMemory := not_le.mp fun unlimited => applies (.inl unlimited)
  rw [admitWith, if_neg applies]
  exact admits_admitLoop wellFormed limited lru (Nat.lt_succ_self _)

variable (world) in
theorem admitWith_of_noEviction (journaled : Bool) {executor : Executor} {command : Command}
    (applies : ¬ (executor.maxMemory ≤ 0 ∨ growsMemory command.name = false))
    (noEviction : executor.evictLRU = false) :
    executor.admitWith world journaled command =
      (executor, .ok (decide (executor.store.usedMemory ≤ executor.maxMemory))) := by
  have refuses : (!executor.evictLRU) = true := by rw [noEviction]; rfl
  rw [admitWith, if_neg applies, admitLoop]
  by_cases fits : executor.store.usedMemory ≤ executor.maxMemory
  · rw [decide_eq_true fits, if_pos (not_lt.mpr fits)]
  · rw [decide_eq_false fits, if_neg (not_not.mpr (not_le.mp fits)), if_pos refuses]

/-- `admit` on a reachable store, when the command is subject to a limit.  With
eviction it removes the keys whose deletions it appends until the limit is kept
or an append fails.  Without eviction it changes nothing and refuses a command
when memory is full. -/
theorem admitWith_reaches_limit (world : World) (journaled : Bool) {executor : Executor}
    {history : List (Operation × Clock)} (reachable : executor.store = Store.run history)
    (limited : 0 < executor.maxMemory) {command : Command}
    (grows : growsMemory command.name = true) :
    (executor.evictLRU = true → ∃ keys,
      Admits world journaled executor keys (executor.admitWith world journaled command) ∧
        executor.store.Loses keys (executor.admitWith world journaled command).1.store ∧
        (journaled = true → world.RollsBack → executor.log.file.buffered = [] →
          executor.log.Grows (keys.map delCommand)
            (executor.admitWith world journaled command).1.log)) ∧
      (executor.evictLRU = false →
        executor.admitWith world journaled command =
          (executor, .ok (decide (executor.store.usedMemory ≤ executor.maxMemory)))) := by
  have wellFormed : executor.store.WellFormed := by
    rw [reachable]
    exact Store.foldl_wellFormed history Store.new_wellFormed
  have applies : ¬ (executor.maxMemory ≤ 0 ∨ growsMemory command.name = false) := by
    rintro (unlimited | exempt)
    · omega
    · rw [grows] at exempt
      cases exempt
  refine ⟨?_, admitWith_of_noEviction world journaled applies⟩
  intro lru
  obtain ⟨keys, admits⟩ := admits_admitWith world journaled wellFormed applies lru
  refine ⟨keys, admits, admits.loses wellFormed, ?_⟩
  rintro rfl rollsBack flushed
  exact admits.grows rollsBack ⟨wellFormed, flushed⟩

end Executor

section

attribute [local instance] GoTables.ascii

/-- A store with one key that is too large already. -/
theorem Executor.admitWith_reaches_limit_single :
    let world := World.still ⟨5, by decide⟩
    let executor : Executor := { Executor.new .always 100 true with
      store := Store.run [(.call (.set [97] [] 0), ⟨1, by decide⟩)] }
    let command : Command := ⟨bytes "SET", [bytes "b", bytes "1"]⟩
    executor.store.usedMemory = 193 ∧ ∃ keys,
      Admits world true executor keys (executor.admitWith world true command) ∧
        executor.store.Loses keys (executor.admitWith world true command).1.store ∧
        (true = true → world.RollsBack → executor.log.file.buffered = [] →
          executor.log.Grows (keys.map delCommand)
            (executor.admitWith world true command).1.log) :=
  ⟨by decide +kernel,
    (admitWith_reaches_limit (World.still ⟨5, by decide⟩) true rfl (by decide) rfl).1 rfl⟩

end

end Carrot
