import Carrot.Executor.ExpiryTrace
import Carrot.Storage.ExpiryCycle

/-!
# A pass of active expiry

Without clients in between, the program of the pass does what the pass of the
store does at once, so that a pass without a journal deletes all expired keys of
a small store.
-/

namespace Carrot

/-- What the rounds of a pass are told, from a tick on. -/
def World.expireRounds (world : World) (tick : Nat) : Nat → Store.ExpireRound := fun iteration =>
  { checked := world.clock (tick + 4 * iteration)
    sampled := world.clock (tick + 4 * iteration + 1)
    draws := world.draws (tick + 4 * iteration + 2)
    deleted := world.clock (tick + 4 * iteration + 3) }

namespace ActiveExpire

section

variable [GoTables] {world : World}

theorem sampleLoop_alone (draws : Draws) (limit : Int) (now : Clock)
    (remaining step sampled : Nat) (expired : List Key) (state : ExpiryState) :
    (sampleLoop draws limit now remaining step sampled expired).run (ExpiryState.answer world)
        state =
      (state.setStore (Store.sampleLoop draws limit now.now remaining step state.executor.store
        sampled expired).1,
        (Store.sampleLoop draws limit now.now remaining step state.executor.store sampled
          expired).2) := by
  induction remaining generalizing step sampled expired state with
  | zero => rfl
  | succ remaining inductionHypothesis =>
      rw [sampleLoop, Store.sampleLoop]
      split
      next => rfl
      next =>
        rw [Program.run_call]
        simp only [ExpiryState.answer, ExpiryState.sampleShard]
        by_cases empty : (state.executor.store.shards (draws.shard step)).volatile.size = 0
        · simp only [if_pos empty]
          rw [List.append_nil]
          exact inductionHypothesis _ _ _ _
        · simp only [if_neg empty]
          exact inductionHypothesis _ _ _ _

theorem sampleExpired_alone (limit : Int) (state : ExpiryState) :
    (sampleExpired limit).run (ExpiryState.answer world) state =
      (state.wait.wait.setStore (state.executor.store.sampleExpired limit
        (world.draws (state.executor.tick + 1)) (state.executor.now world)).1,
        (state.executor.store.sampleExpired limit (world.draws (state.executor.tick + 1))
          (state.executor.now world)).2) :=
  sampleLoop_alone _ limit _ numShards 0 0 [] state.wait.wait

theorem deleteLoop_alone (now : Clock) (keys : List Key) (count : Int) (state : ExpiryState) :
    (deleteLoop now keys count).run (ExpiryState.answer world) state =
      (state.setStore (keys.foldl (Store.deleteCandidate now.now)
        (state.executor.store, count)).1,
        (keys.foldl (Store.deleteCandidate now.now) (state.executor.store, count)).2) := by
  induction keys generalizing count state with
  | nil => rfl
  | cons key keys inductionHypothesis =>
      rw [deleteLoop, Program.run_call, List.foldl_cons]
      simp only [ExpiryState.answer, ExpiryState.deleteCandidate, Store.deleteCandidate]
      split
      next => exact inductionHypothesis _ _
      next => exact inductionHypothesis _ _

theorem deleteExpired_alone (keys : List Key) (state : ExpiryState) :
    (deleteExpired keys).run (ExpiryState.answer world) state =
      (state.wait.setStore (state.executor.store.deleteExpired keys
        (state.executor.now world)).1,
        (state.executor.store.deleteExpired keys (state.executor.now world)).2) :=
  deleteLoop_alone _ keys 0 state.wait

theorem filterLoop_alone (now : Clock) (keys out : List Key) (state : ExpiryState) :
    (filterLoop now keys out).run (ExpiryState.answer world) state =
      (state, out ++ keys.filter (state.executor.store.holdsExpired · now.now)) := by
  induction keys generalizing out with
  | nil =>
      rw [List.filter_nil, List.append_nil]
      rfl
  | cons key keys inductionHypothesis =>
      rw [filterLoop, Program.run_call, List.filter_cons]
      refine (inductionHypothesis _).trans ?_
      change (state, (if state.executor.store.holdsExpired key now.now = true then _ else _) ++ _) =
        _
      split
      next => rw [List.append_assoc, List.singleton_append]
      next => rfl

theorem filterExpired_alone (keys : List Key) (state : ExpiryState) :
    (filterExpired keys).run (ExpiryState.answer world) state =
      (state.wait, state.executor.store.filterExpired keys (state.executor.now world)) :=
  filterLoop_alone _ keys [] state.wait

/-- How a pass without a journal removes a batch. -/
def directly (_ : Unit) (store : Store) (keys : List Key) (clock : Clock) :
    Unit × Store × Int × Bool :=
  ((), (store.deleteExpired keys clock).1, (store.deleteExpired keys clock).2, false)

theorem removeBatch_alone (expired : List Key) (state : ExpiryState) :
    (removeBatch none expired).run (ExpiryState.answer world) state =
      if expired.length > 0 then
        (state.wait.setStore (state.executor.store.deleteExpired expired
          (state.executor.now world)).1,
          (state.executor.store.deleteExpired expired (state.executor.now world)).2, none)
      else (state, 0, none) := by
  rw [removeBatch]
  split
  next =>
    rw [Program.run_bind]
    simp only [deleteExpired_alone]
    rfl
  next => rfl

theorem cycleLoop_alone (started : Clock) (tick remaining iteration : Nat) (total : Int)
    (state : ExpiryState) (reached : state.executor.tick = tick + 4 * iteration) :
    ((cycleLoop none started remaining total).run (ExpiryState.answer world) state).map
        (fun after => after.executor.store) id =
      (Store.activeExpireCycleWith started (world.expireRounds tick) directly remaining iteration
        () state.executor.store total).2 := by
  induction remaining generalizing iteration total state with
  | zero => rfl
  | succ remaining inductionHypothesis =>
      have round : world.expireRounds tick iteration =
          { checked := state.executor.now world
            sampled := state.wait.executor.now world
            draws := world.draws (state.wait.executor.tick + 1)
            deleted := state.wait.wait.wait.executor.now world } := by
        simp only [World.expireRounds, ExpiryState.wait, Executor.wait, Executor.now, reached]
      rw [cycleLoop, Program.run_call, Store.activeExpireCycleWith_succ, round]
      change Prod.map _ id (Program.run _ (if (state.executor.now world).now - started.now ≥
        25 * Time.millisecond then _ else _) state.wait) = _
      by_cases late : (state.executor.now world).now - started.now ≥ 25 * Time.millisecond
      · rw [if_pos late, if_pos late]
        rfl
      rw [if_neg late, if_neg late, Program.run_bind, sampleExpired_alone]
      dsimp only
      have sameStore : state.wait.executor.store = state.executor.store := rfl
      rw [sameStore]
      generalize state.executor.store.sampleExpired 20 (world.draws (state.wait.executor.tick + 1))
        (state.wait.executor.now world) = sample
      by_cases nothing : sample.2.1 = 0
      · rw [if_pos nothing, if_pos nothing]
        rfl
      rw [if_neg nothing, if_neg nothing, Program.run_bind, removeBatch_alone]
      by_cases found : sample.2.2.length > 0
      · rw [if_pos found, if_pos found]
        by_cases few : 4 * sample.2.2.length ≤ sample.2.1
        · simp only [directly, if_pos few]
          rfl
        · simp only [directly, if_neg few]
          exact inductionHypothesis (iteration + 1) _ _ (by
            change state.executor.tick + 1 + 1 + 1 + 1 = _
            rw [reached]
            ring)
      · have few : 4 * sample.2.2.length ≤ sample.2.1 := by omega
        rw [if_neg found, if_neg found]
        simp only [if_pos few]
        rfl

variable (world) in
/-- Without clients, a pass without a journal is the pass of the store. -/
theorem activeExpireCycleWith_alone (state : ExpiryState) :
    ((activeExpireCycleWith none).run (ExpiryState.answer world) state).map
        (fun after => after.executor.store) id =
      state.executor.store.activeExpireCycle (state.executor.now world)
        (world.expireRounds (state.executor.tick + 1)) :=
  cycleLoop_alone _ (state.executor.tick + 1) 16 0 0 state.wait rfl

/-- The result of the removal of a batch as the code returns it. -/
def returned : Except Bytes Int → Int × Option Bytes
  | .ok deleted => (deleted, none)
  | .error error => (0, some error)

/-- Without clients, a batch is journaled and deleted as under the mutation lock,
where `applied` is recorded in addition. -/
theorem journalAndDeleteExpired_alone (candidates : List Key) (executor : Executor) :
    ∃ applied, (journalAndDeleteExpired candidates).run (ExpiryState.answer world)
        ⟨executor, true⟩ =
      (⟨{ (executor.journalAndDeleteExpired world candidates).1 with applied }, true⟩,
        returned (executor.journalAndDeleteExpired world candidates).2) := by
  have installed : (journalAndDeleteExpired candidates).run (ExpiryState.answer world)
      ⟨executor, true⟩ = Program.run (ExpiryState.answer world) ((filterExpired candidates).bind _)
        ⟨executor, true⟩ := rfl
  rw [installed, Program.run_bind, filterExpired_alone, Executor.journalAndDeleteExpired]
  dsimp only
  generalize executor.store.filterExpired candidates (executor.now world) = expired
  by_cases empty : expired.length = 0
  · rw [if_pos empty, if_pos empty]
    exact ⟨executor.applied, rfl⟩
  rw [if_neg empty, if_neg empty, Program.run_call]
  simp only [ExpiryState.answer, ExpiryState.append, ExpiryState.wait]
  generalize (executor.wait 1).appendBatch world (expired.map delCommand) = appended
  obtain ⟨middle, result⟩ := appended
  cases result with
  | error error => exact ⟨middle.applied, rfl⟩
  | ok persisted =>
      simp only [Program.run_bind, deleteExpired_alone]
      exact ⟨middle.applied, rfl⟩

/-- Without clients and a journal, all expired keys of a small store are deleted. -/
theorem activeExpireCycleWith_removes {state after : ExpiryState}
    (wellFormed : state.executor.store.WellFormed)
    (few : {key | state.executor.store.HasDeadline key}.encard ≤ 20)
    (spread : ∀ shard, {key | state.executor.store.HasDeadline key ∧
      getShardIndex key = shard}.encard ≤ 5)
    (budget : (world.clock (state.executor.tick + 1)).now - (state.executor.now world).now <
      25 * Time.millisecond)
    {made : List MadeExpiryCall} {total : Int}
    (runs : (activeExpireCycleWith none).RunsAmong world Eq state made total after) {key : Key}
    (dead : state.executor.store.holdsExpired key (state.executor.now world).now = true) :
    after.executor.store.peek key = none := by
  have alone := activeExpireCycleWith_alone world state
  rw [runs.alone] at alone
  have sameStore : after.executor.store = (state.executor.store.activeExpireCycle
      (state.executor.now world) (world.expireRounds (state.executor.tick + 1))).1 :=
    congrArg Prod.fst alone
  rw [sameStore]
  apply wellFormed.activeExpireCycle_removes few spread
  · exact budget
  · apply world.monotone
    omega
  · apply world.monotone
    omega
  · exact dead

/-- A batch that was appended was put into the log. -/
theorem appended_of_appends {call : MadeExpiryCall}
    (answered : call.result = (call.before.answer world call.request).2) {key : Key}
    (appending : key ∈ appends call) :
    ∃ before keys executor persisted, call = ⟨Option Bytes, before, .append keys, none⟩ ∧
      before.executor.appendBatch world (keys.map delCommand) = (executor, .ok persisted) := by
  obtain ⟨Result, before, request, result⟩ := call
  cases request with
  | append keys =>
      cases result with
      | some error => cases appending
      | none =>
          cases outcome : before.executor.appendBatch world (keys.map delCommand) with
          | mk executor result =>
              cases result with
              | ok persisted => exact ⟨before, keys, executor, persisted, rfl, outcome⟩
              | error error =>
                  change none = (before.append world keys).2 at answered
                  rw [ExpiryState.append, outcome] at answered
                  cases answered
  | _ => cases appending

/-- Whatever the clients do between any two of its steps, a pass deletes keys that
are expired when they are deleted and returns how many these are.  With a journal,
their deletions are in the log before, and nothing is deleted after an append that
fails.  Without clients and a journal, a pass over a small store deletes all keys
that were expired when it started. -/
theorem pass_removes_expired (world : World) (journaled : Bool)
    (others : ExpiryState → ExpiryState → Prop)
    (advances : ∀ {before after}, others before after →
      before.executor.tick ≤ after.executor.tick)
    (state : ExpiryState) :
    ((∀ state, ∃ before, others state before) → ∃ made total after,
      (activeExpireCycleWith (if journaled then some journalAndDeleteExpired else none)).RunsAmong
        world others state made total after) ∧
    (∀ made total after,
      (activeExpireCycleWith (if journaled then some journalAndDeleteExpired else none)).RunsAmong
        world others state made total after →
      (∀ call ∈ made,
        (∀ key, deletes call = some key →
          call.before.executor.store.holdsExpired key (call.before.executor.now world).now =
            true) ∧
        ∀ key, (call.before.answer world call.request).1.executor.store.peek key =
          if deletes call = some key then none else call.before.executor.store.peek key) ∧
      total = (deletions made).length ∧
      (journaled = true → (∀ call ∈ made, missing call = false) →
        ∀ earlier call later key, made = earlier ++ call :: later → deletes call = some key →
          ∃ first before keys executor persisted between,
            earlier = first ++ ⟨Option Bytes, before, .append keys, none⟩ :: between ∧
            before.executor.appendBatch world (keys.map delCommand) = (executor, .ok persisted) ∧
            (deletions between ++ [key]).Sublist keys) ∧
      ∀ earlier before keys error later,
        made = earlier ++ ⟨Option Bytes, before, .append keys, some error⟩ :: later →
          deletions later = []) ∧
    ∀ history, state.executor.store = Store.run history →
      {key | state.executor.store.HasDeadline key}.encard ≤ 20 →
      (∀ shard, {key | state.executor.store.HasDeadline key ∧
        getShardIndex key = shard}.encard ≤ 5) →
      (world.clock (state.executor.tick + 1)).now - (state.executor.now world).now <
        25 * Time.millisecond →
      ∀ made total after,
        (activeExpireCycleWith none).RunsAmong world Eq state made total after →
        ∀ key, state.executor.store.holdsExpired key (state.executor.now world).now = true →
          after.executor.store.peek key = none := by
  refine ⟨fun moves => Program.exists_runs moves _ state, ?_, ?_⟩
  · intro made total after runs
    have answered := runs.answered
    obtain ⟨failed, safe⟩ := activeExpireCycleWith_safe advances runs
    refine ⟨fun call membership => ⟨safe.expired call membership, ?_⟩, safe.counted, ?_, ?_⟩
    · exact ExpiryState.answer_peek call (answered call membership)
    · intro isJournaled installed earlier call later key split deleted
      obtain ⟨first, append, between, rfl, among⟩ :=
        safe.recorded isJournaled installed earlier call later key split deleted
      have appending : key ∈ appends append :=
        among.subset (List.mem_append_right _ List.mem_cons_self)
      have membership : append ∈ made := by
        rw [split]
        simp
      obtain ⟨before, keys, executor, persisted, rfl, outcome⟩ :=
        appended_of_appends (answered append membership) appending
      exact ⟨first, before, keys, executor, persisted, between, rfl, outcome, among⟩
    · intro earlier before keys error later split
      exact safe.stops earlier _ later split rfl
  · intro history reachable few spread budget made total after runs key dead
    have wellFormed : state.executor.store.WellFormed := by
      rw [reachable]
      exact Store.foldl_wellFormed history Store.new_wellFormed
    exact activeExpireCycleWith_removes wellFormed few spread budget runs dead

end

section

attribute [local instance] GoTables.ascii

/-- A store whose only key is expired.  A pass deletes the key with and without a
journal. -/
theorem pass_removes_expired_single :
    let world := World.still ⟨5, by decide⟩
    let store := Store.run [(.call (.set [107] [] 1), ⟨1, by decide⟩)]
    let state : ExpiryState := ⟨{ Executor.new .always 0 false with store }, true⟩
    (∃ made after, (activeExpireCycleWith (some journalAndDeleteExpired)).RunsAmong world Eq state
      made 1 after ∧ (deletions made).length = 1) ∧
    ∃ made after, (activeExpireCycleWith none).RunsAmong world Eq state made 1 after ∧
      after.executor.store.peek [107] = none := by
  intro world store state
  have advances : ∀ {before after : ExpiryState}, before = after →
      before.executor.tick ≤ after.executor.tick := by
    rintro before _ rfl
    exact Nat.le_refl _
  have alone : ∀ state : ExpiryState, ∃ before, state = before := fun state => ⟨state, rfl⟩
  have only : ∀ key, store.HasDeadline key → key = [107] := by
    rintro key ⟨obj, stored, -⟩
    change ((Store.new.put (getShardIndex [107]) [107] _ _).volatileAdd _ _).peek key = some obj
      at stored
    rw [Store.peek_volatileAdd, Store.peek_put] at stored
    by_contra other
    rw [if_neg other] at stored
    cases stored
  have few : {key | store.HasDeadline key}.encard ≤ 1 :=
    (Set.encard_le_encard fun key deadline => only key deadline).trans
      (Set.encard_singleton [107]).le
  constructor
  · obtain ⟨exists_run, safe, -⟩ := pass_removes_expired world true Eq advances state
    obtain ⟨made, total, after, runs⟩ := exists_run alone
    have one : total = 1 := (congrArg Prod.snd runs.alone).symm.trans (by decide +kernel)
    subst one
    refine ⟨made, after, runs, ?_⟩
    have counted := (safe made 1 after runs).2.1
    exact_mod_cast counted.symm
  · obtain ⟨exists_run, safe, complete⟩ := pass_removes_expired world false Eq advances state
    obtain ⟨made, total, after, runs⟩ := exists_run alone
    have one : total = 1 := (congrArg Prod.snd runs.alone).symm.trans (by decide +kernel)
    subst one
    refine ⟨made, after, runs, complete _ rfl (few.trans (by norm_num)) (fun shard => ?_)
      (by decide) made 1 after runs [107] (by decide +kernel)⟩
    exact ((Set.encard_le_encard fun key both => both.1).trans few).trans (by norm_num)

end

end ActiveExpire

end Carrot
