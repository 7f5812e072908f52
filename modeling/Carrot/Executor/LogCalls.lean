import Carrot.Aof.Crash
import Carrot.Executor.Batch
import Carrot.Executor.Rewrite

/-!
# The calls of the executor to its log

Which calls an event makes to the log, in their order.  The executor applies
exactly the mutations whose appends succeed, whatever the disk does.
-/

namespace Carrot

/-- The position in the file can always be set. -/
def World.Repositions (world : World) : Prop :=
  ∀ tick, (world.disk tick).reposition = none

namespace Executor

section

variable [GoTables] (world : World)

/-! ## The calls -/

def admitLoopCalls : Nat → Executor → List LogCall
  | 0, _ => []
  | rounds + 1, executor =>
      if ¬ executor.store.usedMemory > executor.maxMemory then []
      else if !executor.evictLRU then []
      else
        match executor.store.lruVictim (world.draws executor.tick) with
        | none => []
        | some key =>
            (executor.wait 1).appendCalls world [delCommand key] ++
              match executor.evictWith world true key with
              | (_, some _) => []
              | (executor, none) => admitLoopCalls rounds executor

def admitCalls (executor : Executor) (command : Command) : List LogCall :=
  if executor.maxMemory ≤ 0 ∨ growsMemory command.name = false then []
  else admitLoopCalls world (executor.store.keyCount + 1) executor

def admitAllCalls (executor : Executor) : List Command → List LogCall
  | [] => []
  | command :: commands =>
      executor.admitCalls world command ++
        (executor.admitCommand world command).1.admitAllCalls commands

def commitCalls (executor : Executor) (batch : List Command) : List LogCall :=
  let (ready, admissions) := executor.admitAll world batch
  executor.admitAllCalls world batch ++
    if (admitted batch admissions).length > 0 then
      ready.appendCalls world (admitted batch admissions)
    else []

def expireCalls (executor : Executor) (candidates : List Key) : List LogCall :=
  let expired := executor.store.filterExpired candidates (executor.now world)
  if expired.length = 0 then []
  else (executor.wait 1).appendCalls world (expired.map delCommand)

def writeCalls (executor : Executor) : WriteEvent → List LogCall
  | .commit batch => executor.commitCalls world batch
  | .expire candidates => executor.expireCalls world candidates
  | .read _ _ => []

omit [GoTables] in
def startCalls (executor : Executor) (prepare : Option Bytes) (arrange : List Key → List Key) :
    List LogCall :=
  if executor.rewriteStatus = .running then []
  else [.startRewrite prepare (executor.store.snapshotEntries (executor.now world) arrange)]

omit [GoTables] in
def finishCalls (executor : Executor) (disk : Log.CompleteDisk) : List LogCall :=
  match executor.log.rewrite.bind RewriteJob.ready with
  | none => []
  | some (some cause) => [.background (.abortRewrite disk.cleanup cause)]
  | some none => [.completeRewrite disk]

/-- The calls of one event. -/
def stepCalls (executor : Executor) : Event → List LogCall
  | .write event => executor.writeCalls world event
  | .startRewrite prepare arrange _ => executor.startCalls world prepare arrange
  | .finishRewrite disk => executor.finishCalls disk
  | .background action => [.background action]

/-- The calls of a run. -/
def runCalls (executor : Executor) : List Event → List LogCall
  | [] => []
  | event :: events =>
      executor.stepCalls world event ++ (executor.step world event).runCalls events

end

/-! ## Journaling -/

/-- Some calls have been made and nothing has been applied yet. -/
structure Journaled (world : World) (before : Executor) (calls : List LogCall)
    (commands : List Command) (after : Executor) : Prop where
  ordered : before.tick ≤ after.tick
  store : after.store = before.store
  applied : after.applied = before.applied
  log : after.log = calls.foldl Log.perform before.log
  committed : before.log.committed calls = commands
  ordinary : world.Repositions → ∀ call ∈ calls, call.Ordinary

variable {world : World} {before between after executor : Executor}

theorem Journaled.trans {first second : List LogCall} {earlier later : List Command}
    (start : Journaled world before first earlier between)
    (next : Journaled world between second later after) :
    Journaled world before (first ++ second) (earlier ++ later) after where
  ordered := Nat.le_trans start.ordered next.ordered
  store := next.store.trans start.store
  applied := next.applied.trans start.applied
  log := by rw [next.log, start.log, List.foldl_append]
  committed := by rw [Log.committed_append, start.committed, ← start.log, next.committed]
  ordinary repositions call membership := by
    rcases List.mem_append.mp membership with inside | inside
    · exact start.ordinary repositions call inside
    · exact next.ordinary repositions call inside

theorem journaled_background (executor : Executor) (action : Background) :
    Journaled world executor [.background action] [] (executor.background action) := by
  cases action <;>
    exact ⟨Nat.le_refl _, rfl, rfl, rfl, rfl, by simp [LogCall.Ordinary]⟩

theorem journaled_backgrounds (executor : Executor) (actions : List Background) :
    Journaled world executor (actions.map .background) []
      (actions.foldl background executor) := by
  induction actions generalizing executor with
  | nil => exact ⟨Nat.le_refl _, rfl, rfl, rfl, rfl, by simp⟩
  | cons action actions inductionHypothesis =>
      exact (journaled_background executor action).trans (inductionHypothesis _)

variable [GoTables]

/-- An append that succeeds commits what has records of its commands. -/
theorem journaled_appendBatch {commands : List Command} {outcome : Except Bytes (List Persisted)}
    (appended : executor.appendBatch world commands = (after, outcome)) :
    (∃ error, outcome = .error error ∧
        Journaled world executor (executor.appendCalls world commands) [] after) ∨
      outcome = .ok (persistAll world executor.tick commands) ∧
        Journaled world executor (executor.appendCalls world commands)
          (recorded (persistAll world executor.tick commands)) after := by
  have quiet : Journaled world _ _ [] _ := journaled_backgrounds (executor.wait commands.length)
    (world.background (executor.wait commands.length).tick)
  have tick := (backgrounds_frame (executor.wait commands.length)
    (world.background (executor.wait commands.length).tick)).2.1
  simp only [appendBatch] at appended
  generalize (world.background (executor.wait commands.length).tick).foldl background
    (executor.wait commands.length) = waited at quiet tick appended
  have calls : executor.appendCalls world commands =
      (world.background (executor.wait commands.length).tick).map .background ++
        [.append (world.disk waited.tick) (persistAll world executor.tick commands)] := by
    rw [tick]
    rfl
  have started : Journaled world executor
      ((world.background (executor.wait commands.length).tick).map .background) [] waited :=
    ⟨Nat.le_trans (Nat.le_add_right _ _) quiet.ordered, quiet.store, quiet.applied, quiet.log,
      quiet.committed, quiet.ordinary⟩
  rcases logged : waited.log.appendBatch (world.disk waited.tick)
    (persistAll world executor.tick commands) with ⟨log, error⟩
  have finished : Journaled world waited
      [.append (world.disk waited.tick) (persistAll world executor.tick commands)]
      (if error = none then recorded (persistAll world executor.tick commands) else [])
      ({ waited with log }.wait 1) := by
    refine ⟨Nat.le_add_right _ _, rfl, rfl, ?_, ?_, ?_⟩
    · exact (congrArg Prod.fst logged).symm
    · simp only [Log.committed, logged, List.append_nil]
    · intro repositions call membership
      rw [List.mem_singleton.mp membership]
      exact repositions _
  rw [logged] at appended
  rw [calls]
  cases error with
  | none =>
      cases appended
      exact .inr ⟨rfl, started.trans finished⟩
  | some error =>
      cases appended
      exact .inl ⟨error, rfl, started.trans finished⟩

/-! ## What is applied -/

/-- Some calls have been made, and the mutations that they commit have been
applied. -/
structure Acts (world : World) (before : Executor) (calls : List LogCall) (steps : List Step)
    (after : Executor) : Prop where
  tracks : Tracks (before.now world) before.store steps (after.now world) after.store
  applied : after.applied = before.applied ++ steps
  log : after.log = calls.foldl Log.perform before.log
  committed : before.log.committed calls = steps.map Step.command
  ordinary : world.Repositions → ∀ call ∈ calls, call.Ordinary

theorem Acts.trans {first second : List LogCall} {earlier later : List Step}
    (start : Acts world before first earlier between)
    (next : Acts world between second later after) :
    Acts world before (first ++ second) (earlier ++ later) after where
  tracks := start.tracks.trans next.tracks
  applied := by rw [next.applied, start.applied, List.append_assoc]
  log := by rw [next.log, start.log, List.foldl_append]
  committed := by
    rw [Log.committed_append, start.committed, ← start.log, next.committed, List.map_append]
  ordinary repositions call membership := by
    rcases List.mem_append.mp membership with inside | inside
    · exact start.ordinary repositions call inside
    · exact next.ordinary repositions call inside

theorem Acts.and_then {first second : List LogCall} {earlier : List Step}
    (start : Acts world before first earlier between)
    (next : ∃ steps, Acts world between second steps after) :
    ∃ steps, Acts world before (first ++ second) steps after := by
  obtain ⟨later, acts⟩ := next
  exact ⟨earlier ++ later, start.trans acts⟩

theorem Journaled.acts {calls : List LogCall} {commands : List Command}
    (journaled : Journaled world before calls commands between)
    (wellFormed : before.store.WellFormed) (applies : Applies world between commands after) :
    ∃ steps, Acts world before calls steps after := by
  obtain ⟨steps, rfl, tracks, applied, log⟩ := applies
  have waited : Tracks (before.now world) before.store [] (between.now world) between.store := by
    rw [journaled.store]
    exact .wait (now_le journaled.ordered) wellFormed
  exact ⟨steps, waited.trans tracks, by rw [applied, journaled.applied],
    log.trans journaled.log, journaled.committed, journaled.ordinary⟩

/-- Calls that commit nothing. -/
theorem Journaled.idle {calls : List LogCall} (journaled : Journaled world before calls [] after)
    (wellFormed : before.store.WellFormed) : Acts world before calls [] after where
  tracks := by
    rw [journaled.store]
    exact .wait (now_le journaled.ordered) wellFormed
  applied := by rw [journaled.applied, List.append_nil]
  log := journaled.log
  committed := journaled.committed
  ordinary := journaled.ordinary

section

variable (wellFormed : executor.store.WellFormed)

include wellFormed

theorem acts_wait (ticks : Nat) : Acts world executor [] [] (executor.wait ticks) :=
  Journaled.idle ⟨Nat.le_add_right _ _, rfl, rfl, rfl, rfl, by simp⟩ wellFormed

theorem acts_appendBatch_error {commands : List Command} {error : Bytes}
    (appended : executor.appendBatch world commands = (after, .error error)) :
    Acts world executor (executor.appendCalls world commands) [] after := by
  rcases journaled_appendBatch appended with ⟨_, _, journaled⟩ | ⟨impossible, _⟩
  · exact journaled.idle wellFormed
  · cases impossible

omit wellFormed in
theorem journaled_delCommands {keys : List Key} {batch : List Persisted}
    (appended : executor.appendBatch world (keys.map delCommand) = (after, .ok batch)) :
    Journaled world executor (executor.appendCalls world (keys.map delCommand))
      (keys.map delCommand) after := by
  rcases journaled_appendBatch appended with ⟨_, impossible, _⟩ | ⟨_, journaled⟩
  · cases impossible
  · rwa [recorded_delCommands] at journaled

theorem acts_evict (key : Key) :
    ∃ steps, Acts world executor (executor.appendCalls world [delCommand key]) steps
      (executor.evict world key).1 := by
  unfold evict
  split
  next failed => exact ⟨[], acts_appendBatch_error wellFormed failed⟩
  next between _ appended =>
    have deletes : executor.appendBatch world ([key].map delCommand) = (between, .ok _) := appended
    have journaled := journaled_delCommands deletes
    have stillWellFormed : between.store.WellFormed := by
      rw [journaled.store]
      exact wellFormed
    refine journaled.acts wellFormed ⟨[⟨between.now world, delCommand key⟩], rfl, ?_, rfl, rfl⟩
    have tracks := Tracks.execute stillWellFormed (world.monotone (Nat.le_succ between.tick))
      (delCommand_canonical key)
    rwa [execute_delCommand] at tracks

theorem acts_admitLoop (rounds : Nat) :
    ∃ steps, Acts world executor (admitLoopCalls world rounds executor) steps
      (admitLoop world true rounds executor).1 := by
  induction rounds generalizing executor with
  | zero => exact ⟨[], acts_wait wellFormed 0⟩
  | succ rounds inductionHypothesis =>
      unfold admitLoop admitLoopCalls
      split
      next => exact ⟨[], acts_wait wellFormed 0⟩
      next =>
        split
        next => exact ⟨[], acts_wait wellFormed 0⟩
        next =>
          have waited : Acts world executor [] [] (executor.wait 1) := acts_wait wellFormed 1
          cases executor.store.lruVictim (world.draws executor.tick) with
          | none => exact ⟨[], waited⟩
          | some key =>
              obtain ⟨steps, evicts⟩ := acts_evict waited.tracks.wellFormed key
              have evicted := waited.trans evicts
              dsimp only [evictWith]
              generalize (executor.wait 1).evict world key = outcome at evicted ⊢
              rcases outcome with ⟨next, _ | error⟩
              · exact evicted.and_then (inductionHypothesis evicted.tracks.wellFormed)
              · rw [List.append_nil]
                exact ⟨_, evicted⟩

theorem acts_admit (command : Command) :
    ∃ steps, Acts world executor (executor.admitCalls world command) steps
      (executor.admitCommand world command).1 := by
  unfold admitCommand admitWith admitCalls
  split
  next => exact ⟨[], acts_wait wellFormed 0⟩
  next => exact acts_admitLoop wellFormed _

theorem acts_admitAll (batch : List Command) :
    ∃ steps, Acts world executor (executor.admitAllCalls world batch) steps
      (executor.admitAll world batch).1 := by
  induction batch generalizing executor with
  | nil => exact ⟨[], acts_wait wellFormed 0⟩
  | cons command batch inductionHypothesis =>
      obtain ⟨steps, first⟩ := acts_admit wellFormed command
      exact first.and_then (inductionHypothesis first.tracks.wellFormed)

theorem acts_commitAdmitted (commands : List Command) :
    ∃ steps, Acts world executor
      (if commands.length > 0 then executor.appendCalls world commands else []) steps
      (executor.commitAdmitted world commands).1 := by
  unfold commitAdmitted appendAdmitted
  by_cases some : commands.length > 0
  · rw [if_pos some, if_pos some]
    split
    next failed => exact ⟨[], acts_appendBatch_error wellFormed failed⟩
    next between persisted appended =>
      rcases journaled_appendBatch appended with ⟨_, impossible, _⟩ | ⟨same, journaled⟩
      · cases impossible
      · cases same
        rw [if_neg (by rw [persistAll_length]; exact fun different => different rfl)]
        refine journaled.acts wellFormed (applies_applyAll ?_ (persistAll_sound world _ _))
        rw [journaled.store]
        exact wellFormed
  · rw [if_neg some, if_neg some]
    obtain rfl : commands = [] := by simpa using some
    exact ⟨[], acts_wait wellFormed 0⟩

theorem acts_commitMutationBatch (batch : List Command) :
    ∃ steps, Acts world executor (executor.commitCalls world batch) steps
      (executor.commitMutationBatch world batch).1 := by
  obtain ⟨steps, admits⟩ := acts_admitAll wellFormed batch
  exact admits.and_then (acts_commitAdmitted admits.tracks.wellFormed _)

theorem acts_journalAndDeleteExpired (candidates : List Key) :
    ∃ steps, Acts world executor (executor.expireCalls world candidates) steps
      (executor.journalAndDeleteExpired world candidates).1 := by
  have waited : Acts world executor [] [] (executor.wait 1) := acts_wait wellFormed 1
  simp only [journalAndDeleteExpired, expireCalls]
  split
  next => exact ⟨[], waited⟩
  next =>
    refine waited.and_then ?_
    split
    next failed => exact ⟨[], acts_appendBatch_error waited.tracks.wellFormed failed⟩
    next between _ appended =>
      have journaled := journaled_delCommands appended
      refine journaled.acts waited.tracks.wellFormed
        ⟨_, by rw [List.map_map]; rfl, .deleteExpired ?_ (world.monotone (Nat.le_succ _)) ?_, rfl,
          rfl⟩
      · rw [journaled.store]
        exact wellFormed
      · intro key membership
        rw [journaled.store]
        exact Store.view_of_holdsExpired (List.mem_filter.mp membership).2
          (now_le (Nat.le_trans (Nat.le_succ _) journaled.ordered))

/-- What clients and the expiry loop do is applied exactly if its records are
committed. -/
theorem acts_write (event : WriteEvent) :
    ∃ steps, Acts world executor (executor.writeCalls world event) steps
      (executor.write world event) := by
  cases event with
  | commit batch => exact acts_commitMutationBatch wellFormed batch
  | expire candidates => exact acts_journalAndDeleteExpired wellFormed candidates
  | read command reads =>
      refine ⟨[], ?_, (List.append_nil _).symm, rfl, rfl, by simp [writeCalls]⟩
      exact .reads wellFormed (world.monotone (Nat.le_succ _)) (reads_of_not_mutation reads)

end

end Executor

end Carrot
