import Carrot.Aof.Recoverable
import Carrot.Executor.LogCalls
import Carrot.Storage.Victim

/-!
# What the executor submits to its log

As long as all requests are within the default limit on requests, with arguments
of at most 1 MiB each and 2 MiB in all, and have fewer than 1024 arguments,
everything that is appended to the log can be recovered: the requests themselves,
the deletions of evicted and expired keys, and the snapshots of rewrites.
-/

namespace Carrot

section

variable [GoTables]

/-- Everything that a call hands to the log can be recovered. -/
def LogCall.Recoverable : LogCall → Prop
  | .append _ batch => ∀ command ∈ recorded batch, command.Recoverable
  | .startRewrite _ entries =>
      ∀ command ∈ entries.flatMap SnapshotEntry.commands, command.Recoverable
  | _ => True

/-- A command that is about to be applied: recoverable if it has a record, and
otherwise one that only reads. -/
def Persisted.Sized (persisted : Persisted) : Prop :=
  if persisted.valid then persisted.command.Recoverable
  else (execute persisted.command).Makes StoreCall.Reads ∧
    ∀ word ∈ persisted.command.args, ShortWord word

theorem Command.Modest.persist {command : Command} (modest : command.Modest) (now : Clock) :
    (persist command now).Sized := by
  unfold Carrot.persist
  split
  next canonical recorded => exact modest.recoverable recorded
  next rejected => exact ⟨reads_of_rejected rejected, modest.small.each⟩

theorem recoverable_of_sized {batch : List Persisted}
    (sized : ∀ persisted ∈ batch, persisted.Sized) :
    ∀ command ∈ recorded batch, command.Recoverable := by
  intro command membership
  obtain ⟨persisted, inside, rfl⟩ := List.mem_map.mp membership
  obtain ⟨listed, valid⟩ := List.mem_filter.mp inside
  have isSized := sized persisted listed
  rwa [Persisted.Sized, if_pos valid] at isSized

/-- A command that only reads. -/
theorem Store.Rebuilt.reads {store : Store} {clock : Clock} (rebuilt : store.Rebuilt clock)
    {command : Command} (reads : (Carrot.execute command).Makes StoreCall.Reads)
    (short : ∀ word ∈ command.args, ShortWord word) :
    (store.execute clock command).1.Rebuilt clock where
  wellFormed := (rebuilt.wellFormed.execute clock command).wellFormed
  aligned := by
    rw [rebuilt.wellFormed.execute_reads (le_refl clock) reads]
    exact rebuilt.aligned
  within := rebuilt.within.execute rebuilt.wellFormed shortWord_nil short

omit [GoTables] in
theorem Store.Rebuilt.deleteExpired {store : Store} {clock : Clock} (rebuilt : store.Rebuilt clock)
    (keys : List Key) : (store.deleteExpired keys clock).1.Rebuilt clock := by
  have expires := rebuilt.wellFormed.deleteExpired keys clock
  have same := expires.view_eq (le_refl clock)
  refine ⟨expires.wellFormed, ?_, fun key present => ?_, ?_⟩
  · rw [same]
    exact rebuilt.aligned
  · refine rebuilt.within.keys key fun absent => present ?_
    rcases expires.dropped key with unchanged | ⟨gone, -⟩
    · rw [unchanged, absent]
    · exact gone
  · rw [same]
    exact rebuilt.within.values

namespace Executor

structure Sized (world : World) (executor : Executor) : Prop where
  store : executor.store.Rebuilt (executor.now world)
  applied : ∀ step ∈ executor.applied, step.command.Recoverable

/-- The calls hand recoverable commands to the log, and lead to an executor
that goes on like that. -/
structure Tame (world : World) (calls : List LogCall) (after : Executor) : Prop where
  calls : ∀ call ∈ calls, call.Recoverable
  sized : after.Sized world

variable {world : World} {executor before between after : Executor}

theorem Sized.frame (sized : before.Sized world) (ordered : before.tick ≤ after.tick)
    (store : after.store = before.store) (applied : after.applied = before.applied) :
    after.Sized world where
  store := by
    rw [store]
    exact sized.store.later (now_le ordered)
  applied := by
    rw [applied]
    exact sized.applied

theorem Sized.wait (sized : executor.Sized world) (ticks : Nat) :
    (executor.wait ticks).Sized world :=
  sized.frame (Nat.le_add_right _ _) rfl rfl

theorem Sized.idle (sized : executor.Sized world) : Tame world [] executor :=
  ⟨by simp, sized⟩

theorem Tame.after_calls {first second : List LogCall}
    (earlier : ∀ call ∈ first, call.Recoverable) (tame : Tame world second after) :
    Tame world (first ++ second) after where
  calls call membership := by
    rcases List.mem_append.mp membership with inside | inside
    · exact earlier call inside
    · exact tame.calls call inside
  sized := tame.sized

theorem recoverable_appendCalls {commands : List Command}
    (recoverable : ∀ command ∈ recorded (persistAll world executor.tick commands),
      command.Recoverable) :
    ∀ call ∈ executor.appendCalls world commands, call.Recoverable := by
  intro call membership
  rcases List.mem_append.mp membership with inside | inside
  · obtain ⟨action, -, rfl⟩ := List.mem_map.mp inside
    cases action <;> trivial
  · rw [List.mem_singleton.mp inside]
    exact recoverable

theorem Sized.appendBatch (sized : executor.Sized world) {commands : List Command}
    (recoverable : ∀ command ∈ recorded (persistAll world executor.tick commands),
      command.Recoverable) {outcome : Except Bytes (List Persisted)}
    (appended : executor.appendBatch world commands = (after, outcome)) :
    Tame world (executor.appendCalls world commands) after := by
  refine ⟨recoverable_appendCalls recoverable, ?_⟩
  rcases journaled_appendBatch appended with ⟨_, _, journaled⟩ | ⟨_, journaled⟩
  · exact sized.frame journaled.ordered journaled.store journaled.applied
  · exact sized.frame journaled.ordered journaled.store journaled.applied

/-! ## The memory limit -/

theorem Sized.delete (sized : executor.Sized world) {key : Key} (short : ShortWord key) :
    Sized world
      (({ executor with
          store := (executor.store.del key (executor.now world)).1
          applied := executor.applied ++ [Step.mk (executor.now world) (delCommand key)] }).wait
        1) where
  store := by
    have deleted := sized.store.execute (recoverable_delCommand short)
    rw [execute_delCommand] at deleted
    exact deleted.later (world.monotone (Nat.le_succ _))
  applied step membership := by
    rcases List.mem_append.mp membership with inside | inside
    · exact sized.applied step inside
    · rw [List.mem_singleton.mp inside]
      exact recoverable_delCommand short

theorem Sized.evict (sized : executor.Sized world) {key : Key} (short : ShortWord key) :
    Tame world (executor.appendCalls world [delCommand key]) (executor.evict world key).1 := by
  have recoverable : ∀ command ∈ recorded (persistAll world executor.tick [delCommand key]),
      command.Recoverable := by
    intro command membership
    have same := recorded_delCommands world executor.tick [key]
    rw [List.map_singleton] at same
    rw [same, List.mem_singleton] at membership
    rw [membership]
    exact recoverable_delCommand short
  unfold Executor.evict
  split
  next failed => exact sized.appendBatch recoverable failed
  next between _ appended =>
    have tame := sized.appendBatch recoverable appended
    exact ⟨tame.calls, tame.sized.delete short⟩

theorem Sized.admitLoop (sized : executor.Sized world) (rounds : Nat) :
    Tame world (admitLoopCalls world rounds executor) (admitLoop world true rounds executor).1 := by
  induction rounds generalizing executor with
  | zero => exact sized.idle
  | succ rounds inductionHypothesis =>
      unfold Executor.admitLoop admitLoopCalls
      split
      next => exact sized.idle
      next =>
        split
        next => exact sized.idle
        next =>
          cases chosen : executor.store.lruVictim (world.draws executor.tick) with
          | none => exact (sized.wait 1).idle
          | some key =>
              obtain ⟨obj, stored⟩ := sized.store.wellFormed.lruVictim_stored chosen
              have short : ShortWord key := sized.store.within.keys key (by simp [stored])
              have evicted := (sized.wait 1).evict short
              dsimp only [evictWith]
              generalize (executor.wait 1).evict world key = outcome at evicted ⊢
              rcases outcome with ⟨next, _ | error⟩
              · exact .after_calls evicted.calls (inductionHypothesis evicted.sized)
              · rw [List.append_nil]
                exact evicted

theorem Sized.admit (sized : executor.Sized world) (command : Command) :
    Tame world (executor.admitCalls world command) (executor.admitCommand world command).1 := by
  unfold admitCommand admitWith admitCalls
  split
  next => exact sized.idle
  next => exact sized.admitLoop _

theorem Sized.admitAll (sized : executor.Sized world) (batch : List Command) :
    Tame world (executor.admitAllCalls world batch) (executor.admitAll world batch).1 := by
  induction batch generalizing executor with
  | nil => exact sized.idle
  | cons command batch inductionHypothesis =>
      have first := sized.admit command
      exact .after_calls first.calls (inductionHypothesis first.sized)

/-! ## Batches -/

theorem Sized.apply (sized : executor.Sized world) {persisted : Persisted}
    (isSized : persisted.Sized) : (executor.apply world persisted).1.Sized world := by
  rcases persisted with ⟨command, _ | _⟩
  · exact ⟨(sized.store.reads isSized.1 isSized.2).later (world.monotone (Nat.le_succ _)),
      sized.applied⟩
  · refine ⟨(sized.store.execute isSized).later (world.monotone (Nat.le_succ _)), ?_⟩
    intro step membership
    rcases List.mem_append.mp membership with inside | inside
    · exact sized.applied step inside
    · rw [List.mem_singleton.mp inside]
      exact isSized

theorem Sized.applyAll (sized : executor.Sized world) {batch : List Persisted}
    (each : ∀ persisted ∈ batch, persisted.Sized) :
    (executor.applyAll world batch).1.Sized world := by
  induction batch generalizing executor with
  | nil => exact sized
  | cons persisted batch inductionHypothesis =>
      exact inductionHypothesis (sized.apply (each persisted List.mem_cons_self))
        fun other membership => each other (List.mem_cons_of_mem _ membership)

theorem sized_persistAll {commands : List Command} (modest : ∀ command ∈ commands, command.Modest)
    (tick : Nat) : ∀ persisted ∈ persistAll world tick commands, persisted.Sized := by
  induction commands generalizing tick with
  | nil => simp [persistAll]
  | cons command commands inductionHypothesis =>
      intro persisted membership
      rcases List.mem_cons.mp membership with rfl | membership
      · exact (modest command List.mem_cons_self).persist _
      · exact inductionHypothesis
          (fun other inside => modest other (List.mem_cons_of_mem _ inside)) (tick + 1) persisted
          membership

theorem Sized.commitAdmitted (sized : executor.Sized world) {commands : List Command}
    (modest : ∀ command ∈ commands, command.Modest) :
    Tame world (if commands.length > 0 then executor.appendCalls world commands else [])
      (executor.commitAdmitted world commands).1 := by
  have each : ∀ persisted ∈ persistAll world executor.tick commands, persisted.Sized :=
    sized_persistAll modest executor.tick
  unfold Executor.commitAdmitted appendAdmitted
  by_cases some : commands.length > 0
  · rw [if_pos some, if_pos some]
    split
    next failed => exact sized.appendBatch (recoverable_of_sized each) failed
    next between persisted appended =>
      have tame := sized.appendBatch (recoverable_of_sized each) appended
      rcases journaled_appendBatch appended with ⟨_, impossible, _⟩ | ⟨same, -⟩
      · cases impossible
      · cases same
        split
        next => exact tame
        next => exact ⟨tame.calls, tame.sized.applyAll each⟩
  · rw [if_neg some, if_neg some]
    obtain rfl : commands = [] := by simpa using some
    exact sized.idle

theorem Sized.commitMutationBatch (sized : executor.Sized world) {batch : List Command}
    (modest : ∀ command ∈ batch, command.Modest) :
    Tame world (executor.commitCalls world batch) (executor.commitMutationBatch world batch).1 := by
  have admits := sized.admitAll batch
  refine .after_calls admits.calls (admits.sized.commitAdmitted fun command membership => ?_)
  obtain ⟨⟨other, admission⟩, listed, kept⟩ := List.mem_filterMap.mp membership
  have same : other = command := by
    dsimp only at kept
    split at kept
    next => exact Option.some.inj kept
    next => cases kept
  subst same
  exact modest other (List.of_mem_zip listed).1

theorem Sized.journalAndDeleteExpired (sized : executor.Sized world) (candidates : List Key) :
    Tame world (executor.expireCalls world candidates)
      (executor.journalAndDeleteExpired world candidates).1 := by
  have short : ∀ key ∈ executor.store.filterExpired candidates (executor.now world),
      ShortWord key := by
    intro key membership
    obtain ⟨obj, stored, -⟩ := Store.holdsExpired_iff.mp (List.mem_filter.mp membership).2
    exact sized.store.within.keys key (by simp [stored])
  simp only [Executor.journalAndDeleteExpired, expireCalls]
  generalize executor.store.filterExpired candidates (executor.now world) = expired at short ⊢
  have deletions : ∀ command ∈ expired.map delCommand, command.Recoverable := by
    intro command membership
    obtain ⟨key, inside, rfl⟩ := List.mem_map.mp membership
    exact recoverable_delCommand (short key inside)
  have recoverable : ∀ command ∈ recorded (persistAll world (executor.wait 1).tick
      (expired.map delCommand)), command.Recoverable := by
    rw [recorded_delCommands]
    exact deletions
  split
  next => exact (sized.wait 1).idle
  next =>
    split
    next failed => exact (sized.wait 1).appendBatch recoverable failed
    next between _ appended =>
      have tame := (sized.wait 1).appendBatch recoverable appended
      refine ⟨tame.calls, ?_, ?_⟩
      · exact (tame.sized.store.deleteExpired expired).later (world.monotone (Nat.le_succ _))
      · intro step membership
        rcases List.mem_append.mp membership with inside | inside
        · exact tame.sized.applied step inside
        · obtain ⟨key, listed, rfl⟩ := List.mem_map.mp inside
          exact recoverable_delCommand (short key listed)

end Executor

/-! ## Whole runs -/

/-- All requests of an event have few and short arguments. -/
def WriteEvent.Modest : WriteEvent → Prop
  | .commit batch => ∀ command ∈ batch, command.Modest
  | .expire _ => True
  | .read command _ => command.Modest

def Event.Modest : Event → Prop
  | .write event => event.Modest
  | _ => True

namespace Executor

variable {world : World} {executor : Executor}

theorem Sized.write (sized : executor.Sized world) {event : WriteEvent} (modest : event.Modest) :
    Tame world (executor.writeCalls world event) (executor.write world event) := by
  cases event with
  | commit batch => exact sized.commitMutationBatch modest
  | expire candidates => exact sized.journalAndDeleteExpired candidates
  | read command reads =>
      have kept := sized.store.reads (reads_of_not_mutation reads) modest.small.each
      exact ⟨by simp [writeCalls], kept.later (world.monotone (Nat.le_succ _)), sized.applied⟩

theorem Sized.startAOFRewriteNow (sized : executor.Sized world) (prepare : Option Bytes)
    {arrange : List Key → List Key} (arranged : ∀ keys, (arrange keys).Perm keys) :
    Tame world (executor.startCalls world prepare arrange)
      (executor.startAOFRewriteNow world prepare arrange).1 := by
  refine ⟨?_, ?_⟩
  · unfold startCalls
    split
    next => simp
    next =>
      intro call membership
      rw [List.mem_singleton.mp membership]
      intro command inside
      exact sized.store.wellFormed.recoverable_snapshot sized.store.within sized.store.aligned
        arranged inside
  · unfold Executor.startAOFRewriteNow
    split
    next => exact sized
    next =>
      dsimp only
      split
      next => exact sized.frame (Nat.le_succ _) rfl rfl
      next => exact sized.frame (Nat.le_succ _) rfl rfl

theorem Sized.step (sized : executor.Sized world) {event : Event} (modest : event.Modest) :
    Tame world (executor.stepCalls world event) (executor.step world event) := by
  cases event with
  | write event => exact sized.write modest
  | startRewrite prepare arrange arranged => exact sized.startAOFRewriteNow prepare arranged
  | finishRewrite disk =>
      refine ⟨?_, ?_⟩
      · simp only [stepCalls, finishCalls]
        split <;> simp [LogCall.Recoverable]
      · simp only [Executor.step, finishAOFRewrite]
        split
        all_goals exact sized.frame (Nat.le_refl _) rfl rfl
  | background action =>
      refine ⟨?_, ?_⟩
      · simp [stepCalls, LogCall.Recoverable]
      · cases action <;> exact sized.frame (Nat.le_refl _) rfl rfl

/-- Everything that a run of modest requests hands to the log can be recovered. -/
theorem Sized.run (sized : executor.Sized world) {events : List Event}
    (modest : ∀ event ∈ events, event.Modest) :
    Tame world (executor.runCalls world events) (executor.run world events) := by
  induction events generalizing executor with
  | nil => exact sized.idle
  | cons event events inductionHypothesis =>
      have first := sized.step (modest event List.mem_cons_self)
      exact .after_calls first.calls (inductionHypothesis first.sized
        fun other membership => modest other (List.mem_cons_of_mem _ membership))

end Executor

end

end Carrot
