import Carrot.Aof.Append
import Carrot.Executor.Executor

/-!
# The write path

Every step of the executor journals what it applies: the log grows by the
records of exactly the mutations that the store tracks.
-/

namespace Carrot

section

variable [GoTables] {world : World}

namespace Executor

/-- A consistent store and a log with an empty buffer. -/
structure Ready (executor : Executor) : Prop where
  wellFormed : executor.store.WellFormed
  flushed : executor.log.file.buffered = []

/-- The executor has journaled and applied some mutations. -/
structure Follows (world : World) (before : Executor) (steps : List Step) (after : Executor) :
    Prop where
  tracks : Tracks (before.now world) before.store steps (after.now world) after.store
  applied : after.applied = before.applied ++ steps
  log : before.log.Grows (steps.map Step.command) after.log

namespace Follows

variable {before between after : Executor}

theorem ready {steps : List Step} (follows : Follows world before steps after)
    (ready : before.Ready) : after.Ready :=
  ⟨follows.tracks.wellFormed, by rw [follows.log.file ready.flushed]⟩

theorem trans {first second : List Step} (start : Follows world before first between)
    (next : Follows world between second after) :
    Follows world before (first ++ second) after where
  tracks := start.tracks.trans next.tracks
  applied := by rw [next.applied, start.applied, List.append_assoc]
  log := by
    rw [List.map_append]
    exact start.log.trans next.log

end Follows

omit [GoTables] in
theorem now_le {before after : Executor} (ordered : before.tick ≤ after.tick) :
    before.now world ≤ after.now world :=
  world.monotone ordered

/-- Something that touches neither the store nor the records. -/
theorem Follows.of_log {before after : Executor} (ready : before.Ready)
    (ordered : before.tick ≤ after.tick) (store : after.store = before.store)
    (applied : after.applied = before.applied) (grows : before.log.Grows [] after.log) :
    Follows world before [] after where
  tracks := by
    rw [store]
    exact .wait (now_le ordered) ready.wellFormed
  applied := by rw [applied, List.append_nil]
  log := grows

theorem follows_wait {executor : Executor} (ready : executor.Ready) (ticks : Nat) :
    Follows world executor [] (executor.wait ticks) :=
  .of_log ready (Nat.le_add_right _ _) rfl rfl (.of_eq rfl rfl)

/-! ## Appending -/

/-- The log has the records of some commands, which are not applied yet. -/
structure Journals (before : Executor) (commands : List Command) (after : Executor) : Prop where
  ordered : before.tick ≤ after.tick
  store : after.store = before.store
  applied : after.applied = before.applied
  log : before.log.Grows commands after.log

omit [GoTables] in
theorem Journals.trans {before between after : Executor} {first second : List Command}
    (start : Journals before first between) (next : Journals between second after) :
    Journals before (first ++ second) after where
  ordered := Nat.le_trans start.ordered next.ordered
  store := next.store.trans start.store
  applied := next.applied.trans start.applied
  log := start.log.trans next.log

omit [GoTables] in
theorem journals_background (executor : Executor) (action : Background) :
    Journals executor [] (executor.background action) := by
  cases action with
  | task task => exact ⟨Nat.le_refl _, rfl, rfl, executor.log.grows_attend task⟩
  | abortRewrite cleanup cause =>
      exact ⟨Nat.le_refl _, rfl, rfl, executor.log.grows_abortRewrite cleanup cause⟩

omit [GoTables] in
theorem journals_backgrounds (executor : Executor) (actions : List Background) :
    Journals executor [] (actions.foldl background executor) := by
  induction actions generalizing executor with
  | nil => exact ⟨Nat.le_refl _, rfl, rfl, .of_eq rfl rfl⟩
  | cons action actions inductionHypothesis =>
      exact (journals_background executor action).trans (inductionHypothesis _)

theorem appendBatch_cases (rollsBack : world.RollsBack) {executor after : Executor}
    (ready : executor.Ready) {commands : List Command} {outcome : Except Bytes (List Persisted)}
    (appended : executor.appendBatch world commands = (after, outcome)) :
    (∃ error, outcome = .error error ∧ Journals executor [] after) ∨
      outcome = .ok (persistAll world executor.tick commands) ∧
        Journals executor (recorded (persistAll world executor.tick commands)) after := by
  have quiet := journals_backgrounds (executor.wait commands.length)
    (world.background (executor.wait commands.length).tick)
  have empty := congrArg BufferedWriter.buffered (quiet.log.file ready.flushed)
  simp only [appendBatch] at appended
  generalize (world.background (executor.wait commands.length).tick).foldl background
    (executor.wait commands.length) = waited at quiet empty appended
  have started : Journals executor [] waited :=
    ⟨Nat.le_trans (Nat.le_add_right _ _) quiet.ordered, quiet.store, quiet.applied, quiet.log⟩
  rcases logged : waited.log.appendBatch (world.disk waited.tick)
    (persistAll world executor.tick commands) with ⟨log, error⟩
  have grows := Log.appendBatch_grows (rollsBack waited.tick) empty logged
  have finished : Journals waited (if error = none then
      recorded (persistAll world executor.tick commands) else []) ({ waited with log }.wait 1) :=
    ⟨Nat.le_add_right _ _, rfl, rfl, grows⟩
  rw [logged] at appended
  cases error with
  | none =>
      cases appended
      exact .inr ⟨rfl, started.trans finished⟩
  | some error =>
      cases appended
      exact .inl ⟨error, rfl, started.trans finished⟩

/-- A failed append journals nothing. -/
theorem follows_of_error (rollsBack : world.RollsBack) {executor after : Executor}
    (ready : executor.Ready) {commands : List Command} {error : Bytes}
    (appended : executor.appendBatch world commands = (after, .error error)) :
    Follows world executor [] after := by
  rcases appendBatch_cases rollsBack ready appended with ⟨_, _, journals⟩ | ⟨impossible, _⟩
  · exact .of_log ready journals.ordered journals.store journals.applied journals.log
  · cases impossible

/-- What was journaled is then applied. -/
theorem Journals.follows {executor journaled after : Executor} {steps : List Step}
    (journals : Journals executor (steps.map Step.command) journaled) (ready : executor.Ready)
    (tracks : Tracks (journaled.now world) journaled.store steps (after.now world) after.store)
    (applied : after.applied = journaled.applied ++ steps) (log : after.log = journaled.log) :
    Follows world executor steps after where
  tracks := by
    have waited : Tracks (executor.now world) executor.store [] (journaled.now world)
        journaled.store := by
      rw [journals.store]
      exact .wait (now_le journals.ordered) ready.wellFormed
    exact waited.trans tracks
  applied := by rw [applied, journals.applied]
  log := by
    rw [log]
    exact journals.log

end Executor

/-! ## Applying a batch -/

/-- A command with a record is a canonical mutation, and one without a record
only reads. -/
def Persisted.Sound (persisted : Persisted) : Prop :=
  if persisted.valid then persisted.command.Canonical
  else (execute persisted.command).Makes StoreCall.Reads

theorem persist_sound (command : Command) (now : Clock) : (persist command now).Sound := by
  unfold persist
  split
  next canonical recorded => exact canonicalCommand_canonical recorded
  next rejected => exact reads_of_rejected rejected

theorem persistAll_length (world : World) (tick : Nat) (commands : List Command) :
    (Executor.persistAll world tick commands).length = commands.length := by
  induction commands generalizing tick with
  | nil => rfl
  | cons command commands inductionHypothesis =>
      rw [Executor.persistAll, List.length_cons, inductionHypothesis, List.length_cons]

theorem persistAll_sound (world : World) (tick : Nat) (commands : List Command) :
    ∀ persisted ∈ Executor.persistAll world tick commands, persisted.Sound := by
  induction commands generalizing tick with
  | nil => nofun
  | cons command commands inductionHypothesis =>
      intro persisted membership
      rcases List.mem_cons.mp membership with rfl | membership
      · exact persist_sound command _
      · exact inductionHypothesis (tick + 1) persisted membership

namespace Executor

/-- Some journaled commands are applied. -/
def Applies (world : World) (before : Executor) (commands : List Command) (after : Executor) :
    Prop :=
  ∃ steps : List Step, steps.map Step.command = commands ∧
    Tracks (before.now world) before.store steps (after.now world) after.store ∧
    after.applied = before.applied ++ steps ∧ after.log = before.log

theorem Applies.trans {before between after : Executor} {first second : List Command}
    (start : Applies world before first between) (next : Applies world between second after) :
    Applies world before (first ++ second) after := by
  obtain ⟨earlier, rfl, track, applied, log⟩ := start
  obtain ⟨later, rfl, tracks, appliedToo, logToo⟩ := next
  refine ⟨earlier ++ later, List.map_append, track.trans tracks, ?_, logToo.trans log⟩
  rw [appliedToo, applied, List.append_assoc]

theorem Applies.wellFormed {before after : Executor} {commands : List Command}
    (applies : Applies world before commands after) : after.store.WellFormed := by
  obtain ⟨_, _, tracks, _⟩ := applies
  exact tracks.wellFormed

theorem applies_apply {executor : Executor} (wellFormed : executor.store.WellFormed)
    {persisted : Persisted} (sound : persisted.Sound) :
    Applies world executor (recorded [persisted]) (executor.apply world persisted).1 := by
  have ordered : executor.now world ≤ world.clock (executor.tick + 1) :=
    world.monotone (Nat.le_succ _)
  rcases persisted with ⟨command, _ | _⟩
  · exact ⟨[], rfl, .reads wellFormed ordered sound, (List.append_nil _).symm, rfl⟩
  · exact ⟨[⟨executor.now world, command⟩], rfl, .execute wellFormed ordered sound, rfl, rfl⟩

theorem applies_applyAll {executor : Executor} (wellFormed : executor.store.WellFormed)
    {batch : List Persisted} (sound : ∀ persisted ∈ batch, persisted.Sound) :
    Applies world executor (recorded batch) (executor.applyAll world batch).1 := by
  induction batch generalizing executor with
  | nil => exact ⟨[], rfl, .wait (le_refl _) wellFormed, (List.append_nil _).symm, rfl⟩
  | cons persisted batch inductionHypothesis =>
      have first : Applies world executor (recorded [persisted])
          (executor.apply world persisted).1 :=
        applies_apply wellFormed (sound persisted List.mem_cons_self)
      have rest := inductionHypothesis first.wellFormed
        fun other membership => sound other (List.mem_cons_of_mem _ membership)
      have split : recorded (persisted :: batch) = recorded [persisted] ++ recorded batch := by
        rw [recorded, List.filter_cons, recorded, recorded, List.filter_cons]
        split <;> rfl
      rw [split]
      exact first.trans rest

theorem Journals.follows_applies {executor journaled after : Executor} {commands : List Command}
    (journals : Journals executor commands journaled) (ready : executor.Ready)
    (applies : Applies world journaled commands after) :
    ∃ steps, Follows world executor steps after := by
  obtain ⟨steps, rfl, tracks, applied, log⟩ := applies
  exact ⟨steps, journals.follows ready tracks applied log⟩

/-! ## The operations -/

/-- Deletions are recorded as they are. -/
theorem persist_delCommand (key : Key) (now : Clock) :
    persist (delCommand key) now = ⟨delCommand key, true⟩ := by
  have canonical : canonicalCommand (delCommand key) now = some (delCommand key) := by
    simp only [canonicalCommand, delCommand_verb]
    rfl
  rw [persist, canonical]

theorem recorded_delCommands (world : World) (tick : Nat) (keys : List Key) :
    recorded (persistAll world tick (keys.map delCommand)) = keys.map delCommand := by
  induction keys generalizing tick with
  | nil => rfl
  | cons key keys inductionHypothesis =>
      rw [List.map_cons, persistAll, persist_delCommand, recorded, List.filter_cons, if_pos rfl,
        List.map_cons, ← recorded, inductionHypothesis]

section

variable (rollsBack : world.RollsBack) {executor : Executor} (ready : executor.Ready)

include rollsBack ready

theorem journals_delCommands {after : Executor} {keys : List Key} {batch : List Persisted}
    (appended : executor.appendBatch world (keys.map delCommand) = (after, .ok batch)) :
    Journals executor (keys.map delCommand) after := by
  rcases appendBatch_cases rollsBack ready appended with ⟨_, impossible, _⟩ | ⟨_, journals⟩
  · cases impossible
  · rwa [recorded_delCommands] at journals

theorem follows_evict (key : Key) :
    ∃ steps, Follows world executor steps (executor.evict world key).1 := by
  unfold evict
  split
  next failed => exact ⟨[], follows_of_error rollsBack ready failed⟩
  next journaled _ appended =>
    have deletes : executor.appendBatch world ([key].map delCommand) = (journaled, .ok _) :=
      appended
    have journals := journals_delCommands rollsBack ready deletes
    have wellFormed : journaled.store.WellFormed := by
      rw [journals.store]
      exact ready.wellFormed
    refine journals.follows_applies ready
      ⟨[⟨journaled.now world, delCommand key⟩], rfl, ?_, rfl, rfl⟩
    have tracks := Tracks.execute wellFormed (world.monotone (Nat.le_succ journaled.tick))
      (delCommand_canonical key)
    rwa [execute_delCommand] at tracks

omit rollsBack ready in
theorem Follows.and_then {before between after : Executor} {first : List Step}
    (start : Follows world before first between)
    (next : ∃ steps, Follows world between steps after) :
    ∃ steps, Follows world before steps after := by
  obtain ⟨second, follows⟩ := next
  exact ⟨first ++ second, start.trans follows⟩

theorem follows_admitLoop (rounds : Nat) :
    ∃ steps, Follows world executor steps (admitLoop world true rounds executor).1 := by
  induction rounds generalizing executor with
  | zero => exact ⟨[], follows_wait ready 0⟩
  | succ rounds inductionHypothesis =>
      unfold admitLoop
      split
      next => exact ⟨[], follows_wait ready 0⟩
      next =>
        split
        next => exact ⟨[], follows_wait ready 0⟩
        next =>
          have waited : Follows world executor [] (executor.wait 1) := follows_wait ready 1
          split
          next => exact ⟨[], waited⟩
          next key _ =>
            obtain ⟨steps, evicted⟩ := follows_evict rollsBack (waited.ready ready) key
            have evicts : Follows world executor ([] ++ steps)
                (executor.evictWith world true key).1 := waited.trans evicted
            split
            next failed =>
              rw [failed] at evicts
              exact ⟨_, evicts⟩
            next success =>
              rw [success] at evicts
              exact evicts.and_then (inductionHypothesis (evicts.ready ready))

theorem follows_admit (command : Command) :
    ∃ steps, Follows world executor steps (executor.admitCommand world command).1 := by
  unfold admitCommand admitWith
  split
  next => exact ⟨[], follows_wait ready 0⟩
  next => exact follows_admitLoop rollsBack ready _

theorem follows_admitAll (batch : List Command) :
    ∃ steps, Follows world executor steps (executor.admitAll world batch).1 := by
  induction batch generalizing executor with
  | nil => exact ⟨[], follows_wait ready 0⟩
  | cons command batch inductionHypothesis =>
      obtain ⟨steps, first⟩ := follows_admit rollsBack ready command
      exact first.and_then (inductionHypothesis (first.ready ready))

theorem follows_commitAdmitted (commands : List Command) :
    ∃ steps, Follows world executor steps (executor.commitAdmitted world commands).1 := by
  unfold commitAdmitted
  split
  next failed =>
    unfold appendAdmitted at failed
    split at failed
    next => exact ⟨[], follows_of_error rollsBack ready failed⟩
    next => cases failed
  next journaled persisted appended =>
    unfold appendAdmitted at appended
    split at appended
    next =>
      rcases appendBatch_cases rollsBack ready appended with ⟨_, impossible, _⟩ | ⟨same, journals⟩
      · cases impossible
      · cases same
        rw [if_neg (by rw [persistAll_length]; exact fun different => different rfl)]
        refine journals.follows_applies ready (applies_applyAll ?_ (persistAll_sound world _ _))
        rw [journals.store]
        exact ready.wellFormed
    next none =>
      cases appended
      split
      next => exact ⟨[], follows_wait ready 0⟩
      next => exact ⟨[], follows_wait ready 0⟩

/-- A batch of mutations journals exactly what it applies. -/
theorem follows_commitMutationBatch (batch : List Command) :
    ∃ steps, Follows world executor steps (executor.commitMutationBatch world batch).1 := by
  obtain ⟨steps, admitted⟩ := follows_admitAll rollsBack ready batch
  exact admitted.and_then (follows_commitAdmitted rollsBack (admitted.ready ready) _)

/-- So does the deletion of expired keys. -/
theorem follows_journalAndDeleteExpired (candidates : List Key) :
    ∃ steps, Follows world executor steps
      (executor.journalAndDeleteExpired world candidates).1 := by
  have waited : Follows world executor [] (executor.wait 1) := follows_wait ready 1
  have waitedReady := waited.ready ready
  simp only [journalAndDeleteExpired]
  split
  next => exact ⟨[], waited⟩
  next =>
    split
    next failed => exact waited.and_then ⟨[], follows_of_error rollsBack waitedReady failed⟩
    next journaled _ appended =>
      have journals := journals_delCommands rollsBack waitedReady appended
      refine waited.and_then (journals.follows_applies waitedReady
        ⟨_, by rw [List.map_map]; rfl, .deleteExpired ?_ (world.monotone (Nat.le_succ _)) ?_, rfl,
          rfl⟩)
      · rw [journals.store]
        exact ready.wellFormed
      · intro key membership
        rw [journals.store]
        exact Store.view_of_holdsExpired (List.mem_filter.mp membership).2
          (now_le (Nat.le_trans (Nat.le_succ _) journals.ordered))

omit rollsBack in
/-- Reading needs no record. -/
theorem follows_executeRead {command : Command} (reads : isMutation command.name = false) :
    Follows world executor [] (executor.executeRead world command).1 where
  tracks := .reads ready.wellFormed (world.monotone (Nat.le_succ _)) (reads_of_not_mutation reads)
  applied := (List.append_nil _).symm
  log := .of_eq rfl rfl

end

end Executor

/-! ## Whole runs -/

/-- What clients and the expiry loop make the executor do. -/
inductive WriteEvent where
  | commit (batch : List Command)
  | expire (candidates : List Key)
  | read (command : Command) (reads : isMutation command.name = false)

namespace Executor

def write (world : World) (executor : Executor) : WriteEvent → Executor
  | .commit batch => (executor.commitMutationBatch world batch).1
  | .expire candidates => (executor.journalAndDeleteExpired world candidates).1
  | .read command _ => (executor.executeRead world command).1

def writes (world : World) (executor : Executor) (events : List WriteEvent) : Executor :=
  events.foldl (write world) executor

theorem follows_write (rollsBack : world.RollsBack) {executor : Executor} (ready : executor.Ready)
    (event : WriteEvent) : ∃ steps, Follows world executor steps (executor.write world event) := by
  cases event with
  | commit batch => exact follows_commitMutationBatch rollsBack ready batch
  | expire candidates => exact follows_journalAndDeleteExpired rollsBack ready candidates
  | read command reads => exact ⟨[], follows_executeRead ready reads⟩

theorem follows_writes (rollsBack : world.RollsBack) {executor : Executor}
    (ready : executor.Ready) (events : List WriteEvent) :
    ∃ steps, Follows world executor steps (executor.writes world events) := by
  induction events generalizing executor with
  | nil => exact ⟨[], follows_wait ready 0⟩
  | cons event events inductionHypothesis =>
      obtain ⟨steps, first⟩ := follows_write rollsBack ready event
      exact first.and_then (inductionHypothesis (first.ready ready))

omit [GoTables] in
theorem ready_new (policy : SyncPolicy) (maxMemory : Int) (evictLRU : Bool) :
    (new policy maxMemory evictLRU).Ready :=
  ⟨Store.new_wellFormed, rfl⟩

/-- After any run the file of the log is read back as the mutations that were
applied, and executing these, each at the reading of the clock at which it was
applied, gives what a client sees in the store. -/
theorem file_replays_to_store (world : World) (rollsBack : world.RollsBack) (policy : SyncPolicy)
    (maxMemory : Int) (evictLRU : Bool) (events : List WriteEvent) :
    let final := (new policy maxMemory evictLRU).writes world events
    Holds final.log.file.sink (final.applied.map Step.command) ∧ final.log.file.buffered = [] ∧
      (Store.new.executeAll final.applied).view (final.now world) =
        final.store.view (final.now world) := by
  intro final
  have ready := ready_new policy maxMemory evictLRU
  obtain ⟨steps, follows⟩ := follows_writes rollsBack ready events
  have applied : final.applied = steps := follows.applied
  have file : final.log.file = ⟨recordBytes (steps.map Step.command), []⟩ :=
    follows.log.file ready.flushed
  rw [applied, file]
  refine ⟨holds_recordBytes ?_, rfl, follows.tracks.view Store.new Store.new_wellFormed rfl⟩
  intro command membership
  obtain ⟨step, inside, rfl⟩ := List.mem_map.mp membership
  exact (follows.tracks.canonical step inside).upper

end Executor

end

/-- A world without failures in which time stands still. -/
def World.still (clock : Clock) : World where
  clock _ := clock
  monotone _ _ _ := le_refl clock
  draws _ := ⟨0, fun _ => 0⟩
  disk _ := ⟨none, none, none, none, none, none, none⟩
  background _ := []

theorem World.still_rollsBack (clock : Clock) : (World.still clock).RollsBack :=
  fun _ => ⟨rfl, rfl, rfl⟩

section

attribute [local instance] GoTables.ascii

/-- A run of one batch: the `SET` is in the file and in the store. -/
theorem Executor.file_replays_to_store_set :
    let set : Command := ⟨bytes "SET", [bytes "k", bytes "v"]⟩
    let world := World.still ⟨0, by decide⟩
    let final := (Executor.new .always 0 false).writes world [.commit [set]]
    final.applied.map Step.command = [set] ∧
      Holds final.log.file.sink (final.applied.map Step.command) ∧ final.log.file.buffered = [] ∧
      (Store.new.executeAll final.applied).view (final.now world) =
        final.store.view (final.now world) :=
  ⟨by decide +kernel,
    file_replays_to_store (World.still ⟨0, by decide⟩) (World.still_rollsBack _) .always 0 false _⟩

end

end Carrot
