import Carrot.Executor.WritePath

/-!
# Rewriting the log

While a rewrite is in progress, the delta together with the snapshot describes
the store as well as the active file does.  So the file can be replaced at any
time between two steps, and giving a rewrite up costs nothing.
-/

namespace Carrot

/-- What happens to an executor, with a rewrite of its log at any time. -/
inductive Event where
  | write (event : WriteEvent)
  | startRewrite (prepare : Option Bytes) (arrange : List Key → List Key)
      (arranged : ∀ keys, (arrange keys).Perm keys)
  | finishRewrite (disk : Log.CompleteDisk)
  | background (action : Background)

section

variable [GoTables]

namespace Executor

def step (world : World) (executor : Executor) : Event → Executor
  | .write event => executor.write world event
  | .startRewrite prepare arrange _ => (executor.startAOFRewriteNow world prepare arrange).1
  | .finishRewrite disk => executor.finishAOFRewrite disk
  | .background action => executor.background action

def run (world : World) (executor : Executor) (events : List Event) : Executor :=
  events.foldl (step world) executor

/-- The records of a snapshot taken in some state, at the clock of that state. -/
def cut (world : World) (start : Executor) (arrange : List Key → List Key) : List Step :=
  (start.store.snapshotCommands (start.now world) arrange).map (Step.mk (start.now world))

/-- The history is read back as it is, and brings back what clients see. -/
structure Explains (history : List Step) (clock : Clock) (store : Store) : Prop where
  upper : ∀ step ∈ history, toUpper step.command.name = step.command.name
  view : (Store.new.executeAll history).view clock = store.view clock

/-- A history that begins with a snapshot of the state `start` and goes on with
what has been applied since then. -/
structure Since (world : World) (start : Executor) (arrange : List Key → List Key)
    (applied history : List Step) : Prop where
  arranged : ∀ keys, (arrange keys).Perm keys
  initial : start.applied <+: applied
  history_eq : history = start.cut world arrange ++ applied.drop start.applied.length

/-- Where the history in the file comes from: everything since the beginning,
or a snapshot of an earlier state and everything since then. -/
def Origin (world : World) (base : List Step) (past : Executor → Prop)
    (applied history : List Step) : Prop :=
  history = base ++ applied ∨
    ∃ start arrange, past start ∧ Since world start arrange applied history

/-- A rewrite in progress prepares a history: the snapshot in its file, once it
is ready, and the rest in its delta, unless that is broken. -/
structure Prepares (world : World) (past : Executor → Prop) (job : RewriteJob) (start : Executor)
    (arrange : List Key → List Key) (applied history : List Step) : Prop where
  past : past start
  since : Since world start arrange applied history
  entries : job.entries = start.store.snapshotEntries (start.now world) arrange
  snapshot : job.ready = some none →
    job.temp = recordBytes (job.entries.flatMap SnapshotEntry.commands)
  delta : job.deltaErr = none →
    bytesOf job.delta = recordBytes ((applied.drop start.applied.length).map Step.command)

/-- The file, and the rewrite in progress if there is one, describe the store. -/
structure Sound (world : World) (base : List Step) (past : Executor → Prop)
    (executor : Executor) : Prop where
  wellFormed : executor.store.WellFormed
  aligned : (executor.store.view (executor.now world)).Aligned
  history : ∃ history, Origin world base past executor.applied history ∧
    Explains history (executor.now world) executor.store ∧
    executor.log.file = ⟨recordBytes (history.map Step.command), []⟩
  rewrite : ∀ job ∈ executor.log.rewrite, ∃ start arrange history,
    Prepares world past job start arrange executor.applied history ∧
      Explains history (executor.now world) executor.store

variable {world : World} {base : List Step} {past : Executor → Prop}
  {before after executor : Executor}

theorem Sound.ready (sound : Sound world base past executor) : executor.Ready := by
  obtain ⟨_, _, _, file⟩ := sound.history
  exact ⟨sound.wellFormed, by rw [file]⟩

/-! ## Steps that journal what they apply -/

theorem Explains.tracks {history steps : List Step} {clock later : Clock} {store changed : Store}
    (explains : Explains history clock store) (tracks : Tracks clock store steps later changed) :
    Explains (history ++ steps) later changed where
  upper step membership := by
    rcases List.mem_append.mp membership with inside | inside
    · exact explains.upper step inside
    · exact (tracks.canonical step inside).upper
  view := by
    rw [Store.executeAll_append]
    exact tracks.view _ (Store.new_wellFormed.executeAll history) explains.view

omit [GoTables] in
theorem Since.append {start : Executor} {arrange : List Key → List Key}
    {applied history : List Step} (since : Since world start arrange applied history)
    (steps : List Step) : Since world start arrange (applied ++ steps) (history ++ steps) where
  arranged := since.arranged
  initial := since.initial.trans (List.prefix_append _ _)
  history_eq := by
    rw [List.drop_append_of_le_length since.initial.length_le, since.history_eq, List.append_assoc]

omit [GoTables] in
theorem Origin.append {applied history : List Step}
    (origin : Origin world base past applied history) (steps : List Step) :
    Origin world base past (applied ++ steps) (history ++ steps) := by
  rcases origin with rfl | ⟨start, arrange, inPast, since⟩
  · exact .inl (List.append_assoc _ _ _)
  · exact .inr ⟨start, arrange, inPast, since.append steps⟩

omit [GoTables] in
theorem Prepares.append {job later : RewriteJob} {start : Executor}
    {arrange : List Key → List Key} {applied history : List Step}
    (prepares : Prepares world past job start arrange applied history) {steps : List Step}
    (continues : job.Continues (steps.map Step.command) later) :
    Prepares world past later start arrange (applied ++ steps) (history ++ steps) where
  past := prepares.past
  since := prepares.since.append steps
  entries := continues.entries.trans prepares.entries
  snapshot ready := by
    rw [continues.entries]
    rcases continues.snapshot ready with ⟨before, same⟩ | written
    · rw [same, prepares.snapshot before]
    · exact written
  delta intact := by
    obtain ⟨before, longer⟩ := continues.delta intact
    rw [longer, prepares.delta before,
      List.drop_append_of_le_length prepares.since.initial.length_le, List.map_append,
      recordBytes_append]

theorem Sound.follows {steps : List Step} (sound : Sound world base past before)
    (follows : Follows world before steps after) : Sound world base past after where
  wellFormed := follows.tracks.wellFormed
  aligned := follows.tracks.aligned sound.aligned
  history := by
    obtain ⟨history, origin, explains, file⟩ := sound.history
    rw [follows.applied]
    refine ⟨history ++ steps, origin.append steps, explains.tracks follows.tracks, ?_⟩
    rw [follows.log.file sound.ready.flushed, file, List.map_append, recordBytes_append]
  rewrite job present := by
    obtain ⟨earlier, running, continues⟩ := follows.log.rewrite job present
    obtain ⟨start, arrange, history, prepares, explains⟩ := sound.rewrite earlier running
    rw [follows.applied]
    exact ⟨start, arrange, _, prepares.append continues, explains.tracks follows.tracks⟩

/-- What was reached before is reached later. -/
theorem Sound.mono {later : Executor → Prop} (sound : Sound world base past executor)
    (included : ∀ start, past start → later start) : Sound world base later executor where
  wellFormed := sound.wellFormed
  aligned := sound.aligned
  history := by
    obtain ⟨history, origin, described⟩ := sound.history
    refine ⟨history, ?_, described⟩
    rcases origin with whole | ⟨start, arrange, inPast, since⟩
    · exact .inl whole
    · exact .inr ⟨start, arrange, included start inPast, since⟩
  rewrite job present := by
    obtain ⟨start, arrange, history, prepares, explains⟩ := sound.rewrite job present
    exact ⟨start, arrange, history, { prepares with past := included start prepares.past },
      explains⟩

/-! ## Starting and finishing a rewrite -/

theorem upper_cut (start : Executor) (arrange : List Key → List Key) :
    ∀ step ∈ start.cut world arrange, toUpper step.command.name = step.command.name := by
  intro step membership
  obtain ⟨command, inside, rfl⟩ := List.mem_map.mp membership
  obtain ⟨copy, -, listed⟩ := List.mem_flatMap.mp inside
  obtain ⟨verb, name⟩ := copy.verb_of_commands listed
  rw [name, verb.toUpper_name]

omit [GoTables] in
theorem recordBytes_cut (start : Executor) (arrange : List Key → List Key) :
    recordBytes ((start.cut world arrange).map Step.command) =
      recordBytes ((start.store.snapshotEntries (start.now world) arrange).flatMap
        SnapshotEntry.commands) := by
  have commands : (start.cut world arrange).map Step.command =
      start.store.snapshotCommands (start.now world) arrange := by
    rw [cut, List.map_map]
    exact List.map_id _
  rw [commands]
  rfl

omit [GoTables] in
/-- A job that has just started prepares the snapshot. -/
theorem prepares_start (inPast : past before) {arrange : List Key → List Key}
    (arranged : ∀ keys, (arrange keys).Perm keys) :
    Prepares world past (.start (before.store.snapshotEntries (before.now world) arrange)) before
      arrange before.applied (before.cut world arrange) where
  past := inPast
  since := ⟨arranged, List.prefix_refl _, by rw [List.drop_length, List.append_nil]⟩
  entries := rfl
  snapshot ready := by cases ready
  delta _ := by
    rw [List.drop_length]
    rfl

theorem sound_startAOFRewriteNow (sound : Sound world base past executor) (inPast : past executor)
    (prepare : Option Bytes) {arrange : List Key → List Key}
    (arranged : ∀ keys, (arrange keys).Perm keys) :
    Sound world base past (executor.startAOFRewriteNow world prepare arrange).1 := by
  unfold startAOFRewriteNow
  split
  next => exact sound
  next =>
    dsimp only
    split
    next log error failed =>
      obtain rfl := Log.startRewrite_error failed
      exact sound.follows (.of_log sound.ready (Nat.le_succ _) rfl rfl (.of_eq rfl rfl))
    next log started =>
      obtain ⟨-, rfl⟩ := Log.startRewrite_ok started
      -- The store and the file are those of an executor that only waited.
      have waiting : Follows world executor [] (executor.wait 1) := follows_wait sound.ready 1
      have waited := sound.follows waiting
      refine ⟨waited.wellFormed, waited.aligned, waited.history, ?_⟩
      rintro job ⟨⟩
      refine ⟨executor, arrange, _, prepares_start inPast arranged, upper_cut executor arrange, ?_⟩
      have restored : (Store.new.executeAll (executor.cut world arrange)).view
          (executor.now world) = executor.store.view (executor.now world) :=
        sound.wellFormed.restore_snapshot arranged sound.aligned (le_refl _)
      exact Store.view_mono restored waiting.tracks.ordered

/-- A rewrite is installed, or given up and the file is as before. -/
theorem sound_finishAOFRewrite (sound : Sound world base past executor)
    (disk : Log.CompleteDisk) : Sound world base past (executor.finishAOFRewrite disk) := by
  unfold finishAOFRewrite
  split
  next => exact sound
  next cause _ =>
    exact sound.follows (.of_log sound.ready (Nat.le_refl _) rfl rfl
      (executor.log.grows_abortRewrite disk.cleanup cause))
  next waiting =>
    obtain ⟨job, running, ready⟩ := Option.bind_eq_some_iff.mp waiting
    rcases executor.log.completeRewrite_cases disk running sound.ready.flushed with
      unchanged | ⟨intact, none, file⟩
    · exact sound.follows (.of_log sound.ready (Nat.le_refl _) rfl rfl unchanged)
    · obtain ⟨start, arrange, history, prepares, explains⟩ := sound.rewrite job running
      have written : job.temp ++ bytesOf job.delta = recordBytes (history.map Step.command) := by
        rw [prepares.since.history_eq, List.map_append, recordBytes_append, recordBytes_cut,
          prepares.snapshot ready, prepares.entries, prepares.delta intact]
      refine ⟨sound.wellFormed, sound.aligned, ⟨history, ?_, explains, ?_⟩, ?_⟩
      · exact .inr ⟨start, arrange, prepares.past, prepares.since⟩
      · exact file.trans (by rw [written])
      · intro other present
        have absent : (executor.log.completeRewrite disk).1.rewrite = some other := present
        rw [none] at absent
        cases absent

/-! ## Whole runs -/

/-- An executor without a rewrite, whose file holds a history that explains it. -/
structure Faithful (world : World) (base : List Step) (executor : Executor) : Prop where
  wellFormed : executor.store.WellFormed
  aligned : (executor.store.view (executor.now world)).Aligned
  explains : Explains base (executor.now world) executor.store
  file : executor.log.file = ⟨recordBytes (base.map Step.command), []⟩
  idle : executor.log.rewrite = none
  fresh : executor.applied = []

theorem Faithful.sound (faithful : Faithful world base executor) :
    Sound world base past executor where
  wellFormed := faithful.wellFormed
  aligned := faithful.aligned
  history :=
    ⟨base, .inl (by rw [faithful.fresh, List.append_nil]), faithful.explains, faithful.file⟩
  rewrite job present := by
    rw [faithful.idle] at present
    cases present

theorem sound_step (rollsBack : world.RollsBack) (sound : Sound world base past executor)
    (inPast : past executor) (event : Event) :
    Sound world base past (executor.step world event) := by
  cases event with
  | write event =>
      obtain ⟨steps, follows⟩ := follows_write rollsBack sound.ready event
      exact sound.follows follows
  | startRewrite prepare arrange arranged =>
      exact sound_startAOFRewriteNow sound inPast prepare arranged
  | finishRewrite disk => exact sound_finishAOFRewrite sound disk
  | background action =>
      have journals := journals_background executor action
      exact sound.follows (.of_log sound.ready journals.ordered journals.store journals.applied
        journals.log)

/-- The states that a run passes through. -/
def Passes (world : World) (start : Executor) (events : List Event) (executor : Executor) : Prop :=
  ∃ earlier, earlier <+: events ∧ executor = start.run world earlier

theorem sound_run (rollsBack : world.RollsBack) {start : Executor}
    (faithful : Faithful world base start) (events : List Event) :
    Sound world base (Passes world start events) (start.run world events) := by
  induction events using List.reverseRecOn with
  | nil => exact faithful.sound
  | append_singleton events event inductionHypothesis =>
      have longer := inductionHypothesis.mono fun executor => fun ⟨earlier, initial, same⟩ =>
        (⟨earlier, initial.trans (List.prefix_append _ _), same⟩ :
          Passes world start (events ++ [event]) executor)
      have here : Passes world start (events ++ [event]) (start.run world events) :=
        ⟨events, List.prefix_append _ _, rfl⟩
      have stepped := sound_step rollsBack longer here event
      rw [run, List.foldl_append]
      exact stepped

omit [GoTables] in
/-- The start of a rewrite applies nothing and leaves the file alone. -/
theorem startAOFRewriteNow_frame (world : World) (executor : Executor) (prepare : Option Bytes)
    (arrange : List Key → List Key) :
    (executor.startAOFRewriteNow world prepare arrange).1.applied = executor.applied ∧
      (executor.startAOFRewriteNow world prepare arrange).1.log.file = executor.log.file := by
  unfold startAOFRewriteNow
  split
  next => exact ⟨rfl, rfl⟩
  next =>
    dsimp only
    split
    next failed =>
      obtain rfl := Log.startRewrite_error failed
      exact ⟨rfl, rfl⟩
    next started =>
      obtain ⟨-, rfl⟩ := Log.startRewrite_ok started
      exact ⟨rfl, rfl⟩

omit [GoTables] in
theorem finishAOFRewrite_file {disk : Log.CompleteDisk} (fails : disk.FailsBeforeRename)
    (ready : executor.Ready) : (executor.finishAOFRewrite disk).log.file = executor.log.file := by
  unfold finishAOFRewrite
  split
  next => rfl
  next cause _ =>
    have grows := executor.log.grows_abortRewrite disk.cleanup cause
    exact (grows.file ready.flushed).trans (Log.file_eq ready.flushed).symm
  next => exact Log.completeRewrite_file fails ready.flushed

/-- A step other than the end of a rewrite extends the file by what it applies. -/
theorem step_extends (rollsBack : world.RollsBack) (ready : executor.Ready) {event : Event}
    (unfinished : ∀ disk, event ≠ .finishRewrite disk) :
    ∃ steps : List Step, (executor.step world event).applied = executor.applied ++ steps ∧
      (executor.step world event).log.file.sink =
        executor.log.file.sink ++ recordBytes (steps.map Step.command) := by
  cases event with
  | write event =>
      obtain ⟨steps, follows⟩ := follows_write rollsBack ready event
      exact ⟨steps, follows.applied, by rw [step, follows.log.file ready.flushed]⟩
  | startRewrite prepare arrange arranged =>
      obtain ⟨applied, file⟩ := startAOFRewriteNow_frame world executor prepare arrange
      refine ⟨[], ?_, ?_⟩
      · rw [step, applied, List.append_nil]
      · rw [step, file, List.map_nil, recordBytes_nil, List.append_nil]
  | finishRewrite disk => exact absurd rfl (unfinished disk)
  | background action =>
      have journals := journals_background executor action
      refine ⟨[], ?_, ?_⟩
      · rw [step, journals.applied, List.append_nil]
      · rw [step, journals.log.file ready.flushed]
        rfl

/-- After every run, with rewrites started, finished and given up at any time,
the file is read back as a history that brings back what clients see.  It is
everything since the beginning, or a snapshot of a state that the run passed
through and everything since then.  Every further step extends the file by what
it applies, unless it ends a rewrite; and a rewrite that cannot be put in place
leaves the file alone. -/
theorem rewrite_keeps_history (world : World) (rollsBack : world.RollsBack) {start : Executor}
    {base : List Step} (faithful : Faithful world base start) (events : List Event) :
    let final := start.run world events
    (∃ history, Holds final.log.file.sink (history.map Step.command) ∧
      final.log.file.buffered = [] ∧
      (Store.new.executeAll history).view (final.now world) = final.store.view (final.now world) ∧
      (history = base ++ final.applied ∨ ∃ earlier arrange, earlier <+: events ∧
        Since world (start.run world earlier) arrange final.applied history)) ∧
    (∀ event, (∀ disk, event ≠ .finishRewrite disk) →
      ∃ steps : List Step, (final.step world event).applied = final.applied ++ steps ∧
        (final.step world event).log.file.sink =
          final.log.file.sink ++ recordBytes (steps.map Step.command)) ∧
    ∀ disk : Log.CompleteDisk, disk.FailsBeforeRename →
      (final.step world (.finishRewrite disk)).log.file = final.log.file := by
  intro final
  have sound : Sound world base (Passes world start events) final :=
    sound_run rollsBack faithful events
  refine ⟨?_, fun event => step_extends rollsBack sound.ready,
    fun disk fails => finishAOFRewrite_file fails sound.ready⟩
  obtain ⟨history, origin, explains, file⟩ := sound.history
  refine ⟨history, ?_, ?_, explains.view, ?_⟩
  · rw [file]
    refine holds_recordBytes fun command membership => ?_
    obtain ⟨step, inside, rfl⟩ := List.mem_map.mp membership
    exact explains.upper step inside
  · rw [file]
  · rcases origin with whole | ⟨_, arrange, ⟨earlier, initial, rfl⟩, since⟩
    · exact .inl whole
    · exact .inr ⟨earlier, arrange, initial, since⟩

theorem faithful_new (world : World) (policy : SyncPolicy) (maxMemory : Int) (evictLRU : Bool) :
    Faithful world [] (new policy maxMemory evictLRU) where
  wellFormed := Store.new_wellFormed
  aligned _ := Cell.aligned_none
  explains := ⟨nofun, rfl⟩
  file := rfl
  idle := rfl
  fresh := rfl

end Executor

end

section

attribute [local instance] GoTables.ascii

/-- A rewrite that is installed: a snapshot after the first write, and the
second write in the delta. -/
theorem Executor.rewrite_keeps_history_installed :
    let world := World.still ⟨0, by decide⟩
    let start := Executor.new .always 0 false
    let set : Command := ⟨bytes "SET", [bytes "k", bytes "v"]⟩
    let push : Command := ⟨bytes "RPUSH", [bytes "l", bytes "a", bytes "b"]⟩
    let events : List Event := [.write (.commit [set]),
      .startRewrite none id fun keys => List.Perm.refl keys, .write (.commit [push]),
      .background (.task (.snapshotDone none)),
      .finishRewrite ⟨none, none, none, none, none, none, none, none, none, none, none, none, none⟩]
    let final := start.run world events
    final.rewriteStatus = .completed ∧ final.log.rewrite.isNone ∧
      ∃ history, Holds final.log.file.sink (history.map Step.command) ∧
        final.log.file.buffered = [] ∧
        (Store.new.executeAll history).view (final.now world) =
          final.store.view (final.now world) ∧
        (history = [] ++ final.applied ∨ ∃ earlier arrange, earlier <+: events ∧
          Since world (start.run world earlier) arrange final.applied history) :=
  ⟨by decide +kernel, by decide +kernel,
    (rewrite_keeps_history (World.still ⟨0, by decide⟩) (World.still_rollsBack _)
      (faithful_new _ .always 0 false) _).1⟩

end

end Carrot
