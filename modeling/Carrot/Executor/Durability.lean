import Carrot.Executor.LogCalls

/-!
# What a crash takes back

The executor, its log and the disk together.  A crash may come after any call
to the log, also in the middle of an event; what it leaves begins with the
mutations that were applied up to some point, and nothing but the last batch
can follow that was not acknowledged.
-/

namespace Carrot

section

variable [GoTables]

namespace Executor

/-! ## Histories -/

/-- How a history begins: at the start, or with a snapshot of a state that had
been reached after some of the mutations. -/
inductive Root (world : World) (base : List Step) (past : Executor → Prop)
    (applied : List Step) : List Step → Nat → Prop where
  | whole : Root world base past applied base 0
  | snapshot {start : Executor} {arrange : List Key → List Key} : past start →
      (∀ keys, (arrange keys).Perm keys) → start.applied <+: applied →
      Root world base past applied (start.cut world arrange) start.applied.length

omit [GoTables] in
theorem Root.append {world : World} {base : List Step} {past : Executor → Prop}
    {applied root : List Step} {offset : Nat} (origin : Root world base past applied root offset)
    (steps : List Step) : Root world base past (applied ++ steps) root offset := by
  cases origin with
  | whole => exact .whole
  | snapshot inPast arranged initial =>
      exact .snapshot inPast arranged (initial.trans (List.prefix_append _ _))

omit [GoTables] in
theorem Root.origin {world : World} {base : List Step} {past : Executor → Prop}
    {applied root : List Step} {offset : Nat} (origin : Root world base past applied root offset) :
    Origin world base past applied (root ++ applied.drop offset) := by
  cases origin with
  | whole => exact .inl rfl
  | snapshot inPast arranged initial => exact .inr ⟨_, _, inPast, arranged, initial, rfl⟩

/-- The history up to a number of mutations. -/
def upTo (root : List Step) (offset count : Nat) (applied : List Step) : List Step :=
  root ++ (applied.take count).drop offset

omit [GoTables] in
theorem upTo_append {root applied : List Step} {offset count : Nat}
    (bounded : count ≤ applied.length) (steps : List Step) :
    upTo root offset count (applied ++ steps) = upTo root offset count applied := by
  rw [upTo, upTo, List.take_append_of_le_length bounded]

omit [GoTables] in
theorem upTo_length (root applied : List Step) (offset : Nat) :
    upTo root offset applied.length applied = root ++ applied.drop offset := by
  rw [upTo, List.take_length]

omit [GoTables] in
/-- Whatever lies between a history up to some number and the whole history is
the history up to a greater number. -/
theorem exists_upTo {root applied : List Step} {offset count : Nat} (ordered : offset ≤ count)
    (bounded : count ≤ applied.length) {commands : List Command}
    (longer : (upTo root offset count applied).map Step.command <+: commands)
    (within : commands <+: (root ++ applied.drop offset).map Step.command) :
    ∃ further, count ≤ further ∧ further ≤ applied.length ∧
      commands = (upTo root offset further applied).map Step.command := by
  have low := longer.length_le
  have high := within.length_le
  simp only [upTo, List.length_map, List.length_append, List.length_drop, List.length_take]
    at low high
  refine ⟨offset + (commands.length - root.length), by omega, by omega, ?_⟩
  calc commands
      = ((root ++ applied.drop offset).map Step.command).take commands.length :=
        List.prefix_iff_eq_take.mp within
    _ = (upTo root offset (offset + (commands.length - root.length)) applied).map
          Step.command := by
        rw [← List.map_take, upTo, List.take_append, List.take_of_length_le (by omega),
          List.take_drop]

/-- A history describes the store, and a beginning of it has at least a given
number of the mutations. -/
structure Describes (world : World) (base : List Step) (past : Executor → Prop) (bound : Nat)
    (executor : Executor) (root : List Step) (offset count : Nat) : Prop where
  origin : Root world base past executor.applied root offset
  ordered : offset ≤ count
  bounded : count ≤ executor.applied.length
  covers : bound ≤ count
  explains : Explains (root ++ executor.applied.drop offset) (executor.now world) executor.store

variable {world : World} {base : List Step} {past : Executor → Prop} {bound : Nat}
  {before after executor : Executor} {root : List Step} {offset count : Nat}

omit [GoTables] in
theorem history_append (ordered : offset ≤ count) (bounded : count ≤ before.applied.length)
    (steps : List Step) :
    root ++ (before.applied ++ steps).drop offset =
      root ++ before.applied.drop offset ++ steps := by
  rw [List.drop_append_of_le_length (ordered.trans bounded), List.append_assoc]

theorem Describes.acts {calls : List LogCall} {steps : List Step}
    (describes : Describes world base past bound before root offset count)
    (acts : Acts world before calls steps after) :
    Describes world base past bound after root offset count where
  origin := by
    rw [acts.applied]
    exact describes.origin.append steps
  ordered := describes.ordered
  bounded := by
    rw [acts.applied, List.length_append]
    exact Nat.le_add_right_of_le describes.bounded
  covers := describes.covers
  explains := by
    rw [acts.applied, history_append describes.ordered describes.bounded]
    exact describes.explains.tracks acts.tracks

/-! ## The invariant -/

/-- A file that was replaced describes the store as well. -/
def scope (world : World) (base : List Step) (past : Executor → Prop) (bound : Nat)
    (clean : Prop) (submitted : List Command → Prop) (executor : Executor) : Scope where
  clean := clean
  submitted := submitted
  former earlier whole := ∃ root offset count,
    Describes world base past bound executor root offset count ∧
      earlier = (upTo root offset count executor.applied).map Step.command ∧
      whole = (root ++ executor.applied.drop offset).map Step.command ∧
      (executor.log.policy = .always → earlier = whole)

/-- The disk holds a history that describes the store, and the rewrite in
progress, if there is one, prepares another. -/
structure Safe (world : World) (base : List Step) (past : Executor → Prop) (bound : Nat)
    (clean : Prop) (submitted : List Command → Prop) (executor : Executor)
    (durable : DurableLog) : Prop where
  log : durable.log = executor.log
  wellFormed : executor.store.WellFormed
  aligned : (executor.store.view (executor.now world)).Aligned
  history : ∃ root offset count, Describes world base past bound executor root offset count ∧
    durable.Holding (scope world base past bound clean submitted executor)
      ((upTo root offset count executor.applied).map Step.command)
      ((root ++ executor.applied.drop offset).map Step.command)
  rewrite : ∀ job ∈ executor.log.rewrite, ∃ start arrange history,
    Prepares world past job start arrange executor.applied history ∧
      Explains history (executor.now world) executor.store

variable {clean : Prop} {submitted : List Command → Prop} {durable : DurableLog}

/-- What was known of a file that was replaced is still true when nothing was
applied; and otherwise no file was replaced. -/
theorem Safe.rescope {calls : List LogCall} {steps : List Step} {kept committed : List Command}
    (acts : Acts world before calls steps after) (same : durable.log = before.log)
    (ordinary : ∀ call ∈ calls, call.Ordinary)
    (holding :
      durable.Holding (scope world base past bound clean submitted before) kept committed) :
    durable.Holding (scope world base past bound clean submitted after) kept committed := by
  refine holding.mono id (fun _ => id) fun present earlier whole => ?_
  have failed : before.log.failed ≠ none := by
    intro healthy
    rw [← same] at healthy
    exact present (holding.working healthy).replaced
  have nothing : steps = [] := by
    have none := Log.committed_of_failed failed ordinary
    rw [acts.committed] at none
    exact List.map_eq_nil_iff.mp none
  have unchanged : after.applied = before.applied := by
    rw [acts.applied, nothing, List.append_nil]
  rintro ⟨root, offset, count, describes, rfl, rfl, always⟩
  refine ⟨root, offset, count, describes.acts acts, ?_, ?_, ?_⟩
  · rw [unchanged]
  · rw [unchanged]
  · rw [acts.log, Log.performs_policy]
    exact always

/-- Ordinary calls and what is applied after them. -/
theorem Safe.acts {calls : List LogCall} {steps : List Step}
    (safe : Safe world base past bound clean submitted before durable)
    (acts : Acts world before calls steps after) (repositions : world.Repositions)
    (submits : ∀ commands, Submits calls commands → submitted commands) :
    Safe world base past bound clean submitted after (durable.run calls) where
  log := by rw [DurableLog.run_log, safe.log, acts.log]
  wellFormed := acts.tracks.wellFormed
  aligned := acts.tracks.aligned safe.aligned
  history := by
    have ordinary := acts.ordinary repositions
    obtain ⟨root, offset, count, describes, holding⟩ := safe.history
    have rescoped := Safe.rescope acts safe.log ordinary holding
    obtain ⟨further, longer, later⟩ := rescoped.run ordinary submits
    rw [safe.log, acts.committed, ← List.map_append,
      ← history_append describes.ordered describes.bounded, ← acts.applied] at later
    have described := describes.acts acts
    rw [← upTo_append describes.bounded steps, ← acts.applied] at longer
    obtain ⟨newer, more, bounded, rfl⟩ :=
      exists_upTo described.ordered described.bounded longer later.initial
    exact ⟨root, offset, newer, ⟨described.origin, described.ordered.trans more, bounded,
      described.covers.trans more, described.explains⟩, later⟩
  rewrite job present := by
    rw [acts.log] at present
    obtain ⟨earlier, running, continues⟩ :=
      before.log.continues (acts.ordinary repositions) job present
    rw [acts.committed] at continues
    obtain ⟨start, arrange, history, prepares, explains⟩ := safe.rewrite earlier running
    rw [acts.applied]
    exact ⟨start, arrange, _, prepares.append continues, explains.tracks acts.tracks⟩

/-! ## Rewrites -/

section

variable (ordered : before.tick ≤ after.tick) (store : after.store = before.store)
  (applied : after.applied = before.applied)

include ordered store applied

theorem Describes.wait (describes : Describes world base past bound before root offset count)
    (wellFormed : before.store.WellFormed) :
    Describes world base past bound after root offset count where
  origin := by
    rw [applied]
    exact describes.origin
  ordered := describes.ordered
  bounded := by
    rw [applied]
    exact describes.bounded
  covers := describes.covers
  explains := by
    have waited : Tracks (before.now world) before.store [] (after.now world) before.store :=
      .wait (now_le ordered) wellFormed
    have explains := describes.explains.tracks waited
    rw [List.append_nil] at explains
    rw [applied, store]
    exact explains

theorem rescope_wait {kept committed : List Command}
    (holding : durable.Holding (scope world base past bound clean submitted before) kept committed)
    (wellFormed : before.store.WellFormed) (policy : after.log.policy = before.log.policy) :
    durable.Holding (scope world base past bound clean submitted after) kept committed := by
  refine holding.mono id (fun _ => id) fun _ earlier whole => ?_
  rintro ⟨root, offset, count, describes, rfl, rfl, always⟩
  refine ⟨root, offset, count, describes.wait ordered store applied wellFormed, ?_, ?_, ?_⟩
  · rw [applied]
  · rw [applied]
  · rw [policy]
    exact always

/-- A call that commits nothing, and may replace the rewrite in progress. -/
theorem Safe.wait (safe : Safe world base past bound clean submitted before durable)
    (policy : after.log.policy = before.log.policy) {next : DurableLog}
    (log : next.log = after.log)
    (holding : ∀ {scope : Scope} {kept committed : List Command},
      durable.Holding scope kept committed →
        ∃ further, kept <+: further ∧ next.Holding scope further committed)
    (rewrite : ∀ job ∈ after.log.rewrite, ∃ start arrange history,
      Prepares world past job start arrange before.applied history ∧
        Explains history (before.now world) before.store) :
    Safe world base past bound clean submitted after next where
  log := log
  wellFormed := by
    rw [store]
    exact safe.wellFormed
  aligned := by
    have waited : Tracks (before.now world) before.store [] (after.now world) before.store :=
      .wait (now_le ordered) safe.wellFormed
    rw [store]
    exact waited.aligned safe.aligned
  history := by
    obtain ⟨root, offset, count, describes, held⟩ := safe.history
    have described := describes.wait ordered store applied safe.wellFormed
    have rescoped := rescope_wait ordered store applied held safe.wellFormed policy
    obtain ⟨further, longer, later⟩ := holding rescoped
    rw [← applied] at longer later
    obtain ⟨newer, more, bounded, rfl⟩ :=
      exists_upTo described.ordered described.bounded longer later.initial
    exact ⟨root, offset, newer, ⟨described.origin, described.ordered.trans more, bounded,
      described.covers.trans more, described.explains⟩, later⟩
  rewrite job present := by
    obtain ⟨start, arrange, history, prepares, explains⟩ := rewrite job present
    have waited : Tracks (before.now world) before.store [] (after.now world) before.store :=
      .wait (now_le ordered) safe.wellFormed
    have later := explains.tracks waited
    rw [List.append_nil] at later
    rw [applied, store]
    exact ⟨start, arrange, history, prepares, later⟩

end

theorem Safe.startAOFRewriteNow (safe : Safe world base past bound clean submitted executor durable)
    (inPast : past executor) (prepare : Option Bytes) {arrange : List Key → List Key}
    (arranged : ∀ keys, (arrange keys).Perm keys) :
    Safe world base past bound clean submitted (executor.startAOFRewriteNow world prepare arrange).1
      (durable.run (executor.startCalls world prepare arrange)) := by
  unfold Executor.startAOFRewriteNow startCalls
  split
  next => exact safe
  next =>
    dsimp only
    have policy := (executor.log.startRewrite_frame prepare
      (executor.store.snapshotEntries (executor.now world) arrange)).2.2
    have holding : ∀ {scope : Scope} {kept committed : List Command},
        durable.Holding scope kept committed → ∃ further, kept <+: further ∧
          (durable.run [.startRewrite prepare (executor.store.snapshotEntries (executor.now world)
            arrange)]).Holding scope further committed :=
      fun held => ⟨_, List.prefix_refl _, held.call_startRewrite prepare _⟩
    split
    next log error failed =>
      obtain rfl := Log.startRewrite_error failed
      apply Safe.wait ?_ ?_ ?_ safe
      · rfl
      · rw [DurableLog.run_log, safe.log]
        exact congrArg Prod.fst failed
      · exact holding
      · exact safe.rewrite
      · exact Nat.le_succ _
      · rfl
      · rfl
    next log started =>
      have performed := congrArg Prod.fst started
      obtain ⟨-, rfl⟩ := Log.startRewrite_ok started
      apply Safe.wait ?_ ?_ ?_ safe
      · rfl
      · rw [DurableLog.run_log, safe.log]
        exact performed
      · exact holding
      · rintro job ⟨⟩
        refine ⟨executor, arrange, _, prepares_start inPast arranged,
          upper_cut executor arrange, ?_⟩
        exact safe.wellFormed.restore_snapshot arranged safe.aligned (le_refl _)
      · exact Nat.le_succ _
      · rfl
      · rfl

/-- A rewrite is installed: the new file holds the history that it prepared. -/
theorem Safe.installed (safe : Safe world base past bound clean submitted before durable)
    {disk : Log.CompleteDisk} {job : RewriteJob} (installs : before.log.Installs disk job)
    (ready : job.ready = some none) (ordered : before.tick ≤ after.tick)
    (store : after.store = before.store) (applied : after.applied = before.applied)
    (log : after.log = (before.log.completeRewrite disk).1) :
    Safe world base past bound clean submitted after (durable.run [.completeRewrite disk]) := by
  obtain ⟨root, offset, count, describes, holding⟩ := safe.history
  obtain ⟨start, arrange, history, prepares, explains⟩ := safe.rewrite job installs.running
  have written : job.temp ++ bytesOf job.delta = recordBytes (history.map Step.command) := by
    rw [prepares.since.history_eq, List.map_append, recordBytes_append, recordBytes_cut,
      prepares.snapshot ready, prepares.entries, prepares.delta installs.intact]
  have isFormer : (scope world base past bound clean submitted before).former
      ((upTo root offset count before.applied).map Step.command)
      ((root ++ before.applied.drop offset).map Step.command) := by
    refine ⟨root, offset, count, describes, rfl, rfl, fun always => holding.always ?_⟩
    rw [safe.log]
    exact always
  have fitting : durable.log.Installs disk job := by
    rw [safe.log]
    exact installs
  have policy : after.log.policy = before.log.policy := by
    rw [log, Log.completeRewrite_policy]
  have held := rescope_wait ordered store applied
    (holding.call_installed fitting written isFormer) safe.wellFormed policy
  have described : Describes world base past bound before (start.cut world arrange)
      start.applied.length before.applied.length := by
    refine ⟨.snapshot prepares.past prepares.since.arranged prepares.since.initial,
      prepares.since.initial.length_le, Nat.le_refl _, describes.covers.trans describes.bounded, ?_⟩
    rw [← prepares.since.history_eq]
    exact explains
  have waited : Tracks (before.now world) before.store [] (after.now world) before.store :=
    .wait (now_le ordered) safe.wellFormed
  refine ⟨?_, ?_, ?_, ⟨_, _, _, described.wait ordered store applied safe.wellFormed, ?_⟩, ?_⟩
  · rw [DurableLog.run_log, safe.log, log]
    rfl
  · rw [store]
    exact safe.wellFormed
  · rw [store]
    exact waited.aligned safe.aligned
  · rw [applied, upTo_length, ← prepares.since.history_eq]
    exact held
  · intro other present
    rw [log, Log.completeRewrite_rewrite] at present
    cases present

theorem Safe.finishAOFRewrite (safe : Safe world base past bound clean submitted executor durable)
    (repositions : world.Repositions) (disk : Log.CompleteDisk) :
    Safe world base past bound clean submitted (executor.finishAOFRewrite disk)
      (durable.run (executor.finishCalls disk)) := by
  unfold Executor.finishAOFRewrite finishCalls
  rcases waiting : executor.log.rewrite.bind RewriteJob.ready with _ | _ | cause
  · exact safe
  · by_cases installed : ∃ job, executor.log.Installs disk job
    · obtain ⟨job, installs⟩ := installed
      rw [installs.running] at waiting
      apply safe.installed installs waiting
      · exact Nat.le_refl _
      · rfl
      · rfl
      · rfl
    · have abandons : ∀ job, ¬ durable.log.Installs disk job := by
        rw [safe.log]
        exact fun job installs => installed ⟨job, installs⟩
      apply Safe.wait ?_ ?_ ?_ safe
      · exact executor.log.completeRewrite_policy disk
      · rw [DurableLog.run_log, safe.log]
        rfl
      · exact fun held => held.call_completeRewrite abandons
      · intro job present
        have absent : (executor.log.completeRewrite disk).1.rewrite = some job := present
        rw [executor.log.completeRewrite_rewrite disk] at absent
        cases absent
      · exact Nat.le_refl _
      · rfl
      · rfl
  · have journaled : Journaled world executor [.background (.abortRewrite disk.cleanup cause)] []
        ({ executor with log := (executor.log.abortRewrite disk.cleanup cause).1 }.setRewriteResult
          .failed (executor.log.abortRewrite disk.cleanup cause).2) :=
      ⟨Nat.le_refl _, rfl, rfl, rfl, rfl, by simp [LogCall.Ordinary]⟩
    refine safe.acts (journaled.idle safe.wellFormed) repositions ?_
    rintro _ ⟨_, _, impossible, _⟩
    simp at impossible

/-! ## Whole runs -/

theorem Safe.step (safe : Safe world base past bound clean submitted executor durable)
    (repositions : world.Repositions) (inPast : past executor) (event : Event)
    (submits : ∀ commands, Submits (executor.stepCalls world event) commands → submitted commands) :
    Safe world base past bound clean submitted (executor.step world event)
      (durable.run (executor.stepCalls world event)) := by
  cases event with
  | write event =>
      obtain ⟨steps, acts⟩ := acts_write safe.wellFormed event
      exact safe.acts acts repositions submits
  | startRewrite prepare arrange arranged => exact safe.startAOFRewriteNow inPast prepare arranged
  | finishRewrite disk => exact safe.finishAOFRewrite repositions disk
  | background action =>
      have journaled : Journaled world executor _ [] _ := journaled_background executor action
      exact safe.acts (journaled.idle safe.wellFormed) repositions submits

theorem runCalls_append (executor : Executor) (first second : List Event) :
    executor.runCalls world (first ++ second) =
      executor.runCalls world first ++ (executor.run world first).runCalls world second := by
  induction first generalizing executor with
  | nil => rfl
  | cons event first inductionHypothesis =>
      rw [List.cons_append, runCalls, inductionHypothesis, runCalls, List.append_assoc]
      rfl

theorem Safe.run (safe : Safe world base past bound clean submitted executor durable)
    (repositions : world.Repositions) (events : List Event)
    (inPast : ∀ earlier, earlier <+: events → past (executor.run world earlier))
    (submits : ∀ commands, Submits (executor.runCalls world events) commands →
      submitted commands) :
    Safe world base past bound clean submitted (executor.run world events)
      (durable.run (executor.runCalls world events)) := by
  induction events generalizing executor durable with
  | nil => exact safe
  | cons event events inductionHypothesis =>
      have first := safe.step repositions (inPast [] List.nil_prefix) event
        fun commands ⟨disk, batch, membership, same⟩ =>
          submits commands ⟨disk, batch, List.mem_append_left _ membership, same⟩
      have rest := inductionHypothesis first
        (fun earlier initial =>
          inPast (event :: earlier) ((List.prefix_cons_inj event).mpr initial))
        fun commands ⟨disk, batch, membership, same⟩ =>
          submits commands ⟨disk, batch, List.mem_append_right _ membership, same⟩
      rwa [← DurableLog.run_append] at rest

/-! ## Crashes -/

/-- The disk in the middle of an event: what it keeps of the history that
describes the store before the event, and what the event has committed. -/
structure Interrupted (world : World) (base : List Step) (past : Executor → Prop) (bound : Nat)
    (clean : Prop) (submitted : List Command → Prop) (executor : Executor) (calls : List LogCall)
    (durable : DurableLog) (root : List Step) (offset count : Nat)
    (kept more : List Command) : Prop where
  describes : Describes world base past bound executor root offset count
  longer : (upTo root offset count executor.applied).map Step.command <+: kept
  holding : durable.Holding (scope world base past bound clean submitted executor) kept
    ((root ++ executor.applied.drop offset).map Step.command ++ more)
  submits : ∀ command ∈ more, ∃ batch, Submits calls batch ∧ command ∈ batch

omit [GoTables] in
theorem submits_of_committed {log : Log} {calls : List LogCall} {command : Command}
    (membership : command ∈ log.committed calls) :
    ∃ batch, Submits calls batch ∧ command ∈ batch := by
  induction calls generalizing log with
  | nil => cases membership
  | cons call calls inductionHypothesis =>
      rw [Log.committed_cons] at membership
      rcases List.mem_append.mp membership with inside | inside
      · cases call with
        | append disk batch =>
            simp only [Log.committed, List.append_nil] at inside
            split at inside
            next => exact ⟨_, ⟨disk, batch, List.mem_cons_self, rfl⟩, inside⟩
            next => cases inside
        | _ => cases inside
      · obtain ⟨batch, ⟨disk, persisted, submitted, same⟩, present⟩ := inductionHypothesis inside
        exact ⟨batch, ⟨disk, persisted, List.mem_cons_of_mem _ submitted, same⟩, present⟩

theorem Safe.interrupted_ordinary {calls : List LogCall}
    (safe : Safe world base past bound clean submitted executor durable)
    (ordinary : ∀ call ∈ calls, call.Ordinary)
    (submits : ∀ commands, Submits calls commands → submitted commands) :
    ∃ root offset count kept more, Interrupted world base past bound clean submitted executor calls
      (durable.run calls) root offset count kept more := by
  obtain ⟨root, offset, count, describes, holding⟩ := safe.history
  obtain ⟨kept, longer, held⟩ := holding.run ordinary submits
  exact ⟨root, offset, count, kept, _, describes, longer, held,
    fun command => submits_of_committed⟩

/-- Calls that only change the log leave a history of the store. -/
theorem Safe.interrupted_idle {calls : List LogCall}
    (safe : Safe world base past bound clean submitted after durable)
    (tick : executor.tick = after.tick)
    (store : executor.store = after.store) (applied : executor.applied = after.applied)
    (policy : executor.log.policy = after.log.policy) :
    ∃ root offset count kept more, Interrupted world base past bound clean submitted executor calls
      durable root offset count kept more := by
  obtain ⟨root, offset, count, describes, holding⟩ := safe.history
  have held := rescope_wait tick.symm.le store applied holding safe.wellFormed policy
  refine ⟨root, offset, count, _, [], describes.wait tick.symm.le store applied safe.wellFormed,
    List.prefix_refl _, ?_, fun _ => by simp⟩
  rw [List.append_nil, applied]
  exact held

omit [GoTables] in
theorem finishAOFRewrite_frame (executor : Executor) (disk : Log.CompleteDisk) :
    executor.tick = (executor.finishAOFRewrite disk).tick ∧
      executor.store = (executor.finishAOFRewrite disk).store ∧
      executor.applied = (executor.finishAOFRewrite disk).applied ∧
      executor.log.policy = (executor.finishAOFRewrite disk).log.policy := by
  unfold Executor.finishAOFRewrite
  split
  next => exact ⟨rfl, rfl, rfl, rfl⟩
  next cause _ =>
    exact ⟨rfl, rfl, rfl, (executor.log.abortRewrite_frame disk.cleanup cause).2.2.symm⟩
  next => exact ⟨rfl, rfl, rfl, (executor.log.completeRewrite_policy disk).symm⟩

theorem Safe.interrupted (safe : Safe world base past bound clean submitted executor durable)
    (repositions : world.Repositions) {event : Event} {calls : List LogCall}
    (inFlight : calls <+: executor.stepCalls world event)
    (submits : ∀ commands, Submits calls commands → submitted commands) :
    ∃ root offset count kept more, Interrupted world base past bound clean submitted executor calls
      (durable.run calls) root offset count kept more := by
  cases event with
  | write event =>
      obtain ⟨steps, acts⟩ := acts_write safe.wellFormed event
      exact safe.interrupted_ordinary
        (fun call membership => acts.ordinary repositions call (inFlight.subset membership)) submits
  | background action =>
      have journaled : Journaled world executor _ [] _ := journaled_background executor action
      exact safe.interrupted_ordinary
        (fun call membership => journaled.ordinary repositions call (inFlight.subset membership))
        submits
  | startRewrite prepare arrange arranged =>
      obtain ⟨root, offset, count, describes, holding⟩ := safe.history
      have held : (durable.run calls).Holding (scope world base past bound clean submitted executor)
          ((upTo root offset count executor.applied).map Step.command)
          ((root ++ executor.applied.drop offset).map Step.command) := by
        simp only [stepCalls, startCalls] at inFlight
        split at inFlight
        next =>
          rw [List.prefix_nil.mp inFlight]
          exact holding
        next =>
          rcases List.prefix_cons_iff.mp inFlight with rfl | ⟨rest, rfl, nothing⟩
          · exact holding
          · rw [List.prefix_nil.mp nothing]
            exact holding.call_startRewrite prepare _
      refine ⟨root, offset, count, _, [], describes, List.prefix_refl _, ?_, fun _ => by simp⟩
      rw [List.append_nil]
      exact held
  | finishRewrite disk =>
      by_cases none : calls = []
      · rw [none]
        exact safe.interrupted_idle rfl rfl rfl rfl
      · have whole : calls = executor.finishCalls disk := by
          refine inFlight.eq_of_length (Nat.le_antisymm inFlight.length_le ?_)
          have atMost : (executor.finishCalls disk).length ≤ 1 := by
            unfold finishCalls
            split <;> simp
          exact atMost.trans (List.length_pos_iff.mpr none)
        obtain ⟨tick, store, applied, policy⟩ := executor.finishAOFRewrite_frame disk
        rw [whole]
        exact (safe.finishAOFRewrite repositions disk).interrupted_idle tick store applied policy

/-- What was read after a crash consists of a history up to some mutation and
of commands that were submitted. -/
theorem Describes.reads (describes : Describes world base past bound executor root offset count)
    {kept more read : List Command} {contents : Bytes} {scope : Scope}
    (longer : (upTo root offset count executor.applied).map Step.command <+: kept)
    (added : ∀ command ∈ more, ∃ batch, scope.submitted batch ∧ command ∈ batch)
    (recovers : DurableLog.Recovers scope kept
      ((root ++ executor.applied.drop offset).map Step.command ++ more) contents read) :
    ∃ further extra, read = (upTo root offset further executor.applied).map Step.command ++ extra ∧
      count ≤ further ∧ further ≤ executor.applied.length ∧
      (∀ command ∈ extra, ∃ batch, scope.submitted batch ∧ command ∈ batch) ∧
      ((root ++ executor.applied.drop offset).map Step.command <+: read →
        further = executor.applied.length) := by
  obtain ⟨start, tail, torn, initial, within, source, isCut, -⟩ := recovers.cut
  generalize whole : (root ++ executor.applied.drop offset).map Step.command = history at within ⊢
  have fromTail : ∀ {some : List Command}, some <+: tail →
      ∀ command ∈ some, ∃ batch, scope.submitted batch ∧ command ∈ batch := by
    intro some part command membership
    rcases source with rfl | isSubmitted
    · rw [List.prefix_nil.mp part] at membership
      cases membership
    · exact ⟨tail, isSubmitted, part.subset membership⟩
  -- Where the read commands stop, compared with the base of the file.
  have bounds : ∃ base rest, read = base ++ rest ∧ base <+: history ++ more ∧ rest <+: tail ∧
      kept <+: base := by
    rcases List.prefix_or_prefix_of_prefix isCut.initial (List.prefix_append start tail) with
      before | ⟨rest, rfl⟩
    · exact ⟨read, [], (List.append_nil _).symm, before.trans within, List.nil_prefix,
        recovers.keeps⟩
    · exact ⟨start, rest, rfl, within, (List.prefix_append_right_inj _).mp isCut.initial, initial⟩
  obtain ⟨part, rest, rfl, inside, fromBatch, keeps⟩ := bounds
  by_cases complete : history <+: part ++ rest
  · obtain ⟨extra, split⟩ := complete
    refine ⟨executor.applied.length, extra, ?_, describes.bounded, Nat.le_refl _, ?_, fun _ => rfl⟩
    · rw [upTo_length, whole, split]
    · rcases List.prefix_or_prefix_of_prefix inside (List.prefix_append history more) with
        ⟨lost, rfl⟩ | ⟨beyond, rfl⟩
      · rw [List.append_assoc, List.append_cancel_left_eq] at split
        intro command membership
        refine fromTail fromBatch command ?_
        rw [← split]
        exact List.mem_append_right _ membership
      · rw [List.append_assoc, List.append_cancel_left_eq] at split
        intro command membership
        rw [split] at membership
        rcases List.mem_append.mp membership with isAdded | isBatch
        · exact added command (((List.prefix_append_right_inj _).mp inside).subset isAdded)
        · exact fromTail fromBatch command isBatch
  · have short : part <+: history := by
      rcases List.prefix_or_prefix_of_prefix inside (List.prefix_append history more) with
        short | beyond
      · exact short
      · exact absurd (beyond.trans (List.prefix_append _ _)) complete
    rw [← whole] at short
    obtain ⟨further, more, bounded, same⟩ :=
      exists_upTo describes.ordered describes.bounded (longer.trans keeps) short
    refine ⟨further, rest, by rw [same], more, bounded, fromTail fromBatch, fun contradiction => ?_⟩
    exact absurd contradiction complete

/-- A part of a record. -/
def TornRecord (torn : Bytes) : Prop :=
  ∃ command missing, Command.record command = torn ++ missing ∧ missing ≠ []

/-- What a crash leaves: a history up to some mutation, commands that were
submitted, and perhaps a part of a record. -/
structure Leaves (world : World) (base : List Step) (past : Executor → Prop) (bound : Nat)
    (submitted : List Command → Prop) (executor : Executor) (contents : Bytes) (root : List Step)
    (offset count : Nat) (extra : List Command) (torn : Bytes) : Prop where
  describes : Describes world base past bound executor root offset count
  contents_eq : contents =
    recordBytes ((upTo root offset count executor.applied).map Step.command ++ extra) ++ torn
  added : ∀ command ∈ extra, ∃ batch, submitted batch ∧ command ∈ batch
  partly : torn ≠ [] → ∃ command missing, command.record = torn ++ missing ∧ missing ≠ [] ∧
    (command ∈ (root ++ executor.applied.drop offset).map Step.command ∨
      ∃ batch, submitted batch ∧ command ∈ batch)

theorem Leaves.tornRecord {contents torn : Bytes} {extra : List Command}
    {submitted : List Command → Prop}
    (leaves : Leaves world base past bound submitted executor contents root offset count extra torn)
    (present : torn ≠ []) : TornRecord torn := by
  obtain ⟨command, missing, split, incomplete, -⟩ := leaves.partly present
  exact ⟨command, missing, split, incomplete⟩

theorem leaves_of_recovers (describes : Describes world base past bound executor root offset count)
    {kept more read : List Command} {contents : Bytes} {scope : Scope}
    (longer : (upTo root offset count executor.applied).map Step.command <+: kept)
    (added : ∀ command ∈ more, ∃ batch, scope.submitted batch ∧ command ∈ batch)
    (recovers : DurableLog.Recovers scope kept
      ((root ++ executor.applied.drop offset).map Step.command ++ more) contents read) :
    ∃ further extra torn,
      Leaves world base past bound scope.submitted executor contents root offset further extra
        torn ∧
      ((root ++ executor.applied.drop offset).map Step.command <+: kept →
        further = executor.applied.length) := by
  obtain ⟨further, extra, same, atLeast, bounded, isSubmitted, complete⟩ :=
    describes.reads longer added recovers
  obtain ⟨start, tail, torn, _, within, source, isCut, contents_eq⟩ := recovers.cut
  refine ⟨further, extra, torn, ⟨⟨describes.origin, describes.ordered.trans atLeast, bounded,
    describes.covers.trans atLeast, describes.explains⟩, ?_, isSubmitted, fun present => ?_⟩,
    fun keepsAll => complete (keepsAll.trans recovers.keeps)⟩
  · rw [contents_eq, same]
  · obtain ⟨command, missing, next, split, incomplete⟩ := isCut.partly present
    refine ⟨command, missing, split, incomplete, ?_⟩
    have membership : command ∈ start ++ tail := next.subset (by simp)
    rcases List.mem_append.mp membership with inside | inside
    · rcases List.mem_append.mp (within.subset inside) with isOld | isAdded
      · exact .inl isOld
      · exact .inr (added command isAdded)
    · rcases source with rfl | isSubmittedBatch
      · cases inside
      · exact .inr ⟨tail, isSubmittedBatch, inside⟩

theorem Interrupted.leaves {calls : List LogCall} {kept more : List Command}
    (interrupted : Interrupted world base past bound clean submitted executor calls durable root
      offset count kept more)
    (submits : ∀ commands, Submits calls commands → submitted commands)
    (policy : durable.log.policy = executor.log.policy) {contents : Bytes}
    (survives : durable.disk.Survives contents) :
    ∃ root offset count extra torn,
      Leaves world base past bound submitted executor contents root offset count extra torn ∧
        (executor.log.policy = .always → count = executor.applied.length) := by
  obtain ⟨earlier, whole, ⟨rfl, rfl⟩ | former, read, recovers⟩ :=
    interrupted.holding.survives survives
  · have added : ∀ command ∈ more, ∃ batch, submitted batch ∧ command ∈ batch := by
      intro command membership
      obtain ⟨batch, isSubmitted, inside⟩ := interrupted.submits command membership
      exact ⟨batch, submits batch isSubmitted, inside⟩
    obtain ⟨further, extra, torn, leaves, complete⟩ :=
      leaves_of_recovers interrupted.describes interrupted.longer added recovers
    refine ⟨root, offset, further, extra, torn, leaves, fun always => complete ?_⟩
    rw [interrupted.holding.always (policy.trans always)]
    exact List.prefix_append _ _
  · obtain ⟨root, offset, count, describes, rfl, rfl, always⟩ := former
    rw [← List.append_nil ((root ++ executor.applied.drop offset).map Step.command)] at recovers
    obtain ⟨further, extra, torn, leaves, complete⟩ :=
      leaves_of_recovers describes (List.prefix_refl _) (fun _ => by simp) recovers
    refine ⟨root, offset, further, extra, torn, leaves, fun isAlways => complete ?_⟩
    rw [always isAlways]

/-! ## The guarantees -/

/-- The log of an executor on a disk that holds its file. -/
def onDisk (executor : Executor) : DurableLog :=
  ⟨executor.log, .settled executor.log.file.sink⟩

/-- A log that has just been opened, on a disk where its file may have had a
torn record. -/
theorem Faithful.safe_on {start : Executor} (faithful : Faithful world base start)
    {disk : CrashDisk UInt8} (replaced : disk.replaced = [])
    (current : disk.active.current = recordBytes (base.map Step.command))
    (certain : recordBytes (base.map Step.command) <+: disk.active.certain)
    (versions : ∀ version ∈ disk.active.versions, version <+: recordBytes (base.map Step.command) ∨
      ¬ clean ∧ ∃ batch, submitted batch ∧
        version <+: recordBytes (base.map Step.command ++ batch)) :
    Safe world base past 0 clean submitted start ⟨start.log, disk⟩ where
  log := rfl
  wellFormed := faithful.wellFormed
  aligned := faithful.aligned
  history := by
    refine ⟨base, 0, 0, ⟨.whole, Nat.le_refl _, Nat.zero_le _, Nat.le_refl _, ?_⟩, ?_⟩
    · rw [faithful.fresh, List.drop_nil, List.append_nil]
      exact faithful.explains
    · rw [upTo, faithful.fresh, List.take_nil, List.drop_nil, List.append_nil]
      have whole : (scope world base past 0 clean submitted start).Allowed
          (base.map Step.command) (base.map Step.command) (base.map Step.command) :=
        .whole (List.prefix_refl _)
      refine ⟨List.prefix_refl _, ⟨certain, fun version membership => ?_⟩, ?_, ⟨_, whole, ?_⟩, ?_,
        ?_, fun _ => rfl⟩
      · rcases versions version membership with inside | ⟨-, batch, isSubmitted, inside⟩
        · exact ⟨_, whole, List.prefix_refl _, inside⟩
        · exact ⟨_, ⟨_, batch, List.prefix_refl _, List.prefix_refl _, rfl, .inr isSubmitted⟩,
            List.prefix_append _ _, inside⟩
      · intro file membership
        rw [replaced] at membership
        cases membership
      · rw [faithful.file, bytesOf_of_empty rfl]
      · exact fun _ => ⟨replaced, faithful.file, current⟩
      · intro isClean _ version membership
        rcases versions version membership with inside | ⟨torn, -⟩
        · exact inside
        · exact absurd isClean torn
  rewrite job present := by
    rw [faithful.idle] at present
    cases present

theorem Faithful.safe {start : Executor} (faithful : Faithful world base start) :
    Safe world base past 0 True submitted start start.onDisk := by
  have file : start.log.file.sink = recordBytes (base.map Step.command) := by rw [faithful.file]
  apply faithful.safe_on
  · rfl
  · exact file
  · rw [← file]
    exact List.prefix_refl _
  · intro version membership
    rw [CrashFile.mem_versions_settled membership, file]
    exact .inl (List.prefix_refl _)

theorem Origin.passes {start : Executor} {events : List Event} {applied history : List Step}
    (origin : Origin world base (Passes world start events) applied history) :
    history = base ++ applied ∨ ∃ earlier arrange, earlier <+: events ∧
      Since world (start.run world earlier) arrange applied history := by
  rcases origin with whole | ⟨_, arrange, ⟨earlier, initial, rfl⟩, since⟩
  · exact .inl whole
  · exact .inr ⟨earlier, arrange, initial, since⟩

theorem Leaves.origin {contents torn : Bytes} {extra : List Command}
    (leaves : Leaves world base past bound submitted executor contents root offset count extra
      torn) :
    Origin world base past (executor.applied.take count)
      (upTo root offset count executor.applied) := by
  have describes := leaves.describes
  cases describes.origin with
  | whole => exact .inl rfl
  | snapshot inPast arranged initial =>
      refine .inr ⟨_, _, inPast, arranged, ?_, rfl⟩
      exact List.prefix_of_prefix_length_le initial (List.take_prefix _ _) (by
        rw [List.length_take, Nat.min_eq_left describes.bounded]
        exact describes.ordered)

/-- If every append is synced, a crash leaves a history that describes the store.
Only commands that were submitted may follow, and none if nothing has failed and
no event is interrupted. -/
theorem Safe.crash (safe : Safe world base past bound True submitted executor durable)
    (repositions : world.Repositions) (always : executor.log.policy = .always) {event : Event}
    {calls : List LogCall} (inFlight : calls <+: executor.stepCalls world event)
    (submits : ∀ commands, Submits calls commands → submitted commands) {contents : Bytes}
    (survives : (durable.run calls).disk.Survives contents) :
    ∃ history extra torn,
      contents = recordBytes (history.map Step.command ++ extra) ++ torn ∧
      (Store.new.executeAll history).view (executor.now world) =
        executor.store.view (executor.now world) ∧
      Origin world base past executor.applied history ∧
      (∀ command ∈ extra, ∃ batch, submitted batch ∧ command ∈ batch) ∧
      (torn ≠ [] → TornRecord torn) ∧
      (executor.log.failed = none → calls = [] → extra = [] ∧ torn = []) := by
  by_cases quiet : executor.log.failed = none ∧ calls = []
  · obtain ⟨healthy, rfl⟩ := quiet
    obtain ⟨root, offset, count, describes, holding⟩ := safe.history
    have exact_contents := holding.survives_exact trivial (by rw [safe.log, healthy])
      (by rw [safe.log, always]) survives
    refine ⟨_, [], [], ?_, describes.explains.view, describes.origin.origin, by simp, by simp,
      fun _ _ => ⟨rfl, rfl⟩⟩
    rw [List.append_nil, List.append_nil]
    exact exact_contents
  · obtain ⟨root, offset, count, kept, more, interrupted⟩ :=
      safe.interrupted repositions inFlight submits
    have policy : (durable.run calls).log.policy = executor.log.policy := by
      rw [DurableLog.run_log, Log.performs_policy, safe.log]
    obtain ⟨root, offset, count, extra, torn, leaves, complete⟩ :=
      interrupted.leaves submits policy survives
    obtain rfl := complete always
    have origin := leaves.origin
    rw [List.take_length] at origin
    have explains := leaves.describes.explains
    rw [← upTo_length] at explains
    exact ⟨_, extra, torn, leaves.contents_eq, explains.view, origin, leaves.added,
      leaves.tornRecord, fun healthy none => absurd ⟨healthy, none⟩ quiet⟩

/-- If every append is synced, no crash takes back a mutation that was applied.
The crash may come in the middle of an event, any call to the disk may have
failed before but the seek of a rollback, and a rewrite may have replaced the
file: what is found begins with a history that, executed at the clocks at which
its commands were applied, brings back what clients saw.  Only commands that were
submitted and not acknowledged may follow, and none if nothing has failed and
no event is interrupted. -/
theorem crash_keeps_applied (world : World) (repositions : world.Repositions) {start : Executor}
    {base : List Step} (faithful : Faithful world base start)
    (always : start.log.policy = .always) (events : List Event) {event : Event}
    {calls : List LogCall} (inFlight : calls <+: (start.run world events).stepCalls world event)
    {contents : Bytes}
    (survives :
      (start.onDisk.run (start.runCalls world events ++ calls)).disk.Survives contents) :
    let final := start.run world events
    ∃ history extra torn,
      contents = recordBytes (history.map Step.command ++ extra) ++ torn ∧
      (Store.new.executeAll history).view (final.now world) = final.store.view (final.now world) ∧
      (history = base ++ final.applied ∨ ∃ earlier arrange, earlier <+: events ∧
        Since world (start.run world earlier) arrange final.applied history) ∧
      (∀ command ∈ extra, ∃ batch,
        Submits (start.runCalls world events ++ calls) batch ∧ command ∈ batch) ∧
      (torn ≠ [] → TornRecord torn) ∧
      (final.log.failed = none → calls = [] → extra = [] ∧ torn = []) := by
  intro final
  have submits : ∀ commands, Submits calls commands →
      Submits (start.runCalls world events ++ calls) commands := by
    rintro commands ⟨disk, batch, membership, same⟩
    exact ⟨disk, batch, List.mem_append_right _ membership, same⟩
  have safe : Safe world base (Passes world start events) 0 True
      (Submits (start.runCalls world events ++ calls)) final
      (start.onDisk.run (start.runCalls world events)) := by
    refine faithful.safe.run repositions events (fun earlier initial => ⟨earlier, initial, rfl⟩) ?_
    rintro commands ⟨disk, batch, membership, same⟩
    exact ⟨disk, batch, List.mem_append_left _ membership, same⟩
  have stays : final.log.policy = .always := by
    rw [← safe.log, DurableLog.run_log, Log.performs_policy]
    exact always
  rw [DurableLog.run_append] at survives
  obtain ⟨history, extra, torn, same, view, origin, added, isTorn, quiet⟩ :=
    safe.crash repositions stays inFlight submits survives
  exact ⟨history, extra, torn, same, view, origin.passes, added, isTorn, quiet⟩

/-- A successful sync keeps everything that was applied before it. -/
theorem Safe.synced (safe : Safe world base past bound clean submitted executor durable)
    (ticks : executor.log.Ticks = true) :
    Safe world base past executor.applied.length clean submitted
      (executor.background (.task (.sync none)))
      (durable.run [.background (.task (.sync none))]) := by
  have healthy : durable.log.failed = none := by
    rw [safe.log]
    exact Log.healthy_of_ticks ticks
  obtain ⟨root, offset, count, describes, holding⟩ := safe.history
  have described : Describes world base past executor.applied.length
      (executor.background (.task (.sync none))) root offset executor.applied.length :=
    ⟨describes.origin, describes.ordered.trans describes.bounded, Nat.le_refl _, Nat.le_refl _,
      describes.explains⟩
  refine ⟨?_, safe.wellFormed, safe.aligned, ⟨root, offset, _, described, ?_⟩, ?_⟩
  · rw [DurableLog.run_log, safe.log]
    rfl
  · have rescoped : durable.Holding (scope world base past executor.applied.length clean submitted
        (executor.background (.task (.sync none))))
        ((upTo root offset count executor.applied).map Step.command)
        ((root ++ executor.applied.drop offset).map Step.command) := by
      apply holding.mono
      · exact id
      · exact fun _ => id
      · exact fun present => absurd (holding.working healthy).replaced present
    have held := rescoped.call_synced (by rw [safe.log, ticks])
    change DurableLog.Holding _ ((upTo root offset executor.applied.length executor.applied).map
      Step.command) _ _
    rw [upTo_length]
    exact held
  · intro job present
    rw [show (executor.background (.task (.sync none))).log = executor.log.syncTick none from rfl,
      Log.syncTick_eq, if_pos ticks] at present
    exact safe.rewrite job present

/-- With the policy that syncs every second, a crash takes back nothing that was
applied before the loop last succeeded: what is found begins with the mutations
up to some point after that.  Any call to the disk may have failed but the seek of a
rollback.  Under the other policies the loop does nothing. -/
theorem crash_keeps_synced (world : World) (repositions : world.Repositions) {start : Executor}
    {base : List Step} (faithful : Faithful world base start) {earlier later : List Event}
    (ticks : (start.run world earlier).log.Ticks = true) {event : Event} {calls : List LogCall}
    (inFlight : calls <+: (start.run world
      (earlier ++ .background (.task (.sync none)) :: later)).stepCalls world event)
    {contents : Bytes}
    (survives : (start.onDisk.run (start.runCalls world
      (earlier ++ .background (.task (.sync none)) :: later) ++ calls)).disk.Survives contents) :
    let events := earlier ++ .background (.task (.sync none)) :: later
    let final := start.run world events
    ∃ count history extra torn,
      (start.run world earlier).applied.length ≤ count ∧ count ≤ final.applied.length ∧
      contents = recordBytes (history.map Step.command ++ extra) ++ torn ∧
      (history = base ++ final.applied.take count ∨ ∃ before arrange, before <+: events ∧
        Since world (start.run world before) arrange (final.applied.take count) history) ∧
      (∀ command ∈ extra, ∃ batch,
        Submits (start.runCalls world events ++ calls) batch ∧ command ∈ batch) ∧
      (torn ≠ [] → TornRecord torn) := by
  intro events final
  have passes : ∀ before, before <+: events → Passes world start events (start.run world before) :=
    fun before initial => ⟨before, initial, rfl⟩
  have submitted : ∀ {some : List LogCall}, some ⊆ start.runCalls world events ++ calls →
      ∀ commands, Submits some commands →
        Submits (start.runCalls world events ++ calls) commands := by
    rintro some included commands ⟨disk, batch, membership, same⟩
    exact ⟨disk, batch, included membership, same⟩
  have split : start.runCalls world events = start.runCalls world earlier ++
      (.background (.task (.sync none)) ::
        ((start.run world earlier).background (.task (.sync none))).runCalls world later) :=
    runCalls_append start earlier (.background (.task (.sync none)) :: later)
  have reached : final =
      ((start.run world earlier).background (.task (.sync none))).run world later := by
    simp only [final, events, run, List.foldl_append, List.foldl_cons]
    rfl
  have first : Safe world base (Passes world start events) 0 True
      (Submits (start.runCalls world events ++ calls)) (start.run world earlier)
      (start.onDisk.run (start.runCalls world earlier)) := by
    apply faithful.safe.run repositions earlier
    · exact fun before initial => passes before (initial.trans (List.prefix_append _ _))
    · apply submitted
      rw [split, List.append_assoc]
      exact List.subset_append_left _ _
  have safe := (first.synced ticks).run repositions later
    (fun before initial => by
      refine ⟨earlier ++ .background (.task (.sync none)) :: before, ?_, ?_⟩
      · exact (List.prefix_append_right_inj _).mpr ((List.prefix_cons_inj _).mpr initial)
      · simp only [run, List.foldl_append, List.foldl_cons]
        rfl)
    (by
      apply submitted
      rw [split]
      intro call membership
      simp [membership])
  rw [← DurableLog.run_append, ← DurableLog.run_append, List.singleton_append,
    ← split, ← reached] at safe
  have submits := submitted (List.subset_append_right (start.runCalls world events) calls)
  rw [DurableLog.run_append] at survives
  obtain ⟨root, offset, count, kept, more, interrupted⟩ :=
    safe.interrupted repositions inFlight submits
  have policy : ((start.onDisk.run (start.runCalls world events)).run calls).log.policy =
      final.log.policy := by
    rw [DurableLog.run_log, Log.performs_policy, safe.log]
  obtain ⟨root, offset, count, extra, torn, leaves, -⟩ :=
    interrupted.leaves submits policy survives
  exact ⟨count, _, extra, torn, leaves.describes.covers, leaves.describes.bounded,
    leaves.contents_eq, leaves.origin.passes, leaves.added, leaves.tornRecord⟩

end Executor

end

/-- A world whose disk takes five bytes of each append from some tick on, and
can not cut them off again. -/
def World.failing (clock : Clock) (tick : Nat) : World :=
  { World.still clock with
    disk := fun now =>
      if now < tick then (World.still clock).disk now
      else ⟨none, some (5, bytes "disk full"), none, some (bytes "disk full"), none, none, none⟩ }

theorem World.failing_repositions (clock : Clock) (tick : Nat) :
    (World.failing clock tick).Repositions := by
  intro now
  unfold World.failing
  dsimp only
  split <;> rfl

section

attribute [local instance] GoTables.ascii

/-- The second write stops after five bytes, and the crash leaves them. -/
theorem Executor.crash_keeps_applied_torn :
    let world := World.failing ⟨0, by decide⟩ 4
    let start := Executor.new .always 0 false
    let set : Command := ⟨bytes "SET", [bytes "k", bytes "v"]⟩
    let push : Command := ⟨bytes "RPUSH", [bytes "l", bytes "a"]⟩
    let events : List Event := [.write (.commit [set])]
    let calls := (start.run world events).stepCalls world (.write (.commit [push]))
    let contents := set.record ++ push.record.take 5
    (start.onDisk.run (start.runCalls world events ++ calls)).disk.active.certain = set.record ∧
      ∃ (history : List Step) (extra : List Command) (torn : Bytes),
        contents = recordBytes (history.map Step.command ++ extra) ++ torn ∧
        (Store.new.executeAll history).view ((start.run world events).now world) =
          (start.run world events).store.view ((start.run world events).now world) ∧
        (torn ≠ [] → TornRecord torn) := by
  intro world start set push events calls contents
  have certain : (start.onDisk.run (start.runCalls world events ++ calls)).disk.active.certain =
      set.record := by decide +kernel
  have written : (start.onDisk.run (start.runCalls world events ++ calls)).disk.active.current =
      contents := by decide +kernel
  have survives : (start.onDisk.run (start.runCalls world events ++ calls)).disk.Survives
      contents := by
    rw [← written]
    apply CrashDisk.survives_current
    rw [certain, written]
    exact List.prefix_append _ _
  obtain ⟨history, extra, torn, same, view, -, -, isTorn, -⟩ :=
    crash_keeps_applied world (World.failing_repositions _ 4) (faithful_new _ .always 0 false) rfl
      events (List.prefix_refl calls) survives
  exact ⟨certain, history, extra, torn, same, view, isTorn⟩

/-- The first write is synced by the loop, and a crash may take back the second. -/
theorem Executor.crash_keeps_synced_first :
    let world := World.still ⟨0, by decide⟩
    let start := Executor.new .everysec 0 false
    let set : Command := ⟨bytes "SET", [bytes "k", bytes "v"]⟩
    let push : Command := ⟨bytes "RPUSH", [bytes "l", bytes "a"]⟩
    let events : List Event :=
      [.write (.commit [set])] ++ .background (.task (.sync none)) :: [.write (.commit [push])]
    let final := start.run world events
    (start.run world [.write (.commit [set])]).applied.length = 1 ∧ final.applied.length = 2 ∧
      ∃ (count : Nat) (history : List Step) (extra : List Command) (torn : Bytes),
        1 ≤ count ∧ count ≤ 2 ∧
          set.record = recordBytes (history.map Step.command ++ extra) ++ torn := by
  intro world start set push events final
  have first : (start.run world [.write (.commit [set])]).applied.length = 1 := by decide +kernel
  have both : final.applied.length = 2 := by decide +kernel
  have certain : (start.onDisk.run (start.runCalls world events ++ [])).disk.active.certain =
      set.record := by decide +kernel
  have written : (start.onDisk.run (start.runCalls world events ++ [])).disk.active.current =
      set.record ++ push.record := by decide +kernel
  have survives : (start.onDisk.run (start.runCalls world events ++ [])).disk.Survives
      set.record := by
    refine ⟨_, List.mem_cons_self, ?_, _, CrashFile.current_mem_versions _, ?_⟩
    · rw [certain]
    · rw [written]
      exact List.prefix_append _ _
  obtain ⟨count, history, extra, torn, least, most, same, -⟩ :=
    crash_keeps_synced world (fun _ => rfl) (faithful_new _ .everysec 0 false)
      (show (start.run world [.write (.commit [set])]).log.Ticks = true by decide +kernel)
      (List.nil_prefix : [] <+: final.stepCalls world (.write (.commit []))) survives
  rw [first] at least
  rw [both] at most
  exact ⟨first, both, count, history, extra, torn, least, most, same⟩

end

end Carrot
