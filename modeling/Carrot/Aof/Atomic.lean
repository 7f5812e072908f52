import Carrot.Aof.Append

/-!
# Appends are all or nothing

A batch is appended as a whole, or the log is as it was and refuses every later
append.  The operating system may fail any write and the sync; what is assumed
is that the calls that cut a failed append off succeed.
-/

namespace Carrot

/-! ## Files that take everything -/

theorem FileSink.unlimited_stable :
    BufferedWriter.Stable FileSink.accept fun file => file.budget = none := by
  intro file data unlimited
  rw [FileSink.accept, unlimited]

theorem FileSink.unlimited_accepts (file : FileSink) (data : Bytes)
    (unlimited : file.budget = none) :
    (file.accept data).2 = none := by
  rw [FileSink.accept, unlimited]

/-- A record that was written once is not too long to be written again. -/
theorem writeRecord_again {size : Nat} (other : Nat) {writer after : BufferedWriter FileSink}
    {command : Command} (success : writeRecord size writer command = (after, none))
    {second : BufferedWriter FileSink} (unlimited : second.sink.budget = none) :
    ∃ third, writeRecord other second command = (third, none) ∧ third.sink.budget = none := by
  unfold writeRecord at success ⊢
  split at success
  next => cases success
  next data encoded =>
    have accepted := FileSink.unlimited_stable.write_accepted FileSink.unlimited_accepts other data
      unlimited
    have still := FileSink.unlimited_stable.write other data unlimited
    split
    next third written =>
      rw [written] at still
      exact ⟨third, rfl, still⟩
    next refused =>
      rw [refused] at accepted
      cases accepted

theorem writeRecords_again {size : Nat} (other : Nat) {writer after : BufferedWriter FileSink}
    {commands : List Command} (success : writeRecords size writer commands = (after, none))
    {second : BufferedWriter FileSink} (unlimited : second.sink.budget = none) :
    (writeRecords other second commands).2 = none := by
  induction commands generalizing writer second with
  | nil => rfl
  | cons command commands inductionHypothesis =>
      simp only [writeRecords] at success ⊢
      split at success
      next => cases success
      next first =>
        obtain ⟨third, written, still⟩ := writeRecord_again other first unlimited
        rw [written]
        exact inductionHypothesis success still

namespace Log

/-- A log that takes appends.  Between operations its buffer is empty. -/
structure Healthy (log : Log) : Prop where
  notClosed : log.closed = false
  notClosing : log.closing = false
  working : log.failed = none
  empty : log.file.buffered = []

section

variable [GoTables]

/-- `AppendBatch`.  Each command is made canonical at its own reading of the
clock. -/
def appendCommands (log : Log) (disk : AppendDisk) (commands : List (Command × Clock)) :
    Log × Except Bytes (List Command) :=
  let batch := commands.map fun command => persist command.1 command.2
  match log.appendBatch disk batch with
  | (log, some error) => (log, .error error)
  | (log, none) => (log, .ok (batch.map Persisted.command))

/-- The records that the commands of a batch have. -/
def canonicalCommands (commands : List (Command × Clock)) : List Command :=
  commands.filterMap fun command => canonicalCommand command.1 command.2

/-- The batch was appended as a whole. -/
structure Appended (before : Log) (disk : AppendDisk) (commands : List (Command × Clock))
    (after : Log) (applied : List Command) : Prop where
  healthy : after.Healthy
  file : after.file.sink = before.file.sink ++ recordBytes (canonicalCommands commands)
  applied : applied = commands.map fun command =>
    (canonicalCommand command.1 command.2).getD command.1
  noRewrite : before.rewrite = none → after.rewrite = none
  delta : ∀ job, before.rewrite = some job → job.deltaErr = none →
    ∃ delta deltaErr, after.rewrite = some { job with delta, deltaErr } ∧
      (deltaErr = none →
        bytesOf delta = bytesOf job.delta ++ recordBytes (canonicalCommands commands)) ∧
      (disk.deltaBudget = none → deltaErr = none)
  broken : ∀ job, before.rewrite = some job → job.deltaErr ≠ none → after.rewrite = some job

/-- Nothing was appended, and nothing will be. -/
structure Refused (before after : Log) : Prop where
  file : after.file = ⟨before.file.sink, []⟩
  rewrite : after.rewrite = before.rewrite
  refuses : ∀ disk commands, ∃ error, after.appendCommands disk commands = (after, .error error)

theorem recorded_persist (commands : List (Command × Clock)) :
    recorded (commands.map fun command => persist command.1 command.2) =
      canonicalCommands commands := by
  induction commands with
  | nil => rfl
  | cons command commands inductionHypothesis =>
      simp only [recorded, canonicalCommands, List.map_cons, List.filterMap_cons, persist]
        at inductionHypothesis ⊢
      cases canonicalCommand command.1 command.2 with
      | none => simpa using inductionHypothesis
      | some canonical => simpa using inductionHypothesis

theorem command_persist (command : Command) (now : Clock) :
    (persist command now).command = (canonicalCommand command now).getD command := by
  unfold persist
  cases canonicalCommand command now <;> rfl

/-- A log that has failed refuses. -/
theorem appendCommands_of_failed {log : Log} {cause : Bytes} (failed : log.failed = some cause)
    (disk : AppendDisk) (commands : List (Command × Clock)) :
    ∃ error, log.appendCommands disk commands = (log, .error error) := by
  simp only [appendCommands, appendBatch, failed]
  cases log.closed || log.closing with
  | true => exact ⟨_, rfl⟩
  | false => exact ⟨_, rfl⟩

omit [GoTables] in
/-- Repeating the records of a batch for a rewrite in progress. -/
theorem recordDelta_spec {log : Log} {disk : AppendDisk} {commands : List Command}
    {size : Nat} {writer after : BufferedWriter FileSink}
    (written : writeRecords size writer commands = (after, none)) {job : RewriteJob}
    (running : log.rewrite = some job) (intact : job.deltaErr = none) :
    ∃ delta deltaErr, (log.recordDelta disk commands).rewrite =
        some { job with delta, deltaErr } ∧
      (deltaErr = none → bytesOf delta = bytesOf job.delta ++ recordBytes commands) ∧
      (disk.deltaBudget = none → deltaErr = none) := by
  rcases outcome : writeRecords (64 <<< 10) (openFile job.delta disk.deltaBudget) commands with
    ⟨copied, error⟩
  refine ⟨closeFile copied, error.map Prod.snd, ?_, ?_, ?_⟩
  · simp only [recordDelta, running, if_pos intact, outcome]
  · intro success
    rw [Option.map_eq_none_iff] at success
    subst success
    rw [bytesOf_closeFile, writeRecords_written outcome, written_openFile]
  · intro unlimited
    have again : (writeRecords (64 <<< 10) (openFile job.delta disk.deltaBudget) commands).2 =
        none := writeRecords_again _ written unlimited
    rw [outcome] at again
    rw [Option.map_eq_none_iff]
    exact again

omit [GoTables] in
theorem writeBatch_records {log : Log} {disk : AppendDisk} {commands : List Command}
    {file : BufferedWriter Bytes} (success : log.writeBatch disk commands = (file, none)) :
    ∃ writer, writeRecords 4096 (openFile log.file disk.budget) commands = (writer, none) := by
  unfold writeBatch at success
  split at success
  next => cases success
  next writer written => exact ⟨writer, written⟩

omit [GoTables] in
/-- What an append on a healthy log can do. -/
theorem appendBatch_cases {log : Log} (healthy : log.Healthy) {disk : AppendDisk}
    (rollsBack : disk.RollsBack) (batch : List Persisted) :
    (batch = [] ∧ log.appendBatch disk batch = (log, none)) ∨
      (∃ writer after, writeRecords 4096 writer (recorded batch) = (after, none) ∧
        log.appendBatch disk batch =
          ({ log with file := ⟨log.file.sink ++ recordBytes (recorded batch), []⟩ }.recordDelta
            disk (recorded batch), none)) ∨
      ∃ cause error, log.appendBatch disk batch =
        ({ log with file := ⟨log.file.sink, []⟩, failed := some cause }, some error) := by
  rcases log.appendBatch_eq disk batch with ⟨refuses, -⟩ | nothing | ⟨cause, error, unknown⟩ |
    ⟨file, cause, failed, rolled⟩ | ⟨file, written, appended⟩
  · simp [healthy.notClosed, healthy.notClosing, healthy.working] at refuses
  · exact .inl nothing
  · refine .inr (.inr ⟨cause, error, ?_⟩)
    rw [unknown, ← healthy.empty]
  · refine .inr (.inr ⟨cause, cause, ?_⟩)
    rw [rolled, rollback_eq rollsBack (writeBatch_extends failed) cause]
  · obtain ⟨writer, records⟩ := writeBatch_records written
    refine .inr (.inl ⟨_, writer, records, ?_⟩)
    rw [appended, writeBatch_written healthy.empty written]

omit [GoTables] in
theorem recordDelta_healthy {log : Log} (healthy : log.Healthy) (disk : AppendDisk)
    (commands : List Command) : (log.recordDelta disk commands).Healthy := by
  unfold recordDelta
  split
  next => exact healthy
  next =>
    split
    next => exact ⟨healthy.notClosed, healthy.notClosing, healthy.working, healthy.empty⟩
    next => exact healthy

/-- A batch is appended as a whole, or the log is as it was and refuses every
later append. -/
theorem appendCommands_atomic {log : Log} (healthy : log.Healthy) {disk : AppendDisk}
    (rollsBack : disk.RollsBack) (commands : List (Command × Clock)) :
    (∃ after applied, log.appendCommands disk commands = (after, .ok applied) ∧
        log.Appended disk commands after applied) ∨
      ∃ after error, log.appendCommands disk commands = (after, .error error) ∧
        log.Refused after := by
  have applied : (commands.map fun command => persist command.1 command.2).map Persisted.command =
      commands.map fun command => (canonicalCommand command.1 command.2).getD command.1 := by
    simp only [List.map_map, Function.comp_def, command_persist]
  rcases appendBatch_cases healthy rollsBack
      (commands.map fun command => persist command.1 command.2) with
    ⟨nothing, appended⟩ | ⟨writer, written, records, appended⟩ | ⟨cause, error, failed⟩
  · obtain rfl := List.map_eq_nil_iff.mp nothing
    have outcome : log.appendCommands disk [] = (log, .ok []) := by
      simp only [appendCommands, appended]
      rfl
    refine .inl ⟨log, [], outcome, ?_⟩
    exact ⟨healthy, by simp [canonicalCommands], rfl, id,
      fun job running intact => ⟨job.delta, none, by rw [running, ← intact],
        fun _ => by simp [canonicalCommands], fun _ => rfl⟩,
      fun job running _ => running⟩
  · rw [recorded_persist] at records appended
    have outcome : log.appendCommands disk commands =
        ({ log with file := ⟨log.file.sink ++ recordBytes (canonicalCommands commands), []⟩
          }.recordDelta disk (canonicalCommands commands),
          .ok (commands.map fun command =>
            (canonicalCommand command.1 command.2).getD command.1)) := by
      simp only [appendCommands, appended, applied]
    have grown : Log.Healthy
        { log with file := ⟨log.file.sink ++ recordBytes (canonicalCommands commands), []⟩ } :=
      ⟨healthy.notClosed, healthy.notClosing, healthy.working, rfl⟩
    refine .inl ⟨_, _, outcome, recordDelta_healthy grown disk (canonicalCommands commands),
      by rw [recordDelta_file], rfl, fun absent => by simp only [recordDelta, absent], ?_, ?_⟩
    · intro job running intact
      exact recordDelta_spec records running intact
    · intro job running broken
      simp only [recordDelta, running, if_neg broken]
  · have outcome : log.appendCommands disk commands =
        ({ log with file := ⟨log.file.sink, []⟩, failed := some cause }, .error error) := by
      simp only [appendCommands, failed]
    exact .inr ⟨_, error, outcome, rfl, rfl, appendCommands_of_failed rfl⟩

end

section

attribute [local instance] GoTables.ascii

/-- A batch whose write stops after three bytes. -/
theorem appendCommands_atomic_short_write :
    let disk : AppendDisk :=
      { offset := none, budget := some (3, bytes "no space left on device"), sync := none,
        truncate := none, reposition := none, resync := none, deltaBudget := none }
    let commands : List (Command × Clock) :=
      [(⟨bytes "SET", [bytes "k", bytes "v", bytes "EX", bytes "10"]⟩, ⟨5000000, by decide⟩)]
    (∃ after applied, (Log.empty .always).appendCommands disk commands = (after, .ok applied) ∧
        (Log.empty .always).Appended disk commands after applied) ∨
      ∃ after error, (Log.empty .always).appendCommands disk commands = (after, .error error) ∧
        (Log.empty .always).Refused after :=
  appendCommands_atomic ⟨rfl, rfl, rfl, rfl⟩ ⟨rfl, rfl, rfl⟩ _

end

end Log

end Carrot
