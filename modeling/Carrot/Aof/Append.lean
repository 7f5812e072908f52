import Carrot.Aof.Log
import Carrot.Resp.Grammar

/-!
# What the operations of the log leave in its files

The file of the log holds whole records and nothing else between operations.
An append adds the records of its batch or, when it fails and is rolled back,
nothing; the delta of a rewrite in progress gets the same records.
-/

namespace Carrot

/-- The records of some commands one after the other. -/
def recordBytes (commands : List Command) : Bytes := commands.flatMap Command.record

@[simp]
theorem recordBytes_nil : recordBytes [] = [] := rfl

theorem recordBytes_cons (command : Command) (commands : List Command) :
    recordBytes (command :: commands) = command.record ++ recordBytes commands :=
  List.flatMap_cons

@[simp]
theorem recordBytes_append (first second : List Command) :
    recordBytes (first ++ second) = recordBytes first ++ recordBytes second :=
  List.flatMap_append

/-- Bytes that are read, message by message, as some commands. -/
inductive Holds [GoTables] : Bytes → List Command → Prop where
  | nil : Holds [] []
  | cons {input rest : Bytes} {value : Value} {command : Command} {commands : List Command} :
      decode Limits.unlimited input = .ok (value, rest) → parse value = .ok command →
        Holds rest commands → Holds input (command :: commands)

theorem cleanAll_bulk (texts : List Bytes) : CleanAll (texts.map .bulkString) := by
  induction texts with
  | nil => trivial
  | cons text texts inductionHypothesis => exact ⟨trivial, inductionHypothesis⟩

/-- Records are read back as the commands they were written for. -/
theorem holds_recordBytes [GoTables] {commands : List Command}
    (upper : ∀ command ∈ commands, toUpper command.name = command.name) :
    Holds (recordBytes commands) commands := by
  induction commands with
  | nil => exact .nil
  | cons command commands inductionHypothesis =>
      have rest := inductionHypothesis fun other membership =>
        upper other (List.mem_cons_of_mem _ membership)
      have clean : command.value.Clean := cleanAll_bulk (command.name :: command.args)
      refine .cons (decode_unlimited clean _) ?_ rest
      rw [Command.value, parse_bulk, upper command List.mem_cons_self]

/-! ## Files -/

namespace FileSink

open BufferedWriter

theorem keeps : Keeps FileSink.accept FileSink.contents := by
  intro file data accepted
  unfold FileSink.accept at accepted ⊢
  split at accepted
  next => rfl
  next =>
    split at accepted
    next fits => simp only [if_pos fits]
    next => cases accepted

/-- Whatever is accepted comes after what is there. -/
theorem stable (base : Bytes) : Stable FileSink.accept fun file => base <+: file.contents := by
  intro file data initial
  have longer : ∀ more, base <+: file.contents ++ more := fun more =>
    initial.trans (List.prefix_append _ _)
  unfold FileSink.accept
  split
  next => exact longer data
  next =>
    split
    next => exact longer data
    next => exact longer _

end FileSink

/-- The bytes of a file, those in its buffer included. -/
abbrev bytesOf (file : BufferedWriter Bytes) : Bytes := file.written id

theorem bytesOf_of_empty {file : BufferedWriter Bytes} (empty : file.buffered = []) :
    bytesOf file = file.sink := by
  rw [bytesOf, BufferedWriter.written, empty, List.append_nil, id]

theorem written_openFile (file : BufferedWriter Bytes) (budget : Option (Nat × Bytes)) :
    (openFile file budget).written FileSink.contents = bytesOf file := rfl

theorem bytesOf_closeFile (writer : BufferedWriter FileSink) :
    bytesOf (closeFile writer) = writer.written FileSink.contents := rfl

theorem writeRecord_written {size : Nat} {writer after : BufferedWriter FileSink}
    {command : Command} (success : writeRecord size writer command = (after, none)) :
    after.written FileSink.contents = writer.written FileSink.contents ++ command.record := by
  unfold writeRecord at success
  split at success
  next => cases success
  next data encoded =>
    split at success
    next accepted =>
      have kept := FileSink.keeps.write (congrArg Prod.snd accepted)
      rw [accepted] at kept
      cases success
      rw [kept, (encodeRecord_eq_ok.mp encoded).1]
    next => cases success

theorem writeRecords_written {size : Nat} {writer after : BufferedWriter FileSink}
    {commands : List Command} (success : writeRecords size writer commands = (after, none)) :
    after.written FileSink.contents =
      writer.written FileSink.contents ++ recordBytes commands := by
  induction commands generalizing writer with
  | nil =>
      cases success
      simp
  | cons command commands inductionHypothesis =>
      simp only [writeRecords] at success
      split at success
      next => cases success
      next first =>
        rw [inductionHypothesis success, writeRecord_written first, recordBytes_cons,
          List.append_assoc]

theorem writeRecord_extends {base : Bytes} (size : Nat) {writer : BufferedWriter FileSink}
    (command : Command) (initial : base <+: writer.sink.contents) :
    base <+: (writeRecord size writer command).1.sink.contents := by
  unfold writeRecord
  split
  next => exact initial
  next data _ =>
    have longer := (FileSink.stable base).write size data initial
    split
    next accepted =>
      rw [accepted] at longer
      exact longer
    next refused =>
      rw [refused] at longer
      exact longer

theorem writeRecords_extends {base : Bytes} (size : Nat) {writer : BufferedWriter FileSink}
    (commands : List Command) (initial : base <+: writer.sink.contents) :
    base <+: (writeRecords size writer commands).1.sink.contents := by
  induction commands generalizing writer with
  | nil => exact initial
  | cons command commands inductionHypothesis =>
      have longer := writeRecord_extends size command initial
      simp only [writeRecords]
      split
      next refused =>
        rw [refused] at longer
        exact longer
      next accepted =>
        rw [accepted] at longer
        exact inductionHypothesis longer

/-! ## Growth -/

/-- How a rewrite in progress may look after some commands were appended: the
snapshot worker may have finished, and the delta has their records unless it
is broken. -/
structure RewriteJob.Continues (before : RewriteJob) (commands : List Command)
    (after : RewriteJob) : Prop where
  entries : after.entries = before.entries
  snapshot : after.ready = some none → before.ready = some none ∧ after.temp = before.temp ∨
    after.temp = recordBytes (before.entries.flatMap SnapshotEntry.commands)
  delta : after.deltaErr = none → before.deltaErr = none ∧
    bytesOf after.delta = bytesOf before.delta ++ recordBytes commands

/-- The file grows by the records of some commands.  A rewrite that is in
progress afterwards was in progress before. -/
structure Log.Grows (before : Log) (commands : List Command) (after : Log) : Prop where
  file : before.file.buffered = [] → after.file = ⟨before.file.sink ++ recordBytes commands, []⟩
  rewrite : ∀ job ∈ after.rewrite, ∃ earlier ∈ before.rewrite, earlier.Continues commands job

namespace RewriteJob.Continues

theorem refl (job : RewriteJob) : job.Continues [] job :=
  ⟨rfl, fun ready => .inl ⟨ready, rfl⟩, fun intact => ⟨intact, by simp⟩⟩

theorem trans {first second third : RewriteJob} {earlier later : List Command}
    (start : first.Continues earlier second) (next : second.Continues later third) :
    first.Continues (earlier ++ later) third where
  entries := next.entries.trans start.entries
  snapshot ready := by
    rcases next.snapshot ready with ⟨before, same⟩ | written
    · rw [same]
      exact start.snapshot before
    · rw [written, start.entries]
      exact .inr rfl
  delta intact := by
    obtain ⟨between, longer⟩ := next.delta intact
    obtain ⟨before, long⟩ := start.delta between
    refine ⟨before, ?_⟩
    rw [longer, long, recordBytes_append, List.append_assoc]

end RewriteJob.Continues

namespace Log

theorem file_eq {log : Log} (empty : log.file.buffered = []) :
    log.file = ⟨log.file.sink ++ recordBytes [], []⟩ := by
  rw [recordBytes_nil, List.append_nil, ← empty]

theorem Grows.of_rewrite_none {before after : Log} (file : after.file = before.file)
    (none : after.rewrite = none) : before.Grows [] after where
  file empty := file.trans (file_eq empty)
  rewrite job present := by
    rw [none] at present
    cases present

theorem Grows.of_eq {before after : Log} (file : after.file = before.file)
    (rewrite : after.rewrite = before.rewrite) : before.Grows [] after where
  file empty := file.trans (file_eq empty)
  rewrite job present := ⟨job, rewrite ▸ present, .refl job⟩

theorem Grows.trans {first second third : Log} {earlier later : List Command}
    (start : first.Grows earlier second) (next : second.Grows later third) :
    first.Grows (earlier ++ later) third where
  file empty := by
    have between := start.file empty
    rw [next.file (by rw [between]), between, recordBytes_append, List.append_assoc]
  rewrite job present := by
    obtain ⟨middle, between, continues⟩ := next.rewrite job present
    obtain ⟨job, before, started⟩ := start.rewrite middle between
    exact ⟨job, before, started.trans continues⟩

/-! ### Outside the mutation lock -/

theorem grows_syncTick (log : Log) (sync : Option Bytes) : log.Grows [] (log.syncTick sync) := by
  unfold syncTick
  split <;> exact .of_eq rfl rfl

theorem grows_abortRewrite (log : Log) (cleanup : Option Bytes) (cause : Bytes) :
    log.Grows [] (log.abortRewrite cleanup cause).1 := by
  unfold abortRewrite
  split
  next => exact .of_eq rfl rfl
  next => exact .of_rewrite_none rfl rfl

theorem grows_finishClose (log : Log) (budget : Option (Nat × Bytes)) :
    log.Grows [] (log.finishClose budget) := by
  unfold finishClose
  split
  next =>
    refine ⟨fun empty => ?_, fun job present => ⟨job, present, .refl job⟩⟩
    have unchanged : (openFile log.file budget).flush FileSink.accept =
        (openFile log.file budget, none) := if_pos empty
    rw [unchanged]
    exact file_eq empty
  next => exact .of_eq rfl rfl

theorem writeSnapshot_written {entries : List SnapshotEntry} {budget : Option (Nat × Bytes)}
    {temp : Bytes} (success : writeSnapshot entries budget = (temp, none)) :
    temp = recordBytes (entries.flatMap SnapshotEntry.commands) := by
  unfold writeSnapshot at success
  split at success
  next => cases success
  next written =>
    split at success
    next => cases success
    next flushed =>
      have kept := (FileSink.keeps.flush (congrArg Prod.snd flushed)).1
      rw [flushed, writeRecords_written written] at kept
      cases success
      rw [kept]
      rfl

theorem grows_finishSnapshot (log : Log) (budget : Option (Nat × Bytes)) :
    log.Grows [] (log.finishSnapshot budget) := by
  unfold finishSnapshot
  split
  next => exact .of_eq rfl rfl
  next job running =>
    split
    next => exact .of_eq rfl rfl
    next =>
      rcases outcome : writeSnapshot job.entries budget with ⟨temp, error⟩
      refine ⟨file_eq, ?_⟩
      rintro _ ⟨⟩
      refine ⟨job, running, rfl, fun ready => .inr ?_, fun intact => ⟨intact, by simp⟩⟩
      cases ready
      exact writeSnapshot_written outcome

theorem grows_attend (log : Log) (task : LogTask) : log.Grows [] (log.attend task) := by
  cases task with
  | sync error => exact log.grows_syncTick error
  | snapshotDone budget => exact log.grows_finishSnapshot budget
  | beginClose => exact .of_eq rfl rfl
  | finishClose budget => exact log.grows_finishClose budget

/-! ### Appending -/

/-- The records of a batch end up in the file and nothing stays in the buffer. -/
theorem writeBatch_written {log : Log} (empty : log.file.buffered = []) {disk : AppendDisk}
    {commands : List Command} {file : BufferedWriter Bytes}
    (success : log.writeBatch disk commands = (file, none)) :
    file = ⟨log.file.sink ++ recordBytes commands, []⟩ := by
  unfold writeBatch at success
  split at success
  next => cases success
  next writer written =>
    have kept := writeRecords_written written
    rw [written_openFile, bytesOf_of_empty empty] at kept
    split at success
    next =>
      split at success
      next => cases success
      next flushed =>
        have whole := FileSink.keeps.flush (congrArg Prod.snd flushed)
        rw [flushed, kept] at whole
        rw [Prod.mk.injEq] at success
        rw [← success.1, closeFile, whole.1, whole.2]
    next none =>
      obtain rfl : commands = [] := by simpa using none
      cases written
      cases success
      exact file_eq empty

/-- A failed write leaves what was in the file before. -/
theorem writeBatch_extends {log : Log} {disk : AppendDisk} {commands : List Command}
    {file : BufferedWriter Bytes} {error : Option Bytes}
    (outcome : log.writeBatch disk commands = (file, error)) : log.file.sink <+: file.sink := by
  have longer : log.file.sink <+:
      (writeRecords 4096 (openFile log.file disk.budget) commands).1.sink.contents :=
    writeRecords_extends 4096 commands (List.prefix_refl _)
  unfold writeBatch at outcome
  split at outcome
  next written =>
    rw [written] at longer
    cases outcome
    exact longer
  next writer written =>
    rw [written] at longer
    have flushedLonger := (FileSink.stable log.file.sink).flush longer
    split at outcome
    next =>
      split at outcome <;> next flushed =>
        rw [flushed] at flushedLonger
        cases outcome
        exact flushedLonger
    next =>
      cases outcome
      exact longer

theorem rollback_rewrite (log : Log) (disk : AppendDisk) (offset : Nat) (cause : Bytes) :
    (log.rollback disk offset cause).1.rewrite = log.rewrite := by
  unfold rollback
  split
  next => rfl
  next =>
    dsimp only
    split
    next => rfl
    next => split <;> rfl

/-- A rollback that succeeds restores the file and marks the log. -/
theorem rollback_eq {log : Log} {disk : AppendDisk} (rollsBack : disk.RollsBack)
    {file : BufferedWriter Bytes} (initial : log.file.sink <+: file.sink) (cause : Bytes) :
    { log with file }.rollback disk log.file.sink.length cause =
      ({ log with file := ⟨log.file.sink, []⟩, failed := some cause }, some cause) := by
  obtain ⟨truncate, reposition, resync⟩ := rollsBack
  simp only [rollback, truncate, reposition, resync, ← List.prefix_iff_eq_take.mp initial]

theorem rollback_restores {log : Log} {disk : AppendDisk} (rollsBack : disk.RollsBack)
    {file : BufferedWriter Bytes} (initial : log.file.sink <+: file.sink) (cause : Bytes) :
    ∃ after, { log with file }.rollback disk log.file.sink.length cause = (after, some cause) ∧
      log.Grows [] after := by
  refine ⟨_, rollback_eq rollsBack initial cause, ?_, ?_⟩
  · intro _
    rw [recordBytes_nil, List.append_nil]
  · intro job present
    exact ⟨job, present, .refl job⟩

theorem recordDelta_rewrite (log : Log) (disk : AppendDisk) (commands : List Command) :
    ∀ job ∈ (log.recordDelta disk commands).rewrite,
      ∃ earlier ∈ log.rewrite, earlier.Continues commands job := by
  intro after present
  unfold recordDelta at present
  split at present
  next none =>
    rw [none] at present
    cases present
  next job running =>
    refine ⟨job, running, ?_⟩
    split at present
    next intact =>
      rcases outcome : writeRecords (64 <<< 10) (openFile job.delta disk.deltaBudget) commands with
        ⟨writer, error⟩
      rw [outcome] at present
      cases present
      refine ⟨rfl, fun ready => .inl ⟨ready, rfl⟩, fun success => ⟨intact, ?_⟩⟩
      rw [Option.map_eq_none_iff] at success
      subst success
      rw [bytesOf_closeFile, writeRecords_written outcome, written_openFile]
    next broken =>
      rw [running] at present
      cases present
      exact ⟨rfl, fun ready => .inl ⟨ready, rfl⟩, fun intact => absurd intact broken⟩

theorem recordDelta_file (log : Log) (disk : AppendDisk) (commands : List Command) :
    (log.recordDelta disk commands).file = log.file := by
  unfold recordDelta
  split
  next => rfl
  next =>
    split
    next => rfl
    next => rfl

/-- What an append does: a log that is closed or has failed refuses it, there
may be nothing to write, the offset may be unknown, and what was written is cut
off or recorded for the rewrite. -/
theorem appendBatch_eq (log : Log) (disk : AppendDisk) (batch : List Persisted) :
    ((log.closed || log.closing) = true ∨ log.failed ≠ none) ∧
        (∃ error, log.appendBatch disk batch = (log, some error)) ∨
      batch = [] ∧ log.appendBatch disk batch = (log, none) ∨
      (∃ cause error,
        log.appendBatch disk batch = ({ log with failed := some cause }, some error)) ∨
      (∃ file cause, log.writeBatch disk (recorded batch) = (file, some cause) ∧
        log.appendBatch disk batch =
          { log with file }.rollback disk log.file.sink.length cause) ∨
      ∃ file, log.writeBatch disk (recorded batch) = (file, none) ∧
        log.appendBatch disk batch =
          ({ log with file }.recordDelta disk (recorded batch), none) := by
  unfold appendBatch
  split
  next closed => exact .inl ⟨.inl closed, _, rfl⟩
  next =>
    split
    next cause failed => exact .inl ⟨.inr (by rw [failed]; exact Option.some_ne_none _), _, rfl⟩
    next =>
      split
      next nothing => exact .inr (.inl ⟨List.length_eq_zero_iff.mp nothing, rfl⟩)
      next =>
        split
        next => exact .inr (.inr (.inl ⟨_, _, rfl⟩))
        next =>
          dsimp only
          split
          next file cause failed => exact .inr (.inr (.inr (.inl ⟨file, cause, failed, rfl⟩)))
          next file written => exact .inr (.inr (.inr (.inr ⟨file, written, rfl⟩)))

/-- An append adds the records of its batch, or fails and adds nothing. -/
theorem appendBatch_grows {log after : Log} {disk : AppendDisk} (rollsBack : disk.RollsBack)
    {batch : List Persisted} {error : Option Bytes} (empty : log.file.buffered = [])
    (outcome : log.appendBatch disk batch = (after, error)) :
    log.Grows (if error = none then recorded batch else []) after := by
  rcases log.appendBatch_eq disk batch with ⟨-, _, refused⟩ | ⟨rfl, nothing⟩ | ⟨_, _, unknown⟩ |
    ⟨file, cause, failed, rolled⟩ | ⟨file, written, appended⟩
  · rw [refused] at outcome
    cases outcome
    exact .of_eq rfl rfl
  · rw [nothing] at outcome
    cases outcome
    exact .of_eq rfl rfl
  · rw [unknown] at outcome
    cases outcome
    exact .of_eq rfl rfl
  · obtain ⟨restored, same, grows⟩ :=
      rollback_restores rollsBack (writeBatch_extends failed) cause
    rw [rolled, same] at outcome
    cases outcome
    exact grows
  · rw [appended] at outcome
    cases outcome
    refine ⟨fun _ => ?_, recordDelta_rewrite _ disk _⟩
    rw [recordDelta_file]
    exact writeBatch_written empty written

/-! ### Starting and installing a rewrite -/

/-- A rewrite is refused, or starts when there is none. -/
theorem startRewrite_cases (log : Log) (prepare : Option Bytes) (entries : List SnapshotEntry) :
    (∃ error, log.startRewrite prepare entries = (log, some error)) ∨
      log.rewrite = none ∧
        log.startRewrite prepare entries =
          ({ log with rewrite := some (.start entries) }, none) := by
  unfold startRewrite
  split
  next => exact .inl ⟨_, rfl⟩
  next =>
    split
    next => exact .inl ⟨_, rfl⟩
    next =>
      split
      next => exact .inl ⟨_, rfl⟩
      next idle =>
        split
        next => exact .inl ⟨_, rfl⟩
        next => exact .inr ⟨Option.not_isSome_iff_eq_none.mp idle, rfl⟩

theorem startRewrite_error {log after : Log} {prepare : Option Bytes}
    {entries : List SnapshotEntry} {error : Bytes}
    (outcome : log.startRewrite prepare entries = (after, some error)) : after = log := by
  rcases log.startRewrite_cases prepare entries with ⟨_, refused⟩ | ⟨_, started⟩
  · rw [refused] at outcome
    exact (congrArg Prod.fst outcome).symm
  · rw [started] at outcome
    cases outcome

theorem startRewrite_ok {log after : Log} {prepare : Option Bytes} {entries : List SnapshotEntry}
    (outcome : log.startRewrite prepare entries = (after, none)) :
    log.rewrite = none ∧ after = { log with rewrite := some (.start entries) } := by
  rcases log.startRewrite_cases prepare entries with ⟨_, refused⟩ | ⟨idle, started⟩
  · rw [refused] at outcome
    cases outcome
  · rw [started] at outcome
    exact ⟨idle, (congrArg Prod.fst outcome).symm⟩

theorem grows_abandon {before log : Log} (file : log.file = before.file) (cleanup : Option Bytes)
    (cause : Bytes) : before.Grows [] (log.abandon cleanup cause).1 :=
  .of_rewrite_none file rfl

theorem firstError_eq_none {steps : List (Option Bytes)} (none : firstError steps = none) :
    ∀ step ∈ steps, step = Option.none := by
  intro step membership
  rw [firstError, List.head?_eq_none_iff, List.filterMap_eq_nil_iff] at none
  exact none step membership

/-- A rewrite is given up, or the snapshot and the delta are installed. -/
theorem completeRewrite_eq {log : Log} (disk : CompleteDisk) {job : RewriteJob}
    (running : log.rewrite = some job) :
    (∃ file failed cause, (log.file.buffered = [] → file = log.file) ∧
        log.completeRewrite disk = { log with file, failed }.abandon disk.cleanup cause) ∨
      job.deltaErr = none ∧ ¬ disk.FailsBeforeRename ∧ ∃ file,
        log.completeRewrite disk =
          { log with file }.install disk (job.temp ++ bytesOf job.delta) := by
  have unchanged : ∀ {writer error},
      (openFile log.file disk.mainBudget).flush FileSink.accept = (writer, error) →
      log.file.buffered = [] → closeFile writer = log.file := by
    intro writer error flushed empty
    rw [BufferedWriter.flush, if_pos (show (openFile log.file disk.mainBudget).buffered = [] from
      empty)] at flushed
    cases flushed
    rfl
  simp only [completeRewrite, running]
  split
  next => exact .inl ⟨_, _, _, fun _ => rfl, rfl⟩
  next =>
    split
    next => exact .inl ⟨_, _, _, fun _ => rfl, rfl⟩
    next => exact .inl ⟨_, _, _, fun _ => rfl, rfl⟩
    next intact =>
      split
      next flushed => exact .inl ⟨_, _, _, unchanged flushed, rfl⟩
      next flushed =>
        split
        next => exact .inl ⟨_, _, _, unchanged flushed, rfl⟩
        next delta complete =>
          split
          next => exact .inl ⟨_, _, _, unchanged flushed, rfl⟩
          next succeeded =>
            have kept := (FileSink.keeps.flush (congrArg Prod.snd complete)).1
            rw [complete, written_openFile] at kept
            refine .inr ⟨intact, ?_, _, by rw [kept]⟩
            have each := firstError_eq_none succeeded
            simp only [List.mem_cons, List.not_mem_nil, or_false, forall_eq_or_imp, forall_eq,
              Option.map_eq_none_iff] at each
            obtain ⟨seek, copy, flush, sync, rename⟩ := each
            simp [CompleteDisk.FailsBeforeRename, seek, copy, flush, sync, rename]

/-- Completing a rewrite leaves the file alone, or replaces it by the snapshot
and the delta. -/
theorem completeRewrite_cases {log : Log} (disk : CompleteDisk) {job : RewriteJob}
    (running : log.rewrite = some job) (empty : log.file.buffered = []) :
    log.Grows [] (log.completeRewrite disk).1 ∨
      job.deltaErr = none ∧ (log.completeRewrite disk).1.rewrite = none ∧
        (log.completeRewrite disk).1.file = ⟨job.temp ++ bytesOf job.delta, []⟩ := by
  rcases completeRewrite_eq disk running with ⟨file, _, _, same, gaveUp⟩ | ⟨intact, _, _, installed⟩
  · rw [gaveUp]
    exact .inl (grows_abandon (same empty) _ _)
  · rw [installed]
    exact .inr ⟨intact, rfl, rfl⟩

/-- A rewrite that cannot be put in place leaves the file alone. -/
theorem completeRewrite_file {log : Log} {disk : CompleteDisk} (fails : disk.FailsBeforeRename)
    (empty : log.file.buffered = []) : (log.completeRewrite disk).1.file = log.file := by
  cases running : log.rewrite with
  | none => simp only [completeRewrite, running]
  | some job =>
      rcases completeRewrite_eq disk running with ⟨file, _, _, same, gaveUp⟩ | ⟨_, succeeds, _⟩
      · rw [gaveUp]
        exact same empty
      · exact absurd fails succeeds

theorem completeRewrite_rewrite (log : Log) (disk : CompleteDisk) :
    (log.completeRewrite disk).1.rewrite = none := by
  cases running : log.rewrite with
  | none => simp only [completeRewrite, running]
  | some job =>
      rcases completeRewrite_eq disk running with ⟨_, _, _, _, gaveUp⟩ | ⟨_, _, _, installed⟩
      · rw [gaveUp]
        rfl
      · rw [installed]
        rfl

end Log

end Carrot
