import Carrot.Aof.Durable
import Carrot.Aof.Replay

/-!
# Which commands a crash leaves

Between calls the disk holds the records of the committed commands.  A crash
leaves at least those that are kept, which are all of them if every append is
synced, and at most what some batch added that was not acknowledged.
-/

namespace Carrot

/-- What is known besides the committed commands: whether the file had nothing
to cut off when it was opened, which batches may have been submitted, and what
a file that was replaced keeps and holds. -/
structure Scope where
  clean : Prop
  submitted : List Command → Prop
  former : List Command → List Command → Prop

/-- Some of the committed commands, with those that are kept, and perhaps a
batch that was submitted behind them. -/
def Scope.Allowed (scope : Scope) (kept committed items : List Command) : Prop :=
  ∃ base tail, kept <+: base ∧ base <+: committed ∧ items = base ++ tail ∧
    (tail = [] ∨ scope.submitted tail)

namespace Scope.Allowed

variable {scope : Scope} {kept committed items : List Command}

theorem whole (initial : kept <+: committed) : scope.Allowed kept committed committed :=
  ⟨committed, [], initial, List.prefix_refl _, (List.append_nil _).symm, .inl rfl⟩

theorem initial (isAllowed : scope.Allowed kept committed items) : kept <+: items := by
  obtain ⟨base, tail, keeps, -, rfl, -⟩ := isAllowed
  exact keeps.trans (List.prefix_append _ _)

theorem append (isAllowed : scope.Allowed kept committed items) (more : List Command) :
    scope.Allowed kept (committed ++ more) items := by
  obtain ⟨base, tail, keeps, within, rest⟩ := isAllowed
  exact ⟨base, tail, keeps, within.trans (List.prefix_append _ _), rest⟩

end Scope.Allowed

theorem recordBytes_mono {first second : List Command} (initial : first <+: second) :
    recordBytes first <+: recordBytes second :=
  initial.flatMap Command.record

namespace Log

theorem recordDelta_policy (log : Log) (disk : AppendDisk) (commands : List Command) :
    (log.recordDelta disk commands).policy = log.policy := by
  unfold recordDelta
  split
  next => rfl
  next => split <;> rfl

/-- An append that comes to its writes. -/
structure Writes (log : Log) (disk : AppendDisk) (batch : List Persisted) : Prop where
  notClosed : (log.closed || log.closing) = false
  healthy : log.failed = none
  nonempty : batch.length ≠ 0
  offset : disk.offset = none

theorem appendBatch_of_writes {log : Log} {disk : AppendDisk} {batch : List Persisted}
    (writes : log.Writes disk batch) :
    log.appendBatch disk batch =
      match log.writeBatch disk (recorded batch) with
      | (file, some cause) => { log with file }.rollback disk log.file.sink.length cause
      | (file, none) => ({ log with file }.recordDelta disk (recorded batch), none) := by
  unfold appendBatch
  rw [if_neg (by simp [writes.notClosed])]
  split
  next failed => exact absurd (failed.symm.trans writes.healthy) (Option.some_ne_none _)
  next =>
    rw [if_neg writes.nonempty]
    split
    next unknown => exact absurd (unknown.symm.trans writes.offset) (Option.some_ne_none _)
    next => rfl

theorem appendDisk_of_writes {log : Log} {calls : AppendDisk} {batch : List Persisted}
    {disk : CrashDisk UInt8} (writes : log.Writes calls batch) :
    log.appendDisk calls batch disk =
      match log.writeBatch calls (recorded batch) with
      | (file, some _) =>
          rollbackDisk calls log.file.sink.length file.sink (disk.write file.sink)
      | (file, none) =>
          if (recorded batch).length > 0 && log.policy = .always then (disk.write file.sink).sync
          else disk.write file.sink := by
  unfold appendDisk
  exact if_neg (by simp [writes.notClosed, writes.healthy, writes.nonempty, writes.offset])

/-- An append that is refused, or has nothing to do, leaves the file alone. -/
theorem appendBatch_of_not_writes {log : Log} {disk : AppendDisk} {batch : List Persisted}
    (idle : ¬ log.Writes disk batch) :
    ∃ after error, log.appendBatch disk batch = (after, error) ∧ after.file = log.file ∧
      (after.failed = none → log.failed = none) ∧ after.policy = log.policy ∧
      (error = none → recorded batch = []) := by
  unfold appendBatch
  split
  next => exact ⟨log, _, rfl, rfl, id, rfl, by simp⟩
  next notClosed =>
    split
    next => exact ⟨log, _, rfl, rfl, id, rfl, by simp⟩
    next healthy =>
      split
      next nothing =>
        obtain rfl := List.length_eq_zero_iff.mp nothing
        exact ⟨log, _, rfl, rfl, id, rfl, fun _ => rfl⟩
      next nonempty =>
        split
        next => exact ⟨_, _, rfl, rfl, by simp, rfl, by simp⟩
        next offset => exact absurd ⟨by simpa using notClosed, healthy, nonempty, offset⟩ idle

theorem appendDisk_of_not_writes {log : Log} {calls : AppendDisk} {batch : List Persisted}
    {disk : CrashDisk UInt8} (idle : ¬ log.Writes calls batch) :
    log.appendDisk calls batch disk = disk := by
  unfold appendDisk
  rw [if_pos]
  by_contra writes
  simp only [Bool.or_eq_true, decide_eq_true_eq, not_or, Bool.not_eq_true] at writes
  obtain ⟨⟨⟨⟨closed, closing⟩, healthy⟩, nonempty⟩, offset⟩ := writes
  exact idle ⟨by rw [closed, closing]; rfl, by simpa using healthy, nonempty, by simpa using offset⟩

/-- Everything up to the renaming succeeds. -/
structure Installs (log : Log) (disk : CompleteDisk) (job : RewriteJob) : Prop where
  running : log.rewrite = some job
  notClosed : log.closed = false
  healthy : log.failed = none
  intact : job.deltaErr = none
  flushed : ((openFile job.delta disk.deltaBudget).flush FileSink.accept).2 = none
  prepared : ¬ disk.FailsBeforeRename

theorem flush_openFile {file : BufferedWriter Bytes} (empty : file.buffered = [])
    (budget : Option (Nat × Bytes)) :
    (openFile file budget).flush FileSink.accept = (openFile file budget, none) := by
  rw [BufferedWriter.flush, if_pos (show (openFile file budget).buffered = [] from empty)]

theorem firstError_prepared (disk : CompleteDisk) :
    firstError [disk.seek.map (wrapError "seek AOF rewrite delta: "),
        disk.copy.map (wrapError "append AOF rewrite delta: "),
        disk.flush.map (wrapError "flush completed AOF rewrite: "),
        disk.sync.map (wrapError "sync completed AOF rewrite: "),
        disk.rename.map (wrapError "atomically replace AOF: ")] = none ↔
      ¬ disk.FailsBeforeRename := by
  simp [firstError, CompleteDisk.FailsBeforeRename]

theorem completeRewrite_of_installs {log : Log} {calls : CompleteDisk} {job : RewriteJob}
    (installs : log.Installs calls job) (empty : log.file.buffered = []) (disk : CrashDisk UInt8) :
    log.completeRewrite calls = log.install calls (job.temp ++ bytesOf job.delta) ∧
      log.completeDisk calls disk =
        if calls.directorySync.isSome then
          (disk.write log.file.sink).rename (job.temp ++ bytesOf job.delta)
        else ((disk.write log.file.sink).rename (job.temp ++ bytesOf job.delta)).syncDirectory := by
  have kept := (FileSink.keeps.flush installs.flushed).1
  rw [written_openFile] at kept
  rcases log with ⟨⟨sink, buffered⟩, policy, closed, closing, failed, rewrite⟩
  obtain ⟨rfl, rfl, rfl, intact, flushed, prepared⟩ := installs
  obtain rfl : buffered = [] := empty
  rcases delta : (openFile job.delta calls.deltaBudget).flush FileSink.accept with ⟨writer, error⟩
  rw [delta] at kept flushed
  obtain rfl : error = none := flushed
  have succeeds := (firstError_prepared calls).mpr prepared
  simp only [completeRewrite, completeDisk, Bool.false_eq_true, if_false, intact, flush_openFile,
    delta, succeeds, if_neg prepared, ← kept, Option.isSome_none, Bool.or_false]
  exact ⟨rfl, rfl⟩

/-- A rewrite that is not installed leaves the file alone. -/
theorem completeRewrite_of_not_installs {log : Log} {calls : CompleteDisk}
    (abandons : ∀ job, ¬ log.Installs calls job)
    (empty : log.failed = none → log.file.buffered = []) (disk : CrashDisk UInt8) :
    (log.completeRewrite calls).1.file = log.file ∧
      (log.completeRewrite calls).1.failed = log.failed ∧
      (log.completeRewrite calls).1.policy = log.policy ∧
      (log.completeDisk calls disk = disk ∨
        log.failed = none ∧ log.completeDisk calls disk = disk.write log.file.sink) := by
  rcases log with ⟨⟨sink, buffered⟩, policy, closed, closing, failed, _ | job⟩
  · exact ⟨rfl, rfl, rfl, .inl rfl⟩
  · cases closed with
    | true => exact ⟨rfl, rfl, rfl, .inl rfl⟩
    | false =>
        cases failed with
        | some cause =>
            cases job.deltaErr <;> exact ⟨rfl, rfl, rfl, .inl rfl⟩
        | none =>
            obtain rfl : buffered = [] := empty rfl
            cases intact : job.deltaErr with
            | some error =>
                simp only [completeRewrite, completeDisk, intact]
                exact ⟨rfl, rfl, rfl, .inl rfl⟩
            | none =>
                simp only [completeRewrite, completeDisk, intact, Bool.false_eq_true, if_false,
                  flush_openFile, Option.isSome_none, Bool.or_false]
                rcases flushed : (openFile job.delta calls.deltaBudget).flush FileSink.accept with
                  ⟨delta, _ | error⟩
                · have fails : calls.FailsBeforeRename := by
                    by_contra prepared
                    exact abandons job ⟨rfl, rfl, rfl, intact, congrArg Prod.snd flushed, prepared⟩
                  simp only [if_pos fails]
                  split
                  next => exact ⟨rfl, rfl, rfl, .inr ⟨trivial, rfl⟩⟩
                  next succeeded => exact absurd fails ((firstError_prepared calls).mp succeeded)
                · exact ⟨rfl, rfl, rfl, .inr ⟨trivial, rfl⟩⟩

/-- A rollback reports an error, also if it succeeds. -/
theorem rollback_error (log : Log) (disk : AppendDisk) (offset : Nat) (cause : Bytes) :
    (log.rollback disk offset cause).2 ≠ none := by
  unfold rollback
  split
  next => exact Option.some_ne_none _
  next =>
    dsimp only
    split
    next => exact Option.some_ne_none _
    next =>
      split
      next => exact Option.some_ne_none _
      next => exact Option.some_ne_none _

end Log

/-- A call that neither starts nor completes a rewrite, made to a disk on which
the position in a file can be set. -/
def LogCall.Ordinary : LogCall → Prop
  | .append disk _ => disk.reposition = none
  | .startRewrite _ _ => False
  | .completeRewrite _ => False
  | _ => True

/-- The batches that some calls submit. -/
def Submits (calls : List LogCall) (commands : List Command) : Prop :=
  ∃ disk batch, .append disk batch ∈ calls ∧ commands = recorded batch

namespace Log

theorem committed_cons (log : Log) (call : LogCall) (calls : List LogCall) :
    log.committed (call :: calls) = log.committed [call] ++ (log.perform call).committed calls := by
  cases call with
  | append disk batch => simp only [committed, perform, List.append_nil]
  | _ => rfl

theorem committed_append (log : Log) (first second : List LogCall) :
    log.committed (first ++ second) =
      log.committed first ++ (first.foldl perform log).committed second := by
  induction first generalizing log with
  | nil => rfl
  | cons call first inductionHypothesis =>
      rw [List.cons_append, committed_cons log call (first ++ second), inductionHypothesis,
        committed_cons log call first, List.append_assoc, List.foldl_cons]

theorem startRewrite_frame (log : Log) (prepare : Option Bytes) (entries : List SnapshotEntry) :
    (log.startRewrite prepare entries).1.file = log.file ∧
      (log.startRewrite prepare entries).1.failed = log.failed ∧
      (log.startRewrite prepare entries).1.policy = log.policy := by
  rcases log.startRewrite_cases prepare entries with ⟨_, refused⟩ | ⟨_, started⟩
  · rw [refused]
    exact ⟨rfl, rfl, rfl⟩
  · rw [started]
    exact ⟨rfl, rfl, rfl⟩

theorem abortRewrite_frame (log : Log) (cleanup : Option Bytes) (cause : Bytes) :
    (log.abortRewrite cleanup cause).1.file = log.file ∧
      (log.abortRewrite cleanup cause).1.failed = log.failed ∧
      (log.abortRewrite cleanup cause).1.policy = log.policy := by
  unfold abortRewrite
  split <;> exact ⟨rfl, rfl, rfl⟩

theorem syncTick_eq (log : Log) (error : Option Bytes) :
    log.syncTick error = if log.Ticks then { log with failed := error } else log := rfl

theorem healthy_of_ticks {log : Log} (ticks : log.Ticks = true) : log.failed = none := by
  simp only [Ticks, Bool.and_eq_true, decide_eq_true_eq] at ticks
  exact ticks.2

theorem finishSnapshot_frame (log : Log) (budget : Option (Nat × Bytes)) :
    (log.finishSnapshot budget).file = log.file ∧
      (log.finishSnapshot budget).failed = log.failed ∧
      (log.finishSnapshot budget).policy = log.policy := by
  unfold finishSnapshot
  split
  next => exact ⟨rfl, rfl, rfl⟩
  next => split <;> exact ⟨rfl, rfl, rfl⟩

theorem rollback_policy (log : Log) (disk : AppendDisk) (offset : Nat) (cause : Bytes) :
    (log.rollback disk offset cause).1.policy = log.policy := by
  unfold rollback
  split
  next => rfl
  next =>
    dsimp only
    split
    next => rfl
    next => split <;> rfl

theorem appendBatch_policy (log : Log) (disk : AppendDisk) (batch : List Persisted) :
    (log.appendBatch disk batch).1.policy = log.policy := by
  by_cases writes : log.Writes disk batch
  · rw [appendBatch_of_writes writes]
    split
    next => exact rollback_policy _ _ _ _
    next file _ => exact recordDelta_policy { log with file } disk (recorded batch)
  · obtain ⟨after, error, appended, -, -, policy, -⟩ := appendBatch_of_not_writes writes
    rw [appended]
    exact policy

theorem completeRewrite_policy (log : Log) (disk : CompleteDisk) :
    (log.completeRewrite disk).1.policy = log.policy := by
  cases running : log.rewrite with
  | none => simp only [completeRewrite, running]
  | some job =>
      rcases completeRewrite_eq disk running with ⟨_, _, _, _, gaveUp⟩ | ⟨_, _, _, installed⟩
      · rw [gaveUp]
        rfl
      · rw [installed]
        rfl

/-- A log that has failed stays so while the other goroutines attend to it. -/
theorem attend_frame (log : Log) (task : LogTask) :
    (log.failed ≠ none → (log.attend task).failed ≠ none) ∧
      (log.attend task).policy = log.policy := by
  cases task with
  | sync error =>
      rw [attend, syncTick_eq]
      split
      next ticks => exact ⟨fun failed => absurd (healthy_of_ticks ticks) failed, rfl⟩
      next => exact ⟨id, rfl⟩
  | snapshotDone budget =>
      obtain ⟨-, failed, policy⟩ := log.finishSnapshot_frame budget
      exact ⟨fun earlier => (congrArg (· ≠ none) failed).mpr earlier, policy⟩
  | beginClose => exact ⟨id, rfl⟩
  | finishClose budget =>
      rw [attend, finishClose]
      split <;> exact ⟨id, rfl⟩

theorem perform_policy (log : Log) (call : LogCall) : (log.perform call).policy = log.policy := by
  cases call with
  | append disk batch => exact log.appendBatch_policy disk batch
  | startRewrite prepare entries => exact (log.startRewrite_frame prepare entries).2.2
  | completeRewrite disk => exact log.completeRewrite_policy disk
  | background action =>
      cases action with
      | task task => exact (log.attend_frame task).2
      | abortRewrite cleanup cause => exact (log.abortRewrite_frame cleanup cause).2.2

theorem performs_policy (log : Log) (calls : List LogCall) :
    (calls.foldl perform log).policy = log.policy := by
  induction calls generalizing log with
  | nil => rfl
  | cons call calls inductionHypothesis =>
      rw [List.foldl_cons, inductionHypothesis, perform_policy]

/-- A log that has failed stays so, and commits nothing. -/
theorem perform_failed {log : Log} (failed : log.failed ≠ none) {call : LogCall}
    (ordinary : call.Ordinary) :
    (log.perform call).failed ≠ none ∧ log.committed [call] = [] := by
  cases call with
  | append disk batch =>
      obtain ⟨after, error, appended, -, stays, -, nothing⟩ :=
        appendBatch_of_not_writes fun writes : log.Writes disk batch => failed writes.healthy
      simp only [perform, committed, appended, List.append_nil]
      refine ⟨fun healthy => failed (stays healthy), ?_⟩
      split
      next success => exact nothing success
      next => rfl
  | startRewrite prepare entries => exact ordinary.elim
  | completeRewrite disk => exact ordinary.elim
  | background action =>
      refine ⟨?_, rfl⟩
      cases action with
      | task task => exact (log.attend_frame task).1 failed
      | abortRewrite cleanup cause =>
          rw [perform, (log.abortRewrite_frame cleanup cause).2.1]
          exact failed

theorem committed_of_failed {log : Log} (failed : log.failed ≠ none) {calls : List LogCall}
    (ordinary : ∀ call ∈ calls, call.Ordinary) : log.committed calls = [] := by
  induction calls generalizing log with
  | nil => rfl
  | cons call calls inductionHypothesis =>
      obtain ⟨stays, nothing⟩ := perform_failed failed (ordinary call List.mem_cons_self)
      rw [committed_cons, nothing, inductionHypothesis stays
        fun other membership => ordinary other (List.mem_cons_of_mem _ membership)]
      rfl

/-- A rewrite in progress gets the records that an append commits. -/
theorem appendBatch_continues (log : Log) (disk : AppendDisk) (batch : List Persisted) :
    ∀ job ∈ (log.appendBatch disk batch).1.rewrite, ∃ earlier ∈ log.rewrite,
      earlier.Continues (log.committed [.append disk batch]) job := by
  intro job present
  simp only [committed, List.append_nil]
  rcases log.appendBatch_eq disk batch with ⟨-, _, refused⟩ | ⟨rfl, nothing⟩ | ⟨_, _, unknown⟩ |
    ⟨file, cause, failed, rolled⟩ | ⟨file, written, appended⟩
  · rw [refused] at present ⊢
    exact ⟨job, present, .refl job⟩
  · rw [nothing] at present ⊢
    exact ⟨job, present, .refl job⟩
  · rw [unknown] at present ⊢
    exact ⟨job, present, .refl job⟩
  · rw [rolled] at present ⊢
    rw [rollback_rewrite] at present
    rw [if_neg (rollback_error _ _ _ _)]
    exact ⟨job, present, .refl job⟩
  · rw [appended] at present ⊢
    exact recordDelta_rewrite { log with file } disk (recorded batch) job present

/-- So it does over several calls, unless it is given up. -/
theorem continues (log : Log) {calls : List LogCall}
    (ordinary : ∀ call ∈ calls, call.Ordinary) :
    ∀ job ∈ (calls.foldl perform log).rewrite, ∃ earlier ∈ log.rewrite,
      earlier.Continues (log.committed calls) job := by
  induction calls generalizing log with
  | nil => exact fun job present => ⟨job, present, .refl job⟩
  | cons call calls inductionHypothesis =>
      intro job present
      obtain ⟨middle, running, later⟩ := inductionHypothesis (log.perform call)
        (fun other membership => ordinary other (List.mem_cons_of_mem _ membership)) job present
      have first : ∃ earlier ∈ log.rewrite, earlier.Continues (log.committed [call]) middle := by
        have isOrdinary := ordinary call List.mem_cons_self
        cases call with
        | append disk batch => exact log.appendBatch_continues disk batch middle running
        | startRewrite prepare entries => exact isOrdinary.elim
        | completeRewrite disk => exact isOrdinary.elim
        | background action =>
            cases action with
            | task task => exact (log.grows_attend task).rewrite middle running
            | abortRewrite cleanup cause =>
                exact (log.grows_abortRewrite cleanup cause).rewrite middle running
      obtain ⟨earlier, before, start⟩ := first
      rw [committed_cons]
      exact ⟨earlier, before, start.trans later⟩

end Log

namespace DurableLog

/-- A log that takes appends: its file holds the records of the committed
commands. -/
structure Working (durable : DurableLog) (committed : List Command) : Prop where
  replaced : durable.disk.replaced = []
  file : durable.log.file = ⟨recordBytes committed, []⟩
  current : durable.disk.active.current = recordBytes committed

structure Holding (scope : Scope) (kept committed : List Command) (durable : DurableLog) :
    Prop where
  initial : kept <+: committed
  active : durable.disk.active.Encodes Command.record (scope.Allowed kept committed) kept
  replaced : ∀ file ∈ durable.disk.replaced, ∃ earlier whole, scope.former earlier whole ∧
    file.Encodes Command.record (scope.Allowed earlier whole) earlier
  written : ∃ items, scope.Allowed kept committed items ∧
    bytesOf durable.log.file <+: recordBytes items
  working : durable.log.failed = none → durable.Working committed
  clean : scope.clean → durable.log.failed = none →
    ∀ version ∈ durable.disk.active.versions, version <+: recordBytes committed
  always : durable.log.policy = .always → kept = committed

namespace Holding

variable {scope : Scope} {kept committed : List Command} {durable : DurableLog}

theorem buffered (holding : durable.Holding scope kept committed)
    (healthy : durable.log.failed = none) : durable.log.file.buffered = [] := by
  rw [(holding.working healthy).file]

/-- A call that leaves the file alone, and may only mark the log as failed. -/
theorem frame (holding : durable.Holding scope kept committed) {log : Log}
    (file : log.file = durable.log.file) (failed : log.failed = none → durable.log.failed = none)
    (policy : log.policy = durable.log.policy) :
    Holding scope kept committed ⟨log, durable.disk⟩ where
  initial := holding.initial
  active := holding.active
  replaced := holding.replaced
  written := by
    rw [file]
    exact holding.written
  working healthy := by
    have working := holding.working (failed healthy)
    exact ⟨working.replaced, file.trans working.file, working.current⟩
  clean isClean healthy := holding.clean isClean (failed healthy)
  always policyAlways := holding.always (policy.symm.trans policyAlways)

/-! ## Appends -/

/-- The records of a batch have been written, and synced if the policy asks for
it. -/
theorem appended (holding : durable.Holding scope kept committed)
    (healthy : durable.log.failed = none) {log : Log} {more : List Command}
    (file : log.file = ⟨recordBytes (committed ++ more), []⟩)
    (policy : log.policy = durable.log.policy) :
    ∃ further, kept <+: further ∧ Holding scope further (committed ++ more) ⟨log,
      if more.length > 0 && durable.log.policy = .always then
        (durable.disk.write log.file.sink).sync
      else durable.disk.write log.file.sink⟩ := by
  have working := holding.working healthy
  have longer : kept <+: committed ++ more := holding.initial.trans (List.prefix_append _ _)
  have bytes : bytesOf log.file <+: recordBytes (committed ++ more) := by
    rw [file, bytesOf_of_empty rfl]
  have sink : log.file.sink = recordBytes (committed ++ more) := by rw [file]
  have stale : ∀ version ∈ durable.disk.active.versions, scope.clean →
      version <+: recordBytes (committed ++ more) := fun version membership isClean =>
    (holding.clean isClean healthy version membership).trans
      (recordBytes_mono (List.prefix_append _ _))
  rw [sink]
  split
  next synced =>
    refine ⟨committed ++ more, longer, List.prefix_refl _, ?_, ?_, ⟨_, .whole (List.prefix_refl _),
      bytes⟩, ?_, ?_, fun _ => rfl⟩
    · exact .settled (.whole (List.prefix_refl _)) (List.prefix_refl _)
    · exact holding.replaced
    · exact fun _ => ⟨working.replaced, file, rfl⟩
    · intro _ _ version membership
      rw [CrashFile.mem_versions_settled membership]
      exact List.prefix_refl _
  next unsynced =>
    refine ⟨kept, List.prefix_refl _, longer, ?_, holding.replaced, ⟨_, .whole longer, bytes⟩, ?_,
      ?_, ?_⟩
    · have before : durable.disk.active.Encodes Command.record
          (scope.Allowed kept (committed ++ more)) kept :=
        holding.active.mono fun items isAllowed _ => isAllowed.append more
      exact before.write (.whole longer) longer (List.prefix_refl _)
    · exact fun _ => ⟨working.replaced, file, rfl⟩
    · intro isClean _ version membership
      rcases List.mem_cons.mp membership with rfl | membership
      · exact List.prefix_refl _
      · exact stale version membership isClean
    · intro always
      have none : more = [] := by
        rw [policy] at always
        simpa [always] using unsynced
      rw [none, List.append_nil]
      exact holding.always (policy.symm.trans always)

/-- The disk gets other contents, which some allowed commands explain. -/
theorem write_failed (holding : durable.Holding scope kept committed) {log : Log}
    {items : List Command} (isAllowed : scope.Allowed kept committed items)
    (bytes : bytesOf log.file <+: recordBytes items) {contents : Bytes}
    (bounded : contents <+: recordBytes items) (failed : log.failed ≠ none)
    (policy : log.policy = durable.log.policy) :
    Holding scope kept committed ⟨log, durable.disk.write contents⟩ where
  initial := holding.initial
  active := holding.active.write isAllowed isAllowed.initial bounded
  replaced := holding.replaced
  written := ⟨items, isAllowed, bytes⟩
  working healthy := absurd healthy failed
  clean _ healthy := absurd healthy failed
  always policyAlways := holding.always (policy.symm.trans policyAlways)

/-- The log has failed, and its file is as it was and synced. -/
theorem sync_failed (holding : durable.Holding scope kept committed)
    (healthy : durable.log.failed = none) {log : Log} (file : log.file = durable.log.file)
    (failed : log.failed ≠ none) (policy : log.policy = durable.log.policy) :
    Holding scope kept committed ⟨log, (durable.disk.write durable.log.file.sink).sync⟩ where
  initial := holding.initial
  active := by
    have sink : durable.log.file.sink = recordBytes committed := by
      rw [(holding.working healthy).file]
    change (CrashFile.settled durable.log.file.sink).Encodes _ _ _
    rw [sink]
    exact .settled (.whole holding.initial) holding.initial
  replaced := holding.replaced
  written := by
    rw [file]
    exact holding.written
  working healthy := absurd healthy failed
  clean _ healthy := absurd healthy failed
  always policyAlways := holding.always (policy.symm.trans policyAlways)

/-- An append has failed, and what it left has been cut off as far as the disk
allowed it. -/
theorem rolledBack (holding : durable.Holding scope kept committed)
    (healthy : durable.log.failed = none) {calls : AppendDisk}
    (repositions : calls.reposition = none) {records : List Command}
    (isSubmitted : scope.submitted records) {file : BufferedWriter Bytes} {cause : Bytes}
    (outcome : durable.log.writeBatch calls records = (file, some cause)) :
    Holding scope kept committed
      ⟨({ durable.log with file }.rollback calls durable.log.file.sink.length cause).1,
        Log.rollbackDisk calls durable.log.file.sink.length file.sink
          (durable.disk.write file.sink)⟩ := by
  have working := holding.working healthy
  have isAllowed : scope.Allowed kept committed (committed ++ records) :=
    ⟨committed, records, holding.initial, List.prefix_refl _, rfl, .inr isSubmitted⟩
  have bytes : bytesOf file <+: recordBytes (committed ++ records) := by
    have bounded := Log.writeBatch_bounded outcome
    rwa [bytesOf_of_empty (holding.buffered healthy), working.file, ← recordBytes_append] at bounded
  have left : file.sink <+: recordBytes (committed ++ records) :=
    (List.prefix_append _ _).trans bytes
  have restored : file.sink.take durable.log.file.sink.length = durable.log.file.sink :=
    (List.prefix_iff_eq_take.mp (Log.writeBatch_extends outcome)).symm
  have before : durable.log.file.sink <+: recordBytes (committed ++ records) := by
    rw [working.file]
    exact recordBytes_mono (List.prefix_append _ _)
  have same : (⟨durable.log.file.sink, []⟩ : BufferedWriter Bytes) = durable.log.file := by
    rw [working.file]
  have wrote : ∀ {log : Log}, bytesOf log.file <+: recordBytes (committed ++ records) →
      log.failed ≠ none → log.policy = durable.log.policy →
      Holding scope kept committed ⟨log, durable.disk.write file.sink⟩ :=
    fun fits failed policy => holding.write_failed isAllowed fits left failed policy
  cases truncated : calls.truncate with
  | some error =>
      simp only [Log.rollback, Log.rollbackDisk, truncated]
      exact wrote bytes (Option.some_ne_none _) rfl
  | none =>
      cases resynced : calls.resync with
      | some error =>
          simp only [Log.rollback, Log.rollbackDisk, truncated, repositions, resynced, restored,
            Option.isSome_none, Option.isSome_some, Bool.or_true, if_true]
          have empty : bytesOf ⟨durable.log.file.sink, []⟩ <+:
              recordBytes (committed ++ records) := by
            rw [bytesOf_of_empty rfl]
            exact before
          have torn : Holding scope kept committed
              ⟨{ durable.log with failed := some error, file := ⟨durable.log.file.sink, []⟩ },
                durable.disk.write file.sink⟩ :=
            wrote empty (Option.some_ne_none _) rfl
          exact torn.write_failed isAllowed empty before (Option.some_ne_none _) rfl
      | none =>
          simp only [Log.rollback, Log.rollbackDisk, truncated, repositions, resynced, restored,
            Option.isSome_none, Bool.or_false, Bool.false_eq_true, if_false]
          exact holding.sync_failed healthy same (Option.some_ne_none _) rfl

/-- An append that succeeds commits its records, and one that fails nothing. -/
theorem call_append (holding : durable.Holding scope kept committed) {calls : AppendDisk}
    (repositions : calls.reposition = none) {batch : List Persisted}
    (isSubmitted : scope.submitted (recorded batch)) :
    ∃ further, kept <+: further ∧
      Holding scope further (committed ++ durable.log.committed [.append calls batch])
        (durable.call (.append calls batch)) := by
  simp only [DurableLog.call, Log.perform, Log.callDisk, Log.committed, List.append_nil]
  by_cases writes : durable.log.Writes calls batch
  · rw [Log.appendBatch_of_writes writes, Log.appendDisk_of_writes writes]
    have healthy := writes.healthy
    rcases outcome : durable.log.writeBatch calls (recorded batch) with ⟨file, _ | cause⟩
    · have written := Log.writeBatch_written (holding.buffered healthy) outcome
      rw [(holding.working healthy).file, ← recordBytes_append] at written
      have same := Log.recordDelta_file { durable.log with file } calls (recorded batch)
      have stored := holding.appended healthy (same.trans written)
        (Log.recordDelta_policy { durable.log with file } calls (recorded batch))
      rw [same] at stored
      exact stored
    · have error := Log.rollback_error { durable.log with file } calls
        durable.log.file.sink.length cause
      simp only [if_neg error, List.append_nil]
      exact ⟨kept, List.prefix_refl _, holding.rolledBack healthy repositions isSubmitted outcome⟩
  · obtain ⟨log, error, appended, file, failed, policy, none⟩ :=
      Log.appendBatch_of_not_writes writes
    rw [appended, Log.appendDisk_of_not_writes writes]
    have nothing : (if error = Option.none then recorded batch else []) = [] := by
      split
      next success => rw [none success]
      next => rfl
    rw [nothing, List.append_nil]
    exact ⟨kept, List.prefix_refl _, holding.frame file failed policy⟩

/-! ## Other calls -/

theorem call_startRewrite (holding : durable.Holding scope kept committed)
    (prepare : Option Bytes) (entries : List SnapshotEntry) :
    (durable.call (.startRewrite prepare entries)).Holding scope kept committed := by
  obtain ⟨file, failed, policy⟩ := durable.log.startRewrite_frame prepare entries
  exact holding.frame file (fun healthy => failed.symm.trans healthy) policy

/-- A successful sync keeps everything that is committed. -/
theorem call_synced (holding : durable.Holding scope kept committed)
    (ticks : durable.log.Ticks = true) :
    (durable.call (.background (.task (.sync none)))).Holding scope committed committed := by
  have healthy := Log.healthy_of_ticks ticks
  have working := holding.working healthy
  simp only [DurableLog.call, Log.perform, Log.attend, Log.callDisk, Log.syncTick_eq, ticks,
    if_true]
  refine ⟨List.prefix_refl _, ?_, holding.replaced, ?_, ?_, ?_, fun _ => rfl⟩
  · change (CrashFile.settled durable.disk.active.current).Encodes _ _ _
    rw [working.current]
    exact .settled (.whole (List.prefix_refl _)) (List.prefix_refl _)
  · refine ⟨committed, .whole (List.prefix_refl _), ?_⟩
    change bytesOf durable.log.file <+: _
    rw [working.file, bytesOf_of_empty rfl]
  · exact fun _ => ⟨working.replaced, working.file, working.current⟩
  · intro _ _ version membership
    rw [CrashFile.mem_versions_settled membership, working.current]

theorem call_sync (holding : durable.Holding scope kept committed) (error : Option Bytes) :
    ∃ further, kept <+: further ∧
      (durable.call (.background (.task (.sync error)))).Holding scope further committed := by
  by_cases ticks : durable.log.Ticks = true
  · cases error with
    | some cause =>
        refine ⟨kept, List.prefix_refl _, ?_⟩
        simp only [DurableLog.call, Log.perform, Log.attend, Log.callDisk, Log.syncTick_eq, ticks,
          if_true, reduceCtorEq, decide_false, Bool.and_false, Bool.false_eq_true, if_false]
        exact holding.frame rfl (fun failed => by cases failed) rfl
    | none => exact ⟨committed, holding.initial, holding.call_synced ticks⟩
  · refine ⟨kept, List.prefix_refl _, ?_⟩
    simp only [DurableLog.call, Log.perform, Log.attend, Log.callDisk, Log.syncTick_eq, ticks,
      Bool.false_eq_true, Bool.false_and, if_false]
    exact holding

/-- The flush of `Close` writes nothing that was not on its way before. -/
theorem call_finishClose (holding : durable.Holding scope kept committed)
    (budget : Option (Nat × Bytes)) :
    (durable.call (.background (.task (.finishClose budget)))).Holding scope kept committed := by
  obtain ⟨items, isAllowed, bytes⟩ := holding.written
  have flushed : bytesOf (durable.log.finishClose budget).file <+: bytesOf durable.log.file := by
    unfold Log.finishClose
    split
    next => exact FileSink.bounded.flush (openFile durable.log.file budget)
    next => exact List.prefix_refl _
  have unchanged : (durable.log.finishClose budget).failed = durable.log.failed ∧
      (durable.log.finishClose budget).policy = durable.log.policy := by
    unfold Log.finishClose
    split <;> exact ⟨rfl, rfl⟩
  have same : durable.log.failed = none →
      (durable.log.finishClose budget).file = durable.log.file := by
    intro healthy
    unfold Log.finishClose
    split
    next =>
      rw [BufferedWriter.flush, if_pos (show (openFile durable.log.file budget).buffered = [] from
        holding.buffered healthy)]
      rfl
    next => rfl
  have sink : (durable.log.finishClose budget).file.sink <+: recordBytes items :=
    (List.prefix_append _ _).trans (flushed.trans bytes)
  refine ⟨holding.initial, holding.active.write isAllowed isAllowed.initial sink, holding.replaced,
    ⟨items, isAllowed, flushed.trans bytes⟩, ?_, ?_, ?_⟩
  · intro failed
    have healthy := unchanged.1.symm.trans failed
    have working := holding.working healthy
    refine ⟨working.replaced, (same healthy).trans working.file, ?_⟩
    change (durable.log.finishClose budget).file.sink = _
    rw [same healthy, working.file]
  · intro isClean failed version membership
    have healthy := unchanged.1.symm.trans failed
    rcases List.mem_cons.mp membership with rfl | membership
    · change (durable.log.finishClose budget).file.sink <+: _
      rw [same healthy, (holding.working healthy).file]
    · exact holding.clean isClean healthy version membership
  · exact fun policy => holding.always (unchanged.2.symm.trans policy)

theorem call_completeRewrite (holding : durable.Holding scope kept committed)
    {calls : Log.CompleteDisk} (abandons : ∀ job, ¬ durable.log.Installs calls job) :
    ∃ further, kept <+: further ∧
      (durable.call (.completeRewrite calls)).Holding scope further committed := by
  obtain ⟨file, failed, policy, same | ⟨healthy, written⟩⟩ :=
    Log.completeRewrite_of_not_installs abandons holding.buffered durable.disk
  · refine ⟨kept, List.prefix_refl _, ?_⟩
    simp only [DurableLog.call, Log.perform, Log.callDisk, same]
    exact holding.frame file (fun healthy => failed.symm.trans healthy) policy
  · have whole : (durable.log.completeRewrite calls).1.file =
        ⟨recordBytes (committed ++ []), []⟩ := by
      rw [file, (holding.working healthy).file, List.append_nil]
    have stored := holding.appended healthy whole policy
    simp only [DurableLog.call, Log.perform, Log.callDisk, written]
    rwa [file, List.append_nil] at stored

/-- A rewrite is installed.  Until the directory is synced, the old file may
come back. -/
theorem call_installed (holding : durable.Holding scope kept committed)
    {calls : Log.CompleteDisk} {job : RewriteJob} (installs : durable.log.Installs calls job)
    {replacement : List Command}
    (written : job.temp ++ bytesOf job.delta = recordBytes replacement)
    (isFormer : scope.former kept committed) :
    (durable.call (.completeRewrite calls)).Holding scope replacement replacement := by
  have healthy := installs.healthy
  have working := holding.working healthy
  have empty := holding.buffered healthy
  have sink : durable.log.file.sink = recordBytes committed := by rw [working.file]
  have active : (durable.disk.active.write durable.log.file.sink).Encodes Command.record
      (scope.Allowed kept committed) kept := by
    rw [sink]
    exact holding.active.write (.whole holding.initial) holding.initial (List.prefix_refl _)
  obtain ⟨log, disk⟩ := Log.completeRewrite_of_installs installs empty durable.disk
  simp only [DurableLog.call, Log.perform, Log.callDisk, log, disk, written]
  have settled : (CrashFile.settled (recordBytes replacement)).Encodes Command.record
      (scope.Allowed replacement replacement) replacement :=
    .settled (.whole (List.prefix_refl _)) (List.prefix_refl _)
  have file : bytesOf (durable.log.install calls (recordBytes replacement)).1.file <+:
      recordBytes replacement := by
    rw [bytesOf_of_empty rfl]
    rfl
  cases synced : calls.directorySync with
  | some error =>
      have failed : (durable.log.install calls (recordBytes replacement)).1.failed ≠ none := by
        simp [Log.install, synced]
      simp only [Option.isSome_some, if_true]
      refine ⟨List.prefix_refl _, settled, ?_, ⟨_, .whole (List.prefix_refl _), file⟩,
        fun healthy => absurd healthy failed, fun _ healthy => absurd healthy failed, fun _ => rfl⟩
      intro other membership
      rcases List.mem_cons.mp membership with rfl | membership
      · exact ⟨kept, committed, isFormer, active⟩
      · exact holding.replaced other membership
  | none =>
      simp only [Option.isSome_none, Bool.false_eq_true, if_false]
      refine ⟨List.prefix_refl _, settled, ?_, ⟨_, .whole (List.prefix_refl _), file⟩,
        fun _ => ⟨rfl, rfl, rfl⟩, ?_, fun _ => rfl⟩
      · rintro _ ⟨⟩
      · intro _ _ version membership
        rw [CrashFile.mem_versions_settled membership]

/-! ## Whole runs -/

theorem mono {other : Scope} (holding : durable.Holding scope kept committed)
    (clean : other.clean → scope.clean)
    (submitted : ∀ commands, scope.submitted commands → other.submitted commands)
    (former : durable.disk.replaced ≠ [] →
      ∀ earlier whole, scope.former earlier whole → other.former earlier whole) :
    durable.Holding other kept committed := by
  have allowed : ∀ {earlier whole items : List Command}, scope.Allowed earlier whole items →
      other.Allowed earlier whole items := by
    rintro earlier whole items ⟨base, tail, keeps, within, split, none | isSubmitted⟩
    · exact ⟨base, tail, keeps, within, split, .inl none⟩
    · exact ⟨base, tail, keeps, within, split, .inr (submitted tail isSubmitted)⟩
  refine ⟨holding.initial, holding.active.mono fun _ isAllowed _ => allowed isAllowed, ?_, ?_,
    holding.working, fun isClean => holding.clean (clean isClean), holding.always⟩
  · intro file membership
    obtain ⟨earlier, whole, isFormer, encodes⟩ := holding.replaced file membership
    have present : durable.disk.replaced ≠ [] := List.ne_nil_of_mem membership
    exact ⟨earlier, whole, former present earlier whole isFormer,
      encodes.mono fun _ isAllowed _ => allowed isAllowed⟩
  · obtain ⟨items, isAllowed, bytes⟩ := holding.written
    exact ⟨items, allowed isAllowed, bytes⟩

theorem call_task (holding : durable.Holding scope kept committed) (task : LogTask) :
    ∃ further, kept <+: further ∧
      (durable.call (.background (.task task))).Holding scope further committed := by
  cases task with
  | sync error => exact holding.call_sync error
  | snapshotDone budget =>
      obtain ⟨file, failed, policy⟩ := durable.log.finishSnapshot_frame budget
      exact ⟨kept, List.prefix_refl _,
        holding.frame file (fun healthy => failed.symm.trans healthy) policy⟩
  | beginClose => exact ⟨kept, List.prefix_refl _, holding.frame rfl id rfl⟩
  | finishClose budget => exact ⟨kept, List.prefix_refl _, holding.call_finishClose budget⟩

theorem call (holding : durable.Holding scope kept committed) {call : LogCall}
    (ordinary : call.Ordinary)
    (submitted : ∀ commands, Submits [call] commands → scope.submitted commands) :
    ∃ further, kept <+: further ∧
      (durable.call call).Holding scope further (committed ++ durable.log.committed [call]) := by
  cases call with
  | append disk batch =>
      exact holding.call_append ordinary
        (submitted _ ⟨disk, batch, List.mem_singleton.mpr rfl, rfl⟩)
  | startRewrite prepare entries => exact ordinary.elim
  | completeRewrite disk => exact ordinary.elim
  | background action =>
      rw [show durable.log.committed [.background action] = [] from rfl, List.append_nil]
      cases action with
      | task task => exact holding.call_task task
      | abortRewrite cleanup cause =>
          obtain ⟨file, failed, policy⟩ := durable.log.abortRewrite_frame cleanup cause
          exact ⟨kept, List.prefix_refl _,
            holding.frame file (fun healthy => failed.symm.trans healthy) policy⟩

/-- Calls keep what was kept, and commit what their appends commit. -/
theorem run (holding : durable.Holding scope kept committed) {calls : List LogCall}
    (ordinary : ∀ call ∈ calls, call.Ordinary)
    (submitted : ∀ commands, Submits calls commands → scope.submitted commands) :
    ∃ further, kept <+: further ∧
      (durable.run calls).Holding scope further (committed ++ durable.log.committed calls) := by
  induction calls generalizing durable kept committed with
  | nil =>
      rw [show durable.log.committed [] = [] from rfl, List.append_nil]
      exact ⟨kept, List.prefix_refl _, holding⟩
  | cons call calls inductionHypothesis =>
      obtain ⟨middle, longer, first⟩ := holding.call (ordinary call List.mem_cons_self)
        fun commands ⟨disk, batch, membership, same⟩ =>
          submitted commands ⟨disk, batch, by simp [List.mem_singleton.mp membership], same⟩
      obtain ⟨further, longest, rest⟩ := inductionHypothesis first
        (fun other membership => ordinary other (List.mem_cons_of_mem _ membership))
        fun commands ⟨disk, batch, membership, same⟩ =>
          submitted commands ⟨disk, batch, List.mem_cons_of_mem _ membership, same⟩
      rw [Log.committed_cons, ← List.append_assoc]
      exact ⟨further, longer.trans longest, rest⟩

end Holding

/-! ## Crashes -/

theorem record_ne_nil (command : Command) : command.record ≠ [] := by
  obtain ⟨body, framed⟩ : ∃ body, command.record = 42 :: body := ⟨_, rfl⟩
  rw [framed]
  exact List.cons_ne_nil _ _

/-- What is read after a crash: at least what was kept, and no more than what
was committed and a batch that was submitted. -/
structure Recovers (scope : Scope) (kept committed : List Command) (contents : Bytes)
    (read : List Command) : Prop where
  keeps : kept <+: read
  cut : ∃ base tail torn, kept <+: base ∧ base <+: committed ∧
    (tail = [] ∨ scope.submitted tail) ∧ Cut Command.record (base ++ tail) read torn ∧
    contents = recordBytes read ++ torn

theorem recovers_of_encodes {scope : Scope} {kept committed : List Command}
    {file : CrashFile UInt8} {contents : Bytes}
    (encodes : file.Encodes Command.record (scope.Allowed kept committed) kept)
    (survives : file.Survives contents) : ∃ read, Recovers scope kept committed contents read := by
  obtain ⟨items, read, torn, ⟨base, tail, initial, within, rfl, source⟩, keeps, rfl, cut⟩ :=
    encodes.survives record_ne_nil survives
  exact ⟨read, keeps, base, tail, torn, initial, within, source, cut, rfl⟩

/-- After a crash the file holds what was committed, as far as it was kept; or
the file that was replaced is back. -/
theorem Holding.survives {scope : Scope} {kept committed : List Command} {durable : DurableLog}
    (holding : durable.Holding scope kept committed) {contents : Bytes}
    (survives : durable.disk.Survives contents) :
    ∃ earlier whole, (earlier = kept ∧ whole = committed ∨ scope.former earlier whole) ∧
      ∃ read, Recovers scope earlier whole contents read := by
  obtain ⟨file, membership, survives⟩ := survives
  rcases List.mem_cons.mp membership with rfl | membership
  · exact ⟨kept, committed, .inl ⟨rfl, rfl⟩, recovers_of_encodes holding.active survives⟩
  · obtain ⟨earlier, whole, isFormer, encodes⟩ := holding.replaced file membership
    exact ⟨earlier, whole, .inr isFormer, recovers_of_encodes encodes survives⟩

/-- Nothing is lost and nothing is added while every append is synced and none
has failed. -/
theorem Holding.survives_exact {scope : Scope} {kept committed : List Command}
    {durable : DurableLog} (holding : durable.Holding scope kept committed)
    (isClean : scope.clean) (healthy : durable.log.failed = none)
    (always : durable.log.policy = .always) {contents : Bytes}
    (survives : durable.disk.Survives contents) : contents = recordBytes committed := by
  obtain ⟨file, membership, certain, version, inside, bounded⟩ := survives
  rw [(holding.working healthy).replaced, List.mem_singleton] at membership
  subst membership
  have least : recordBytes committed <+: contents := by
    rw [← holding.always always]
    exact holding.active.certain.trans certain
  have most : contents <+: recordBytes committed :=
    bounded.trans (holding.clean isClean healthy version inside)
  exact most.eq_of_length_le least.length_le

end DurableLog

/-- Recovery executes the records that a crash has left whole and cuts the rest
off. -/
theorem replay_cut [GoTables] {disk : ReplayDisk} (seeks : disk.seek = none)
    (readings : Nat → Clock) {items read : List Command} {torn : Bytes}
    (cut : Cut Command.record items read torn)
    (readable : ∀ command ∈ items, MutationRecord command.record command)
    (truncates : torn ≠ [] → disk.truncate = none) (store : Store) :
    replay disk readings (recordBytes read ++ torn) store =
      ⟨recordBytes read, store.executeAll (stepsAt readings 0 read), none⟩ := by
  have pending : Pending recordLimits torn := by
    by_cases empty : torn = []
    · rw [empty]
      exact pending_nil rfl
    · obtain ⟨item, missing, further, split, incomplete⟩ := cut.partly empty
      have membership : item ∈ items := further.subset (by simp)
      obtain ⟨value, accepted, -⟩ := readable item membership
      rw [split] at accepted
      exact pending_of_accepted rfl accepted incomplete
  have valid : ∀ record ∈ read.map fun command => (command.record, command),
      MutationRecord record.1 record.2 := by
    intro record membership
    obtain ⟨command, inside, rfl⟩ := List.mem_map.mp membership
    exact readable command (cut.initial.subset inside)
  have replayed := replay_torn readings seeks valid pending truncates store
  simp only [List.map_map, Function.comp_def, List.map_id_fun', id] at replayed
  exact replayed

end Carrot
