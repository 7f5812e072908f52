import Carrot.Aof.Append
import Carrot.Library.CrashDisk

/-!
# What a crash leaves of the log

The calls that are made to the log, with the disk that its file is on.  Nothing
is assumed about the calls of the operating system but that the position in an
open file can be set: writes, syncs and the truncation of a failed append may
all fail.
-/

namespace Carrot

/-! ## Writes that fail -/

open BufferedWriter in
theorem FileSink.bounded : Bounded FileSink.accept FileSink.contents := by
  intro file data
  unfold FileSink.accept
  split
  next => exact List.prefix_refl _
  next left error _ =>
    split
    next => exact List.prefix_refl _
    next => exact (List.prefix_append_right_inj _).mpr (List.take_prefix left data)

theorem writeRecord_bounded (size : Nat) (writer : BufferedWriter FileSink) (command : Command) :
    (writeRecord size writer command).1.written FileSink.contents <+:
      writer.written FileSink.contents ++ command.record := by
  unfold writeRecord
  split
  next => exact List.prefix_append _ _
  next data encoded =>
    have bounded := FileSink.bounded.write FileSink.keeps size writer data
    rw [(encodeRecord_eq_ok.mp encoded).1] at bounded ⊢
    split
    next written =>
      rw [written] at bounded
      exact bounded
    next written =>
      rw [written] at bounded
      exact bounded

theorem writeRecords_bounded (size : Nat) (writer : BufferedWriter FileSink)
    (commands : List Command) :
    (writeRecords size writer commands).1.written FileSink.contents <+:
      writer.written FileSink.contents ++ recordBytes commands := by
  induction commands generalizing writer with
  | nil => exact List.prefix_append _ _
  | cons command commands inductionHypothesis =>
      have first := writeRecord_bounded size writer command
      simp only [writeRecords, recordBytes_cons, ← List.append_assoc]
      split
      next refused =>
        rw [refused] at first
        exact first.trans (List.prefix_append _ _)
      next between accepted =>
        rw [← writeRecord_written accepted]
        exact inductionHypothesis between

/-- A write leaves a beginning of the records in the file and its buffer. -/
theorem Log.writeBatch_bounded {log : Log} {disk : AppendDisk} {commands : List Command}
    {file : BufferedWriter Bytes} {error : Option Bytes}
    (outcome : log.writeBatch disk commands = (file, error)) :
    bytesOf file <+: bytesOf log.file ++ recordBytes commands := by
  have bounded := writeRecords_bounded 4096 (openFile log.file disk.budget) commands
  unfold Log.writeBatch at outcome
  split at outcome
  next written =>
    rw [written] at bounded
    cases outcome
    exact bounded
  next writer written =>
    rw [written] at bounded
    have flushed := FileSink.bounded.flush writer
    split at outcome
    next =>
      split at outcome <;> next last =>
        rw [last] at flushed
        cases outcome
        exact flushed.trans bounded
    next =>
      cases outcome
      exact bounded

/-! ## Calls -/

/-- What the executor, the sync loop, the snapshot worker and `Close` make the
log do. -/
inductive LogCall where
  | append (disk : AppendDisk) (batch : List Persisted)
  | startRewrite (prepare : Option Bytes) (entries : List SnapshotEntry)
  | completeRewrite (disk : Log.CompleteDisk)
  | background (action : Background)

instance (disk : Log.CompleteDisk) : Decidable disk.FailsBeforeRename :=
  inferInstanceAs (Decidable (_ ∨ _ ∨ _ ∨ _ ∨ _))

namespace Log

def perform (log : Log) : LogCall → Log
  | .append disk batch => (log.appendBatch disk batch).1
  | .startRewrite prepare entries => (log.startRewrite prepare entries).1
  | .completeRewrite disk => (log.completeRewrite disk).1
  | .background (.task task) => log.attend task
  | .background (.abortRewrite cleanup cause) => (log.abortRewrite cleanup cause).1

/-- The records of the appends that succeed. -/
def committed : Log → List LogCall → List Command
  | _, [] => []
  | log, .append disk batch :: calls =>
      (if (log.appendBatch disk batch).2 = none then recorded batch else []) ++
        committed (log.appendBatch disk batch).1 calls
  | log, call :: calls => committed (log.perform call) calls

/-- The disk after a failed append whose file was left as it is. -/
def rollbackDisk (calls : AppendDisk) (offset : Nat) (file : Bytes) (disk : CrashDisk UInt8) :
    CrashDisk UInt8 :=
  match calls.truncate with
  | some _ => disk
  | none =>
      let disk := disk.write (file.take offset)
      if calls.reposition.isSome || calls.resync.isSome then disk else disk.sync

def appendDisk (log : Log) (calls : AppendDisk) (batch : List Persisted) (disk : CrashDisk UInt8) :
    CrashDisk UInt8 :=
  if log.closed || log.closing || log.failed.isSome || batch.length = 0 || calls.offset.isSome then
    disk
  else
    match log.writeBatch calls (recorded batch) with
    | (file, some _) =>
        rollbackDisk calls log.file.sink.length file.sink (disk.write file.sink)
    | (file, none) =>
        if (recorded batch).length > 0 && log.policy = .always then (disk.write file.sink).sync
        else disk.write file.sink

/-- The new file has been synced when it takes the name. -/
def completeDisk (log : Log) (calls : CompleteDisk) (disk : CrashDisk UInt8) : CrashDisk UInt8 :=
  match log.rewrite with
  | none => disk
  | some job =>
      if log.closed || log.failed.isSome || job.deltaErr.isSome then disk
      else
        match (openFile log.file calls.mainBudget).flush FileSink.accept with
        | (writer, some _) => disk.write writer.sink.contents
        | (writer, none) =>
            let disk := disk.write writer.sink.contents
            match (openFile job.delta calls.deltaBudget).flush FileSink.accept with
            | (_, some _) => disk
            | (delta, none) =>
                if calls.FailsBeforeRename then disk
                else
                  let disk := disk.rename (job.temp ++ delta.sink.contents)
                  if calls.directorySync.isSome then disk else disk.syncDirectory

/-- A tick of the loop that syncs every second has something to do. -/
def Ticks (log : Log) : Bool := log.policy = .everysec && !log.closed && log.failed = none

/-- What a call does to the disk.  The sync of `Close` comes after the last
write, so that it does not matter to what may be found. -/
def callDisk (log : Log) (disk : CrashDisk UInt8) : LogCall → CrashDisk UInt8
  | .append calls batch => log.appendDisk calls batch disk
  | .completeRewrite calls => log.completeDisk calls disk
  | .background (.task (.sync error)) => if log.Ticks && error = none then disk.sync else disk
  | .background (.task (.finishClose budget)) => disk.write (log.finishClose budget).file.sink
  | .startRewrite _ _ | .background _ => disk

end Log

/-- A log and the disk that its file is on. -/
structure DurableLog where
  log : Log
  disk : CrashDisk UInt8

namespace DurableLog

def call (durable : DurableLog) (call : LogCall) : DurableLog :=
  ⟨durable.log.perform call, durable.log.callDisk durable.disk call⟩

def run (durable : DurableLog) (calls : List LogCall) : DurableLog :=
  calls.foldl DurableLog.call durable

theorem run_log (durable : DurableLog) (calls : List LogCall) :
    (durable.run calls).log = calls.foldl Log.perform durable.log := by
  induction calls generalizing durable with
  | nil => rfl
  | cons call calls inductionHypothesis => exact inductionHypothesis (durable.call call)

theorem run_append (durable : DurableLog) (first second : List LogCall) :
    durable.run (first ++ second) = (durable.run first).run second :=
  List.foldl_append

end DurableLog

end Carrot
