import Carrot.Aof.Snapshot

/-!
# The append-only log

The state of `aof.Log` and its operations.  What the operating system does
with the calls of an operation is an argument: each call succeeds, or fails
with the text of an error.  A file is its contents; it is written at the end.

Locks, file names and file modes are left out.
-/

namespace Carrot

/-- `errors.Join`: the errors that are not nil, one on each line. -/
def joinErrors (errors : List (Option Bytes)) : Option Bytes :=
  match errors.filterMap id with
  | [] => none
  | first :: rest => some (rest.foldl (fun text error => text ++ [10] ++ error) first)

/-- `fmt.Errorf` of an operation that failed. -/
def wrapError (operation : String) (error : Bytes) : Bytes := bytes operation ++ error

/-! ## Files -/

/-- A file open for writing.  With a budget, a write that exceeds it leaves
the bytes that fit and fails. -/
structure FileSink where
  contents : Bytes
  budget : Option (Nat × Bytes)

def FileSink.accept (file : FileSink) (data : Bytes) : FileSink × Option Bytes :=
  match file.budget with
  | none => ({ file with contents := file.contents ++ data }, none)
  | some (left, error) =>
      if data.length ≤ left then
        (⟨file.contents ++ data, some (left - data.length, error)⟩, none)
      else (⟨file.contents ++ data.take left, some (0, error)⟩, some error)

/-- Write the record of a command through a buffer of the given size. -/
def writeRecord (size : Nat) (writer : BufferedWriter FileSink) (command : Command) :
    BufferedWriter FileSink × Option Bytes :=
  match encodeRecord command with
  | .error error => (writer, some error)
  | .ok data =>
      match writer.write FileSink.accept size data with
      | (writer, none) => (writer, none)
      | (writer, some error) =>
          (writer, some (bytes "write snapshot command " ++ command.name ++ bytes ": " ++ error))

/-- Write records up to the first failure, which is reported with its command. -/
def writeRecords (size : Nat) : BufferedWriter FileSink → List Command →
    BufferedWriter FileSink × Option (Command × Bytes)
  | writer, [] => (writer, none)
  | writer, command :: commands =>
      match writeRecord size writer command with
      | (writer, some error) => (writer, some (command, error))
      | (writer, none) => writeRecords size writer commands

/-! ## The log -/

inductive SyncPolicy where
  | always
  | everysec
  | no
  deriving DecidableEq, Repr

/-- A rewrite in progress: the copies that the snapshot worker writes, the
files that it and the appends write, and the worker's outcome once it is ready. -/
structure RewriteJob where
  entries : List SnapshotEntry
  temp : Bytes
  delta : BufferedWriter Bytes
  deltaErr : Option Bytes
  ready : Option (Option Bytes)

def RewriteJob.start (entries : List SnapshotEntry) : RewriteJob :=
  ⟨entries, [], ⟨[], []⟩, none, none⟩

structure Log where
  file : BufferedWriter Bytes
  policy : SyncPolicy
  closed : Bool
  closing : Bool
  failed : Option Bytes
  rewrite : Option RewriteJob

/-- A log on an empty file. -/
def Log.empty (policy : SyncPolicy) : Log := ⟨⟨[], []⟩, policy, false, false, none, none⟩

/-- What the operating system does with the calls of one append. -/
structure AppendDisk where
  offset : Option Bytes
  budget : Option (Nat × Bytes)
  sync : Option Bytes
  truncate : Option Bytes
  reposition : Option Bytes
  resync : Option Bytes
  deltaBudget : Option (Nat × Bytes)

/-- The calls that cut a failed append off succeed. -/
def AppendDisk.RollsBack (disk : AppendDisk) : Prop :=
  disk.truncate = none ∧ disk.reposition = none ∧ disk.resync = none

/-- A command of a batch in the form in which it is applied, and whether it
has a record. -/
structure Persisted where
  command : Command
  valid : Bool
  deriving DecidableEq

/-- The commands of a batch that have records. -/
def recorded (batch : List Persisted) : List Command :=
  (batch.filter Persisted.valid).map Persisted.command

/-- The form in which a command is persisted: canonical, or as it is. -/
def persist [GoTables] (command : Command) (now : Clock) : Persisted :=
  match canonicalCommand command now with
  | some canonical => ⟨canonical, true⟩
  | none => ⟨command, false⟩

/-- Open a buffered file for one operation. -/
def openFile (file : BufferedWriter Bytes) (budget : Option (Nat × Bytes)) :
    BufferedWriter FileSink :=
  ⟨⟨file.sink, budget⟩, file.buffered⟩

/-- What an operation leaves of a buffered file. -/
def closeFile (writer : BufferedWriter FileSink) : BufferedWriter Bytes :=
  ⟨writer.sink.contents, writer.buffered⟩

namespace Log

/-- Remove a failed append.  The log refuses everything afterwards. -/
def rollback (log : Log) (disk : AppendDisk) (offset : Nat) (cause : Bytes) : Log × Option Bytes :=
  match disk.truncate with
  | some error =>
      let failed := joinErrors [some cause, some (wrapError "truncate failed AOF append: " error)]
      ({ log with failed }, failed)
  | none =>
      let log := { log with file := { log.file with sink := log.file.sink.take offset } }
      match disk.reposition with
      | some error =>
          let failed :=
            joinErrors [some cause, some (wrapError "seek after failed AOF append: " error)]
          ({ log with failed }, failed)
      | none =>
          let log := { log with file := { log.file with buffered := [] } }
          match disk.resync with
          | some error =>
              let failed := joinErrors [some cause, some (wrapError "sync AOF rollback: " error)]
              ({ log with failed }, failed)
          | none => ({ log with failed := some cause }, some cause)

/-- Repeat the records of a batch for the rewrite in progress. -/
def recordDelta (log : Log) (disk : AppendDisk) (commands : List Command) : Log :=
  match log.rewrite with
  | none => log
  | some job =>
      if job.deltaErr = none then
        let (writer, error) :=
          writeRecords (64 <<< 10) (openFile job.delta disk.deltaBudget) commands
        { log with
          rewrite := some { job with delta := closeFile writer, deltaErr := error.map Prod.snd } }
      else log

/-- Write the records of a batch and sync them if the policy asks for it: the
file afterwards, and the error of the first step that failed. -/
def writeBatch (log : Log) (disk : AppendDisk) (commands : List Command) :
    BufferedWriter Bytes × Option Bytes :=
  match writeRecords 4096 (openFile log.file disk.budget) commands with
  | (writer, some (command, error)) =>
      (closeFile writer, some (bytes "encode AOF command " ++ command.name ++ bytes ": " ++ error))
  | (writer, none) =>
      if commands.length > 0 then
        match writer.flush FileSink.accept with
        | (writer, some error) =>
            (closeFile writer, some (wrapError "append AOF command batch: " error))
        | (writer, none) =>
            (closeFile writer,
              if log.policy = .always then
                disk.sync.map (wrapError "sync AOF command batch: ")
              else none)
      else (closeFile writer, none)

/-- `AppendBatch` on commands that have been made canonical. -/
def appendBatch (log : Log) (disk : AppendDisk) (batch : List Persisted) : Log × Option Bytes :=
  if log.closed || log.closing then (log, some (bytes "AOF is closed"))
  else
    match log.failed with
    | some cause => (log, some (wrapError "AOF is unhealthy: " cause))
    | none =>
        if batch.length = 0 then (log, none)
        else
          match disk.offset with
          | some error =>
              ({ log with failed := some error }, some (wrapError "get AOF append offset: " error))
          | none =>
              let offset := log.file.sink.length
              match log.writeBatch disk (recorded batch) with
              | (file, some cause) => { log with file }.rollback disk offset cause
              | (file, none) => ({ log with file }.recordDelta disk (recorded batch), none)

/-! ## Rewriting -/

/-- Begin a rewrite.  `prepare` is the error of the files it could not create. -/
def startRewrite (log : Log) (prepare : Option Bytes) (entries : List SnapshotEntry) :
    Log × Option Bytes :=
  if log.closed || log.closing then (log, some (bytes "AOF is closed"))
  else
    match log.failed with
    | some cause => (log, some (wrapError "AOF is unhealthy: " cause))
    | none =>
        if log.rewrite.isSome then (log, some (bytes "AOF rewrite already in progress"))
        else
          match prepare with
          | some error => (log, some error)
          | none => ({ log with rewrite := some (.start entries) }, none)

/-- The snapshot worker writes the copies: what it leaves in the file, and its
error. -/
def writeSnapshot (entries : List SnapshotEntry) (budget : Option (Nat × Bytes)) :
    Bytes × Option Bytes :=
  match writeRecords (64 <<< 10) ⟨⟨[], budget⟩, []⟩ (entries.flatMap SnapshotEntry.commands) with
  | (writer, some (_, error)) =>
      (writer.sink.contents, some (wrapError "write AOF rewrite snapshot: " error))
  | (writer, none) =>
      match writer.flush FileSink.accept with
      | (writer, some error) =>
          (writer.sink.contents, some (wrapError "flush AOF rewrite snapshot: " error))
      | (writer, none) => (writer.sink.contents, none)

/-- The snapshot worker finishes and reports. -/
def finishSnapshot (log : Log) (budget : Option (Nat × Bytes)) : Log :=
  match log.rewrite with
  | none => log
  | some job =>
      if job.ready.isSome then log
      else
        let (temp, error) := writeSnapshot job.entries budget
        { log with rewrite := some { job with temp, ready := some error } }

/-- What the operating system does with the calls that install a rewrite. -/
structure CompleteDisk where
  mainBudget : Option (Nat × Bytes)
  deltaBudget : Option (Nat × Bytes)
  seek : Option Bytes
  copy : Option Bytes
  flush : Option Bytes
  sync : Option Bytes
  rename : Option Bytes
  directorySync : Option Bytes
  unlock : Option Bytes
  close : Option Bytes
  deltaClose : Option Bytes
  deltaRemove : Option Bytes
  cleanup : Option Bytes

/-- A step that prepares the replacement fails, or the renaming itself. -/
def CompleteDisk.FailsBeforeRename (disk : CompleteDisk) : Prop :=
  disk.seek.isSome ∨ disk.copy.isSome ∨ disk.flush.isSome ∨ disk.sync.isSome ∨ disk.rename.isSome

/-- Give a rewrite up: its files are removed and the active file stays. -/
def abandon (log : Log) (cleanup : Option Bytes) (cause : Bytes) : Log × Option Bytes :=
  ({ log with rewrite := none }, joinErrors [some cause, cleanup])

/-- The first of several steps that fails. -/
def firstError (steps : List (Option Bytes)) : Option Bytes := (steps.filterMap id).head?

/-- What is left to do once the replacement has the name of the active file. -/
def install (log : Log) (disk : CompleteDisk) (file : Bytes) : Log × Option Bytes :=
  let synced := disk.directorySync.map (wrapError "sync AOF directory after replacement: ")
  let failed := match synced with
    | some error => some error
    | none => log.failed
  let result := joinErrors [synced,
    disk.unlock.map (wrapError "unlock replaced AOF: "),
    disk.close.map (wrapError "close replaced AOF: "),
    disk.deltaClose.map (wrapError "close AOF rewrite delta: "),
    disk.deltaRemove.map (wrapError "remove AOF rewrite delta: ")]
  ({ log with file := ⟨file, []⟩, failed, rewrite := none },
    result.bind fun error => joinErrors [some error, disk.cleanup])

/-- Append the delta to the snapshot and put the result in the place of the
active file. -/
def completeRewrite (log : Log) (disk : CompleteDisk) : Log × Option Bytes :=
  match log.rewrite with
  | none => (log, some (bytes "AOF rewrite is not active"))
  | some job =>
      if log.closed then log.abandon disk.cleanup (bytes "AOF is closed")
      else
        match log.failed, job.deltaErr with
        | some cause, _ => log.abandon disk.cleanup (wrapError "AOF is unhealthy: " cause)
        | none, some error =>
            log.abandon disk.cleanup (wrapError "record AOF rewrite delta: " error)
        | none, none =>
            match (openFile log.file disk.mainBudget).flush FileSink.accept with
            | (writer, some error) =>
                let failed := wrapError "flush current AOF before replacement: " error
                { log with file := closeFile writer, failed := some failed }.abandon
                  disk.cleanup failed
            | (writer, none) =>
                let log := { log with file := closeFile writer }
                match (openFile job.delta disk.deltaBudget).flush FileSink.accept with
                | (_, some error) =>
                    log.abandon disk.cleanup (wrapError "flush AOF rewrite delta: " error)
                | (delta, none) =>
                    match firstError [
                        disk.seek.map (wrapError "seek AOF rewrite delta: "),
                        disk.copy.map (wrapError "append AOF rewrite delta: "),
                        disk.flush.map (wrapError "flush completed AOF rewrite: "),
                        disk.sync.map (wrapError "sync completed AOF rewrite: "),
                        disk.rename.map (wrapError "atomically replace AOF: ")] with
                    | some error => log.abandon disk.cleanup error
                    | none => log.install disk (job.temp ++ delta.sink.contents)

/-- Give up a rewrite whose snapshot failed. -/
def abortRewrite (log : Log) (cleanup : Option Bytes) (cause : Bytes) : Log × Option Bytes :=
  match log.rewrite with
  | none => (log, none)
  | some _ => log.abandon cleanup cause

/-! ## Other goroutines -/

/-- One tick of the loop that syncs every second. -/
def syncTick (log : Log) (sync : Option Bytes) : Log :=
  if log.policy = .everysec && !log.closed && log.failed = none then { log with failed := sync }
  else log

/-- `Close` announces itself, and waits for a rewrite to end. -/
def beginClose (log : Log) : Log := { log with closing := true }

/-- The rest of `Close`, once no rewrite is in progress. -/
def finishClose (log : Log) (budget : Option (Nat × Bytes)) : Log :=
  if log.closing && log.rewrite.isNone && !log.closed then
    { log with
      closed := true
      file := closeFile ((openFile log.file budget).flush FileSink.accept).1 }
  else log

end Log

/-- What the sync loop, the worker of a snapshot and `Close` do to the log. -/
inductive LogTask where
  | sync (error : Option Bytes)
  | snapshotDone (budget : Option (Nat × Bytes))
  | beginClose
  | finishClose (budget : Option (Nat × Bytes))

def Log.attend (log : Log) : LogTask → Log
  | .sync error => log.syncTick error
  | .snapshotDone budget => log.finishSnapshot budget
  | .beginClose => log.beginClose
  | .finishClose budget => log.finishClose budget

/-- What happens to the log outside the mutation lock. -/
inductive Background where
  | task (task : LogTask)
  | abortRewrite (cleanup : Option Bytes) (cause : Bytes)

end Carrot
