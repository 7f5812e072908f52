import Carrot.Aof.Crash

/-!
# Opening and closing the log

`Open` recovers the file and makes a log that appends to it; `Close` flushes
and syncs what is left.  A torn record that recovery has cut off may come back
in a crash until the file is synced.
-/

namespace Carrot

/-! ## Opening -/

/-- What the operating system does with the calls of `Open`. -/
structure OpenDisk where
  platform : Option Bytes
  stat : Option Bytes
  create : Option Bytes
  lock : Option Bytes
  recovery : ReplayDisk
  seekEnd : Option Bytes
  directorySync : Option Bytes
  unlock : Option Bytes
  close : Option Bytes

/-- The names of the policies. -/
def SyncPolicy.ofName (name : Bytes) : Option SyncPolicy :=
  if name = bytes "always" then some .always
  else if name = bytes "everysec" then some .everysec
  else if name = bytes "no" then some .no
  else none

/-- What `Open` leaves: the file, if there is one, the store and the log. -/
structure Opened where
  file : Option Bytes
  store : Store
  log : Except Bytes Log

/-- A log on a file that has been recovered. -/
def Log.onFile (policy : SyncPolicy) (file : Bytes) : Log :=
  ⟨⟨file, []⟩, policy, false, false, none, none⟩

section

variable [GoTables]

/-- An error about the file. -/
def aofError (operation : String) (path : Bytes) (rest : String) (cause : Bytes) : Bytes :=
  bytes operation ++ GoTables.quote path ++ bytes rest ++ cause

/-- Recover the file at a path into a store and open it for appending.  There
may be no file. -/
def aofOpen (disk : OpenDisk) (readings : Nat → Clock) (path policy : Bytes)
    (found : Option Bytes) (store : Store) : Opened :=
  if path = [] then ⟨found, store, .error (bytes "AOF path must not be empty")⟩
  else
    match SyncPolicy.ofName policy with
    | none =>
        ⟨found, store, .error (bytes "unsupported AOF sync policy " ++ GoTables.quote policy)⟩
    | some policy =>
        match disk.platform, disk.stat, disk.create, disk.lock with
        | some error, _, _, _ => ⟨found, store, .error error⟩
        | none, some error, _, _ =>
            ⟨found, store, .error (aofError "inspect AOF " path ": " error)⟩
        | none, none, some error, _ =>
            ⟨found, store, .error (aofError "open AOF " path ": " error)⟩
        | none, none, none, some error =>
            ⟨some (found.getD []), store, .error
              (aofError "lock AOF " path " (another process may be using it): " error)⟩
        | none, none, none, none =>
            let closeOnError := fun error =>
              Except.error ((joinErrors [some error, disk.unlock, disk.close]).getD [])
            let recovered := replay disk.recovery readings (found.getD []) store
            match recovered.error with
            | some error =>
                ⟨some recovered.file, recovered.store,
                  closeOnError (aofError "recover AOF " path ": " error)⟩
            | none =>
                match disk.seekEnd with
                | some error =>
                    ⟨some recovered.file, recovered.store,
                      closeOnError (aofError "seek AOF " path ": " error)⟩
                | none =>
                    match found, disk.directorySync with
                    | none, some error =>
                        ⟨some recovered.file, recovered.store,
                          closeOnError (wrapError "sync AOF directory: " error)⟩
                    | _, _ =>
                        ⟨some recovered.file, recovered.store, .ok (.onFile policy recovered.file)⟩

/-- The calls of `Open` succeed. -/
structure OpenDisk.Works (disk : OpenDisk) : Prop where
  platform : disk.platform = none
  stat : disk.stat = none
  create : disk.create = none
  lock : disk.lock = none
  seek : disk.recovery.seek = none
  truncate : disk.recovery.truncate = none
  seekEnd : disk.seekEnd = none
  directorySync : disk.directorySync = none

/-- A file that can be recovered can be opened. -/
theorem aofOpen_of_recovered {disk : OpenDisk} (works : disk.Works) {readings : Nat → Clock}
    {path policy : Bytes} {found : Option Bytes} {store recovered : Store} {file : Bytes}
    (named : path ≠ []) {chosen : SyncPolicy} (known : SyncPolicy.ofName policy = some chosen)
    (replayed : replay disk.recovery readings (found.getD []) store = ⟨file, recovered, none⟩) :
    aofOpen disk readings path policy found store =
      ⟨some file, recovered, .ok (.onFile chosen file)⟩ := by
  simp only [aofOpen, if_neg named, known, works.platform, works.stat, works.create, works.lock,
    replayed, works.seekEnd, works.directorySync]

end

/-! ## The disk after opening -/

/-- The disk under a file that was found after a crash and of which recovery
has left a part. -/
def recoveredDisk (found file : Bytes) : CrashDisk UInt8 :=
  if file.length < found.length then ⟨(CrashFile.settled found).truncate file.length, []⟩
  else .settled found

/-! ## Closing -/

/-- What the operating system does with the calls of `Close`. -/
structure CloseDisk where
  budget : Option (Nat × Bytes)
  sync : Option Bytes
  unlock : Option Bytes
  close : Option Bytes

namespace Log

/-- The rest of `Close` once no rewrite is in progress: the log and the error
that it reports. -/
def close (log : Log) (disk : CloseDisk) : Log × Option Bytes :=
  let written := match ((openFile log.file disk.budget).flush FileSink.accept).2 with
    | some error => some (wrapError "flush AOF: " error)
    | none => disk.sync.map (wrapError "sync AOF on close: ")
  (log.finishClose disk.budget,
    joinErrors [log.failed, written, disk.unlock.map (wrapError "unlock AOF: "),
      disk.close.map (wrapError "close AOF: ")])

/-- What `Close` does to the disk. -/
def closeOnDisk (log : Log) (calls : CloseDisk) (disk : CrashDisk UInt8) : CrashDisk UInt8 :=
  match (openFile log.file calls.budget).flush FileSink.accept with
  | (writer, some _) => disk.write writer.sink.contents
  | (writer, none) =>
      let disk := disk.write writer.sink.contents
      if calls.sync.isSome then disk else disk.sync

end Log

end Carrot
