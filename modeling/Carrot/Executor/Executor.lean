import Carrot.Aof.Log
import Carrot.Command.Tracks
import Carrot.Storage.Victim

/-!
# The executor with a log

The part of the executor that runs under the mutation lock, with an append-only
log as its journal.  Everything that the environment decides is taken from a
`World`: a question asked at tick `n` gets the `n`-th answer.  What other
goroutines do to the log without the mutation lock happens before an append.

`applied` is not in the code.  It records the mutations that were journaled and
applied, with the reading of the clock at which each was applied.
-/

namespace Carrot

/-- The answers of the environment. -/
structure World where
  clock : Nat → Clock
  monotone : Monotone clock
  draws : Nat → Draws
  disk : Nat → AppendDisk
  background : Nat → List Background

/-- A failed append can always be cut off again. -/
def World.RollsBack (world : World) : Prop :=
  ∀ tick, (world.disk tick).RollsBack

inductive RewriteStatus where
  | idle
  | queued
  | running
  | completed
  | failed
  deriving DecidableEq, Repr

structure Executor where
  store : Store
  log : Log
  maxMemory : Int
  evictLRU : Bool
  rewriteStatus : RewriteStatus
  rewriteError : Bytes
  tick : Nat
  applied : List Step

/-- An executor on an empty store with an empty log. -/
def Executor.new (policy : SyncPolicy) (maxMemory : Int) (evictLRU : Bool) : Executor :=
  ⟨.new, .empty policy, maxMemory, evictLRU, .idle, [], 0, []⟩

def oomMessage : String := "OOM command not allowed when used memory > 'maxmemory'"

def alreadyInProgress : Bytes := bytes "AOF rewrite is already in progress"

namespace Executor

def now (world : World) (executor : Executor) : Clock := world.clock executor.tick

/-- Ask the environment something. -/
def wait (executor : Executor) (ticks : Nat) : Executor :=
  { executor with tick := executor.tick + ticks }

def setRewriteResult (executor : Executor) (status : RewriteStatus) (error : Option Bytes) :
    Executor :=
  { executor with rewriteStatus := status, rewriteError := error.getD [] }

def background (executor : Executor) : Background → Executor
  | .task task => { executor with log := executor.log.attend task }
  | .abortRewrite cleanup cause =>
      let (log, error) := executor.log.abortRewrite cleanup cause
      { executor with log }.setRewriteResult .failed error

/-- Delete a key without a record. -/
def drop (world : World) (executor : Executor) (key : Key) : Executor :=
  { executor with store := (executor.store.del key (executor.now world)).1 }.wait 1

variable [GoTables] (world : World)

/-- Make the commands of a batch canonical, each at its own reading. -/
def persistAll (tick : Nat) : List Command → List Persisted
  | [] => []
  | command :: commands => persist command (world.clock tick) :: persistAll (tick + 1) commands

/-- `AppendBatch` of the log. -/
def appendBatch (executor : Executor) (commands : List Command) :
    Executor × Except Bytes (List Persisted) :=
  let batch := persistAll world executor.tick commands
  let executor := executor.wait commands.length
  let executor := (world.background executor.tick).foldl background executor
  let (log, error) := executor.log.appendBatch (world.disk executor.tick) batch
  let executor := { executor with log }.wait 1
  match error with
  | some error => (executor, .error error)
  | none => (executor, .ok batch)

/-- Execute one command that was persisted. -/
def apply (executor : Executor) (persisted : Persisted) : Executor × Value :=
  let clock := executor.now world
  let (store, value) := executor.store.execute clock persisted.command
  let applied :=
    if persisted.valid then executor.applied ++ [⟨clock, persisted.command⟩] else executor.applied
  ({ executor with store, applied }.wait 1, value)

def applyAll (executor : Executor) : List Persisted → Executor × List Value
  | [] => (executor, [])
  | persisted :: batch =>
      let (executor, value) := executor.apply world persisted
      let (executor, values) := executor.applyAll batch
      (executor, value :: values)

/-! ## The memory limit -/

/-- Journal the deletion of a key, and delete it. -/
def evict (executor : Executor) (key : Key) : Executor × Option Bytes :=
  match executor.appendBatch world [delCommand key] with
  | (executor, .error error) => (executor, some (wrapError "persist eviction: " error))
  | (executor, .ok _) =>
      let clock := executor.now world
      let (store, _) := executor.store.del key clock
      let applied := executor.applied ++ [Step.mk clock (delCommand key)]
      ({ executor with store, applied }.wait 1, none)

/-- Delete a key to make room.  Only with a journal is the deletion recorded. -/
def evictWith : (journaled : Bool) → Executor → Key → Executor × Option Bytes
  | true, executor, key => (executor.wait 1).evict world key
  | false, executor, key => (executor.drop world key, none)

/-- Evict keys while memory is full.  Every round removes a key, so the number
of keys bounds the number of rounds. -/
def admitLoop (journaled : Bool) : Nat → Executor → Executor × Except Bytes Bool
  | 0, executor => (executor, .ok false)
  | rounds + 1, executor =>
      if ¬ executor.store.usedMemory > executor.maxMemory then (executor, .ok true)
      else if !executor.evictLRU then (executor, .ok false)
      else
        match executor.store.lruVictim (world.draws executor.tick) with
        | none => (executor.wait 1, .ok false)
        | some key =>
            match executor.evictWith world journaled key with
            | (executor, some error) => (executor, .error error)
            | (executor, none) => admitLoop journaled rounds executor

/-- `admit`: whether a command may run. -/
def admitWith (journaled : Bool) (executor : Executor) (command : Command) :
    Executor × Except Bytes Bool :=
  if executor.maxMemory ≤ 0 ∨ growsMemory command.name = false then (executor, .ok true)
  else admitLoop world journaled (executor.store.keyCount + 1) executor

/-- `admit` with a journal. -/
def admitCommand (executor : Executor) (command : Command) : Executor × Except Bytes Bool :=
  executor.admitWith world true command

/-- The admission of every command of a batch, in order. -/
def admitAll (executor : Executor) : List Command → Executor × List (Except Bytes Bool)
  | [] => (executor, [])
  | command :: commands =>
      let (executor, admission) := executor.admitCommand world command
      let (executor, admissions) := executor.admitAll commands
      (executor, admission :: admissions)

end Executor

/-- The commands of a batch that were admitted. -/
def admitted (batch : List Command) (admissions : List (Except Bytes Bool)) : List Command :=
  (batch.zip admissions).filterMap fun (command, admission) =>
    match admission with
    | .ok true => some command
    | _ => none

/-- The results of a batch: those of the admitted commands in their places. -/
def batchResults : List (Except Bytes Bool) → List (Except Bytes Value) → List (Except Bytes Value)
  | [], _ => []
  | .error error :: admissions, results => .error error :: batchResults admissions results
  | .ok false :: admissions, results =>
      .ok (errorValue oomMessage) :: batchResults admissions results
  | .ok true :: admissions, [] => batchResults admissions []
  | .ok true :: admissions, result :: results => result :: batchResults admissions results

namespace Executor

variable [GoTables] (world : World)

/-- Journal the admitted commands of a batch, if there are any. -/
def appendAdmitted (executor : Executor) (commands : List Command) :
    Executor × Except Bytes (List Persisted) :=
  if commands.length > 0 then executor.appendBatch world commands else (executor, .ok [])

/-- Journal and apply the admitted commands of a batch. -/
def commitAdmitted (executor : Executor) (commands : List Command) :
    Executor × List (Except Bytes Value) :=
  let refused := fun error =>
    commands.map fun _ => Except.error (wrapError "persist command before applying it: " error)
  match executor.appendAdmitted world commands with
  | (executor, .error error) => (executor, refused error)
  | (executor, .ok persisted) =>
      if persisted.length ≠ commands.length then
        (executor, refused (bytes "journal returned " ++ Decimal.formatNat persisted.length ++
          bytes " commands for batch of " ++ Decimal.formatNat commands.length))
      else
        let (executor, values) := executor.applyAll world persisted
        (executor, values.map .ok)

def commitMutationBatch (executor : Executor) (batch : List Command) :
    Executor × List (Except Bytes Value) :=
  let (executor, admissions) := executor.admitAll world batch
  let (executor, results) := executor.commitAdmitted world (admitted batch admissions)
  (executor, batchResults admissions results)

/-- Journal the deletion of the candidates that are expired, and delete them. -/
def journalAndDeleteExpired (executor : Executor) (candidates : List Key) :
    Executor × Except Bytes Int :=
  let expired := executor.store.filterExpired candidates (executor.now world)
  let executor := executor.wait 1
  if expired.length = 0 then (executor, .ok 0)
  else
    match executor.appendBatch world (expired.map delCommand) with
    | (executor, .error error) => (executor, .error (wrapError "persist expiry deletes: " error))
    | (executor, .ok _) =>
        let clock := executor.now world
        let (store, deleted) := executor.store.deleteExpired expired clock
        let applied := executor.applied ++ expired.map fun key => Step.mk clock (delCommand key)
        ({ executor with store, applied }.wait 1, .ok deleted)

/-- A command that is not a mutation. -/
def executeRead (executor : Executor) (command : Command) : Executor × Value :=
  let (store, value) := executor.store.execute (executor.now world) command
  ({ executor with store }.wait 1, value)

/-! ## Rewriting -/

omit [GoTables] in
/-- Copy the store and start a rewrite. -/
def startAOFRewriteNow (executor : Executor) (prepare : Option Bytes)
    (arrange : List Key → List Key) : Executor × Option Bytes :=
  if executor.rewriteStatus = .running then
    (executor, some alreadyInProgress)
  else
    let executor := { executor with rewriteStatus := .running, rewriteError := [] }
    let entries := executor.store.snapshotEntries (executor.now world) arrange
    match executor.log.startRewrite prepare entries with
    | (log, some error) => (({ executor with log }.setRewriteResult .failed error).wait 1, error)
    | (log, none) => ({ executor with log }.wait 1, none)

omit [GoTables] in
/-- Install the rewrite, or give it up, once the snapshot worker is ready. -/
def finishAOFRewrite (executor : Executor) (disk : Log.CompleteDisk) : Executor :=
  match executor.log.rewrite.bind RewriteJob.ready with
  | none => executor
  | some (some cause) =>
      let (log, error) := executor.log.abortRewrite disk.cleanup cause
      { executor with log }.setRewriteResult .failed error
  | some none =>
      let (log, error) := executor.log.completeRewrite disk
      { executor with log }.setRewriteResult (if error.isSome then .failed else .completed) error

end Executor

end Carrot
