import Carrot.Executor.Batch

/-!
# Executing requests

`Execute` answers most commands at once.  With a journal installed, a mutation
is committed in a batch, together with the mutations of other clients that
happen to be queued with it.
-/

namespace Carrot

def RewriteStatus.text : RewriteStatus → Bytes
  | .idle => bytes "idle"
  | .queued => bytes "queued"
  | .running => bytes "running"
  | .completed => bytes "completed"
  | .failed => bytes "failed"

/-- The mutations that share a batch with a command. -/
structure Company where
  before : List Command
  after : List Command
  mutations : ∀ command ∈ before ++ after, isMutation command.name = true

/-- A batch of its own. -/
def Company.alone : Company := ⟨[], [], nofun⟩

def Company.batch (company : Company) (command : Command) : List Command :=
  company.before ++ command :: company.after

theorem Company.before_lt_length (company : Company) (command : Command) :
    company.before.length < (company.batch command).length := by
  rw [batch, List.length_append, List.length_cons]
  omega

def aofRewriteName : Bytes := bytes "AOFREWRITE"

namespace Executor

def aofRewriteStatus (executor : Executor) : Value :=
  .array [.bulkString executor.rewriteStatus.text, .bulkString executor.rewriteError]

/-- `enqueueAOFRewrite` with a log as the journal, up to the queue. -/
def enqueueAOFRewrite (executor : Executor) : Executor × Option Bytes :=
  if executor.rewriteStatus = .running ∨ executor.rewriteStatus = .queued then
    (executor, some alreadyInProgress)
  else ({ executor with rewriteStatus := .queued, rewriteError := [] }, none)

section

variable [GoTables] (world : World)

def aofRewrite (journaled : Bool) (executor : Executor) (args : List Bytes) :
    Executor × Except Bytes Value :=
  let wrongNumber := errorValue "ERR wrong number of arguments for 'aofrewrite' command"
  match args with
  | [] =>
      if journaled then
        match executor.enqueueAOFRewrite with
        | (executor, some error) => (executor, .error error)
        | (executor, none) => (executor, .ok okValue)
      else
        (executor, .error (bytes "AOF rewrite is unavailable because persistence is disabled"))
  | [argument] =>
      if equalFold argument (bytes "STATUS") then (executor, .ok executor.aofRewriteStatus)
      else (executor, .ok wrongNumber)
  | _ => (executor, .ok wrongNumber)

/-- Run a command, with the company it has if it is committed in a batch. -/
def execute (journaled : Bool) (company : Company) (executor : Executor) (command : Command) :
    Executor × Except Bytes Value :=
  if command.name = aofRewriteName then executor.aofRewrite journaled command.args
  else if isMutation command.name ∧ journaled then
    let committed := executor.commitMutationBatch world (company.batch command)
    (committed.1, committed.2.get ⟨company.before.length, by
      rw [commitMutationBatch_length]
      exact company.before_lt_length command⟩)
  else
    match executor.admitWith world journaled command with
    | (executor, .error error) => (executor, .error error)
    | (executor, .ok false) => (executor, .ok (errorValue oomMessage))
    | (executor, .ok true) =>
        let (store, value) := executor.store.execute (executor.now world) command
        ({ executor with store }.wait 1, .ok value)

/-- The error with which the journal keeps a command from being applied: an
eviction for the command, or the batch of the command, could not be appended. -/
def refusal (journaled : Bool) (company : Company) (executor : Executor) (command : Command) :
    Option Bytes :=
  if isMutation command.name ∧ journaled then
    let batch := company.batch command
    let (executor, admissions) := executor.admitAll world batch
    match admissions[company.before.length]? with
    | some (.error error) => some error
    | some (.ok true) =>
        match (executor.appendAdmitted world (admitted batch admissions)).2 with
        | .error error => some error
        | .ok _ => none
    | _ => none
  else none

end

end Executor

/-- What the servers send: the value, or an error with the text of the Go error. -/
def sentValue : Except Bytes Value → Value
  | .ok value => value
  | .error error => .error error

end Carrot
