import Carrot.Aof.Append
import Carrot.Executor.Execute

/-!
# The status of rewrites

A client that asks for a rewrite sets the status to "queued" and sends a request
to the write loop.  The loop sets the status to "running" and starts the rewrite.
A goroutine for each request waits for the outcome of the start and reports a
failure once more, and a goroutine for each rewrite waits for the snapshot,
installs it and sets the status in the end.

The steps are the sections under the lock of the status and under the lock of
the log.  The loop holds the mutation lock from the first of its sections to the
last, and a rewrite is completed under that lock.  The goroutine of a rewrite
waits as long as the log has its job.  The way of a request through the queue is
not modelled here, only how many there are.
-/

namespace Carrot

/-- Where the write loop is with a request. -/
inductive Starter where
  | idle
  /-- It has set the status to "running". -/
  | starting
  /-- It could not start the rewrite. -/
  | failing (error : Bytes)
  /-- It is about to send the outcome. -/
  | answering (outcome : Option Bytes)
  deriving DecidableEq

def Starter.holdsMutationMu : Starter → Bool
  | .starting | .failing _ => true
  | .idle | .answering _ => false

/-- An executor, and the goroutines that take part in its rewrites. -/
structure RewriteControl where
  executor : Executor
  /-- The clients that have set the status and have not sent their request. -/
  submitting : Nat
  /-- The requests in the queue. -/
  queued : Nat
  starter : Starter
  /-- The failures that the goroutines of requests have not reported yet. -/
  reports : List Bytes
  /-- The results that the goroutines of rewrites have not set yet. -/
  results : List (RewriteStatus × Option Bytes)

/-! ## The job of the log -/

theorem Log.recordDelta_isSome (log : Log) (disk : AppendDisk) (commands : List Command) :
    (log.recordDelta disk commands).rewrite.isSome = log.rewrite.isSome := by
  unfold recordDelta
  split
  next => rfl
  next running =>
    split
    next => simp [running]
    next => rfl

theorem Log.appendBatch_isSome (log : Log) (disk : AppendDisk) (batch : List Persisted) :
    (log.appendBatch disk batch).1.rewrite.isSome = log.rewrite.isSome := by
  rcases log.appendBatch_eq disk batch with ⟨-, _, refused⟩ | ⟨-, nothing⟩ | ⟨_, _, unknown⟩ |
    ⟨_, _, -, rolled⟩ | ⟨_, -, appended⟩
  · rw [refused]
  · rw [nothing]
  · rw [unknown]
  · rw [rolled, rollback_rewrite]
  · rw [appended, recordDelta_isSome]

/-- Nothing but a start, an abort or a completion changes whether there is a job. -/
theorem Log.attend_isSome (log : Log) (task : LogTask) :
    (log.attend task).rewrite.isSome = log.rewrite.isSome := by
  cases task with
  | sync error =>
      simp only [attend, syncTick]
      split <;> rfl
  | snapshotDone budget =>
      simp only [attend, finishSnapshot]
      split
      next => rfl
      next running =>
        split
        next => rfl
        next => simp [running]
  | beginClose => rfl
  | finishClose budget =>
      simp only [attend, finishClose]
      split <;> rfl

theorem Log.abortRewrite_rewrite (log : Log) (cleanup : Option Bytes) (cause : Bytes) :
    (log.abortRewrite cleanup cause).1.rewrite = none := by
  unfold abortRewrite
  split
  next idle => exact idle
  next => rfl

/-! ## Steps -/

inductive RewriteAction where
  /-- A client calls `enqueueAOFRewrite`, -/
  | request
  /-- and sends its request. -/
  | submit
  /-- The write loop enters `startAOFRewriteNow`, -/
  | take
  /-- takes the snapshot and starts the rewrite, -/
  | start (snapshot : Except Bytes (List SnapshotEntry)) (prepare : Option Bytes)
  /-- sets the status if that has failed, -/
  | fail
  /-- and sends the outcome. -/
  | answer
  /-- The goroutine of a request reports a failure. -/
  | report (index : Nat)
  /-- The goroutine of a rewrite gives it up, -/
  | abort (cleanup : Option Bytes)
  /-- or completes it, -/
  | complete (disk : Log.CompleteDisk)
  /-- and sets the result. -/
  | finish (index : Nat)
  /-- Something else happens to the log. -/
  | append (disk : AppendDisk) (batch : List Persisted)
  | task (task : LogTask)

namespace RewriteControl

/-- Before the first request. -/
def new (executor : Executor) : RewriteControl := ⟨executor, 0, 0, .idle, [], []⟩

def setLog (control : RewriteControl) (log : Log) : RewriteControl :=
  { control with executor := { control.executor with log } }

def setRewriteResult (control : RewriteControl) (status : RewriteStatus) (error : Option Bytes) :
    RewriteControl :=
  { control with executor := control.executor.setRewriteResult status error }

/-- `enqueueAOFRewrite` up to the queue: a client that was not refused has a request
to send. -/
def enqueueAOFRewrite (control : RewriteControl) : RewriteControl × Option Bytes :=
  match control.executor.enqueueAOFRewrite with
  | (executor, some error) => ({ control with executor }, some error)
  | (executor, none) => ({ control with executor, submitting := control.submitting + 1 }, none)

/-- The first section of `startAOFRewriteNow`. -/
def enterStart (control : RewriteControl) : RewriteControl :=
  if control.executor.rewriteStatus = .running then
    { control with starter := .answering (some alreadyInProgress) }
  else
    { control with
      executor := { control.executor with rewriteStatus := .running, rewriteError := [] }
      starter := .starting }

/-- The second section: the snapshot, and `StartRewrite`. -/
def startRewrite (control : RewriteControl) (snapshot : Except Bytes (List SnapshotEntry))
    (prepare : Option Bytes) : RewriteControl :=
  match snapshot with
  | .error error =>
      { control with starter := .failing (wrapError "snapshot store for AOF rewrite: " error) }
  | .ok entries =>
      match control.executor.log.startRewrite prepare entries with
      | (log, error) =>
          { control with
            executor := { control.executor with log }.wait 1
            starter := match error with
              | some error => .failing error
              | none => .answering none }

/-- One step, unless it has to wait. -/
def step (control : RewriteControl) : RewriteAction → Option RewriteControl
  | .request => some control.enqueueAOFRewrite.1
  | .submit =>
      if 0 < control.submitting then
        some { control with submitting := control.submitting - 1, queued := control.queued + 1 }
      else none
  | .take =>
      if control.starter = .idle ∧ 0 < control.queued then
        some { control with queued := control.queued - 1 }.enterStart
      else none
  | .start snapshot prepare =>
      if control.starter = .starting then some (control.startRewrite snapshot prepare) else none
  | .fail =>
      match control.starter with
      | .failing error =>
          some ({ control with starter := .answering (some error) }.setRewriteResult .failed
            (some error))
      | _ => none
  | .answer =>
      match control.starter with
      | .answering outcome =>
          some { control with starter := .idle, reports := control.reports ++ outcome.toList }
      | _ => none
  | .report index =>
      match control.reports[index]? with
      | some error =>
          some ({ control with reports := control.reports.eraseIdx index }.setRewriteResult .failed
            (some error))
      | none => none
  | .abort cleanup =>
      match control.executor.log.rewrite.bind RewriteJob.ready with
      | some (some cause) =>
          let (log, error) := control.executor.log.abortRewrite cleanup cause
          some { control.setLog log with results := control.results ++ [(.failed, error)] }
      | _ => none
  | .complete disk =>
      if control.starter.holdsMutationMu then none
      else
        match control.executor.log.rewrite.bind RewriteJob.ready with
        | some none =>
            let (log, error) := control.executor.log.completeRewrite disk
            let status := if error.isSome then .failed else .completed
            some { control.setLog log with results := control.results ++ [(status, error)] }
        | _ => none
  | .finish index =>
      match control.results[index]? with
      | some (status, error) =>
          some ({ control with results := control.results.eraseIdx index }.setRewriteResult status
            error)
      | none => none
  | .append disk batch => some (control.setLog (control.executor.log.appendBatch disk batch).1)
  | .task task => some (control.setLog (control.executor.log.attend task))

def run (control : RewriteControl) (actions : List RewriteAction) : Option RewriteControl :=
  actions.foldlM step control

/-- The states that are reached by steps of a kind. -/
inductive Reached (allowed : RewriteControl → RewriteAction → Prop) (start : RewriteControl) :
    RewriteControl → Prop where
  | start : Reached allowed start start
  | step {control after : RewriteControl} {action : RewriteAction} :
      Reached allowed start control → allowed control action →
      control.step action = some after → Reached allowed start after

theorem Reached.run {allowed : RewriteControl → RewriteAction → Prop}
    {start control after : RewriteControl} (reached : Reached allowed start control)
    {actions : List RewriteAction} (always : ∀ control, ∀ action ∈ actions, allowed control action)
    (finished : control.run actions = some after) : Reached allowed start after := by
  induction actions generalizing control with
  | nil =>
      cases finished
      exact reached
  | cons action actions inductionHypothesis =>
      obtain ⟨next, stepped, later⟩ := Option.bind_eq_some_iff.mp finished
      exact inductionHypothesis
        (.step reached (always control action List.mem_cons_self) stepped)
        (fun control other membership => always control other (List.mem_cons_of_mem _ membership))
        later

/-! ## The sections without interruption -/

/-- The write loop is about to take, or has taken, a request. -/
def ofExecutor (executor : Executor) (queued : Nat) (starter : Starter) : RewriteControl :=
  ⟨executor, 0, queued, starter, [], []⟩

/-- The sections of the write loop make up `startAOFRewriteNow`. -/
theorem run_startAOFRewriteNow (world : World) (executor : Executor) (prepare : Option Bytes)
    (arrange : List Key → List Key) :
    ∃ actions, (ofExecutor executor 1 .idle).run actions =
      some (ofExecutor (executor.startAOFRewriteNow world prepare arrange).1 0
        (.answering (executor.startAOFRewriteNow world prepare arrange).2)) := by
  by_cases running : executor.rewriteStatus = .running
  · refine ⟨[.take], ?_⟩
    simp [run, step, ofExecutor, enterStart, Executor.startAOFRewriteNow, running,
      alreadyInProgress]
  · have entered : (ofExecutor executor 1 .idle).step .take =
        some (ofExecutor { executor with rewriteStatus := .running, rewriteError := [] } 0
          .starting) := by
      simp [step, ofExecutor, enterStart, running]
    rcases outcome : executor.log.startRewrite prepare
        (executor.store.snapshotEntries (world.clock executor.tick) arrange) with ⟨log, _ | error⟩
    · refine ⟨[.take, .start (.ok (executor.store.snapshotEntries (world.clock executor.tick)
        arrange)) prepare], ?_⟩
      simp only [run, List.foldlM_cons, List.foldlM_nil, entered, Option.bind_eq_bind,
        Option.bind_some]
      simp [step, ofExecutor, startRewrite, Executor.startAOFRewriteNow, Executor.now,
        Executor.wait, running, outcome]
    · refine ⟨[.take, .start (.ok (executor.store.snapshotEntries (world.clock executor.tick)
        arrange)) prepare, .fail], ?_⟩
      simp only [run, List.foldlM_cons, List.foldlM_nil, entered, Option.bind_eq_bind,
        Option.bind_some]
      simp [step, ofExecutor, startRewrite, setRewriteResult, Executor.startAOFRewriteNow,
        Executor.setRewriteResult, Executor.now, Executor.wait, running, outcome]

/-- The sections of the goroutine of a rewrite make up `finishAOFRewrite`. -/
theorem run_finishAOFRewrite (executor : Executor) (disk : Log.CompleteDisk) :
    ∃ actions, (ofExecutor executor 0 .idle).run actions =
      some (ofExecutor (executor.finishAOFRewrite disk) 0 .idle) := by
  unfold Executor.finishAOFRewrite
  split
  next => exact ⟨[], rfl⟩
  next cause ready =>
    refine ⟨[.abort disk.cleanup, .finish 0], ?_⟩
    simp [run, step, ofExecutor, ready, setLog, setRewriteResult, Executor.setRewriteResult]
  next ready =>
    refine ⟨[.complete disk, .finish 0], ?_⟩
    simp [run, step, ofExecutor, ready, setLog, setRewriteResult, Executor.setRewriteResult,
      Starter.holdsMutationMu]

/-! ## A rewrite that is in progress -/

/-- How many rewrites are being started, have a job, or wait for their result to
be set. -/
def inProgress (control : RewriteControl) : Nat :=
  control.executor.log.rewrite.isSome.toNat + control.starter.holdsMutationMu.toNat +
    control.results.length

/-- At most one rewrite is in progress, and the status says so. -/
structure Orderly (control : RewriteControl) : Prop where
  one : control.inProgress ≤ 1
  running : control.inProgress ≠ 0 → control.executor.rewriteStatus = .running

/-- A failure is not reported while the status is "running". -/
def Timely (control : RewriteControl) (action : RewriteAction) : Prop :=
  ∀ index, action = .report index → control.executor.rewriteStatus ≠ .running

variable {control after : RewriteControl}

theorem Orderly.idle_of_not_running (orderly : control.Orderly)
    (other : control.executor.rewriteStatus ≠ .running) : control.inProgress = 0 :=
  Decidable.not_not.mp fun busy => other (orderly.running busy)

theorem Orderly.of_idle (idle : control.inProgress = 0) : control.Orderly :=
  ⟨by omega, fun busy => absurd idle busy⟩

theorem Orderly.congr (orderly : control.Orderly) (same : after.inProgress = control.inProgress)
    (sameStatus : after.executor.rewriteStatus = control.executor.rewriteStatus) : after.Orderly :=
  ⟨same ▸ orderly.one, fun busy => sameStatus ▸ orderly.running (same ▸ busy)⟩

theorem Orderly.enqueueAOFRewrite (orderly : control.Orderly) :
    control.enqueueAOFRewrite.1.Orderly := by
  unfold RewriteControl.enqueueAOFRewrite Executor.enqueueAOFRewrite
  by_cases busy : control.executor.rewriteStatus = .running ∨
      control.executor.rewriteStatus = .queued
  · rw [if_pos busy]
    exact orderly
  · rw [if_neg busy]
    exact .of_idle (orderly.idle_of_not_running fun running => busy (.inl running))

theorem Orderly.enterStart (orderly : control.Orderly) (idle : control.starter = .idle) :
    control.enterStart.Orderly := by
  unfold RewriteControl.enterStart
  split
  next => exact orderly.congr (by simp [inProgress, idle, Starter.holdsMutationMu]) rfl
  next other =>
    have none := orderly.idle_of_not_running other
    simp only [inProgress, idle, Starter.holdsMutationMu] at none
    constructor
    · simp only [inProgress, Starter.holdsMutationMu, Bool.toNat_true]
      simp only [Bool.toNat_false] at none
      omega
    · exact fun _ => rfl

theorem Orderly.startRewrite (orderly : control.Orderly) (starting : control.starter = .starting)
    (snapshot : Except Bytes (List SnapshotEntry)) (prepare : Option Bytes) :
    (control.startRewrite snapshot prepare).Orderly := by
  unfold RewriteControl.startRewrite
  split
  next => exact orderly.congr (by simp [inProgress, starting, Starter.holdsMutationMu]) rfl
  next =>
    rename_i entries
    rcases outcome : control.executor.log.startRewrite prepare entries with ⟨log, _ | error⟩
    · obtain ⟨idle, rfl⟩ := Log.startRewrite_ok outcome
      refine orderly.congr ?_ rfl
      simp [inProgress, Executor.wait, starting, Starter.holdsMutationMu, idle]
    · rw [Log.startRewrite_error outcome]
      refine orderly.congr ?_ rfl
      simp [inProgress, Executor.wait, starting, Starter.holdsMutationMu]

/-- A job turns into a result that has to be set. -/
theorem Orderly.endJob (orderly : control.Orderly) {outcome : Option Bytes}
    (ready : control.executor.log.rewrite.bind RewriteJob.ready = some outcome) {log : Log}
    (ended : log.rewrite = none) (result : RewriteStatus × Option Bytes) :
    { control.setLog log with results := control.results ++ [result] }.Orderly := by
  obtain ⟨job, running, -⟩ := Option.bind_eq_some_iff.mp ready
  refine orderly.congr ?_ rfl
  simp only [inProgress, setLog, running, ended, Option.isSome_none, Option.isSome_some,
    Bool.toNat_false, Bool.toNat_true, List.length_append, List.length_singleton]
  omega

theorem Orderly.step (orderly : control.Orderly) {action : RewriteAction}
    (timely : control.Timely action) (stepped : control.step action = some after) :
    after.Orderly := by
  cases action with
  | request =>
      cases stepped
      exact orderly.enqueueAOFRewrite
  | submit =>
      simp only [RewriteControl.step] at stepped
      split at stepped
      next =>
        cases stepped
        exact orderly.congr rfl rfl
      next => cases stepped
  | take =>
      simp only [RewriteControl.step] at stepped
      split at stepped
      next ready =>
        cases stepped
        have fewer : { control with queued := control.queued - 1 }.Orderly :=
          orderly.congr rfl rfl
        exact fewer.enterStart ready.1
      next => cases stepped
  | start snapshot prepare =>
      simp only [RewriteControl.step] at stepped
      split at stepped
      next starting =>
        cases stepped
        exact orderly.startRewrite starting snapshot prepare
      next => cases stepped
  | fail =>
      simp only [RewriteControl.step] at stepped
      split at stepped
      next error failing =>
        cases stepped
        have one := orderly.one
        simp only [inProgress, failing, Starter.holdsMutationMu, Bool.toNat_true] at one
        refine .of_idle ?_
        simp only [setRewriteResult, Executor.setRewriteResult, inProgress,
          Starter.holdsMutationMu, Bool.toNat_false]
        omega
      next => cases stepped
  | answer =>
      simp only [RewriteControl.step] at stepped
      split at stepped
      next outcome answering =>
        cases stepped
        exact orderly.congr (by simp [inProgress, answering, Starter.holdsMutationMu]) rfl
      next => cases stepped
  | report index =>
      simp only [RewriteControl.step] at stepped
      split at stepped
      next =>
        cases stepped
        exact .of_idle (orderly.idle_of_not_running (timely index rfl))
      next => cases stepped
  | abort cleanup =>
      simp only [RewriteControl.step] at stepped
      split at stepped
      next cause ready =>
        cases stepped
        exact orderly.endJob ready (control.executor.log.abortRewrite_rewrite cleanup cause) _
      next => cases stepped
  | complete disk =>
      simp only [RewriteControl.step] at stepped
      split at stepped
      next => cases stepped
      next =>
        split at stepped
        next ready =>
          cases stepped
          exact orderly.endJob ready (control.executor.log.completeRewrite_rewrite disk) _
        next => cases stepped
  | finish index =>
      simp only [RewriteControl.step] at stepped
      split at stepped
      next status error pending =>
        cases stepped
        have one := orderly.one
        have present := (List.getElem?_eq_some_iff.mp pending).1
        refine .of_idle ?_
        simp only [setRewriteResult, Executor.setRewriteResult, inProgress,
          List.length_eraseIdx_of_lt present] at one ⊢
        omega
      next => cases stepped
  | append disk batch =>
      cases stepped
      exact orderly.congr (by simp only [inProgress, setLog, Log.appendBatch_isSome]) rfl
  | task task =>
      cases stepped
      exact orderly.congr (by simp only [inProgress, setLog, Log.attend_isSome]) rfl

theorem Reached.orderly {start : RewriteControl} (idle : start.Orderly)
    (reached : Reached Timely start control) : control.Orderly := by
  induction reached with
  | start => exact idle
  | step _ timely stepped inductionHypothesis => exact inductionHypothesis.step timely stepped

theorem new_orderly {executor : Executor} (idle : executor.log.rewrite = none) :
    (new executor).Orderly :=
  .of_idle (by simp [inProgress, new, idle, Starter.holdsMutationMu])

/-- While the log has a job, the status is "running" and another rewrite is
refused. -/
def Reported (control : RewriteControl) : Prop :=
  control.executor.log.rewrite.isSome → control.executor.rewriteStatus = .running ∧
    control.enqueueAOFRewrite = (control, some alreadyInProgress)

theorem Orderly.reported (orderly : control.Orderly) : control.Reported := by
  intro active
  have running : control.executor.rewriteStatus = .running := by
    refine orderly.running ?_
    rw [inProgress, active, Bool.toNat_true]
    omega
  refine ⟨running, ?_⟩
  rw [RewriteControl.enqueueAOFRewrite, Executor.enqueueAOFRewrite, if_pos (.inl running)]

/-- The status is right about a job of the log as long as failures are reported
in time, and a failure that is reported while there is a job makes it wrong. -/
theorem reported_of_timely {executor : Executor} (idle : executor.log.rewrite = none)
    (reached : Reached Timely (new executor) control) :
    control.Reported ∧ ∀ index after, control.executor.log.rewrite.isSome →
      control.step (.report index) = some after → ¬ after.Reported := by
  refine ⟨(reached.orderly (new_orderly idle)).reported, ?_⟩
  intro index after active stepped reported
  simp only [step] at stepped
  split at stepped
  next =>
    cases stepped
    exact absurd (reported active).1 nofun
  next => cases stepped

/-- One rewrite that has been started. -/
theorem reported_of_timely_started :
    ∃ control, Reached Timely (new (Executor.new .always 0 false)) control ∧
      control.executor.log.rewrite.isSome ∧ control.Reported := by
  have reached : Reached Timely (new (Executor.new .always 0 false)) _ :=
    Reached.start.run (by
      intro control action membership index same
      subst same
      simp at membership) (show RewriteControl.run _
        [.request, .submit, .take, .start (.ok []) none, .answer] = some _ from rfl)
  exact ⟨_, reached, rfl, (reported_of_timely rfl reached).1⟩

/-- Two requests.  The first rewrite can not be started, and the failure is
reported a second time after the other rewrite has been started. -/
theorem late_report_hides_rewrite :
    ∃ control, Reached (fun _ _ => True) (new (Executor.new .always 0 false)) control ∧
      control.executor.log.rewrite.isSome ∧ control.executor.rewriteStatus = .failed ∧
      control.enqueueAOFRewrite.2 = none :=
  ⟨_, Reached.start.run (fun _ _ _ => trivial) (show RewriteControl.run _
      [.request, .submit, .take,
        .start (.ok []) (some (bytes "create AOF rewrite file: disk full")), .fail, .answer,
        .request, .submit, .take, .start (.ok []) none, .answer, .report 0] =
      some _ from rfl), rfl, rfl, rfl⟩

end RewriteControl

end Carrot
