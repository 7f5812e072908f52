import Carrot.Dispatcher.Order
import Carrot.Executor.Persistent

/-!
# Answers and crashes

The dispatcher with the executor and the disk of its log behind it.  Between the
steps of clients and of the write loop, keys expire, commands read, a rewrite is
finished and the log is synced or closed, each under its own lock.

A client that was told of a success need not fear a crash if every append is
synced.
-/

namespace Carrot

/-- What the environment decides about the rewrites that start at each tick. -/
structure Rewrites where
  prepare : Nat → Option Bytes
  arrange : Nat → List Key → List Key
  arranged : ∀ tick keys, (arrange tick keys).Perm keys

/-- What happens to the executor outside the write loop. -/
def Event.Elsewhere : Event → Prop
  | .write (.commit _) => False
  | .startRewrite .. => False
  | _ => True

/-- What a call of the backend is for the executor. -/
def BackendCall.event (rewrites : Rewrites) (core : Executor) : BackendCall → Event
  | .commit batch => .write (.commit (batch.map Request.cmd))
  | .startRewrite _ =>
      .startRewrite (rewrites.prepare core.tick) (rewrites.arrange core.tick)
        (rewrites.arranged core.tick)

/-- A dispatcher, and the calls that have been made to the log. -/
structure Serving where
  dispatcher : Dispatcher Executor
  logCalls : List LogCall

namespace Serving

def new (executor : Executor) : Serving := ⟨.new executor, []⟩

/-- The executor behind the dispatcher. -/
def core (serving : Serving) : Executor := serving.dispatcher.core

/-- The log and its disk. -/
def durable (start : Executor) (serving : Serving) : DurableLog :=
  start.onDisk.run serving.logCalls

end Serving

section

variable [GoTables]

/-- A step of a client or the write loop, with the calls to the log that it
makes, or a step of another goroutine. -/
inductive ServingStep (world : World) (policy : SyncPolicy) (rewrites : Rewrites) :
    Serving → Serving → Prop where
  | dispatch {serving : Serving} {label : Label} {after : Dispatcher Executor} :
      DispatchStep (Executor.backend world policy rewrites.prepare rewrites.arrange)
        serving.dispatcher label after →
      ServingStep world policy rewrites serving
        ⟨after, serving.logCalls ++ (after.calls.drop serving.dispatcher.calls.length).flatMap
          fun call => serving.core.stepCalls world (call.event rewrites serving.core)⟩
  | elsewhere {serving : Serving} {event : Event} : event.Elsewhere →
      ServingStep world policy rewrites serving
        ⟨{ serving.dispatcher with core := serving.core.step world event },
          serving.logCalls ++ serving.core.stepCalls world event⟩
  /-- `enqueueAOFRewrite`, or the goroutine it starts, sets the status. -/
  | status {serving : Serving} (status : RewriteStatus) (error : Option Bytes) :
      ServingStep world policy rewrites serving
        { serving with dispatcher :=
            { serving.dispatcher with core := serving.core.setRewriteResult status error } }

namespace Serving

/-- Any number of steps. -/
def Reaches (world : World) (policy : SyncPolicy) (rewrites : Rewrites) :
    Serving → Serving → Prop :=
  Relation.ReflTransGen (ServingStep world policy rewrites)

end Serving

/-! ## What a step does to the executor -/

omit [GoTables] in
/-- A step of the dispatcher calls the executor once or not at all. -/
theorem DispatchStep.called {Core : Type} {backend : Backend Core} {state after : Dispatcher Core}
    {label : Label} (step : DispatchStep backend state label after) :
    (after.calls = state.calls ∧ after.core = state.core) ∨
      ∃ call, after.calls = state.calls ++ [call] ∧
        after.core = call.perform backend state.core := by
  cases step with
  | call | timer => exact .inl ⟨rfl, rfl⟩
  | client step => cases step <;> exact .inl ⟨rfl, rfl⟩
  | loop step =>
      cases step with
      | startRewrite => exact .inr ⟨.startRewrite _, rfl, rfl⟩
      | commit => exact .inr ⟨.commit _, rfl, rfl⟩
      | _ => exact .inl ⟨rfl, rfl⟩

variable {world : World} {policy : SyncPolicy} {rewrites : Rewrites}

theorem BackendCall.perform_eq (core : Executor) (call : BackendCall) :
    call.perform (Executor.backend world policy rewrites.prepare rewrites.arrange) core =
      core.step world (call.event rewrites core) := by
  cases call <;> rfl

namespace Serving

variable {serving after : Serving}

/-- A step is an event of the executor, or changes nothing but its status. -/
theorem step_core (step : ServingStep world policy rewrites serving after) :
    (∃ event, after.core = serving.core.step world event ∧
      after.logCalls = serving.logCalls ++ serving.core.stepCalls world event) ∨
    ∃ status error,
      after.core = { serving.core with rewriteStatus := status, rewriteError := error } ∧
        after.logCalls = serving.logCalls := by
  cases step with
  | dispatch step =>
      rcases step.called with ⟨calls, same⟩ | ⟨call, calls, same⟩
      · refine .inr ⟨serving.core.rewriteStatus, serving.core.rewriteError, same, ?_⟩
        rw [calls, List.drop_length]
        exact List.append_nil _
      · refine .inl ⟨call.event rewrites serving.core, ?_, ?_⟩
        · exact same.trans (call.perform_eq serving.core)
        · rw [calls, List.drop_left, List.flatMap_singleton]
  | elsewhere => exact .inl ⟨_, rfl, rfl⟩
  | status status error => exact .inr ⟨status, error.getD [], rfl, rfl⟩

end Serving

/-! ## Answers -/

/-- The answers that the write loop is about to give. -/
def LoopPhase.answers : LoopPhase → List (Request × Answer)
  | .answering answers _ => answers
  | _ => []

/-- What an answer promises. -/
def Answer.Holds (applied : List Step) (request : Request) : Answer → Prop
  | .result outcome => Kept applied request.cmd outcome
  | .rewriteStart _ => True

theorem Answer.Holds.mono {applied more : List Step} {request : Request} {answer : Answer}
    (holds : answer.Holds applied request) (longer : applied <+: more) :
    answer.Holds more request := by
  cases answer with
  | result result => exact Kept.mono holds longer.subset
  | rewriteStart error => trivial

/-- All answers, those of the past and those to come, promise what is so. -/
structure Dispatcher.Truthful (state : Dispatcher Executor) : Prop where
  answered : ∀ entry ∈ state.answered, entry.2.Holds state.core.applied entry.1
  answering : ∀ number loop, state.loops number = some loop →
    ∀ entry ∈ loop.phase.answers, entry.2.Holds state.core.applied entry.1

namespace Dispatcher

variable {state after : Dispatcher Executor}

/-- At most one loop moves, and its answers hold. -/
theorem Truthful.moves (truthful : state.Truthful) {number : Nat} {moved : Option WriteLoop}
    (loops : after.loops = Function.update state.loops number moved)
    (longer : state.core.applied <+: after.core.applied)
    (answered : ∀ entry ∈ after.answered, entry ∈ state.answered ∨
      entry.2.Holds after.core.applied entry.1)
    (hold : ∀ loop, moved = some loop →
      ∀ entry ∈ loop.phase.answers, entry.2.Holds after.core.applied entry.1) :
    after.Truthful where
  answered entry membership := by
    rcases answered entry membership with old | holds
    · exact (truthful.answered entry old).mono longer
    · exact holds
  answering other loop running := by
    rw [loops] at running
    by_cases same : other = number
    · rw [same, Function.update_self] at running
      exact hold loop running
    · rw [Function.update_of_ne same] at running
      intro entry membership
      exact (truthful.answering other loop running entry membership).mono longer

/-- A loop goes on without answers. -/
theorem Truthful.quiet (truthful : state.Truthful) {number : Nat} {moved : Option WriteLoop}
    (loops : after.loops = Function.update state.loops number moved)
    (core : after.core = state.core) (answered : after.answered = state.answered)
    (silent : ∀ loop, moved = some loop → loop.phase.answers = []) : after.Truthful := by
  apply truthful.moves loops
  · rw [core]
  · rw [answered]
    exact fun _ => .inl
  · intro loop same entry membership
    rw [silent loop same] at membership
    cases membership

theorem Truthful.grow (truthful : state.Truthful) (loops : after.loops = state.loops)
    (answered : after.answered = state.answered)
    (longer : state.core.applied <+: after.core.applied) : after.Truthful where
  answered entry membership := by
    rw [answered] at membership
    exact (truthful.answered entry membership).mono longer
  answering number loop running := by
    rw [loops] at running
    intro entry membership
    exact (truthful.answering number loop running entry membership).mono longer

theorem holds_of_kept {applied : List Step} {batch : List Request}
    {results : List (Except Bytes Value)}
    (kept : List.Forall₂ (Kept applied) (batch.map Request.cmd) results) :
    ∀ entry ∈ batch.zip (results.map Answer.result), entry.2.Holds applied entry.1 := by
  induction batch generalizing results with
  | nil => simp
  | cons request batch inductionHypothesis =>
      cases kept with
      | cons first rest =>
          rintro entry (_ | ⟨_, membership⟩)
          · exact first
          · exact inductionHypothesis rest entry membership

theorem Truthful.loop_step {number : Nat} (truthful : state.Truthful)
    (step : LoopStep
      (Executor.backend world policy rewrites.prepare rewrites.arrange) state number after) :
    after.Truthful := by
  cases step with
  | takePending | takeQueued | idle | lock | stay | openBatch | collect | putAside | closeBatch
  | finish =>
      apply truthful.quiet
      · rfl
      · rfl
      · rfl
      · rintro _ ⟨⟩
        rfl
  | exit =>
      apply truthful.quiet
      · rfl
      · rfl
      · rfl
      · rintro _ ⟨⟩
  | startRewrite =>
      apply truthful.moves
      · rfl
      · have commits : Executor.Commits world state.core [] [] _ :=
          Executor.commits_startAOFRewriteNow state.core
            (rewrites.prepare state.core.tick) (rewrites.arrange state.core.tick)
        exact commits.applied_prefix
      · exact fun _ => .inl
      · rintro _ ⟨⟩ entry membership
        rw [List.mem_singleton.mp membership]
        trivial
  | @commit batch =>
      obtain ⟨_, _, -, -, commits⟩ :=
        Executor.commits_commitMutationBatch world state.core (batch.map Request.cmd)
      apply truthful.moves
      · rfl
      · exact commits.applied_prefix
      · exact fun _ => .inl
      · rintro _ ⟨⟩
        exact holds_of_kept (Executor.kept_commitMutationBatch world state.core _)
  | answer running =>
      have hold := truthful.answering _ _ running
      apply truthful.moves
      · rfl
      · exact List.prefix_refl _
      · intro entry membership
        rcases List.mem_append.mp membership with old | isNew
        · exact .inl old
        · rw [List.mem_singleton.mp isNew]
          exact .inr (hold _ List.mem_cons_self)
      · rintro _ ⟨⟩ entry membership
        exact hold entry (List.mem_cons_of_mem _ membership)

theorem Truthful.step {label : Label} (truthful : state.Truthful)
    (step : DispatchStep
      (Executor.backend world policy rewrites.prepare rewrites.arrange) state label after) :
    after.Truthful := by
  cases step with
  | call => exact ⟨truthful.answered, truthful.answering⟩
  | @timer _ loop running =>
      have hold := truthful.answering _ loop running
      apply truthful.moves
      · rfl
      · exact List.prefix_refl _
      · exact fun _ => .inl
      · rintro _ ⟨⟩
        exact hold
  | client step =>
      cases step with
      | start =>
          apply truthful.quiet
          · rfl
          · rfl
          · rfl
          · rintro _ ⟨⟩
            rfl
      | _ => exact ⟨truthful.answered, truthful.answering⟩
  | loop step => exact truthful.loop_step step

end Dispatcher

/-! ## Whole runs -/

namespace Serving

variable {serving after : Serving} {base : List Step} {past : Executor → Prop}
  {submitted : List Command → Prop} {start : Executor}

omit [GoTables] in
theorem durable_append (start : Executor) (serving : Serving) (calls : List LogCall) :
    start.onDisk.run (serving.logCalls ++ calls) = (serving.durable start).run calls :=
  DurableLog.run_append _ _ _

/-- The disk is safe in every state that is reached. -/
theorem Reaches.safe (repositions : world.Repositions)
    (faithful : Executor.Faithful world base start)
    (reaches : Reaches world policy rewrites (new start) serving)
    (inPast : ∀ between, Reaches world policy rewrites (new start) between →
      Reaches world policy rewrites between serving → past between.core)
    (submits : ∀ commands, Submits serving.logCalls commands → submitted commands) :
    Executor.Safe world base past 0 True submitted serving.core (serving.durable start) := by
  induction reaches with
  | refl => exact faithful.safe
  | @tail between after earlier step inductionHypothesis =>
      have inPastBefore : ∀ state, Reaches world policy rewrites (new start) state →
          Reaches world policy rewrites state between → past state.core :=
        fun state first second => inPast state first (second.tail step)
      rcases step_core step with ⟨event, core, calls⟩ | ⟨status, error, core, calls⟩
      · rw [calls] at submits
        have safe := inductionHypothesis inPastBefore
          fun commands ⟨disk, batch, membership, same⟩ =>
            submits commands ⟨disk, batch, List.mem_append_left _ membership, same⟩
        rw [core, durable, calls, durable_append]
        apply safe.step repositions
        · exact inPast between earlier (.single step)
        · rintro commands ⟨disk, batch, membership, same⟩
          exact submits commands ⟨disk, batch, List.mem_append_right _ membership, same⟩
      · rw [calls] at submits
        rw [core, durable, calls]
        exact (inductionHypothesis inPastBefore submits).status status error

theorem Reaches.truthful (repositions : world.Repositions)
    (faithful : Executor.Faithful world base start)
    (reaches : Reaches world policy rewrites (new start) serving) :
    serving.dispatcher.Truthful := by
  induction reaches with
  | refl => exact ⟨fun _ => by simp [new, Dispatcher.new], fun _ _ => by simp [new, Dispatcher.new]⟩
  | @tail between after earlier step inductionHypothesis =>
      cases step with
      | dispatch step => exact inductionHypothesis.step step
      | elsewhere =>
          have safe : Executor.Safe world base (fun _ => True) 0 True (fun _ => True) between.core
              (between.durable start) :=
            Reaches.safe repositions faithful earlier (fun _ _ _ => trivial) fun _ _ => trivial
          apply inductionHypothesis.grow
          · rfl
          · rfl
          · exact Executor.applied_step safe.wellFormed _
      | status =>
          apply inductionHypothesis.grow
          · rfl
          · rfl
          · exact List.prefix_refl _

/-- However clients, the write loop and other goroutines are interleaved, whatever
fails but the seek of a rollback, and wherever the crash comes, the disk keeps what
clients were told if every append is synced.  What is found begins with a history
that, executed at the clocks at which its commands were applied, brings back what
they saw.
A mutation that was answered without an error is in it as it was persisted, or
had been applied before the snapshot with which the history begins. -/
theorem acknowledged_survive_crash (world : World) (repositions : world.Repositions)
    (rewrites : Rewrites) {start : Executor} {base : List Step}
    (faithful : Executor.Faithful world base start) (always : start.log.policy = .always)
    {serving : Serving} (reaches : Reaches world .always rewrites (new start) serving)
    {event : Event} {calls : List LogCall} (inFlight : calls <+: serving.core.stepCalls world event)
    {contents : Bytes}
    (survives : (start.onDisk.run (serving.logCalls ++ calls)).disk.Survives contents) :
    ∃ history extra torn,
      contents = recordBytes (history.map Step.command ++ extra) ++ torn ∧
      (Store.new.executeAll history).view (serving.core.now world) =
        serving.core.store.view (serving.core.now world) ∧
      (∀ request value, (request, .result (.ok value)) ∈ serving.dispatcher.answered →
        isMutation request.cmd.name = true → value.isError = false →
        ∃ journaled clock, Step.mk clock (persist request.cmd journaled).command ∈ history ∨
          ∃ earlier arrange, Reaches world .always rewrites (new start) earlier ∧
            Reaches world .always rewrites earlier serving ∧
            Step.mk clock (persist request.cmd journaled).command ∈ earlier.core.applied ∧
            earlier.core.cut world arrange <+: history) ∧
      (∀ command ∈ extra, ∃ batch,
        Submits (serving.logCalls ++ calls) batch ∧ command ∈ batch) ∧
      (torn ≠ [] → Executor.TornRecord torn) ∧
      (serving.core.log.failed = none → calls = [] → extra = [] ∧ torn = []) := by
  have safe : Executor.Safe world base
      (fun core => ∃ earlier : Serving, earlier.core = core ∧
        Reaches world .always rewrites (new start) earlier ∧
        Reaches world .always rewrites earlier serving)
      0 True (Submits (serving.logCalls ++ calls)) serving.core (serving.durable start) := by
    apply reaches.safe repositions faithful
    · exact fun between first second => ⟨between, rfl, first, second⟩
    · rintro commands ⟨disk, batch, membership, same⟩
      exact ⟨disk, batch, List.mem_append_left _ membership, same⟩
  have stays : serving.core.log.policy = .always := by
    rw [← safe.log, durable, DurableLog.run_log, Log.performs_policy]
    exact always
  rw [durable_append] at survives
  obtain ⟨history, extra, torn, same, view, origin, added, isTorn, quiet⟩ :=
    safe.crash repositions stays inFlight
      (fun commands ⟨disk, batch, membership, same⟩ =>
        ⟨disk, batch, List.mem_append_right _ membership, same⟩) survives
  refine ⟨history, extra, torn, same, view, ?_, added, isTorn, quiet⟩
  intro request value answered mutation fine
  obtain ⟨journaled, clock, membership⟩ :=
    (reaches.truthful repositions faithful).answered _ answered value rfl mutation fine
  refine ⟨journaled, clock, ?_⟩
  rcases origin with rfl | ⟨_, arrange, ⟨earlier, rfl, first, second⟩, since⟩
  · exact .inl (List.mem_append_right _ membership)
  · obtain ⟨more, split⟩ := since.initial
    have whole : history = earlier.core.cut world arrange ++ more := by
      rw [since.history_eq, ← split, List.drop_left]
    have place : Step.mk clock (persist request.cmd journaled).command ∈
        earlier.core.applied ++ more := by
      rw [split]
      exact membership
    rcases List.mem_append.mp place with old | isNew
    · refine .inr ⟨earlier, arrange, first, second, old, ?_⟩
      rw [whole]
      exact List.prefix_append _ _
    · rw [whole]
      exact .inl (List.mem_append_right _ isNew)

/-- A step that does not call the executor does not touch the disk. -/
theorem Reaches.quiet {first : Serving} (reaches : Reaches world policy rewrites first serving)
    {label : Label} {next : Dispatcher Executor}
    (step : DispatchStep (Executor.backend world policy rewrites.prepare rewrites.arrange)
      serving.dispatcher label next) (calls : next.calls = serving.dispatcher.calls) :
    Reaches world policy rewrites first ⟨next, serving.logCalls⟩ := by
  have longer := reaches.tail (.dispatch step)
  rw [calls, List.drop_length, List.flatMap_nil, List.append_nil] at longer
  exact longer

/-- A client that is alone is answered. -/
theorem exists_answered (world : World) (rewrites : Rewrites) (start : Executor)
    (command : Command) : ∃ serving result, Reaches world .always rewrites (new start) serving ∧
      (start.commitMutationBatch world [command]).2 = [result] ∧
      serving.core = (start.commitMutationBatch world [command]).1 ∧
      serving.logCalls = start.stepCalls world (.write (.commit [command])) ∧
      serving.dispatcher.answered = [(⟨0, 0, .submitMutation command⟩, .result result)] := by
  obtain ⟨result, single⟩ := List.length_eq_one_iff.mp
    (Executor.commitMutationBatch_length world start [command])
  have empty : ([] : List Request).length < queueCapacity := by decide
  have called : Reaches world .always rewrites (new start) _ :=
    Reaches.quiet .refl
      (show DispatchStep _ _ (.call 0 (.submitMutation command)) _ from .call _ rfl) rfl
  have locked := called.quiet
    (show DispatchStep _ _ (.client 0) _ from .client (.lock rfl rfl)) rfl
  have started := locked.quiet
    (show DispatchStep _ _ (.client 0) _ from .client (.start rfl rfl)) rfl
  have sent := started.quiet
    (show DispatchStep _ _ (.client 0) _ from .client (.send rfl empty)) rfl
  have unlocked := sent.quiet
    (show DispatchStep _ _ (.client 0) _ from .client (.unlock rfl)) rfl
  have taken := unlocked.quiet
    (show DispatchStep _ _ (.loop 0) _ from .loop (.takeQueued rfl rfl)) rfl
  have opened := taken.quiet
    (show DispatchStep _ _ (.loop 0) _ from .loop (.openBatch rfl rfl)) rfl
  have closed := opened.quiet
    (show DispatchStep _ _ (.loop 0) _ from .loop (.closeBatch rfl (.inr (.inl rfl)))) rfl
  have committed := closed.tail (.dispatch
    (show DispatchStep _ _ (.loop 0) _ from .loop (.commit rfl)))
  have answering : some (WriteLoop.mk (.answering ([Request.mk 0 0 (.submitMutation command)].zip
      ((start.commitMutationBatch world [command]).2.map Answer.result)) none) false) =
        some ⟨.answering [(⟨0, 0, .submitMutation command⟩, .result result)] none, false⟩ := by
    rw [single]
    rfl
  have answered := Reaches.quiet committed
    (show DispatchStep _ _ (.loop 0) _ from .loop (.answer answering)) rfl
  exact ⟨_, result, answered, single, rfl, List.append_nil _, rfl⟩

end Serving

end

section

attribute [local instance] GoTables.ascii

/-- A client was told that its key is set, and then the server crashes. -/
theorem Serving.acknowledged_survive_crash_set :
    let world := World.still ⟨0, by decide⟩
    let set : Command := ⟨bytes "SET", [bytes "k", bytes "v"]⟩
    ∃ (serving : Serving) (request : Request) (value : Value),
      request.cmd = set ∧ (request, .result (.ok value)) ∈ serving.dispatcher.answered ∧
      value.isError = false ∧
      ∃ (history : List Step) (extra : List Command) (torn : Bytes),
        set.record = recordBytes (history.map Step.command ++ extra) ++ torn ∧
        (Store.new.executeAll history).view (serving.core.now world) =
          serving.core.store.view (serving.core.now world) := by
  intro world set
  let rewrites : Rewrites := ⟨fun _ => none, fun _ => id, fun _ _ => .refl _⟩
  let start := Executor.new .always 0 false
  obtain ⟨serving, result, reaches, single, -, calls, answered⟩ :=
    Serving.exists_answered world rewrites start set
  have fine : (start.commitMutationBatch world [set]).2.map
      (fun result => (sentValue result).isError) = [false] := by decide +kernel
  rw [single] at fine
  have survives : (start.onDisk.run (serving.logCalls ++ [])).disk.Survives set.record := by
    have written : (start.onDisk.run
        (start.stepCalls world (.write (.commit [set])))).disk.active.current = set.record := by
      decide +kernel
    have certain : (start.onDisk.run
        (start.stepCalls world (.write (.commit [set])))).disk.active.certain = set.record := by
      decide +kernel
    rw [calls, List.append_nil, ← written]
    apply CrashDisk.survives_current
    rw [certain, written]
  obtain ⟨history, extra, torn, same, view, -⟩ :=
    Serving.acknowledged_survive_crash world (fun _ => rfl) rewrites
      (Executor.faithful_new _ .always 0 false) rfl reaches
      (List.nil_prefix : [] <+: serving.core.stepCalls world (.write (.commit []))) survives
  cases result with
  | error error => cases fine
  | ok value =>
      refine ⟨serving, ⟨0, 0, .submitMutation set⟩, value, rfl, ?_, List.head_eq_of_cons_eq fine,
        history, extra, torn, same, view⟩
      rw [answered]
      exact List.mem_cons_self

end

end Carrot
