import Carrot.Executor.Eviction

/-!
# One command at a time

What `Execute` does with a command that shares its batch with no other: the
command is admitted, its record is appended if there is a journal, and it runs
on the store.
-/

namespace Carrot.Executor

variable [GoTables] {world : World}

/-- The ways in which a command is executed, with the executor and the result
that they leave. -/
inductive Single (world : World) (journaled : Bool) (executor : Executor) (command : Command) :
    Executor × Except Bytes Value → Prop where
  | rewrite {after : Executor} {result : Except Bytes Value}
      (name : command.name = aofRewriteName) (same : SameData executor after) :
      Single world journaled executor command (after, result)
  | failed {after : Executor} {error : Bytes}
      (admission : executor.admitWith world journaled command = (after, .error error)) :
      Single world journaled executor command (after, .error error)
  | refused {after : Executor}
      (admission : executor.admitWith world journaled command = (after, .ok false)) :
      Single world journaled executor command (after, .ok (errorValue oomMessage))
  | unrecorded {admitted after : Executor} {error : Bytes}
      (admission : executor.admitWith world journaled command = (admitted, .ok true))
      (same : SameData admitted after) :
      Single world journaled executor command (after, .error error)
  | executed {admitted ready after : Executor} {applied : Command}
      (admission : executor.admitWith world journaled command = (admitted, .ok true))
      (same : SameData admitted ready)
      (origin : applied = command ∨ ∃ now, applied = (persist command now).command)
      (store : after.store = (ready.store.execute (ready.now world) applied).1)
      (tick : ready.tick < after.tick) :
      Single world journaled executor command
        (after, .ok (ready.store.execute (ready.now world) applied).2)

theorem appendAdmitted_sameData {executor after : Executor} {commands : List Command}
    {outcome : Except Bytes (List Persisted)}
    (appended : executor.appendAdmitted world commands = (after, outcome)) :
    SameData executor after := by
  unfold appendAdmitted at appended
  split at appended
  next => exact appendBatch_sameData appended
  next =>
    cases appended
    exact .refl executor

/-- A batch of one command that is admitted. -/
theorem commitAdmitted_single (executor : Executor) (command : Command) :
    (∃ after error, SameData executor after ∧
        executor.commitAdmitted world [command] = (after, [.error error])) ∨
      ∃ ready, SameData executor ready ∧
        executor.commitAdmitted world [command] =
          ((ready.apply world (persist command (world.clock executor.tick))).1,
            [.ok (ready.apply world (persist command (world.clock executor.tick))).2]) := by
  rcases appended : executor.appendAdmitted world [command] with ⟨after, error | batch⟩
  · refine .inl ⟨after, wrapError "persist command before applying it: " error,
      appendAdmitted_sameData appended, ?_⟩
    simp only [commitAdmitted, appended]
    rfl
  · have whole := (commits_appendAdmitted appended).2 batch rfl
    refine .inr ⟨after, appendAdmitted_sameData appended, ?_⟩
    simp only [commitAdmitted, appended, whole]
    rfl

variable (world) in
/-- A batch of one command. -/
theorem commitMutationBatch_single (executor : Executor) (command : Command) :
    ∃ after result, executor.commitMutationBatch world [command] = (after, [result]) ∧
      Single world true executor command (after, result) := by
  rcases admission : executor.admitCommand world command with ⟨admitted, error | _ | _⟩
  · refine ⟨admitted, .error error, ?_, .failed admission⟩
    simp only [commitMutationBatch, admitAll, admission]
    rfl
  · refine ⟨admitted, _, ?_, .refused admission⟩
    simp only [commitMutationBatch, admitAll, admission]
    rfl
  · have commits : executor.commitMutationBatch world [command] =
        ((admitted.commitAdmitted world [command]).1,
          batchResults [.ok true] (admitted.commitAdmitted world [command]).2) := by
      simp only [commitMutationBatch, admitAll, admission]
      rfl
    rcases admitted.commitAdmitted_single command with
      ⟨after, error, same, outcome⟩ | ⟨ready, same, outcome⟩
    · rw [outcome] at commits
      exact ⟨after, .error error, commits, .unrecorded admission same⟩
    · rw [outcome] at commits
      exact ⟨_, _, commits, .executed admission same (.inr ⟨_, rfl⟩) rfl (Nat.lt_succ_self _)⟩

theorem aofRewrite_sameData (journaled : Bool) (executor : Executor) (args : List Bytes) :
    SameData executor (executor.aofRewrite journaled args).1 := by
  unfold aofRewrite
  dsimp only
  split
  next =>
    split
    next =>
      unfold enqueueAOFRewrite
      split_ifs
      · exact .refl executor
      · exact ⟨Nat.le_refl _, rfl, rfl, rfl⟩
    next => exact .refl executor
  next => split <;> exact .refl executor
  next => exact .refl executor

/-- How a command is executed when no other one shares its batch. -/
theorem execute_single (world : World) (journaled : Bool) (executor : Executor)
    (command : Command) :
    Single world journaled executor command
      (executor.execute world journaled .alone command) := by
  unfold execute
  split
  next isRewrite => exact .rewrite isRewrite (aofRewrite_sameData journaled executor _)
  next =>
    split
    next recorded =>
      obtain ⟨after, result, outcome, single⟩ :=
        executor.commitMutationBatch_single world command
      have commit : executor.commitMutationBatch world (Company.alone.batch command) =
          (after, [result]) := outcome
      have own : ∀ inside, (executor.commitMutationBatch world (Company.alone.batch command)).2.get
          ⟨Company.alone.before.length, inside⟩ = result :=
        fun inside => (List.getElem_eq_iff _).mpr (by rw [commit]; rfl)
      dsimp only
      rw [recorded.2, own, commit]
      exact single
    next =>
      rcases admission : executor.admitWith world journaled command with ⟨admitted, error | _ | _⟩
      · exact .failed admission
      · exact .refused admission
      · exact .executed admission (.refl admitted) (.inl rfl) rfl (Nat.lt_succ_self _)

end Carrot.Executor
