import Carrot.Dispatcher.Dispatcher
import Carrot.Executor.Batch

/-!
# The executor behind the dispatcher
-/

namespace Carrot

namespace Executor

variable [GoTables] (world : World)

/-- The executor as the dispatcher uses it, with a log of some policy.
`prepare` and `arrange` are what the environment decides about a rewrite that
starts at a tick. -/
def backend (policy : SyncPolicy) (prepare : Nat → Option Bytes)
    (arrange : Nat → List Key → List Key) : Backend Executor where
  commit := commitMutationBatch world
  commit_length := commitMutationBatch_length world
  startRewrite executor :=
    executor.startAOFRewriteNow world (prepare executor.tick) (arrange executor.tick)
  delayed := policy = .always

/-- Each call hands a part of its requests to the log, and mutations of some of
them are applied, in the order of the calls. -/
theorem commits_calls (policy : SyncPolicy) (prepare : Nat → Option Bytes)
    (arrange : Nat → List Key → List Key) (executor : Executor) (calls : List BackendCall) :
    ∃ (passed : List (List Request)) (served : List Request),
      List.Forall₂ (fun part call => part.Sublist (BackendCall.requests call)) passed calls ∧
      served.Sublist passed.flatten ∧
      Commits world executor (passed.flatten.map Request.cmd) (served.map Request.cmd)
        (calls.foldl (BackendCall.perform (backend world policy prepare arrange)) executor) := by
  induction calls generalizing executor with
  | nil => exact ⟨[], [], .nil, .slnil, .of_eq rfl rfl⟩
  | cons call calls inductionHypothesis =>
      cases call with
      | commit batch =>
          obtain ⟨commands, inCommands, sublist, inBatch, first⟩ :=
            commits_commitMutationBatch world executor (batch.map Request.cmd)
          obtain ⟨part, partOfBatch, rfl⟩ := List.sublist_map_iff.mp inBatch
          obtain ⟨served, inPart, rfl⟩ := List.sublist_map_iff.mp sublist
          obtain ⟨passed, more, parts, rest, next⟩ := inductionHypothesis _
          refine ⟨part :: passed, served ++ more, .cons partOfBatch parts, inPart.append rest, ?_⟩
          rw [List.flatten_cons, List.map_append, List.map_append]
          exact first.trans next
      | startRewrite request =>
          obtain ⟨passed, served, parts, rest, next⟩ := inductionHypothesis _
          exact ⟨[] :: passed, served, .cons (List.nil_sublist _) parts, rest,
            (commits_startAOFRewriteNow executor _ _).trans next⟩

end Executor

/-- Parts of the requests of calls are part of all their requests. -/
theorem BackendCall.flatten_sublist {passed : List (List Request)} {calls : List BackendCall}
    (parts : List.Forall₂ (fun part call => part.Sublist (requests call)) passed calls) :
    passed.flatten.Sublist (calls.flatMap requests) := by
  induction parts with
  | nil => exact .slnil
  | cons part _ inductionHypothesis => exact part.append inductionHypothesis

end Carrot
