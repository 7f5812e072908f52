import Carrot.Aof.Durable
import Carrot.Executor.WritePath

/-!
# Batches

A commit has one result for each command of its batch.  It journals and applies
what it admits of a batch in the order of the batch.
-/

namespace Carrot

/-- The commands that are admitted keep their order. -/
theorem admitted_sublist (batch : List Command) (admissions : List (Except Bytes Bool)) :
    (admitted batch admissions).Sublist batch := by
  induction batch generalizing admissions with
  | nil => exact .slnil
  | cons command batch inductionHypothesis =>
      cases admissions with
      | nil => exact List.nil_sublist _
      | cons admission admissions =>
          have rest := inductionHypothesis admissions
          rcases admission with error | _ | _
          · exact rest.cons command
          · exact rest.cons command
          · exact rest.cons_cons command

/-- Every command of a batch gets a result. -/
theorem batchResults_length {batch : List Command} {admissions : List (Except Bytes Bool)}
    {results : List (Except Bytes Value)} (sameLength : admissions.length = batch.length)
    (enough : results.length = (admitted batch admissions).length) :
    (batchResults admissions results).length = batch.length := by
  induction batch generalizing admissions results with
  | nil =>
      rw [List.length_eq_zero_iff.mp sameLength]
      rfl
  | cons command batch inductionHypothesis =>
      cases admissions with
      | nil => cases sameLength
      | cons admission admissions =>
          have tail : admissions.length = batch.length := Nat.succ.inj sameLength
          rcases admission with error | _ | _
          · rw [batchResults, List.length_cons, List.length_cons, inductionHypothesis tail enough]
          · rw [batchResults, List.length_cons, List.length_cons, inductionHypothesis tail enough]
          · cases results with
            | nil => cases enough
            | cons result results =>
                rw [batchResults, List.length_cons, List.length_cons,
                  inductionHypothesis tail (Nat.succ.inj enough)]

/-- The result that an admission leads to, given the results of what was admitted. -/
def Decides (results : List (Except Bytes Value)) :
    Except Bytes Bool → Except Bytes Value → Prop
  | .error error, result => result = .error error
  | .ok false, result => result = .ok (errorValue oomMessage)
  | .ok true, result => result ∈ results

theorem batchResults_get {batch : List Command} {admissions : List (Except Bytes Bool)}
    {results : List (Except Bytes Value)} (sameLength : admissions.length = batch.length)
    (enough : results.length = (admitted batch admissions).length) {index : Nat}
    {admission : Except Bytes Bool} (place : admissions[index]? = some admission) :
    ∃ result, (batchResults admissions results)[index]? = some result ∧
      Decides results admission result := by
  induction batch generalizing admissions results index with
  | nil =>
      rw [List.length_eq_zero_iff.mp sameLength] at place
      cases place
  | cons command batch inductionHypothesis =>
      cases admissions with
      | nil => cases sameLength
      | cons head admissions =>
          have tail : admissions.length = batch.length := Nat.succ.inj sameLength
          cases index with
          | zero =>
              obtain rfl : head = admission := Option.some.inj place
              rcases head with error | _ | _
              · exact ⟨_, rfl, rfl⟩
              · exact ⟨_, rfl, rfl⟩
              · cases results with
                | nil => cases enough
                | cons result results => exact ⟨result, rfl, List.mem_cons_self⟩
          | succ index =>
              rcases head with error | _ | _
              · exact inductionHypothesis tail enough place
              · exact inductionHypothesis tail enough place
              · cases results with
                | nil => cases enough
                | cons first results =>
                    obtain ⟨result, found, decided⟩ :=
                      inductionHypothesis tail (Nat.succ.inj enough) place
                    refine ⟨result, found, ?_⟩
                    rcases admission with error | _ | _
                    · exact decided
                    · exact decided
                    · exact List.mem_cons_of_mem _ decided

namespace Executor

variable [GoTables] (world : World)

theorem admitAll_length (executor : Executor) (batch : List Command) :
    (executor.admitAll world batch).2.length = batch.length := by
  induction batch generalizing executor with
  | nil => rfl
  | cons command batch inductionHypothesis =>
      rw [admitAll, List.length_cons, List.length_cons, inductionHypothesis]

theorem applyAll_length (executor : Executor) (batch : List Persisted) :
    (executor.applyAll world batch).2.length = batch.length := by
  induction batch generalizing executor with
  | nil => rfl
  | cons persisted batch inductionHypothesis =>
      rw [applyAll, List.length_cons, List.length_cons, inductionHypothesis]

theorem commitAdmitted_length (executor : Executor) (commands : List Command) :
    (executor.commitAdmitted world commands).2.length = commands.length := by
  unfold commitAdmitted
  split
  next => exact List.length_map _
  next =>
    split
    next => exact List.length_map _
    next sameLength =>
      rw [List.length_map, applyAll_length]
      exact not_not.mp sameLength

theorem commitMutationBatch_length (executor : Executor) (batch : List Command) :
    (executor.commitMutationBatch world batch).2.length = batch.length :=
  batchResults_length (executor.admitAll_length world batch) (commitAdmitted_length world _ _)

end Executor

/-! ## The order of a batch -/

/-- Steps that apply commands in their order, as they were journaled, with
deletions of evicted keys in between. -/
inductive Serves [GoTables] : List Command → List Step → Prop where
  | nil : Serves [] []
  | apply {commands : List Command} {steps : List Step} (command : Command)
      (journaled clock : Clock) :
      Serves commands steps →
      Serves (commands ++ [command]) (steps ++ [⟨clock, (persist command journaled).command⟩])
  | evict {commands : List Command} {steps : List Step} (key : Key) (clock : Clock) :
      Serves commands steps → Serves commands (steps ++ [⟨clock, delCommand key⟩])

theorem Serves.append [GoTables] {first second : List Command} {steps more : List Step}
    (start : Serves first steps) (next : Serves second more) :
    Serves (first ++ second) (steps ++ more) := by
  induction next with
  | nil => simpa using start
  | apply command journaled clock _ inductionHypothesis =>
      rw [← List.append_assoc, ← List.append_assoc]
      exact inductionHypothesis.apply command journaled clock
  | evict key clock _ inductionHypothesis =>
      rw [← List.append_assoc]
      exact inductionHypothesis.evict key clock

/-- Calls of the log that hand it commands in their order, with records of evicted
keys, starts of rewrites and the work of other goroutines in between. -/
inductive Hands [GoTables] (world : World) : List Command → List LogCall → Prop where
  | nil : Hands world [] []
  | append {commands : List Command} {calls : List LogCall} (disk : AppendDisk) (tick : Nat)
      (batch : List Command) :
      Hands world commands calls →
      Hands world (commands ++ batch)
        (calls ++ [.append disk (Executor.persistAll world tick batch)])
  | evict {commands : List Command} {calls : List LogCall} (disk : AppendDisk) (tick : Nat)
      (key : Key) :
      Hands world commands calls →
      Hands world commands
        (calls ++ [.append disk (Executor.persistAll world tick [delCommand key])])
  | startRewrite {commands : List Command} {calls : List LogCall} (prepare : Option Bytes)
      (entries : List SnapshotEntry) :
      Hands world commands calls → Hands world commands (calls ++ [.startRewrite prepare entries])
  | background {commands : List Command} {calls : List LogCall} (action : Background) :
      Hands world commands calls → Hands world commands (calls ++ [.background action])

section

variable [GoTables] {world : World} {first second : List Command} {calls more : List LogCall}

theorem Hands.trans (start : Hands world first calls) (next : Hands world second more) :
    Hands world (first ++ second) (calls ++ more) := by
  induction next with
  | nil => simpa using start
  | append disk tick batch _ inductionHypothesis =>
      rw [← List.append_assoc, ← List.append_assoc]
      exact inductionHypothesis.append disk tick batch
  | evict disk tick key _ inductionHypothesis =>
      rw [← List.append_assoc]
      exact inductionHypothesis.evict disk tick key
  | startRewrite prepare entries _ inductionHypothesis =>
      rw [← List.append_assoc]
      exact inductionHypothesis.startRewrite prepare entries
  | background action _ inductionHypothesis =>
      rw [← List.append_assoc]
      exact inductionHypothesis.background action

theorem Hands.backgrounds (handed : Hands world first calls) (actions : List Background) :
    Hands world first (calls ++ actions.map .background) := by
  induction actions generalizing calls with
  | nil => simpa using handed
  | cons action actions inductionHypothesis =>
      rw [List.map_cons, List.append_cons]
      exact inductionHypothesis (handed.background action)

end

namespace Executor

/-- The other goroutines change the log and nothing else that a commit reads. -/
theorem backgrounds_frame (executor : Executor) (actions : List Background) :
    let after := actions.foldl background executor
    after.log = (actions.map LogCall.background).foldl Log.perform executor.log ∧
      after.tick = executor.tick ∧ after.applied = executor.applied := by
  induction actions generalizing executor with
  | nil => exact ⟨rfl, rfl, rfl⟩
  | cons action actions inductionHypothesis =>
      obtain ⟨log, tick, applied⟩ := inductionHypothesis (executor.background action)
      cases action <;> exact ⟨log, tick, applied⟩

variable [GoTables] {world : World} {executor between after : Executor}

variable (world) in
/-- The calls of the log in an append. -/
def appendCalls (executor : Executor) (commands : List Command) : List LogCall :=
  let waited := executor.wait commands.length
  (world.background waited.tick).map .background ++
    [.append (world.disk waited.tick) (persistAll world executor.tick commands)]

/-- The commands handed to the log are those that are passed, and what was applied
in between serves some commands. -/
def Commits (world : World) (executor : Executor) (passed served : List Command)
    (after : Executor) : Prop :=
  ∃ calls steps, Hands world passed calls ∧
    after.log = calls.foldl Log.perform executor.log ∧
    after.applied = executor.applied ++ steps ∧ Serves served steps

theorem Commits.of_eq (log : after.log = executor.log)
    (applied : after.applied = executor.applied) : Commits world executor [] [] after :=
  ⟨[], [], .nil, log, by rw [applied, List.append_nil], .nil⟩

theorem Commits.trans {passed later first second : List Command}
    (start : Commits world executor passed first between)
    (next : Commits world between later second after) :
    Commits world executor (passed ++ later) (first ++ second) after := by
  obtain ⟨calls, steps, handed, log, applied, serves⟩ := start
  obtain ⟨more, moreSteps, handedMore, logMore, appliedMore, servesMore⟩ := next
  refine ⟨calls ++ more, steps ++ moreSteps, handed.trans handedMore, ?_, ?_,
    serves.append servesMore⟩
  · rw [logMore, log, List.foldl_append]
  · rw [appliedMore, applied, List.append_assoc]

theorem Commits.applied_prefix {passed served : List Command}
    (commits : Commits world executor passed served after) :
    executor.applied <+: after.applied := by
  obtain ⟨_, steps, -, -, applied, -⟩ := commits
  exact ⟨steps, applied.symm⟩

/-- An append hands the commands to the log.  Nothing is applied by it, and it
hands back the commands in order. -/
theorem appendBatch_spec {commands : List Command} {outcome : Except Bytes (List Persisted)}
    (appended : executor.appendBatch world commands = (after, outcome)) :
    after.log = (executor.appendCalls world commands).foldl Log.perform executor.log ∧
      after.applied = executor.applied ∧
      ∀ batch, outcome = .ok batch → batch = persistAll world executor.tick commands := by
  obtain ⟨log, tick, applied⟩ := backgrounds_frame (executor.wait commands.length)
    (world.background (executor.wait commands.length).tick)
  have logged : after.log =
      (executor.appendCalls world commands).foldl Log.perform executor.log := by
    simp only [appendBatch, tick, log] at appended
    rw [appendCalls, List.foldl_append]
    split at appended <;> cases appended <;> rfl
  refine ⟨logged, ?_⟩
  simp only [appendBatch] at appended
  split at appended <;> cases appended
  · refine ⟨applied, fun batch same => ?_⟩
    cases same
  · exact ⟨applied, fun _ same => (Except.ok.inj same).symm⟩

/-- An append as such, before anything is applied. -/
theorem commits_appendBatch {commands : List Command} {outcome : Except Bytes (List Persisted)}
    (appended : executor.appendBatch world commands = (after, outcome)) :
    Commits world executor commands [] after := by
  obtain ⟨log, applied, -⟩ := appendBatch_spec appended
  refine ⟨_, [], ?_, log, by rw [applied, List.append_nil], .nil⟩
  exact (Hands.nil.backgrounds _).append _ _ commands

variable (world) in
theorem commits_applyAll (executor : Executor) (tick : Nat) (commands : List Command) :
    ∃ served, served.Sublist commands ∧
      Commits world executor [] served
        (executor.applyAll world (persistAll world tick commands)).1 := by
  induction commands generalizing executor tick with
  | nil => exact ⟨[], .slnil, .of_eq rfl rfl⟩
  | cons command commands inductionHypothesis =>
      obtain ⟨served, sublist, rest⟩ := inductionHypothesis
        (executor.apply world (persist command (world.clock tick))).1 (tick + 1)
      by_cases valid : (persist command (world.clock tick)).valid = true
      · have first : Commits world executor [] [command]
            (executor.apply world (persist command (world.clock tick))).1 := by
          refine ⟨[], [⟨executor.now world, (persist command (world.clock tick)).command⟩], .nil,
            rfl, ?_, Serves.nil.apply command (world.clock tick) (executor.now world)⟩
          simp only [apply, if_pos valid]
          rfl
        exact ⟨command :: served, sublist.cons_cons command, first.trans rest⟩
      · have first : Commits world executor [] []
            (executor.apply world (persist command (world.clock tick))).1 := by
          refine .of_eq rfl ?_
          simp only [apply, if_neg valid]
          rfl
        exact ⟨served, sublist.cons command, first.trans rest⟩

theorem commits_evict (executor : Executor) (key : Key) :
    Commits world executor [] [] (executor.evict world key).1 := by
  have handed : Hands world [] (executor.appendCalls world [delCommand key]) :=
    (Hands.nil.backgrounds _).evict _ _ key
  unfold evict
  split
  next appended =>
    obtain ⟨log, applied, -⟩ := appendBatch_spec appended
    exact ⟨_, [], handed, log, by rw [applied, List.append_nil], .nil⟩
  next journaled _ appended =>
    obtain ⟨log, applied, -⟩ := appendBatch_spec appended
    refine ⟨_, [⟨journaled.now world, delCommand key⟩], handed, log, ?_, Serves.nil.evict key _⟩
    rw [← applied]
    rfl

theorem commits_admitLoop (executor : Executor) (rounds : Nat) :
    Commits world executor [] [] (admitLoop world true rounds executor).1 := by
  induction rounds generalizing executor with
  | zero => exact .of_eq rfl rfl
  | succ rounds inductionHypothesis =>
      rw [admitLoop]
      split
      next => exact .of_eq rfl rfl
      next =>
        split
        next => exact .of_eq rfl rfl
        next =>
          split
          next => exact .of_eq rfl rfl
          next key _ =>
            have evicted : Commits world executor [] [] (executor.evictWith world true key).1 :=
              commits_evict (executor.wait 1) key
            split
            next failed =>
              rw [failed] at evicted
              exact evicted
            next done =>
              rw [done] at evicted
              exact evicted.trans (inductionHypothesis _)

theorem commits_admitAll (executor : Executor) (batch : List Command) :
    Commits world executor [] [] (executor.admitAll world batch).1 := by
  induction batch generalizing executor with
  | nil => exact .of_eq rfl rfl
  | cons command batch inductionHypothesis =>
      have first : Commits world executor [] [] (executor.admitCommand world command).1 := by
        unfold admitCommand admitWith
        split
        next => exact .of_eq rfl rfl
        next => exact commits_admitLoop executor _
      exact first.trans (inductionHypothesis _)

theorem commits_appendAdmitted {commands : List Command}
    {outcome : Except Bytes (List Persisted)}
    (appended : executor.appendAdmitted world commands = (after, outcome)) :
    Commits world executor commands [] after ∧
      ∀ batch, outcome = .ok batch → batch = persistAll world executor.tick commands := by
  unfold appendAdmitted at appended
  split at appended
  next => exact ⟨commits_appendBatch appended, (appendBatch_spec appended).2.2⟩
  next empty =>
    cases appended
    rw [List.eq_nil_of_length_eq_zero (Nat.eq_zero_of_not_pos empty)]
    exact ⟨.of_eq rfl rfl, fun _ same => (Except.ok.inj same).symm⟩

variable (world) in
theorem commits_commitAdmitted (executor : Executor) (commands : List Command) :
    ∃ served, served.Sublist commands ∧
      Commits world executor commands served (executor.commitAdmitted world commands).1 := by
  unfold commitAdmitted
  dsimp only
  split
  next appended => exact ⟨[], List.nil_sublist _, (commits_appendAdmitted appended).1⟩
  next journaled persisted appended =>
    obtain ⟨passes, all⟩ := commits_appendAdmitted appended
    split
    next => exact ⟨[], List.nil_sublist _, passes⟩
    next =>
      obtain ⟨served, sublist, commits⟩ :=
        commits_applyAll world journaled executor.tick commands
      rw [all persisted rfl]
      refine ⟨served, sublist, ?_⟩
      simpa using passes.trans commits

variable (world) in
/-- A commit hands what it admits of a batch to the log, and applies what was
journaled of it, both in the order of the batch. -/
theorem commits_commitMutationBatch (executor : Executor) (batch : List Command) :
    ∃ passed served, served.Sublist passed ∧ passed.Sublist batch ∧
      Commits world executor passed served (executor.commitMutationBatch world batch).1 := by
  obtain ⟨served, sublist, commits⟩ := commits_commitAdmitted world
    (executor.admitAll world batch).1 (admitted batch (executor.admitAll world batch).2)
  exact ⟨_, served, sublist, admitted_sublist _ _,
    (commits_admitAll executor batch).trans commits⟩

theorem commits_startAOFRewriteNow (executor : Executor) (prepare : Option Bytes)
    (arrange : List Key → List Key) :
    Commits world executor [] [] (executor.startAOFRewriteNow world prepare arrange).1 := by
  unfold startAOFRewriteNow
  dsimp only
  split
  next => exact .of_eq rfl rfl
  next =>
    refine ⟨_, [], Hands.nil.startRewrite prepare
      (executor.store.snapshotEntries (executor.now world) arrange), ?_, ?_, .nil⟩
    · split <;> next started => exact (congrArg Prod.fst started).symm
    · split <;> exact (List.append_nil _).symm

end Executor

end Carrot
