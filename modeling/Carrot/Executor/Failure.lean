import Carrot.Command.Failure
import Carrot.Executor.Single

/-!
# Failures

A command fails if the client is sent an error.  A command that fails leaves the
live entries as they were, apart from the keys that were evicted to make room
for it, and a batch has the effect of those of its commands that do not fail.
-/

namespace Carrot

/-- Evicted keys are gone, and everything else is alive as before. -/
theorem Store.Loses.view {before after : Store} {keys : List Key} (loses : before.Loses keys after)
    (later : Clock) (key : Key) :
    after.view later key = if key ∈ keys then none else before.view later key := by
  change Cell.live ((after.peek key).map Obj.entry) later.now = _
  rw [loses.peek key]
  split
  next => rfl
  next => rfl

namespace Executor

/-- A reading of the clock that is not before any of those made so far. -/
def Past (world : World) (executor : Executor) (later : Clock) : Prop :=
  ∀ tick < executor.tick, world.clock tick ≤ later

theorem Past.mono {world : World} {before after : Executor} {later : Clock}
    (past : after.Past world later) (ordered : before.tick ≤ after.tick) :
    before.Past world later :=
  fun tick earlier => past tick (earlier.trans_le ordered)

theorem past_now (world : World) (executor : Executor) : executor.Past world (executor.now world) :=
  fun _ earlier => world.monotone earlier.le

theorem sameData_wait (executor : Executor) (ticks : Nat) :
    SameData executor (executor.wait ticks) :=
  ⟨Nat.le_add_right _ _, rfl, rfl, rfl⟩

variable [GoTables] {world : World} {journaled : Bool}

/-! ## Making room -/

/-- Rounds of eviction, and in between things that touch no data, such as
appends that fail. -/
inductive Clears (world : World) (journaled : Bool) : Executor → List Key → Executor → Prop where
  | done {before after : Executor} (same : SameData before after) :
      Clears world journaled before [] after
  | evicts {before middle next after : Executor} {keys more : List Key}
      (evicts : Evicts world journaled before keys middle) (same : SameData middle next)
      (rest : Clears world journaled next more after) :
      Clears world journaled before (keys ++ more) after

theorem Clears.trans {before middle after : Executor} {keys more : List Key}
    (start : Clears world journaled before keys middle)
    (next : Clears world journaled middle more after) :
    Clears world journaled before (keys ++ more) after := by
  induction start with
  | done same => exact .evicts (.done journaled _) same next
  | evicts evicts same _ inductionHypothesis =>
      rw [List.append_assoc]
      exact .evicts evicts same (inductionHypothesis next)

theorem Clears.loses {before after : Executor} {keys : List Key}
    (clears : Clears world journaled before keys after) (wellFormed : before.store.WellFormed) :
    before.store.Loses keys after.store := by
  induction clears with
  | done same =>
      rw [same.store]
      exact wellFormed.loses_nil
  | evicts evicts same _ inductionHypothesis =>
      have first := evicts.loses wellFormed
      rw [← same.store] at first
      exact first.trans (inductionHypothesis first.wellFormed)

theorem Admits.clears {executor : Executor} {keys : List Key}
    {outcome : Executor × Except Bytes Bool}
    (admits : Admits world journaled executor keys outcome) :
    Clears world journaled executor keys outcome.1 := by
  rw [← List.append_nil keys]
  cases admits with
  | fits evicts _ => exact .evicts evicts (.refl _) (.done (.refl _))
  | failed _ evicts _ _ append _ =>
      exact .evicts evicts ((sameData_wait _ 1).trans (appendBatch_sameData append))
        (.done (.refl _))

variable (world journaled) in
/-- Admission evicts keys and does nothing else to the data. -/
theorem clears_admitWith {executor : Executor} (wellFormed : executor.store.WellFormed)
    (command : Command) :
    ∃ keys, Clears world journaled executor keys
      (executor.admitWith world journaled command).1 := by
  by_cases free : executor.maxMemory ≤ 0 ∨ growsMemory command.name = false
  · rw [admitWith_of_free world journaled free]
    exact ⟨[], .done (.refl executor)⟩
  · by_cases lru : executor.evictLRU = true
    · obtain ⟨keys, admits⟩ := admits_admitWith world journaled wellFormed free lru
      exact ⟨keys, admits.clears⟩
    · rw [admitWith_of_noEviction world journaled free (Bool.not_eq_true _ ▸ lru)]
      exact ⟨[], .done (.refl executor)⟩

theorem clears_admitAll {executor : Executor} (wellFormed : executor.store.WellFormed)
    (batch : List Command) :
    ∃ keys, Clears world true executor keys (executor.admitAll world batch).1 := by
  induction batch generalizing executor with
  | nil => exact ⟨[], .done (.refl executor)⟩
  | cons command batch inductionHypothesis =>
      obtain ⟨keys, first⟩ := clears_admitWith world true wellFormed command
      obtain ⟨more, rest⟩ := inductionHypothesis (first.loses wellFormed).wellFormed
      exact ⟨keys ++ more, first.trans rest⟩

end Executor

/-! ## Batches with failures -/

/-- The results of commands, and the steps that apply those which do not fail. -/
inductive Succeeds [GoTables] : List Command → List (Except Bytes Value) → List Step → Prop where
  | nil : Succeeds [] [] []
  | failed {commands : List Command} {results : List (Except Bytes Value)} {steps : List Step}
      {result : Except Bytes Value} (command : Command) (fails : (sentValue result).isError = true)
      (rest : Succeeds commands results steps) :
      Succeeds (command :: commands) (result :: results) steps
  | applied {commands : List Command} {results : List (Except Bytes Value)} {steps : List Step}
      {result : Except Bytes Value} (command : Command) (journaled clock : Clock)
      (succeeds : (sentValue result).isError = false) (rest : Succeeds commands results steps) :
      Succeeds (command :: commands) (result :: results)
        (⟨clock, (persist command journaled).command⟩ :: steps)

namespace Succeeds

variable [GoTables]

theorem of_errors (commands : List Command) (error : Bytes) :
    Succeeds commands (commands.map fun _ => .error error) [] := by
  induction commands with
  | nil => exact .nil
  | cons command commands inductionHypothesis => exact .failed command rfl inductionHypothesis

/-- Commands that are not admitted fail. -/
theorem batchResults {batch : List Command} {admissions : List (Except Bytes Bool)}
    {results : List (Except Bytes Value)} {steps : List Step}
    (sameLength : admissions.length = batch.length)
    (succeeds : Succeeds (admitted batch admissions) results steps) :
    Succeeds batch (Carrot.batchResults admissions results) steps := by
  induction batch generalizing admissions results steps with
  | nil =>
      rw [List.length_eq_zero_iff.mp sameLength] at succeeds ⊢
      cases succeeds
      exact .nil
  | cons command batch inductionHypothesis =>
      cases admissions with
      | nil => cases sameLength
      | cons admission admissions =>
          have tail : admissions.length = batch.length := Nat.succ.inj sameLength
          rcases admission with error | _ | _
          · exact .failed command rfl (inductionHypothesis tail succeeds)
          · exact .failed command rfl (inductionHypothesis tail succeeds)
          · cases succeeds with
            | failed _ fails rest => exact .failed command fails (inductionHypothesis tail rest)
            | applied _ journaled clock fine rest =>
                exact .applied command journaled clock fine (inductionHypothesis tail rest)

/-- A command that fails can be left out. -/
theorem leave_out {before after : List Command} {command : Command}
    {results : List (Except Bytes Value)} {result : Except Bytes Value} {steps : List Step}
    (succeeds : Succeeds (before ++ command :: after) results steps)
    (own : results[before.length]? = some result) (fails : (sentValue result).isError = true) :
    ∃ others, Succeeds (before ++ after) others steps := by
  induction before generalizing results steps with
  | nil =>
      cases succeeds with
      | failed _ _ rest => exact ⟨_, rest⟩
      | applied _ _ _ fine _ =>
          cases own
          rw [fine] at fails
          cases fails
  | cons first before inductionHypothesis =>
      cases succeeds with
      | failed _ firstFails rest =>
          obtain ⟨others, left⟩ := inductionHypothesis rest own
          exact ⟨_, .failed first firstFails left⟩
      | applied _ journaled clock fine rest =>
          obtain ⟨others, left⟩ := inductionHypothesis rest own
          exact ⟨_ :: others, .applied first journaled clock fine left⟩

/-- The steps are those of some of the commands, in order. -/
theorem served {commands : List Command} {results : List (Except Bytes Value)}
    {steps : List Step} (succeeds : Succeeds commands results steps) :
    ∃ served : List Command, served.Sublist commands ∧
      List.Forall₂ (fun command step => ∃ now, step.command = (persist command now).command)
        served steps := by
  induction succeeds with
  | nil => exact ⟨[], .slnil, .nil⟩
  | failed command _ _ inductionHypothesis =>
      obtain ⟨served, sublist, steps⟩ := inductionHypothesis
      exact ⟨served, sublist.cons command, steps⟩
  | applied command journaled clock _ _ inductionHypothesis =>
      obtain ⟨served, sublist, steps⟩ := inductionHypothesis
      exact ⟨command :: served, sublist.cons_cons command, .cons ⟨journaled, rfl⟩ steps⟩

end Succeeds

namespace Executor

variable [GoTables] {world : World} {journaled : Bool}

/-- Applying a batch changes the live entries as those of its commands do that
do not fail. -/
theorem applyAll_succeeds {executor : Executor} (wellFormed : executor.store.WellFormed)
    {store : Store} (otherWellFormed : store.WellFormed)
    (same : ∀ later, executor.Past world later → executor.store.view later = store.view later)
    (tick : Nat) (commands : List Command) :
    ∃ steps,
      Succeeds commands
        ((executor.applyAll world (persistAll world tick commands)).2.map .ok) steps ∧
      ∀ later, (executor.applyAll world (persistAll world tick commands)).1.Past world later →
        (executor.applyAll world (persistAll world tick commands)).1.store.view later =
          (store.executeAll steps).view later := by
  induction commands generalizing executor store tick with
  | nil => exact ⟨[], .nil, same⟩
  | cons command commands inductionHypothesis =>
      generalize persisted : persist command (world.clock tick) = first
      have wellFormedNext := (wellFormed.execute (executor.now world) first.command).wellFormed
      have passed : ∀ later, (executor.apply world first).1.Past world later →
          executor.now world ≤ later := fun later past => past _ (Nat.lt_succ_self _)
      by_cases fails : (executor.apply world first).2.isError = true
      · have kept : ∀ later, (executor.apply world first).1.Past world later →
            (executor.apply world first).1.store.view later = store.view later := by
          intro later past
          rw [← same later (past.mono (Nat.le_succ _))]
          exact wellFormed.execute_fails (passed later past) fails
        obtain ⟨steps, succeeds, view⟩ :=
          inductionHypothesis wellFormedNext otherWellFormed kept (tick + 1)
        rw [persistAll, persisted]
        exact ⟨steps, .failed command fails succeeds, view⟩
      · have kept : ∀ later, (executor.apply world first).1.Past world later →
            (executor.apply world first).1.store.view later =
              (store.execute (executor.now world) first.command).1.view later := by
          intro later past
          exact (wellFormed.execute_congr otherWellFormed (same _ (past_now world executor))
            first.command).2 later (passed later past)
        obtain ⟨steps, succeeds, view⟩ := inductionHypothesis wellFormedNext
          (otherWellFormed.execute (executor.now world) first.command).wellFormed kept (tick + 1)
        rw [persistAll, persisted]
        refine ⟨⟨executor.now world, first.command⟩ :: steps, ?_, view⟩
        rw [← persisted]
        refine .applied command (world.clock tick) (executor.now world) ?_ ?_
        · rw [persisted]
          exact Bool.not_eq_true _ ▸ fails
        · rw [persisted]
          exact succeeds

theorem commitAdmitted_succeeds {executor : Executor} (wellFormed : executor.store.WellFormed)
    (commands : List Command) :
    ∃ steps, Succeeds commands (executor.commitAdmitted world commands).2 steps ∧
      ∀ later, (executor.commitAdmitted world commands).1.Past world later →
        (executor.commitAdmitted world commands).1.store.view later =
          (executor.store.executeAll steps).view later := by
  unfold commitAdmitted
  dsimp only
  split
  next appended =>
    refine ⟨[], .of_errors commands _, fun later _ => ?_⟩
    rw [(appendAdmitted_sameData appended).store]
    rfl
  next ready persisted appended =>
    have same := appendAdmitted_sameData appended
    have all : persisted = persistAll world executor.tick commands :=
      (commits_appendAdmitted appended).2 persisted rfl
    subst persisted
    rw [if_neg (not_not.mpr (persistAll_length world executor.tick commands))]
    rw [← same.store] at wellFormed ⊢
    exact applyAll_succeeds wellFormed wellFormed (fun _ _ => rfl) executor.tick commands

variable (world) in
/-- What a commit does to the live entries. -/
theorem commitMutationBatch_succeeds {executor : Executor} (wellFormed : executor.store.WellFormed)
    (batch : List Command) :
    ∃ keys cleared steps, Clears world true executor keys cleared ∧
      Succeeds batch (executor.commitMutationBatch world batch).2 steps ∧
      ∀ later, (executor.commitMutationBatch world batch).1.Past world later →
        (executor.commitMutationBatch world batch).1.store.view later =
          (cleared.store.executeAll steps).view later := by
  obtain ⟨keys, clears⟩ := clears_admitAll wellFormed batch
  obtain ⟨steps, succeeds, view⟩ := commitAdmitted_succeeds (clears.loses wellFormed).wellFormed
    (admitted batch (executor.admitAll world batch).2)
  exact ⟨keys, _, steps, clears, succeeds.batchResults (admitAll_length world executor batch), view⟩

/-- A command that is not a mutation leaves the live entries alone. -/
theorem execute_of_not_mutation (company : Company) {executor : Executor}
    (wellFormed : executor.store.WellFormed) {command : Command}
    (reads : isMutation command.name = false) {later : Clock}
    (past : (executor.execute world journaled company command).1.Past world later) :
    (executor.execute world journaled company command).1.store.view later =
      executor.store.view later := by
  have free : growsMemory command.name = false := by
    rw [← Bool.not_eq_true] at reads ⊢
    exact fun grows => reads (growsMemory_isMutation grows)
  have notBatched : ¬ (isMutation command.name = true ∧ journaled = true) := by
    rw [reads]
    exact fun both => Bool.false_ne_true both.1
  unfold execute at past ⊢
  by_cases isRewrite : command.name = aofRewriteName
  · rw [if_pos isRewrite, (aofRewrite_sameData journaled executor command.args).store]
  · rw [if_neg isRewrite, if_neg notBatched,
      admitWith_of_free world journaled (.inr free)] at past ⊢
    exact wellFormed.execute_reads (past _ (Nat.lt_succ_self _)) (reads_of_not_mutation reads)

/-- A command that fails leaves the live entries alone. -/
theorem execute_of_failure (company : Company) {executor : Executor}
    (wellFormed : executor.store.WellFormed) {command : Command}
    (fails : (sentValue (executor.execute world journaled company command).2).isError = true) :
    ∃ keys cleared served steps, Clears world journaled executor keys cleared ∧
      served.Sublist (company.before ++ company.after) ∧
      List.Forall₂ (fun other step => ∃ now, step.command = (persist other now).command)
        served steps ∧
      ∀ later, (executor.execute world journaled company command).1.Past world later →
        (executor.execute world journaled company command).1.store.view later =
          (cleared.store.executeAll steps).view later := by
  unfold execute at fails ⊢
  by_cases isRewrite : command.name = aofRewriteName
  · simp only [if_pos isRewrite]
    refine ⟨[], _, [], [], .done (aofRewrite_sameData journaled executor command.args),
      List.nil_sublist _, .nil, fun _ _ => rfl⟩
  · simp only [if_neg isRewrite] at fails ⊢
    by_cases batched : isMutation command.name = true ∧ journaled = true
    · obtain ⟨mutation, rfl⟩ := batched
      simp only [mutation, true_and, if_true] at fails ⊢
      obtain ⟨keys, cleared, steps, clears, succeeds, view⟩ :=
        commitMutationBatch_succeeds world wellFormed (company.batch command)
      obtain ⟨others, rest⟩ := succeeds.leave_out (List.getElem?_eq_getElem _) fails
      obtain ⟨served, sublist, serves⟩ := rest.served
      exact ⟨keys, cleared, served, steps, clears, sublist, serves, view⟩
    · simp only [if_neg batched] at fails ⊢
      obtain ⟨keys, clears⟩ := clears_admitWith world journaled wellFormed command
      have loses := clears.loses wellFormed
      refine ⟨keys, _, [], [], clears, List.nil_sublist _, .nil, fun later past => ?_⟩
      rcases admission : executor.admitWith world journaled command with ⟨admitted, error | _ | _⟩
      · rfl
      · rfl
      · simp only [admission] at fails loses past ⊢
        exact loses.wellFormed.execute_fails (past _ (Nat.lt_succ_self _)) fails

/-- Failed commands change nothing.  If a client is sent an error then the live
entries are those from before without the keys that were evicted to make room,
each after its deletion was appended if there is a journal; in a batch, they are
what the other commands of the batch make of them.  A command that is not a
mutation changes nothing, whatever it replies. -/
theorem failure_keeps_view (world : World) (journaled : Bool) (company : Company)
    {executor : Executor} {history : List (Operation × Clock)}
    (reachable : executor.store = Store.run history) (command : Command) :
    ((sentValue (executor.execute world journaled company command).2).isError = true →
      ∃ keys cleared served steps, Clears world journaled executor keys cleared ∧
        (∀ later key, cleared.store.view later key =
          if key ∈ keys then none else executor.store.view later key) ∧
        served.Sublist (company.before ++ company.after) ∧
        List.Forall₂ (fun other step => ∃ now, step.command = (persist other now).command)
          served steps ∧
        (company = .alone → steps = []) ∧
        ∀ later, (executor.execute world journaled company command).1.Past world later →
          (executor.execute world journaled company command).1.store.view later =
            (cleared.store.executeAll steps).view later) ∧
      (isMutation command.name = false →
        ∀ later, (executor.execute world journaled company command).1.Past world later →
          (executor.execute world journaled company command).1.store.view later =
            executor.store.view later) := by
  have wellFormed : executor.store.WellFormed := by
    rw [reachable]
    exact Store.foldl_wellFormed history Store.new_wellFormed
  constructor
  · intro fails
    obtain ⟨keys, cleared, served, steps, clears, sublist, serves, view⟩ :=
      execute_of_failure company wellFormed fails
    refine ⟨keys, cleared, served, steps, clears, (clears.loses wellFormed).view, sublist, serves,
      ?_, view⟩
    rintro rfl
    cases List.sublist_nil.mp sublist
    cases serves
    rfl
  · intro reads later past
    exact execute_of_not_mutation company wellFormed reads past

end Executor

section

attribute [local instance] GoTables.ascii

/-- A key is evicted for a command that has too few arguments. -/
theorem Executor.failure_keeps_view_arity :
    let world := World.still ⟨5, by decide⟩
    let executor : Executor := { Executor.new .always 100 true with
      store := Store.run [(.call (.set [97] [] 0), ⟨1, by decide⟩)] }
    let command : Command := ⟨bytes "SET", [bytes "a"]⟩
    let outcome := executor.execute world true .alone command
    (sentValue outcome.2).isError = true ∧ ∃ keys cleared served steps,
      Clears world true executor keys cleared ∧
        (∀ later key, cleared.store.view later key =
          if key ∈ keys then none else executor.store.view later key) ∧
        served.Sublist (Company.alone.before ++ Company.alone.after) ∧
        List.Forall₂ (fun other step => ∃ now, step.command = (persist other now).command)
          served steps ∧
        (Company.alone = .alone → steps = []) ∧
        ∀ later, outcome.1.Past world later →
          outcome.1.store.view later = (cleared.store.executeAll steps).view later :=
  ⟨by decide +kernel, (failure_keeps_view (World.still ⟨5, by decide⟩) true .alone rfl
    ⟨bytes "SET", [bytes "a"]⟩).1 (by decide +kernel)⟩

/-- Without a journal a key is evicted for a command that has too few arguments,
and no deletion of it is appended. -/
theorem Executor.failure_evicts_without_journal :
    let world := World.still ⟨5, by decide⟩
    let executor : Executor := { Executor.new .always 100 true with
      store := Store.run [(.call (.set [97] [] 0), ⟨1, by decide⟩)] }
    let outcome := executor.execute world false .alone ⟨bytes "SET", [bytes "b"]⟩
    (sentValue outcome.2).isError = true ∧
      (executor.store.view ⟨5, by decide⟩ [97]).isSome = true ∧
      (outcome.1.store.view ⟨5, by decide⟩ [97]).isSome = false ∧
      outcome.1.log.file.sink = [] ∧ outcome.1.log.file.buffered = [] :=
  ⟨by decide +kernel, by decide +kernel, by decide +kernel, by decide +kernel, by decide +kernel⟩

end

end Carrot
