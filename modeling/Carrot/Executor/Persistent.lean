import Carrot.Executor.Durability
import Carrot.Executor.Failure
import Carrot.Aof.Agreement

/-!
# Replies that promise something

An executor together with the disk of its log.  A mutation that is answered with
anything but an error has been applied, and what was applied survives a crash if
every append is synced.
-/

namespace Carrot

/-! ## What a reply promises -/

section

variable [GoTables]

/-- A mutation that is not answered with an error is among the steps that were
applied, in the form in which it was persisted. -/
def Kept (applied : List Step) (command : Command) (result : Except Bytes Value) : Prop :=
  ∀ value, result = .ok value → isMutation command.name = true → value.isError = false →
    ∃ journaled clock, Step.mk clock (persist command journaled).command ∈ applied

theorem Kept.mono {applied more : List Step} {command : Command} {result : Except Bytes Value}
    (kept : Kept applied command result) (longer : applied ⊆ more) : Kept more command result := by
  intro value same mutation fine
  obtain ⟨journaled, clock, membership⟩ := kept value same mutation fine
  exact ⟨journaled, clock, longer membership⟩

theorem kept_error (applied : List Step) (command : Command) (error : Bytes) :
    Kept applied command (.error error) := by
  intro value same
  cases same

theorem kept_oom (applied : List Step) (command : Command) :
    Kept applied command (.ok (errorValue oomMessage)) := by
  intro value same _ fine
  cases same
  cases fine

/-- The results of a batch promise what the results of its admitted commands do. -/
theorem kept_batchResults {applied : List Step} {batch : List Command}
    {admissions : List (Except Bytes Bool)} {results : List (Except Bytes Value)}
    (sameLength : admissions.length = batch.length)
    (kept : List.Forall₂ (Kept applied) (admitted batch admissions) results) :
    List.Forall₂ (Kept applied) batch (batchResults admissions results) := by
  induction batch generalizing admissions results with
  | nil =>
      rw [List.length_eq_zero_iff.mp sameLength] at kept ⊢
      exact .nil
  | cons command batch inductionHypothesis =>
      cases admissions with
      | nil => cases sameLength
      | cons admission admissions =>
          have tail : admissions.length = batch.length := Nat.succ.inj sameLength
          rcases admission with error | _ | _
          · exact .cons (kept_error applied command error) (inductionHypothesis tail kept)
          · exact .cons (kept_oom applied command) (inductionHypothesis tail kept)
          · cases kept with
            | cons first rest => exact .cons first (inductionHypothesis tail rest)

namespace Executor

variable {world : World}

variable (world) in
theorem applied_applyAll (executor : Executor) (batch : List Persisted) :
    executor.applied <+: (executor.applyAll world batch).1.applied := by
  induction batch generalizing executor with
  | nil => exact List.prefix_refl _
  | cons persisted batch inductionHypothesis =>
      refine List.IsPrefix.trans ?_ (inductionHypothesis (executor.apply world persisted).1)
      simp only [apply, wait]
      split
      next => exact List.prefix_append _ _
      next => exact List.prefix_refl _

/-- A mutation that is not recorded is answered with an error. -/
theorem apply_of_invalid {executor : Executor} {command : Command} {now : Clock}
    (mutation : isMutation command.name = true) (invalid : (persist command now).valid = false) :
    (executor.apply world (persist command now)).2.isError = true := by
  have rejected : canonicalCommand command now = none := by
    unfold persist at invalid
    split at invalid
    next => cases invalid
    next rejected => exact rejected
  obtain ⟨text, failed⟩ := execute_of_rejected mutation rejected
  have same : persist command now = ⟨command, false⟩ := by rw [persist, rejected]
  rw [same]
  simp only [apply, Store.execute, failed]
  rfl

theorem kept_applyAll (executor : Executor) (tick : Nat) (commands : List Command) :
    List.Forall₂ (Kept (executor.applyAll world (persistAll world tick commands)).1.applied)
      commands ((executor.applyAll world (persistAll world tick commands)).2.map .ok) := by
  induction commands generalizing executor tick with
  | nil => exact .nil
  | cons command commands inductionHypothesis =>
      rw [persistAll, applyAll]
      simp only [List.map_cons]
      refine .cons ?_ (inductionHypothesis _ (tick + 1))
      rintro value ⟨⟩ mutation fine
      have later := applied_applyAll world
        (executor.apply world (persist command (world.clock tick))).1
        (persistAll world (tick + 1) commands)
      refine ⟨world.clock tick, executor.now world, later.subset ?_⟩
      by_cases valid : (persist command (world.clock tick)).valid = true
      · simp only [apply, if_pos valid]
        exact List.mem_append_right _ List.mem_cons_self
      · rw [Bool.not_eq_true] at valid
        rw [apply_of_invalid mutation valid] at fine
        cases fine

variable (world) in
theorem kept_commitAdmitted (executor : Executor) (commands : List Command) :
    List.Forall₂ (Kept (executor.commitAdmitted world commands).1.applied) commands
      (executor.commitAdmitted world commands).2 := by
  have errors : ∀ (applied : List Step) (error : Bytes),
      List.Forall₂ (Kept applied) commands (commands.map fun _ => .error error) := by
    intro applied error
    rw [List.forall₂_map_right_iff, List.forall₂_same]
    intro command _
    exact kept_error applied command error
  unfold commitAdmitted
  dsimp only
  split
  next => exact errors _ _
  next persisted appended =>
    obtain ⟨-, all⟩ := commits_appendAdmitted appended
    rw [all persisted rfl]
    split
    next => exact errors _ _
    next => exact kept_applyAll _ _ commands

variable (world) in
/-- A commit answers a mutation without an error only if it has applied it. -/
theorem kept_commitMutationBatch (executor : Executor) (batch : List Command) :
    List.Forall₂ (Kept (executor.commitMutationBatch world batch).1.applied) batch
      (executor.commitMutationBatch world batch).2 :=
  kept_batchResults (admitAll_length world executor batch) (kept_commitAdmitted world _ _)

/-! ## Events and the status of a rewrite -/

theorem Safe.status {base : List Step} {past : Executor → Prop} {bound : Nat}
    {clean : Prop} {submitted : List Command → Prop} {executor : Executor} {durable : DurableLog}
    (safe : Safe world base past bound clean submitted executor durable) (status : RewriteStatus)
    (error : Bytes) :
    Safe world base past bound clean submitted
      { executor with rewriteStatus := status, rewriteError := error } durable := by
  apply Safe.wait ?_ ?_ ?_ safe
  · rfl
  · exact safe.log
  · exact fun held => ⟨_, List.prefix_refl _, held⟩
  · exact safe.rewrite
  · exact Nat.le_refl _
  · rfl
  · rfl

theorem applied_step {executor : Executor} (wellFormed : executor.store.WellFormed)
    (event : Event) : executor.applied <+: (executor.step world event).applied := by
  cases event with
  | write event =>
      obtain ⟨steps, acts⟩ := acts_write wellFormed event
      rw [step, acts.applied]
      exact List.prefix_append _ _
  | startRewrite prepare arrange arranged =>
      have commits : Commits world executor [] [] _ :=
        commits_startAOFRewriteNow executor prepare arrange
      exact commits.applied_prefix
  | finishRewrite disk =>
      rw [step, ← (executor.finishAOFRewrite_frame disk).2.2.1]
  | background action =>
      have journaled : Journaled world executor _ [] _ := journaled_background executor action
      rw [step, journaled.applied]

end Executor

end

/-! ## An executor and its disk -/

/-- What happens to the executor while no command runs: the write loop starts a
rewrite that was queued, the rewrite ends, the log is synced, or one of the
goroutines sets the status of the rewrite. -/
inductive Meanwhile where
  | event (event : Event)
  | status (status : RewriteStatus) (error : Option Bytes)

/-- What the environment decides before each command and about each pass of
active expiry. -/
structure Surroundings where
  meanwhile : Nat → List Meanwhile
  started : Nat → Clock
  rounds : Nat → Nat → Store.ExpireRound

/-- An executor, the calls that were made to its log, and how often the
environment was asked. -/
structure Persisting where
  executor : Executor
  logCalls : List LogCall
  turn : Nat

namespace Persisting

variable [GoTables] (world : World)

def step (state : Persisting) (event : Event) : Persisting :=
  { state with
    executor := state.executor.step world event
    logCalls := state.logCalls ++ state.executor.stepCalls world event }

def happen (state : Persisting) : Meanwhile → Persisting
  | .event event => state.step world event
  | .status status error =>
      { state with executor := state.executor.setRewriteResult status error }

/-- `Execute` of a client that is alone. -/
def execute (surroundings : Surroundings) (state : Persisting) (command : Command) :
    Persisting × Except Bytes Value :=
  let state := (surroundings.meanwhile state.turn).foldl (happen world) state
  let (executor, result) := state.executor.execute world true .alone command
  let calls :=
    if isMutation command.name then state.executor.commitCalls world [command] else []
  (⟨executor, state.logCalls ++ calls, state.turn + 1⟩, result)

omit [GoTables] in
def setStore (state : Persisting) (store : Store) : Persisting :=
  { state with executor := { state.executor with store } }

/-- `journalAndDeleteExpired` as the cycle calls it. -/
def removeExpired (state : Persisting) (store : Store) (candidates : List Key) (_ : Clock) :
    Persisting × Store × Int × Bool :=
  let state := state.setStore store
  let after := state.step world (.write (.expire candidates))
  match (state.executor.journalAndDeleteExpired world candidates).2 with
  | .error _ => (after, after.executor.store, 0, true)
  | .ok deleted => (after, after.executor.store, deleted, false)

/-- `ActiveExpire`. -/
def activeExpire (surroundings : Surroundings) (state : Persisting) : Persisting :=
  let (after, store, _) := Store.activeExpireCycleWith (surroundings.started state.turn)
    (surroundings.rounds state.turn) (removeExpired world) 16 0 state state.executor.store 0
  { after.setStore store with turn := after.turn + 1 }

/-! ## The disk stays safe -/

/-- Whatever was handed to the log is among what was submitted, and the disk holds
a history of the store. -/
def Sound (base : List Step) (start : Executor) (state : Persisting) : Prop :=
  ∀ submitted : List Command → Prop,
    (∀ commands, Submits state.logCalls commands → submitted commands) →
    Executor.Safe world base (fun _ => True) 0 True submitted state.executor
      (start.onDisk.run state.logCalls)

variable {world} {base : List Step} {start : Executor} {before between after : Persisting}

theorem Sound.wellFormed (sound : before.Sound world base start) :
    before.executor.store.WellFormed :=
  (sound (fun _ => True) fun _ _ => trivial).wellFormed

variable (world base start) in
/-- The disk stays safe, and what was applied stays applied. -/
def Leads (before after : Persisting) : Prop :=
  before.Sound world base start →
    after.Sound world base start ∧ before.executor.applied <+: after.executor.applied

theorem Leads.refl (state : Persisting) : Leads world base start state state :=
  fun sound => ⟨sound, List.prefix_refl _⟩

theorem Leads.trans (first : Leads world base start before between)
    (second : Leads world base start between after) : Leads world base start before after := by
  intro sound
  obtain ⟨middle, earlier⟩ := first sound
  obtain ⟨final, later⟩ := second middle
  exact ⟨final, earlier.trans later⟩

theorem leads_event (repositions : world.Repositions) (event : Event)
    (executor : after.executor = before.executor.step world event)
    (calls : after.logCalls = before.logCalls ++ before.executor.stepCalls world event) :
    Leads world base start before after := by
  intro sound
  refine ⟨fun submitted submits => ?_, ?_⟩
  · rw [calls] at submits
    have safe := sound submitted fun commands ⟨disk, batch, membership, same⟩ =>
      submits commands ⟨disk, batch, List.mem_append_left _ membership, same⟩
    rw [executor, calls, DurableLog.run_append]
    apply safe.step repositions trivial
    rintro commands ⟨disk, batch, membership, same⟩
    exact submits commands ⟨disk, batch, List.mem_append_right _ membership, same⟩
  · rw [executor]
    exact Executor.applied_step sound.wellFormed event

theorem leads_status {status : RewriteStatus} {error : Bytes}
    (executor : after.executor =
      { before.executor with rewriteStatus := status, rewriteError := error })
    (calls : after.logCalls = before.logCalls) : Leads world base start before after := by
  intro sound
  refine ⟨fun submitted submits => ?_, ?_⟩
  · rw [calls] at submits
    rw [executor, calls]
    exact (sound submitted submits).status status error
  · rw [executor]

theorem leads_happens (repositions : world.Repositions) (actions : List Meanwhile)
    (state : Persisting) :
    Leads world base start state (actions.foldl (happen world) state) := by
  induction actions generalizing state with
  | nil => exact .refl state
  | cons action actions inductionHypothesis =>
      refine Leads.trans ?_ (inductionHypothesis (state.happen world action))
      cases action with
      | event event => exact leads_event repositions event rfl rfl
      | status status error => exact leads_status rfl rfl

/-- `AOFREWRITE` changes the status at most. -/
theorem aofRewrite_status (executor : Executor) (args : List Bytes) :
    ∃ status error, (executor.aofRewrite true args).1 =
      { executor with rewriteStatus := status, rewriteError := error } := by
  unfold Executor.aofRewrite Executor.enqueueAOFRewrite
  split
  next =>
    by_cases busy : executor.rewriteStatus = .running ∨ executor.rewriteStatus = .queued
    · simp only [if_pos busy, if_true]
      exact ⟨_, _, rfl⟩
    · simp only [if_neg busy, if_true]
      exact ⟨_, _, rfl⟩
  next =>
    split
    next => exact ⟨_, _, rfl⟩
    next => exact ⟨_, _, rfl⟩
  next => exact ⟨_, _, rfl⟩

theorem leads_execute (repositions : world.Repositions) (surroundings : Surroundings)
    (state : Persisting) (command : Command) :
    Leads world base start state (state.execute world surroundings command).1 := by
  refine (leads_happens repositions (surroundings.meanwhile state.turn) state).trans ?_
  unfold execute Executor.execute
  generalize (surroundings.meanwhile state.turn).foldl (happen world) state = ready
  by_cases isRewrite : command.name = aofRewriteName
  · have reads : isMutation command.name = false := by
      rw [isRewrite]
      decide
    simp only [if_pos isRewrite, reads]
    obtain ⟨status, error, same⟩ := aofRewrite_status ready.executor command.args
    exact leads_status same (List.append_nil _)
  · simp only [if_neg isRewrite]
    by_cases mutation : isMutation command.name = true
    · simp only [mutation, and_self, if_true]
      exact leads_event repositions (.write (.commit [command])) rfl rfl
    · rw [Bool.not_eq_true] at mutation
      have free : growsMemory command.name = false := by
        rw [← Bool.not_eq_true] at mutation ⊢
        exact fun grows => mutation (growsMemory_isMutation grows)
      simp only [mutation, Bool.false_eq_true, false_and, if_false,
        Executor.admitWith_of_free world true (.inr free)]
      exact leads_event repositions (.write (.read command mutation)) rfl rfl

variable (world) in
/-- A command that is executed is answered without an error only if it has been
applied or is no mutation. -/
theorem kept_execute (surroundings : Surroundings) (state : Persisting) (command : Command) :
    Kept (state.execute world surroundings command).1.executor.applied command
      (state.execute world surroundings command).2 := by
  intro value same mutation
  revert same
  unfold execute Executor.execute
  generalize (surroundings.meanwhile state.turn).foldl (happen world) state = ready
  have notRewrite : command.name ≠ aofRewriteName := by
    intro isRewrite
    rw [isRewrite] at mutation
    revert mutation
    decide
  simp only [if_neg notRewrite, mutation, and_self, if_true]
  intro same fine
  have kept := Executor.kept_commitMutationBatch world ready.executor [command]
  exact kept.get Nat.zero_lt_one
    (by rw [Executor.commitMutationBatch_length]; exact Nat.zero_lt_one) value same mutation fine

theorem removeExpired_eq (state : Persisting) (candidates : List Key) (clock : Clock) :
    (state.removeExpired world state.executor.store candidates clock).1 =
        state.step world (.write (.expire candidates)) ∧
      (state.removeExpired world state.executor.store candidates clock).2.1 =
        (state.step world (.write (.expire candidates))).executor.store := by
  have same : state.setStore state.executor.store = state := rfl
  unfold removeExpired
  rw [same]
  dsimp only
  split
  next => exact ⟨rfl, rfl⟩
  next => exact ⟨rfl, rfl⟩

variable (world base start) in
/-- What holds between the batches of a pass of active expiry. -/
structure Expiring (first state : Persisting) (store : Store) : Prop where
  store : store = state.executor.store
  sound : state.Sound world base start
  longer : first.executor.applied <+: state.executor.applied

theorem Expiring.removeExpired (repositions : world.Repositions) {first state : Persisting}
    {store : Store} (expiring : Expiring world base start first state store)
    (candidates : List Key) (clock : Clock) :
    Expiring world base start first (state.removeExpired world store candidates clock).1
      (state.removeExpired world store candidates clock).2.1 := by
  have leads : Leads world base start state (state.step world (.write (.expire candidates))) :=
    leads_event repositions _ rfl rfl
  obtain ⟨sound, applied⟩ := leads expiring.sound
  obtain ⟨sameState, sameStore⟩ := removeExpired_eq state candidates clock
  rw [expiring.store, sameState, sameStore]
  exact ⟨rfl, sound, expiring.longer.trans applied⟩

theorem leads_activeExpire (repositions : world.Repositions) (surroundings : Surroundings)
    (state : Persisting) :
    Leads world base start state (state.activeExpire world surroundings) := by
  intro sound
  have expired :
      let outcome := Store.activeExpireCycleWith (surroundings.started state.turn)
        (surroundings.rounds state.turn) (Persisting.removeExpired world) 16 0 state
        state.executor.store 0
      Expiring world base start state outcome.1 outcome.2.1 := by
    apply Store.activeExpireCycleWith_preserves (Expiring world base start state)
    · intro context store expiring
      rw [expiring.store]
      exact expiring.sound.wellFormed
    · exact fun context store keys clock expiring =>
        expiring.removeExpired repositions keys clock
    · exact ⟨rfl, sound, List.prefix_refl _⟩
  unfold activeExpire
  dsimp only at expired ⊢
  rw [expired.store]
  exact ⟨expired.sound, expired.longer⟩

end Persisting

end Carrot
