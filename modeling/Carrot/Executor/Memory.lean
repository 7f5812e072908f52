import Carrot.Executor.Single
import Carrot.Storage.Memory

/-!
# Commands that are not subject to the limit on memory

`admit` lets some commands run without looking at the memory in use.  None of
them raises it.
-/

namespace Carrot

theorem Verb.Calls.shrinks {verb : Verb} {Result : Type} {call : StoreCall Result}
    {toReply : Result → Value} (calls : verb.Calls call toReply)
    (exempt : verb.growsMemory = false) : call.Shrinks := by
  cases calls with
  | set | setAt | listSet | listInsert => cases exempt
  | listPush pushes => rcases pushes with rfl | rfl | rfl | rfl <;> cases exempt
  | listMove moves => rcases moves with rfl | rfl <;> cases exempt
  | _ => trivial

section

variable [GoTables]

theorem shrinks_of_exempt {command : Command} (exempt : growsMemory command.name = false) :
    (execute command).Makes StoreCall.Shrinks := by
  rcases known : command.verb with _ | verb
  · rw [execute_of_unknown known]
    trivial
  · have notGrowing : verb.growsMemory = false := by
      have any : command.verb.any Verb.growsMemory = false := exempt
      rwa [known] at any
    exact (execute_serves known).makes (fun calls => calls.shrinks notGrowing) fun _ _ => trivial

theorem Store.WellFormed.used_execute_le {store : Store} (wellFormed : store.WellFormed)
    (clock : Clock) {command : Command} (exempt : growsMemory command.name = false) :
    (store.execute clock command).1.usedMemory ≤ store.usedMemory := by
  have kept := (shrinks_of_exempt exempt).run_eq
    (fun after : Store => after.WellFormed ∧ after.usedMemory ≤ store.usedMemory)
    (fun after call shrinks holds => ⟨((holds.1.represents clock).perform call).1.wellFormed,
      (holds.1.used_perform_le clock shrinks).trans holds.2⟩) ⟨wellFormed, le_refl _⟩
  exact kept.2

/-- What is journaled for such a command is such a command. -/
theorem growsMemory_persist {command : Command} (exempt : growsMemory command.name = false)
    (now : Clock) : growsMemory (persist command now).command.name = false := by
  unfold persist
  split
  next canonical recorded =>
    unfold canonicalCommand at recorded
    split at recorded
    next =>
      obtain ⟨args, -, rfl⟩ := Option.map_eq_some_iff.mp recorded
      exact exempt
    next =>
      obtain ⟨args, -, rfl⟩ := Option.map_eq_some_iff.mp recorded
      rfl
    next =>
      split at recorded
      next => cases recorded
      next =>
        cases recorded
        exact exempt
    next =>
      split at recorded
      next =>
        cases recorded
        exact exempt
      next => cases recorded
  next => exact exempt

namespace Executor

variable {world : World}

/-- A command that is not subject to the limit leaves no more memory in use than
before, on a store and in the executor, with or without a journal. -/
theorem exempt_never_grows (history : List (Operation × Clock)) {command : Command}
    (exempt : growsMemory command.name = false) :
    (∀ clock, ((Store.run history).execute clock command).1.usedMemory ≤
        (Store.run history).usedMemory) ∧
      ∀ (world : World) (journaled : Bool) (executor : Executor),
        executor.store = Store.run history →
          (executor.execute world journaled .alone command).1.store.usedMemory ≤
            executor.store.usedMemory := by
  have wellFormed : (Store.run history).WellFormed :=
    Store.foldl_wellFormed history Store.new_wellFormed
  refine ⟨fun clock => wellFormed.used_execute_le clock exempt, ?_⟩
  intro world journaled executor reachable
  rw [← reachable] at wellFormed
  have admits : executor.admitWith world journaled command = (executor, .ok true) :=
    admitWith_of_free world journaled (.inr exempt)
  generalize executed : executor.execute world journaled .alone command = outcome
  have single := execute_single world journaled executor command
  rw [executed] at single
  cases single with
  | rewrite _ same => exact (congrArg Store.usedMemory same.store).le
  | failed admission =>
      rw [admits] at admission
      cases admission
  | refused admission =>
      rw [admits] at admission
      cases admission
  | unrecorded admission same =>
      rw [admits] at admission
      cases admission
      exact (congrArg Store.usedMemory same.store).le
  | @executed admitted ready after applied admission same origin store _ =>
      rw [admits] at admission
      cases admission
      have appliedExempt : growsMemory applied.name = false := by
        rcases origin with rfl | ⟨now, rfl⟩
        · exact exempt
        · exact growsMemory_persist exempt now
      rw [store, same.store]
      exact wellFormed.used_execute_le _ appliedExempt

end Executor

end

section

attribute [local instance] GoTables.ascii

/-- A list of one element is popped. -/
theorem Executor.exempt_never_grows_lpop :
    let history : List (Operation × Clock) :=
      [(.call (.listPush [97] [[98]] (by decide) true false), ⟨1, by decide⟩)]
    let command : Command := ⟨bytes "LPOP", [bytes "a"]⟩
    (∀ clock, ((Store.run history).execute clock command).1.usedMemory ≤
        (Store.run history).usedMemory) ∧
      ∀ (world : World) (journaled : Bool) (executor : Executor),
        executor.store = Store.run history →
          (executor.execute world journaled .alone command).1.store.usedMemory ≤
            executor.store.usedMemory :=
  exempt_never_grows _ (by decide)

end

end Carrot
