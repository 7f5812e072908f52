import Carrot.Command.Handlers

/-!
# Executing commands

A command runs at one reading of the clock.  On a store and on the keyspace it
represents it has the same effect and the same reply.
-/

namespace Carrot

variable [GoTables]

def Store.execute (store : Store) (clock : Clock) (command : Command) : Store × Value :=
  (Carrot.execute command).run (Store.perform clock) store

def Keyspace.execute (keyspace : Keyspace) (clock : Clock) (command : Command) :
    Keyspace × Value :=
  (Carrot.execute command).run (Keyspace.perform clock) keyspace

/-- A command and the reading of the clock at which it runs. -/
structure Step where
  clock : Clock
  command : Command
  deriving DecidableEq

/-- Run commands one after the other. -/
def Store.executeAll (store : Store) (steps : List Step) : Store :=
  steps.foldl (fun store step => (store.execute step.clock step.command).1) store

theorem Store.executeAll_append (store : Store) (first second : List Step) :
    store.executeAll (first ++ second) = (store.executeAll first).executeAll second :=
  List.foldl_append

theorem Represents.execute {clock : Clock} {store : Store} {keyspace : Keyspace}
    (represents : Represents clock store keyspace) (command : Command) :
    Represents clock (store.execute clock command).1 (keyspace.execute clock command).1 ∧
      (store.execute clock command).2 = (keyspace.execute clock command).2 :=
  Program.run_simulates (Represents clock)
    (fun _ _ request represents => represents.perform request) (Carrot.execute command) represents

/-- A command changes the view of a store as it changes a keyspace. -/
theorem Store.WellFormed.execute {store : Store} (wellFormed : store.WellFormed) (clock : Clock)
    (command : Command) :
    Represents clock (store.execute clock command).1
      ((store.view clock).execute clock command).1 :=
  ((wellFormed.represents clock).execute command).1

theorem Store.WellFormed.executeAll {store : Store} (wellFormed : store.WellFormed)
    (steps : List Step) : (store.executeAll steps).WellFormed := by
  induction steps generalizing store with
  | nil => exact wellFormed
  | cons step steps inductionHypothesis =>
      exact inductionHypothesis (wellFormed.execute step.clock step.command).wellFormed

/-- After a command, what is alive later is what is alive later in the keyspace. -/
theorem Store.WellFormed.execute_view {store : Store} (wellFormed : store.WellFormed)
    {clock later : Clock} (ordered : clock ≤ later) (command : Command) :
    (store.execute clock command).1.view later =
      ((store.view clock).execute clock command).1.live later :=
  ((wellFormed.execute clock command).later ordered).view

/-- Stores with the same live entries answer a command alike and go on having
the same live entries. -/
theorem Store.WellFormed.execute_congr {first second : Store} (wellFormed : first.WellFormed)
    (otherWellFormed : second.WellFormed) {clock : Clock}
    (same : first.view clock = second.view clock) (command : Command) :
    (first.execute clock command).2 = (second.execute clock command).2 ∧
      ∀ later, clock ≤ later →
        (first.execute clock command).1.view later =
          (second.execute clock command).1.view later := by
  refine ⟨?_, fun later ordered => ?_⟩
  · rw [((wellFormed.represents clock).execute command).2,
      ((otherWellFormed.represents clock).execute command).2, same]
  · rw [wellFormed.execute_view ordered, otherWellFormed.execute_view ordered, same]

end Carrot
