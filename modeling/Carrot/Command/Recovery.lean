import Carrot.Command.Canonical
import Carrot.Keyspace.Restart

/-!
# Recovery by replay at restart

A restart runs the recorded commands again, all with its own clock.  It brings
back the database that was running exactly if no command came between the
setting of a deadline and its passing in a way that shows.
-/

namespace Carrot

/-! ## One command -/

/-- Whether the first call of a handler clashes.  Mutations make at most one
call, but for `DEL`, whose calls never clash. -/
def Handler.Clashes (restart : Clock) (keyspace : Keyspace) : Handler → Prop
  | .done _ => False
  | .call request _ => request.Clashes restart keyspace

theorem StoreCall.Aligned.absolute {Result : Type} {call : StoreCall Result}
    (aligned : call.Aligned) : call.Absolute := by
  cases call with
  | set | expire => exact aligned
  | _ => trivial

theorem deleteKeys_agrees {clock restart : Clock} (ordered : clock ≤ restart) (keys : List Bytes)
    (count replayed : Int) {keyspace recovered : Keyspace}
    (agree : keyspace.live restart = recovered.live restart) :
    ((deleteKeys keys count).run (Keyspace.perform clock) keyspace).1.live restart =
      ((deleteKeys keys replayed).run (Keyspace.perform restart) recovered).1.live restart := by
  induction keys generalizing count replayed keyspace recovered with
  | nil => exact agree
  | cons key keys inductionHypothesis =>
      exact inductionHypothesis _ _
        ((Keyspace.perform_agrees_iff ordered agree (.del key) trivial).mpr not_false)

theorem Handler.Direct.agrees_iff {handler : Handler} (direct : handler.Direct)
    {keyspace recovered : Keyspace} {clock restart : Clock} (ordered : clock ≤ restart)
    (agree : keyspace.live restart = recovered.live restart) :
    (handler.run (Keyspace.perform clock) keyspace).1.live restart =
        (handler.run (Keyspace.perform restart) recovered).1.live restart ↔
      ¬ handler.Clashes restart (keyspace.live clock) := by
  cases direct with
  | reply value => simpa [Handler.Clashes] using agree
  | answer call toReply aligned =>
      exact Keyspace.perform_agrees_iff ordered agree call aligned.absolute
  | delete keys count =>
      have safe : ¬ Handler.Clashes restart (keyspace.live clock) (deleteKeys keys count) := by
        cases keys <;> exact not_false
      exact iff_of_true (deleteKeys_agrees ordered keys count count agree) safe

section

variable [GoTables]

def Command.Clashes (restart : Clock) (keyspace : Keyspace) (command : Command) : Prop :=
  Handler.Clashes restart keyspace (execute command)

/-! ## Whole histories -/

/-- The store that a restart builds from the recorded commands. -/
def Store.replay (restart : Clock) (steps : List Step) : Store :=
  Store.new.executeAll (steps.map fun step => ⟨restart, step.command⟩)

/-- A restart brings back what would have been alive without it. -/
def Recovers (restart : Clock) (steps : List Step) : Prop :=
  (Store.new.executeAll steps).view restart = (Store.replay restart steps).view restart

theorem Recovers.append_iff {restart : Clock} {steps : List Step} {step : Step}
    (recovers : Recovers restart steps) (bounded : step.clock ≤ restart)
    (canonical : step.command.Canonical) :
    Recovers restart (steps ++ [step]) ↔
      ¬ step.command.Clashes restart ((Store.new.executeAll steps).view step.clock) := by
  have running := Store.new_wellFormed.executeAll steps
  have replayed : (Store.replay restart steps).WellFormed := Store.new_wellFormed.executeAll _
  have agree : ((Store.new.executeAll steps).view step.clock).live restart =
      ((Store.replay restart steps).view restart).live restart := by
    rw [← Store.view_later _ bounded, ← Store.view_later _ (le_refl restart)]
    exact recovers
  have settled : ((Store.new.executeAll steps).view step.clock).live step.clock =
      (Store.new.executeAll steps).view step.clock := by
    rw [← Store.view_later _ (le_refl step.clock)]
  rw [Recovers, Store.replay, List.map_append, Store.executeAll_append, Store.executeAll_append]
  change ((Store.new.executeAll steps).execute step.clock step.command).1.view restart =
    ((Store.replay restart steps).execute restart step.command).1.view restart ↔ _
  rw [running.execute_view bounded, replayed.execute_view (le_refl restart), Command.Clashes]
  conv_rhs => rw [← settled]
  exact canonical.direct.agrees_iff bounded agree

/-- At every point of a history a restart brings back what would have been
alive without it, exactly if no command clashes with the passing of a deadline. -/
theorem recovers_iff_no_clash (steps : List Step) (restart : Clock)
    (bounded : ∀ step ∈ steps, step.clock ≤ restart)
    (canonical : ∀ step ∈ steps, step.command.Canonical) :
    (∀ earlier, earlier <+: steps → Recovers restart earlier) ↔
      ∀ earlier step, earlier ++ [step] <+: steps →
        ¬ step.command.Clashes restart ((Store.new.executeAll earlier).view step.clock) := by
  induction steps using List.reverseRecOn with
  | nil =>
      constructor
      · intro _ earlier step initial
        simp at initial
      · intro _ earlier initial
        rw [List.prefix_nil.mp initial]
        rfl
  | append_singleton steps step inductionHypothesis =>
      have membership : step ∈ steps ++ [step] := by simp
      have smaller := inductionHypothesis
        (fun other inside => bounded other (List.mem_append_left _ inside))
        (fun other inside => canonical other (List.mem_append_left _ inside))
      have last := fun recovers : Recovers restart steps =>
        recovers.append_iff (bounded step membership) (canonical step membership)
      constructor
      · intro recovers
        have before : ∀ earlier, earlier <+: steps → Recovers restart earlier :=
          fun earlier initial => recovers earlier (initial.trans (List.prefix_append _ _))
        intro earlier other initial
        rcases List.prefix_concat_iff.mp initial with same | initial
        · obtain ⟨rfl, rfl⟩ := List.append_singleton_inj.mp same
          exact (last (before earlier (List.prefix_refl earlier))).mp
            (recovers _ (List.prefix_refl _))
        · exact smaller.mp before earlier other initial
      · intro safe
        have before := smaller.mpr fun earlier other initial =>
          safe earlier other (initial.trans (List.prefix_append _ _))
        intro earlier initial
        rcases List.prefix_concat_iff.mp initial with rfl | initial
        · exact (last (before steps (List.prefix_refl steps))).mpr
            (safe steps step (List.prefix_refl _))
        · exact before earlier initial

end

section

attribute [local instance] GoTables.ascii

/-- The history of a single push. -/
theorem recovers_iff_no_clash_rpush :
    let restart : Clock := ⟨200000000, by decide⟩
    let push : Step := ⟨⟨50000000, by decide⟩, ⟨bytes "RPUSH", [bytes "k", bytes "a"]⟩⟩
    (∀ earlier, earlier <+: [push] → Recovers restart earlier) ↔
      ∀ earlier step, earlier ++ [step] <+: [push] →
        ¬ step.command.Clashes restart ((Store.new.executeAll earlier).view step.clock) := by
  refine recovers_iff_no_clash _ _ ?_ ?_
  · decide
  · simp only [List.mem_singleton, forall_eq]
    exact ⟨by decide +kernel, by decide +kernel, by decide +kernel⟩

/-- A key whose deadline was moved past the restart is lost: replay finds the
first deadline in the past, deletes the key and has nothing to extend. -/
theorem replay_loses_extended_key :
    let restart : Clock := ⟨200000000, by decide⟩
    let steps : List Step :=
      [⟨⟨50000000, by decide⟩, ⟨bytes "SET", [bytes "k", bytes "v", bytes "PXAT", bytes "100"]⟩⟩,
        ⟨⟨60000000, by decide⟩, ⟨bytes "PEXPIREAT", [bytes "k", bytes "300"]⟩⟩]
    (∀ step ∈ steps, step.command.Canonical) ∧
      steps.Pairwise (fun first second => first.clock ≤ second.clock) ∧
      (∀ step ∈ steps, step.clock ≤ restart) ∧
      (Store.new.executeAll steps).view restart (bytes "k") =
        some ⟨.string (bytes "v"), Time.unixMilli 300⟩ ∧
      (Store.replay restart steps).view restart (bytes "k") = none := by
  refine ⟨?_, by decide, by decide, by decide +kernel, by decide +kernel⟩
  simp only [List.mem_cons, List.not_mem_nil, or_false, forall_eq_or_imp, forall_eq]
  exact ⟨⟨by decide +kernel, by decide +kernel, by decide +kernel⟩,
    ⟨by decide +kernel, by decide +kernel, by decide +kernel⟩⟩

end

end Carrot
