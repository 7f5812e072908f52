import Mathlib.Tactic

/-!
# Programs over an interface

A program makes calls of an interface one after the other, each chosen from
the results of the earlier ones, and ends with a value.  It can be run on any
implementation of the interface, and two implementations related call by call
are related by every program.
-/

universe u

/-- A computation that makes calls and returns a value. -/
inductive Program (Call : Type → Type) (Value : Type) : Type 1 where
  | done (value : Value)
  | call {Result : Type} (request : Call Result) (next : Result → Program Call Value)

namespace Program

variable {Call : Type → Type} {Value : Type}

/-- How a state answers the calls of an interface. -/
abbrev Handler (Call : Type → Type) (State : Type u) :=
  {Result : Type} → State → Call Result → State × Result

def run {State : Type u} (handler : Handler Call State) :
    Program Call Value → State → State × Value
  | done value, state => (state, value)
  | call request next, state =>
      run handler (next (handler state request).2) (handler state request).1

@[simp]
theorem run_done {State : Type u} (handler : Handler Call State) (value : Value) (state : State) :
    (done value : Program Call Value).run handler state = (state, value) := rfl

@[simp]
theorem run_call {State : Type u} (handler : Handler Call State) {Result : Type}
    (request : Call Result) (next : Result → Program Call Value) (state : State) :
    (call request next).run handler state =
      (next (handler state request).2).run handler (handler state request).1 := rfl

/-- A property that every call keeps is kept by every program. -/
theorem run_preserves {State : Type u} {handler : Handler Call State} (property : State → Prop)
    (preserved : ∀ {Result : Type} (state : State) (request : Call Result),
      property state → property (handler state request).1)
    (program : Program Call Value) {state : State} (holds : property state) :
    property (program.run handler state).1 := by
  induction program generalizing state with
  | done value => exact holds
  | call request next inductionHypothesis =>
      exact inductionHypothesis _ (preserved state request holds)

/-- Two states stay related, and return the same value, when they answer every
call alike. -/
theorem run_simulates {State : Type u} {Abstract : Type u} {handler : Handler Call State}
    {abstract : Handler Call Abstract} (related : State → Abstract → Prop)
    (simulates : ∀ {Result : Type} (state : State) (model : Abstract) (request : Call Result),
      related state model →
        related (handler state request).1 (abstract model request).1 ∧
          (handler state request).2 = (abstract model request).2)
    (program : Program Call Value) {state : State} {model : Abstract}
    (holds : related state model) :
    related (program.run handler state).1 (program.run abstract model).1 ∧
      (program.run handler state).2 = (program.run abstract model).2 := by
  induction program generalizing state model with
  | done value => exact ⟨holds, rfl⟩
  | call request next inductionHypothesis =>
      obtain ⟨stillRelated, sameResult⟩ := simulates state model request holds
      rw [run_call, run_call, sameResult]
      exact inductionHypothesis _ stillRelated

/-- All calls that a program can make satisfy a property. -/
def Makes (allowed : ∀ {Result : Type}, Call Result → Prop) : Program Call Value → Prop
  | done _ => True
  | call request next => allowed request ∧ ∀ result, Makes allowed (next result)

/-- A program that only makes calls without an effect leaves the state alone. -/
theorem Makes.run_eq {State : Type u} {handler : Handler Call State}
    {allowed : ∀ {Result : Type}, Call Result → Prop} (property : State → Prop)
    (unchanged : ∀ {Result : Type} (state : State) (request : Call Result),
      allowed request → property state → property (handler state request).1)
    {program : Program Call Value} (makes : program.Makes @allowed) {state : State}
    (holds : property state) : property (program.run handler state).1 := by
  induction program generalizing state with
  | done value => exact holds
  | call request next inductionHypothesis =>
      exact inductionHypothesis _ (makes.2 _) (unchanged state request makes.1 holds)

/-- All values that a program can return satisfy a property. -/
def Returns (property : Value → Prop) : Program Call Value → Prop
  | done value => property value
  | call _ next => ∀ result, Returns property (next result)

theorem Returns.run {State : Type u} {handler : Handler Call State} {property : Value → Prop}
    {program : Program Call Value} (returns : program.Returns property) (state : State) :
    property (program.run handler state).2 := by
  induction program generalizing state with
  | done value => exact returns
  | call request next inductionHypothesis => exact inductionHypothesis _ (returns _) _

end Program
