import Carrot.Library.Program

/-!
# Programs among others

A program may share its state with others.  Each of its calls is answered at
once, but the others may change the state between two calls.  A run keeps the
calls that were made with the states in which they were answered.
-/

universe u

namespace Program

variable {Call : Type → Type} {Value Other : Type} {State : Type u}

/-- Go on with what a program returns. -/
def bind : Program Call Value → (Value → Program Call Other) → Program Call Other
  | done value, next => next value
  | call request rest, next => call request fun result => (rest result).bind next

/-- A call, the state in which it was answered, and the answer. -/
structure Made (Call : Type → Type) (State : Type u) where
  Result : Type
  before : State
  request : Call Result
  result : Result

/-- A run of a program.  Before each call the others may move the state. -/
inductive Runs (handler : Handler Call State) (others : State → State → Prop) :
    Program Call Value → State → List (Made Call State) → Value → State → Prop where
  | done (value : Value) (state : State) :
      Runs @handler others (.done value) state [] value state
  | call {Result : Type} {request : Call Result} {next : Result → Program Call Value}
      {state before after : State} {made : List (Made Call State)} {value : Value}
      (interferes : others state before)
      (rest : Runs @handler others (next (handler before request).2) (handler before request).1
        made value after) :
      Runs @handler others (.call request next) state
        (⟨Result, before, request, (handler before request).2⟩ :: made) value after

variable {handler : Handler Call State} {others : State → State → Prop}

/-- A program comes to its end whatever the others do. -/
theorem exists_runs (moves : ∀ state, ∃ before, others state before)
    (program : Program Call Value) (state : State) :
    ∃ made value after, Runs @handler others program state made value after := by
  induction program generalizing state with
  | done value => exact ⟨[], value, state, .done value state⟩
  | call request rest inductionHypothesis =>
      obtain ⟨before, interferes⟩ := moves state
      obtain ⟨made, value, after, runs⟩ := inductionHypothesis _ (handler before request).1
      exact ⟨_, value, after, .call interferes runs⟩

/-- A run of two programs one after the other. -/
theorem Runs.of_bind {program : Program Call Value} {next : Value → Program Call Other}
    {state after : State} {made : List (Made Call State)} {value : Other}
    (runs : Runs @handler others (program.bind next) state made value after) :
    ∃ first second result middle, made = first ++ second ∧
      Runs @handler others program state first result middle ∧
      Runs @handler others (next result) middle second value after := by
  induction program generalizing state made with
  | done result => exact ⟨[], made, result, state, rfl, .done result state, runs⟩
  | call request rest inductionHypothesis =>
      cases runs with
      | call interferes runs =>
          obtain ⟨first, second, result, middle, rfl, start, goesOn⟩ := inductionHypothesis _ runs
          exact ⟨_ :: first, second, result, middle, rfl, .call interferes start, goesOn⟩

/-- A run makes calls that its program can make. -/
theorem Runs.makes {allowed : ∀ {Result : Type}, Call Result → Prop}
    {program : Program Call Value} (makes : program.Makes @allowed) {state after : State}
    {made : List (Made Call State)} {value : Value}
    (runs : Runs @handler others program state made value after) :
    ∀ call ∈ made, allowed call.request := by
  induction runs with
  | done value state => exact fun _ impossible => (List.not_mem_nil impossible).elim
  | call _ _ inductionHypothesis =>
      intro call membership
      rcases List.mem_cons.mp membership with rfl | later
      · exact makes.1
      · exact inductionHypothesis (makes.2 _) call later

/-- A run gives the answers of the handler. -/
theorem Runs.answered {program : Program Call Value} {state after : State}
    {made : List (Made Call State)} {value : Value}
    (runs : Runs @handler others program state made value after) :
    ∀ call ∈ made, call.result = (handler call.before call.request).2 := by
  induction runs with
  | done value state => exact fun _ impossible => (List.not_mem_nil impossible).elim
  | call _ _ inductionHypothesis =>
      intro call membership
      rcases List.mem_cons.mp membership with rfl | later
      · rfl
      · exact inductionHypothesis call later

/-- Without others there is one run. -/
theorem Runs.alone {program : Program Call Value} {state after : State}
    {made : List (Made Call State)} {value : Value}
    (runs : Runs @handler Eq program state made value after) :
    program.run handler state = (after, value) := by
  induction runs with
  | done value state => rfl
  | call interferes _ inductionHypothesis =>
      subst interferes
      exact inductionHypothesis

theorem run_bind (program : Program Call Value) (next : Value → Program Call Other)
    (state : State) :
    (program.bind next).run handler state =
      (next (program.run handler state).2).run handler (program.run handler state).1 := by
  induction program generalizing state with
  | done value => rfl
  | call request rest inductionHypothesis => exact inductionHypothesis _ _

end Program
