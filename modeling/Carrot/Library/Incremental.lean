import Mathlib.Tactic

/-!
# Reading from input that is still arriving

A reading step runs on the input that has arrived so far.  It is steady if its
outcome is final unless it reports the end of the input: when more input
arrives, a result stays the result and leaves what follows unread, and an error
stays an error.  A step that consumes leaves at most as much as there was.
-/

universe u v w

section

variable {State : Type u} {More : Type v} {Error : Type w} {First Second : Type}

/-- The outcome of a reading step does not change when more input arrives. -/
structure Steady (extend : State → More → State) (ended : Error → Bool)
    (read : State → Except Error (First × State)) : Prop where
  ok : ∀ {state after : State} {value : First} (more : More),
    read state = .ok (value, after) → read (extend state more) = .ok (value, extend after more)
  error : ∀ {state : State} {cause : Error} (more : More),
    read state = .error cause → ended cause = false →
      ∃ later, read (extend state more) = .error later ∧ ended later = false

namespace Steady

variable {extend : State → More → State} {ended : Error → Bool}

/-- Return a value without reading. -/
theorem done (value : First) : Steady extend ended fun state => .ok (value, state) where
  ok more result := by
    cases result
    rfl
  error more failed := by cases failed

/-- Fail for another reason than the end of the input. -/
theorem fail {cause : Error} (final : ended cause = false) :
    Steady extend ended fun _ => (.error cause : Except Error (First × State)) where
  ok more result := by cases result
  error more failed notEnded := by
    cases failed
    exact ⟨cause, rfl, final⟩

/-- Read one thing after another. -/
theorem bind {read : State → Except Error (First × State)}
    {next : First × State → Except Error (Second × State)} (first : Steady extend ended read)
    (second : ∀ value, Steady extend ended fun state => next (value, state)) :
    Steady extend ended fun state => read state >>= next where
  ok {state after value} more result := by
    cases outcome : read state with
    | error cause =>
        rw [outcome] at result
        cases result
    | ok pair =>
        obtain ⟨found, between⟩ := pair
        rw [outcome] at result
        rw [first.ok more outcome]
        exact (second found).ok more result
  error {state cause} more failed notEnded := by
    cases outcome : read state with
    | error early =>
        rw [outcome] at failed
        cases failed
        obtain ⟨later, stillFails, final⟩ := first.error more outcome notEnded
        rw [stillFails]
        exact ⟨later, rfl, final⟩
    | ok pair =>
        obtain ⟨found, between⟩ := pair
        rw [outcome] at failed
        rw [first.ok more outcome]
        exact (second found).error more failed notEnded

/-- Choose by something that is known before. -/
theorem ite {condition : Prop} [Decidable condition]
    {read other : State → Except Error (First × State)}
    (holds : condition → Steady extend ended read)
    (fails : ¬ condition → Steady extend ended other) :
    Steady extend ended fun state => if condition then read state else other state := by
  by_cases known : condition
  · simpa only [if_pos known] using holds known
  · simpa only [if_neg known] using fails known

/-- What can still become a result reports the end of the input, if it is not a
result already. -/
theorem ended_of_ok {read : State → Except Error (First × State)}
    (steady : Steady extend ended read) {state : State} {more : More} {result : First × State}
    (complete : read (extend state more) = .ok result) :
    (∃ value after, read state = .ok (value, after) ∧ result = (value, extend after more)) ∨
      ∃ cause, read state = .error cause ∧ ended cause = true := by
  cases outcome : read state with
  | ok pair =>
      obtain ⟨value, after⟩ := pair
      rw [steady.ok more outcome] at complete
      exact .inl ⟨value, after, rfl, (Except.ok.inj complete).symm⟩
  | error cause =>
      refine .inr ⟨cause, rfl, ?_⟩
      by_contra notEnded
      obtain ⟨later, fails, _⟩ := steady.error more outcome (by simpa using notEnded)
      rw [fails] at complete
      cases complete

end Steady

/-- A reading step does not leave more unread than there was. -/
structure Consumes (size : State → Nat) (read : State → Except Error (First × State)) : Prop where
  le : ∀ {state after : State} {value : First}, read state = .ok (value, after) →
    size after ≤ size state

namespace Consumes

variable {size : State → Nat}

theorem done (value : First) :
    Consumes size fun state => (.ok (value, state) : Except Error (First × State)) where
  le result := by
    cases result
    exact le_refl _

theorem fail {cause : Error} :
    Consumes size fun _ => (.error cause : Except Error (First × State)) where
  le result := by cases result

theorem bind {read : State → Except Error (First × State)}
    {next : First × State → Except Error (Second × State)} (first : Consumes size read)
    (second : ∀ value, Consumes size fun state => next (value, state)) :
    Consumes size fun state => read state >>= next where
  le {state after found} result := by
    cases outcome : read state with
    | error cause =>
        rw [outcome] at result
        cases result
    | ok pair =>
        obtain ⟨value, between⟩ := pair
        rw [outcome] at result
        exact le_trans ((second value).le result) (first.le outcome)

theorem ite {condition : Prop} [Decidable condition]
    {read other : State → Except Error (First × State)} (holds : Consumes size read)
    (fails : Consumes size other) :
    Consumes size fun state => if condition then read state else other state := by
  by_cases known : condition
  · simpa only [if_pos known] using holds
  · simpa only [if_neg known] using fails

end Consumes

end
