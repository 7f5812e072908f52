import Mathlib.Data.List.Basic
import Mathlib.Tactic

/-!
# Slices with checked indexing

Reading or writing a slice outside its bounds, making one of negative length
and taking a remainder by zero have no outcome.  Remainders keep the sign of
the dividend.
-/

universe u

namespace Slice

variable {α : Type u}

def load (items : List α) (index : Int) : Option α :=
  if index < 0 then none else items[index.toNat]?

def store (items : List α) (index : Int) (value : α) : Option (List α) :=
  if index < 0 ∨ items.length ≤ index then none else some (items.set index.toNat value)

/-- A slice of the given length, filled with the same value. -/
def make (value : α) (length : Int) : Option (List α) :=
  if length < 0 then none else some (List.replicate length.toNat value)

def remainder (dividend divisor : Int) : Option Int :=
  if divisor = 0 then none else some (dividend.tmod divisor)

@[simp]
theorem load_natCast (items : List α) (index : Nat) : load items index = items[index]? := by
  rw [load, if_neg (by omega), Int.toNat_natCast]

theorem store_natCast {items : List α} {index : Nat} (inside : index < items.length) (value : α) :
    store items index value = some (items.set index value) := by
  rw [store, if_neg (by omega), Int.toNat_natCast]

@[simp]
theorem make_natCast (value : α) (length : Nat) :
    make value length = some (List.replicate length value) := by
  rw [make, if_neg (by omega), Int.toNat_natCast]

theorem remainder_natCast (dividend : Nat) {divisor : Nat} (positive : 0 < divisor) :
    remainder dividend divisor = some ((dividend % divisor : Nat) : Int) := by
  rw [remainder, if_neg (by omega), Int.ofNat_tmod]

/-- A loop has an outcome if each of its steps has one, and it does to the
states represented what the steps do. -/
theorem foldlM_eq_some {State Model Item : Type*} (represent : Model → State)
    (holds : Model → Prop) {step : State → Item → Option State} {total : Model → Item → Model}
    {items : List Item}
    (steps : ∀ model, ∀ item ∈ items, holds model →
      step (represent model) item = some (represent (total model item)) ∧
        holds (total model item))
    {model : Model} (start : holds model) :
    items.foldlM step (represent model) = some (represent (items.foldl total model)) := by
  induction items generalizing model with
  | nil => rfl
  | cons item items inductionHypothesis =>
      obtain ⟨taken, kept⟩ := steps model item List.mem_cons_self start
      rw [List.foldlM_cons, taken]
      exact inductionHypothesis (fun model item membership =>
        steps model item (List.mem_cons_of_mem _ membership)) kept

end Slice
