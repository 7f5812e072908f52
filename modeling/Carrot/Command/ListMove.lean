import Carrot.Command.Canonical
import Carrot.Storage.Operations

/-!
# Moving an element between lists

`LMOVE` and `RPOPLPUSH` either change nothing or move one element: what one
list loses the other one gains.
-/

namespace Carrot

namespace Lists

variable {α : Type}

/-- A list is an element at one end and a rest. -/
def EndsIn (left : Bool) (items : List α) (value : α) (rest : List α) : Prop :=
  items = if left then value :: rest else rest ++ [value]

/-- A list with an element added at one end. -/
def addAt (left : Bool) (value : α) (items : List α) : List α :=
  if left then value :: items else items ++ [value]

/-- Popping one element of a list that has one. -/
theorem exists_endsIn (left : Bool) {items : List α} (nonempty : items ≠ []) :
    ∃ value rest, EndsIn left items value rest ∧ popMany left 1 items = (rest, [value]) := by
  cases left with
  | true =>
      cases items with
      | nil => exact absurd rfl nonempty
      | cons value rest => exact ⟨value, rest, rfl, rfl⟩
  | false =>
      rcases List.eq_nil_or_concat items with rfl | ⟨rest, value, rfl⟩
      · exact absurd rfl nonempty
      · exact ⟨value, rest, by simp [EndsIn], by simp [popMany]⟩

theorem pushAll_singleton (left : Bool) (value : α) (items : List α) :
    pushAll left [value] items = addAt left value items := by
  cases left <;> rfl

theorem addAt_ne_nil (left : Bool) (value : α) (items : List α) : addAt left value items ≠ [] := by
  cases left <;> simp [addAt]

end Lists

/-- What a move means for the live entries and what it returns. -/
structure Keyspace.Moves (before : Keyspace) (src dst : Key) (fromLeft toLeft : Bool)
    (after : Keyspace) (result : Except StorageError (Option Bytes)) : Prop where
  notFound : before src = none → result = .ok none ∧ after = before
  wrongSource : ∀ value deadline, before src = some ⟨.string value, deadline⟩ →
    result = .error .wrongType ∧ after = before
  wrongTarget : ∀ items deadline value later, before src = some ⟨.list items, deadline⟩ →
    before dst = some ⟨.string value, later⟩ → result = .error .wrongType ∧ after = before
  rotates : ∀ items deadline, src = dst → before src = some ⟨.list items, deadline⟩ →
    ∃ value rest, Lists.EndsIn fromLeft items value rest ∧ result = .ok (some value) ∧
      after = Function.update before src (some ⟨.list (Lists.addAt toLeft value rest), deadline⟩)
  moves : ∀ items deadline target later, src ≠ dst → before src = some ⟨.list items, deadline⟩ →
    (before dst = some ⟨.list target, later⟩ ∨ before dst = none ∧ target = [] ∧ later = 0) →
    ∃ value rest, Lists.EndsIn fromLeft items value rest ∧ result = .ok (some value) ∧
      after = Function.update (Function.update before src
          (if rest = [] then none else some ⟨.list rest, deadline⟩)) dst
        (some ⟨.list (Lists.addAt toLeft value target), later⟩)

/-- The specification of a move on a keyspace without empty lists. -/
theorem Keyspace.listMove_moves {keyspace : Keyspace} {clock : Clock}
    (settled : keyspace.live clock = keyspace) (nonempty : keyspace.NoEmptyList) (src dst : Key)
    (fromLeft toLeft : Bool) :
    keyspace.Moves src dst fromLeft toLeft (keyspace.listMove src dst fromLeft toLeft clock).1
      (keyspace.listMove src dst fromLeft toLeft clock).2 := by
  have popped : ∀ {items deadline}, keyspace src = some ⟨.list items, deadline⟩ →
      ∃ value rest, Lists.EndsIn fromLeft items value rest ∧
        Lists.popMany fromLeft 1 items = (rest, [value]) := by
    intro items deadline held
    refine Lists.exists_endsIn fromLeft ?_
    rintro rfl
    exact nonempty src deadline held
  constructor
  case notFound =>
    intro absent
    simp [listMove, settled, absent]
  case wrongSource =>
    intro value deadline held
    simp [listMove, settled, held]
  case wrongTarget =>
    intro items deadline value later held heldDst
    have different : src ≠ dst := by
      rintro rfl
      rw [held] at heldDst
      cases heldDst
    simp [listMove, settled, held, heldDst, different]
  case rotates =>
    rintro items deadline rfl held
    obtain ⟨value, rest, ends, taken⟩ := popped held
    refine ⟨value, rest, ends, ?_⟩
    simp [listMove, settled, held, taken, Lists.pushAll_singleton, Cell.ofList,
      Lists.addAt_ne_nil]
  case moves =>
    rintro items deadline target later different held (heldDst | ⟨absent, rfl, rfl⟩)
    · obtain ⟨value, rest, ends, taken⟩ := popped held
      refine ⟨value, rest, ends, ?_⟩
      simp [listMove, settled, held, heldDst, different, taken, Lists.pushAll_singleton,
        Cell.ofList, Lists.addAt_ne_nil]
    · obtain ⟨value, rest, ends, taken⟩ := popped held
      refine ⟨value, rest, ends, ?_⟩
      simp [listMove, settled, held, absent, different, taken, Cell.ofList, Lists.addAt]

variable [GoTables]

/-- In every store that a history leads to, a move changes nothing or moves one
element, and the commands reply with what it returns. -/
theorem Store.run_listMove (history : List (Operation × Clock)) (clock : Clock) (src dst : Key)
    (fromLeft toLeft : Bool) :
    Keyspace.Moves ((run history).view clock) src dst fromLeft toLeft
        (((run history).listMove src dst fromLeft toLeft clock).1.view clock)
        ((run history).listMove src dst fromLeft toLeft clock).2 ∧
      (∀ wherefrom whereto, parseListDirection wherefrom = some fromLeft →
        parseListDirection whereto = some toLeft →
        (run history).execute clock ⟨Verb.lmove.name, [src, dst, wherefrom, whereto]⟩ =
          (((run history).listMove src dst fromLeft toLeft clock).1,
            orStorageError optionalBulk
              ((run history).listMove src dst fromLeft toLeft clock).2)) ∧
      (run history).execute clock ⟨Verb.rpoplpush.name, [src, dst]⟩ =
        (((run history).listMove src dst false true clock).1,
          orStorageError optionalBulk ((run history).listMove src dst false true clock).2) := by
  have wellFormed : (run history).WellFormed := foldl_wellFormed history new_wellFormed
  refine ⟨?_, ?_, ?_⟩
  · have refines := wellFormed.listMove src dst fromLeft toLeft clock
    rw [refines.view, refines.result]
    exact Keyspace.listMove_moves (Keyspace.live_self _ clock) (wellFormed.noEmptyList clock) src
      dst fromLeft toLeft
  · intro wherefrom whereto parsedFrom parsedTo
    simp only [Store.execute, Carrot.execute, Command.verb, Verb.ofName_name, handleListCommand,
      parsedFrom, parsedTo]
    rfl
  · simp only [Store.execute, Carrot.execute, Command.verb, Verb.ofName_name, handleListCommand]
    rfl

end Carrot
