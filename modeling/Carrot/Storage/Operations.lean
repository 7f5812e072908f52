import Carrot.Storage.Call
import Carrot.Storage.Expiry

/-!
# Histories of a store

The stores that histories of operations lead to, and what holds in all of them.
-/

namespace Carrot

/-- A step in the life of a store: a call of one of its operations, or one of
the passes of active expiry. -/
inductive Operation : Type 1 where
  | call {Result : Type} (request : StoreCall Result)
  | sampleExpired (limit : Int) (draws : Draws)
  | deleteExpired (candidates : List Key)
  | activeExpireCycle (rounds : Nat → Store.ExpireRound)

/-- The store that an operation leaves. -/
def Operation.apply (store : Store) (clock : Clock) : Operation → Store
  | .call request => (store.perform clock request).1
  | .sampleExpired limit draws => (store.sampleExpired limit draws clock).1
  | .deleteExpired candidates => (store.deleteExpired candidates clock).1
  | .activeExpireCycle rounds => (store.activeExpireCycle clock rounds).1

/-- The store after a history of operations, each at its own clock reading. -/
def Store.run (history : List (Operation × Clock)) : Store :=
  history.foldl (fun store call => call.1.apply store call.2) Store.new

theorem Store.WellFormed.apply {store : Store} (wellFormed : store.WellFormed) (clock : Clock)
    (operation : Operation) : (operation.apply store clock).WellFormed := by
  cases operation with
  | call request => exact ((wellFormed.represents clock).perform request).1.wellFormed
  | sampleExpired limit draws =>
      rw [Operation.apply, wellFormed.sampleExpired]
      exact wellFormed
  | deleteExpired candidates => exact (wellFormed.deleteExpired candidates clock).wellFormed
  | activeExpireCycle rounds => exact wellFormed.activeExpireCycle clock rounds

theorem Store.foldl_wellFormed (history : List (Operation × Clock)) {store : Store}
    (wellFormed : store.WellFormed) :
    (history.foldl (fun store call => call.1.apply store call.2) store).WellFormed := by
  induction history generalizing store with
  | nil => exact wellFormed
  | cons call history inductionHypothesis =>
      exact inductionHypothesis (wellFormed.apply call.2 call.1)

/-- Every store that a history leads to is consistent: keys lie in their
shard, both indexes mirror the data, lists are stored well and never empty,
and the memory estimate adds up. -/
theorem Store.run_wellFormed (history : List (Operation × Clock)) :
    (Store.run history).WellFormed :=
  Store.foldl_wellFormed history Store.new_wellFormed

/-! ## Lists are mathematical lists -/

/-- Under a key there is a list with this deadline, or nothing when the list
is empty. -/
def Store.HoldsList (store : Store) (clock : Clock) (key : Key) (items : List Bytes)
    (deadline : Int) : Prop :=
  store.view clock key = if items = [] then none else some ⟨.list items, deadline⟩

/-- An operation returned a value and left a list under its key; no other key
is different, now or at any other time. -/
structure Store.Leaves {Result : Type} (store : Store) (clock : Clock) (key : Key)
    (items : List Bytes) (deadline : Int) (result : Result) (outcome : Store × Result) :
    Prop where
  result : outcome.2 = result
  holds : outcome.1.HoldsList clock key items deadline
  others : ∀ other, other ≠ key → ∀ time, outcome.1.view time other = store.view time other

theorem Store.Performs.leaves {Result : Type} {store : Store} {key : Key} {clock : Clock}
    {missing : Except StorageError Result}
    {change : List Bytes → List Bytes × Except StorageError Result}
    {items expected : List Bytes} {deadline : Int} {returned : Except StorageError Result}
    {outcome : Store × Except StorageError Result}
    (performs : Performs store key clock (Cell.withList missing change) outcome)
    (held : store.HoldsList clock key items deadline)
    (absent : items = [] → expected = [] ∧ missing = returned)
    (present : items ≠ [] → change items = (expected, returned)) :
    store.Leaves clock key expected deadline returned outcome := by
  obtain ⟨step, result⟩ := performs
  have others : ∀ other, other ≠ key → ∀ time,
      outcome.1.view time other = store.view time other :=
    fun other different time => view_congr time (step.frame other different)
  by_cases empty : items = []
  · obtain ⟨rfl, rfl⟩ := absent empty
    rw [HoldsList, if_pos empty] at held
    rw [held] at step result
    exact ⟨result, step.view, others⟩
  · have changed := present empty
    rw [HoldsList, if_neg empty] at held
    rw [held, Cell.withList, changed] at step result
    exact ⟨result, step.view, others⟩

/-- The single-key list operations on a key that holds `items`: each returns
the value of a function on mathematical lists and leaves its result. -/
structure Store.ActsOnList (store : Store) (clock : Clock) (key : Key) (items : List Bytes)
    (deadline : Int) : Prop where
  listPush : ∀ values left, values ≠ [] →
    let pushed := if left then values.reverse ++ items else items ++ values
    store.Leaves clock key pushed deadline (.ok (pushed.length : Int))
        (store.listPush key values left false clock) ∧
      store.Leaves clock key (if items = [] then [] else pushed) deadline
        (.ok (if items = [] then 0 else (pushed.length : Int)))
        (store.listPush key values left true clock)
  listPop : ∀ count : Int, 0 ≤ count →
    let taken := min count.toNat items.length
    store.Leaves clock key (items.drop taken) deadline (.ok (items.take taken))
        (store.listPop key true count clock) ∧
      store.Leaves clock key (items.take (items.length - taken)) deadline
        (.ok (items.reverse.take taken)) (store.listPop key false count clock)
  listSet : ∀ position value,
    store.Leaves clock key
      (match Lists.locate items position with
        | none => items
        | some index => items.set index value) deadline
      (if items = [] then .error .noSuchKey
        else if (Lists.locate items position).isSome then .ok ()
        else .error .listIndexRange)
      (store.listSet key position value clock)
  listTrim : ∀ start stop,
    store.Leaves clock key (Lists.slice start stop items) deadline (.ok ())
      (store.listTrim key start stop clock)
  listRange : ∀ start stop,
    store.Leaves clock key items deadline (.ok (Lists.slice start stop items))
      (store.listRange key start stop clock)
  listRem : ∀ count value, minInt64 ≤ count →
    store.Leaves clock key (Lists.remove count value items) deadline
      (.ok ((items.length : Int) - (Lists.remove count value items).length))
      (store.listRem key count value clock)
  listInsert : ∀ pivot value before,
    store.Leaves clock key ((Lists.insertNear before pivot value items).getD items) deadline
      (.ok (if items = [] then 0
        else ((Lists.insertNear before pivot value items).map fun inserted =>
          (inserted.length : Int)).getD (-1)))
      (store.listInsert key pivot value before clock)
  listIndex : ∀ position,
    store.Leaves clock key items deadline
      (.ok ((Lists.locate items position).bind fun index => items[index]?))
      (store.listIndex key position clock)
  listLen : store.Leaves clock key items deadline (.ok (items.length : Int))
    (store.listLen key clock)

namespace Store

theorem WellFormed.listPush_leaves {store : Store} (wellFormed : store.WellFormed)
    {clock : Clock} {key : Key} {items : List Bytes} {deadline : Int}
    (held : store.HoldsList clock key items deadline) (persistent : items = [] → deadline = 0)
    {values : List Bytes} (some : values ≠ []) (left onlyExisting : Bool) :
    store.Leaves clock key
      (if items = [] ∧ onlyExisting = true then [] else Lists.pushAll left values items) deadline
      (.ok (if items = [] ∧ onlyExisting = true then 0
        else ((Lists.pushAll left values items).length : Int)))
      (store.listPush key values left onlyExisting clock) := by
  have performs := wellFormed.listPush key some left onlyExisting clock
  by_cases empty : items = []
  · obtain ⟨step, returned⟩ := performs
    have others : ∀ other, other ≠ key → ∀ time,
        (store.listPush key values left onlyExisting clock).1.view time other =
          store.view time other :=
      fun other different time => view_congr time (step.frame other different)
    rw [HoldsList, if_pos empty] at held
    rw [held] at step returned
    cases onlyExisting with
    | true => exact ⟨by simpa [empty, Cell.listPush] using returned,
        by simpa [empty, Cell.listPush, HoldsList] using step.view, others⟩
    | false =>
        refine ⟨?_, ?_, others⟩
        · cases left <;> simpa [empty, Cell.listPush, Lists.pushAll] using returned
        · have created := step.view
          simpa [empty, Cell.listPush, HoldsList, Cell.ofList, persistent empty] using created
  · have opened : Cell.listPush values left onlyExisting (store.view clock key) =
        Cell.withList (.ok 0) (fun items =>
          (Lists.pushAll left values items, .ok ((Lists.pushAll left values items).length : Int)))
          (store.view clock key) := by
      rw [HoldsList, if_neg empty] at held
      rw [held, Cell.listPush]
    rw [Performs, opened] at performs
    exact Performs.leaves performs held (fun none => absurd none empty) (fun _ => by simp [empty])

/-- Saturating the count does not matter to a list whose length is an `int`. -/
theorem remove_saturated {items : List Bytes} (isInt : (items.length : Int) ≤ maxInt64)
    (count : Int) (value : Bytes) :
    Lists.remove (if count = minInt64 then -maxInt64 else count) value items =
      Lists.remove count value items := by
  split
  next least =>
    subst least
    simp only [maxInt64, minInt64] at isInt ⊢
    rw [Lists.remove, if_neg (by decide), if_neg (by decide), Lists.remove, if_neg (by decide),
      if_neg (by decide), Lists.removeLast, Lists.removeLast,
      Lists.removeFirst_eq_filter _ _ _ (by rw [List.length_reverse]; omega),
      Lists.removeFirst_eq_filter _ _ _ (by rw [List.length_reverse]; omega)]
  next => rfl

/-- In every store that a history leads to, the list operations are the
functions on mathematical lists.  Lengths are Go integers. -/
theorem run_actsOnList (history : List (Operation × Clock)) (clock : Clock) (key : Key)
    (items : List Bytes) (deadline : Int)
    (held : (run history).HoldsList clock key items deadline)
    (persistent : items = [] → deadline = 0) (isInt : (items.length : Int) ≤ maxInt64) :
    (run history).ActsOnList clock key items deadline := by
  have wellFormed := foldl_wellFormed history new_wellFormed
  change (run history).WellFormed at wellFormed
  constructor
  case listPush =>
    intro values left some
    have both := wellFormed.listPush_leaves held persistent some left
    exact ⟨by simpa [Lists.pushAll] using both false, by simpa [Lists.pushAll] using both true⟩
  case listPop =>
    intro count nonnegative
    refine ⟨?_, ?_⟩
    · exact (wellFormed.listPop key true nonnegative clock).leaves held (by rintro rfl; simp)
        (fun _ => by simp [Lists.popMany])
    · exact (wellFormed.listPop key false nonnegative clock).leaves held (by rintro rfl; simp)
        (fun _ => by simp [Lists.popMany, List.rdrop])
  case listSet =>
    intro position value
    apply (wellFormed.listSet key position value clock).leaves held
    · rintro rfl
      cases Lists.locate ([] : List Bytes) position <;> simp
    · intro nonempty
      cases Lists.locate items position <;> simp [nonempty]
  case listTrim =>
    intro start stop
    exact (wellFormed.listTrim key start stop clock).leaves held
      (by rintro rfl; simp [Lists.slice]) (fun _ => rfl)
  case listRange =>
    intro start stop
    exact (wellFormed.listRange key start stop clock).leaves held
      (by rintro rfl; simp [Lists.slice]) (fun _ => rfl)
  case listRem =>
    intro count value _
    apply (wellFormed.listRem key count value clock).leaves held
    · rintro rfl
      simp [Lists.remove]
    · intro _
      rw [remove_saturated isInt]
  case listInsert =>
    intro pivot value before
    apply (wellFormed.listInsert key pivot value before clock).leaves held
    · rintro rfl
      simp [Lists.insertNear]
    · intro nonempty
      cases Lists.insertNear before pivot value items <;> simp [nonempty]
  case listIndex =>
    intro position
    exact (wellFormed.listIndex key position clock).leaves held
      (by rintro rfl; simp) (fun _ => rfl)
  case listLen =>
    exact (wellFormed.listLen key clock).leaves held (by rintro rfl; simp) (fun _ => rfl)

/-- After `RPUSH a x y`, the key `a` holds the list `[x, y]`. -/
theorem run_actsOnList_rpush :
    (run [(.call (.listPush [97] [[120], [121]] (by decide) false false),
      ⟨0, by decide⟩)]).ActsOnList
      ⟨0, by decide⟩ [97] [[120], [121]] 0 :=
  run_actsOnList _ _ _ _ _ (by unfold HoldsList; decide +kernel) (fun _ => rfl) (by decide)

end Store

end Carrot
