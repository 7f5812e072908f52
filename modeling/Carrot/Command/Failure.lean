import Carrot.Command.Canonical

/-!
# Commands that fail

A command that replies with an error has changed nothing that a client can see:
either it made no call of the store, or its only call was refused, and calls
that are refused change no entry.
-/

namespace Carrot

/-- The result of a call is an error of the store. -/
def StoreCall.Refuses {Result : Type} : StoreCall Result → Result → Prop
  | .getString _, result => ∃ error, result = .error error
  | .listPush _ _ _ _ _, result => ∃ error, result = .error error
  | .listPop _ _ _ _, result => ∃ error, result = .error error
  | .listLen _, result => ∃ error, result = .error error
  | .listRange _ _ _, result => ∃ error, result = .error error
  | .listIndex _ _, result => ∃ error, result = .error error
  | .listSet _ _ _, result => ∃ error, result = .error error
  | .listTrim _ _ _, result => ∃ error, result = .error error
  | .listRem _ _ _, result => ∃ error, result = .error error
  | .listInsert _ _ _ _, result => ∃ error, result = .error error
  | .listPosition _ _ _ _ _, result => ∃ error, result = .error error
  | .listMove _ _ _ _, result => ∃ error, result = .error error
  | _, _ => False

/-! ## Refused calls -/

namespace Keyspace

variable {keyspace : Keyspace} {clock : Clock}

/-- A function on lists that is refused leaves the cell alone if it leaves the
list alone. -/
theorem withList_refuses {Result : Type} {missing : Except StorageError Result}
    {change : List Bytes → List Bytes × Except StorageError Result} {cell : Cell}
    {error : StorageError} (nonempty : ∀ deadline, cell ≠ some ⟨.list [], deadline⟩)
    (kept : ∀ items error, (change items).2 = .error error → (change items).1 = items)
    (refused : (Cell.withList missing change cell).2 = .error error) :
    (Cell.withList missing change cell).1 = cell := by
  rcases cell with _ | ⟨_ | items, deadline⟩
  · rfl
  · rfl
  · have same := kept items error refused
    simp only [Cell.withList, Cell.ofList, same]
    rw [if_neg]
    rintro rfl
    exact nonempty deadline rfl

theorem listMove_refuses {src dst : Key} {fromLeft toLeft : Bool} {error : StorageError}
    (refused : (keyspace.listMove src dst fromLeft toLeft clock).2 = .error error) :
    (keyspace.listMove src dst fromLeft toLeft clock).1 = keyspace := by
  unfold Keyspace.listMove at refused ⊢
  split at refused
  next => rfl
  next => rfl
  next =>
    dsimp only at refused ⊢
    split at refused
    next => cases refused
    next different =>
      rw [if_neg different]
      split at refused
      next => rfl
      next => cases refused
      next => cases refused

theorem listPush_refuses {cell : Cell} {values : List Bytes} {left onlyExisting : Bool}
    {error : StorageError} (nonempty : ∀ deadline, cell ≠ some ⟨.list [], deadline⟩)
    (refused : (cell.listPush values left onlyExisting).2 = .error error) :
    (cell.listPush values left onlyExisting).1 = cell := by
  unfold Cell.listPush at refused ⊢
  cases cell with
  | none =>
      dsimp only at refused
      split at refused <;> cases refused
  | some entry => exact withList_refuses nonempty (fun _ _ failed => by cases failed) refused

theorem onKey_refuses {Result : Type} {key : Key}
    {change : Cell → Cell × Except StorageError Result} {error : StorageError}
    (settled : keyspace.live clock = keyspace)
    (refused : (keyspace.onKey key clock change).2 = .error error)
    (kept : (change (keyspace key)).2 = .error error → (change (keyspace key)).1 = keyspace key) :
    (keyspace.onKey key clock change).1 = keyspace := by
  refine onKey_read settled key (kept ?_)
  change (change (keyspace.live clock key)).2 = _ at refused
  rwa [settled] at refused

/-- A call that is refused changes nothing. -/
theorem perform_refuses (settled : keyspace.live clock = keyspace)
    (nonempty : keyspace.NoEmptyList) {Result : Type} {call : StoreCall Result}
    (refuses : call.Refuses (keyspace.perform clock call).2) :
    (keyspace.perform clock call).1 = keyspace := by
  cases call with
  | getString key => exact onKey_read settled key rfl
  | listLen key => exact onKey_read settled key (withList_read _ _ (nonempty key))
  | listRange key start stop => exact onKey_read settled key (withList_read _ _ (nonempty key))
  | listIndex key position => exact onKey_read settled key (withList_read _ _ (nonempty key))
  | listPosition key value rank count maxLen =>
      refine onKey_read settled key ?_
      simp only [Cell.listPosition]
      split
      next => rfl
      next => exact withList_read _ _ (nonempty key)
  | listPush key values _ left onlyExisting =>
      obtain ⟨error, refused⟩ := refuses
      exact onKey_refuses settled refused (listPush_refuses (nonempty key))
  | listPop key left count _ =>
      obtain ⟨error, refused⟩ := refuses
      exact onKey_refuses settled refused
        (withList_refuses (nonempty key) fun _ _ failed => by cases failed)
  | listSet key position value =>
      obtain ⟨error, refused⟩ := refuses
      refine onKey_refuses settled refused (withList_refuses (nonempty key) ?_)
      intro items _ failed
      split at failed
      next => rfl
      next => cases failed
  | listTrim key start stop =>
      obtain ⟨error, refused⟩ := refuses
      exact onKey_refuses settled refused
        (withList_refuses (nonempty key) fun _ _ failed => by cases failed)
  | listRem key count value =>
      obtain ⟨error, refused⟩ := refuses
      exact onKey_refuses settled refused
        (withList_refuses (nonempty key) fun _ _ failed => by cases failed)
  | listInsert key pivot value before =>
      obtain ⟨error, refused⟩ := refuses
      refine onKey_refuses settled refused (withList_refuses (nonempty key) ?_)
      intro items _ failed
      split at failed <;> cases failed
  | listMove src dst fromLeft toLeft =>
      obtain ⟨error, refused⟩ := refuses
      exact listMove_refuses refused
  | set | setAt | ttl | del | expire | expireAt => exact refuses.elim

end Keyspace

/-! ## Errors in replies -/

theorem orStorageError_isError {Result : Type} {toReply : Result → Value}
    {result : Except StorageError Result} (plain : ∀ value, (toReply value).isError = false)
    (failed : (orStorageError toReply result).isError = true) : ∃ error, result = .error error := by
  cases result with
  | error error => exact ⟨error, rfl⟩
  | ok value =>
      have fine := plain value
      rw [show orStorageError toReply (.ok value) = toReply value from rfl, fine] at failed
      cases failed

theorem optionalBulk_isError (value : Option Bytes) : (optionalBulk value).isError = false := by
  cases value <;> rfl

theorem positionsValue_isError (options : PositionOptions) (positions : List Int) :
    (positionsValue options positions).isError = false := by
  unfold positionsValue
  split
  next => split <;> rfl
  next => rfl

/-- A reply to the result of a call is an error only if the call was refused. -/
theorem Verb.Calls.refuses {verb : Verb} {Result : Type} {call : StoreCall Result}
    {toReply : Result → Value} (calls : verb.Calls call toReply) {result : Result}
    (failed : (toReply result).isError = true) : call.Refuses result := by
  cases calls with
  | getString | listIndex | listMove => exact orStorageError_isError optionalBulk_isError failed
  | listPop _ _ _ _ _ plain => exact orStorageError_isError plain failed
  | listPosition _ _ options =>
      exact orStorageError_isError (positionsValue_isError options) failed
  | listPush | listLen | listRem | listInsert | listRange | listSet | listTrim =>
      exact orStorageError_isError (fun _ => rfl) failed
  | set | setAt | ttl | expire | expireAt => cases failed

theorem deleteKeys_isError (keys : List Bytes) (count : Int) :
    (deleteKeys keys count).Returns fun value => value.isError = false := by
  induction keys generalizing count with
  | nil => exact rfl
  | cons key keys inductionHypothesis => exact fun deleted => inductionHypothesis _

/-- A handler that replies with an error has changed nothing. -/
theorem Handler.Serves.fails {verb : Verb} {handler : Handler} (serves : handler.Serves verb)
    {keyspace : Keyspace} {clock : Clock} (settled : keyspace.live clock = keyspace)
    (nonempty : keyspace.NoEmptyList)
    (failed : (handler.run (Keyspace.perform clock) keyspace).2.isError = true) :
    (handler.run (Keyspace.perform clock) keyspace).1 = keyspace := by
  cases serves with
  | replies value => rfl
  | answers calls => exact Keyspace.perform_refuses settled nonempty (calls.refuses failed)
  | deletes _ keys count =>
      have fine :
          ((deleteKeys keys count).run (Keyspace.perform clock) keyspace).2.isError = false :=
        (deleteKeys_isError keys count).run keyspace
      rw [fine] at failed
      cases failed

/-- A command that replies with an error leaves the view of the store alone. -/
theorem Store.WellFormed.execute_fails [GoTables] {store : Store} (wellFormed : store.WellFormed)
    {clock later : Clock} (ordered : clock ≤ later) {command : Command}
    (failed : (store.execute clock command).2.isError = true) :
    (store.execute clock command).1.view later = store.view later := by
  have settled : (store.view clock).live clock = store.view clock := Keyspace.live_self _ clock
  have unchanged : ((store.view clock).execute clock command).1 = store.view clock := by
    rw [((wellFormed.represents clock).execute command).2] at failed
    unfold Keyspace.execute at failed ⊢
    cases known : command.verb with
    | none =>
        rw [execute_of_unknown known]
        rfl
    | some verb =>
        exact (execute_serves known).fails settled (wellFormed.noEmptyList clock) failed
  rw [wellFormed.execute_view ordered, unchanged, ← Store.view_later _ ordered]

end Carrot
