import Carrot.Storage.Call

/-!
# Deadlines in whole milliseconds, and calls that only read

Canonical mutations set deadlines in whole milliseconds, so that a deadline
can be written as a number of milliseconds and read back unchanged.
-/

namespace Carrot

/-- An instant that `time.UnixMilli` can return. -/
def OnMillisecond (instant : Int) : Prop :=
  ∃ milliseconds, -2 ^ 63 ≤ milliseconds ∧ milliseconds < 2 ^ 63 ∧
    instant = Time.unixMilli milliseconds

/-- The call sets no deadline but a whole number of milliseconds. -/
def StoreCall.Aligned {Result : Type} : StoreCall Result → Prop
  | .set _ _ duration => duration ≤ 0
  | .setAt _ _ expiresAt => OnMillisecond expiresAt
  | .expire _ _ => False
  | .expireAt _ expiresAt => OnMillisecond expiresAt
  | _ => True

/-- The call changes no entry. -/
def StoreCall.Reads {Result : Type} : StoreCall Result → Prop
  | .getString _ | .ttl _ | .listLen _ | .listRange _ _ _ | .listIndex _ _
  | .listPosition _ _ _ _ _ => True
  | _ => False

/-- No deadline, or one in whole milliseconds. -/
def Deadline.Aligned (deadline : Int) : Prop := deadline = 0 ∨ OnMillisecond deadline

namespace Cell

def Aligned (cell : Cell) : Prop := ∀ entry ∈ cell, Deadline.Aligned entry.deadline

theorem aligned_none : Aligned none := by
  intro entry present
  cases present

theorem aligned_some {entry : Entry} (aligned : Deadline.Aligned entry.deadline) :
    Aligned (some entry) := by
  rintro _ ⟨⟩
  exact aligned

theorem Aligned.live {cell : Cell} (aligned : cell.Aligned) (now : Int) :
    (cell.live now).Aligned :=
  fun entry present => aligned entry (live_eq_some.mp present).1

theorem aligned_ofList (items : List Bytes) {deadline : Int} (aligned : Deadline.Aligned deadline) :
    (ofList items deadline).Aligned := by
  unfold ofList
  split
  · exact aligned_none
  · exact aligned_some aligned

theorem Aligned.withList {Result : Type} {cell : Cell} (aligned : cell.Aligned)
    (missing : Except StorageError Result)
    (change : List Bytes → List Bytes × Except StorageError Result) :
    (Cell.withList missing change cell).1.Aligned := by
  rcases cell with _ | ⟨_ | items, deadline⟩
  · exact aligned_none
  · exact aligned
  · exact aligned_ofList _ (aligned _ rfl)

theorem Aligned.listPush {cell : Cell} (aligned : cell.Aligned) (values : List Bytes)
    (left onlyExisting : Bool) : (Cell.listPush values left onlyExisting cell).1.Aligned := by
  cases cell with
  | none =>
      simp only [Cell.listPush]
      split
      · exact aligned_none
      · exact aligned_ofList _ (.inl rfl)
  | some entry => exact aligned.withList _ _

theorem Aligned.expireAt {cell : Cell} {deadline : Int} (aligned : OnMillisecond deadline)
    (now : Int) : (Cell.expireAt deadline now cell).1.Aligned := by
  cases cell with
  | none => exact aligned_none
  | some entry =>
      simp only [Cell.expireAt]
      split
      · exact aligned_some (.inr aligned)
      · exact aligned_none

end Cell

namespace Keyspace

def Aligned (keyspace : Keyspace) : Prop := ∀ key, (keyspace key).Aligned

variable {keyspace : Keyspace}

theorem Aligned.live (aligned : keyspace.Aligned) (clock : Clock) : (keyspace.live clock).Aligned :=
  fun key => (aligned key).live clock.now

theorem Aligned.update (aligned : keyspace.Aligned) (key : Key) {cell : Cell}
    (cellAligned : cell.Aligned) : Aligned (Function.update keyspace key cell) := by
  intro other
  by_cases same : other = key
  · subst other
    simpa using cellAligned
  · simpa [same] using aligned other

theorem Aligned.onKey {Result : Type} (aligned : keyspace.Aligned) (key : Key) (clock : Clock)
    {change : Cell → Cell × Result}
    (preserved : ∀ cell : Cell, cell.Aligned → (change cell).1.Aligned) :
    (keyspace.onKey key clock change).1.Aligned :=
  aligned.update key (preserved _ (aligned.live clock key))

theorem Aligned.listMove (aligned : keyspace.Aligned) (src dst : Key) (fromLeft toLeft : Bool)
    (clock : Clock) : (keyspace.listMove src dst fromLeft toLeft clock).1.Aligned := by
  have source := aligned.live clock src
  have target := aligned.live clock dst
  unfold Keyspace.listMove
  split
  next => exact aligned
  next => exact aligned
  next items deadline stored =>
    have kept : Deadline.Aligned deadline := source _ stored
    dsimp only
    split
    next => exact aligned.update src (Cell.aligned_ofList _ kept)
    next =>
      split
      next => exact aligned
      next =>
        exact (aligned.update src (Cell.aligned_ofList _ kept)).update dst
          (Cell.aligned_ofList _ (.inl rfl))
      next others later found =>
        exact (aligned.update src (Cell.aligned_ofList _ kept)).update dst
          (Cell.aligned_ofList _ (target _ found))

/-- Calls that set whole milliseconds keep all deadlines in whole milliseconds. -/
theorem Aligned.perform (aligned : keyspace.Aligned) (clock : Clock) {Result : Type}
    {call : StoreCall Result} (callAligned : call.Aligned) :
    (keyspace.perform clock call).1.Aligned := by
  cases call with
  | set key value duration =>
      refine aligned.onKey key clock fun _ _ => Cell.aligned_some ?_
      exact .inl (if_neg (Int.not_lt.mpr callAligned))
  | setAt key value expiresAt =>
      refine aligned.onKey key clock fun _ _ => ?_
      simp only [Cell.setAt]
      split
      · exact Cell.aligned_some (.inr callAligned)
      · exact Cell.aligned_none
  | getString key | ttl key => exact aligned.onKey key clock fun _ aligned => aligned
  | del key => exact aligned.onKey key clock fun _ _ => Cell.aligned_none
  | expire key seconds => exact callAligned.elim
  | expireAt key expiresAt =>
      exact aligned.onKey key clock fun _ _ => .expireAt callAligned clock.now
  | listPush key values nonempty left onlyExisting =>
      exact aligned.onKey key clock fun _ aligned => aligned.listPush values left onlyExisting
  | listMove src dst fromLeft toLeft => exact aligned.listMove src dst fromLeft toLeft clock
  | listPosition key value rank count maxLen =>
      refine aligned.onKey key clock fun _ aligned => ?_
      simp only [Cell.listPosition]
      split
      · exact aligned
      · exact aligned.withList _ _
  | listPop | listLen | listRange | listIndex | listSet | listTrim | listRem | listInsert =>
      exact aligned.onKey _ clock fun _ aligned => aligned.withList _ _

/-! ## Reading -/

/-- No key holds an empty list. -/
def NoEmptyList (keyspace : Keyspace) : Prop :=
  ∀ key deadline, keyspace key ≠ some ⟨.list [], deadline⟩

/-- A read leaves a cell without an empty list alone. -/
theorem withList_read {Result : Type} (missing : Except StorageError Result)
    (result : List Bytes → Except StorageError Result) {cell : Cell}
    (nonempty : ∀ deadline, cell ≠ some ⟨.list [], deadline⟩) :
    (Cell.withList missing (fun items => (items, result items)) cell).1 = cell := by
  rcases cell with _ | ⟨_ | items, deadline⟩
  · rfl
  · rfl
  · simp only [Cell.withList, Cell.ofList]
    rw [if_neg]
    rintro rfl
    exact nonempty deadline rfl

theorem onKey_read {Result : Type} {clock : Clock} (settled : keyspace.live clock = keyspace)
    (key : Key) {change : Cell → Cell × Result} (read : (change (keyspace key)).1 = keyspace key) :
    (keyspace.onKey key clock change).1 = keyspace := by
  simp only [onKey, settled, read, Function.update_eq_self]

/-- A call that reads changes nothing. -/
theorem perform_reads {clock : Clock} (settled : keyspace.live clock = keyspace)
    (nonempty : keyspace.NoEmptyList) {Result : Type} {call : StoreCall Result}
    (reads : call.Reads) : (keyspace.perform clock call).1 = keyspace := by
  cases call with
  | getString key | ttl key => exact onKey_read settled key rfl
  | listPosition key value rank count maxLen =>
      refine onKey_read settled key ?_
      simp only [Cell.listPosition]
      split
      · rfl
      · exact withList_read _ _ (nonempty key)
  | listLen key => exact onKey_read settled key (withList_read _ _ (nonempty key))
  | listRange key start stop => exact onKey_read settled key (withList_read _ _ (nonempty key))
  | listIndex key position => exact onKey_read settled key (withList_read _ _ (nonempty key))
  | set | setAt | del | expire | expireAt | listPush | listPop | listSet | listTrim | listRem
  | listInsert | listMove => exact reads.elim

end Keyspace

/-- The view of a consistent store holds no empty list. -/
theorem Store.WellFormed.noEmptyList {store : Store} (wellFormed : store.WellFormed)
    (clock : Clock) : (store.view clock).NoEmptyList := by
  intro key deadline shown
  obtain ⟨obj, stored, entry⟩ := Option.map_eq_some_iff.mp (Cell.live_eq_some.mp shown).1
  rcases obj.kind_cases with kind | kind
  · rw [Obj.entry_of_string kind] at entry
    cases entry
  · rw [Obj.entry_of_list kind, Entry.mk.injEq, Content.list.injEq] at entry
    exact (wellFormed.peek_wellFormed stored).nonempty kind entry.1

end Carrot
