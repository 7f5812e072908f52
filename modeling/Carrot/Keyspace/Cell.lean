import Carrot.Keyspace.Lists
import Carrot.Storage.List

/-!
# Keyspaces

The abstract state of the database: what a client can observe under each key.
A cell is the live entry of one key.  Each single-key operation is a function
on that cell; only `listMove` involves two keys.
-/

namespace Carrot

inductive Content where
  | string (value : Bytes)
  | list (items : List Bytes)
  deriving DecidableEq, Repr

/-- What is stored under a key.  A zero deadline means that it never expires. -/
structure Entry where
  content : Content
  deadline : Int
  deriving DecidableEq, Repr

def Entry.expired (entry : Entry) (now : Int) : Bool :=
  entry.deadline ≠ 0 && !(now < entry.deadline)

/-- The live entry of one key, if any. -/
abbrev Cell := Option Entry

namespace Cell

/-- Drop an entry whose deadline has passed. -/
def live (cell : Cell) (now : Int) : Cell := cell.filter fun entry => !entry.expired now

/-- A cell that holds a list, or nothing when the list is empty. -/
def ofList (items : List Bytes) (deadline : Int) : Cell :=
  if items = [] then none else some ⟨.list items, deadline⟩

def getString : Cell → Except StorageError (Option Bytes)
  | none => .ok none
  | some ⟨.string value, _⟩ => .ok (some value)
  | some ⟨.list _, _⟩ => .error .wrongType

def ttl (now : Int) : Cell → Int
  | none => -2
  | some entry => if entry.deadline = 0 then -1 else remainingSeconds entry.deadline now

/-- A string with an absolute deadline, which may already have passed. -/
def setAt (value : Bytes) (deadline now : Int) : Cell :=
  if now < deadline then some ⟨.string value, deadline⟩ else none

def expireAt (deadline now : Int) : Cell → Cell × Bool
  | none => (none, false)
  | some entry => if now < deadline then (some { entry with deadline }, true) else (none, true)

/-- Run a function on the list in a cell. -/
def withList {Result : Type} (missing : Except StorageError Result)
    (change : List Bytes → List Bytes × Except StorageError Result) :
    Cell → Cell × Except StorageError Result
  | none => (none, missing)
  | some ⟨.string value, deadline⟩ => (some ⟨.string value, deadline⟩, .error .wrongType)
  | some ⟨.list items, deadline⟩ => (ofList (change items).1 deadline, (change items).2)

def listPush (values : List Bytes) (left onlyExisting : Bool) :
    Cell → Cell × Except StorageError Int
  | none =>
      if onlyExisting then (none, .ok 0)
      else (ofList (Lists.pushAll left values []) 0, .ok values.length)
  | some entry =>
      withList (.ok 0) (fun items =>
        (Lists.pushAll left values items, .ok (Lists.pushAll left values items).length))
        (some entry)

def listPop (left : Bool) (count : Int) : Cell → Cell × Except StorageError (List Bytes) :=
  withList (.ok []) fun items =>
    let (rest, values) := Lists.popMany left (min count.toNat items.length) items
    (rest, .ok values)

def listLen : Cell → Cell × Except StorageError Int :=
  withList (.ok 0) fun items => (items, .ok items.length)

def listRange (start stop : Int) : Cell → Cell × Except StorageError (List Bytes) :=
  withList (.ok []) fun items => (items, .ok (Lists.slice start stop items))

def listIndex (position : Int) : Cell → Cell × Except StorageError (Option Bytes) :=
  withList (.ok none) fun items =>
    (items, .ok ((Lists.locate items position).bind fun index => items[index]?))

def listSet (position : Int) (value : Bytes) : Cell → Cell × Except StorageError Unit :=
  withList (.error .noSuchKey) fun items =>
    match Lists.locate items position with
    | none => (items, .error .listIndexRange)
    | some index => (items.set index value, .ok ())

def listTrim (start stop : Int) : Cell → Cell × Except StorageError Unit :=
  withList (.ok ()) fun items => (Lists.slice start stop items, .ok ())

/-- The least `int64` has no opposite, and stands for its successor. -/
def listRem (count : Int) (value : Bytes) : Cell → Cell × Except StorageError Int :=
  withList (.ok 0) fun items =>
    let rest := Lists.remove (if count = minInt64 then -maxInt64 else count) value items
    (rest, .ok (items.length - rest.length))

def listInsert (pivot value : Bytes) (before : Bool) : Cell → Cell × Except StorageError Int :=
  withList (.ok 0) fun items =>
    match Lists.insertNear before pivot value items with
    | none => (items, .ok (-1))
    | some inserted => (inserted, .ok inserted.length)

def listPosition (value : Bytes) (rank count maxLen : Int) (cell : Cell) :
    Cell × Except StorageError (List Int) :=
  if rank = minInt64 then (cell, .error .invalidRank)
  else
    withList (.ok []) (fun items => (items, .ok (Lists.positions value rank count maxLen items)))
      cell

end Cell

/-- A client's view of the whole database. -/
abbrev Keyspace := Key → Cell

namespace Keyspace

/-- The keys that are alive at a reading of the clock. -/
def live (keyspace : Keyspace) (clock : Clock) : Keyspace :=
  fun key => Cell.live (keyspace key) clock.now

/-- Run a function on the live cell of one key. -/
def onKey {Result : Type} (keyspace : Keyspace) (key : Key) (clock : Clock)
    (change : Cell → Cell × Result) : Keyspace × Result :=
  let (cell, result) := change (keyspace.live clock key)
  (Function.update keyspace key cell, result)

/-- Move one element between the ends of two lists, or rotate one list. -/
def listMove (keyspace : Keyspace) (src dst : Key) (fromLeft toLeft : Bool) (clock : Clock) :
    Keyspace × Except StorageError (Option Bytes) :=
  match keyspace.live clock src with
  | none => (keyspace, .ok none)
  | some ⟨.string _, _⟩ => (keyspace, .error .wrongType)
  | some ⟨.list items, deadline⟩ =>
      let (rest, popped) := Lists.popMany fromLeft 1 items
      let value := popped.headD []
      if src = dst then
        (Function.update keyspace src
          (Cell.ofList (Lists.pushAll toLeft [value] rest) deadline), .ok (some value))
      else
        match keyspace.live clock dst with
        | some ⟨.string _, _⟩ => (keyspace, .error .wrongType)
        | none =>
            (Function.update (Function.update keyspace src (Cell.ofList rest deadline)) dst
              (Cell.ofList [value] 0), .ok (some value))
        | some ⟨.list target, targetDeadline⟩ =>
            (Function.update (Function.update keyspace src (Cell.ofList rest deadline)) dst
              (Cell.ofList (Lists.pushAll toLeft [value] target) targetDeadline),
              .ok (some value))

end Keyspace

/-! ## Expiry only ever removes entries -/

theorem Entry.expired_of_le {entry : Entry} {first second : Int} (ordered : first ≤ second)
    (expired : entry.expired first = true) : entry.expired second = true := by
  simp only [Entry.expired, Bool.and_eq_true, decide_eq_true_eq, Bool.not_eq_true',
    decide_eq_false_iff_not] at expired ⊢
  exact ⟨expired.1, by omega⟩

namespace Cell

@[simp]
theorem live_none (now : Int) : live none now = none := rfl

theorem live_some (entry : Entry) (now : Int) :
    live (some entry) now = if entry.expired now then none else some entry := by
  simp only [live, Option.filter_some]
  cases entry.expired now <;> rfl

theorem live_live (cell : Cell) {first second : Int} (ordered : first ≤ second) :
    live (live cell first) second = live cell second := by
  cases cell with
  | none => rfl
  | some entry =>
      by_cases dead : entry.expired first = true
      · simp [live_some, dead, Entry.expired_of_le ordered dead]
      · simp [live_some, dead]

@[simp]
theorem live_self (cell : Cell) (now : Int) : live (live cell now) now = live cell now :=
  live_live cell (Int.le_refl now)

theorem live_eq_some {cell : Cell} {now : Int} {entry : Entry} :
    live cell now = some entry ↔ cell = some entry ∧ entry.expired now = false := by
  cases cell with
  | none => simp
  | some stored =>
      rw [live_some]
      cases dead : stored.expired now <;>
        simp only [Bool.false_eq_true, if_false, if_true, Option.some.injEq, reduceCtorEq,
          false_iff,
          not_and]
      · exact ⟨fun same => ⟨same, same ▸ dead⟩, And.left⟩
      · rintro rfl
        simp [dead]

end Cell

namespace Keyspace

theorem live_live (keyspace : Keyspace) {first second : Clock}
    (ordered : first ≤ second) :
    (keyspace.live first).live second = keyspace.live second := by
  funext key
  exact Cell.live_live (keyspace key) (Clock.now_le_now ordered)

@[simp]
theorem live_self (keyspace : Keyspace) (clock : Clock) :
    (keyspace.live clock).live clock = keyspace.live clock :=
  keyspace.live_live (le_refl clock)

theorem live_update (keyspace : Keyspace) (key : Key) (cell : Cell) (clock : Clock) :
    Keyspace.live (Function.update keyspace key cell) clock =
      Function.update (keyspace.live clock) key (Cell.live cell clock.now) := by
  funext other
  by_cases same : other = key
  · subst other
    simp [live]
  · simp [live, same]

theorem listMove_live (keyspace : Keyspace) (src dst : Key) (fromLeft toLeft : Bool)
    (clock : Clock) :
    ((keyspace.live clock).listMove src dst fromLeft toLeft clock).1.live clock =
        (keyspace.listMove src dst fromLeft toLeft clock).1.live clock ∧
      ((keyspace.live clock).listMove src dst fromLeft toLeft clock).2 =
        (keyspace.listMove src dst fromLeft toLeft clock).2 := by
  simp only [listMove, live_self]
  rcases keyspace.live clock src with _ | ⟨_ | items, deadline⟩
  · simp
  · simp
  · simp only
    split_ifs
    · simp [live_update]
    · rcases keyspace.live clock dst with _ | ⟨_ | target, targetDeadline⟩
      · simp [live_update]
      · simp
      · simp [live_update]

end Keyspace

end Carrot
