import Carrot.Storage.Store

/-!
# List operations of the store

The loops of the source run over the circular buffer itself; each is a
recursion on the number of iterations it has left.
-/

namespace Carrot

def maxInt64 : Int := 2 ^ 63 - 1

def minInt64 : Int := -2 ^ 63

namespace ListValue

/-- Push in argument order onto one end. -/
def pushAll (list : ListValue) (values : List Bytes) (left : Bool) : ListValue :=
  values.foldl (fun current value => current.push value left) list

/-- Pop `count` times, collecting the values in pop order. -/
def popMany (list : ListValue) (left : Bool) : Nat → ListValue × List Bytes
  | 0 => (list, [])
  | count + 1 =>
      let (list, value, _) := list.pop left
      let (list, values) := list.popMany left count
      (list, value :: values)

/-- The ascending loop of `ListRem`, at index `position` with `remaining`
elements from there on.  A removal leaves `position` where it is. -/
def remForward (value : Bytes) (count limit : Int) :
    (remaining position : Nat) → (removed : Int) → ListValue → ListValue × Int
  | 0, _, removed, list => (list, removed)
  | remaining + 1, position, removed, list =>
      if list.atIndex position = value ∧ (count = 0 ∨ removed < limit) then
        remForward value count limit remaining position (removed + 1) (list.removeAt position)
      else
        remForward value count limit remaining (position + 1) removed list

/-- The descending loop of `ListRem`; the next index to visit is one below
the first argument. -/
def remBackward (value : Bytes) (limit : Int) :
    Nat → (removed : Int) → ListValue → ListValue × Int
  | 0, removed, list => (list, removed)
  | position + 1, removed, list =>
      if list.atIndex position = value ∧ removed < limit then
        remBackward value limit position (removed + 1) (list.removeAt position)
      else
        remBackward value limit position removed list

/-- The search loop of `ListInsert`: the first index holding `pivot`. -/
def findPivot (list : ListValue) (pivot : Bytes) : (remaining position : Nat) → Option Nat
  | 0, _ => none
  | remaining + 1, position =>
      if list.atIndex position ≠ pivot then list.findPivot pivot remaining (position + 1)
      else some position

/-- The scan of `ListPosition` at `index` with `remaining` indices to visit
before its end. -/
def scanPositions (list : ListValue) (value : Bytes) (step rank count maxLen : Int) :
    (remaining : Nat) → (index seen examined : Int) → (positions : List Int) → List Int
  | 0, _, _, _, positions => positions
  | remaining + 1, index, seen, examined, positions =>
      if maxLen > 0 ∧ examined ≥ maxLen then positions
      else if list.atIndex index.toNat ≠ value then
        list.scanPositions value step rank count maxLen remaining (index + step) seen
          (examined + 1) positions
      else if seen + 1 < rank then
        list.scanPositions value step rank count maxLen remaining (index + step) (seen + 1)
          (examined + 1) positions
      else if count > 0 ∧ ((positions ++ [index]).length : Int) ≥ count then
        positions ++ [index]
      else
        list.scanPositions value step rank count maxLen remaining (index + step) (seen + 1)
          (examined + 1) (positions ++ [index])

end ListValue

/-- The clamped bounds of `ListRange` and `ListTrim`, `none` when the range is
empty.  The upper bound is exclusive. -/
def clampRange (start stop length : Int) : Option (Nat × Nat) :=
  let start := if start < 0 then start + length else start
  let stop := if stop < 0 then stop + length else stop
  let start := if start < 0 then 0 else start
  let stop := if stop ≥ length then length - 1 else stop
  if start ≥ length ∨ start > stop ∨ length = 0 then none
  else some (start.toNat, (stop + 1).toNat)

namespace Store

/-- Push values in argument order onto one end of a list. -/
def listPush (store : Store) (key : Key) (values : List Bytes) (left onlyExisting : Bool)
    (clock : Clock) : Store × Except StorageError Int :=
  let shard := getShardIndex key
  let (store, found) := store.liveObjectLocked shard key clock
  if found = none ∧ onlyExisting then (store, .ok 0)
  else
    let obj := found.getD .emptyList
    if obj.kind ≠ .list then (store, .error .wrongType)
    else
      let list := obj.list.pushAll values left
      (store.put shard key { obj with list } clock, .ok list.size)

/-- Write a shrunk list back, or remove its key when nothing is left. -/
def putOrRemove (store : Store) (shard : Fin numShards) (key : Key) (obj : Obj)
    (clock : Clock) : Store :=
  if obj.list.size = 0 then store.remove shard key else store.put shard key obj clock

/-- How the operations on an existing list begin: a missing key has a fixed
answer and a key of another kind is refused. -/
def withLiveList {Result : Type} (store : Store) (key : Key) (clock : Clock)
    (missing : Except StorageError Result)
    (body : Store → Obj → Store × Except StorageError Result) :
    Store × Except StorageError Result :=
  match store.liveObjectLocked (getShardIndex key) key clock with
  | (store, none) => (store, missing)
  | (store, some obj) =>
      if obj.kind ≠ .list then (store, .error .wrongType) else body store obj

/-- Remove up to `count` values from one end of a list. -/
def listPop (store : Store) (key : Key) (left : Bool) (count : Int) (clock : Clock) :
    Store × Except StorageError (List Bytes) :=
  store.withLiveList key clock (.ok []) fun store obj =>
    let n := if count > obj.list.size then (obj.list.size : Int) else count
    let (list, values) := obj.list.popMany left n.toNat
    (store.putOrRemove (getShardIndex key) key { obj with list } clock, .ok values)

def listLen (store : Store) (key : Key) (clock : Clock) : Store × Except StorageError Int :=
  store.withLiveList key clock (.ok 0) fun store obj => (store, .ok obj.list.size)

/-- The inclusive range from `start` to `stop`. -/
def listRange (store : Store) (key : Key) (start stop : Int) (clock : Clock) :
    Store × Except StorageError (List Bytes) :=
  store.withLiveList key clock (.ok []) fun store obj =>
    match clampRange start stop obj.list.size with
    | none => (store, .ok [])
    | some (low, high) => (store, .ok (obj.list.rangeCopy low high))

def listIndex (store : Store) (key : Key) (position : Int) (clock : Clock) :
    Store × Except StorageError (Option Bytes) :=
  store.withLiveList key clock (.ok none) fun store obj =>
    match obj.list.index position with
    | none => (store, .ok none)
    | some i => (store, .ok (some (obj.list.atIndex i)))

def listSet (store : Store) (key : Key) (position : Int) (value : Bytes) (clock : Clock) :
    Store × Except StorageError Unit :=
  store.withLiveList key clock (.error .noSuchKey) fun store obj =>
    match obj.list.index position with
    | none => (store, .error .listIndexRange)
    | some i =>
        let list := obj.list.assign i value
        (store.put (getShardIndex key) key { obj with list } clock, .ok ())

/-- Keep the inclusive range, removing the key when no elements remain. -/
def listTrim (store : Store) (key : Key) (start stop : Int) (clock : Clock) :
    Store × Except StorageError Unit :=
  store.withLiveList key clock (.ok ()) fun store obj =>
    match clampRange start stop obj.list.size with
    | none => (store.remove (getShardIndex key) key, .ok ())
    | some (low, high) =>
        let list := obj.list.replace (obj.list.rangeCopy low high)
        (store.put (getShardIndex key) key { obj with list } clock, .ok ())

/-- Remove `count` occurrences, from the tail when negative, all when zero. -/
def listRem (store : Store) (key : Key) (count : Int) (value : Bytes) (clock : Clock) :
    Store × Except StorageError Int :=
  store.withLiveList key clock (.ok 0) fun store obj =>
    let limit :=
      if count < 0 then if count = minInt64 then maxInt64 else -count else count
    let (list, removed) :=
      if count ≥ 0 then
        ListValue.remForward value count limit obj.list.size 0 0 obj.list
      else
        ListValue.remBackward value limit obj.list.size 0 obj.list
    (store.putOrRemove (getShardIndex key) key { obj with list } clock, .ok removed)

/-- Insert before or after the first matching pivot: zero for a missing key,
`-1` when the pivot is not present. -/
def listInsert (store : Store) (key : Key) (pivot value : Bytes) (before : Bool)
    (clock : Clock) : Store × Except StorageError Int :=
  store.withLiveList key clock (.ok 0) fun store obj =>
    match obj.list.findPivot pivot obj.list.size 0 with
    | none => (store, .ok (-1))
    | some i =>
        let list := obj.list.insert (if before then i else i + 1) value
        (store.put (getShardIndex key) key { obj with list } clock, .ok list.size)

/-- Matching indexes under a rank, a count and a scan limit. -/
def listPosition (store : Store) (key : Key) (value : Bytes) (rank count maxLen : Int)
    (clock : Clock) : Store × Except StorageError (List Int) :=
  if rank = minInt64 then (store, .error .invalidRank)
  else
    store.withLiveList key clock (.ok []) fun store obj =>
      let length := obj.list.size
      if rank < 0 then
        (store, .ok (obj.list.scanPositions value (-1) (-rank) count maxLen length
          (length - 1) 0 0 []))
      else
        (store, .ok (obj.list.scanPositions value 1 rank count maxLen length 0 0 0 []))

/-- The body of `ListMove` once the shards of both keys are known. -/
def listMoveLocked (store : Store) (srcShard dstShard : Fin numShards) (src dst : Key)
    (fromLeft toLeft : Bool) (clock : Clock) : Store × Except StorageError (Option Bytes) :=
  match store.liveObjectLocked srcShard src clock with
  | (store, none) => (store, .ok none)
  | (store, some source) =>
      if source.kind ≠ .list then (store, .error .wrongType)
      else if src = dst then
        let (list, value, _) := source.list.pop fromLeft
        let list := list.push value toLeft
        (store.put srcShard src { source with list } clock, .ok (some value))
      else
        let (store, found) := store.liveObjectLocked dstShard dst clock
        if found.any (fun destination => destination.kind ≠ .list) then
          (store, .error .wrongType)
        else
          let (list, value, _) := source.list.pop fromLeft
          let destination := found.getD .emptyList
          let destination :=
            { destination with list := destination.list.push value toLeft }
          let store := store.putOrRemove srcShard src { source with list } clock
          (store.put dstShard dst destination clock, .ok (some value))

/-- Pop from one end of `src` and push onto one end of `dst`. -/
def listMove (store : Store) (src dst : Key) (fromLeft toLeft : Bool) (clock : Clock) :
    Store × Except StorageError (Option Bytes) :=
  store.listMoveLocked (getShardIndex src) (getShardIndex dst) src dst fromLeft toLeft clock

end Store

end Carrot
