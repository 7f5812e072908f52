import Carrot.Library.FiniteMap
import Carrot.Library.IndexedSet
import Carrot.Storage.ListValue

/-!
# The sharded store

Objects live in 256 shards selected by the FNV-1a hash of their key.  Each
shard keeps its map, an index of all its keys and an index of the keys with a
deadline; the store keeps one estimate of the bytes in use.  A shard is passed
by its number.  Locks are left out: an operation runs as one step.

The counters `pendingExpired` and `lastExpirationLog`, which only drive a log
line, are left out.
-/

namespace Carrot

inductive ValueKind where
  | string
  | list
  deriving DecidableEq, Repr

/-- A typed entry.  A zero `expiresAt` means no deadline. -/
structure Obj where
  value : Bytes
  expiresAt : Int
  kind : ValueKind
  list : ListValue
  lastAccess : Int
  deriving DecidableEq

/-- An approximation of the fixed cost of a key. -/
def entryOverhead : Int := 192

namespace Obj

def isExpired (obj : Obj) (now : Int) : Bool :=
  obj.expiresAt ≠ 0 && !(now < obj.expiresAt)

def memorySize (obj : Obj) (key : Key) : Int :=
  entryOverhead + (key.length + obj.value.length) + obj.list.memorySize

/-- `Obj{Value: value, ExpiresAt: expiresAt, Kind: StringKind}`. -/
def ofString (value : Bytes) (expiresAt : Int) : Obj :=
  { value, expiresAt, kind := .string, list := .zero, lastAccess := 0 }

/-- `Obj{Kind: ListKind}`. -/
def emptyList : Obj :=
  { value := [], expiresAt := 0, kind := .list, list := .zero, lastAccess := 0 }

end Obj

def numShards : Nat := 256

structure Shard where
  data : AList fun _ : Key => Obj
  /-- Holds exactly the keys in `data`. -/
  all : IndexedSet Key
  /-- Holds the keys that may carry a deadline. -/
  volatile : IndexedSet Key

structure Store where
  shards : Fin numShards → Shard
  usedBytes : Int

def fnv32a (key : Key) : UInt32 :=
  key.foldl (fun hash byte => (hash ^^^ byte.toUInt32) * 16777619) 2166136261

def getShardIndex (key : Key) : Fin numShards :=
  ⟨(fnv32a key).toNat % numShards, Nat.mod_lt _ (by decide)⟩

inductive StorageError where
  | wrongType
  | noSuchKey
  | listIndexRange
  | invalidRank
  deriving DecidableEq, Repr

namespace Store

def new : Store :=
  { shards := fun _ => { data := ∅, all := .empty, volatile := .empty }, usedBytes := 0 }

def modifyShard (store : Store) (shard : Fin numShards) (change : Shard → Shard) : Store :=
  { store with shards := Function.update store.shards shard (change (store.shards shard)) }

/-! ## Shard primitives -/

/-- Store `obj` under `key`, stamp it as just accessed and update the memory
estimate. -/
def put (store : Store) (shard : Fin numShards) (key : Key) (obj : Obj) (clock : Clock) :
    Store :=
  let obj := { obj with lastAccess := clock.unixNano }
  let size := obj.memorySize key
  match (store.shards shard).data.lookup key with
  | some old =>
      { store.modifyShard shard fun sh => { sh with data := sh.data.insert key obj } with
        usedBytes := store.usedBytes + (size - old.memorySize key) }
  | none =>
      { store.modifyShard shard fun sh =>
          { sh with data := sh.data.insert key obj, all := sh.all.add key } with
        usedBytes := store.usedBytes + size }

/-- Record a read of `obj` for LRU eviction. -/
def touch (store : Store) (shard : Fin numShards) (key : Key) (obj : Obj) (clock : Clock) :
    Store × Obj :=
  let obj := { obj with lastAccess := clock.unixNano }
  (store.modifyShard shard fun sh => { sh with data := sh.data.insert key obj }, obj)

/-- Delete `key` from the map and both indexes. -/
def remove (store : Store) (shard : Fin numShards) (key : Key) : Store :=
  match (store.shards shard).data.lookup key with
  | some old =>
      { store.modifyShard shard fun sh =>
          { data := sh.data.erase key
            all := sh.all.remove key
            volatile := sh.volatile.remove key } with
        usedBytes := store.usedBytes - old.memorySize key }
  | none => store.modifyShard shard fun sh => { sh with volatile := sh.volatile.remove key }

def volatileAdd (store : Store) (shard : Fin numShards) (key : Key) : Store :=
  store.modifyShard shard fun sh => { sh with volatile := sh.volatile.add key }

def volatileRemove (store : Store) (shard : Fin numShards) (key : Key) : Store :=
  store.modifyShard shard fun sh => { sh with volatile := sh.volatile.remove key }

/-- The stored object of a live key, touched; an expired key is removed. -/
def liveObjectLocked (store : Store) (shard : Fin numShards) (key : Key) (clock : Clock) :
    Store × Option Obj :=
  match (store.shards shard).data.lookup key with
  | none => (store, none)
  | some obj =>
      if obj.isExpired clock.now then (store.remove shard key, none)
      else
        let (store, obj) := store.touch shard key obj clock
        (store, some obj)

def usedMemory (store : Store) : Int := store.usedBytes

/-! ## Strings and deadlines -/

/-- A `ttl` of zero or less stores a persistent value. -/
def set (store : Store) (key : Key) (value : Bytes) (ttl : Int) (clock : Clock) : Store :=
  let shard := getShardIndex key
  let expiresAt := if ttl > 0 then clock.now + ttl else 0
  let store := store.put shard key (.ofString value expiresAt) clock
  if expiresAt = 0 then store.volatileRemove shard key else store.volatileAdd shard key

/-- A deadline that has already passed removes the key. -/
def setAt (store : Store) (key : Key) (value : Bytes) (expiresAt : Int) (clock : Clock) :
    Store :=
  let shard := getShardIndex key
  if ¬ clock.now < expiresAt then store.remove shard key
  else
    let store := store.put shard key (.ofString value expiresAt) clock
    store.volatileAdd shard key

def getString (store : Store) (key : Key) (clock : Clock) :
    Store × Except StorageError (Option Bytes) :=
  match store.liveObjectLocked (getShardIndex key) key clock with
  | (store, none) => (store, .ok none)
  | (store, some obj) =>
      if obj.kind ≠ .string then (store, .error .wrongType)
      else (store, .ok (some obj.value))

/-- Remaining seconds, `-1` without a deadline, `-2` without a live key. -/
def ttl (store : Store) (key : Key) (clock : Clock) : Store × Int :=
  let shard := getShardIndex key
  match (store.shards shard).data.lookup key with
  | none => (store, -2)
  | some obj =>
      if obj.isExpired clock.now then (store.remove shard key, -2)
      else if obj.expiresAt = 0 then (store, -1)
      else if obj.expiresAt - clock.now < 0 then (store.remove shard key, -2)
      else (store, remainingSeconds obj.expiresAt clock.now)

/-- Whether a live key was removed. -/
def del (store : Store) (key : Key) (clock : Clock) : Store × Bool :=
  let shard := getShardIndex key
  match (store.shards shard).data.lookup key with
  | none => (store, false)
  | some obj =>
      if obj.isExpired clock.now then (store.remove shard key, false)
      else (store.remove shard key, true)

/-- A deadline in the past deletes the key and still reports success. -/
def expireAt (store : Store) (key : Key) (expiresAt : Int) (clock : Clock) : Store × Bool :=
  let shard := getShardIndex key
  match (store.shards shard).data.lookup key with
  | none => (store, false)
  | some obj =>
      if obj.isExpired clock.now then (store.remove shard key, false)
      else if ¬ clock.now < expiresAt then (store.remove shard key, true)
      else
        let store := store.put shard key { obj with expiresAt } clock
        (store.volatileAdd shard key, true)

/-- The product `time.Duration(seconds) * time.Second` wraps. -/
def expire (store : Store) (key : Key) (seconds : Int) (clock : Clock) : Store × Bool :=
  let deadline :=
    if seconds > 0 then clock.now + int64 (seconds * Time.second) else clock.now
  store.expireAt key deadline clock

end Store

end Carrot
