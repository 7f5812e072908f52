import Carrot.Executor.Eviction
import Carrot.Library.Interleaving

/-!
# Active expiry among clients

The pass of active expiry takes the lock of a shard for each shard that it
samples and for each key that it checks or deletes.  Between these sections
clients may do anything to the store.  The pass is stated here as a program that
makes a call for each section, so that a run may have moves of the clients
between any two of them; with a journal, this includes more than the mutation
lock allows.
-/

namespace Carrot

/-- What the pass does at once: a section under the lock of a shard, an append to
the journal, or a question to the environment. -/
inductive ExpiryCall : Type → Type where
  | now : ExpiryCall Clock
  | draws : ExpiryCall Draws
  | sampleShard (shard : Fin numShards) (offset : Nat) (now : Clock) (room : Int) :
      ExpiryCall (Nat × List Key)
  | holdsExpired (key : Key) (now : Clock) : ExpiryCall Bool
  | deleteCandidate (key : Key) (now : Clock) : ExpiryCall Bool
  | installed : ExpiryCall Bool
  | append (keys : List Key) : ExpiryCall (Option Bytes)

abbrev ExpiryProgram (Value : Type) := Program ExpiryCall Value

namespace ActiveExpire

/-! ## The program -/

def deleteLoop (now : Clock) : List Key → Int → ExpiryProgram Int
  | [], deleted => .done deleted
  | key :: keys, deleted =>
      .call (.deleteCandidate key now) fun isExpired =>
        deleteLoop now keys (if isExpired then deleted + 1 else deleted)

def deleteExpired (candidates : List Key) : ExpiryProgram Int :=
  .call .now fun now => deleteLoop now candidates 0

def filterLoop (now : Clock) : List Key → List Key → ExpiryProgram (List Key)
  | [], out => .done out
  | key :: keys, out =>
      .call (.holdsExpired key now) fun isExpired =>
        filterLoop now keys (if isExpired then out ++ [key] else out)

def filterExpired (candidates : List Key) : ExpiryProgram (List Key) :=
  .call .now fun now => filterLoop now candidates []

/-- Journal the deletion of the candidates that are expired, and delete them.
The journal may have been removed in the meantime. -/
def journalAndDeleteExpired (candidates : List Key) : ExpiryProgram (Int × Option Bytes) :=
  .call .installed fun installed =>
    if !installed then (deleteExpired candidates).bind fun deleted => .done (deleted, none)
    else
      (filterExpired candidates).bind fun expired =>
        if expired.length = 0 then .done (0, none)
        else
          .call (.append expired) fun error =>
            match error with
            | some error => .done (0, some (wrapError "persist expiry deletes: " error))
            | none => (deleteExpired expired).bind fun deleted => .done (deleted, none)

def sampleLoop (draws : Draws) (limit : Int) (now : Clock) :
    Nat → Nat → Nat → List Key → ExpiryProgram (Nat × List Key)
  | 0, _, sampled, expired => .done (sampled, expired)
  | remaining + 1, step, sampled, expired =>
      if ¬ (sampled : Int) < limit then .done (sampled, expired)
      else
        .call (.sampleShard (draws.shard step) (draws.inShard (draws.shard step)) now
          (limit - sampled)) fun seen =>
            sampleLoop draws limit now remaining (step + 1) (sampled + seen.1) (expired ++ seen.2)

def sampleExpired (limit : Int) : ExpiryProgram (Nat × List Key) :=
  .call .now fun now => .call .draws fun draws => sampleLoop draws limit now numShards 0 0 []

/-- Hand a batch of expired keys to `remove`, or delete them directly. -/
def removeBatch (remove : Option (List Key → ExpiryProgram (Int × Option Bytes)))
    (expired : List Key) : ExpiryProgram (Int × Option Bytes) :=
  if expired.length > 0 then
    match remove with
    | none => (deleteExpired expired).bind fun deleted => .done (deleted, none)
    | some remove => remove expired
  else .done (0, none)

def cycleLoop (remove : Option (List Key → ExpiryProgram (Int × Option Bytes)))
    (started : Clock) : Nat → Int → ExpiryProgram Int
  | 0, totalDeleted => .done totalDeleted
  | remaining + 1, totalDeleted =>
      .call .now fun checked =>
        if checked.now - started.now ≥ 25 * Time.millisecond then .done totalDeleted
        else
          (sampleExpired 20).bind fun sample =>
            if sample.1 = 0 then .done totalDeleted
            else
              (removeBatch remove sample.2).bind fun removed =>
                if removed.2.isSome then .done (totalDeleted + removed.1)
                -- `float64(len(expired))/float64(sampled) <= 0.25` is exact.
                else if 4 * sample.2.length ≤ sample.1 then .done (totalDeleted + removed.1)
                else cycleLoop remove started remaining (totalDeleted + removed.1)

def activeExpireCycleWith (remove : Option (List Key → ExpiryProgram (Int × Option Bytes))) :
    ExpiryProgram Int :=
  .call .now fun started => cycleLoop remove started 16 0

end ActiveExpire

/-! ## How the calls are answered -/

/-- What the pass shares with the clients.  The journal may be removed. -/
structure ExpiryState where
  executor : Executor
  journaled : Bool

namespace ExpiryState

def setStore (state : ExpiryState) (store : Store) : ExpiryState :=
  { state with executor := { state.executor with store } }

/-- One section of `sampleExpired`. -/
def sampleShard (state : ExpiryState) (shard : Fin numShards) (offset : Nat) (now : Clock)
    (room : Int) : ExpiryState × Nat × List Key :=
  let sh := state.executor.store.shards shard
  let n := sh.volatile.size
  if n = 0 then (state, 0, [])
  else
    let take := min (min (n : Int) 5) room
    let (seen, dead, stale) := Store.sampleShard sh (offset % n) now.now take.toNat
    (state.setStore (stale.foldl (fun store key => store.volatileRemove shard key)
      state.executor.store), seen, dead)

/-- One section of `DeleteExpired`. -/
def deleteCandidate (state : ExpiryState) (key : Key) (now : Clock) : ExpiryState × Bool :=
  if state.executor.store.holdsExpired key now.now then
    (state.setStore (state.executor.store.remove (getShardIndex key) key), true)
  else (state, false)

variable [GoTables] (world : World)

def append (state : ExpiryState) (keys : List Key) : ExpiryState × Option Bytes :=
  match state.executor.appendBatch world (keys.map delCommand) with
  | (executor, .error error) => ({ state with executor }, some error)
  | (executor, .ok _) => ({ state with executor }, none)

/-- Ask the environment something. -/
def wait (state : ExpiryState) : ExpiryState :=
  { state with executor := state.executor.wait 1 }

def answer {Result : Type} (state : ExpiryState) : ExpiryCall Result → ExpiryState × Result
  | .now => (state.wait, state.executor.now world)
  | .draws => (state.wait, world.draws state.executor.tick)
  | .sampleShard shard offset now room => state.sampleShard shard offset now room
  | .holdsExpired key now => (state, state.executor.store.holdsExpired key now.now)
  | .deleteCandidate key now => state.deleteCandidate key now
  | .installed => (state, state.journaled)
  | .append keys => state.append world keys

end ExpiryState

/-! ## What a run deletes and journals -/

abbrev MadeExpiryCall := Program.Made ExpiryCall ExpiryState

/-- A run of a part of the pass.  Before each call the clients may move the state. -/
abbrev ExpiryProgram.RunsAmong [GoTables] {Value : Type} (world : World)
    (others : ExpiryState → ExpiryState → Prop) (program : ExpiryProgram Value)
    (state : ExpiryState) (made : List MadeExpiryCall) (value : Value) (after : ExpiryState) :
    Prop :=
  program.Runs (fun {_} => ExpiryState.answer world) others state made value after

namespace ActiveExpire

/-- The key that a call has deleted. -/
def deletes : MadeExpiryCall → Option Key
  | ⟨_, _, .deleteCandidate key _, deleted⟩ => if deleted then some key else none
  | _ => none

/-- The keys whose deletion a call has appended. -/
def appends : MadeExpiryCall → List Key
  | ⟨_, _, .append keys, none⟩ => keys
  | _ => []

/-- An append that failed. -/
def refused : MadeExpiryCall → Bool
  | ⟨_, _, .append _, some _⟩ => true
  | _ => false

/-- The journal was found to be gone. -/
def missing : MadeExpiryCall → Bool
  | ⟨_, _, .installed, false⟩ => true
  | _ => false

def deletions (made : List MadeExpiryCall) : List Key := made.filterMap deletes

theorem deletions_append (first second : List MadeExpiryCall) :
    deletions (first ++ second) = deletions first ++ deletions second :=
  List.filterMap_append

end ActiveExpire

namespace ExpiryState

variable [GoTables] {world : World}

theorem append_sameData (state : ExpiryState) (keys : List Key) :
    Executor.SameData state.executor (state.append world keys).1.executor := by
  unfold append
  split
  next appended => exact Executor.appendBatch_sameData appended
  next appended => exact Executor.appendBatch_sameData appended

theorem answer_tick {Result : Type} (state : ExpiryState) (request : ExpiryCall Result) :
    state.executor.tick ≤ (state.answer world request).1.executor.tick := by
  cases request with
  | now | draws => exact Nat.le_succ _
  | sampleShard shard offset now room =>
      simp only [answer, sampleShard]
      split <;> exact Nat.le_refl _
  | deleteCandidate key now =>
      simp only [answer, deleteCandidate]
      split <;> exact Nat.le_refl _
  | holdsExpired | installed => exact Nat.le_refl _
  | append keys => exact (state.append_sameData keys).ordered

variable (world) in
theorem answer_now {Result : Type} (state : ExpiryState) (request : ExpiryCall Result) :
    state.executor.now world ≤ (state.answer world request).1.executor.now world :=
  world.monotone (answer_tick state request)

omit [GoTables] in
theorem foldl_volatileRemove_peek (shard : Fin numShards) (keys : List Key) (store : Store)
    (other : Key) :
    (keys.foldl (fun store key => store.volatileRemove shard key) store).peek other =
      store.peek other := by
  induction keys generalizing store with
  | nil => rfl
  | cons key keys inductionHypothesis =>
      rw [List.foldl_cons, inductionHypothesis, Store.peek_volatileRemove]

/-- A call removes the key that it deletes, and nothing else. -/
theorem answer_peek (call : MadeExpiryCall)
    (answered : call.result = (call.before.answer world call.request).2) (key : Key) :
    (call.before.answer world call.request).1.executor.store.peek key =
      if ActiveExpire.deletes call = some key then none
      else call.before.executor.store.peek key := by
  obtain ⟨Result, before, request, result⟩ := call
  cases request with
  | now | draws | holdsExpired | installed => rfl
  | sampleShard shard offset now room =>
      simp only [answer, sampleShard]
      split
      next => rfl
      next => exact foldl_volatileRemove_peek shard _ _ key
  | append keys =>
      change (before.append world keys).1.executor.store.peek key = _
      rw [(before.append_sameData keys).store]
      cases result <;> rfl
  | deleteCandidate other now =>
      change result = (before.deleteCandidate other now).2 at answered
      change (before.deleteCandidate other now).1.executor.store.peek key = _
      subst answered
      unfold deleteCandidate
      split
      next =>
        change (before.executor.store.remove (getShardIndex other) other).peek key = _
        rw [Store.peek_remove]
        simp only [ActiveExpire.deletes, if_true, Option.some.injEq]
        exact if_congr eq_comm rfl rfl
      next => rfl

end ExpiryState

end Carrot
