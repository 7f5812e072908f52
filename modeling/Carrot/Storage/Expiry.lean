import Carrot.Storage.View

/-!
# Active expiry and eviction

The passes that look for keys to drop.  The random numbers they draw are
arguments: `rand.IntN(n)` is a draw reduced modulo `n`.
-/

namespace Carrot

/-- The draws of one pass over the shards, each of which is visited at most once. -/
structure Draws where
  start : Nat
  inShard : Fin numShards → Nat

namespace Draws

/-- The shard visited after `step` others. -/
def shard (draws : Draws) (step : Nat) : Fin numShards :=
  ⟨(draws.start % numShards + step) % numShards, Nat.mod_lt _ (by decide)⟩

end Draws

namespace Store

/-- What one shard adds to a sample: how many keys with a deadline were seen,
which of them are expired, and which index entries are stale. -/
def sampleShard (sh : Shard) (offset : Nat) (now : Int) (take : Nat) :
    Nat × List Key × List Key :=
  let n := sh.volatile.size
  (List.range take).foldl (fun (sampled, expired, stale) j =>
    let key := sh.volatile.atIndex ((offset + j) % n)
    match sh.data.lookup key with
    | none => (sampled, expired, stale ++ [key])
    | some obj =>
        if obj.expiresAt = 0 then (sampled, expired, stale ++ [key])
        else (sampled + 1, if obj.isExpired now then expired ++ [key] else expired, stale))
    (0, [], [])

def sampleLoop (draws : Draws) (limit : Int) (now : Int) :
    Nat → Nat → Store → Nat → List Key → Store × Nat × List Key
  | 0, _, store, sampled, expired => (store, sampled, expired)
  | remaining + 1, step, store, sampled, expired =>
      if ¬ (sampled : Int) < limit then (store, sampled, expired)
      else
        let shard := draws.shard step
        let sh := store.shards shard
        let n := sh.volatile.size
        if n = 0 then sampleLoop draws limit now remaining (step + 1) store sampled expired
        else
          let take := min (min (n : Int) 5) (limit - sampled)
          let (seen, dead, stale) := sampleShard sh (draws.inShard shard % n) now take.toNat
          let store := stale.foldl (fun store key => store.volatileRemove shard key) store
          sampleLoop draws limit now remaining (step + 1) store (sampled + seen) (expired ++ dead)

/-- Visit up to `limit` keys of the volatile indexes: how many were sampled
and which of them are expired. -/
def sampleExpired (store : Store) (limit : Int) (draws : Draws) (clock : Clock) :
    Store × Nat × List Key :=
  sampleLoop draws limit clock.now numShards 0 store 0 []

/-- Whether a key exists and is expired. -/
def holdsExpired (store : Store) (key : Key) (now : Int) : Bool :=
  ((store.shards (getShardIndex key)).data.lookup key).any fun obj => obj.isExpired now

/-- The candidates that currently exist and are expired. -/
def filterExpired (store : Store) (candidates : List Key) (clock : Clock) : List Key :=
  candidates.filter fun key => store.holdsExpired key clock.now

/-- One candidate of `DeleteExpired`. -/
def deleteCandidate (now : Int) (state : Store × Int) (key : Key) : Store × Int :=
  if state.1.holdsExpired key now then
    (state.1.remove (getShardIndex key) key, state.2 + 1)
  else state

/-- Delete each candidate that is still expired. -/
def deleteExpired (store : Store) (candidates : List Key) (clock : Clock) : Store × Int :=
  candidates.foldl (deleteCandidate clock.now) (store, 0)

/-- What the environment supplies to one iteration of the cycle. -/
structure ExpireRound where
  checked : Clock
  sampled : Clock
  draws : Draws
  deleted : Clock

/-- Sample and remove expired keys while more than a quarter of a sample was
expired.  `remove` deletes a batch of candidates; it reports how many it
deleted and whether it failed. -/
def activeExpireCycleWith {Context : Type} (started : Clock) (rounds : Nat → ExpireRound)
    (remove : Context → Store → List Key → Clock → Context × Store × Int × Bool) :
    Nat → Nat → Context → Store → Int → Context × Store × Int
  | 0, _, context, store, total => (context, store, total)
  | remaining + 1, iteration, context, store, total =>
      let round := rounds iteration
      if round.checked.now - started.now ≥ 25 * Time.millisecond then (context, store, total)
      else
        let (store, sampled, expired) := store.sampleExpired 20 round.draws round.sampled
        if sampled = 0 then (context, store, total)
        else
          let (context, store, deleted, failed) :=
            if expired.length > 0 then remove context store expired round.deleted
            else (context, store, 0, false)
          let total := total + deleted
          if failed then (context, store, total)
          -- `float64(len(expired))/float64(sampled) <= 0.25` is exact.
          else if 4 * expired.length ≤ sampled then (context, store, total)
          else
            activeExpireCycleWith started rounds remove remaining (iteration + 1) context store
              total

/-- One bounded pass that deletes the expired keys it finds. -/
def activeExpireCycle (store : Store) (started : Clock) (rounds : Nat → ExpireRound) :
    Store × Int :=
  (activeExpireCycleWith started rounds (fun _ store keys clock =>
    let (store, deleted) := store.deleteExpired keys clock
    ((), store, deleted, false)) 16 0 () store 0).2

/-- The least recently used key among at most five sampled ones. -/
def lruVictimLoop (store : Store) (draws : Draws) :
    Nat → Nat → Nat → Option (Key × Int) → Option Key
  | 0, _, _, best => best.map Prod.fst
  | remaining + 1, step, sampled, best =>
      if ¬ sampled < 5 then best.map Prod.fst
      else
        let shard := draws.shard step
        let sh := store.shards shard
        let n := sh.all.size
        if n > 0 then
          let key := sh.all.atIndex (draws.inShard shard % n)
          let access := ((sh.data.lookup key).map Obj.lastAccess).getD 0
          let best :=
            match best with
            | none => some (key, access)
            | some (victim, oldest) =>
                if access < oldest then some (key, access) else some (victim, oldest)
          lruVictimLoop store draws remaining (step + 1) (sampled + 1) best
        else lruVictimLoop store draws remaining (step + 1) sampled best

def lruVictim (store : Store) (draws : Draws) : Option Key :=
  lruVictimLoop store draws numShards 0 0 none

/-! ## Sampling changes nothing

A consistent volatile index has no stale entries. -/

/-- The keys that a sample visits in a shard. -/
def visited (sh : Shard) (offset take : Nat) : List Key :=
  (List.range take).map fun j => sh.volatile.atIndex ((offset + j) % sh.volatile.size)

theorem sampleShard_eq {home : Fin numShards} {sh : Shard} (wellFormed : sh.WellFormed home)
    (nonempty : sh.volatile.size ≠ 0) (offset : Nat) (now : Int) (take : Nat) :
    sampleShard sh offset now take =
      (take, (visited sh offset take).filter fun key =>
        (sh.data.lookup key).any fun obj => obj.isExpired now, []) := by
  induction take with
  | zero => rfl
  | succ take inductionHypothesis =>
      have bound : (offset + take) % sh.volatile.size < sh.volatile.keys.length :=
        Nat.mod_lt _ (Nat.pos_of_ne_zero nonempty)
      have tracked : sh.volatile.atIndex ((offset + take) % sh.volatile.size) ∈
          sh.volatile.keys := by
        rw [IndexedSet.atIndex, List.getD_eq_getElem _ _ bound]
        exact List.getElem_mem bound
      obtain ⟨obj, stored, deadline⟩ := (wellFormed.mem_volatile _).mp tracked
      simp only [sampleShard, visited, List.range_succ, List.foldl_append, List.foldl_cons,
        List.foldl_nil, List.map_append, List.map_cons, List.map_nil, List.filter_append]
        at inductionHypothesis ⊢
      simp only [inductionHypothesis, stored, deadline, if_false, List.filter_cons, List.filter_nil,
        Option.any_some]
      split <;> simp

theorem WellFormed.sampleLoop {store : Store} (wellFormed : store.WellFormed) (draws : Draws)
    (limit now : Int) (remaining step sampled : Nat) (expired : List Key) :
    (sampleLoop draws limit now remaining step store sampled expired).1 = store := by
  induction remaining generalizing step sampled expired with
  | zero => rfl
  | succ remaining inductionHypothesis =>
      rw [Store.sampleLoop]
      split
      next => rfl
      next =>
        by_cases empty : (store.shards (draws.shard step)).volatile.size = 0
        · simp only [if_pos empty]
          exact inductionHypothesis _ _ _
        · simp only [if_neg empty]
          rw [sampleShard_eq (wellFormed.shards _) empty]
          exact inductionHypothesis _ _ _

theorem WellFormed.sampleExpired {store : Store} (wellFormed : store.WellFormed) (limit : Int)
    (draws : Draws) (clock : Clock) : (store.sampleExpired limit draws clock).1 = store :=
  wellFormed.sampleLoop draws limit clock.now numShards 0 0 []

/-! ## Deleting expired keys -/

theorem holdsExpired_iff {store : Store} {key : Key} {now : Int} :
    store.holdsExpired key now = true ↔
      ∃ obj, store.peek key = some obj ∧ obj.isExpired now = true := by
  change ((store.peek key).any fun obj => obj.isExpired now) = true ↔ _
  cases store.peek key <;> simp

/-- An expired key stays expired. -/
theorem holdsExpired_later {store : Store} {key : Key} {clock later : Clock}
    (dead : store.holdsExpired key clock.now = true) (ordered : clock ≤ later) :
    store.holdsExpired key later.now = true := by
  obtain ⟨obj, stored, expired⟩ := holdsExpired_iff.mp dead
  have stillDead : obj.entry.expired later.now = true :=
    Entry.expired_of_le (Clock.now_le_now ordered) expired
  exact holdsExpired_iff.mpr ⟨obj, stored, stillDead⟩

/-- An expired key stays out of sight. -/
theorem view_of_holdsExpired {store : Store} {key : Key} {clock later : Clock}
    (dead : store.holdsExpired key clock.now = true) (ordered : clock ≤ later) :
    store.view later key = none := by
  obtain ⟨obj, stored, expired⟩ := holdsExpired_iff.mp (holdsExpired_later dead ordered)
  exact view_of_expired stored expired

/-- A store that differs from another one only by keys expired at a reading. -/
structure Expires (store : Store) (clock : Clock) (after : Store) : Prop where
  wellFormed : after.WellFormed
  dropped : ∀ key, after.peek key = store.peek key ∨
    after.peek key = none ∧ ∃ obj, store.peek key = some obj ∧ obj.isExpired clock.now = true

theorem WellFormed.expires {store : Store} (wellFormed : store.WellFormed) (clock : Clock) :
    Expires store clock store :=
  ⟨wellFormed, fun _ => .inl rfl⟩

theorem Expires.view_eq {store after : Store} {clock : Clock} (expires : Expires store clock after)
    {later : Clock} (ordered : clock ≤ later) : after.view later = store.view later := by
  funext key
  rcases expires.dropped key with same | ⟨absent, obj, stored, dead⟩
  · exact view_congr later same
  · rw [view_of_missing later absent,
      view_of_holdsExpired (holdsExpired_iff.mpr ⟨obj, stored, dead⟩) ordered]

theorem Expires.deleteCandidate {store : Store} {clock : Clock} {state : Store × Int}
    (expires : Expires store clock state.1) (key : Key) :
    Expires store clock (Store.deleteCandidate clock.now state key).1 := by
  rw [Store.deleteCandidate]
  split
  next dead =>
    refine ⟨expires.wellFormed.remove _ _, ?_⟩
    intro other
    by_cases same : other = key
    · subst other
      refine .inr ⟨by simp, ?_⟩
      obtain ⟨obj, stored, expired⟩ := holdsExpired_iff.mp dead
      rcases expires.dropped key with kept | ⟨absent, _⟩
      · exact ⟨obj, kept ▸ stored, expired⟩
      · exact absurd (absent.symm.trans stored) (by simp)
    · simpa [same] using expires.dropped other
  next => exact expires

theorem WellFormed.deleteExpired {store : Store} (wellFormed : store.WellFormed)
    (candidates : List Key) (clock : Clock) :
    Expires store clock (store.deleteExpired candidates clock).1 := by
  suffices general : ∀ state : Store × Int, Expires store clock state.1 →
      Expires store clock (candidates.foldl (deleteCandidate clock.now) state).1 from
    general (store, 0) (wellFormed.expires clock)
  induction candidates with
  | nil => exact fun _ expires => expires
  | cons key candidates inductionHypothesis =>
      exact fun state expires => inductionHypothesis _ (expires.deleteCandidate key)

/-- What every `remove` preserves holds after the cycle. -/
theorem activeExpireCycleWith_preserves {Context : Type} {started : Clock}
    {rounds : Nat → ExpireRound}
    {remove : Context → Store → List Key → Clock → Context × Store × Int × Bool}
    (property : Context → Store → Prop)
    (consistent : ∀ context store, property context store → store.WellFormed)
    (preserved : ∀ context store keys clock, property context store →
      property (remove context store keys clock).1 (remove context store keys clock).2.1)
    (remaining iteration : Nat) {context : Context} {store : Store} (total : Int)
    (holds : property context store) :
    let outcome :=
      activeExpireCycleWith started rounds remove remaining iteration context store total
    property outcome.1 outcome.2.1 := by
  induction remaining generalizing iteration context store total with
  | zero => exact holds
  | succ remaining inductionHypothesis =>
      have unchanged := (consistent context store holds).sampleExpired 20
        (rounds iteration).draws (rounds iteration).sampled
      simp only [activeExpireCycleWith, unchanged]
      split_ifs
      all_goals first
        | exact holds
        | exact preserved _ _ _ _ holds
        | exact inductionHypothesis _ _ holds
        | exact inductionHypothesis _ _ (preserved _ _ _ _ holds)

theorem WellFormed.activeExpireCycle {store : Store} (wellFormed : store.WellFormed)
    (started : Clock) (rounds : Nat → ExpireRound) :
    (store.activeExpireCycle started rounds).1.WellFormed :=
  activeExpireCycleWith_preserves (fun _ store => store.WellFormed)
    (fun _ _ consistent => consistent)
    (fun _ _ keys clock consistent => (consistent.deleteExpired keys clock).wellFormed)
    16 0 0 wellFormed

/-! ## Expired keys are deleted -/

theorem deleteCandidate_peek (now : Int) (state : Store × Int) (candidate key : Key) :
    (deleteCandidate now state candidate).1.peek key =
      if candidate = key ∧ state.1.holdsExpired candidate now = true then none
      else state.1.peek key := by
  rw [deleteCandidate]
  by_cases dead : state.1.holdsExpired candidate now = true
  · rw [if_pos dead, peek_remove]
    simp only [dead, and_true]
    exact if_congr eq_comm rfl rfl
  · rw [if_neg dead, if_neg (fun both => dead both.2)]

/-- A key that is gone is not brought back. -/
theorem foldl_deleteCandidate_none {now : Int} {state : Store × Int} {key : Key}
    (absent : state.1.peek key = none) (candidates : List Key) :
    (candidates.foldl (deleteCandidate now) state).1.peek key = none := by
  induction candidates generalizing state with
  | nil => exact absent
  | cons candidate candidates inductionHypothesis =>
      apply inductionHypothesis
      rw [deleteCandidate_peek, absent, ite_self]

theorem deleteExpired_removes {store : Store} {candidates : List Key} {clock : Clock} {key : Key}
    (candidate : key ∈ candidates) (dead : store.holdsExpired key clock.now = true) :
    (store.deleteExpired candidates clock).1.peek key = none := by
  suffices general : ∀ state : Store × Int, state.1.holdsExpired key clock.now = true →
      (candidates.foldl (deleteCandidate clock.now) state).1.peek key = none from
    general (store, 0) dead
  clear dead
  induction candidates with
  | nil => cases candidate
  | cons head candidates inductionHypothesis =>
      intro state dead
      rw [List.foldl_cons]
      by_cases same : head = key
      · apply foldl_deleteCandidate_none
        rw [deleteCandidate_peek, same, if_pos ⟨rfl, dead⟩]
      · have later : key ∈ candidates := List.mem_of_ne_of_mem (Ne.symm same) candidate
        apply inductionHypothesis later
        rw [holdsExpired_iff, deleteCandidate_peek, if_neg (fun both => same both.1)]
        exact holdsExpired_iff.mp dead

end Store

end Carrot
