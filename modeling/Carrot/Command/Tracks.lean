import Carrot.Command.Canonical
import Carrot.Storage.Expiry

/-!
# Stores that stay in step

A store moves from one reading of the clock to a later one while some
mutations are recorded.  It tracks them if any other store that showed the same
view at first shows the same view in the end, once it has executed the recorded
mutations.
-/

namespace Carrot

/-- Views that agree once agree forever. -/
theorem Store.view_mono {clock later : Clock} {first second : Store}
    (same : first.view clock = second.view clock) (ordered : clock ≤ later) :
    first.view later = second.view later := by
  rw [first.view_later ordered, second.view_later ordered, same]

variable [GoTables]

structure Tracks (clock : Clock) (store : Store) (steps : List Step) (later : Clock)
    (after : Store) : Prop where
  ordered : clock ≤ later
  canonical : ∀ step ∈ steps, step.command.Canonical
  wellFormed : after.WellFormed
  aligned : (store.view clock).Aligned → (after.view later).Aligned
  view : ∀ other : Store, other.WellFormed → other.view clock = store.view clock →
    (other.executeAll steps).view later = after.view later

namespace Tracks

variable {clock later : Clock} {store after : Store}

/-- A change that no client can see needs no record. -/
theorem unseen (ordered : clock ≤ later) (wellFormed : after.WellFormed)
    (same : after.view later = store.view later) : Tracks clock store [] later after where
  ordered := ordered
  canonical := nofun
  wellFormed := wellFormed
  aligned aligned := by
    rw [same, store.view_later ordered]
    exact aligned.live later
  view other _ agree := (Store.view_mono agree ordered).trans same.symm

theorem wait (ordered : clock ≤ later) (wellFormed : store.WellFormed) :
    Tracks clock store [] later store :=
  unseen ordered wellFormed rfl

theorem trans {between : Clock} {middle : Store} {first second : List Step}
    (start : Tracks clock store first between middle)
    (next : Tracks between middle second later after) :
    Tracks clock store (first ++ second) later after where
  ordered := le_trans start.ordered next.ordered
  canonical step membership := by
    rcases List.mem_append.mp membership with inFirst | inSecond
    · exact start.canonical step inFirst
    · exact next.canonical step inSecond
  wellFormed := next.wellFormed
  aligned aligned := next.aligned (start.aligned aligned)
  view other wellFormed agree := by
    rw [Store.executeAll_append]
    exact next.view _ (wellFormed.executeAll first) (start.view other wellFormed agree)

/-- A canonical mutation tracks its own record. -/
theorem execute (wellFormed : store.WellFormed) (ordered : clock ≤ later) {command : Command}
    (canonical : command.Canonical) :
    Tracks clock store [⟨clock, command⟩] later (store.execute clock command).1 where
  ordered := ordered
  canonical step membership := by
    rw [List.mem_singleton] at membership
    subst step
    exact canonical
  wellFormed := (wellFormed.execute clock command).wellFormed
  aligned aligned := by
    rw [wellFormed.execute_view ordered]
    exact (canonical.aligned aligned clock).live later
  view other otherWellFormed agree := by
    change (other.execute clock command).1.view later = _
    rw [otherWellFormed.execute_view ordered, wellFormed.execute_view ordered, agree]

/-- A command that only reads needs no record. -/
theorem reads (wellFormed : store.WellFormed) (ordered : clock ≤ later) {command : Command}
    (reads : (Carrot.execute command).Makes StoreCall.Reads) :
    Tracks clock store [] later (store.execute clock command).1 :=
  unseen ordered (wellFormed.execute clock command).wellFormed
    (wellFormed.execute_reads ordered reads)

end Tracks

/-! ## Deletions -/

def delCommand (key : Key) : Command := ⟨Verb.del.name, [key]⟩

omit [GoTables] in
@[simp]
theorem delCommand_verb (key : Key) : (delCommand key).verb = some .del := Verb.ofName_name .del

theorem delCommand_canonical (key : Key) : (delCommand key).Canonical :=
  .of_verb (delCommand_verb key) rfl (by decide) nofun

theorem execute_delCommand (store : Store) (clock : Clock) (key : Key) :
    (store.execute clock (delCommand key)).1 = (store.del key clock).1 := by
  simp only [Store.execute, Carrot.execute, delCommand_verb]
  rfl

/-- Deleting a key that is not alive changes no view. -/
theorem Store.WellFormed.view_delCommand {store : Store} (wellFormed : store.WellFormed)
    {clock : Clock} {key : Key} (dead : store.view clock key = none) :
    (store.execute clock (delCommand key)).1.view clock = store.view clock := by
  have unchanged : ((store.view clock).execute clock (delCommand key)).1 = store.view clock := by
    simp only [Keyspace.execute, Carrot.execute, delCommand_verb]
    change Function.update (store.view clock) key none = store.view clock
    rw [← dead, Function.update_eq_self]
  rw [wellFormed.execute_view (le_refl clock), unchanged, ← store.view_later (le_refl clock)]

theorem Store.WellFormed.view_delCommands {store : Store} (wellFormed : store.WellFormed)
    {clock : Clock} {keys : List Key} (dead : ∀ key ∈ keys, store.view clock key = none) :
    (store.executeAll (keys.map fun key => ⟨clock, delCommand key⟩)).view clock =
      store.view clock := by
  induction keys generalizing store with
  | nil => rfl
  | cons key keys inductionHypothesis =>
      have first := wellFormed.view_delCommand (dead key List.mem_cons_self)
      have rest := inductionHypothesis (wellFormed.execute clock (delCommand key)).wellFormed
        fun other membership => by
          rw [first]
          exact dead other (List.mem_cons_of_mem _ membership)
      exact rest.trans first

/-- Deleting expired keys tracks the deletions that are recorded for them. -/
theorem Tracks.deleteExpired {clock later : Clock} {store : Store} (wellFormed : store.WellFormed)
    (ordered : clock ≤ later) {keys : List Key} (dead : ∀ key ∈ keys, store.view clock key = none) :
    Tracks clock store (keys.map fun key => ⟨clock, delCommand key⟩) later
      (store.deleteExpired keys clock).1 where
  ordered := ordered
  canonical step membership := by
    obtain ⟨key, -, rfl⟩ := List.mem_map.mp membership
    exact delCommand_canonical key
  wellFormed := (wellFormed.deleteExpired keys clock).wellFormed
  aligned aligned := by
    rw [(wellFormed.deleteExpired keys clock).view_eq ordered, store.view_later ordered]
    exact aligned.live later
  view other otherWellFormed agree := by
    rw [(wellFormed.deleteExpired keys clock).view_eq ordered]
    refine Store.view_mono ?_ ordered
    rw [← agree] at dead ⊢
    exact otherWellFormed.view_delCommands dead

end Carrot
