import Carrot.Aof.Record
import Carrot.Storage.Deadlines
import Carrot.Storage.Snapshot

/-!
# Snapshots as commands

A rewrite writes every copied key as ordinary commands.  Executed on an empty
keyspace they bring the copied keys back, but for those that expire before.
-/

namespace Carrot

/-- The commands that a rewrite writes for a key. -/
def SnapshotEntry.commands (copy : SnapshotEntry) : List Command :=
  let deadline := Decimal.formatInt (Time.toUnixMilli copy.expiresAt)
  match copy.kind with
  | .string =>
      [⟨Verb.set.name, [copy.key, copy.value] ++
        if copy.expiresAt ≠ 0 then [bytes "PXAT", deadline] else []⟩]
  | .list =>
      (copy.list.map fun value => ⟨Verb.rpush.name, [copy.key, value]⟩) ++
        if copy.expiresAt ≠ 0 then [⟨Verb.pexpireat.name, [copy.key, deadline]⟩] else []

/-- The commands of a copy are known ones. -/
theorem SnapshotEntry.verb_of_commands (copy : SnapshotEntry) {command : Command}
    (membership : command ∈ copy.commands) : ∃ verb : Verb, command.name = verb.name := by
  simp only [SnapshotEntry.commands] at membership
  split at membership
  next =>
    rw [List.mem_singleton] at membership
    subst command
    exact ⟨.set, rfl⟩
  next =>
    rcases List.mem_append.mp membership with pushed | expiring
    · obtain ⟨value, -, rfl⟩ := List.mem_map.mp pushed
      exact ⟨.rpush, rfl⟩
    · split at expiring
      next =>
        rw [List.mem_singleton] at expiring
        subst command
        exact ⟨.pexpireat, rfl⟩
      next => cases expiring

theorem Cell.live_of_no_deadline (content : Content) (now : Int) :
    Cell.live (some ⟨content, 0⟩) now = some ⟨content, 0⟩ := rfl

theorem Cell.live_of_deadline (content : Content) {deadline : Int} (set : deadline ≠ 0)
    (now : Int) :
    Cell.live (some ⟨content, deadline⟩) now =
      if now < deadline then some ⟨content, deadline⟩ else none := by
  rw [Cell.live_some]
  by_cases alive : now < deadline
  · simp [Entry.expired, alive]
  · simp [Entry.expired, alive, set]

section

variable [GoTables]

/-- Run commands one after the other at one reading of the clock. -/
def Keyspace.executeAll (keyspace : Keyspace) (clock : Clock) (commands : List Command) :
    Keyspace :=
  commands.foldl (fun keyspace command => (keyspace.execute clock command).1) keyspace

theorem Keyspace.executeAll_append (keyspace : Keyspace) (clock : Clock)
    (first second : List Command) :
    keyspace.executeAll clock (first ++ second) =
      (keyspace.executeAll clock first).executeAll clock second :=
  List.foldl_append

theorem Represents.executeAll {clock : Clock} {store : Store} {keyspace : Keyspace}
    (represents : Represents clock store keyspace) (commands : List Command) :
    Represents clock (store.executeAll (commands.map (Step.mk clock)))
      (keyspace.executeAll clock commands) := by
  induction commands generalizing store keyspace with
  | nil => exact represents
  | cons command commands inductionHypothesis =>
      exact inductionHypothesis (represents.execute command).1

/-! ## Single commands -/

section

variable {keyspace : Keyspace} {clock : Clock} {key : Key}

omit [GoTables] in
theorem parseInt_deadline {deadline : Int} (aligned : OnMillisecond deadline) :
    ∃ milliseconds, Decimal.parseInt (Decimal.formatInt (Time.toUnixMilli deadline)) =
      .ok milliseconds ∧ Time.unixMilli milliseconds = deadline := by
  obtain ⟨milliseconds, low, high, rfl⟩ := aligned
  refine ⟨milliseconds, ?_, rfl⟩
  rw [Time.toUnixMilli_unixMilli]
  exact Decimal.parseInt_formatInt low high

theorem execute_set (value : Bytes) :
    (keyspace.execute clock ⟨Verb.set.name, [key, value]⟩).1 =
      Function.update keyspace key (some ⟨.string value, 0⟩) := by
  simp only [Keyspace.execute, execute, Command.verb, Verb.ofName_name, handleSet, parseSetOptions,
    SetExpiry.none]
  rfl

theorem execute_setAt {deadline : Int} (aligned : OnMillisecond deadline) (value : Bytes) :
    (keyspace.execute clock ⟨Verb.set.name, [key, value, bytes "PXAT",
        Decimal.formatInt (Time.toUnixMilli deadline)]⟩).1 =
      Function.update keyspace key (Cell.setAt value deadline clock.now) := by
  obtain ⟨milliseconds, parsed, same⟩ := parseInt_deadline aligned
  have option : setOption (bytes "PXAT") = some absoluteExpiry := by
    rw [setOption, toUpper_pxat]
    rfl
  simp only [Keyspace.execute, execute, Command.verb, Verb.ofName_name, handleSet, parseSetOptions,
    option, absoluteExpiry, parsed, same]
  rfl

theorem execute_rpush (value : Bytes) :
    (keyspace.execute clock ⟨Verb.rpush.name, [key, value]⟩).1 =
      Function.update keyspace key
        (Cell.listPush [value] false false (keyspace.live clock key)).1 := by
  simp only [Keyspace.execute, execute, Command.verb, Verb.ofName_name]
  rfl

theorem execute_pexpireat {deadline : Int} (aligned : OnMillisecond deadline) :
    (keyspace.execute clock ⟨Verb.pexpireat.name, [key,
        Decimal.formatInt (Time.toUnixMilli deadline)]⟩).1 =
      Function.update keyspace key
        (Cell.expireAt deadline clock.now (keyspace.live clock key)).1 := by
  obtain ⟨milliseconds, parsed, same⟩ := parseInt_deadline aligned
  simp only [Keyspace.execute, execute, Command.verb, Verb.ofName_name, handleExpireAt, withInteger,
    parsed, same]
  rfl

end

/-! ## Whole snapshots -/

/-- Pushing values one by one onto a list. -/
theorem executeAll_rpush (keyspace : Keyspace) (clock : Clock) (key : Key)
    (items values : List Bytes) :
    Keyspace.executeAll (Function.update keyspace key (some ⟨.list items, 0⟩)) clock
        (values.map fun value => ⟨Verb.rpush.name, [key, value]⟩) =
      Function.update keyspace key (some ⟨.list (items ++ values), 0⟩) := by
  induction values generalizing items with
  | nil => simp [Keyspace.executeAll]
  | cons value values inductionHypothesis =>
      have pushed : (Cell.listPush [value] false false (some ⟨.list items, 0⟩)).1 =
          some ⟨.list (items ++ [value]), 0⟩ := by
        simp [Cell.listPush, Cell.withList, Cell.ofList, Lists.pushAll]
      rw [List.map_cons, Keyspace.executeAll, List.foldl_cons, execute_rpush]
      simp only [Keyspace.live, Function.update_self, Cell.live_of_no_deadline, pushed,
        Function.update_idem]
      rw [← Keyspace.executeAll, inductionHypothesis, List.append_assoc, List.singleton_append]

/-- A list is brought back without its deadline. -/
theorem executeAll_list {keyspace : Keyspace} (clock : Clock) {key : Key} {items : List Bytes}
    (absent : keyspace key = none) (nonempty : items ≠ []) :
    keyspace.executeAll clock (items.map fun value => ⟨Verb.rpush.name, [key, value]⟩) =
      Function.update keyspace key (some ⟨.list items, 0⟩) := by
  cases items with
  | nil => exact absurd rfl nonempty
  | cons value values =>
      have created : (keyspace.execute clock ⟨Verb.rpush.name, [key, value]⟩).1 =
          Function.update keyspace key (some ⟨.list [value], 0⟩) := by
        rw [execute_rpush, Keyspace.live, absent]
        rfl
      rw [List.map_cons, Keyspace.executeAll, List.foldl_cons, created]
      exact executeAll_rpush keyspace clock key [value] values

/-- The commands of a copy bring its key back, unless it is expired by then. -/
theorem executeAll_commands {keyspace : Keyspace} (clock : Clock) {copy : SnapshotEntry}
    (absent : keyspace copy.key = none) (aligned : Deadline.Aligned copy.expiresAt)
    (nonempty : copy.kind = .list → copy.list ≠ []) :
    keyspace.executeAll clock copy.commands =
      Function.update keyspace copy.key (Cell.live (some copy.entry) clock.now) := by
  rcases copy with ⟨key, value, deadline, _ | _, items⟩
  · by_cases set : deadline = 0
    · subst set
      exact execute_set value
    · have onMillisecond := aligned.resolve_left set
      simp only [SnapshotEntry.commands, SnapshotEntry.entry, if_pos set,
        Cell.live_of_deadline _ set]
      exact execute_setAt onMillisecond value
  · have pushed : keyspace.executeAll clock
        (items.map fun value => ⟨Verb.rpush.name, [key, value]⟩) =
        Function.update keyspace key (some ⟨.list items, 0⟩) :=
      executeAll_list clock absent (nonempty rfl)
    by_cases set : deadline = 0
    · subst set
      simpa [SnapshotEntry.commands, SnapshotEntry.entry, Cell.live_of_no_deadline] using pushed
    · have onMillisecond := aligned.resolve_left set
      simp only [SnapshotEntry.commands, SnapshotEntry.entry, if_pos set,
        Cell.live_of_deadline _ set]
      rw [Keyspace.executeAll_append, pushed, Keyspace.executeAll, List.foldl_cons, List.foldl_nil,
        execute_pexpireat onMillisecond]
      simp only [Keyspace.live, Function.update_self, Cell.live_of_no_deadline, Cell.expireAt,
        Function.update_idem]
      split <;> rfl

/-- A deadline that can be written and a list that is not empty. -/
def SnapshotEntry.Restorable (copy : SnapshotEntry) : Prop :=
  Deadline.Aligned copy.expiresAt ∧ (copy.kind = .list → copy.list ≠ [])

/-- The commands of several copies bring their keys back and touch no others. -/
theorem executeAll_copies (keyspace : Keyspace) (clock : Clock) {copies : List SnapshotEntry}
    (distinct : (copies.map SnapshotEntry.key).Nodup)
    (restorable : ∀ copy ∈ copies, copy.Restorable)
    (absent : ∀ copy ∈ copies, keyspace copy.key = none) :
    let restored := keyspace.executeAll clock (copies.flatMap SnapshotEntry.commands)
    (∀ copy ∈ copies, restored copy.key = Cell.live (some copy.entry) clock.now) ∧
      ∀ key ∉ copies.map SnapshotEntry.key, restored key = keyspace key := by
  induction copies generalizing keyspace with
  | nil => exact ⟨nofun, fun _ _ => rfl⟩
  | cons copy copies inductionHypothesis =>
      rw [List.map_cons, List.nodup_cons] at distinct
      obtain ⟨aligned, nonempty⟩ := restorable copy List.mem_cons_self
      have first := executeAll_commands clock (absent copy List.mem_cons_self) aligned nonempty
      rw [List.flatMap_cons, Keyspace.executeAll_append, first]
      have different : ∀ other ∈ copies, other.key ≠ copy.key := fun other membership same =>
        distinct.1 (same ▸ List.mem_map_of_mem membership)
      obtain ⟨present, untouched⟩ := inductionHypothesis
        (Function.update keyspace copy.key (Cell.live (some copy.entry) clock.now)) distinct.2
        (fun other membership => restorable other (List.mem_cons_of_mem _ membership))
        (fun other membership => by
          rw [Function.update_of_ne (different other membership)]
          exact absent other (List.mem_cons_of_mem _ membership))
      refine ⟨?_, ?_⟩
      · intro other membership
        rcases List.mem_cons.mp membership with rfl | membership
        · rw [untouched _ distinct.1, Function.update_self]
        · exact present other membership
      · intro key missing
        rw [List.map_cons, List.mem_cons, not_or] at missing
        rw [untouched key missing.2, Function.update_of_ne missing.1]

/-- The commands of a snapshot. -/
def Store.snapshotCommands (store : Store) (taken : Clock) (arrange : List Key → List Key) :
    List Command :=
  (store.snapshotEntries taken arrange).flatMap SnapshotEntry.commands

omit [GoTables] in
theorem Store.WellFormed.snapshot_restorable {store : Store} (wellFormed : store.WellFormed)
    {taken : Clock} {arrange : List Key → List Key} (arranged : ∀ keys, (arrange keys).Perm keys)
    (aligned : (store.view taken).Aligned) {copy : SnapshotEntry}
    (membership : copy ∈ store.snapshotEntries taken arrange) : copy.Restorable := by
  have shown := wellFormed.view_of_snapshot arranged membership
  refine ⟨aligned copy.key copy.entry shown, ?_⟩
  intro kind empty
  refine wellFormed.noEmptyList taken copy.key copy.expiresAt ?_
  rw [shown, SnapshotEntry.entry, kind, empty]

/-- The commands of a snapshot, executed at any later time on an empty store,
bring back what is alive then. -/
theorem Store.WellFormed.restore_snapshot {store : Store} (wellFormed : store.WellFormed)
    {taken clock : Clock} {arrange : List Key → List Key}
    (arranged : ∀ keys, (arrange keys).Perm keys) (aligned : (store.view taken).Aligned)
    (ordered : taken ≤ clock) :
    (Store.new.executeAll ((store.snapshotCommands taken arrange).map (Step.mk clock))).view clock =
      store.view clock := by
  have represents := (Represents.new clock).executeAll (store.snapshotCommands taken arrange)
  obtain ⟨present, untouched⟩ := executeAll_copies (fun _ => none) clock
    (wellFormed.snapshot_nodup taken arranged)
    (fun copy membership => wellFormed.snapshot_restorable arranged aligned membership)
    (fun _ _ => rfl)
  rw [represents.view, Store.view_later _ ordered]
  funext key
  cases shown : store.view taken key with
  | none =>
      have missing : key ∉ (store.snapshotEntries taken arrange).map SnapshotEntry.key := by
        intro membership
        obtain ⟨copy, inside, rfl⟩ := List.mem_map.mp membership
        rw [wellFormed.view_of_snapshot arranged inside] at shown
        cases shown
      simp only [Keyspace.live, Store.snapshotCommands, untouched key missing, shown]
  | some entry =>
      obtain ⟨copy, inside, rfl⟩ := Store.snapshot_of_view arranged shown
      rw [wellFormed.view_of_snapshot arranged inside] at shown
      cases shown
      simp only [Keyspace.live, Store.snapshotCommands, present copy inside,
        wellFormed.view_of_snapshot arranged inside, Cell.live_self]

/-! ## Stores of canonical commands -/

omit [GoTables] in
theorem StoreCall.Aligned.sets {Result : Type} {call : StoreCall Result} (aligned : call.Aligned)
    (clock : Clock) : call.Sets clock Deadline.Aligned := by
  cases call with
  | set key value duration => exact fun positive => absurd positive (Int.not_lt.mpr aligned)
  | setAt key value expiresAt => exact fun _ => .inr aligned
  | expire key seconds => exact aligned.elim
  | expireAt key expiresAt => exact fun _ => .inr aligned
  | _ => trivial

omit [GoTables] in
/-- No call stores a deadline that has passed. -/
theorem StoreCall.sets_future {Result : Type} (call : StoreCall Result) (clock : Clock) :
    call.Sets clock fun deadline => deadline = 0 ∨ clock.now < deadline := by
  cases call with
  | set key value duration => exact fun positive => .inr (Int.lt_add_of_pos_right _ positive)
  | setAt | expire | expireAt => exact .inr
  | _ => trivial

/-- Canonical commands store deadlines in whole milliseconds only. -/
theorem Store.AllDeadlines.executeAll_canonical {store : Store}
    (all : AllDeadlines Deadline.Aligned store) {steps : List Step}
    (canonical : ∀ step ∈ steps, step.command.Canonical) :
    AllDeadlines Deadline.Aligned (store.executeAll steps) := by
  induction steps generalizing store with
  | nil => exact all
  | cons step steps inductionHypothesis =>
      have makes := (canonical step List.mem_cons_self).direct.makes_aligned
      have next : AllDeadlines Deadline.Aligned (store.execute step.clock step.command).1 :=
        makes.run_eq (AllDeadlines Deadline.Aligned)
          (fun _ _ aligned all => all.perform (.inl rfl) (aligned.sets step.clock)) all
      exact inductionHypothesis next fun other membership =>
        canonical other (List.mem_cons_of_mem _ membership)

/-- What is stored by commands at one reading of the clock is alive then. -/
theorem Store.AllDeadlines.executeAll_future (clock : Clock) (commands : List Command)
    {store : Store}
    (all : AllDeadlines (fun deadline => deadline = 0 ∨ clock.now < deadline) store) :
    AllDeadlines (fun deadline => deadline = 0 ∨ clock.now < deadline)
      (store.executeAll (commands.map (Step.mk clock))) := by
  induction commands generalizing store with
  | nil => exact all
  | cons command commands inductionHypothesis =>
      exact inductionHypothesis (Program.run_preserves _
        (fun _ call all => all.perform (.inl rfl) (call.sets_future clock)) _ all)

omit [GoTables] in
theorem Store.AllDeadlines.view_aligned {store : Store}
    (all : AllDeadlines Deadline.Aligned store) (clock : Clock) : (store.view clock).Aligned := by
  intro key entry shown
  obtain ⟨obj, stored, rfl⟩ := Option.map_eq_some_iff.mp (Cell.live_eq_some.mp shown).1
  exact all.stored stored

/-- A store of canonical commands comes back from its snapshot at any later
time, and nothing that is expired by then comes back with it. -/
theorem snapshot_restores_store (steps : List Step)
    (canonical : ∀ step ∈ steps, step.command.Canonical) (taken clock : Clock)
    (ordered : taken ≤ clock) (arrange : List Key → List Key)
    (arranged : ∀ keys, (arrange keys).Perm keys) :
    let store := Store.new.executeAll steps
    let restored :=
      Store.new.executeAll ((store.snapshotCommands taken arrange).map (Step.mk clock))
    restored.view clock = store.view clock ∧
      ∀ key obj, restored.peek key = some obj → obj.isExpired clock.now = false := by
  have all : Store.AllDeadlines Deadline.Aligned (Store.new.executeAll steps) :=
    Store.AllDeadlines.new.executeAll_canonical canonical
  refine ⟨(Store.new_wellFormed.executeAll steps).restore_snapshot arranged
    (all.view_aligned taken) ordered, fun key obj stored => ?_⟩
  have future := Store.AllDeadlines.executeAll_future clock
    ((Store.new.executeAll steps).snapshotCommands taken arrange) .new
  rcases future.stored stored with persistent | alive
  · simp [Obj.isExpired, persistent]
  · simp [Obj.isExpired, alive]

end

section

attribute [local instance] GoTables.ascii

/-- A list with a deadline that has not passed. -/
theorem snapshot_restores_store_list :
    let steps : List Step :=
      [⟨⟨50000000, by decide⟩, ⟨bytes "RPUSH", [bytes "k", bytes "a", bytes "b"]⟩⟩,
        ⟨⟨60000000, by decide⟩, ⟨bytes "PEXPIREAT", [bytes "k", bytes "300"]⟩⟩]
    let store := Store.new.executeAll steps
    let clock : Clock := ⟨200000000, by decide⟩
    let restored :=
      Store.new.executeAll ((store.snapshotCommands ⟨100000000, by decide⟩ id).map (Step.mk clock))
    restored.view clock = store.view clock ∧
      ∀ key obj, restored.peek key = some obj → obj.isExpired clock.now = false := by
  refine snapshot_restores_store _ ?_ _ _ (by decide) id fun keys => .refl keys
  simp only [List.mem_cons, List.not_mem_nil, or_false, forall_eq_or_imp, forall_eq]
  exact ⟨⟨by decide +kernel, by decide +kernel, by decide +kernel⟩,
    ⟨by decide +kernel, by decide +kernel, by decide +kernel⟩⟩

end

end Carrot
