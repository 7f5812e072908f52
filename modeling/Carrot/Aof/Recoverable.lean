import Carrot.Aof.Replay
import Carrot.Command.Tracks
import Carrot.Command.Words

/-!
# Commands that recovery takes

A record is recoverable if recovery reads it back and goes on.  This holds for
what is recorded of a request within the default limit on requests that has fewer
than 1024 arguments, for the deletion of a stored key, and for the snapshot of a
store whose words are short enough.  Larger requests, which a raised limit lets
in, may have records that recovery refuses.
-/

namespace Carrot

/-- A word within the limit on bulk strings. -/
def ShortWord (word : Bytes) : Prop := word.length ≤ 1 <<< 20

theorem shortWord_nil : ShortWord [] := Nat.zero_le _

/-- A deadline in whole milliseconds is written in a short word. -/
theorem OnMillisecond.written_length {instant : Int} (aligned : OnMillisecond instant) :
    (Decimal.formatInt (Time.toUnixMilli instant)).length ≤ 20 := by
  obtain ⟨milliseconds, low, high, rfl⟩ := aligned
  have written := formatInt_length (Int64.ofInt milliseconds)
  rw [Int64.toInt_ofInt_of_le low high] at written
  rwa [Time.toUnixMilli_unixMilli]

section

variable [GoTables]

structure Command.Recoverable (command : Command) : Prop where
  canonical : command.Canonical
  readable : MutationRecord command.record command
  short : ∀ word ∈ command.args, ShortWord word

/-- A request that can be recovered once it is recorded.  Its arguments are within
the default limit on requests, with at most 1 MiB each and 2 MiB in all, and there
are fewer than 1024 of them. -/
structure Command.Modest (command : Command) : Prop where
  small : command.Small
  few : command.args.length < 1024

theorem Command.Canonical.recoverable {command : Command} (canonical : command.Canonical)
    (readsBack : ReadsBack command.record command) (short : ∀ word ∈ command.args, ShortWord word) :
    command.Recoverable := by
  obtain ⟨value, decoded, parsed⟩ := readsBack
  exact ⟨canonical, ⟨value, decoded, parsed, canonical.mutation⟩, short⟩

/-- What is recorded of a request. -/
theorem Command.Modest.recoverable {command canonical : Command} (modest : command.Modest)
    {now : Clock} (recorded : canonicalCommand command now = some canonical) :
    canonical.Recoverable :=
  (canonicalCommand_canonical recorded).recoverable
    (readsBack_of_short modest.small recorded modest.few)
    (canonicalCommand_grows modest.small recorded).each

/-- A canonical command of few words. -/
theorem Command.Canonical.recoverable_of_short {command : Command} (canonical : command.Canonical)
    (few : command.args.length < 1024) (short : ∀ word ∈ command.args, ShortWord word)
    (total : totalLength command.args ≤ 2 <<< 20 + 64) : command.Recoverable := by
  obtain ⟨verb, isVerb⟩ := verb_of_mutation canonical.mutation
  have nameLength := verb.name_length
  refine canonical.recoverable ⟨command.value, decode_record few ?_ ?_, ?_⟩ short
  · rw [isVerb]
    simpa [ShortWord] using ⟨by omega, short⟩
  · rw [isVerb]
    simp only [totalLength, List.map_cons, List.sum_cons] at total ⊢
    omega
  · rw [Command.value, parse_bulk, isVerb, verb.toUpper_name, ← isVerb]

theorem recoverable_delCommand {key : Key} (short : ShortWord key) :
    (delCommand key).Recoverable := by
  refine (delCommand_canonical key).recoverable_of_short ?_ ?_ ?_
  · exact (by decide : 1 < 1024)
  · simpa [delCommand] using short
  · simp only [delCommand, totalLength, List.map_cons, List.map_nil, List.sum_cons, List.sum_nil,
      ShortWord] at short ⊢
    omega

/-! ## Snapshots -/

theorem canonical_of_verb {verb : Verb} {args : List Bytes} (mutation : verb.isMutation = true)
    (notExpire : verb ≠ .expire)
    (absolute : verb = .set → ∀ option ∈ optionNames (args.drop 2),
      toUpper option ≠ bytes "EX" ∧ toUpper option ≠ bytes "PX") :
    Command.Canonical ⟨verb.name, args⟩ :=
  .of_verb (Verb.ofName_name verb) mutation notExpire absolute

/-- The commands for a copy of short words. -/
theorem recoverable_of_copy {copy : SnapshotEntry} (shortKey : ShortWord copy.key)
    (short : ∀ word ∈ copy.entry.content.words, ShortWord word)
    (aligned : Deadline.Aligned copy.expiresAt) {command : Command}
    (membership : command ∈ copy.commands) : command.Recoverable := by
  have deadline : copy.expiresAt ≠ 0 →
      (Decimal.formatInt (Time.toUnixMilli copy.expiresAt)).length ≤ 20 :=
    fun set => (aligned.resolve_left set).written_length
  have shortText : ∀ text : Bytes, text.length ≤ 20 → ShortWord text :=
    fun text bounded => bounded.trans (by decide)
  unfold ShortWord at shortKey
  simp only [SnapshotEntry.commands] at membership
  split at membership
  next kind =>
    have shortValue : copy.value.length ≤ 1 <<< 20 := by
      simp only [SnapshotEntry.entry, kind, Content.words] at short
      exact short copy.value (List.mem_singleton.mpr rfl)
    rw [List.mem_singleton] at membership
    subst membership
    by_cases set : copy.expiresAt ≠ 0
    · have bounded := deadline set
      rw [if_pos set]
      refine (canonical_of_verb rfl (by decide) fun _ => ?_).recoverable_of_short ?_ ?_ ?_
      · simp only [List.cons_append, List.nil_append, List.drop_succ_cons, List.drop_zero,
          optionNames, List.mem_singleton, forall_eq, toUpper_pxat]
        decide
      · exact (by decide : 4 < 1024)
      · simp only [List.cons_append, List.nil_append, List.mem_cons, List.not_mem_nil, or_false,
          forall_eq_or_imp, forall_eq]
        exact ⟨shortKey, shortValue, shortText _ (by decide), shortText _ bounded⟩
      · simp only [List.cons_append, List.nil_append, totalLength, List.map_cons, List.map_nil,
          List.sum_cons, List.sum_nil, show (bytes "PXAT").length = 4 from rfl]
        omega
    · rw [if_neg set, List.append_nil]
      refine (canonical_of_verb rfl (by decide) fun _ => ?_).recoverable_of_short ?_ ?_ ?_
      · simp [optionNames]
      · exact (by decide : 2 < 1024)
      · simpa [ShortWord] using ⟨shortKey, shortValue⟩
      · simp only [totalLength, List.map_cons, List.map_nil, List.sum_cons, List.sum_nil]
        omega
  next kind =>
    rcases List.mem_append.mp membership with pushed | expiring
    · obtain ⟨value, inside, rfl⟩ := List.mem_map.mp pushed
      have shortValue : value.length ≤ 1 <<< 20 := by
        simp only [SnapshotEntry.entry, kind, Content.words] at short
        exact short value inside
      refine (canonical_of_verb rfl (by decide) fun impossible => ?_).recoverable_of_short ?_ ?_ ?_
      · cases impossible
      · exact (by decide : 2 < 1024)
      · simpa [ShortWord] using ⟨shortKey, shortValue⟩
      · simp only [totalLength, List.map_cons, List.map_nil, List.sum_cons, List.sum_nil]
        omega
    · split at expiring
      next set =>
        have bounded := deadline set
        rw [List.mem_singleton] at expiring
        subst expiring
        refine (canonical_of_verb rfl (by decide)
          fun impossible => ?_).recoverable_of_short ?_ ?_ ?_
        · cases impossible
        · exact (by decide : 2 < 1024)
        · simp only [List.mem_cons, List.not_mem_nil, or_false, forall_eq_or_imp, forall_eq]
          exact ⟨shortKey, shortText _ bounded⟩
        · simp only [totalLength, List.map_cons, List.map_nil, List.sum_cons, List.sum_nil]
          omega
      next => cases expiring

/-- The snapshot of a store of short words and whole milliseconds. -/
theorem Store.WellFormed.recoverable_snapshot {store : Store} (wellFormed : store.WellFormed)
    {clock : Clock} (within : store.Within ShortWord clock) (aligned : (store.view clock).Aligned)
    {arrange : List Key → List Key} (arranged : ∀ keys, (arrange keys).Perm keys)
    {command : Command} (membership : command ∈ store.snapshotCommands clock arrange) :
    command.Recoverable := by
  obtain ⟨copy, copied, inside⟩ := List.mem_flatMap.mp membership
  have shown := wellFormed.view_of_snapshot arranged copied
  have stored : store.peek copy.key ≠ none := by
    intro absent
    rw [Store.view_of_missing clock absent] at shown
    cases shown
  exact recoverable_of_copy (within.keys copy.key stored) (within.values copy.key _ shown)
    (aligned copy.key _ shown) inside

/-! ## Recovered stores -/

/-- A store that is rebuilt from recoverable commands. -/
structure Store.Rebuilt (clock : Clock) (store : Store) : Prop where
  wellFormed : store.WellFormed
  aligned : (store.view clock).Aligned
  within : store.Within ShortWord clock

omit [GoTables] in
theorem Store.Rebuilt.later {store : Store} {clock later : Clock}
    (rebuilt : store.Rebuilt clock) (ordered : clock ≤ later) : store.Rebuilt later where
  wellFormed := rebuilt.wellFormed
  aligned := by
    rw [store.view_later ordered]
    exact rebuilt.aligned.live later
  within := rebuilt.within.later ordered

theorem Store.Rebuilt.execute {store : Store} {clock : Clock} (rebuilt : store.Rebuilt clock)
    {command : Command} (recoverable : command.Recoverable) :
    (store.execute clock command).1.Rebuilt clock where
  wellFormed := (rebuilt.wellFormed.execute clock command).wellFormed
  aligned := by
    rw [rebuilt.wellFormed.execute_view (le_refl clock)]
    exact (recoverable.canonical.aligned rebuilt.aligned clock).live clock
  within := rebuilt.within.execute rebuilt.wellFormed shortWord_nil recoverable.short

/-- Recovery at readings that do not go back. -/
theorem rebuilt_stepsAt {readings : Nat → Clock} (ordered : Monotone readings) {later : Clock}
    (before : ∀ index, readings index ≤ later) {commands : List Command}
    (recoverable : ∀ command ∈ commands, command.Recoverable) (index : Nat) {store : Store}
    (rebuilt : store.Rebuilt (readings index)) :
    (store.executeAll (stepsAt readings index commands)).Rebuilt later := by
  induction commands generalizing index store with
  | nil => exact rebuilt.later (before index)
  | cons command commands inductionHypothesis =>
      have first := rebuilt.execute (recoverable command List.mem_cons_self)
      exact inductionHypothesis
        (fun other membership => recoverable other (List.mem_cons_of_mem _ membership)) (index + 1)
        (first.later (ordered (Nat.le_succ index)))

omit [GoTables] in
theorem rebuilt_new (clock : Clock) : Store.new.Rebuilt clock :=
  ⟨Store.new_wellFormed, fun _ => Cell.aligned_none, Store.within_new _ _⟩

end

end Carrot
