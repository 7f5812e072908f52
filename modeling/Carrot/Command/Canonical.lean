import Carrot.Command.Calls
import Carrot.Command.Execute
import Carrot.Keyspace.Alignment

/-!
# Canonical mutations

The commands that the append-only file holds give expirations only as absolute
instants in milliseconds.  Each of them makes one call of the store, or deletes
keys one by one.
-/

namespace Carrot

/-- The handlers of mutations with absolute expirations. -/
inductive Handler.Direct : Handler → Prop where
  | reply (value : Value) : Direct (.done value)
  | answer {Result : Type} (call : StoreCall Result) (toReply : Result → Value)
      (aligned : call.Aligned) : Direct (Carrot.answer call toReply)
  | delete (keys : List Bytes) (count : Int) : Direct (deleteKeys keys count)

variable [GoTables]

/-- The words in the places of options. -/
def optionNames : List Bytes → List Bytes
  | [] => []
  | [option] => [option]
  | option :: _ :: rest => option :: optionNames rest

/-- A mutation that gives expirations only as absolute instants. -/
structure Command.Canonical (command : Command) : Prop where
  mutation : isMutation command.name = true
  notExpire : command.verb ≠ some .expire
  absolute : command.verb = some .set → ∀ option ∈ optionNames (command.args.drop 2),
    toUpper option ≠ bytes "EX" ∧ toUpper option ≠ bytes "PX"

/-- What `SET` may ask for in a canonical mutation. -/
def SetExpiry.Aligned (expiry : SetExpiry) : Prop :=
  if expiry.hasAbsoluteExpiry then OnMillisecond expiry.expiresAt else expiry.ttl ≤ 0

omit [GoTables] in
theorem onMillisecond_of_parseInt {argument : Bytes} {milliseconds : Int}
    (parsed : Decimal.parseInt argument = .ok milliseconds) :
    OnMillisecond (Time.unixMilli milliseconds) :=
  ⟨milliseconds, (Decimal.parseInt_bounds parsed).1, (Decimal.parseInt_bounds parsed).2, rfl⟩

omit [GoTables] in
theorem absoluteExpiry_aligned {argument : Bytes} {expiry : SetExpiry}
    (parsed : absoluteExpiry argument = .ok expiry) : expiry.Aligned := by
  unfold absoluteExpiry at parsed
  split at parsed
  next => cases parsed
  next read =>
    cases parsed
    exact onMillisecond_of_parseInt read

/-- Without relative options `SET` sets no time to live. -/
theorem parseSetOptions_aligned {options : List Bytes} {before after : SetExpiry}
    (absolute : ∀ option ∈ optionNames options,
      toUpper option ≠ bytes "EX" ∧ toUpper option ≠ bytes "PX")
    (aligned : before.Aligned) (parsed : parseSetOptions options before = .ok after) :
    after.Aligned := by
  induction options using optionNames.induct generalizing before with
  | case1 =>
      cases parsed
      exact aligned
  | case2 option => cases parsed
  | case3 option argument rest inductionHypothesis =>
      obtain ⟨notEx, notPx⟩ := absolute option List.mem_cons_self
      have others : ∀ other ∈ optionNames rest,
          toUpper other ≠ bytes "EX" ∧ toUpper other ≠ bytes "PX" :=
        fun other membership => absolute other (List.mem_cons_of_mem _ membership)
      simp only [parseSetOptions, setOption, if_neg notEx, if_neg notPx] at parsed
      split at parsed
      next => cases parsed
      next expiration chosen =>
        split_ifs at chosen
        cases chosen
        split at parsed
        next => cases parsed
        next expiry read => exact inductionHypothesis others (absoluteExpiry_aligned read) parsed

omit [GoTables] in
theorem Handler.Direct.withInteger {argument : Bytes} {next : Int → Handler}
    (direct : ∀ number, Decimal.parseInt argument = .ok number → (next number).Direct) :
    (Carrot.withInteger argument next).Direct := by
  unfold Carrot.withInteger
  split
  next => exact .reply _
  next number parsed => exact direct number parsed

theorem handleSet_direct {args : List Bytes}
    (absolute : ∀ option ∈ optionNames (args.drop 2),
      toUpper option ≠ bytes "EX" ∧ toUpper option ≠ bytes "PX") : (handleSet args).Direct := by
  unfold handleSet
  split
  next key value options =>
    split
    next => exact .reply _
    next expiry parsed =>
      have aligned := parseSetOptions_aligned absolute (le_refl 0) parsed
      unfold SetExpiry.Aligned at aligned
      split
      next isAbsolute =>
        rw [if_pos isAbsolute] at aligned
        exact .answer _ _ aligned
      next isRelative =>
        rw [if_neg isRelative] at aligned
        exact .answer _ _ aligned
  next => exact .reply _

omit [GoTables] in
/-- Only `SET` and the commands about deadlines set any. -/
theorem Verb.Calls.aligned {verb : Verb} {Result : Type} {call : StoreCall Result}
    {toReply : Result → Value} (calls : verb.Calls call toReply)
    (timeless : verb ≠ .set ∧ verb ≠ .expire ∧ verb ≠ .pexpireat) : call.Aligned := by
  cases calls with
  | set | setAt => exact absurd rfl timeless.1
  | expire => exact absurd rfl timeless.2.1
  | expireAt => exact absurd rfl timeless.2.2
  | _ => trivial

omit [GoTables] in
theorem Handler.Serves.direct {verb : Verb} {handler : Handler} (serves : handler.Serves verb)
    (timeless : verb ≠ .set ∧ verb ≠ .expire ∧ verb ≠ .pexpireat) : handler.Direct := by
  cases serves with
  | replies value => exact .reply value
  | answers calls => exact .answer _ _ (calls.aligned timeless)
  | deletes _ keys count => exact .delete keys count

theorem Command.Canonical.of_verb {command : Command} {verb : Verb}
    (known : command.verb = some verb) (mutation : verb.isMutation = true)
    (notExpire : verb ≠ .expire)
    (absolute : verb = .set → ∀ option ∈ optionNames (command.args.drop 2),
      toUpper option ≠ bytes "EX" ∧ toUpper option ≠ bytes "PX") : command.Canonical where
  mutation := by
    change command.verb.any Verb.isMutation = true
    rw [known]
    exact mutation
  notExpire := by
    rw [known]
    simpa using notExpire
  absolute isSet := by
    rw [known, Option.some.injEq] at isSet
    exact absolute isSet

/-- The parser reads the name of a canonical command as it is. -/
theorem Command.Canonical.upper {command : Command} (canonical : command.Canonical) :
    toUpper command.name = command.name := by
  obtain ⟨verb, isVerb⟩ := verb_of_mutation canonical.mutation
  rw [isVerb, verb.toUpper_name]

/-- A canonical mutation makes one call without a relative expiration, or
deletes keys. -/
theorem Command.Canonical.direct {command : Command} (canonical : command.Canonical) :
    (execute command).Direct := by
  obtain ⟨verb, isVerb⟩ := verb_of_mutation canonical.mutation
  have known : command.verb = some verb := by
    rw [Command.verb, isVerb, Verb.ofName_name]
  by_cases isSet : verb = .set
  · subst isSet
    simp only [execute, known]
    exact handleSet_direct (canonical.absolute known)
  by_cases isExpireAt : verb = .pexpireat
  · subst isExpireAt
    simp only [execute, known, handleExpireAt]
    split
    next => exact .withInteger fun _ parsed => .answer _ _ (onMillisecond_of_parseInt parsed)
    next => exact .reply _
  · have notExpire : verb ≠ .expire := by
      rintro rfl
      exact canonical.notExpire known
    exact (execute_serves known).direct ⟨isSet, notExpire, isExpireAt⟩

/-! ## Effects -/

omit [GoTables] in
theorem Handler.Direct.makes_aligned {handler : Handler} (direct : handler.Direct) :
    handler.Makes StoreCall.Aligned := by
  cases direct with
  | reply value => trivial
  | answer call toReply aligned => exact ⟨aligned, fun _ => trivial⟩
  | delete keys count =>
      induction keys generalizing count with
      | nil => trivial
      | cons key keys inductionHypothesis =>
          exact ⟨trivial, fun deleted => inductionHypothesis _⟩

/-- A canonical mutation keeps all deadlines in whole milliseconds. -/
theorem Command.Canonical.aligned {command : Command} (canonical : command.Canonical)
    {keyspace : Keyspace} (aligned : keyspace.Aligned) (clock : Clock) :
    (keyspace.execute clock command).1.Aligned :=
  canonical.direct.makes_aligned.run_eq Keyspace.Aligned
    (fun _ _ callAligned aligned => aligned.perform clock callAligned) aligned

/-- A command whose calls only read leaves the view alone. -/
theorem Store.WellFormed.execute_reads {store : Store} (wellFormed : store.WellFormed)
    {clock later : Clock} (ordered : clock ≤ later) {command : Command}
    (reads : (Carrot.execute command).Makes StoreCall.Reads) :
    (store.execute clock command).1.view later = store.view later := by
  have unchanged : (store.execute clock command).1.WellFormed ∧
      (store.execute clock command).1.view clock = store.view clock := by
    refine reads.run_eq
      (fun after : Store => after.WellFormed ∧ after.view clock = store.view clock) ?_
      ⟨wellFormed, rfl⟩
    rintro Result after call callReads ⟨consistent, same⟩
    have represents := ((consistent.represents clock).perform call).1
    have settled : (after.view clock).live clock = after.view clock := Keyspace.live_self _ clock
    refine ⟨represents.wellFormed, represents.view.trans ?_⟩
    rw [Keyspace.perform_reads settled (consistent.noEmptyList clock) callReads, settled, same]
  rw [Store.view_later _ ordered, unchanged.2, ← Store.view_later _ ordered]

end Carrot
