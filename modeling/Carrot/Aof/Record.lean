import Carrot.Command.Canonical
import Carrot.Library.BufferedWriter

/-!
# Records of the append-only file

A mutation is made canonical before it is written: relative expirations become
absolute ones.  A record is the command as an array of bulk strings, and no
record is longer than what recovery reads.
-/

namespace Carrot

section

variable [GoTables]

/-! ## Canonical commands -/

/-- The absolute deadline, in milliseconds, of a relative expiration. -/
def absoluteDeadline (now : Clock) (argument : Bytes) (unit : Int) : Option Bytes :=
  match Decimal.parseInt argument with
  | .error _ => none
  | .ok amount =>
      if amount ≤ 0 ∨ amount > maxInt64 / unit then none
      else some (Decimal.formatInt (Time.toUnixMilli (now.now + amount * unit)))

def canonicalOption (now : Clock) (option argument : Bytes) : Option (Bytes × Bytes) :=
  if toUpper option = bytes "EX" then
    (absoluteDeadline now argument Time.second).map fun deadline => (bytes "PXAT", deadline)
  else if toUpper option = bytes "PX" then
    (absoluteDeadline now argument Time.millisecond).map fun deadline => (bytes "PXAT", deadline)
  else if toUpper option = bytes "PXAT" then
    match Decimal.parseInt argument with
    | .error _ => none
    | .ok _ => some (option, argument)
  else none

def canonicalOptions (now : Clock) : List Bytes → Option (List Bytes)
  | [] => some []
  | [_] => none
  | option :: argument :: rest =>
      match canonicalOption now option argument with
      | none => none
      | some (option, argument) =>
          (canonicalOptions now rest).map fun rest => option :: argument :: rest

def canonicalSet (now : Clock) : List Bytes → Option (List Bytes)
  | key :: value :: options =>
      (canonicalOptions now options).map fun options => key :: value :: options
  | _ => none

omit [GoTables] in
/-- The arguments of the `PEXPIREAT` that stands for an `EXPIRE`. -/
def canonicalExpire (now : Clock) : List Bytes → Option (List Bytes)
  | [key, argument] =>
      match Decimal.parseInt argument with
      | .error _ => none
      | .ok seconds =>
          if seconds > maxInt64 / Time.second then none
          else
            let deadline := if seconds > 0 then now.now + seconds * Time.second else now.now
            some [key, Decimal.formatInt (Time.toUnixMilli deadline)]
  | _ => none

/-- The form in which a mutation is recorded, or nothing for a command that
must not be recorded. -/
def canonicalCommand (command : Command) (now : Clock) : Option Command :=
  match command.verb with
  | some .set => (canonicalSet now command.args).map fun args => ⟨command.name, args⟩
  | some .expire => (canonicalExpire now command.args).map fun args => ⟨Verb.pexpireat.name, args⟩
  | some .del => if command.args.length = 0 then none else some command
  | _ => if isMutation command.name then some command else none

theorem toUpper_pxat : toUpper (bytes "PXAT") = bytes "PXAT" :=
  toUpper_eq_self (by decide +kernel)

theorem canonicalOption_pxat {now : Clock} {option argument : Bytes} {result : Bytes × Bytes}
    (canonical : canonicalOption now option argument = some result) :
    toUpper result.1 = bytes "PXAT" := by
  unfold canonicalOption at canonical
  split_ifs at canonical with ex px pxat
  · obtain ⟨_, _, rfl⟩ := Option.map_eq_some_iff.mp canonical
    exact toUpper_pxat
  · obtain ⟨_, _, rfl⟩ := Option.map_eq_some_iff.mp canonical
    exact toUpper_pxat
  · split at canonical
    next => cases canonical
    next =>
      cases canonical
      exact pxat

theorem canonicalOptions_pxat {now : Clock} {options canonical : List Bytes}
    (result : canonicalOptions now options = some canonical) :
    ∀ option ∈ optionNames canonical, toUpper option = bytes "PXAT" := by
  induction options using optionNames.induct generalizing canonical with
  | case1 =>
      cases result
      simp [optionNames]
  | case2 option => cases result
  | case3 option argument rest inductionHypothesis =>
      simp only [canonicalOptions] at result
      split at result
      next => cases result
      next option' argument' first =>
        obtain ⟨others, tail, rfl⟩ := Option.map_eq_some_iff.mp result
        intro name membership
        rcases List.mem_cons.mp membership with rfl | membership
        · exact canonicalOption_pxat first
        · exact inductionHypothesis tail name membership

/-- What is recorded is a canonical mutation. -/
theorem canonicalCommand_canonical {command canonical : Command} {now : Clock}
    (result : canonicalCommand command now = some canonical) : canonical.Canonical := by
  unfold canonicalCommand at result
  split at result
  next isSet =>
    obtain ⟨args, found, rfl⟩ := Option.map_eq_some_iff.mp result
    have known : Command.verb ⟨command.name, args⟩ = some .set := isSet
    refine .of_verb known rfl (by decide) fun _ option membership => ?_
    unfold canonicalSet at found
    split at found
    next =>
      obtain ⟨others, tail, rfl⟩ := Option.map_eq_some_iff.mp found
      rw [canonicalOptions_pxat tail option membership]
      decide
    next => cases found
  next =>
    obtain ⟨args, -, rfl⟩ := Option.map_eq_some_iff.mp result
    exact .of_verb Verb.pexpireat.ofName_name rfl (by decide) nofun
  next isDel =>
    split at result
    next => cases result
    next =>
      cases result
      exact .of_verb isDel rfl (by decide) nofun
  next notSet notExpire _ =>
    split at result
    next mutation =>
      cases result
      exact ⟨mutation, notExpire, fun isSet => absurd isSet notSet⟩
    next => cases result

/-! ## Commands that are not recorded -/

omit [GoTables] in
theorem relativeExpiry_of_rejected {now : Clock} {argument : Bytes} {unit : Int}
    (rejected : absoluteDeadline now argument unit = none) :
    relativeExpiry argument unit = .error invalidExpireTime := by
  unfold absoluteDeadline at rejected
  unfold relativeExpiry
  split
  next => rfl
  next amount parsed =>
    simp only [parsed] at rejected
    split at rejected
    next invalid => rw [if_pos invalid]
    next => cases rejected

omit [GoTables] in
theorem relativeExpiry_error {argument : Bytes} {unit : Int} {error : Value}
    (failed : relativeExpiry argument unit = .error error) : error = invalidExpireTime := by
  unfold relativeExpiry at failed
  split at failed
  next =>
    cases failed
    rfl
  next =>
    split at failed
    next =>
      cases failed
      rfl
    next => cases failed

omit [GoTables] in
theorem absoluteExpiry_error {argument : Bytes} {error : Value}
    (failed : absoluteExpiry argument = .error error) : error = invalidExpireTime := by
  unfold absoluteExpiry at failed
  split at failed
  next =>
    cases failed
    rfl
  next => cases failed

/-- An option of `SET` fails with an error reply. -/
theorem setOption_error {option argument : Bytes} {expiration : Bytes → Except Value SetExpiry}
    {error : Value} (known : setOption option = some expiration)
    (failed : expiration argument = .error error) : ∃ text, error = .error text := by
  unfold setOption at known
  split_ifs at known
  · cases known
    exact ⟨_, relativeExpiry_error failed⟩
  · cases known
    exact ⟨_, relativeExpiry_error failed⟩
  · cases known
    exact ⟨_, absoluteExpiry_error failed⟩

/-- An option that is not recorded is one that `SET` refuses. -/
theorem setOption_of_rejected {now : Clock} {option argument : Bytes}
    (rejected : canonicalOption now option argument = none)
    {expiration : Bytes → Except Value SetExpiry} (known : setOption option = some expiration) :
    expiration argument = .error invalidExpireTime := by
  unfold canonicalOption at rejected
  unfold setOption at known
  split_ifs at rejected known
  · cases known
    exact relativeExpiry_of_rejected (Option.map_eq_none_iff.mp rejected)
  · cases known
    exact relativeExpiry_of_rejected (Option.map_eq_none_iff.mp rejected)
  · cases known
    cases parsed : Decimal.parseInt argument with
    | error cause => simp only [absoluteExpiry, parsed]
    | ok number => simp [parsed] at rejected

/-- `SET` fails with any options that are not recorded. -/
theorem parseSetOptions_of_rejected {now : Clock} {options : List Bytes}
    (rejected : canonicalOptions now options = none) (before : SetExpiry) :
    ∃ text, parseSetOptions options before = .error (.error text) := by
  induction options using optionNames.induct generalizing before with
  | case1 => cases rejected
  | case2 option => exact ⟨_, rfl⟩
  | case3 option argument rest inductionHypothesis =>
      simp only [canonicalOptions] at rejected
      simp only [parseSetOptions]
      split
      next => exact ⟨_, rfl⟩
      next expiration known =>
        split at rejected
        next first =>
          rw [setOption_of_rejected first known]
          exact ⟨_, rfl⟩
        next =>
          split
          next error failed =>
            obtain ⟨text, rfl⟩ := setOption_error known failed
            exact ⟨text, rfl⟩
          next expiry _ => exact inductionHypothesis (Option.map_eq_none_iff.mp rejected) expiry

theorem handleSet_of_rejected {now : Clock} {args : List Bytes}
    (rejected : canonicalSet now args = none) : ∃ text, handleSet args = reply (.error text) := by
  unfold canonicalSet at rejected
  unfold handleSet
  split
  next key value options =>
    obtain ⟨text, failed⟩ := parseSetOptions_of_rejected (Option.map_eq_none_iff.mp rejected)
      SetExpiry.none
    exact ⟨text, by rw [failed]⟩
  next => exact ⟨_, rfl⟩

omit [GoTables] in
theorem handleExpire_of_rejected {now : Clock} {args : List Bytes}
    (rejected : canonicalExpire now args = none) :
    ∃ text, handleExpire args = reply (.error text) := by
  unfold canonicalExpire at rejected
  unfold handleExpire
  split
  next key argument =>
    unfold withInteger
    split
    next => exact ⟨_, rfl⟩
    next seconds parsed =>
      simp only [parsed] at rejected
      split at rejected
      next large => exact ⟨_, if_pos large⟩
      next => cases rejected
  next => exact ⟨_, rfl⟩

omit [GoTables] in
theorem Verb.Calls.reads {verb : Verb} {Result : Type} {call : StoreCall Result}
    {toReply : Result → Value} (calls : verb.Calls call toReply)
    (notMutation : verb.isMutation = false) : call.Reads := by
  cases calls with
  | getString | ttl | listLen | listRange | listIndex | listPosition => trivial
  | listPush pushes => rcases pushes with rfl | rfl | rfl | rfl <;> cases notMutation
  | listPop pops => rcases pops with rfl | rfl <;> cases notMutation
  | listMove moves => rcases moves with rfl | rfl <;> cases notMutation
  | _ => cases notMutation

/-- A command that is not a mutation makes no call that changes anything. -/
theorem reads_of_not_mutation {command : Command} (reads : isMutation command.name = false) :
    (execute command).Makes StoreCall.Reads := by
  rcases known : command.verb with _ | verb
  · rw [execute_of_unknown known]
    trivial
  · have notMutation : verb.isMutation = false := by
      have any : command.verb.any Verb.isMutation = false := reads
      rwa [known] at any
    refine (execute_serves known).makes (fun calls => calls.reads notMutation) ?_
    rintro rfl
    cases notMutation

/-- A command that is not recorded makes no call that changes anything. -/
theorem reads_of_rejected {command : Command} {now : Clock}
    (rejected : canonicalCommand command now = none) :
    (execute command).Makes StoreCall.Reads := by
  unfold canonicalCommand at rejected
  split at rejected
  next isSet =>
    obtain ⟨error, failed⟩ := handleSet_of_rejected (Option.map_eq_none_iff.mp rejected)
    simp only [execute, isSet, failed]
    trivial
  next isExpire =>
    obtain ⟨error, failed⟩ := handleExpire_of_rejected (Option.map_eq_none_iff.mp rejected)
    simp only [execute, isExpire, failed]
    trivial
  next isDel =>
    split at rejected
    next empty =>
      simp only [execute, isDel, handleDel, if_pos empty]
      trivial
    next => cases rejected
  next =>
    split at rejected
    next => cases rejected
    next notMutation => exact reads_of_not_mutation (by simpa using notMutation)

end

/-! ## Records -/

/-- The most bytes that recovery decodes for one command. -/
def maxRecordBytes : Nat := 4 <<< 20

def Command.value (command : Command) : Value :=
  .array ((command.name :: command.args).map .bulkString)

/-- The bytes of the record of a command. -/
def Command.record (command : Command) : Bytes := encode command.value

def recordLimitError : Bytes :=
  bytes "snapshot command exceeds AOF record limit of " ++ Decimal.formatNat maxRecordBytes ++
    bytes " bytes"

/-- Encode a command into a buffer that refuses to grow beyond the limit. -/
def encodeRecord (command : Command) : Except Bytes Bytes :=
  match BufferedWriter.deliver (BufferedWriter.limited maxRecordBytes recordLimitError) 4096 []
      (encodeWrites command.value) with
  | .error (.writing, error) =>
      .error (bytes "encode snapshot command " ++ command.name ++ bytes ": " ++ error)
  | .error (.flushing, error) =>
      .error (bytes "flush encoded snapshot command " ++ command.name ++ bytes ": " ++ error)
  | .ok data => .ok data

/-- A command has a record exactly if the record is not too long. -/
theorem encodeRecord_eq_ok {command : Command} {data : Bytes} :
    encodeRecord command = .ok data ↔
      data = command.record ∧ command.record.length ≤ maxRecordBytes := by
  rw [Command.record, ← flatten_encodeWrites]
  unfold encodeRecord
  constructor
  · intro success
    split at success
    next => cases success
    next => cases success
    next delivered =>
      cases success
      exact BufferedWriter.deliver_limited_iff.mp delivered
  · intro fits
    rw [BufferedWriter.deliver_limited_iff.mpr fits]

end Carrot
