import Carrot.Command.Handlers

/-!
# The calls of the handlers

A handler replies at once, makes one call of the store, or deletes keys one by
one.  Which calls it can make, and how it answers their results, depends on the
command only through its name.
-/

namespace Carrot

def Value.isError : Value → Bool
  | .error _ => true
  | _ => false

/-- The calls that the handler of a command can make, with the reply to their
results. -/
inductive Verb.Calls : Verb → {Result : Type} → StoreCall Result → (Result → Value) → Prop where
  | getString (key : Key) : Calls .get (.getString key) (orStorageError optionalBulk)
  | set (key : Key) (value : Bytes) (duration : Int) :
      Calls .set (.set key value duration) fun _ => okValue
  | setAt (key : Key) (value : Bytes) (expiresAt : Int) :
      Calls .set (.setAt key value expiresAt) fun _ => okValue
  | ttl (key : Key) : Calls .ttl (.ttl key) integerValue
  | expire (key : Key) (seconds : Int) : Calls .expire (.expire key seconds) flag
  | expireAt (key : Key) (expiresAt : Int) : Calls .pexpireat (.expireAt key expiresAt) flag
  | listPush {verb : Verb}
      (pushes : verb = .lpush ∨ verb = .rpush ∨ verb = .lpushx ∨ verb = .rpushx) (key : Key)
      (values : List Bytes) (nonempty : values ≠ []) (left onlyExisting : Bool) :
      Calls verb (.listPush key values nonempty left onlyExisting) (orStorageError integerValue)
  | listPop {verb : Verb} (pops : verb = .lpop ∨ verb = .rpop) (key : Key) (left : Bool)
      (count : Int) (nonnegative : 0 ≤ count) {toReply : List Bytes → Value}
      (plain : ∀ values, (toReply values).isError = false) :
      Calls verb (.listPop key left count nonnegative) (orStorageError toReply)
  | listLen (key : Key) : Calls .llen (.listLen key) (orStorageError integerValue)
  | listRange (key : Key) (start stop : Int) :
      Calls .lrange (.listRange key start stop) (orStorageError stringArray)
  | listIndex (key : Key) (position : Int) :
      Calls .lindex (.listIndex key position) (orStorageError optionalBulk)
  | listSet (key : Key) (position : Int) (value : Bytes) :
      Calls .lset (.listSet key position value) (orStorageError fun _ => okValue)
  | listTrim (key : Key) (start stop : Int) :
      Calls .ltrim (.listTrim key start stop) (orStorageError fun _ => okValue)
  | listRem (key : Key) (count : Int) (value : Bytes) :
      Calls .lrem (.listRem key count value) (orStorageError integerValue)
  | listInsert (key : Key) (pivot value : Bytes) (before : Bool) :
      Calls .linsert (.listInsert key pivot value before) (orStorageError integerValue)
  | listMove {verb : Verb} (moves : verb = .lmove ∨ verb = .rpoplpush) (src dst : Key)
      (fromLeft toLeft : Bool) :
      Calls verb (.listMove src dst fromLeft toLeft) (orStorageError optionalBulk)
  | listPosition (key : Key) (value : Bytes) (options : PositionOptions) :
      Calls .lpos (.listPosition key value options.rank options.count options.maxLen)
        (orStorageError (positionsValue options))

/-- What the handler of a command can be. -/
inductive Handler.Serves (verb : Verb) : Handler → Prop where
  | replies (value : Value) : Serves verb (reply value)
  | answers {Result : Type} {call : StoreCall Result} {toReply : Result → Value}
      (calls : verb.Calls call toReply) : Serves verb (answer call toReply)
  | deletes (isDel : verb = .del) (keys : List Bytes) (count : Int) :
      Serves verb (deleteKeys keys count)

theorem Handler.Serves.withInteger {verb : Verb} {argument : Bytes} {next : Int → Handler}
    (serves : ∀ number, (next number).Serves verb) : (withInteger argument next).Serves verb := by
  unfold Carrot.withInteger
  split
  next => exact .replies _
  next number _ => exact serves number

section

variable [GoTables]

theorem handleSet_serves (args : List Bytes) : (handleSet args).Serves .set := by
  unfold handleSet
  split
  next =>
    split
    next => exact .replies _
    next =>
      split
      next => exact .answers (.setAt _ _ _)
      next => exact .answers (.set _ _ _)
  next => exact .replies _

theorem handleListPush_serves {verb : Verb}
    (pushes : verb = .lpush ∨ verb = .rpush ∨ verb = .lpushx ∨ verb = .rpushx)
    (args : List Bytes) : (handleListPush verb args).Serves verb := by
  unfold handleListPush
  split
  next => exact .answers (.listPush pushes _ _ _ _ _)
  next => exact .replies _

theorem handleListPop_serves {verb : Verb} (pops : verb = .lpop ∨ verb = .rpop)
    (args : List Bytes) : (handleListPop verb args).Serves verb := by
  unfold handleListPop
  split
  next =>
    refine .answers (.listPop pops _ _ _ _ fun values => ?_)
    cases values <;> rfl
  next =>
    refine .withInteger fun count => ?_
    split
    next => exact .replies _
    next => exact .answers (.listPop pops _ _ _ _ fun _ => rfl)
  next => exact .replies _

theorem handleListPosition_serves (args : List Bytes) :
    (handleListPosition args).Serves .lpos := by
  unfold handleListPosition
  split
  next =>
    split
    next => exact .replies _
    next => exact .answers (.listPosition _ _ _)
  next => exact .replies _

theorem handleListCommand_serves (verb : Verb) (args : List Bytes) :
    (handleListCommand verb args).Serves verb := by
  unfold handleListCommand
  cases verb with
  | lpush => exact handleListPush_serves (.inl rfl) args
  | rpush => exact handleListPush_serves (.inr (.inl rfl)) args
  | lpushx => exact handleListPush_serves (.inr (.inr (.inl rfl))) args
  | rpushx => exact handleListPush_serves (.inr (.inr (.inr rfl))) args
  | lpop => exact handleListPop_serves (.inl rfl) args
  | rpop => exact handleListPop_serves (.inr rfl) args
  | lpos => exact handleListPosition_serves args
  | llen =>
      dsimp only
      split
      next => exact .answers (.listLen _)
      next => exact .replies _
  | lrange =>
      dsimp only
      split
      next => exact .withInteger fun _ => .withInteger fun _ => .answers (.listRange _ _ _)
      next => exact .replies _
  | lindex =>
      dsimp only
      split
      next => exact .withInteger fun _ => .answers (.listIndex _ _)
      next => exact .replies _
  | lset =>
      dsimp only
      split
      next => exact .withInteger fun _ => .answers (.listSet _ _ _)
      next => exact .replies _
  | ltrim =>
      dsimp only
      split
      next => exact .withInteger fun _ => .withInteger fun _ => .answers (.listTrim _ _ _)
      next => exact .replies _
  | lrem =>
      dsimp only
      split
      next => exact .withInteger fun _ => .answers (.listRem _ _ _)
      next => exact .replies _
  | linsert =>
      dsimp only
      split
      next =>
        split
        next => exact .replies _
        next => exact .answers (.listInsert _ _ _ _)
      next => exact .replies _
  | lmove =>
      dsimp only
      split
      next =>
        split
        next => exact .answers (.listMove (.inl rfl) _ _ _ _)
        next => exact .replies _
      next => exact .replies _
  | rpoplpush =>
      dsimp only
      split
      next => exact .answers (.listMove (.inr rfl) _ _ _ _)
      next => exact .replies _
  | ping | get | set | ttl | del | expire | pexpireat => exact .replies _

/-- What a known command does. -/
theorem execute_serves {command : Command} {verb : Verb} (known : command.verb = some verb) :
    (execute command).Serves verb := by
  unfold execute
  rw [known]
  cases verb with
  | ping => exact .replies _
  | get =>
      dsimp only [handleGet]
      split
      next => exact .answers (.getString _)
      next => exact .replies _
  | set => exact handleSet_serves _
  | ttl =>
      dsimp only [handleTtl]
      split
      next => exact .answers (.ttl _)
      next => exact .replies _
  | del =>
      dsimp only [handleDel]
      split
      next => exact .replies _
      next => exact .deletes rfl _ _
  | expire =>
      dsimp only [handleExpire]
      split
      next =>
        refine .withInteger fun _ => ?_
        split
        next => exact .replies _
        next => exact .answers (.expire _ _)
      next => exact .replies _
  | pexpireat =>
      dsimp only [handleExpireAt]
      split
      next => exact .withInteger fun _ => .answers (.expireAt _ _)
      next => exact .replies _
  | _ => exact handleListCommand_serves _ _

/-- A command whose name is not known makes no call. -/
theorem execute_of_unknown {command : Command} (unknown : command.verb = none) :
    execute command = reply (unknownCommand command.name) := by
  unfold execute
  rw [unknown]

end

/-- A property of the calls of a command holds for all calls that it makes. -/
theorem Handler.Serves.makes {verb : Verb} {handler : Handler} (serves : handler.Serves verb)
    {allowed : ∀ {Result : Type}, StoreCall Result → Prop}
    (calls : ∀ {Result : Type} {call : StoreCall Result} {toReply : Result → Value},
      verb.Calls call toReply → allowed call)
    (deletes : verb = .del → ∀ key, allowed (.del key)) : handler.Makes @allowed := by
  cases serves with
  | replies value => trivial
  | answers called => exact ⟨calls called, fun _ => trivial⟩
  | deletes isDel keys count =>
      induction keys generalizing count with
      | nil => trivial
      | cons key keys inductionHypothesis =>
          exact ⟨deletes isDel key, fun deleted => inductionHypothesis _⟩

end Carrot
