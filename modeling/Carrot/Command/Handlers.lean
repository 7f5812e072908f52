import Carrot.Command.Command
import Carrot.Storage.Call

/-!
# Command handlers

Each handler checks its arguments, makes calls of store operations and turns
their results into a reply.  A handler is a program over the store's
operations, so that it runs on stores and on keyspaces alike.
-/

namespace Carrot

abbrev Handler := Program StoreCall Value

/-- Answer without touching the store. -/
abbrev reply (value : Value) : Handler := .done value

/-- Make one call and answer with what it returns. -/
abbrev answer {Result : Type} (call : StoreCall Result) (toReply : Result → Value) : Handler :=
  .call call fun result => .done (toReply result)

def errorValue (text : String) : Value := .error (bytes text)

def okValue : Value := .simpleString (bytes "OK")

def integerValue (number : Int) : Value := .integer (Int64.ofInt number)

def stringArray (values : List Bytes) : Value := .array (values.map .bulkString)

def optionalBulk : Option Bytes → Value
  | none => .nullBulkString
  | some value => .bulkString value

def StorageError.text : StorageError → Bytes
  | .wrongType => bytes "WRONGTYPE Operation against a key holding the wrong kind of value"
  | .noSuchKey => bytes "no such key"
  | .listIndexRange => bytes "list index out of range"
  | .invalidRank => bytes "invalid rank"

def storageError : StorageError → Value
  | .wrongType => .error (StorageError.text .wrongType)
  | .noSuchKey => errorValue "ERR no such key"
  | .listIndexRange => errorValue "ERR index out of range"
  | error => .error (bytes "ERR " ++ error.text)

/-- The reply to a result, or to the error in its place. -/
def orStorageError {Result : Type} (toReply : Result → Value) : Except StorageError Result → Value
  | .error error => storageError error
  | .ok result => toReply result

def notAnInteger : Value := errorValue "ERR value is not an integer or out of range"

def syntaxError : Value := errorValue "ERR syntax error"

/-- Continue with an integer argument. -/
def withInteger (argument : Bytes) (next : Int → Handler) : Handler :=
  match Decimal.parseInt argument with
  | .error _ => reply notAnInteger
  | .ok number => next number

def handlePing : List Bytes → Value
  | [] => .simpleString (bytes "PONG")
  | [message] => .bulkString message
  | _ => errorValue "ERR wrong number of arguments for 'ping' command"

def handleGet : List Bytes → Handler
  | [key] => answer (.getString key) (orStorageError optionalBulk)
  | _ => reply (errorValue "ERR wrong number of arguments for 'get' command")

/-- What the options of `SET` have asked for so far. -/
structure SetExpiry where
  ttl : Int
  expiresAt : Int
  hasAbsoluteExpiry : Bool
  deriving DecidableEq

def SetExpiry.none : SetExpiry := ⟨0, 0, false⟩

def invalidExpireTime : Value := errorValue "ERR invalid expire time in 'set' command"

/-- A relative expiration of so many units of time. -/
def relativeExpiry (argument : Bytes) (unit : Int) : Except Value SetExpiry :=
  match Decimal.parseInt argument with
  | .error _ => .error invalidExpireTime
  | .ok amount =>
      if amount ≤ 0 ∨ amount > maxInt64 / unit then .error invalidExpireTime
      else .ok ⟨amount * unit, 0, false⟩

def absoluteExpiry (argument : Bytes) : Except Value SetExpiry :=
  match Decimal.parseInt argument with
  | .error _ => .error invalidExpireTime
  | .ok milliseconds => .ok ⟨0, Time.unixMilli milliseconds, true⟩

section

variable [GoTables]

/-- What an option of `SET` does with the word after it. -/
def setOption (option : Bytes) : Option (Bytes → Except Value SetExpiry) :=
  if toUpper option = bytes "EX" then some fun argument => relativeExpiry argument Time.second
  else if toUpper option = bytes "PX" then
    some fun argument => relativeExpiry argument Time.millisecond
  else if toUpper option = bytes "PXAT" then some absoluteExpiry
  else none

/-- The options of `SET`; the last one wins. -/
def parseSetOptions : List Bytes → SetExpiry → Except Value SetExpiry
  | [], expiry => .ok expiry
  | [_], _ => .error syntaxError
  | option :: argument :: rest, _ =>
      match setOption option with
      | none => .error syntaxError
      | some expiration =>
          match expiration argument with
          | .error error => .error error
          | .ok expiry => parseSetOptions rest expiry

def handleSet : List Bytes → Handler
  | key :: value :: options =>
      match parseSetOptions options SetExpiry.none with
      | .error error => reply error
      | .ok expiry =>
          if expiry.hasAbsoluteExpiry then
            answer (.setAt key value expiry.expiresAt) fun _ => okValue
          else answer (.set key value expiry.ttl) fun _ => okValue
  | _ => reply (errorValue "ERR wrong number of arguments for 'set' command")

end

def handleTtl : List Bytes → Handler
  | [key] => answer (.ttl key) integerValue
  | _ => reply (errorValue "ERR wrong number of arguments for 'ttl' command")

/-- Delete keys one by one and count those that were there. -/
def deleteKeys : List Bytes → Int → Handler
  | [], countDeleted => reply (integerValue countDeleted)
  | key :: keys, countDeleted =>
      .call (.del key) fun deleted =>
        deleteKeys keys (if deleted then countDeleted + 1 else countDeleted)

def handleDel (args : List Bytes) : Handler :=
  if args.length = 0 then reply (errorValue "ERR wrong number of arguments for 'del' command")
  else deleteKeys args 0

def flag (condition : Bool) : Value := integerValue (if condition then 1 else 0)

def handleExpire : List Bytes → Handler
  | [key, argument] =>
      withInteger argument fun seconds =>
        if seconds > maxInt64 / Time.second then reply notAnInteger
        else answer (.expire key seconds) flag
  | _ => reply (errorValue "ERR wrong number of arguments for 'expire' command")

def handleExpireAt : List Bytes → Handler
  | [key, argument] =>
      withInteger argument fun milliseconds =>
        answer (.expireAt key (Time.unixMilli milliseconds)) flag
  | _ => reply (errorValue "ERR wrong number of arguments for 'pexpireat' command")

/-! ## Lists -/

def parseListDirection [GoTables] (argument : Bytes) : Option Bool :=
  if toUpper argument = bytes "LEFT" then some true
  else if toUpper argument = bytes "RIGHT" then some false
  else none

/-- The options of `LPOS`. -/
structure PositionOptions where
  rank : Int
  count : Int
  maxLen : Int
  countSpecified : Bool
  deriving DecidableEq

def PositionOptions.default : PositionOptions := ⟨1, 1, 0, false⟩

section

variable [GoTables]

/-- The complaint about the number of arguments, with the name in lower case. -/
def wrongArguments (verb : Verb) : Value :=
  .error (bytes "ERR wrong number of arguments for '" ++ toLower verb.name ++ bytes "' command")

def handleListPush (verb : Verb) : List Bytes → Handler
  | key :: value :: values =>
      let left := verb = .lpush ∨ verb = .lpushx
      let onlyExisting := verb = .lpushx ∨ verb = .rpushx
      answer (.listPush key (value :: values) (List.cons_ne_nil value values) left onlyExisting)
        (orStorageError integerValue)
  | _ => reply (wrongArguments verb)

def handleListPop (verb : Verb) : List Bytes → Handler
  | [key] =>
      answer (.listPop key (verb = .lpop) 1 (by decide))
        (orStorageError fun values => optionalBulk values.head?)
  | [key, argument] =>
      withInteger argument fun count =>
        if negative : count < 0 then
          reply (errorValue "ERR count must be a positive integer")
        else
          answer (.listPop key (verb = .lpop) count (Int.not_lt.mp negative))
            (orStorageError stringArray)
  | _ => reply (wrongArguments verb)

def parsePositionOptions : List Bytes → PositionOptions → Except Value PositionOptions
  | [], options => .ok options
  | [_], _ => .error syntaxError
  | option :: argument :: rest, options =>
      match Decimal.parseInt argument with
      | .error _ => .error notAnInteger
      | .ok value =>
          if toUpper option = bytes "RANK" then
            if value = 0 ∨ value = minInt64 then .error (errorValue "ERR RANK can't be zero")
            else parsePositionOptions rest { options with rank := value }
          else if toUpper option = bytes "COUNT" then
            if value < 0 then .error (errorValue "ERR COUNT can't be negative")
            else
              parsePositionOptions rest { options with count := value, countSpecified := true }
          else if toUpper option = bytes "MAXLEN" then
            if value < 0 then .error (errorValue "ERR MAXLEN can't be negative")
            else parsePositionOptions rest { options with maxLen := value }
          else .error syntaxError

/-- One position, or all of them when a count other than one was asked for. -/
def positionsValue (options : PositionOptions) (positions : List Int) : Value :=
  if !options.countSpecified || options.count = 1 then
    match positions with
    | [] => .nullBulkString
    | position :: _ => integerValue position
  else .array (positions.map integerValue)

def handleListPosition : List Bytes → Handler
  | key :: value :: rest =>
      match parsePositionOptions rest .default with
      | .error error => reply error
      | .ok options =>
          answer (.listPosition key value options.rank options.count options.maxLen)
            (orStorageError (positionsValue options))
  | _ => reply (errorValue "ERR wrong number of arguments for 'lpos' command")

def handleListCommand (verb : Verb) (args : List Bytes) : Handler :=
  match verb with
  | .lpush | .rpush | .lpushx | .rpushx => handleListPush verb args
  | .lpop | .rpop => handleListPop verb args
  | .llen =>
      match args with
      | [key] => answer (.listLen key) (orStorageError integerValue)
      | _ => reply (wrongArguments verb)
  | .lrange =>
      match args with
      | [key, first, second] =>
          withInteger first fun start => withInteger second fun stop =>
            answer (.listRange key start stop) (orStorageError stringArray)
      | _ => reply (errorValue "ERR wrong number of arguments for 'lrange' command")
  | .lindex =>
      match args with
      | [key, argument] =>
          withInteger argument fun index =>
            answer (.listIndex key index) (orStorageError optionalBulk)
      | _ => reply (errorValue "ERR wrong number of arguments for 'lindex' command")
  | .lset =>
      match args with
      | [key, argument, value] =>
          withInteger argument fun index =>
            answer (.listSet key index value) (orStorageError fun _ => okValue)
      | _ => reply (errorValue "ERR wrong number of arguments for 'lset' command")
  | .ltrim =>
      match args with
      | [key, first, second] =>
          withInteger first fun start => withInteger second fun stop =>
            answer (.listTrim key start stop) (orStorageError fun _ => okValue)
      | _ => reply (errorValue "ERR wrong number of arguments for 'ltrim' command")
  | .lrem =>
      match args with
      | [key, argument, value] =>
          withInteger argument fun count =>
            answer (.listRem key count value) (orStorageError integerValue)
      | _ => reply (errorValue "ERR wrong number of arguments for 'lrem' command")
  | .linsert =>
      match args with
      | [key, place, pivot, value] =>
          let before := equalFold place (bytes "BEFORE")
          if !before && !equalFold place (bytes "AFTER") then reply syntaxError
          else answer (.listInsert key pivot value before) (orStorageError integerValue)
      | _ => reply (errorValue "ERR wrong number of arguments for 'linsert' command")
  | .lmove =>
      match args with
      | [source, destination, wherefrom, whereto] =>
          match parseListDirection wherefrom, parseListDirection whereto with
          | some fromLeft, some toLeft =>
              answer (.listMove source destination fromLeft toLeft) (orStorageError optionalBulk)
          | _, _ => reply syntaxError
      | _ => reply (errorValue "ERR wrong number of arguments for 'lmove' command")
  | .rpoplpush =>
      match args with
      | [source, destination] =>
          answer (.listMove source destination false true) (orStorageError optionalBulk)
      | _ => reply (errorValue "ERR wrong number of arguments for 'rpoplpush' command")
  | .lpos => handleListPosition args
  | verb => reply (.error (bytes "ERR unknown list command " ++ GoTables.quote verb.name))

/-- The reply to a name that the executor does not know. -/
def unknownCommand (name : Bytes) : Value :=
  .error (bytes "ERR unknown command '" ++ toLower name ++ bytes "'")

/-- Dispatch a command to its handler. -/
def execute (command : Command) : Handler :=
  match command.verb with
  | some .ping => reply (handlePing command.args)
  | some .get => handleGet command.args
  | some .set => handleSet command.args
  | some .ttl => handleTtl command.args
  | some .del => handleDel command.args
  | some .expire => handleExpire command.args
  | some .pexpireat => handleExpireAt command.args
  | some verb => handleListCommand verb command.args
  | none => reply (unknownCommand command.name)

end

end Carrot
