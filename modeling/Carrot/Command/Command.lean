import Carrot.Resp.Value

/-!
# Commands

A parsed request, the names that the executor knows and their classification.
-/

namespace Carrot

structure Command where
  name : Bytes
  args : List Bytes
  deriving DecidableEq

/-- The command names that `execute` dispatches on. -/
inductive Verb where
  | ping | get | set | ttl | del | expire | pexpireat
  | lpush | rpush | lpushx | rpushx | lpop | rpop | llen | lrange | lindex | lset | ltrim
  | lrem | linsert | lmove | rpoplpush | lpos
  deriving DecidableEq, Repr

namespace Verb

def name : Verb → Bytes
  | ping => bytes "PING"
  | get => bytes "GET"
  | set => bytes "SET"
  | ttl => bytes "TTL"
  | del => bytes "DEL"
  | expire => bytes "EXPIRE"
  | pexpireat => bytes "PEXPIREAT"
  | lpush => bytes "LPUSH"
  | rpush => bytes "RPUSH"
  | lpushx => bytes "LPUSHX"
  | rpushx => bytes "RPUSHX"
  | lpop => bytes "LPOP"
  | rpop => bytes "RPOP"
  | llen => bytes "LLEN"
  | lrange => bytes "LRANGE"
  | lindex => bytes "LINDEX"
  | lset => bytes "LSET"
  | ltrim => bytes "LTRIM"
  | lrem => bytes "LREM"
  | linsert => bytes "LINSERT"
  | lmove => bytes "LMOVE"
  | rpoplpush => bytes "RPOPLPUSH"
  | lpos => bytes "LPOS"

def all : List Verb :=
  [ping, get, set, ttl, del, expire, pexpireat, lpush, rpush, lpushx, rpushx, lpop, rpop, llen,
    lrange, lindex, lset, ltrim, lrem, linsert, lmove, rpoplpush, lpos]

/-- The case of a `switch` on the command name that is taken. -/
def ofName (name : Bytes) : Option Verb := all.find? fun verb => verb.name = name

def isMutation : Verb → Bool
  | set | del | expire | pexpireat | lpush | rpush | lpushx | rpushx | lpop | rpop | lset | ltrim
  | lrem | linsert | lmove | rpoplpush => true
  | _ => false

def growsMemory : Verb → Bool
  | set | lpush | rpush | lpushx | rpushx | linsert | lset | lmove | rpoplpush => true
  | _ => false

theorem ofName_name (verb : Verb) : ofName verb.name = some verb := by
  cases verb <;> decide

theorem name_of_ofName {name : Bytes} {verb : Verb} (found : ofName name = some verb) :
    verb.name = name := by
  simpa using List.find?_some found

theorem ofName_eq_some {name : Bytes} {verb : Verb} :
    ofName name = some verb ↔ name = verb.name := by
  constructor
  · exact fun found => (name_of_ofName found).symm
  · rintro rfl
    exact verb.ofName_name

end Verb

/-- The verb of a command, if the executor knows it. -/
def Command.verb (command : Command) : Option Verb := Verb.ofName command.name

def isMutation (name : Bytes) : Bool := (Verb.ofName name).any Verb.isMutation

def growsMemory (name : Bytes) : Bool := (Verb.ofName name).any Verb.growsMemory

/-! ## Parsing -/

inductive ParseError where
  | expectedArray
  | emptyCommand
  | nameNotBulk
  | argumentNotBulk
  deriving DecidableEq

def ParseError.text : ParseError → Bytes
  | .expectedArray => bytes "ERR protocol error: expected array"
  | .emptyCommand => bytes "ERR protocol error: empty command"
  | .nameNotBulk => bytes "ERR protocol error: command must be bulk string"
  | .argumentNotBulk => bytes "ERR protocol error: arguments must be bulk strings"

/-- The payload of a bulk string; the null bulk string has an empty one. -/
def Value.bulk? : Value → Option Bytes
  | .bulkString text => some text
  | .nullBulkString => some []
  | _ => none

def parseArguments : List Value → Except ParseError (List Bytes)
  | [] => .ok []
  | value :: values =>
      match value.bulk? with
      | none => .error .argumentNotBulk
      | some argument => (parseArguments values).map (argument :: ·)

variable [GoTables]

/-- Turn an array of bulk strings into a command with an upper-case name. -/
def parse : Value → Except ParseError Command
  | .array [] => .error .emptyCommand
  | .array (first :: rest) =>
      match first.bulk? with
      | none => .error .nameNotBulk
      | some name => (parseArguments rest).map fun args => ⟨toUpper name, args⟩
  | _ => .error .expectedArray

omit [GoTables] in
theorem parseArguments_bulk (args : List Bytes) :
    parseArguments (args.map .bulkString) = .ok args := by
  induction args with
  | nil => rfl
  | cons argument args inductionHypothesis =>
      simp only [List.map_cons, parseArguments, Value.bulk?, inductionHypothesis, Except.map]

theorem parse_bulk (name : Bytes) (args : List Bytes) :
    parse (.array ((name :: args).map .bulkString)) = .ok ⟨toUpper name, args⟩ := by
  simp only [List.map_cons, parse, Value.bulk?, parseArguments_bulk, Except.map]

theorem Verb.toUpper_name (verb : Verb) : toUpper verb.name = verb.name :=
  toUpper_eq_self (by cases verb <;> decide +kernel)

omit [GoTables] in
theorem verb_of_mutation {name : Bytes} (mutation : isMutation name = true) :
    ∃ verb : Verb, name = verb.name := by
  unfold isMutation at mutation
  cases found : Verb.ofName name with
  | none => simp [found] at mutation
  | some verb => exact ⟨verb, (Verb.name_of_ofName found).symm⟩

omit [GoTables] in
/-- A command that needs memory is a mutation. -/
theorem growsMemory_isMutation {name : Bytes} (grows : growsMemory name = true) :
    isMutation name = true := by
  obtain ⟨verb, known, verbGrows⟩ := (Option.any_eq_true _ _).mp grows
  refine (Option.any_eq_true _ _).mpr ⟨verb, known, ?_⟩
  revert verbGrows
  cases verb <;> decide

end Carrot
