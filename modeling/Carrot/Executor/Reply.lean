import Carrot.Executor.Execute
import Carrot.Resp.Grammar
import Carrot.Resp.Messages

/-!
# Replies

A reply is read back by a client if none of its lines contains a line feed.
The handlers answer with fixed texts and with payloads; only the name of an
unknown command and the errors of the journal put other texts on a line.
-/

namespace Carrot

/-! ## The handlers -/

theorem cleanAll_iff (values : List Value) : CleanAll values ↔ ∀ value ∈ values, value.Clean := by
  induction values with
  | nil => simp [CleanAll]
  | cons value values inductionHypothesis => simp [CleanAll, inductionHypothesis]

theorem integerValue_clean (number : Int) : (integerValue number).Clean := trivial

theorem optionalBulk_clean (value : Option Bytes) : (optionalBulk value).Clean := by
  cases value <;> trivial

theorem stringArray_clean (values : List Bytes) : (stringArray values).Clean := by
  rw [stringArray, Value.Clean, cleanAll_iff]
  rintro _ membership
  obtain ⟨text, -, rfl⟩ := List.mem_map.mp membership
  trivial

theorem errorValue_clean {text : String} (free : 10 ∉ bytes text) : (errorValue text).Clean := free

theorem storageError_clean (error : StorageError) : (storageError error).Clean := by
  cases error with
  | wrongType => exact (by decide : 10 ∉ StorageError.text .wrongType)
  | noSuchKey | listIndexRange => exact errorValue_clean (by decide)
  | invalidRank => exact (by decide : 10 ∉ bytes "ERR " ++ StorageError.text .invalidRank)

theorem orStorageError_clean {Result : Type} {toReply : Result → Value}
    (clean : ∀ result, (toReply result).Clean) (outcome : Except StorageError Result) :
    (orStorageError toReply outcome).Clean := by
  cases outcome with
  | error error => exact storageError_clean error
  | ok result => exact clean result

theorem okValue_clean : okValue.Clean := (by decide : 10 ∉ bytes "OK")

theorem notAnInteger_clean : notAnInteger.Clean := errorValue_clean (by decide)

theorem syntaxError_clean : syntaxError.Clean := errorValue_clean (by decide)

theorem withInteger_clean {argument : Bytes} {next : Int → Handler}
    (clean : ∀ number, (next number).Returns Value.Clean) :
    (withInteger argument next).Returns Value.Clean := by
  unfold withInteger
  split
  next => exact notAnInteger_clean
  next number _ => exact clean number

theorem handlePing_clean (args : List Bytes) : (handlePing args).Clean := by
  unfold handlePing
  split
  · exact (by decide : 10 ∉ bytes "PONG")
  · trivial
  · exact errorValue_clean (by decide)

theorem handleGet_clean (args : List Bytes) : (handleGet args).Returns Value.Clean := by
  unfold handleGet
  split
  · exact orStorageError_clean optionalBulk_clean
  · exact errorValue_clean (by decide)

theorem handleTtl_clean (args : List Bytes) : (handleTtl args).Returns Value.Clean := by
  unfold handleTtl
  split
  · exact integerValue_clean
  · exact errorValue_clean (by decide)

theorem deleteKeys_clean (keys : List Bytes) (count : Int) :
    (deleteKeys keys count).Returns Value.Clean := by
  induction keys generalizing count with
  | nil => exact integerValue_clean count
  | cons key keys inductionHypothesis => exact fun deleted => inductionHypothesis _

theorem handleDel_clean (args : List Bytes) : (handleDel args).Returns Value.Clean := by
  unfold handleDel
  split
  · exact errorValue_clean (by decide)
  · exact deleteKeys_clean args 0

theorem handleExpire_clean (args : List Bytes) : (handleExpire args).Returns Value.Clean := by
  unfold handleExpire
  split
  · refine withInteger_clean fun seconds => ?_
    split
    · exact notAnInteger_clean
    · exact fun _ => integerValue_clean _
  · exact errorValue_clean (by decide)

theorem handleExpireAt_clean (args : List Bytes) : (handleExpireAt args).Returns Value.Clean := by
  unfold handleExpireAt
  split
  · exact withInteger_clean fun _ _ => integerValue_clean _
  · exact errorValue_clean (by decide)

section

variable [GoTables]

omit [GoTables] in
theorem relativeExpiry_clean {argument : Bytes} {unit : Int} {error : Value}
    (rejected : relativeExpiry argument unit = .error error) : error.Clean := by
  unfold relativeExpiry at rejected
  split at rejected
  next =>
    cases rejected
    exact errorValue_clean (by decide)
  next =>
    split_ifs at rejected
    cases rejected
    exact errorValue_clean (by decide)

omit [GoTables] in
theorem absoluteExpiry_clean {argument : Bytes} {error : Value}
    (rejected : absoluteExpiry argument = .error error) : error.Clean := by
  unfold absoluteExpiry at rejected
  split at rejected <;> cases rejected
  exact errorValue_clean (by decide)

theorem parseSetOptions_clean {options : List Bytes} {before : SetExpiry} {error : Value}
    (rejected : parseSetOptions options before = .error error) : error.Clean := by
  induction options using optionNames.induct generalizing before with
  | case1 => cases rejected
  | case2 option =>
      cases rejected
      exact syntaxError_clean
  | case3 option argument rest inductionHypothesis =>
      simp only [parseSetOptions] at rejected
      split at rejected
      next =>
        cases rejected
        exact syntaxError_clean
      next expiration chosen =>
        split at rejected
        next failed =>
          cases rejected
          unfold setOption at chosen
          split_ifs at chosen <;> cases chosen
          · exact relativeExpiry_clean failed
          · exact relativeExpiry_clean failed
          · exact absoluteExpiry_clean failed
        next => exact inductionHypothesis rejected

theorem wrongArguments_clean (verb : Verb) : (wrongArguments verb).Clean := by
  have name : 10 ∉ toLower verb.name := by
    rw [lineFeed_mem_toLower]
    cases verb <;> decide
  have before : 10 ∉ bytes "ERR wrong number of arguments for '" := by decide
  have after : 10 ∉ bytes "' command" := by decide
  simp [wrongArguments, Value.Clean, name, before, after]

theorem handleSet_clean (args : List Bytes) : (handleSet args).Returns Value.Clean := by
  unfold handleSet
  split
  · split
    next rejected => exact parseSetOptions_clean rejected
    next =>
      split
      · exact fun _ => okValue_clean
      · exact fun _ => okValue_clean
  · exact errorValue_clean (by decide)

theorem parsePositionOptions_clean {options : List Bytes} {before : PositionOptions}
    {error : Value} (rejected : parsePositionOptions options before = .error error) :
    error.Clean := by
  induction options using optionNames.induct generalizing before with
  | case1 => cases rejected
  | case2 option =>
      cases rejected
      exact syntaxError_clean
  | case3 option argument rest inductionHypothesis =>
      simp only [parsePositionOptions] at rejected
      split at rejected
      next =>
        cases rejected
        exact notAnInteger_clean
      next value _ =>
        split_ifs at rejected
        · cases rejected
          exact errorValue_clean (by decide)
        · exact inductionHypothesis rejected
        · cases rejected
          exact errorValue_clean (by decide)
        · exact inductionHypothesis rejected
        · cases rejected
          exact errorValue_clean (by decide)
        · exact inductionHypothesis rejected
        · cases rejected
          exact syntaxError_clean

omit [GoTables] in
theorem positionsValue_clean (options : PositionOptions) (positions : List Int) :
    (positionsValue options positions).Clean := by
  unfold positionsValue
  split
  · split <;> trivial
  · rw [Value.Clean, cleanAll_iff]
    rintro _ membership
    obtain ⟨position, -, rfl⟩ := List.mem_map.mp membership
    exact integerValue_clean position

theorem handleListPush_clean (verb : Verb) (args : List Bytes) :
    (handleListPush verb args).Returns Value.Clean := by
  unfold handleListPush
  split
  · exact orStorageError_clean integerValue_clean
  · exact wrongArguments_clean verb

theorem handleListPop_clean (verb : Verb) (args : List Bytes) :
    (handleListPop verb args).Returns Value.Clean := by
  unfold handleListPop
  split
  · exact orStorageError_clean fun _ => optionalBulk_clean _
  · refine withInteger_clean fun count => ?_
    split
    · exact errorValue_clean (by decide)
    · exact orStorageError_clean stringArray_clean
  · exact wrongArguments_clean verb

theorem handleListPosition_clean (args : List Bytes) :
    (handleListPosition args).Returns Value.Clean := by
  unfold handleListPosition
  split
  · split
    next rejected => exact parsePositionOptions_clean rejected
    next => exact orStorageError_clean (positionsValue_clean _)
  · exact errorValue_clean (by decide)

/-- The list commands; other verbs do not get here. -/
theorem handleListCommand_clean {verb : Verb} (args : List Bytes)
    (list : verb ∉ [.ping, .get, .set, .ttl, .del, .expire, .pexpireat]) :
    (handleListCommand verb args).Returns Value.Clean := by
  unfold handleListCommand
  cases verb with
  | lpush | rpush | lpushx | rpushx => exact handleListPush_clean _ args
  | lpop | rpop => exact handleListPop_clean _ args
  | lpos => exact handleListPosition_clean args
  | llen =>
      dsimp only
      split
      · exact orStorageError_clean integerValue_clean
      · exact wrongArguments_clean _
  | rpoplpush =>
      dsimp only
      split
      · exact orStorageError_clean optionalBulk_clean
      · exact errorValue_clean (by decide)
  | lindex =>
      dsimp only
      split
      · exact withInteger_clean fun _ => orStorageError_clean optionalBulk_clean
      · exact errorValue_clean (by decide)
  | lset =>
      dsimp only
      split
      · exact withInteger_clean fun _ => orStorageError_clean fun _ => okValue_clean
      · exact errorValue_clean (by decide)
  | lrem =>
      dsimp only
      split
      · exact withInteger_clean fun _ => orStorageError_clean integerValue_clean
      · exact errorValue_clean (by decide)
  | lrange =>
      dsimp only
      split
      · exact withInteger_clean fun _ => withInteger_clean fun _ =>
          orStorageError_clean stringArray_clean
      · exact errorValue_clean (by decide)
  | ltrim =>
      dsimp only
      split
      · exact withInteger_clean fun _ => withInteger_clean fun _ =>
          orStorageError_clean fun _ => okValue_clean
      · exact errorValue_clean (by decide)
  | linsert =>
      dsimp only
      split
      · split
        · exact syntaxError_clean
        · exact orStorageError_clean integerValue_clean
      · exact errorValue_clean (by decide)
  | lmove =>
      dsimp only
      split
      · split
        · exact orStorageError_clean optionalBulk_clean
        · exact syntaxError_clean
      · exact errorValue_clean (by decide)
  | ping | get | set | ttl | del | expire | pexpireat => exact absurd list (by decide)

/-- Every reply to a known command is clean. -/
theorem execute_clean {command : Command} {verb : Verb} (known : command.verb = some verb) :
    (execute command).Returns Value.Clean := by
  unfold execute
  rw [known]
  cases verb with
  | ping => exact handlePing_clean _
  | get => exact handleGet_clean _
  | set => exact handleSet_clean _
  | ttl => exact handleTtl_clean _
  | del => exact handleDel_clean _
  | expire => exact handleExpire_clean _
  | pexpireat => exact handleExpireAt_clean _
  | _ => exact handleListCommand_clean _ (by decide)

theorem unknownCommand_clean (name : Bytes) : (unknownCommand name).Clean ↔ 10 ∉ name := by
  have before : 10 ∉ bytes "ERR unknown command '" := by decide
  have after : 10 ∉ bytes "'" := by decide
  simp [unknownCommand, Value.Clean, lineFeed_mem_toLower, before, after]

/-! ## Commits -/

theorem persist_verb {command : Command} (mutation : isMutation command.name = true)
    (now : Clock) : ∃ verb, (persist command now).command.verb = some verb := by
  have known : ∀ {other : Command}, isMutation other.name = true →
      ∃ verb, other.verb = some verb := by
    intro other isMutation
    obtain ⟨verb, isVerb⟩ := verb_of_mutation isMutation
    exact ⟨verb, Verb.ofName_eq_some.mpr isVerb⟩
  unfold persist
  split
  next canonical recorded => exact known (canonicalCommand_canonical recorded).mutation
  next => exact known mutation

namespace Executor

variable {world : World}

theorem applyAll_clean {executor : Executor} {tick : Nat} {commands : List Command}
    (mutations : ∀ command ∈ commands, isMutation command.name = true) :
    ∀ value ∈ (executor.applyAll world (persistAll world tick commands)).2, value.Clean := by
  induction commands generalizing executor tick with
  | nil => nofun
  | cons command commands inductionHypothesis =>
      intro value membership
      rcases List.mem_cons.mp membership with rfl | later
      · obtain ⟨verb, known⟩ :=
          persist_verb (mutations command List.mem_cons_self) (world.clock tick)
        exact (execute_clean known).run _
      · exact inductionHypothesis
          (fun other inside => mutations other (List.mem_cons_of_mem _ inside)) value later

/-- The results of a commit: all are the journal's error, or all are clean. -/
theorem commitAdmitted_results (world : World) (executor : Executor) {commands : List Command}
    (mutations : ∀ command ∈ commands, isMutation command.name = true) :
    (∃ error, (executor.appendAdmitted world commands).2 = .error error ∧
      ∀ result ∈ (executor.commitAdmitted world commands).2,
        result = .error (wrapError "persist command before applying it: " error)) ∨
    (∃ persisted, (executor.appendAdmitted world commands).2 = .ok persisted) ∧
      ∀ result ∈ (executor.commitAdmitted world commands).2,
        ∃ value, result = .ok value ∧ value.Clean := by
  unfold commitAdmitted
  dsimp only
  split
  next error appended =>
    refine .inl ⟨error, by rw [appended], fun result membership => ?_⟩
    obtain ⟨_, _, rfl⟩ := List.mem_map.mp membership
    rfl
  next persisted appended =>
    refine .inr ⟨⟨persisted, by rw [appended]⟩, ?_⟩
    have all := (commits_appendAdmitted appended).2 persisted rfl
    rw [if_neg (by rw [all, persistAll_length]; exact not_not.mpr rfl), all]
    intro result membership
    obtain ⟨value, inside, rfl⟩ := List.mem_map.mp membership
    exact ⟨value, rfl, applyAll_clean mutations value inside⟩

/-- The result of a mutation is the journal's error, or clean. -/
theorem execute_mutation (world : World) (company : Company) (executor : Executor)
    {command : Command}
    (mutation : isMutation command.name = true) :
    (∃ error text, executor.refusal world true company command = some error ∧
      (executor.execute world true company command).2 = .error text ∧ (10 ∈ text ↔ 10 ∈ error)) ∨
    executor.refusal world true company command = none ∧
      ∃ value, (executor.execute world true company command).2 = .ok value ∧ value.Clean := by
  have notRewrite : command.name ≠ aofRewriteName := by
    intro same
    rw [same] at mutation
    revert mutation
    decide
  have mutations : ∀ other ∈ company.batch command, isMutation other.name = true := by
    intro other membership
    rcases List.mem_append.mp membership with before | later
    · exact company.mutations other (List.mem_append_left _ before)
    · rcases List.mem_cons.mp later with rfl | after
      · exact mutation
      · exact company.mutations other (List.mem_append_right _ after)
  have sameLength := executor.admitAll_length world (company.batch command)
  have inside : company.before.length <
      (executor.admitAll world (company.batch command)).2.length := by
    rw [sameLength]
    exact company.before_lt_length command
  obtain ⟨result, found, decides⟩ := batchResults_get sameLength
    (commitAdmitted_length world (executor.admitAll world (company.batch command)).1 _)
    (List.getElem?_eq_getElem inside)
  have executed : (executor.execute world true company command).2 = result := by
    simp only [execute, if_neg notRewrite, mutation, true_and, if_true]
    exact (List.getElem_eq_iff _).mpr found
  rw [executed]
  simp only [refusal, mutation, true_and, if_true, List.getElem?_eq_getElem inside]
  generalize (executor.admitAll world (company.batch command)).2[company.before.length] = admission
    at decides
  rcases admission with error | _ | _
  · exact .inl ⟨error, error, rfl, decides, Iff.rfl⟩
  · exact .inr ⟨rfl, _, decides, errorValue_clean (by decide)⟩
  · rcases commitAdmitted_results world
      (executor.admitAll world (company.batch command)).1
      (fun other admitted => mutations other ((admitted_sublist _ _).mem admitted)) with
      ⟨error, refused, all⟩ | ⟨⟨persisted, appended⟩, all⟩
    · refine .inl ⟨error, _, by simp only [refused], all result decides, ?_⟩
      have fixed : 10 ∉ bytes "persist command before applying it: " := by decide
      simp [wrapError, fixed]
    · exact .inr ⟨by simp only [appended], all result decides⟩

/-- Without a journal no eviction can fail. -/
theorem admitLoop_ok (world : World) (rounds : Nat) (executor : Executor) :
    ∃ after admitted, admitLoop world false rounds executor = (after, .ok admitted) := by
  induction rounds generalizing executor with
  | zero => exact ⟨executor, false, rfl⟩
  | succ rounds inductionHypothesis =>
      rw [admitLoop]
      split
      next => exact ⟨executor, true, rfl⟩
      next =>
        split
        next => exact ⟨executor, false, rfl⟩
        next =>
          split
          next => exact ⟨executor.wait 1, false, rfl⟩
          next key _ => exact inductionHypothesis (executor.drop world key)

/-- Without a journaled mutation no eviction can fail. -/
theorem admitWith_ok (world : World) {journaled : Bool} (executor : Executor) {command : Command}
    (direct : ¬ (isMutation command.name = true ∧ journaled = true)) :
    ∃ after admitted, executor.admitWith world journaled command = (after, .ok admitted) := by
  unfold admitWith
  split
  next => exact ⟨executor, true, rfl⟩
  next checked =>
    cases journaled with
    | true =>
        by_cases grows : growsMemory command.name = true
        · exact (direct ⟨growsMemory_isMutation grows, rfl⟩).elim
        · exact (checked (.inr (Bool.not_eq_true _ ▸ grows))).elim
    | false => exact admitLoop_ok world _ executor

theorem aofRewrite_clean (journaled : Bool) (executor : Executor) (args : List Bytes) :
    (sentValue (executor.aofRewrite journaled args).2).Clean := by
  have wrongNumber : (errorValue
      "ERR wrong number of arguments for 'aofrewrite' command").Clean :=
    errorValue_clean (by decide)
  unfold aofRewrite
  split
  · split
    · unfold enqueueAOFRewrite
      split
      next error queued =>
        split at queued <;> cases queued
        exact (by decide : 10 ∉ alreadyInProgress)
      next => exact okValue_clean
    · exact (by decide :
        10 ∉ bytes "AOF rewrite is unavailable because persistence is disabled")
  · split
    · exact ⟨trivial, trivial, trivial⟩
    · exact wrongNumber
  · exact wrongNumber

/-- The commands whose reply does not depend on the journal. -/
theorem execute_other (world : World) {journaled : Bool} (company : Company) (executor : Executor)
    {command : Command} (direct : ¬ (isMutation command.name = true ∧ journaled = true)) :
    executor.refusal world journaled company command = none ∧
      ((sentValue (executor.execute world journaled company command).2).Clean ∧
          (command.verb = none → command.name ≠ aofRewriteName → 10 ∉ command.name) ∨
        command.verb = none ∧ command.name ≠ aofRewriteName ∧
          (executor.execute world journaled company command).2 =
            .ok (unknownCommand command.name)) := by
  refine ⟨if_neg direct, ?_⟩
  by_cases rewrite : command.name = aofRewriteName
  · simp only [execute, if_pos rewrite]
    exact .inl
      ⟨aofRewrite_clean journaled executor command.args, fun _ other => absurd rewrite other⟩
  · obtain ⟨after, admitted, admission⟩ := executor.admitWith_ok world direct
    simp only [execute, if_neg rewrite, if_neg direct, admission]
    cases known : command.verb with
    | none =>
        have stays : growsMemory command.name = false := by
          change command.verb.any Verb.growsMemory = false
          rw [known]
          rfl
        have admits : executor.admitWith world journaled command = (executor, .ok true) := by
          rw [admitWith, if_pos (.inr stays)]
        rw [admission] at admits
        cases admits
        refine .inr ⟨rfl, rewrite, ?_⟩
        simp only [Store.execute, Carrot.execute, known]
        rfl
    | some verb =>
        refine .inl ⟨?_, fun unknown => by cases unknown⟩
        cases admitted with
        | false => exact errorValue_clean (by decide)
        | true => exact (execute_clean known).run _

/-- The value that a server sends for a command is read back by the RESP grammar
exactly if the name of an unknown command holds no line feed and neither does
the error with which the journal refuses the command.  It is then read back
whatever follows it, so that pipelined commands get one reply each. -/
theorem reply_readsBack_iff (world : World) (journaled : Bool) (company : Company)
    (executor : Executor) (command : Command) :
    (decode .unlimited (encode (sentValue (executor.execute world journaled company command).2)) =
        .ok (sentValue (executor.execute world journaled company command).2, []) ↔
      (command.verb = none → command.name ≠ aofRewriteName → 10 ∉ command.name) ∧
        ∀ error, executor.refusal world journaled company command = some error → 10 ∉ error) ∧
    (decode .unlimited (encode (sentValue (executor.execute world journaled company command).2)) =
        .ok (sentValue (executor.execute world journaled company command).2, []) →
      ∀ rest, decode .unlimited
          (encode (sentValue (executor.execute world journaled company command).2) ++ rest) =
        .ok (sentValue (executor.execute world journaled company command).2, rest)) := by
  have readsBack : ∀ {value : Value}, value.Clean →
      decode .unlimited (encode value) = .ok (value, []) := by
    intro value clean
    have decoded := decode_unlimited clean []
    rwa [List.append_nil] at decoded
  -- In each case the value is clean, or it is an error whose text is known.
  suffices cases : (sentValue (executor.execute world journaled company command).2).Clean ∧
      ((command.verb = none → command.name ≠ aofRewriteName → 10 ∉ command.name) ∧
        ∀ error, executor.refusal world journaled company command = some error → 10 ∉ error) ∨
      ∃ text, sentValue (executor.execute world journaled company command).2 = .error text ∧
        (10 ∉ text ↔
          (command.verb = none → command.name ≠ aofRewriteName → 10 ∉ command.name) ∧
          ∀ error, executor.refusal world journaled company command = some error →
            10 ∉ error) by
    rcases cases with ⟨clean, holds⟩ | ⟨text, isError, iff⟩
    · exact ⟨iff_of_true (readsBack clean) holds, fun _ => decode_unlimited clean⟩
    · rw [isError, decode_unlimited_error]
      exact ⟨iff, fun free => decode_unlimited (show (Value.error text).Clean from free)⟩
  by_cases committed : isMutation command.name = true ∧ journaled = true
  · obtain ⟨mutation, rfl⟩ := committed
    obtain ⟨verb, isVerb⟩ := verb_of_mutation mutation
    have known : command.verb = some verb := Verb.ofName_eq_some.mpr isVerb
    rcases execute_mutation world company executor mutation with
      ⟨error, text, refused, failed, same⟩ | ⟨accepted, value, result, clean⟩
    · refine .inr ⟨text, by rw [failed]; rfl, ?_⟩
      rw [refused, same]
      simp [known]
    · refine .inl ⟨by rw [result]; exact clean, by simp [known], ?_⟩
      rw [accepted]
      nofun
  · obtain ⟨accepted, ⟨clean, named⟩ | ⟨unknown, notRewrite, result⟩⟩ :=
      execute_other world company executor committed
    · refine .inl ⟨clean, named, ?_⟩
      rw [accepted]
      nofun
    · refine .inr ⟨_, by rw [result]; rfl, ?_⟩
      rw [accepted]
      exact (unknownCommand_clean command.name).trans
        ⟨fun free => ⟨fun _ _ => free, nofun⟩, fun holds => holds.1 unknown notRewrite⟩

end Executor

end

section

attribute [local instance] GoTables.ascii

/-- The name of an unknown command is echoed with its line break: the client
reads an error that ends at the line break, and the rest as another reply. -/
theorem Executor.reply_split_by_line_break :
    ∃ command, parse (.array [.bulkString [97, 13, 10, 98]]) = .ok command ∧
      decode .unlimited (encode (sentValue ((Executor.new .always 0 false).execute
          (World.still ⟨0, by decide⟩) true .alone command).2)) =
        .ok (.error (bytes "ERR unknown command 'a"), [98, 39, 13, 10]) :=
  ⟨⟨[65, 13, 10, 66], []⟩, rfl, rfl⟩

end

end Carrot
