import Carrot.Command.Calls
import Carrot.Command.Execute
import Carrot.Keyspace.Words

/-!
# The words that a command brings

A handler passes on to the store only words of its command.
-/

namespace Carrot

variable {allowed : Bytes → Prop}

/-- A handler all of whose calls bring allowed words. -/
abbrev Handler.Brings (allowed : Bytes → Prop) (handler : Handler) : Prop :=
  handler.Makes (StoreCall.Brings allowed)

namespace Handler.Brings

theorem reply (value : Value) : Handler.Brings allowed (Carrot.reply value) := trivial

theorem answer {Result : Type} {call : StoreCall Result} (toReply : Result → Value)
    (keys : ∀ key ∈ call.keys, allowed key) (values : ∀ value ∈ call.values, allowed value) :
    Handler.Brings allowed (Carrot.answer call toReply) :=
  ⟨⟨keys, values⟩, fun _ => trivial⟩

theorem withInteger {argument : Bytes} {next : Int → Handler}
    (brings : ∀ number, Handler.Brings allowed (next number)) :
    Handler.Brings allowed (Carrot.withInteger argument next) := by
  unfold Carrot.withInteger
  split
  next => exact .reply _
  next number _ => exact brings number

theorem deleteKeys {keys : List Bytes} (each : ∀ key ∈ keys, allowed key) (count : Int) :
    Handler.Brings allowed (Carrot.deleteKeys keys count) := by
  induction keys generalizing count with
  | nil => trivial
  | cons key keys inductionHypothesis =>
      refine ⟨⟨?_, by simp [StoreCall.values]⟩, fun deleted => ?_⟩
      · rintro _ ⟨⟩
        · exact each key List.mem_cons_self
        · contradiction
      · exact inductionHypothesis
          (fun other membership => each other (List.mem_cons_of_mem _ membership)) _

end Handler.Brings

section

variable [GoTables] {args : List Bytes} (each : ∀ word ∈ args, allowed word)

include each

theorem handleSet_brings : (handleSet args).Brings allowed := by
  unfold handleSet
  split
  next key value options =>
    have isKey := each key (by simp)
    have isValue := each value (by simp)
    split
    next => exact .reply _
    next =>
      split
      · exact .answer _ (by simpa [StoreCall.keys]) (by simpa [StoreCall.values])
      · exact .answer _ (by simpa [StoreCall.keys]) (by simpa [StoreCall.values])
  next => exact .reply _

theorem handleListPush_brings (verb : Verb) : (handleListPush verb args).Brings allowed := by
  unfold handleListPush
  split
  next key value values =>
    refine .answer _ (by simpa [StoreCall.keys] using each key (by simp)) fun word membership => ?_
    exact each word (List.mem_cons_of_mem _ membership)
  next => exact .reply _

theorem handleListPop_brings (verb : Verb) : (handleListPop verb args).Brings allowed := by
  unfold handleListPop
  split
  next key =>
    exact .answer _ (by simpa [StoreCall.keys] using each key (by simp))
      (by simp [StoreCall.values])
  next key argument =>
    refine .withInteger fun count => ?_
    split
    next => exact .reply _
    next =>
      exact .answer _ (by simpa [StoreCall.keys] using each key (by simp))
        (by simp [StoreCall.values])
  next => exact .reply _

theorem handleListPosition_brings : (handleListPosition args).Brings allowed := by
  unfold handleListPosition
  split
  next key value rest =>
    split
    next => exact .reply _
    next =>
      exact .answer _ (by simpa [StoreCall.keys] using each key (by simp))
        (by simp [StoreCall.values])
  next => exact .reply _

theorem handleListCommand_brings (verb : Verb) : (handleListCommand verb args).Brings allowed := by
  unfold handleListCommand
  cases verb with
  | lpush | rpush | lpushx | rpushx => exact handleListPush_brings each _
  | lpop | rpop => exact handleListPop_brings each _
  | lpos => exact handleListPosition_brings each
  | llen =>
      dsimp only
      split
      next key =>
        exact .answer _ (by simpa [StoreCall.keys] using each key (by simp))
          (by simp [StoreCall.values])
      next => exact .reply _
  | lrange | ltrim =>
      dsimp only
      split
      next key _ _ =>
        refine .withInteger fun _ => .withInteger fun _ => ?_
        exact .answer _ (by simpa [StoreCall.keys] using each key (by simp))
          (by simp [StoreCall.values])
      next => exact .reply _
  | lindex =>
      dsimp only
      split
      next key _ =>
        refine .withInteger fun _ => ?_
        exact .answer _ (by simpa [StoreCall.keys] using each key (by simp))
          (by simp [StoreCall.values])
      next => exact .reply _
  | lset | lrem =>
      dsimp only
      split
      next key _ value =>
        have isKey := each key (by simp)
        have isValue := each value (by simp)
        refine .withInteger fun _ => ?_
        exact .answer _ (by simpa [StoreCall.keys]) (by simp [StoreCall.values, *])
      next => exact .reply _
  | linsert =>
      dsimp only
      split
      next key _ _ value =>
        have isKey := each key (by simp)
        have isValue := each value (by simp)
        split
        next => exact .reply _
        next => exact .answer _ (by simpa [StoreCall.keys]) (by simpa [StoreCall.values])
      next => exact .reply _
  | lmove =>
      dsimp only
      split
      next source destination _ _ =>
        have isSource := each source (by simp)
        have isDestination := each destination (by simp)
        split
        next => exact .answer _ (by simp [StoreCall.keys, *]) (by simp [StoreCall.values])
        next => exact .reply _
      next => exact .reply _
  | rpoplpush =>
      dsimp only
      split
      next source destination =>
        have isSource := each source (by simp)
        have isDestination := each destination (by simp)
        exact .answer _ (by simp [StoreCall.keys, *]) (by simp [StoreCall.values])
      next => exact .reply _
  | ping | get | set | ttl | del | expire | pexpireat => exact .reply _

end

section

variable [GoTables]

/-- A command brings no words but its arguments. -/
theorem execute_brings {command : Command} (each : ∀ word ∈ command.args, allowed word) :
    (execute command).Brings allowed := by
  unfold execute
  split
  next => exact .reply _
  next =>
    unfold handleGet
    split
    next key same =>
      rw [same] at each
      exact .answer _ (by simpa [StoreCall.keys] using each) (by simp [StoreCall.values])
    next => exact .reply _
  next => exact handleSet_brings each
  next =>
    unfold handleTtl
    split
    next key same =>
      rw [same] at each
      exact .answer _ (by simpa [StoreCall.keys] using each) (by simp [StoreCall.values])
    next => exact .reply _
  next =>
    unfold handleDel
    split
    next => exact .reply _
    next => exact .deleteKeys each 0
  next =>
    unfold handleExpire
    split
    next key argument same =>
      rw [same] at each
      refine .withInteger fun _ => ?_
      split
      next => exact .reply _
      next =>
        exact .answer _ (by simpa [StoreCall.keys] using each key (by simp))
          (by simp [StoreCall.values])
    next => exact .reply _
  next =>
    unfold handleExpireAt
    split
    next key argument same =>
      rw [same] at each
      refine .withInteger fun _ => ?_
      exact .answer _ (by simpa [StoreCall.keys] using each key (by simp))
        (by simp [StoreCall.values])
    next => exact .reply _
  next => exact handleListCommand_brings each _
  next => exact .reply _

/-- A store goes on holding allowed words. -/
theorem Store.Within.execute {store : Store} {clock : Clock} (within : store.Within allowed clock)
    (wellFormed : store.WellFormed) (empty : allowed []) {command : Command}
    (each : ∀ word ∈ command.args, allowed word) :
    (store.execute clock command).1.Within allowed clock := by
  have both : (store.execute clock command).1.WellFormed ∧
      (store.execute clock command).1.Within allowed clock := by
    refine (execute_brings each).run_eq
      (fun after : Store => after.WellFormed ∧ after.Within allowed clock) ?_ ⟨wellFormed, within⟩
    rintro Result after call brings ⟨consistent, inside⟩
    exact ⟨((consistent.represents clock).perform call).1.wellFormed,
      inside.perform consistent empty brings⟩
  exact both.2

end

end Carrot
