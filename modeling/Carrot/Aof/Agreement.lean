import Carrot.Aof.Record
import Carrot.Storage.Operations

/-!
# Canonical commands do what the commands they stand for do

A command that is not recorded is one that its handler refuses.  A recorded
command has the reply and the effect of the original, except that a deadline
computed from a relative expiration is rounded down to whole milliseconds.
-/

namespace Carrot

/-! ## Rounding -/

/-- An instant rounded down to whole milliseconds. -/
def Time.roundMilli (instant : Int) : Int := Time.unixMilli (Time.toUnixMilli instant)

theorem Time.roundMilli_le (instant : Int) : Time.roundMilli instant ≤ instant := by
  simp only [roundMilli, unixMilli, toUnixMilli, millisecond, unixEpoch, second]
  omega

/-- A duration of at least a millisecond ends after the present even when its
end is rounded down. -/
theorem Time.lt_roundMilli (now : Int) {duration : Int} (long : Time.millisecond ≤ duration) :
    now < Time.roundMilli (now + duration) := by
  simp only [roundMilli, unixMilli, toUnixMilli, millisecond, unixEpoch, second] at long ⊢
  omega

def Entry.roundMilli (entry : Entry) : Entry :=
  { entry with deadline := Time.roundMilli entry.deadline }

/-- The milliseconds of an instant that a recorded deadline may be. -/
theorem Clock.toUnixMilli_bounds (now : Clock) {duration : Int} (low : 0 ≤ duration)
    (high : duration ≤ maxInt64) :
    -2 ^ 63 ≤ Time.toUnixMilli (now.now + duration) ∧
      Time.toUnixMilli (now.now + duration) < 2 ^ 63 := by
  have bounded := now.bounded
  simp only [Time.toUnixMilli, Clock.now, Time.millisecond, Time.unixEpoch, Time.second,
    maxInt64] at high ⊢
  omega

/-- A recorded deadline is read as the instant rounded down. -/
theorem Clock.parse_deadline (now : Clock) {duration : Int} (low : 0 ≤ duration)
    (high : duration ≤ maxInt64) :
    ∃ milliseconds, Decimal.parseInt
        (Decimal.formatInt (Time.toUnixMilli (now.now + duration))) = .ok milliseconds ∧
      Time.unixMilli milliseconds = Time.roundMilli (now.now + duration) := by
  obtain ⟨least, most⟩ := now.toUnixMilli_bounds low high
  exact ⟨_, Decimal.parseInt_formatInt least most, rfl⟩

/-! ## Options of `SET` -/

/-- What the options ask for and what the recorded options ask for: the same,
or a time to live and its end. -/
inductive SetExpiry.Recorded (now : Clock) : SetExpiry → SetExpiry → Prop where
  | same (expiry : SetExpiry) : expiry.hasAbsoluteExpiry = true ∨ expiry.ttl ≤ 0 →
      Recorded now expiry expiry
  | relative (ttl : Int) : Time.millisecond ≤ ttl → ttl ≤ maxInt64 →
      Recorded now ⟨ttl, 0, false⟩ ⟨0, Time.roundMilli (now.now + ttl), true⟩

/-- The product of an accepted amount and its unit. -/
theorem product_bounds {amount unit : Int} (isUnit : Time.millisecond ≤ unit)
    (positive : ¬ amount ≤ 0) (small : ¬ amount > maxInt64 / unit) :
    Time.millisecond ≤ amount * unit ∧ amount * unit ≤ maxInt64 := by
  have unitPositive : 0 < unit := lt_of_lt_of_le (by decide) isUnit
  constructor
  · calc Time.millisecond ≤ unit := isUnit
      _ = 1 * unit := (one_mul unit).symm
      _ ≤ amount * unit := Int.mul_le_mul_of_nonneg_right (by omega) (by omega)
  · calc amount * unit ≤ maxInt64 / unit * unit :=
          Int.mul_le_mul_of_nonneg_right (by omega) (by omega)
      _ ≤ maxInt64 := Int.ediv_mul_le maxInt64 (by omega)

/-- A relative expiration and the absolute one that is recorded for it. -/
theorem absoluteDeadline_recorded {now : Clock} {argument deadline : Bytes} {unit : Int}
    (isUnit : Time.millisecond ≤ unit)
    (recorded : absoluteDeadline now argument unit = some deadline) :
    ∃ expiry later, relativeExpiry argument unit = .ok expiry ∧
      absoluteExpiry deadline = .ok later ∧ SetExpiry.Recorded now expiry later := by
  unfold absoluteDeadline at recorded
  split at recorded
  next => cases recorded
  next amount parsed =>
    split at recorded
    next => cases recorded
    next accepted =>
      cases recorded
      obtain ⟨positive, small⟩ := not_or.mp accepted
      obtain ⟨long, fits⟩ := product_bounds isUnit positive small
      obtain ⟨milliseconds, read, same⟩ := now.parse_deadline
        (le_trans (by decide) long) fits
      refine ⟨⟨amount * unit, 0, false⟩, ⟨0, Time.unixMilli milliseconds, true⟩, ?_, ?_, ?_⟩
      · simp only [relativeExpiry, parsed, if_neg accepted]
      · simp only [absoluteExpiry, read]
      · rw [same]
        exact .relative _ long fits

section

variable [GoTables]

theorem setOption_pxat {option : Bytes} (isPxat : toUpper option = bytes "PXAT") :
    setOption option = some absoluteExpiry := by
  rw [setOption, isPxat]
  rfl

/-- One option and the one that is recorded for it. -/
theorem canonicalOption_recorded {now : Clock} {option argument option' argument' : Bytes}
    (recorded : canonicalOption now option argument = some (option', argument')) :
    ∃ expiration expiry later, setOption option = some expiration ∧
      expiration argument = .ok expiry ∧ toUpper option' = bytes "PXAT" ∧
      absoluteExpiry argument' = .ok later ∧ SetExpiry.Recorded now expiry later := by
  unfold canonicalOption at recorded
  unfold setOption
  split_ifs at recorded ⊢ with isEx isPx isPxat
  · obtain ⟨deadline, made, same⟩ := Option.map_eq_some_iff.mp recorded
    cases same
    obtain ⟨expiry, later, relative, absolute, related⟩ :=
      absoluteDeadline_recorded (by decide) made
    exact ⟨_, expiry, later, rfl, relative, toUpper_pxat, absolute, related⟩
  · obtain ⟨deadline, made, same⟩ := Option.map_eq_some_iff.mp recorded
    cases same
    obtain ⟨expiry, later, relative, absolute, related⟩ :=
      absoluteDeadline_recorded (by decide) made
    exact ⟨_, expiry, later, rfl, relative, toUpper_pxat, absolute, related⟩
  · split at recorded
    next => cases recorded
    next milliseconds parsed =>
      cases recorded
      have read : absoluteExpiry argument = .ok ⟨0, Time.unixMilli milliseconds, true⟩ := by
        simp only [absoluteExpiry, parsed]
      exact ⟨_, _, _, rfl, read, isPxat, read, .same _ (.inl rfl)⟩

/-- The recorded options are accepted as the options are, and stay as they are
when they are recorded again. -/
theorem canonicalOptions_recorded {now : Clock} {options options' : List Bytes}
    (recorded : canonicalOptions now options = some options') {before before' : SetExpiry}
    (related : SetExpiry.Recorded now before before') :
    (∃ expiry expiry', parseSetOptions options before = .ok expiry ∧
        parseSetOptions options' before' = .ok expiry' ∧ SetExpiry.Recorded now expiry expiry') ∧
      ∀ later, canonicalOptions later options' = some options' := by
  induction options using optionNames.induct generalizing options' before before' with
  | case1 =>
      cases recorded
      exact ⟨⟨before, before', rfl, rfl, related⟩, fun _ => rfl⟩
  | case2 option => cases recorded
  | case3 option argument rest inductionHypothesis =>
      simp only [canonicalOptions] at recorded
      split at recorded
      next => cases recorded
      next option' argument' first =>
        obtain ⟨rest', tail, rfl⟩ := Option.map_eq_some_iff.mp recorded
        obtain ⟨expiration, expiry, later, known, read, isPxat, readAgain, relatedFirst⟩ :=
          canonicalOption_recorded first
        obtain ⟨accepted, again⟩ := inductionHypothesis tail relatedFirst
        refine ⟨?_, fun clock => ?_⟩
        · simpa only [parseSetOptions, known, read, setOption_pxat isPxat, readAgain] using accepted
        · have parsed : ∃ milliseconds, Decimal.parseInt argument' = .ok milliseconds := by
            unfold absoluteExpiry at readAgain
            split at readAgain
            next => cases readAgain
            next milliseconds parsed => exact ⟨milliseconds, parsed⟩
          obtain ⟨milliseconds, parsed⟩ := parsed
          have kept : canonicalOption clock option' argument' = some (option', argument') := by
            simp only [canonicalOption, isPxat, parsed]
            rfl
          simp only [canonicalOptions, kept, again clock, Option.map_some]

/-! ## Commands -/

/-- The key whose deadline a command computes from a relative expiration. -/
def Command.relativeKey (command : Command) : Option Key :=
  match command.verb, command.args with
  | some .set, key :: _ :: options =>
      match parseSetOptions options SetExpiry.none with
      | .ok expiry => if expiry.hasAbsoluteExpiry = false ∧ expiry.ttl > 0 then some key else none
      | .error _ => none
  | some .expire, [key, _] => some key
  | _, _ => none

/-- A refused mutation replies with an error at once. -/
theorem execute_of_rejected {command : Command} {now : Clock}
    (mutation : isMutation command.name = true) (rejected : canonicalCommand command now = none) :
    ∃ text, execute command = reply (.error text) := by
  unfold canonicalCommand at rejected
  split at rejected
  next isSet =>
    obtain ⟨text, failed⟩ := handleSet_of_rejected (Option.map_eq_none_iff.mp rejected)
    exact ⟨text, by simp only [execute, isSet, failed]⟩
  next isExpire =>
    obtain ⟨text, failed⟩ := handleExpire_of_rejected (Option.map_eq_none_iff.mp rejected)
    exact ⟨text, by simp only [execute, isExpire, failed]⟩
  next isDel =>
    split at rejected
    next empty => exact ⟨_, by simp only [execute, isDel, handleDel, if_pos empty]; rfl⟩
    next => cases rejected
  next =>
    rw [if_pos mutation] at rejected
    cases rejected

/-- The outcome of a command and that of the command that is recorded for it. -/
structure Agrees (now : Clock) (relative : Option Key) (first second : Keyspace × Value) :
    Prop where
  reply : second.2 = first.2
  view : ∀ key, second.1.live now key =
    if relative = some key then (first.1.live now key).map Entry.roundMilli
    else first.1.live now key

omit [GoTables] in
theorem Agrees.refl (now : Clock) (outcome : Keyspace × Value) : Agrees now none outcome outcome :=
  ⟨rfl, fun _ => rfl⟩

omit [GoTables] in
/-- Two outcomes that differ in the cell of one key. -/
theorem Agrees.update {now : Clock} (keyspace : Keyspace) (key : Key) {cell rounded : Cell}
    (value : Value) (agree : rounded.live now.now = (cell.live now.now).map Entry.roundMilli) :
    Agrees now (some key) (Function.update keyspace key cell, value)
      (Function.update keyspace key rounded, value) := by
  refine ⟨rfl, fun other => ?_⟩
  rw [Keyspace.live_update, Keyspace.live_update]
  by_cases same : other = key
  · subst other
    simp only [Function.update_self, if_true, agree]
  · have different : ¬ some key = some other := fun equal => same (Option.some.inj equal).symm
    simp only [Function.update_of_ne same, if_neg different]

omit [GoTables] in
/-- A deadline in the future that stays in the future when it is rounded. -/
theorem live_roundMilli (content : Content) {deadline now : Int}
    (future : now < Time.roundMilli deadline) :
    Cell.live (some ⟨content, Time.roundMilli deadline⟩) now =
      (Cell.live (some ⟨content, deadline⟩) now).map Entry.roundMilli := by
  have later : now < deadline := lt_of_lt_of_le future (Time.roundMilli_le deadline)
  have alive : (Entry.mk content deadline).expired now = false := by simp [Entry.expired, later]
  have stillAlive : (Entry.mk content (Time.roundMilli deadline)).expired now = false := by
    simp [Entry.expired, future]
  simp only [Cell.live_some, alive, stillAlive, Bool.false_eq_true, if_false, Option.map_some,
    Entry.roundMilli]

theorem set_agrees {command : Command} (isSet : command.verb = some .set) {now : Clock}
    {args : List Bytes} (recorded : canonicalSet now command.args = some args)
    (keyspace : Keyspace) :
    Agrees now command.relativeKey (keyspace.execute now command)
      (keyspace.execute now ⟨command.name, args⟩) := by
  have again : Command.verb ⟨command.name, args⟩ = some .set := isSet
  unfold canonicalSet at recorded
  split at recorded
  next key value options shape =>
    obtain ⟨options', made, rfl⟩ := Option.map_eq_some_iff.mp recorded
    obtain ⟨⟨expiry, expiry', parsed, parsedAgain, related⟩, -⟩ :=
      canonicalOptions_recorded made (.same SetExpiry.none (.inr (le_refl 0)))
    simp only [Keyspace.execute, execute, isSet, again, shape, handleSet, parsed, parsedAgain,
      Command.relativeKey]
    cases related with
    | same _ absolute =>
        have notRelative : ¬ (expiry.hasAbsoluteExpiry = false ∧ expiry.ttl > 0) := by
          rintro ⟨isRelative, positive⟩
          rcases absolute with isAbsolute | none
          · rw [isAbsolute] at isRelative
            cases isRelative
          · exact absurd positive (Int.not_lt.mpr none)
        rw [if_neg notRelative]
        exact .refl now _
    | relative ttl long fits =>
        have positive : ttl > 0 := lt_of_lt_of_le (by decide) long
        have future := Time.lt_roundMilli now.now long
        have agree := Agrees.update keyspace key okValue (live_roundMilli (.string value) future)
        simpa [answer, Keyspace.perform, Keyspace.onKey, positive, Cell.setAt, future] using agree
  next => cases recorded

omit [GoTables] in
/-- Setting a deadline and setting it rounded down. -/
theorem expireAt_agrees {now : Clock} (keyspace : Keyspace) (key : Key) {deadline : Int}
    (agree : now.now < deadline ↔ now.now < Time.roundMilli deadline) :
    Agrees now (some key)
      ((answer (.expireAt key deadline) flag).run (Keyspace.perform now) keyspace)
      ((answer (.expireAt key (Time.roundMilli deadline)) flag).run (Keyspace.perform now)
        keyspace) := by
  simp only [answer, Program.run_call, Program.run_done, Keyspace.perform, Keyspace.onKey]
  cases keyspace.live now key with
  | none => exact .update keyspace key _ rfl
  | some entry =>
      simp only [Cell.expireAt]
      by_cases future : now.now < deadline
      · rw [if_pos future, if_pos (agree.mp future)]
        exact .update keyspace key _ (live_roundMilli entry.content (agree.mp future))
      · rw [if_neg future, if_neg (fun rounded => future (agree.mpr rounded))]
        exact .update keyspace key _ rfl

theorem expire_agrees {command : Command} (isExpire : command.verb = some .expire) {now : Clock}
    {args : List Bytes} (recorded : canonicalExpire now command.args = some args)
    (keyspace : Keyspace) :
    Agrees now command.relativeKey (keyspace.execute now command)
      (keyspace.execute now ⟨Verb.pexpireat.name, args⟩) := by
  unfold canonicalExpire at recorded
  split at recorded
  next key argument shape =>
    split at recorded
    next => cases recorded
    next seconds parsed =>
      split at recorded
      next => cases recorded
      next small =>
        cases recorded
        -- The deadline is a duration of whole seconds away, or the present.
        obtain ⟨duration, low, high, deadline, exact, agree⟩ : ∃ duration : Int, 0 ≤ duration ∧
            duration ≤ maxInt64 ∧
            (if seconds > 0 then now.now + seconds * Time.second else now.now) =
              now.now + duration ∧
            (if seconds > 0 then now.now + int64 (seconds * Time.second) else now.now) =
              now.now + duration ∧
            (now.now < now.now + duration ↔ now.now < Time.roundMilli (now.now + duration)) := by
          by_cases positive : seconds > 0
          · obtain ⟨long, fits⟩ := product_bounds (by decide) (Int.not_le.mpr positive) small
            refine ⟨seconds * Time.second, le_trans (by decide) long, fits, if_pos positive, ?_, ?_⟩
            · rw [if_pos positive, int64_of_bounds (le_trans (by decide) long)
                (lt_of_le_of_lt fits (by decide))]
            · exact iff_of_true (Int.lt_add_of_pos_right _ (lt_of_lt_of_le (by decide) long))
                (Time.lt_roundMilli now.now long)
          · refine ⟨0, le_refl 0, by decide, ?_, ?_, ?_⟩
            · rw [if_neg positive, add_zero]
            · rw [if_neg positive, add_zero]
            · rw [add_zero]
              exact iff_of_false (lt_irrefl _) (Int.not_lt.mpr (Time.roundMilli_le now.now))
        obtain ⟨milliseconds, read, same⟩ := now.parse_deadline low high
        have relative : command.relativeKey = some key := by
          simp only [Command.relativeKey, isExpire, shape]
        rw [relative]
        simp only [Keyspace.execute, execute, isExpire, shape, handleExpire, handleExpireAt,
          withInteger, parsed, if_neg small, deadline, read, same]
        have agrees := expireAt_agrees keyspace key agree
        simp only [answer, Program.run_call, Program.run_done, reply, Keyspace.perform, exact]
          at agrees ⊢
        exact agrees
  next => cases recorded

/-- A command and what is recorded for it agree on every keyspace. -/
theorem canonicalCommand_keyspace {command canonical : Command} {now : Clock}
    (recorded : canonicalCommand command now = some canonical) (keyspace : Keyspace) :
    Agrees now command.relativeKey (keyspace.execute now command)
      (keyspace.execute now canonical) := by
  unfold canonicalCommand at recorded
  split at recorded
  next isSet =>
    obtain ⟨args, made, rfl⟩ := Option.map_eq_some_iff.mp recorded
    exact set_agrees isSet made keyspace
  next isExpire =>
    obtain ⟨args, made, rfl⟩ := Option.map_eq_some_iff.mp recorded
    exact expire_agrees isExpire made keyspace
  next isDel =>
    split at recorded
    next => cases recorded
    next =>
      cases recorded
      have absolute : command.relativeKey = none := by simp only [Command.relativeKey, isDel]
      rw [absolute]
      exact .refl now _
  next notSet notExpire notDel =>
    split at recorded
    next =>
      cases recorded
      have absolute : command.relativeKey = none := by
        unfold Command.relativeKey
        split
        next isSet _ => exact absurd isSet notSet
        next isExpire _ => exact absurd isExpire notExpire
        next => rfl
      rw [absolute]
      exact .refl now _
    next => cases recorded

/-- What is recorded stays as it is when it is recorded again. -/
theorem canonicalCommand_again {command canonical : Command} {now : Clock}
    (recorded : canonicalCommand command now = some canonical) (later : Clock) :
    canonicalCommand canonical later = some canonical := by
  unfold canonicalCommand at recorded
  split at recorded
  next isSet =>
    obtain ⟨args, made, rfl⟩ := Option.map_eq_some_iff.mp recorded
    unfold canonicalSet at made
    split at made
    next key value options shape =>
      obtain ⟨options', madeOptions, rfl⟩ := Option.map_eq_some_iff.mp made
      have again := (canonicalOptions_recorded madeOptions
        (.same SetExpiry.none (.inr (le_refl 0)))).2 later
      have known : Command.verb ⟨command.name, key :: value :: options'⟩ = some .set := isSet
      simp only [canonicalCommand, known, canonicalSet, again, Option.map_some]
    next => cases made
  next isExpire =>
    obtain ⟨args, made, rfl⟩ := Option.map_eq_some_iff.mp recorded
    have known : Command.verb ⟨Verb.pexpireat.name, args⟩ = some .pexpireat :=
      Verb.pexpireat.ofName_name
    simp only [canonicalCommand, known]
    exact if_pos rfl
  next isDel =>
    split at recorded
    next => cases recorded
    next nonempty =>
      cases recorded
      simp only [canonicalCommand, isDel, if_neg nonempty]
  next notSet notExpire notDel =>
    split at recorded
    next mutation =>
      cases recorded
      unfold canonicalCommand
      split
      next isSet => exact absurd isSet notSet
      next isExpire => exact absurd isExpire notExpire
      next isDel => exact absurd isDel notDel
      next => exact if_pos mutation
    next => cases recorded

/-! ## Arithmetic -/

/-- The numbers that commands and their records compute at a reading of the
clock are 64-bit: durations, Unix milliseconds, and the seconds of instants. -/
structure NoOverflow (now : Clock) : Prop where
  relative : ∀ argument unit expiry, unit = Time.second ∨ unit = Time.millisecond →
    relativeExpiry argument unit = .ok expiry →
    0 < expiry.ttl ∧ expiry.ttl ≤ maxInt64 ∧
      minInt64 ≤ Time.toUnixMilli (now.now + expiry.ttl) ∧
      Time.toUnixMilli (now.now + expiry.ttl) ≤ maxInt64 ∧
      (now.now + expiry.ttl) / Time.second ≤ maxInt64
  expire : ∀ seconds, 0 < seconds → seconds ≤ maxInt64 / Time.second →
    int64 (seconds * Time.second) = seconds * Time.second ∧
      minInt64 ≤ Time.toUnixMilli (now.now + seconds * Time.second) ∧
      Time.toUnixMilli (now.now + seconds * Time.second) ≤ maxInt64 ∧
      (now.now + seconds * Time.second) / Time.second ≤ maxInt64
  absolute : ∀ argument milliseconds, Decimal.parseInt argument = .ok milliseconds →
    minInt64 ≤ Time.unixMilli milliseconds / Time.second ∧
      Time.unixMilli milliseconds / Time.second ≤ maxInt64

omit [GoTables] in
/-- The end of a duration. -/
theorem Clock.deadline_bounds (now : Clock) {duration : Int} (low : 0 ≤ duration)
    (high : duration ≤ maxInt64) :
    minInt64 ≤ Time.toUnixMilli (now.now + duration) ∧
      Time.toUnixMilli (now.now + duration) ≤ maxInt64 ∧
      (now.now + duration) / Time.second ≤ maxInt64 := by
  obtain ⟨least, most⟩ := now.toUnixMilli_bounds low high
  refine ⟨least, Int.le_sub_one_of_lt most, ?_⟩
  have bounded := now.bounded
  simp only [Clock.now, Time.unixEpoch, Time.second, maxInt64] at high ⊢
  omega

omit [GoTables] in
theorem noOverflow (now : Clock) : NoOverflow now where
  relative argument unit expiry isUnit accepted := by
    unfold relativeExpiry at accepted
    split at accepted
    next => cases accepted
    next amount parsed =>
      split at accepted
      next => cases accepted
      next inRange =>
        cases accepted
        obtain ⟨positive, small⟩ := not_or.mp inRange
        have atLeast : Time.millisecond ≤ unit := by
          rcases isUnit with rfl | rfl <;> decide
        obtain ⟨long, fits⟩ := product_bounds atLeast positive small
        have durable : 0 < amount * unit := lt_of_lt_of_le (by decide) long
        exact ⟨durable, fits, now.deadline_bounds (le_of_lt durable) fits⟩
  expire seconds positive small := by
    obtain ⟨long, fits⟩ := product_bounds (by decide) (Int.not_le.mpr positive)
      (Int.not_lt.mpr small)
    have durable : 0 ≤ seconds * Time.second := le_trans (by decide) long
    exact ⟨int64_of_bounds (le_trans (by decide) durable) (lt_of_le_of_lt fits (by decide)),
      now.deadline_bounds durable fits⟩
  absolute argument milliseconds parsed := by
    obtain ⟨low, high⟩ := Decimal.parseInt_bounds parsed
    simp only [Time.unixMilli, Time.millisecond, Time.unixEpoch, Time.second, maxInt64, minInt64]
      at low high ⊢
    omega

/-- In every store that a history leads to, a mutation that is not recorded is
refused and changes nothing, and a recorded one does what the original does but
for the rounding of relative deadlines; it is recorded again as it is. -/
theorem canonicalCommand_agrees (history : List (Operation × Clock)) (now : Clock)
    (command : Command) (mutation : isMutation command.name = true) :
    (canonicalCommand command now = none →
        ∃ text, (Store.run history).execute now command = (Store.run history, .error text)) ∧
      (∀ canonical, canonicalCommand command now = some canonical →
        ((Store.run history).execute now canonical).2 =
            ((Store.run history).execute now command).2 ∧
          (∀ key, ((Store.run history).execute now canonical).1.view now key =
            if command.relativeKey = some key then
              (((Store.run history).execute now command).1.view now key).map Entry.roundMilli
            else ((Store.run history).execute now command).1.view now key) ∧
          ∀ later, canonicalCommand canonical later = some canonical) ∧
      NoOverflow now := by
  have wellFormed : (Store.run history).WellFormed :=
    Store.foldl_wellFormed history Store.new_wellFormed
  refine ⟨?_, ?_, noOverflow now⟩
  · intro rejected
    obtain ⟨text, refused⟩ := execute_of_rejected mutation rejected
    refine ⟨text, ?_⟩
    rw [Store.execute, refused]
    rfl
  · intro canonical recorded
    have agrees := canonicalCommand_keyspace recorded ((Store.run history).view now)
    obtain ⟨original, reply⟩ := (wellFormed.represents now).execute command
    obtain ⟨replacement, replyAgain⟩ := (wellFormed.represents now).execute canonical
    refine ⟨?_, ?_, canonicalCommand_again recorded⟩
    · rw [reply, replyAgain, agrees.reply]
    · intro key
      rw [original.view, replacement.view]
      exact agrees.view key

end

section

attribute [local instance] GoTables.ascii

/-- `SET k v PX 1` on an empty store. -/
theorem canonicalCommand_agrees_px :
    let now : Clock := ⟨1999999, by decide⟩
    let command : Command := ⟨bytes "SET", [bytes "k", bytes "v", bytes "PX", bytes "1"]⟩
    (canonicalCommand command now = none →
        ∃ text, (Store.run []).execute now command = (Store.run [], .error text)) ∧
      (∀ canonical, canonicalCommand command now = some canonical →
        ((Store.run []).execute now canonical).2 = ((Store.run []).execute now command).2 ∧
          (∀ key, ((Store.run []).execute now canonical).1.view now key =
            if command.relativeKey = some key then
              (((Store.run []).execute now command).1.view now key).map Entry.roundMilli
            else ((Store.run []).execute now command).1.view now key) ∧
          ∀ later, canonicalCommand canonical later = some canonical) ∧
      NoOverflow now :=
  canonicalCommand_agrees [] _ _ (by decide +kernel)

end

end Carrot
