import Carrot.Aof.Record
import Carrot.Resp.Bounds

/-!
# Reading records back

Requests arrive as framed arrays or as lines of words, and are recorded as
framed arrays.  A record is read back by recovery unless the command has more
words than recovery takes for one array, which only a line can bring.
-/

namespace Carrot

/-- The limits of a connection's decoder. -/
def requestLimits : Limits := Limits.withMessage (2 <<< 20)

/-- The limits of the decoder that recovery uses. -/
def recordLimits : Limits := Limits.withMessage maxRecordBytes

/-- Recovery reads the whole of a record as the given command. -/
def ReadsBack [GoTables] (data : Bytes) (command : Command) : Prop :=
  ∃ value, decode recordLimits data = .ok (value, []) ∧ parse value = .ok command

/-! ## What a request can hold -/

/-- The bytes of several words. -/
def totalLength (words : List Bytes) : Nat := (words.map List.length).sum

/-- The arguments of a request are within the limits of its decoder. -/
structure Command.Small (command : Command) : Prop where
  total : totalLength command.args ≤ 2 <<< 20
  each : ∀ argument ∈ command.args, argument.length ≤ 1 <<< 20

theorem Value.bulkSize_of_bulk? {value : Value} {text : Bytes} (bulk : value.bulk? = some text) :
    value.bulkSize = text.length := by
  cases value with
  | bulkString | nullBulkString =>
      cases bulk
      rfl
  | _ => cases bulk

theorem parseArguments_lengths {values : List Value} {args : List Bytes}
    (parsed : parseArguments values = .ok args) :
    args.map List.length = values.map Value.bulkSize := by
  induction values generalizing args with
  | nil =>
      cases parsed
      rfl
  | cons value values inductionHypothesis =>
      simp only [parseArguments] at parsed
      split at parsed
      next => cases parsed
      next argument bulk =>
        obtain ⟨others, rest, rfl⟩ := map_eq_ok.mp parsed
        rw [List.map_cons, List.map_cons, inductionHypothesis rest, Value.bulkSize_of_bulk? bulk]

/-- A parsed value is an array of the name and the arguments. -/
theorem parse_eq_ok [GoTables] {value : Value} {command : Command}
    (parsed : parse value = .ok command) :
    ∃ first others, value = .array (first :: others) ∧
      command.args.map List.length = others.map Value.bulkSize := by
  unfold parse at parsed
  split at parsed
  next => cases parsed
  next first others =>
    split at parsed
    next => cases parsed
    next =>
      obtain ⟨args, rest, rfl⟩ := map_eq_ok.mp parsed
      exact ⟨first, others, rfl, parseArguments_lengths rest⟩
  next => cases parsed

theorem Value.Sized.request {value : Value} (sized : value.Sized requestLimits) :
    value.bulkSize ≤ 1 <<< 20 := by
  rcases sized with bulk | line
  · simpa [requestLimits, Limits.withMessage, exceeds] using bulk
  · simp only [requestLimits, Limits.withMessage, exceeds, Option.any_some,
      decide_eq_false_iff_not, not_lt] at line
    omega

theorem small_of_request [GoTables] {input rest : Bytes} {value : Value} {command : Command}
    (decoded : decode requestLimits input = .ok (value, rest))
    (parsed : parse value = .ok command) : command.Small := by
  obtain ⟨first, others, rfl, lengths⟩ := parse_eq_ok parsed
  unfold decode at decoded
  split at decoded
  next => cases decoded
  next reader read =>
    cases decoded
    obtain ⟨charged, sized⟩ := (decodeValue_fits (exceeds_zero _) read).items _ rfl
    have within := charged.within
    have used := charged.used
    simp only [requestLimits, Limits.withMessage, exceeds, Option.any_some,
      decide_eq_false_iff_not, not_lt] at within
    simp only [bulkSizes, List.map_cons, List.sum_cons] at used
    refine ⟨?_, ?_⟩
    · rw [totalLength, lengths]
      omega
    · intro argument membership
      have found : argument.length ∈ others.map Value.bulkSize :=
        lengths ▸ List.mem_map_of_mem membership
      obtain ⟨item, inside, same⟩ := List.mem_map.mp found
      rw [← same]
      exact (sized item (List.mem_cons_of_mem _ inside)).request

/-! ## What its record can hold -/

/-- Words in the place of others: as many, not much longer, and each within
the limit on bulk strings. -/
structure Grows (before after : List Bytes) : Prop where
  length : after.length = before.length
  total : totalLength after ≤ totalLength before + 24 * before.length
  each : ∀ word ∈ after, word.length ≤ 1 <<< 20

namespace Grows

theorem refl {words : List Bytes} (each : ∀ word ∈ words, word.length ≤ 1 <<< 20) :
    Grows words words :=
  ⟨rfl, Nat.le_add_right _ _, each⟩

theorem cons {before after : List Bytes} {word longer : Bytes} (grows : Grows before after)
    (close : longer.length ≤ word.length + 24) (small : longer.length ≤ 1 <<< 20) :
    Grows (word :: before) (longer :: after) where
  length := by simp [grows.length]
  total := by
    have total := grows.total
    simp only [totalLength, List.map_cons, List.sum_cons, List.length_cons] at total ⊢
    omega
  each := by simpa using ⟨small, grows.each⟩

end Grows

theorem formatInt_toUnixMilli_length {instant : Int} (low : Time.unixEpoch ≤ instant)
    (high : instant ≤ Time.unixEpoch + 2 ^ 64) :
    (Decimal.formatInt (Time.toUnixMilli instant)).length ≤ 20 := by
  have nonnegative : 0 ≤ Time.toUnixMilli instant := by
    simp only [Time.toUnixMilli, Time.millisecond]
    omega
  have bounded : Time.toUnixMilli instant ≤ 2 ^ 64 := by
    simp only [Time.toUnixMilli, Time.millisecond]
    omega
  rw [Decimal.formatInt, if_neg (by omega)]
  exact Decimal.formatNat_length (by omega) (by decide)

theorem absoluteDeadline_length {now : Clock} {argument deadline : Bytes} {unit : Int}
    (positive : 0 < unit) (result : absoluteDeadline now argument unit = some deadline) :
    deadline.length ≤ 20 := by
  unfold absoluteDeadline at result
  split at result
  next => cases result
  next amount parsed =>
    split at result
    next => cases result
    next valid =>
      cases result
      rw [not_or, not_le, not_lt] at valid
      have low : 0 ≤ amount * unit := by
        exact Int.mul_nonneg (by omega) (by omega)
      have high : amount * unit ≤ maxInt64 :=
        (Int.mul_le_mul_of_nonneg_right valid.2 (by omega)).trans (Int.ediv_mul_le _ (by omega))
      have bounded := now.bounded
      refine formatInt_toUnixMilli_length ?_ ?_ <;> simp only [Clock.now, maxInt64] at high ⊢ <;>
        omega

section

variable [GoTables]

theorem canonicalOption_grows {now : Clock} {option argument : Bytes} {result : Bytes × Bytes}
    (small : option.length ≤ 1 <<< 20 ∧ argument.length ≤ 1 <<< 20)
    (canonical : canonicalOption now option argument = some result) {before after : List Bytes}
    (grows : Grows before after) :
    Grows (option :: argument :: before) (result.1 :: result.2 :: after) := by
  have absolute : ∀ deadline : Bytes, deadline.length ≤ 20 →
      Grows (option :: argument :: before) (bytes "PXAT" :: deadline :: after) := by
    intro deadline short
    have pxat : (bytes "PXAT").length = 4 := by decide
    exact (grows.cons (by omega) (by omega)).cons (by omega) (by omega)
  unfold canonicalOption at canonical
  split_ifs at canonical
  · obtain ⟨deadline, found, rfl⟩ := Option.map_eq_some_iff.mp canonical
    exact absolute deadline (absoluteDeadline_length (by decide) found)
  · obtain ⟨deadline, found, rfl⟩ := Option.map_eq_some_iff.mp canonical
    exact absolute deadline (absoluteDeadline_length (by decide) found)
  · split at canonical
    next => cases canonical
    next =>
      cases canonical
      exact (grows.cons (Nat.le_add_right _ _) small.2).cons (Nat.le_add_right _ _) small.1

theorem canonicalOptions_grows {now : Clock} {options canonical : List Bytes}
    (small : ∀ word ∈ options, word.length ≤ 1 <<< 20)
    (result : canonicalOptions now options = some canonical) : Grows options canonical := by
  induction options using optionNames.induct generalizing canonical with
  | case1 =>
      cases result
      exact .refl (by simp)
  | case2 option => cases result
  | case3 option argument rest inductionHypothesis =>
      simp only [canonicalOptions] at result
      split at result
      next => cases result
      next option' argument' first =>
        obtain ⟨others, tail, rfl⟩ := Option.map_eq_some_iff.mp result
        simp only [List.mem_cons, forall_eq_or_imp] at small
        exact canonicalOption_grows ⟨small.1, small.2.1⟩ first
          (inductionHypothesis small.2.2 tail)

omit [GoTables] in
theorem canonicalExpire_grows {now : Clock} {args canonical : List Bytes}
    (small : ∀ word ∈ args, word.length ≤ 1 <<< 20)
    (result : canonicalExpire now args = some canonical) : Grows args canonical := by
  unfold canonicalExpire at result
  split at result
  next key argument =>
    split at result
    next => cases result
    next seconds parsed =>
      split at result
      next => cases result
      next valid =>
        cases result
        simp only [List.mem_cons, forall_eq_or_imp] at small
        have bounded := now.bounded
        have short : (Decimal.formatInt (Time.toUnixMilli (if seconds > 0 then
            now.now + seconds * Time.second else now.now))).length ≤ 20 := by
          simp only [maxInt64, Time.second] at valid
          refine formatInt_toUnixMilli_length ?_ ?_ <;> split <;>
            simp only [Clock.now, Time.second] <;> omega
        exact ((Grows.refl (by simp)).cons (by omega) (by omega)).cons (by omega) small.1
  next => cases result

/-- Making a command canonical keeps the number of arguments, and makes them
little longer. -/
theorem canonicalCommand_grows {command canonical : Command} {now : Clock}
    (small : command.Small) (result : canonicalCommand command now = some canonical) :
    Grows command.args canonical.args := by
  unfold canonicalCommand at result
  split at result
  next =>
    obtain ⟨args, found, rfl⟩ := Option.map_eq_some_iff.mp result
    have each := small.each
    unfold canonicalSet at found
    split at found
    next key value options same =>
      obtain ⟨others, tail, rfl⟩ := Option.map_eq_some_iff.mp found
      rw [same] at each ⊢
      simp only [List.mem_cons, forall_eq_or_imp] at each
      exact ((canonicalOptions_grows each.2.2 tail).cons (by omega) each.2.1).cons (by omega) each.1
    next => cases found
  next =>
    obtain ⟨args, found, rfl⟩ := Option.map_eq_some_iff.mp result
    exact canonicalExpire_grows small.each found
  next =>
    split at result
    next => cases result
    next =>
      cases result
      exact .refl small.each
  next =>
    split at result
    next =>
      cases result
      exact .refl small.each
    next => cases result

/-! ## Reading back -/

omit [GoTables] in
theorem costAll_bulk_le {words : List Bytes} (each : ∀ word ∈ words, word.length ≤ 1 <<< 20) :
    costAll (words.map .bulkString) ≤ totalLength words + 14 * words.length := by
  induction words with
  | nil => simp [costAll, totalLength]
  | cons word words inductionHypothesis =>
      have rest := inductionHypothesis fun other membership =>
        each other (List.mem_cons_of_mem _ membership)
      have small := each word List.mem_cons_self
      have digits : (Decimal.formatNat word.length).length ≤ 7 :=
        Decimal.formatNat_length (by omega) (by decide)
      simp only [totalLength] at rest
      simp only [List.map_cons, costAll, cost, totalLength, List.sum_cons, List.length_cons]
      omega

omit [GoTables] in
/-- A count or a length below ten millions fits on its line. -/
theorem headerWithin_record {bound size : Nat} (small : size ≤ bound) (few : size < 10 ^ 7) :
    HeaderWithin recordLimits (some bound) size where
  width := by
    simp only [recordLimits, Limits.withMessage, Decimal.fits, Option.all_some,
      decide_eq_true_eq]
    omega
  bound := by simpa [exceeds] using small
  line := by
    have digits : (Decimal.formatNat size).length ≤ 7 := Decimal.formatNat_length few (by decide)
    simp only [recordLimits, Limits.withMessage, exceeds, Option.any_some,
      decide_eq_false_iff_not, not_lt]
    omega

omit [GoTables] in
theorem readableAll_bulk {words : List Bytes} (each : ∀ word ∈ words, word.length ≤ 1 <<< 20) :
    ReadableAll recordLimits (words.map .bulkString) := by
  induction words with
  | nil => trivial
  | cons word words inductionHypothesis =>
      have small := each word List.mem_cons_self
      exact ⟨headerWithin_record small (by omega),
        inductionHypothesis fun other membership => each other (List.mem_cons_of_mem _ membership)⟩

omit [GoTables] in
theorem nestingAll_bulk (words : List Bytes) : nestingAll (words.map .bulkString) ≤ 1 := by
  induction words with
  | nil => simp [nestingAll]
  | cons word words inductionHypothesis => simpa [nestingAll, nesting] using inductionHypothesis

omit [GoTables] in
/-- A record within the limits of recovery is decoded whole. -/
theorem decode_record {command : Command} (few : command.args.length < 1024)
    (each : ∀ word ∈ command.name :: command.args, word.length ≤ 1 <<< 20)
    (total : totalLength (command.name :: command.args) ≤ 3 <<< 20) :
    decode recordLimits command.record = .ok (command.value, []) := by
  have readable : Readable recordLimits command.value := by
    refine ⟨headerWithin_record ?_ ?_, readableAll_bulk each⟩ <;>
      simp only [List.length_map, List.length_cons] <;> omega
  have nested : nesting command.value ≤ 64 := by
    have inner := nestingAll_bulk (command.name :: command.args)
    simp only [Command.value, nesting]
    omega
  have message : exceeds recordLimits.message (cost command.value) = false := by
    have items := costAll_bulk_le each
    have digits : (Decimal.formatNat ((command.name :: command.args).map
        Value.bulkString).length).length ≤ 4 := by
      refine Decimal.formatNat_length ?_ (by decide)
      simp only [List.length_map, List.length_cons]
      omega
    simp only [recordLimits, Limits.withMessage, maxRecordBytes, exceeds, Option.any_some,
      decide_eq_false_iff_not, not_lt, Command.value, cost, List.length_cons] at items digits ⊢
    omega
  simpa [Command.record] using decode_encode [] readable nested message

omit [GoTables] in
theorem Verb.name_length (verb : Verb) : verb.name.length ≤ 9 := by
  cases verb <;> decide

/-- A recorded command whose arguments fit is read back. -/
theorem readsBack_of_short {command canonical : Command} {now : Clock} (small : command.Small)
    (recorded : canonicalCommand command now = some canonical)
    (few : command.args.length < 1024) : ReadsBack canonical.record canonical := by
  have grows := canonicalCommand_grows small recorded
  obtain ⟨verb, isVerb⟩ := verb_of_mutation (canonicalCommand_canonical recorded).mutation
  have nameLength := verb.name_length
  have total := small.total
  have grown := grows.total
  refine ⟨canonical.value, decode_record (by rw [grows.length]; exact few) ?_ ?_, ?_⟩
  · rw [isVerb]
    simpa using ⟨by omega, grows.each⟩
  · rw [isVerb]
    simp only [totalLength, List.map_cons, List.sum_cons] at total grown ⊢
    omega
  · rw [Command.value, parse_bulk, isVerb, verb.toUpper_name, ← isVerb]

omit [GoTables] in
theorem decodeMany_length {decodeOne : Reader → Except DecodeError (Value × Reader)} {count : Nat}
    {reader after : Reader} {values : List Value}
    (decoded : decodeMany decodeOne count reader = .ok (values, after)) :
    values.length = count := by
  induction count generalizing reader values with
  | zero =>
      cases decoded
      rfl
  | succ count inductionHypothesis =>
      obtain ⟨⟨value, middle⟩, -, decoded⟩ := bind_eq_ok.mp decoded
      obtain ⟨⟨others, finish⟩, rest, decoded⟩ := bind_eq_ok.mp decoded
      cases decoded
      rw [List.length_cons, inductionHypothesis rest]

omit [GoTables] in
/-- A framed array has no more elements than the limit. -/
theorem decodeArray_length {limits : Limits}
    {decodeOne : Reader → Except DecodeError (Value × Reader)} {reader after : Reader}
    {items : List Value}
    (decoded : decodeArray limits decodeOne reader = .ok (.array items, after)) :
    exceeds limits.array items.length = false := by
  unfold decodeArray at decoded
  obtain ⟨⟨line, lineEnd⟩, -, decoded⟩ := bind_eq_ok.mp decoded
  dsimp only at decoded
  split at decoded
  next => cases decoded
  next count parsed =>
    split_ifs at decoded with null negative long
    · cases decoded
      exact exceeds_zero _
    · obtain ⟨⟨values, finish⟩, many, decoded⟩ := bind_eq_ok.mp decoded
      cases decoded
      rw [decodeMany_length many]
      simpa using long

/-- A record with too many words is refused by recovery. -/
theorem short_of_readsBack {command : Command} (readsBack : ReadsBack command.record command) :
    command.args.length < 1024 := by
  obtain ⟨value, decoded, parsed⟩ := readsBack
  obtain ⟨first, others, rfl, lengths⟩ := parse_eq_ok parsed
  unfold decode at decoded
  split at decoded
  next => cases decoded
  next found reader read =>
    obtain ⟨rfl, -⟩ : found = .array (first :: others) ∧ reader.input = [] := by
      simpa using decoded
    obtain ⟨body, framed⟩ : ∃ body, command.record = 42 :: body := ⟨_, rfl⟩
    have depth : recordLimits.depth.getD (command.record.length + 1) = 63 + 1 := rfl
    rw [depth, framed, decodeValue_type (by decide), if_neg (by decide), if_neg (by decide),
      if_neg (by decide), if_neg (by decide), if_pos rfl] at read
    have short := decodeArray_length read
    have count := congrArg List.length lengths
    simp only [recordLimits, Limits.withMessage, exceeds, Option.any_some,
      decide_eq_false_iff_not, not_lt, List.length_cons, List.length_map] at short count
    omega

/-- A request that is recorded is read back by recovery exactly if it has
fewer than 1024 arguments. -/
theorem readsBack_iff {input rest data : Bytes} {value : Value} {command canonical : Command}
    {now : Clock} (decoded : decode requestLimits input = .ok (value, rest))
    (parsed : parse value = .ok command)
    (recorded : canonicalCommand command now = some canonical)
    (emitted : encodeRecord canonical = .ok data) :
    ReadsBack data canonical ↔ command.args.length < 1024 := by
  have small := small_of_request decoded parsed
  rw [(encodeRecord_eq_ok.mp emitted).1]
  constructor
  · intro readsBack
    rw [← (canonicalCommand_grows small recorded).length]
    exact short_of_readsBack readsBack
  · exact readsBack_of_short small recorded

end

section

attribute [local instance] GoTables.ascii

/-- The line `DEL k` is recorded and read back. -/
theorem readsBack_iff_del :
    ReadsBack (Command.record ⟨bytes "DEL", [bytes "k"]⟩) ⟨bytes "DEL", [bytes "k"]⟩ ↔
      [bytes "k"].length < 1024 := by
  have decoded : decode requestLimits (bytes "DEL k" ++ crlf ++ []) =
      .ok (.array ((fields (bytes "DEL k")).map .bulkString), []) :=
    decode_inline [] (by decide) (by decide) (by decide +kernel) (by decide) (by decide)
      (by decide)
  have words : fields (bytes "DEL k") = [bytes "DEL", bytes "k"] := by decide +kernel
  rw [words] at decoded
  have recorded : canonicalCommand ⟨bytes "DEL", [bytes "k"]⟩ ⟨0, by decide⟩ =
      some ⟨bytes "DEL", [bytes "k"]⟩ := by decide +kernel
  exact readsBack_iff decoded (parse_bulk _ _) recorded
    (encodeRecord_eq_ok.mpr ⟨rfl, by decide +kernel⟩)

/-- A line of 1025 words is executed and recorded, and the record keeps the
server from starting. -/
theorem long_line_not_readsBack :
    let line := bytes "DEL" ++ (List.replicate 1024 (bytes " k")).flatten
    let command : Command := ⟨bytes "DEL", List.replicate 1024 (bytes "k")⟩
    ∃ value, decode requestLimits (line ++ crlf) = .ok (value, []) ∧ parse value = .ok command ∧
      isMutation command.name = true ∧
      canonicalCommand command ⟨0, by decide⟩ = some command ∧
      encodeRecord command = .ok command.record ∧ ¬ ReadsBack command.record command := by
  intro line command
  have words : fields line = bytes "DEL" :: List.replicate 1024 (bytes "k") := by decide +kernel
  refine ⟨.array ((fields line).map .bulkString), ?_, ?_, ?_, ?_, ?_, ?_⟩
  · have decoded : decode requestLimits (line ++ crlf ++ []) = _ :=
      decode_inline [] (by decide +kernel) (by decide +kernel) (by decide +kernel) (by decide)
        (by decide +kernel) (by decide +kernel)
    rwa [List.append_nil] at decoded
  · rw [words]
    exact parse_bulk _ _
  · decide +kernel
  · decide +kernel
  · exact encodeRecord_eq_ok.mpr ⟨rfl, by decide +kernel⟩
  · intro readsBack
    have short : (List.replicate 1024 (bytes "k")).length < 1024 := short_of_readsBack readsBack
    rw [List.length_replicate] at short
    exact absurd short (by decide)

end

end Carrot
