import Carrot.Resp.Stream

/-!
# Several messages

One decoder reads message after message from a stream.  It counts the bytes of
each message from zero and leaves what follows the message unread.
-/

namespace Carrot

variable {limits : Limits}

/-- One call of `Decode`.  The count of the message before is still there. -/
def decodeNext (limits : Limits) (reader : Reader) : Except DecodeError (Value × Reader) :=
  decodeValue limits (limits.depth.getD (reader.input.length + 1)) { reader with used := 0 }

/-! ## Every message takes some input -/

/-- A reading step that does not leave more input than there was. -/
abbrev ConsumesInput {Result : Type} (read : Reader → Except DecodeError (Result × Reader)) :
    Prop :=
  Consumes (fun reader : Reader => reader.input.length) read

theorem readByte_shortens {reader after : Reader} {byte : UInt8}
    (read : readByte limits reader = .ok (byte, after)) :
    after.input.length < reader.input.length := by
  unfold readByte at read
  split at read
  next => cases read
  next first rest shape =>
    obtain ⟨charged, paid, result⟩ := bind_eq_ok.mp read
    cases result
    rw [(consume_charged paid).2, shape]
    simp

theorem readByte_consumes : ConsumesInput (readByte limits) :=
  ⟨fun read => (readByte_shortens read).le⟩

theorem ConsumesInput.consume {Result : Type}
    {next : Reader → Except DecodeError (Result × Reader)} (amount : Nat)
    (consumes : ConsumesInput next) :
    ConsumesInput fun reader => Carrot.consume limits reader amount >>= next where
  le read := by
    obtain ⟨charged, paid, read⟩ := bind_eq_ok.mp read
    rw [← (consume_charged paid).2]
    exact consumes.le read

theorem readLineLoop_shortens {fuel : Nat} {reader after : Reader} {line text : Bytes}
    (read : readLineLoop limits fuel reader line = .ok (text, after)) :
    after.input.length < reader.input.length := by
  induction fuel generalizing reader line with
  | zero => cases read
  | succ fuel inductionHypothesis =>
      simp only [readLineLoop] at read
      split at read
      next => cases read
      next charged paid =>
        have same : charged.input = (readSlice reader.input).rest := chargeChunk_input paid
        split at read
        next status =>
          obtain ⟨stripped, _, result⟩ := map_eq_ok.mp read
          cases result
          rw [same]
          exact readSlice_rest_length (by simp [status])
        next status =>
          have left := inductionHypothesis read
          rw [same] at left
          exact left.trans (readSlice_rest_length (by simp [status]))
        next => cases read

theorem readLine_shortens {reader after : Reader} {line : Bytes}
    (read : readLine limits reader = .ok (line, after)) :
    after.input.length < reader.input.length :=
  readLineLoop_shortens read

theorem readLine_consumes : ConsumesInput (readLine limits) :=
  ⟨fun read => (readLine_shortens read).le⟩

theorem readFull_consumes (size : Nat) : ConsumesInput fun reader => readFull reader size where
  le read := by
    unfold readFull at read
    split_ifs at read
    cases read
    simp

theorem expectCrlf_consumes : ConsumesInput (expectCrlf limits) :=
  readByte_consumes.bind fun _ => readByte_consumes.bind fun _ => .ite .fail (.done ())

theorem decodeInteger_consumes : ConsumesInput (decodeInteger limits) := by
  refine readLine_consumes.bind fun line => ?_
  dsimp only
  cases Decimal.parseInt line with
  | error cause => exact .fail
  | ok value => exact .done _

theorem decodeBulkString_consumes : ConsumesInput (decodeBulkString limits) := by
  refine readLine_consumes.bind fun line => ?_
  dsimp only
  cases Decimal.parseSigned limits.width line with
  | error cause => exact .fail
  | ok length =>
      refine .ite (.done _) (.ite .fail (.ite .fail (ConsumesInput.consume _ ?_)))
      refine (readFull_consumes _).bind fun payload => ?_
      dsimp only
      exact expectCrlf_consumes.bind fun _ => .done (Value.bulkString payload)

theorem decodeArray_consumes {decodeOne : Reader → Except DecodeError (Value × Reader)}
    (consumes : ConsumesInput decodeOne) : ConsumesInput (decodeArray limits decodeOne) := by
  have many : ∀ count, ConsumesInput (decodeMany decodeOne count) := by
    intro count
    induction count with
    | zero => exact .done []
    | succ count inductionHypothesis =>
        exact consumes.bind fun value => inductionHypothesis.bind fun values =>
          .done (value :: values)
  refine readLine_consumes.bind fun line => ?_
  dsimp only
  cases Decimal.parseSigned limits.width line with
  | error cause => exact .fail
  | ok count =>
      refine .ite (.done _) (.ite .fail (.ite .fail ?_))
      exact (many _).bind fun values => .done (Value.array values)

/-- Reading a value takes at least one byte. -/
theorem decodeValue_shortens {depth : Nat} {reader after : Reader} {value : Value}
    (read : decodeValue limits depth reader = .ok (value, after)) :
    after.input.length < reader.input.length := by
  induction depth generalizing reader after value with
  | zero => cases read
  | succ depth inductionHypothesis =>
      obtain ⟨⟨type, next⟩, byte, read⟩ := bind_eq_ok.mp read
      have shorter := readByte_shortens byte
      have elements : ConsumesInput (decodeValue limits depth) :=
        ⟨fun element => (inductionHypothesis element).le⟩
      dsimp only at read
      split_ifs at read
      · exact ((readLine_consumes.bind fun line => .done (Value.simpleString line)).le
          read).trans_lt shorter
      · exact ((readLine_consumes.bind fun line => .done (Value.error line)).le
          read).trans_lt shorter
      · exact (decodeInteger_consumes.le read).trans_lt shorter
      · exact (decodeBulkString_consumes.le read).trans_lt shorter
      · exact ((decodeArray_consumes elements).le read).trans_lt shorter
      · unfold decodeInline at read
        split at read
        next => cases read
        next line =>
          dsimp only at read
          split_ifs at read
          cases read
          exact readLine_shortens line

theorem decode_shortens {input rest : Bytes} {value : Value}
    (decoded : decode limits input = .ok (value, rest)) : rest.length < input.length := by
  unfold decode at decoded
  split at decoded
  next => cases decoded
  next read =>
    cases decoded
    exact decodeValue_shortens read

/-! ## Reading back a list of values -/

mutual

/-- A value of the format: its lines, payloads and arrays are not longer than
every decoder allows, and its lines hold no line feeds. -/
def Value.Regular : Value → Prop
  | .simpleString text => 10 ∉ text ∧ text.length + 2 ≤ 16 * 1024
  | .error text => 10 ∉ text ∧ text.length + 2 ≤ 16 * 1024
  | .integer _ => True
  | .bulkString text => text.length ≤ 1 <<< 20
  | .nullBulkString => True
  | .array items => items.length ≤ 1024 ∧ RegularAll items

def RegularAll : List Value → Prop
  | [] => True
  | value :: values => value.Regular ∧ RegularAll values

end

theorem exceeds_some {bound amount : Nat} (within : amount ≤ bound) :
    exceeds (some bound) amount = false := by
  simpa [exceeds] using within

/-- A length or a count of at most seven digits is within the fixed limits. -/
theorem headerWithin_withMessage {maxMessageBytes bound size : Nat} (within : size ≤ bound)
    (small : bound < 10 ^ 7) :
    HeaderWithin (.withMessage maxMessageBytes) (some bound) size where
  width := by
    simp only [Limits.withMessage, Decimal.fits, Option.all_some, decide_eq_true_eq]
    omega
  bound := exceeds_some within
  line := by
    have digits := Decimal.formatNat_length (show size < 10 ^ 7 by omega) (by decide)
    exact exceeds_some (by omega)

theorem formatInt_length (number : Int64) : (Decimal.formatInt number.toInt).length ≤ 20 := by
  have low := number.le_toInt
  have high := number.toInt_lt
  have digits := Decimal.formatNat_length (show number.toInt.natAbs < 10 ^ 19 by omega) (by decide)
  unfold Decimal.formatInt
  split
  next =>
    rw [List.length_cons]
    omega
  next => omega

mutual

theorem Value.Regular.readable {value : Value} (regular : value.Regular) (maxMessageBytes : Nat) :
    Readable (.withMessage maxMessageBytes) value := by
  cases value with
  | simpleString text => exact ⟨regular.1, exceeds_some regular.2⟩
  | error text => exact ⟨regular.1, exceeds_some regular.2⟩
  | integer number =>
      have digits := formatInt_length number
      exact exceeds_some (by omega)
  | bulkString text => exact headerWithin_withMessage regular (by decide)
  | nullBulkString => exact exceeds_some (by decide)
  | array items =>
      exact ⟨headerWithin_withMessage regular.1 (by decide), regularAll_readable regular.2 _⟩

theorem regularAll_readable {values : List Value} (regular : RegularAll values)
    (maxMessageBytes : Nat) : ReadableAll (.withMessage maxMessageBytes) values := by
  cases values with
  | nil => trivial
  | cons value values =>
      exact ⟨regular.1.readable _, regularAll_readable regular.2 _⟩

end

/-- A decoder with a large enough limit on messages reads any list of values of
the format back, one call after the other, and leaves what follows unread. -/
theorem decodes_encoded_messages (values : List Value)
    (regular : ∀ value ∈ values, value.Regular ∧ nesting value ≤ 64) :
    ∃ enough, ∀ maxMessageBytes, enough ≤ maxMessageBytes → ∀ (rest : Bytes) (used : Nat),
      ∃ charged, decodeMany (decodeNext (.withMessage maxMessageBytes)) values.length
        ⟨encodeAll values ++ rest, used⟩ = .ok (values, ⟨rest, charged⟩) := by
  refine ⟨costAll values, fun maxMessageBytes enough rest used => ?_⟩
  induction values generalizing used with
  | nil => exact ⟨used, rfl⟩
  | cons value values inductionHypothesis =>
      obtain ⟨⟨valueRegular, nested⟩, others⟩ := List.forall_mem_cons.mp regular
      simp only [costAll] at enough
      have first : decodeNext (.withMessage maxMessageBytes)
          ⟨encode value ++ (encodeAll values ++ rest), used⟩ =
          .ok (value, ⟨encodeAll values ++ rest, 0 + cost value⟩) :=
        decodeValue_encode value 64 0 _ (valueRegular.readable _) nested
          (exceeds_some (by omega))
      obtain ⟨charged, later⟩ := inductionHypothesis others (by omega) (0 + cost value)
      refine ⟨charged, ?_⟩
      simp only [encodeAll, List.append_assoc, List.length_cons, decodeMany, first, bind,
        Except.bind, later]

/-- A line break inside a payload, the smallest integer and an empty array. -/
theorem decodes_encoded_messages_nested :
    ∃ enough, ∀ maxMessageBytes, enough ≤ maxMessageBytes → ∀ (rest : Bytes) (used : Nat),
      ∃ charged, decodeMany (decodeNext (.withMessage maxMessageBytes)) 2
        ⟨encodeAll [.array [.bulkString [13, 10], .integer (-(2 ^ 63)), .array []],
          .nullBulkString] ++ rest, used⟩ =
        .ok ([.array [.bulkString [13, 10], .integer (-(2 ^ 63)), .array []], .nullBulkString],
          ⟨rest, charged⟩) := by
  refine decodes_encoded_messages
    [.array [.bulkString [13, 10], .integer (-(2 ^ 63)), .array []], .nullBulkString] ?_
  simp [Value.Regular, RegularAll, nesting, nestingAll]

end Carrot
