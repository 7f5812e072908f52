import Carrot.Resp.Messages

/-!
# What the limit on messages counts

The decoder charges the line break after the payload of a bulk string twice:
once with the payload, and once when it is checked.  A message is therefore
accepted if its bytes, and two more for each of its bulk strings, are within
the limit.
-/

namespace Carrot

/-! ## The limit on messages decides nothing but acceptance -/

/-- What one computation returns, the other one returns as well. -/
def AlsoReturns {Result : Type} (limited free : Except DecodeError Result) : Prop :=
  ∀ result, limited = .ok result → free = .ok result

namespace AlsoReturns

variable {First Second : Type} {limited free : Except DecodeError First}

theorem refl (outcome : Except DecodeError First) : AlsoReturns outcome outcome :=
  fun _ returned => returned

theorem of_error (cause : DecodeError) : AlsoReturns (.error cause) free :=
  fun _ returned => by cases returned

theorem bind {next nextFree : First → Except DecodeError Second} (first : AlsoReturns limited free)
    (second : ∀ value, AlsoReturns (next value) (nextFree value)) :
    AlsoReturns (limited >>= next) (free >>= nextFree) := by
  intro result returned
  obtain ⟨value, start, rest⟩ := bind_eq_ok.mp returned
  exact bind_eq_ok.mpr ⟨value, first value start, second value result rest⟩

theorem ite {condition : Prop} [Decidable condition] {other otherFree : Except DecodeError First}
    (yes : AlsoReturns limited free) (no : AlsoReturns other otherFree) :
    AlsoReturns (if condition then limited else other) (if condition then free else otherFree) := by
  split
  next => exact yes
  next => exact no

end AlsoReturns

/-- The same limits without a limit on messages. -/
def Limits.boundless (limits : Limits) : Limits := { limits with message := none }

section

variable (limits : Limits)

theorem consume_boundless (reader : Reader) (amount : Nat) :
    AlsoReturns (consume limits reader amount) (consume limits.boundless reader amount) := by
  unfold consume
  split
  next => exact .of_error _
  next => exact .refl _

theorem readByte_boundless (reader : Reader) :
    AlsoReturns (readByte limits reader) (readByte limits.boundless reader) := by
  rcases reader with ⟨input, used⟩
  cases input with
  | nil => exact .of_error _
  | cons byte rest => exact (consume_boundless limits _ 1).bind fun _ => .refl _

theorem chargeChunk_boundless (reader : Reader) (line chunk : Bytes) :
    AlsoReturns (chargeChunk limits reader line chunk)
      (chargeChunk limits.boundless reader line chunk) := by
  unfold chargeChunk
  refine .ite ?_ (.refl _)
  cases paid : consume limits reader chunk.length with
  | error cause => exact .of_error cause
  | ok counted =>
      rw [consume_boundless limits reader _ counted paid]
      exact .refl _

theorem readLineLoop_boundless (fuel : Nat) (reader : Reader) (line : Bytes) :
    AlsoReturns (readLineLoop limits fuel reader line)
      (readLineLoop limits.boundless fuel reader line) := by
  induction fuel generalizing reader line with
  | zero => exact .of_error _
  | succ fuel inductionHypothesis =>
      simp only [readLineLoop]
      split
      next cause _ => exact .of_error cause
      next charged paid =>
        rw [chargeChunk_boundless limits _ _ _ charged paid]
        cases (readSlice reader.input).status with
        | delimiter => exact .refl _
        | bufferFull => exact inductionHypothesis _ _
        | endOfInput => exact .of_error _

theorem readLine_boundless (reader : Reader) :
    AlsoReturns (readLine limits reader) (readLine limits.boundless reader) :=
  readLineLoop_boundless limits _ reader []

theorem expectCrlf_boundless (reader : Reader) :
    AlsoReturns (expectCrlf limits reader) (expectCrlf limits.boundless reader) :=
  (readByte_boundless limits reader).bind fun _ =>
    (readByte_boundless limits _).bind fun _ => .refl _

theorem decodeBulkString_boundless (reader : Reader) :
    AlsoReturns (decodeBulkString limits reader) (decodeBulkString limits.boundless reader) := by
  refine (readLine_boundless limits reader).bind fun ⟨line, reader⟩ => ?_
  simp only [Limits.boundless]
  cases Decimal.parseSigned limits.width line with
  | error cause => exact .of_error _
  | ok length =>
      refine .ite (.refl _) (.ite (.of_error _) (.ite (.of_error _) ?_))
      exact (consume_boundless limits reader _).bind fun _ => (AlsoReturns.refl _).bind fun _ =>
        (expectCrlf_boundless limits _).bind fun _ => .refl _

theorem decodeMany_boundless {decodeOne decodeFree : Reader → Except DecodeError (Value × Reader)}
    (one : ∀ reader, AlsoReturns (decodeOne reader) (decodeFree reader)) (count : Nat)
    (reader : Reader) :
    AlsoReturns (decodeMany decodeOne count reader) (decodeMany decodeFree count reader) := by
  induction count generalizing reader with
  | zero => exact .refl _
  | succ count inductionHypothesis =>
      exact (one reader).bind fun _ => (inductionHypothesis _).bind fun _ => .refl _

theorem decodeArray_boundless {decodeOne decodeFree : Reader → Except DecodeError (Value × Reader)}
    (one : ∀ reader, AlsoReturns (decodeOne reader) (decodeFree reader)) (reader : Reader) :
    AlsoReturns (decodeArray limits decodeOne reader)
      (decodeArray limits.boundless decodeFree reader) := by
  refine (readLine_boundless limits reader).bind fun ⟨line, reader⟩ => ?_
  simp only [Limits.boundless]
  cases Decimal.parseSigned limits.width line with
  | error cause => exact .of_error _
  | ok count =>
      refine .ite (.refl _) (.ite (.of_error _) (.ite (.of_error _) ?_))
      exact (decodeMany_boundless one _ _).bind fun _ => .refl _

theorem decodeInline_boundless (reader : Reader) :
    AlsoReturns (decodeInline limits reader) (decodeInline limits.boundless reader) := by
  unfold decodeInline
  split
  next => exact .of_error _
  next line after read =>
    rw [readLine_boundless limits reader _ read]
    exact .refl _

/-- A message that is accepted is read in the same way without a limit on
messages. -/
theorem decodeValue_boundless (depth : Nat) (reader : Reader) :
    AlsoReturns (decodeValue limits depth reader) (decodeValue limits.boundless depth reader) := by
  induction depth generalizing reader with
  | zero => exact .of_error _
  | succ depth inductionHypothesis =>
      refine (readByte_boundless limits reader).bind fun ⟨type, after⟩ => ?_
      refine .ite ((readLine_boundless limits after).bind fun _ => .refl _) ?_
      refine .ite ((readLine_boundless limits after).bind fun _ => .refl _) ?_
      refine .ite ((readLine_boundless limits after).bind fun _ => .refl _) ?_
      refine .ite (decodeBulkString_boundless limits after) ?_
      refine .ite (decodeArray_boundless limits inductionHypothesis after) ?_
      exact decodeInline_boundless limits reader

end

/-! ## What is charged for a value -/

mutual

/-- The number of payloads in a value, one for each bulk string in it that is
not null. -/
def payloads : Value → Nat
  | .bulkString _ => 1
  | .array items => payloadsAll items
  | _ => 0

def payloadsAll : List Value → Nat
  | [] => 0
  | value :: values => payloads value + payloadsAll values

end

mutual

/-- Every byte is charged once, and the line break after a payload twice. -/
theorem cost_eq (value : Value) : cost value = (encode value).length + 2 * payloads value := by
  cases value with
  | array items =>
      simp only [cost, encode, payloads, costAll_eq items, List.length_cons, List.length_append,
        crlf, List.length_nil]
      omega
  | _ =>
      simp only [cost, encode, payloads, List.length_cons, List.length_append, crlf,
        List.length_nil]
      try omega

theorem costAll_eq (values : List Value) :
    costAll values = (encodeAll values).length + 2 * payloadsAll values := by
  cases values with
  | nil => rfl
  | cons value values =>
      simp only [costAll, encodeAll, payloadsAll, List.length_append, cost_eq value,
        costAll_eq values]
      omega

end

mutual

theorem readable_boundless {limits : Limits} {value : Value} (readable : Readable limits value) :
    Readable limits.boundless value := by
  cases value with
  | array items => exact ⟨⟨readable.1.width, readable.1.bound, readable.1.line⟩,
      readableAll_boundless readable.2⟩
  | bulkString text => exact ⟨readable.width, readable.bound, readable.line⟩
  | _ => exact readable

theorem readableAll_boundless {limits : Limits} {values : List Value}
    (readable : ReadableAll limits values) : ReadableAll limits.boundless values := by
  cases values with
  | nil => trivial
  | cons value values =>
      exact ⟨readable_boundless readable.1, readableAll_boundless readable.2⟩

end

/-- What a decoder returns for the encoding of a value, and what it has charged. -/
theorem decodeValue_encode_eq {limits : Limits} {value decoded : Value} {depth used : Nat}
    {rest : Bytes} {after : Reader} (readable : Readable limits value)
    (nested : nesting value ≤ depth) (start : exceeds limits.message used = false)
    (returned : decodeValue limits depth ⟨encode value ++ rest, used⟩ = .ok (decoded, after)) :
    decoded = value ∧ after = ⟨rest, used + cost value⟩ ∧
      exceeds limits.message (used + cost value) = false := by
  have within := (decodeValue_fits start returned).charged.within
  have free := decodeValue_boundless limits depth _ _ returned
  rw [decodeValue_encode value depth used rest (readable_boundless readable) nested rfl] at free
  cases free
  exact ⟨rfl, rfl, within⟩

/-- A decoder accepts the encoding of a value if what it charges is within its
limit. -/
theorem decode_encode_ok_iff {limits : Limits} {value : Value} (rest : Bytes)
    (readable : Readable limits value)
    (nested : nesting value ≤ limits.depth.getD ((encode value ++ rest).length + 1)) :
    (∃ result, decode limits (encode value ++ rest) = .ok result) ↔
      exceeds limits.message (cost value) = false := by
  constructor
  · rintro ⟨result, accepted⟩
    unfold decode at accepted
    split at accepted
    next => cases accepted
    next decoded after returned =>
      have charged := (decodeValue_encode_eq readable nested (exceeds_zero _) returned).2.2
      rwa [Nat.zero_add] at charged
  · intro within
    exact ⟨_, decode_encode rest readable nested within⟩

/-- The decoder with this limit on messages accepts the encoding of the value. -/
def Accepts (maxMessageBytes : Nat) (value : Value) : Prop :=
  ∃ result, decode (.withMessage maxMessageBytes) (encode value) = .ok result

theorem accepts_iff {value : Value} (regular : value.Regular) (nested : nesting value ≤ 64)
    (maxMessageBytes : Nat) :
    Accepts maxMessageBytes value ↔
      (encode value).length + 2 * payloads value ≤ maxMessageBytes := by
  have accepted := decode_encode_ok_iff [] (regular.readable maxMessageBytes) nested
  rw [List.append_nil] at accepted
  rw [Accepts, accepted, ← cost_eq]
  simp [exceeds, Limits.withMessage]

/-- The limit counts the bytes of a message unless it lies in the gap that the
line breaks charged twice make, and the bytes charged are those consumed unless
there are such line breaks. -/
theorem accepts_iff_length_le_iff {value : Value} (regular : value.Regular)
    (nested : nesting value ≤ 64) (maxMessageBytes : Nat) :
    ((Accepts maxMessageBytes value ↔ (encode value).length ≤ maxMessageBytes) ↔
      ¬ ((encode value).length ≤ maxMessageBytes ∧
        maxMessageBytes < (encode value).length + 2 * payloads value)) ∧
    ∀ (rest : Bytes) (used : Nat) (decoded : Value) (after : Reader),
      decodeNext (.withMessage maxMessageBytes) ⟨encode value ++ rest, used⟩ =
          .ok (decoded, after) →
        (after.used + after.input.length = (encode value ++ rest).length ↔
          payloads value = 0) := by
  refine ⟨?_, fun rest used decoded after returned => ?_⟩
  · rw [accepts_iff regular nested]
    omega
  · obtain ⟨-, rfl, -⟩ := decodeValue_encode_eq (regular.readable maxMessageBytes) nested
      (exceeds_zero _) returned
    rw [cost_eq, List.length_append]
    dsimp only
    omega

/-- A simple string is charged exactly its bytes. -/
theorem accepts_iff_length_le_iff_pong :
    (Accepts 7 (.simpleString (bytes "PONG")) ↔
      (encode (.simpleString (bytes "PONG"))).length ≤ 7) := by
  have regular : (Value.simpleString (bytes "PONG")).Regular := ⟨by decide, by decide⟩
  exact (accepts_iff_length_le_iff regular (Nat.one_le_ofNat) 7).1.mpr (by decide)

/-- A bulk string of one byte takes seven bytes, and a limit of seven bytes
refuses it. -/
theorem bulk_string_refused_at_its_length :
    (Value.bulkString [107]).Regular ∧ (encode (.bulkString [107])).length = 7 ∧
      decode (.withMessage 7) (encode (.bulkString [107])) = .error (.messageTooLarge 7) ∧
      decode (.withMessage 9) (encode (.bulkString [107])) = .ok (.bulkString [107], []) :=
  ⟨show 1 ≤ 1 <<< 20 by decide, rfl, rfl, rfl⟩

end Carrot
