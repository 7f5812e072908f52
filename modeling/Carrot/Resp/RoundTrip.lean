import Carrot.Resp.Decode

/-!
# Reading back what was written

A value whose texts hold no line feed and that stays within the limits of a
decoder is read back from its encoding, whatever follows it.
-/

namespace Carrot

theorem exceeds_mono {limit : Option Nat} {smaller larger : Nat} (ordered : smaller ≤ larger)
    (within : exceeds limit larger = false) : exceeds limit smaller = false := by
  cases limit with
  | none => rfl
  | some bound =>
      simp only [exceeds, Option.any_some, decide_eq_false_iff_not] at within ⊢
      omega

theorem consume_within {limits : Limits} {input : Bytes} {used amount : Nat}
    (within : exceeds limits.message (used + amount) = false) :
    consume limits ⟨input, used⟩ amount = .ok ⟨input, used + amount⟩ := by
  simp [consume, within]

theorem readByte_within {limits : Limits} {byte : UInt8} {rest : Bytes} {used : Nat}
    (within : exceeds limits.message (used + 1) = false) :
    readByte limits ⟨byte :: rest, used⟩ = .ok (byte, ⟨rest, used + 1⟩) := by
  simp only [readByte]
  rw [consume_within within]
  rfl

/-! ## Lines -/

theorem readSlice_short {text : Bytes} (noLineFeed : 10 ∉ text) (short : text.length < 4096)
    (rest : Bytes) :
    readSlice (text ++ 10 :: rest) = ⟨text ++ [10], .delimiter, rest⟩ := by
  have window : (text ++ 10 :: rest).take 4096 = text ++ 10 :: rest.take (4095 - text.length) := by
    rw [List.take_append, List.take_of_length_le (by omega),
      show 4096 - text.length = (4095 - text.length) + 1 by omega, List.take_succ_cons]
  have located : (text ++ 10 :: rest.take (4095 - text.length)).findIdx?
      (fun byte => byte = 10) = some text.length := by
    rw [List.findIdx?_append]
    have absent : text.findIdx? (fun byte => byte = 10) = none := by
      rw [List.findIdx?_eq_none_iff]
      intro byte membership
      simp only [decide_eq_false_iff_not]
      rintro rfl
      exact noLineFeed membership
    simp [absent, List.findIdx?_cons]
  have taken : (text ++ 10 :: rest).take (text.length + 1) = text ++ [10] := by
    rw [List.take_append, List.take_of_length_le (by omega)]
    simp
  simp only [readSlice, window, located, taken]
  simp

theorem readSlice_long {text : Bytes} (noLineFeed : 10 ∉ text) (long : 4096 ≤ text.length)
    (rest : Bytes) :
    readSlice (text ++ 10 :: rest) =
      ⟨text.take 4096, .bufferFull, text.drop 4096 ++ 10 :: rest⟩ := by
  have window : (text ++ 10 :: rest).take 4096 = text.take 4096 :=
    List.take_append_of_le_length long
  have absent : (text.take 4096).findIdx? (fun byte => byte = 10) = none := by
    rw [List.findIdx?_eq_none_iff]
    intro byte membership
    simp only [decide_eq_false_iff_not]
    rintro rfl
    exact noLineFeed (List.mem_of_mem_take membership)
  have enough : 4096 ≤ (text ++ 10 :: rest).length := by
    rw [List.length_append]
    omega
  simp only [readSlice, window, absent, if_pos enough, List.drop_append_of_le_length long]

theorem chargeChunk_within {limits : Limits} {input line chunk : Bytes} {used : Nat}
    (nonempty : chunk ≠ []) (message : exceeds limits.message (used + chunk.length) = false)
    (lineLimit : exceeds limits.line (line.length + chunk.length) = false) :
    chargeChunk limits ⟨input, used⟩ line chunk = .ok ⟨input, used + chunk.length⟩ := by
  have positive : chunk.length > 0 := List.length_pos_iff.mpr nonempty
  rw [← List.length_append] at lineLimit
  simp only [chargeChunk, if_pos positive, consume_within message, lineLimit, Bool.false_eq_true,
    if_false]

theorem readLineLoop_line (limits : Limits) (fuel : Nat) {text : Bytes} (noLineFeed : 10 ∉ text)
    (rest line : Bytes) (used : Nat) (enough : text.length < fuel)
    (message : exceeds limits.message (used + (text.length + 1)) = false)
    (lineLimit : exceeds limits.line (line.length + (text.length + 1)) = false) :
    readLineLoop limits fuel ⟨text ++ 10 :: rest, used⟩ line =
      (stripCrlf (line ++ (text ++ [10]))).map
        fun line => (line, ⟨rest, used + (text.length + 1)⟩) := by
  induction fuel generalizing text line used with
  | zero => omega
  | succ fuel inductionHypothesis =>
      by_cases short : text.length < 4096
      · have charged : chargeChunk limits ⟨rest, used⟩ line (text ++ [10]) =
            .ok ⟨rest, used + (text.length + 1)⟩ := by
          rw [chargeChunk_within (by simp) (by simpa using message) (by simpa using lineLimit)]
          simp
        simp only [readLineLoop, readSlice_short noLineFeed short, charged]
      · have long : 4096 ≤ text.length := by omega
        have chunk : (text.take 4096).length = 4096 := List.length_take_of_le long
        have remaining : (text.drop 4096).length = text.length - 4096 := List.length_drop
        have charged : chargeChunk limits ⟨text.drop 4096 ++ 10 :: rest, used⟩ line
            (text.take 4096) = .ok ⟨text.drop 4096 ++ 10 :: rest, used + 4096⟩ := by
          rw [chargeChunk_within (List.ne_nil_of_length_pos (by omega)), chunk]
          · exact exceeds_mono (by omega) message
          · exact exceeds_mono (by omega) lineLimit
        simp only [readLineLoop, readSlice_long noLineFeed long, charged]
        rw [inductionHypothesis (fun membership => noLineFeed (List.mem_of_mem_drop membership))]
        · rw [remaining, show used + 4096 + (text.length - 4096 + 1) =
            used + (text.length + 1) by omega, List.append_assoc, ← List.append_assoc (text.take _),
            List.take_append_drop]
        · omega
        · rw [remaining]
          exact exceeds_mono (by omega) message
        · rw [List.length_append, chunk, remaining]
          exact exceeds_mono (by omega) lineLimit

theorem stripCrlf_append (line : Bytes) : stripCrlf (line ++ crlf) = .ok line := by
  have length : (line ++ crlf).length - 2 = line.length := by simp [crlf]
  have enough : ¬ ((line ++ crlf).length < 2 ∨
      (line ++ crlf).drop ((line ++ crlf).length - 2) ≠ crlf) := by
    rw [length]
    simp [crlf]
  simp only [stripCrlf, if_neg enough]
  rw [length, List.take_left]

/-- A line without line feeds is read back. -/
theorem readLine_line {limits : Limits} {line : Bytes} (noLineFeed : 10 ∉ line) (rest : Bytes)
    {used : Nat} (message : exceeds limits.message (used + (line.length + 2)) = false)
    (lineLimit : exceeds limits.line (line.length + 2) = false) :
    readLine limits ⟨line ++ crlf ++ rest, used⟩ =
      .ok (line, ⟨rest, used + (line.length + 2)⟩) := by
  have noLineFeed' : 10 ∉ line ++ [13] := by simpa using noLineFeed
  have shape : line ++ crlf ++ rest = (line ++ [13]) ++ 10 :: rest := by simp [crlf]
  have ended : [] ++ ((line ++ [13]) ++ [10]) = line ++ crlf := by simp [crlf]
  rw [readLine, shape, readLineLoop_line limits _ noLineFeed' rest [] used]
  · rw [ended, stripCrlf_append]
    simp [Except.map]
  · simp only [List.length_append, List.length_cons, List.length_nil]
    omega
  · simpa using message
  · simpa using lineLimit

/-! ## Values -/

mutual

/-- What the decoder charges for a value: its bytes, and the line break after
the payload of a bulk string once more. -/
def cost : Value → Nat
  | .simpleString text => text.length + 3
  | .error text => text.length + 3
  | .integer number => (Decimal.formatInt number.toInt).length + 3
  | .bulkString text => (Decimal.formatNat text.length).length + text.length + 7
  | .nullBulkString => 5
  | .array items => (Decimal.formatNat items.length).length + 3 + costAll items

def costAll : List Value → Nat
  | [] => 0
  | value :: values => cost value + costAll values

end

mutual

/-- How deeply the arrays of a value are nested. -/
def nesting : Value → Nat
  | .array items => nestingAll items + 1
  | _ => 1

def nestingAll : List Value → Nat
  | [] => 0
  | value :: values => max (nesting value) (nestingAll values)

end

/-- A length or a count and the header line it is written on are within the limits. -/
structure HeaderWithin (limits : Limits) (bound : Option Nat) (size : Nat) : Prop where
  width : Decimal.fits limits.width size = true
  bound : exceeds bound size = false
  line : exceeds limits.line ((Decimal.formatNat size).length + 2) = false

mutual

/-- A value that a decoder reads back, if the message is not too long and not
nested too deeply. -/
def Readable (limits : Limits) : Value → Prop
  | .simpleString text => 10 ∉ text ∧ exceeds limits.line (text.length + 2) = false
  | .error text => 10 ∉ text ∧ exceeds limits.line (text.length + 2) = false
  | .integer number =>
      exceeds limits.line ((Decimal.formatInt number.toInt).length + 2) = false
  | .bulkString text => HeaderWithin limits limits.bulk text.length
  | .nullBulkString => exceeds limits.line 4 = false
  | .array items => HeaderWithin limits limits.array items.length ∧ ReadableAll limits items

def ReadableAll (limits : Limits) : List Value → Prop
  | [] => True
  | value :: values => Readable limits value ∧ ReadableAll limits values

end

theorem lineFeed_not_mem_formatNat (number : Nat) : 10 ∉ Decimal.formatNat number := by
  intro membership
  exact absurd (Decimal.mem_formatNat membership).1 (by decide)

theorem lineFeed_not_mem_formatInt (number : Int) : 10 ∉ Decimal.formatInt number := by
  unfold Decimal.formatInt
  split
  next => simpa using lineFeed_not_mem_formatNat number.natAbs
  next => exact lineFeed_not_mem_formatNat number.natAbs

section

variable {limits : Limits} {used : Nat} (rest : Bytes)

theorem decodeSimpleString_line {text : Bytes}
    (readable : Readable limits (.simpleString text))
    (message : exceeds limits.message (used + (text.length + 2)) = false) :
    decodeSimpleString limits ⟨text ++ crlf ++ rest, used⟩ =
      .ok (.simpleString text, ⟨rest, used + (text.length + 2)⟩) := by
  simp only [decodeSimpleString, readLine_line readable.1 rest message readable.2, bind,
    Except.bind]

theorem decodeError_line {text : Bytes} (readable : Readable limits (.error text))
    (message : exceeds limits.message (used + (text.length + 2)) = false) :
    decodeError limits ⟨text ++ crlf ++ rest, used⟩ =
      .ok (.error text, ⟨rest, used + (text.length + 2)⟩) := by
  simp only [decodeError, readLine_line readable.1 rest message readable.2, bind, Except.bind]

theorem decodeInteger_line {number : Int64} (readable : Readable limits (.integer number))
    (message : exceeds limits.message
      (used + ((Decimal.formatInt number.toInt).length + 2)) = false) :
    decodeInteger limits ⟨Decimal.formatInt number.toInt ++ crlf ++ rest, used⟩ =
      .ok (.integer number,
        ⟨rest, used + ((Decimal.formatInt number.toInt).length + 2)⟩) := by
  have parsed := Decimal.parseInt_formatInt number.le_toInt number.toInt_lt
  simp only [decodeInteger,
    readLine_line (lineFeed_not_mem_formatInt number.toInt) rest message readable, bind,
    Except.bind, parsed, Int64.ofInt_toInt]

theorem decodeBulkString_null (readable : Readable limits .nullBulkString)
    (message : exceeds limits.message (used + 4) = false) :
    decodeBulkString limits ⟨[45, 49] ++ crlf ++ rest, used⟩ =
      .ok (.nullBulkString, ⟨rest, used + 4⟩) := by
  have parsed : Decimal.parseUint limits.width (Decimal.formatNat 1) = .ok 1 :=
    Decimal.parseUint_formatNat (by cases limits.width <;> simp [Decimal.fits])
  have signed : Decimal.applySign limits.width true 1 = .ok (-1) := by
    cases limits.width <;> simp [Decimal.applySign, Decimal.fits]
  have minusOne : Decimal.parseSigned limits.width [45, 49] = .ok (-1) := by
    change (Decimal.parseUint limits.width (Decimal.formatNat 1) >>=
      Decimal.applySign limits.width true) = _
    rw [parsed]
    exact signed
  have line : readLine limits ⟨[45, 49] ++ crlf ++ rest, used⟩ =
      .ok ([45, 49], ⟨rest, used + 4⟩) :=
    readLine_line (by decide) rest message readable
  simp only [decodeBulkString, line, bind, Except.bind, minusOne, if_true]

theorem readFull_append (payload : Bytes) :
    readFull ⟨payload ++ rest, used⟩ payload.length = .ok (payload, ⟨rest, used⟩) := by
  simp [readFull]

theorem expectCrlf_within (message : exceeds limits.message (used + 2) = false) :
    expectCrlf limits ⟨crlf ++ rest, used⟩ = .ok ((), ⟨rest, used + 2⟩) := by
  have first : exceeds limits.message (used + 1) = false := exceeds_mono (by omega) message
  have second : exceeds limits.message (used + 1 + 1) = false := message
  simp only [expectCrlf, crlf, List.cons_append, readByte_within first, readByte_within second,
    bind, Except.bind, List.nil_append]
  rfl

theorem readHeader {bound : Option Nat} {size : Nat} (header : HeaderWithin limits bound size)
    (message : exceeds limits.message (used + ((Decimal.formatNat size).length + 2)) = false) :
    readLine limits ⟨Decimal.formatNat size ++ crlf ++ rest, used⟩ =
      .ok (Decimal.formatNat size, ⟨rest, used + ((Decimal.formatNat size).length + 2)⟩) :=
  readLine_line (lineFeed_not_mem_formatNat size) rest message header.line

theorem decodeBulkString_payload {text : Bytes} (readable : Readable limits (.bulkString text))
    (message : exceeds limits.message
      (used + ((Decimal.formatNat text.length).length + text.length + 6)) = false) :
    decodeBulkString limits
        ⟨Decimal.formatNat text.length ++ crlf ++ (text ++ (crlf ++ rest)), used⟩ =
      .ok (.bulkString text,
        ⟨rest, used + ((Decimal.formatNat text.length).length + text.length + 6)⟩) := by
  set digits := (Decimal.formatNat text.length).length with digitsLength
  have headed : exceeds limits.message (used + (digits + 2)) = false :=
    exceeds_mono (by omega) message
  have headerRead := readHeader (text ++ (crlf ++ rest)) readable headed
  have charged : exceeds limits.message (used + (digits + 2) + (text.length + 2)) = false :=
    exceeds_mono (by omega) message
  have ended : exceeds limits.message (used + (digits + 2) + (text.length + 2) + 2) = false :=
    exceeds_mono (by omega) message
  have notNull : ¬ (text.length : Int) = -1 := by omega
  have notNegative : ¬ (text.length : Int) < -1 := by omega
  simp only [decodeBulkString, headerRead, bind, Except.bind,
    Decimal.parseSigned_formatNat readable.width, if_neg notNull, if_neg notNegative,
    Int.toNat_natCast, readable.bound, Bool.false_eq_true, if_false, ← digitsLength,
    consume_within charged, readFull_append, expectCrlf_within rest ended]
  rw [show used + (digits + 2) + (text.length + 2) + 2 = used + (digits + text.length + 6) by omega]

end

/-- The first byte of a value decides how the rest is read. -/
theorem decodeValue_type {limits : Limits} {depth used : Nat} {type : UInt8} {rest : Bytes}
    (message : exceeds limits.message (used + 1) = false) :
    decodeValue limits (depth + 1) ⟨type :: rest, used⟩ =
      if type = 43 then decodeSimpleString limits ⟨rest, used + 1⟩
      else if type = 45 then decodeError limits ⟨rest, used + 1⟩
      else if type = 58 then decodeInteger limits ⟨rest, used + 1⟩
      else if type = 36 then decodeBulkString limits ⟨rest, used + 1⟩
      else if type = 42 then decodeArray limits (decodeValue limits depth) ⟨rest, used + 1⟩
      else decodeInline limits ⟨type :: rest, used⟩ := by
  simp only [decodeValue, readByte_within message, bind, Except.bind]

theorem decodeArray_items {limits : Limits}
    {decodeOne : Reader → Except DecodeError (Value × Reader)} {items : List Value}
    {used charged : Nat} (payload rest : Bytes)
    (header : HeaderWithin limits limits.array items.length)
    (message : exceeds limits.message
      (used + ((Decimal.formatNat items.length).length + 2)) = false)
    (elements : decodeMany decodeOne items.length
        ⟨payload, used + ((Decimal.formatNat items.length).length + 2)⟩ =
      .ok (items, ⟨rest, charged⟩)) :
    decodeArray limits decodeOne
        ⟨Decimal.formatNat items.length ++ crlf ++ payload, used⟩ =
      .ok (.array items, ⟨rest, charged⟩) := by
  have notNull : ¬ (items.length : Int) = -1 := by omega
  have notNegative : ¬ (items.length : Int) < -1 := by omega
  simp only [decodeArray, readHeader payload header message, bind, Except.bind,
    Decimal.parseSigned_formatNat header.width, if_neg notNull, if_neg notNegative,
    Int.toNat_natCast, header.bound, Bool.false_eq_true, if_false, elements]

mutual

/-- A readable value is read back from its encoding, whatever follows it. -/
theorem decodeValue_encode {limits : Limits} (value : Value) (depth used : Nat) (rest : Bytes)
    (readable : Readable limits value) (nested : nesting value ≤ depth)
    (message : exceeds limits.message (used + cost value) = false) :
    decodeValue limits depth ⟨encode value ++ rest, used⟩ =
      .ok (value, ⟨rest, used + cost value⟩) := by
  obtain ⟨depth, rfl⟩ : ∃ inner, depth = inner + 1 := by
    refine ⟨depth - 1, ?_⟩
    cases value <;> simp only [nesting] at nested <;> omega
  have first : exceeds limits.message (used + 1) = false :=
    exceeds_mono (by cases value <;> simp only [cost] <;> omega) message
  cases value with
  | simpleString text =>
      rw [encode, List.cons_append, decodeValue_type first, if_pos rfl,
        decodeSimpleString_line rest readable (exceeds_mono (by simp only [cost]; omega) message)]
      simp only [cost]
      congr 3
      omega
  | error text =>
      rw [encode, List.cons_append, decodeValue_type first, if_neg (by decide), if_pos rfl,
        decodeError_line rest readable (exceeds_mono (by simp only [cost]; omega) message)]
      simp only [cost]
      congr 3
      omega
  | integer number =>
      rw [encode, List.cons_append, decodeValue_type first, if_neg (by decide),
        if_neg (by decide), if_pos rfl,
        decodeInteger_line rest readable (exceeds_mono (by simp only [cost]; omega) message)]
      simp only [cost]
      congr 3
      omega
  | bulkString text =>
      rw [encode, List.cons_append, decodeValue_type first, if_neg (by decide),
        if_neg (by decide), if_neg (by decide), if_pos rfl]
      simp only [List.append_assoc]
      rw [← List.append_assoc, decodeBulkString_payload rest readable
        (exceeds_mono (by simp only [cost]; omega) message)]
      simp only [cost]
      congr 3
      omega
  | nullBulkString =>
      rw [encode, List.cons_append, decodeValue_type first, if_neg (by decide),
        if_neg (by decide), if_neg (by decide), if_pos rfl, decodeBulkString_null rest readable
          (exceeds_mono (by simp only [cost]; omega) message)]
      simp only [cost]
  | array items =>
      have elements := decodeMany_encodeAll items depth
        (used + 1 + ((Decimal.formatNat items.length).length + 2)) rest readable.2
        (by simp only [nesting] at nested; omega)
        (exceeds_mono (by simp only [cost]; omega) message)
      rw [encode, List.cons_append, decodeValue_type first, if_neg (by decide),
        if_neg (by decide), if_neg (by decide), if_neg (by decide), if_pos rfl, List.append_assoc,
        decodeArray_items _ rest readable.1
          (exceeds_mono (by simp only [cost]; omega) message) elements]
      simp only [cost]
      congr 3
      omega

theorem decodeMany_encodeAll {limits : Limits} (values : List Value) (depth used : Nat)
    (rest : Bytes) (readable : ReadableAll limits values) (nested : nestingAll values ≤ depth)
    (message : exceeds limits.message (used + costAll values) = false) :
    decodeMany (decodeValue limits depth) values.length ⟨encodeAll values ++ rest, used⟩ =
      .ok (values, ⟨rest, used + costAll values⟩) := by
  cases values with
  | nil => rfl
  | cons value values =>
      simp only [nestingAll, max_le_iff] at nested
      simp only [costAll] at message ⊢
      have head := decodeValue_encode value depth used (encodeAll values ++ rest) readable.1
        nested.1 (exceeds_mono (by omega) message)
      have tail := decodeMany_encodeAll values depth (used + cost value) rest readable.2 nested.2
        (exceeds_mono (by omega) message)
      simp only [encodeAll, List.append_assoc, List.length_cons, decodeMany, head, bind,
        Except.bind, tail]
      rw [Nat.add_assoc]

end

/-- A readable value within the limits is decoded from its encoding, and
what follows the encoding is left unread. -/
theorem decode_encode {limits : Limits} {value : Value} (rest : Bytes)
    (readable : Readable limits value)
    (nested : nesting value ≤ limits.depth.getD ((encode value ++ rest).length + 1))
    (message : exceeds limits.message (cost value) = false) :
    decode limits (encode value ++ rest) = .ok (value, rest) := by
  have decoded := decodeValue_encode value _ 0 rest readable nested
    (by simpa using message)
  rw [decode, decoded]

/-! ## Lines of words -/

/-- A line that does not start like a frame is read as the array of its words. -/
theorem decode_inline {limits : Limits} {first : UInt8} {tail : Bytes} (rest : Bytes)
    (unframed : first ∉ [43, 45, 58, 36, 42]) (noLineFeed : 10 ∉ first :: tail)
    (words : fields (first :: tail) ≠ [])
    (depth : limits.depth ≠ some 0)
    (message : exceeds limits.message ((first :: tail).length + 2) = false)
    (lineLimit : exceeds limits.line ((first :: tail).length + 2) = false) :
    decode limits (first :: tail ++ crlf ++ rest) =
      .ok (.array ((fields (first :: tail)).map .bulkString), rest) := by
  obtain ⟨levels, enough⟩ : ∃ levels,
      limits.depth.getD ((first :: tail ++ crlf ++ rest).length + 1) = levels + 1 := by
    cases given : limits.depth with
    | none => exact ⟨_, rfl⟩
    | some bound =>
        rw [given, ne_eq, Option.some.injEq] at depth
        exact ⟨bound - 1, by simp; omega⟩
  have read : readLine limits ⟨first :: tail ++ crlf ++ rest, 0⟩ =
      .ok (first :: tail, ⟨rest, 0 + ((first :: tail).length + 2)⟩) :=
    readLine_line noLineFeed rest (by simpa using message) lineLimit
  have nonempty : (fields (first :: tail)).length ≠ 0 := by simpa using words
  simp only [List.mem_cons, List.not_mem_nil, or_false, not_or] at unframed
  obtain ⟨notSimple, notError, notInteger, notBulk, notArray⟩ := unframed
  rw [decode, enough]
  simp only [List.cons_append] at read ⊢
  rw [decodeValue_type (exceeds_mono (by simp) message), if_neg notSimple, if_neg notError,
    if_neg notInteger, if_neg notBulk, if_neg notArray, decodeInline, read]
  simp only [if_neg nonempty]

end Carrot
