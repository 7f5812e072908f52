import Carrot.Resp.Value

/-!
# Decoding RESP

The decoder reads one value from a buffered stream under limits on the
message, on each line, on bulk strings, on arrays and on nesting.  Bytes are
charged against the message limit as they are read; the line break after a
bulk string is charged together with its payload and again when it is checked.
-/

namespace Carrot

/-- The bounds a decoder enforces; an absent bound is not enforced.  The width
is that of the signed integers that hold lengths. -/
structure Limits where
  width : Option Nat
  message : Option Nat
  line : Option Nat
  bulk : Option Nat
  array : Option Nat
  depth : Option Nat

def exceeds (limit : Option Nat) (amount : Nat) : Bool := limit.any fun bound => bound < amount

/-- The limits of `NewDecoderWithLimit`. -/
def Limits.withMessage (maxMessageBytes : Nat) : Limits where
  width := some 63
  message := some maxMessageBytes
  line := some (16 * 1024)
  bulk := some (1 <<< 20)
  array := some 1024
  depth := some 64

/-- The RESP grammar itself. -/
def Limits.unlimited : Limits := ⟨none, none, none, none, none, none⟩

inductive DecodeError where
  | eof
  | unexpectedEof
  | nestingTooDeep
  | messageTooLarge (limit : Nat)
  | lineTooLong
  | expectedCrlf
  | invalidTermination
  | invalidArrayLength (line : Bytes) (cause : Decimal.NumError)
  | negativeArrayLength (count : Int)
  | arrayTooLong (count : Int)
  | invalidBulkLength (line : Bytes) (cause : Decimal.NumError)
  | negativeBulkLength (length : Int)
  | bulkTooLong (length : Int)
  | invalidInteger (line : Bytes) (cause : Decimal.NumError)
  | emptyInline
  | inline (cause : DecodeError)
  deriving DecidableEq

/-- `errors.Is(err, io.EOF) || errors.Is(err, io.ErrUnexpectedEOF)`: the input
ended inside a value. -/
def DecodeError.isEof : DecodeError → Bool
  | .eof => true
  | .unexpectedEof => true
  | .inline cause => cause.isEof
  | _ => false

/-- The unread input and the bytes charged to the current message. -/
structure Reader where
  input : Bytes
  used : Nat
  deriving DecidableEq

def consume (limits : Limits) (reader : Reader) (amount : Nat) : Except DecodeError Reader :=
  if exceeds limits.message (reader.used + amount) then
    .error (.messageTooLarge (limits.message.getD 0))
  else .ok { reader with used := reader.used + amount }

/-- Read one byte and charge it. -/
def readByte (limits : Limits) (reader : Reader) : Except DecodeError (UInt8 × Reader) :=
  match reader.input with
  | [] => .error .eof
  | byte :: rest => do
      let reader ← consume limits { reader with input := rest } 1
      .ok (byte, reader)

inductive SliceEnd where
  | delimiter
  | bufferFull
  | endOfInput
  deriving DecidableEq

/-- What `ReadSlice` returns, how it ended and the input after it. -/
structure Slice where
  chunk : Bytes
  status : SliceEnd
  rest : Bytes
  deriving DecidableEq

/-- `ReadSlice('\n')` of a reader with a buffer of 4096 bytes. -/
def readSlice (input : Bytes) : Slice :=
  let window := input.take 4096
  match window.findIdx? fun byte => byte = 10 with
  | some index => ⟨input.take (index + 1), .delimiter, input.drop (index + 1)⟩
  | none =>
      if 4096 ≤ input.length then ⟨window, .bufferFull, input.drop 4096⟩
      else ⟨input, .endOfInput, []⟩

/-- Remove the line break that must end a line. -/
def stripCrlf (line : Bytes) : Except DecodeError Bytes :=
  let n := line.length
  if n < 2 ∨ line.drop (n - 2) ≠ crlf then .error .expectedCrlf
  else .ok (line.take (n - 2))

/-- Charge a chunk of a line and check the line that it belongs to. -/
def chargeChunk (limits : Limits) (reader : Reader) (line chunk : Bytes) :
    Except DecodeError Reader :=
  if chunk.length > 0 then
    match consume limits reader chunk.length with
    | .error error => .error error
    | .ok reader =>
        if exceeds limits.line (line ++ chunk).length then .error .lineTooLong else .ok reader
  else .ok reader

/-- The loop of `readLine`; it runs once for every buffer that the line fills. -/
def readLineLoop (limits : Limits) : Nat → Reader → Bytes → Except DecodeError (Bytes × Reader)
  | 0, _, _ => .error .eof
  | fuel + 1, reader, line =>
      let slice := readSlice reader.input
      match chargeChunk limits { reader with input := slice.rest } line slice.chunk with
      | .error error => .error error
      | .ok reader =>
          match slice.status with
          | .delimiter => (stripCrlf (line ++ slice.chunk)).map fun line => (line, reader)
          | .bufferFull => readLineLoop limits fuel reader (line ++ slice.chunk)
          | .endOfInput => .error .eof

/-- Read a line without its line break. -/
def readLine (limits : Limits) (reader : Reader) : Except DecodeError (Bytes × Reader) :=
  readLineLoop limits (reader.input.length + 1) reader []

def expectCrlf (limits : Limits) (reader : Reader) : Except DecodeError (Unit × Reader) := do
  let (cr, reader) ← readByte limits reader
  let (lf, reader) ← readByte limits reader
  if cr ≠ 13 ∨ lf ≠ 10 then .error .invalidTermination else .ok ((), reader)

/-- `io.ReadFull` for a buffer of the given size. -/
def readFull (reader : Reader) (size : Nat) : Except DecodeError (Bytes × Reader) :=
  if size ≤ reader.input.length then
    .ok (reader.input.take size, { reader with input := reader.input.drop size })
  else if reader.input = [] then .error .eof
  else .error .unexpectedEof

def decodeSimpleString (limits : Limits) (reader : Reader) :
    Except DecodeError (Value × Reader) := do
  let (line, reader) ← readLine limits reader
  .ok (.simpleString line, reader)

def decodeError (limits : Limits) (reader : Reader) : Except DecodeError (Value × Reader) := do
  let (line, reader) ← readLine limits reader
  .ok (.error line, reader)

def decodeInteger (limits : Limits) (reader : Reader) : Except DecodeError (Value × Reader) := do
  let (line, reader) ← readLine limits reader
  match Decimal.parseInt line with
  | .error cause => .error (.invalidInteger line cause)
  | .ok value => .ok (.integer (Int64.ofInt value), reader)

def decodeBulkString (limits : Limits) (reader : Reader) : Except DecodeError (Value × Reader) := do
  let (line, reader) ← readLine limits reader
  match Decimal.parseSigned limits.width line with
  | .error cause => .error (.invalidBulkLength line cause)
  | .ok length =>
      if length = -1 then .ok (.nullBulkString, reader)
      else if length < -1 then .error (.negativeBulkLength length)
      else if exceeds limits.bulk length.toNat then .error (.bulkTooLong length)
      else do
        let reader ← consume limits reader (length.toNat + 2)
        let (payload, reader) ← readFull reader length.toNat
        let ((), reader) ← expectCrlf limits reader
        .ok (.bulkString payload, reader)

/-- Decode the elements of an array one after the other. -/
def decodeMany (decodeOne : Reader → Except DecodeError (Value × Reader)) :
    Nat → Reader → Except DecodeError (List Value × Reader)
  | 0, reader => .ok ([], reader)
  | count + 1, reader => do
      let (value, reader) ← decodeOne reader
      let (values, reader) ← decodeMany decodeOne count reader
      .ok (value :: values, reader)

def decodeArray (limits : Limits) (decodeOne : Reader → Except DecodeError (Value × Reader))
    (reader : Reader) : Except DecodeError (Value × Reader) := do
  let (line, reader) ← readLine limits reader
  match Decimal.parseSigned limits.width line with
  | .error cause => .error (.invalidArrayLength line cause)
  | .ok count =>
      if count = -1 then .ok (.array [], reader)
      else if count < -1 then .error (.negativeArrayLength count)
      else if exceeds limits.array count.toNat then .error (.arrayTooLong count)
      else do
        let (values, reader) ← decodeMany decodeOne count.toNat reader
        .ok (.array values, reader)

/-- A plain-text command becomes an array of bulk strings. -/
def decodeInline (limits : Limits) (reader : Reader) : Except DecodeError (Value × Reader) :=
  match readLine limits reader with
  | .error cause => .error (.inline cause)
  | .ok (line, reader) =>
      let tokens := fields line
      if tokens.length = 0 then .error .emptyInline
      else .ok (.array (tokens.map .bulkString), reader)

/-- Decode one value.  The first argument is the number of levels that may
still be entered. -/
def decodeValue (limits : Limits) : Nat → Reader → Except DecodeError (Value × Reader)
  | 0, _ => .error .nestingTooDeep
  | depth + 1, reader => do
      let (type, after) ← readByte limits reader
      if type = 43 then decodeSimpleString limits after
      else if type = 45 then decodeError limits after
      else if type = 58 then decodeInteger limits after
      else if type = 36 then decodeBulkString limits after
      else if type = 42 then decodeArray limits (decodeValue limits depth) after
      -- The byte is put back and no longer charged.
      else decodeInline limits reader

/-- The next message of a stream and the rest of the stream.  Every level of
nesting takes a byte of input, so that without a bound on the nesting the
length of the input bounds it. -/
def decode (limits : Limits) (input : Bytes) : Except DecodeError (Value × Bytes) :=
  match decodeValue limits (limits.depth.getD (input.length + 1)) ⟨input, 0⟩ with
  | .error cause => .error cause
  | .ok (value, reader) => .ok (value, reader.input)

/-! ## Texts of errors -/

section

variable [GoTables]

/-- The text of a `strconv.NumError`. -/
def numErrorText (function : String) (number : Bytes) (cause : Decimal.NumError) : Bytes :=
  bytes "strconv." ++ bytes function ++ bytes ": parsing " ++ GoTables.quote number ++
    match cause with
    | .invalidSyntax => bytes ": invalid syntax"
    | .outOfRange => bytes ": value out of range"

/-- The errors of a decoder with the limits of `NewDecoderWithLimit`. -/
def DecodeError.text : DecodeError → Bytes
  | .eof => bytes "EOF"
  | .unexpectedEof => bytes "unexpected EOF"
  | .nestingTooDeep => bytes "RESP nesting exceeds max allowed 64"
  | .messageTooLarge limit =>
      bytes "RESP message exceeds max allowed " ++ Decimal.formatNat limit ++ bytes " bytes"
  | .lineTooLong => bytes "RESP line exceeds 16384 bytes"
  | .expectedCrlf => bytes "invalid RESP line: expected CRLF"
  | .invalidTermination => bytes "invalid RESP termination"
  | .invalidArrayLength line cause =>
      bytes "invalid array length " ++ GoTables.quote line ++ bytes ": " ++
        numErrorText "Atoi" line cause
  | .negativeArrayLength count => bytes "invalid array length " ++ Decimal.formatInt count
  | .arrayTooLong count =>
      bytes "array length " ++ Decimal.formatInt count ++ bytes " exceeds max allowed 1024"
  | .invalidBulkLength line cause =>
      bytes "invalid bulk string length " ++ GoTables.quote line ++ bytes ": " ++
        numErrorText "Atoi" line cause
  | .negativeBulkLength length => bytes "invalid bulk string length " ++ Decimal.formatInt length
  | .bulkTooLong length =>
      bytes "bulk string length " ++ Decimal.formatInt length ++
        bytes " exceeds max allowed 1048576"
  | .invalidInteger line cause =>
      bytes "invalid integer " ++ GoTables.quote line ++ bytes ": " ++
        numErrorText "ParseInt" line cause
  | .emptyInline => bytes "empty inline command"
  | .inline cause => bytes "inline command read error: " ++ cause.text

end

end Carrot
