import Carrot.Text

/-!
# RESP values and their encoding
-/

namespace Carrot

/-- A RESP value.  A nil array and an empty array are the same value. -/
inductive Value where
  | simpleString (text : Bytes)
  | error (text : Bytes)
  | integer (number : Int64)
  | bulkString (text : Bytes)
  | nullBulkString
  | array (items : List Value)

def crlf : Bytes := [13, 10]

mutual

/-- The bytes that `Encode` writes. -/
def encode : Value → Bytes
  | .simpleString text => 43 :: (text ++ crlf)
  | .error text => 45 :: (text ++ crlf)
  | .integer number => 58 :: (Decimal.formatInt number.toInt ++ crlf)
  | .bulkString text => 36 :: (Decimal.formatNat text.length ++ crlf ++ (text ++ crlf))
  | .nullBulkString => 36 :: ([45, 49] ++ crlf)
  | .array items => 42 :: (Decimal.formatNat items.length ++ crlf ++ encodeAll items)

/-- The encodings of several values one after the other. -/
def encodeAll : List Value → Bytes
  | [] => []
  | value :: values => encode value ++ encodeAll values

end

mutual

/-- The pieces in which `Encode` writes a value, one for each call of `Fprintf`. -/
def encodeWrites : Value → List Bytes
  | .array items => (42 :: (Decimal.formatNat items.length ++ crlf)) :: encodeWritesAll items
  | value => [encode value]

def encodeWritesAll : List Value → List Bytes
  | [] => []
  | value :: values => encodeWrites value ++ encodeWritesAll values

end

mutual

theorem flatten_encodeWrites (value : Value) : (encodeWrites value).flatten = encode value := by
  cases value with
  | array items =>
      rw [encodeWrites, List.flatten_cons, flatten_encodeWritesAll items, encode, List.cons_append]
  | _ => simp [encodeWrites]

theorem flatten_encodeWritesAll (values : List Value) :
    (encodeWritesAll values).flatten = encodeAll values := by
  cases values with
  | nil => rfl
  | cons value values =>
      rw [encodeWritesAll, List.flatten_append, flatten_encodeWrites value,
        flatten_encodeWritesAll values, encodeAll]

end

theorem encodeAll_append (first second : List Value) :
    encodeAll (first ++ second) = encodeAll first ++ encodeAll second := by
  induction first with
  | nil => rfl
  | cons value values inductionHypothesis =>
      rw [List.cons_append, encodeAll, encodeAll, inductionHypothesis, List.append_assoc]

end Carrot
