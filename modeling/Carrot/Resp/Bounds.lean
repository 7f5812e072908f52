import Carrot.Resp.RoundTrip

/-!
# What the limits say about a decoded value

Every byte of a decoded bulk string was charged, and neither a bulk string nor
a message is longer than the decoder allows.
-/

namespace Carrot

/-- A computation that follows another one succeeds only if both do. -/
theorem bind_eq_ok {Error First Second : Type} {source : Except Error First}
    {next : First → Except Error Second} {result : Second} :
    (source >>= next) = .ok result ↔ ∃ value, source = .ok value ∧ next value = .ok result := by
  cases source with
  | error error => simp [bind, Except.bind]
  | ok value => simp [bind, Except.bind]

theorem map_eq_ok {Error First Second : Type} {source : Except Error First}
    {change : First → Second} {result : Second} :
    source.map change = .ok result ↔ ∃ value, source = .ok value ∧ change value = result := by
  cases source <;> simp [Except.map]

/-- At least so many bytes were charged, and the message is within its limit. -/
structure Charged (limits : Limits) (before after : Reader) (amount : Nat) : Prop where
  used : before.used + amount ≤ after.used
  within : exceeds limits.message after.used = false

namespace Charged

variable {limits : Limits} {first second third : Reader} {amount more : Nat}

theorem trans (earlier : Charged limits first second amount)
    (later : Charged limits second third more) : Charged limits first third (amount + more) :=
  ⟨by have := earlier.used; have := later.used; omega, later.within⟩

theorem mono (charged : Charged limits first second amount) (fewer : more ≤ amount) :
    Charged limits first second more :=
  ⟨by have := charged.used; omega, charged.within⟩

end Charged

variable {limits : Limits}

theorem consume_charged {reader after : Reader} {amount : Nat}
    (consumed : consume limits reader amount = .ok after) :
    Charged limits reader after amount ∧ after.input = reader.input := by
  unfold consume at consumed
  split at consumed
  next => cases consumed
  next within =>
    cases consumed
    exact ⟨⟨le_refl _, by simpa using within⟩, rfl⟩

theorem readByte_charged {reader after : Reader} {byte : UInt8}
    (read : readByte limits reader = .ok (byte, after)) : Charged limits reader after 1 := by
  unfold readByte at read
  split at read
  next => cases read
  next =>
    obtain ⟨charged, consumed, result⟩ := bind_eq_ok.mp read
    cases result
    exact ⟨(consume_charged consumed).1.used, (consume_charged consumed).1.within⟩

theorem stripCrlf_length {line stripped : Bytes} (result : stripCrlf line = .ok stripped) :
    line.length = stripped.length + 2 := by
  simp only [stripCrlf] at result
  split at result
  next => cases result
  next enough =>
    cases result
    rw [List.length_take]
    omega

theorem chargeChunk_charged {reader after : Reader} {rest line chunk : Bytes}
    (within : exceeds limits.message reader.used = false)
    (short : exceeds limits.line line.length = false)
    (charged : chargeChunk limits { reader with input := rest } line chunk = .ok after) :
    Charged limits reader after chunk.length ∧
      exceeds limits.line (line ++ chunk).length = false := by
  unfold chargeChunk at charged
  split at charged
  next =>
    split at charged
    next => cases charged
    next paid =>
      split at charged
      next => cases charged
      next fits =>
        cases charged
        have consumed := (consume_charged paid).1
        exact ⟨⟨consumed.used, consumed.within⟩, by simpa using fits⟩
  next empty =>
    have nothing : chunk = [] := by simpa using empty
    cases charged
    subst nothing
    exact ⟨⟨le_refl _, within⟩, by simpa using short⟩

/-- A line within the limits, and what was charged for it. -/
theorem readLineLoop_charged {fuel : Nat} {reader after : Reader} {before line : Bytes}
    (within : exceeds limits.message reader.used = false)
    (short : exceeds limits.line before.length = false)
    (read : readLineLoop limits fuel reader before = .ok (line, after)) :
    (∃ amount, before.length + amount = line.length + 2 ∧ Charged limits reader after amount) ∧
      exceeds limits.line (line.length + 2) = false := by
  induction fuel generalizing reader before with
  | zero => cases read
  | succ fuel inductionHypothesis =>
      simp only [readLineLoop] at read
      split at read
      next => cases read
      next charged paid =>
        obtain ⟨paid, fits⟩ := chargeChunk_charged within short paid
        split at read
        next =>
          obtain ⟨stripped, strippedEq, result⟩ := map_eq_ok.mp read
          cases result
          have lengths := stripCrlf_length strippedEq
          rw [← lengths]
          exact ⟨⟨_, by rw [List.length_append], paid⟩, fits⟩
        next =>
          obtain ⟨⟨amount, total, rest⟩, fitsLine⟩ := inductionHypothesis paid.within fits read
          refine ⟨⟨_, ?_, paid.trans rest⟩, fitsLine⟩
          rw [List.length_append] at total
          omega
        next => cases read

theorem readLine_charged {reader after : Reader} {line : Bytes}
    (within : exceeds limits.message reader.used = false)
    (read : readLine limits reader = .ok (line, after)) :
    Charged limits reader after line.length ∧ exceeds limits.line line.length = false := by
  have empty : exceeds limits.line ([] : Bytes).length = false := by
    cases limits.line <;> simp [exceeds]
  obtain ⟨⟨amount, total, charged⟩, short⟩ := readLineLoop_charged within empty read
  simp only [List.length_nil, Nat.zero_add] at total
  exact ⟨charged.mono (by omega), exceeds_mono (by omega) short⟩

/-! ## Values -/

/-- The bytes of a bulk string. -/
def Value.bulkSize : Value → Nat
  | .bulkString text => text.length
  | _ => 0

/-- The bytes of the bulk strings in a list. -/
def bulkSizes (values : List Value) : Nat := (values.map Value.bulkSize).sum

/-- A bulk string within one of the limits on texts. -/
def Value.Sized (limits : Limits) (value : Value) : Prop :=
  exceeds limits.bulk value.bulkSize = false ∨ exceeds limits.line value.bulkSize = false

/-- What the limits say about a value. -/
structure Fits (limits : Limits) (before after : Reader) (value : Value) : Prop where
  charged : Charged limits before after value.bulkSize
  sized : value.Sized limits
  items : ∀ items, value = .array items →
    Charged limits before after (bulkSizes items) ∧ ∀ item ∈ items, item.Sized limits

theorem exceeds_zero (limit : Option Nat) : exceeds limit 0 = false := by
  cases limit <;> simp [exceeds]

/-- A value that is neither a bulk string nor an array. -/
theorem Fits.of_plain {before after : Reader} {value : Value} {amount : Nat}
    (charged : Charged limits before after amount) (noBulk : value.bulkSize = 0)
    (noArray : ∀ items, value ≠ .array items) : Fits limits before after value where
  charged := charged.mono (by omega)
  sized := .inl (by rw [noBulk]; exact exceeds_zero _)
  items items same := absurd same (noArray items)

theorem expectCrlf_charged {reader after : Reader}
    (ended : expectCrlf limits reader = .ok ((), after)) : Charged limits reader after 0 := by
  unfold expectCrlf at ended
  obtain ⟨⟨cr, middle⟩, first, ended⟩ := bind_eq_ok.mp ended
  obtain ⟨⟨lf, finish⟩, second, ended⟩ := bind_eq_ok.mp ended
  dsimp only at ended
  split_ifs at ended
  cases ended
  exact ((readByte_charged first).trans (readByte_charged second)).mono (Nat.zero_le _)

theorem readFull_eq_ok {reader after : Reader} {size : Nat} {payload : Bytes}
    (full : readFull reader size = .ok (payload, after)) :
    payload.length = size ∧ after.used = reader.used := by
  unfold readFull at full
  split_ifs at full with enough
  cases full
  exact ⟨List.length_take_of_le enough, rfl⟩

theorem decodeBulkString_fits {reader after : Reader} {value : Value}
    (within : exceeds limits.message reader.used = false)
    (decoded : decodeBulkString limits reader = .ok (value, after)) :
    Fits limits reader after value := by
  unfold decodeBulkString at decoded
  obtain ⟨⟨line, lineEnd⟩, read, decoded⟩ := bind_eq_ok.mp decoded
  have charged := (readLine_charged within read).1
  dsimp only at decoded
  split at decoded
  next => cases decoded
  next length parsed =>
    split_ifs at decoded with null negative long
    · cases decoded
      exact .of_plain charged rfl nofun
    · obtain ⟨paid, consumed, decoded⟩ := bind_eq_ok.mp decoded
      obtain ⟨⟨payload, payloadEnd⟩, full, decoded⟩ := bind_eq_ok.mp decoded
      obtain ⟨⟨_, finish⟩, ended, decoded⟩ := bind_eq_ok.mp decoded
      cases decoded
      obtain ⟨payloadLength, sameUsed⟩ := readFull_eq_ok full
      have body := (consume_charged consumed).1
      have rest : Charged limits paid finish 0 :=
        ⟨sameUsed ▸ (expectCrlf_charged ended).used, (expectCrlf_charged ended).within⟩
      refine ⟨((charged.trans body).trans rest).mono ?_, .inl ?_, nofun⟩
      · simp only [Value.bulkSize]
        omega
      · simpa [Value.bulkSize, payloadLength] using long

theorem decodeMany_fits {decodeOne : Reader → Except DecodeError (Value × Reader)}
    (fits : ∀ {before after : Reader} {value : Value},
      exceeds limits.message before.used = false → decodeOne before = .ok (value, after) →
        Fits limits before after value)
    {count : Nat} {reader after : Reader} {values : List Value}
    (within : exceeds limits.message reader.used = false)
    (decoded : decodeMany decodeOne count reader = .ok (values, after)) :
    Charged limits reader after (bulkSizes values) ∧ ∀ value ∈ values, value.Sized limits := by
  induction count generalizing reader values with
  | zero =>
      cases decoded
      exact ⟨⟨le_refl _, within⟩, by simp⟩
  | succ count inductionHypothesis =>
      obtain ⟨⟨value, middle⟩, first, decoded⟩ := bind_eq_ok.mp decoded
      obtain ⟨⟨others, finish⟩, second, decoded⟩ := bind_eq_ok.mp decoded
      cases decoded
      have head := fits within first
      obtain ⟨tail, sized⟩ := inductionHypothesis head.charged.within second
      refine ⟨?_, by simpa using ⟨head.sized, sized⟩⟩
      simpa [bulkSizes] using head.charged.trans tail

theorem decodeArray_fits {decodeOne : Reader → Except DecodeError (Value × Reader)}
    (fits : ∀ {before after : Reader} {value : Value},
      exceeds limits.message before.used = false → decodeOne before = .ok (value, after) →
        Fits limits before after value)
    {reader after : Reader} {value : Value}
    (within : exceeds limits.message reader.used = false)
    (decoded : decodeArray limits decodeOne reader = .ok (value, after)) :
    Fits limits reader after value := by
  have of_items : ∀ items, Charged limits reader after (bulkSizes items) →
      (∀ item ∈ items, item.Sized limits) → Fits limits reader after (.array items) := by
    intro items charged sized
    refine ⟨charged.mono (Nat.zero_le _), .inl (exceeds_zero _), ?_⟩
    rintro _ ⟨⟩
    exact ⟨charged, sized⟩
  unfold decodeArray at decoded
  obtain ⟨⟨line, lineEnd⟩, read, decoded⟩ := bind_eq_ok.mp decoded
  have charged := (readLine_charged within read).1
  dsimp only at decoded
  split at decoded
  next => cases decoded
  next count parsed =>
    split_ifs at decoded
    · cases decoded
      exact of_items [] (charged.mono (Nat.zero_le _)) (by simp)
    · obtain ⟨⟨values, finish⟩, many, decoded⟩ := bind_eq_ok.mp decoded
      cases decoded
      obtain ⟨items, sized⟩ := decodeMany_fits fits charged.within many
      exact of_items values ((charged.trans items).mono (by omega)) sized

theorem decodeInline_fits {reader after : Reader} {value : Value}
    (within : exceeds limits.message reader.used = false)
    (decoded : decodeInline limits reader = .ok (value, after)) :
    Fits limits reader after value := by
  unfold decodeInline at decoded
  split at decoded
  next => cases decoded
  next line lineEnd read =>
    obtain ⟨charged, short⟩ := readLine_charged within read
    dsimp only at decoded
    split_ifs at decoded
    cases decoded
    have total : bulkSizes ((fields line).map .bulkString) ≤ line.length := by
      simpa [bulkSizes, Function.comp_def, Value.bulkSize] using fields_length line
    refine ⟨charged.mono (Nat.zero_le _), .inl (exceeds_zero _), ?_⟩
    rintro _ ⟨⟩
    refine ⟨charged.mono total, ?_⟩
    intro item membership
    obtain ⟨word, found, rfl⟩ := List.mem_map.mp membership
    have wordLength : word.length ≤ ((fields line).map List.length).sum :=
      List.single_le_sum (by simp) _ (List.mem_map_of_mem found)
    exact .inr (exceeds_mono (wordLength.trans (fields_length line)) short)

/-- Every decoded value is within the limits. -/
theorem decodeValue_fits {depth : Nat} {reader after : Reader} {value : Value}
    (within : exceeds limits.message reader.used = false)
    (decoded : decodeValue limits depth reader = .ok (value, after)) :
    Fits limits reader after value := by
  induction depth generalizing reader after value with
  | zero => cases decoded
  | succ depth inductionHypothesis =>
      obtain ⟨⟨type, start⟩, typed, decoded⟩ := bind_eq_ok.mp decoded
      have first := readByte_charged typed
      have extend : Fits limits start after value → Fits limits reader after value := by
        rintro ⟨charged, sized, items⟩
        refine ⟨(first.trans charged).mono (by omega), sized, fun list same => ?_⟩
        exact ⟨(first.trans (items list same).1).mono (by omega), (items list same).2⟩
      dsimp only at decoded
      split_ifs at decoded
      · obtain ⟨⟨line, lineEnd⟩, read, result⟩ := bind_eq_ok.mp decoded
        cases result
        exact extend (.of_plain (readLine_charged first.within read).1 rfl nofun)
      · obtain ⟨⟨line, lineEnd⟩, read, result⟩ := bind_eq_ok.mp decoded
        cases result
        exact extend (.of_plain (readLine_charged first.within read).1 rfl nofun)
      · obtain ⟨⟨line, lineEnd⟩, read, result⟩ := bind_eq_ok.mp decoded
        dsimp only at result
        split at result
        next => cases result
        next =>
          cases result
          exact extend (.of_plain (readLine_charged first.within read).1 rfl nofun)
      · exact extend (decodeBulkString_fits first.within decoded)
      · exact extend (decodeArray_fits inductionHypothesis first.within decoded)
      · exact decodeInline_fits within decoded

end Carrot
