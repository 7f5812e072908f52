import Carrot.Library.Incremental
import Carrot.Resp.Bounds

/-!
# Decoding what has arrived so far

The decoder is steady: it reports the end of the input where more input can
still change the outcome, and nowhere else.  A part of a message that is cut
anywhere is therefore never taken for a message or for a malformed one.
-/

namespace Carrot

variable {limits : Limits}

/-- More input has arrived. -/
def Reader.extend (reader : Reader) (more : Bytes) : Reader :=
  { reader with input := reader.input ++ more }

/-- A reading step whose outcome is final unless the input has ended. -/
abbrev SteadyRead {Result : Type} (read : Reader → Except DecodeError (Result × Reader)) : Prop :=
  Steady Reader.extend DecodeError.isEof read

theorem consume_extend (reader : Reader) (amount : Nat) (more : Bytes) :
    consume limits (reader.extend more) amount =
      (consume limits reader amount).map fun after => after.extend more := by
  by_cases tooMuch : exceeds limits.message (reader.used + amount) = true <;>
    simp [consume, Reader.extend, tooMuch, Except.map]

theorem consume_error {reader : Reader} {amount : Nat} {cause : DecodeError}
    (failed : consume limits reader amount = .error cause) : cause.isEof = false := by
  unfold consume at failed
  split at failed <;> cases failed
  rfl

/-- Count bytes and go on. -/
theorem SteadyRead.consume {Result : Type}
    {next : Reader → Except DecodeError (Result × Reader)} (amount : Nat)
    (steady : SteadyRead next) :
    SteadyRead fun reader => Carrot.consume limits reader amount >>= next where
  ok {reader after value} more result := by
    obtain ⟨counted, paid, read⟩ := bind_eq_ok.mp result
    rw [consume_extend, paid]
    exact steady.ok more read
  error {reader cause} more failed notEnded := by
    cases paid : Carrot.consume limits reader amount with
    | error early =>
        rw [consume_extend, paid]
        exact ⟨early, rfl, consume_error paid⟩
    | ok counted =>
        rw [paid] at failed
        rw [consume_extend, paid]
        exact steady.error more failed notEnded

theorem readByte_steady : SteadyRead (readByte limits) where
  ok {reader after byte} more read := by
    obtain ⟨input, used⟩ := reader
    cases input with
    | nil => cases read
    | cons first rest => exact (SteadyRead.consume 1 (.done first)).ok more read
  error {reader cause} more failed notEnded := by
    obtain ⟨input, used⟩ := reader
    cases input with
    | nil =>
        cases failed
        cases notEnded
    | cons first rest => exact (SteadyRead.consume 1 (.done first)).error more failed notEnded

/-! ## Lines -/

/-- A slice that did not end with the input stays the same. -/
theorem readSlice_extend {input : Bytes} (settled : (readSlice input).status ≠ .endOfInput)
    (more : Bytes) :
    readSlice (input ++ more) =
      ⟨(readSlice input).chunk, (readSlice input).status, (readSlice input).rest ++ more⟩ := by
  unfold readSlice at settled ⊢
  dsimp only at settled ⊢
  cases found : (input.take 4096).findIdx? (fun byte => byte = 10) with
  | some index =>
      have bound : index < (input.take 4096).length :=
        (List.findIdx?_eq_some_iff_getElem.mp found).1
      have inside : index + 1 ≤ input.length := by
        rw [List.length_take] at bound
        omega
      have same : ((input ++ more).take 4096).findIdx? (fun byte => byte = 10) = some index := by
        rw [List.take_append, List.findIdx?_append, found]
        rfl
      simp only [same]
      rw [List.take_append_of_le_length inside, List.drop_append_of_le_length inside]
  | none =>
      simp only [found] at settled
      split at settled
      next long =>
        have same : (input ++ more).take 4096 = input.take 4096 :=
          List.take_append_of_le_length long
        have longer : 4096 ≤ (input ++ more).length := by
          rw [List.length_append]
          omega
        simp only [same, found, if_pos longer, if_pos long]
        rw [List.drop_append_of_le_length long]
      next => exact absurd rfl settled

/-- A slice that ended with the input is all of it, and grows with it. -/
theorem readSlice_ended {input : Bytes} (ended : (readSlice input).status = .endOfInput)
    (more : Bytes) :
    readSlice input = ⟨input, .endOfInput, []⟩ ∧
      input.length ≤ (readSlice (input ++ more)).chunk.length := by
  unfold readSlice at ended ⊢
  dsimp only at ended ⊢
  cases found : (input.take 4096).findIdx? (fun byte => byte = 10) with
  | some index =>
      simp only [found] at ended
      cases ended
  | none =>
      simp only [found] at ended ⊢
      split at ended
      next => cases ended
      next short =>
        have whole : input.take 4096 = input := List.take_of_length_le (by omega)
        rw [whole] at found
        refine ⟨if_neg short, ?_⟩
        cases later : ((input ++ more).take 4096).findIdx? (fun byte => byte = 10) with
        | some index =>
            have beyond : input.length ≤ index := by
              by_contra inside
              rw [List.take_append, whole, List.findIdx?_append, found] at later
              simp only [Option.none_or, Option.map_eq_some_iff] at later
              obtain ⟨_, _, shifted⟩ := later
              omega
            have bound := (List.findIdx?_eq_some_iff_getElem.mp later).1
            simp only [List.length_take] at bound ⊢
            omega
        | none =>
            simp only
            split
            next => simp only [List.length_take, List.length_append]; omega
            next => simp only [List.length_append]; omega

/-- A chunk that is too much stays too much when it grows. -/
theorem chargeChunk_grows {reader : Reader} {line chunk more : Bytes} {cause : DecodeError}
    (longer : Reader) (sameUsed : longer.used = reader.used) (grows : chunk.length ≤ more.length)
    (failed : chargeChunk limits reader line chunk = .error cause) :
    ∃ later, chargeChunk limits longer line more = .error later ∧ later.isEof = false := by
  unfold chargeChunk at failed ⊢
  split at failed
  next nonempty =>
    rw [if_pos (by omega)]
    have exceedsMore : ∀ {limit : Option Nat} {small large : Nat}, small ≤ large →
        exceeds limit small = true → exceeds limit large = true := by
      intro limit small large ordered tooMuch
      by_contra within
      rw [exceeds_mono ordered (by simpa using within)] at tooMuch
      cases tooMuch
    cases paid : consume limits longer more.length with
    | error later =>
        unfold consume at paid
        split at paid
        next => cases paid; exact ⟨_, rfl, rfl⟩
        next => cases paid
    | ok after =>
        unfold consume at paid failed
        split at paid
        next => cases paid
        next within =>
          have small : ¬ exceeds limits.message (reader.used + chunk.length) = true := by
            intro tooMuch
            exact within (exceedsMore (by omega) tooMuch)
          rw [if_neg small] at failed
          simp only at failed ⊢
          split at failed
          next tooLong =>
            refine ⟨.lineTooLong, if_pos (exceedsMore ?_ tooLong), rfl⟩
            simp only [List.length_append]
            omega
          next => cases failed
  next => cases failed

theorem chargeChunk_extend (limits : Limits) (reader : Reader) (line chunk more : Bytes) :
    chargeChunk limits (reader.extend more) line chunk =
      (chargeChunk limits reader line chunk).map fun after => after.extend more := by
  unfold chargeChunk
  rw [consume_extend]
  split
  next =>
    cases consume limits reader chunk.length with
    | error cause => rfl
    | ok after =>
        simp only [Except.map]
        split <;> rfl
  next => rfl

theorem chargeChunk_error {reader : Reader} {line chunk : Bytes} {cause : DecodeError}
    (failed : chargeChunk limits reader line chunk = .error cause) : cause.isEof = false := by
  obtain ⟨later, fails, final⟩ := chargeChunk_grows reader rfl (le_refl chunk.length) failed
  rw [failed] at fails
  rwa [Except.error.inj fails]

theorem readSlice_rest_length {input : Bytes}
    (settled : (readSlice input).status ≠ .endOfInput) :
    (readSlice input).rest.length < input.length := by
  unfold readSlice at settled ⊢
  dsimp only at settled ⊢
  cases found : (input.take 4096).findIdx? (fun byte => byte = 10) with
  | some index =>
      have bound := (List.findIdx?_eq_some_iff_getElem.mp found).1
      rw [List.length_take] at bound
      simp only [List.length_drop]
      omega
  | none =>
      simp only [found] at settled
      split at settled
      next long =>
        rw [if_pos long]
        simp only [List.length_drop]
        omega
      next => exact absurd rfl settled

theorem chargeChunk_input {reader after : Reader} {line chunk : Bytes}
    (charged : chargeChunk limits reader line chunk = .ok after) : after.input = reader.input := by
  unfold chargeChunk at charged
  split at charged
  next =>
    split at charged
    next => cases charged
    next paid =>
      split at charged
      next => cases charged
      next =>
        cases charged
        exact (consume_charged paid).2
  next =>
    cases charged
    rfl

theorem stripCrlf_error {line : Bytes} {cause : DecodeError}
    (failed : stripCrlf line = .error cause) :
    cause = .expectedCrlf := by
  simp only [stripCrlf] at failed
  split at failed <;> cases failed
  rfl

/-- The outcome of reading a line is final.  The induction is on the fuel of the
shorter input; the longer one has fuel of its own. -/
theorem readLineLoop_extend {fuel larger : Nat} {reader : Reader} {line : Bytes}
    (enough : reader.input.length < fuel) (more : Bytes)
    (enoughMore : (reader.extend more).input.length < larger) :
    (∀ result after, readLineLoop limits fuel reader line = .ok (result, after) →
      readLineLoop limits larger (reader.extend more) line = .ok (result, after.extend more)) ∧
    ∀ cause, readLineLoop limits fuel reader line = .error cause → cause.isEof = false →
      ∃ later, readLineLoop limits larger (reader.extend more) line = .error later ∧
        later.isEof = false := by
  induction fuel generalizing larger reader line with
  | zero => omega
  | succ fuel inductionHypothesis =>
      obtain ⟨larger, rfl⟩ : ∃ smaller, larger = smaller + 1 := ⟨larger - 1, by omega⟩
      by_cases ended : (readSlice reader.input).status = .endOfInput
      · obtain ⟨whole, grows⟩ := readSlice_ended ended more
        simp only [readLineLoop, whole]
        cases charged : chargeChunk limits { reader with input := [] } line reader.input with
        | error cause =>
            obtain ⟨later, fails, final⟩ := chargeChunk_grows
              (⟨(readSlice (reader.input ++ more)).rest, reader.used⟩ : Reader)
              (show _ = (⟨[], reader.used⟩ : Reader).used from rfl) grows charged
            simp only [Reader.extend, fails]
            refine ⟨fun result final read => ?_, fun _ _ _ => ⟨later, rfl, final⟩⟩
            cases read
        | ok after =>
            refine ⟨fun result final read => ?_, fun cause failed notEnded => ?_⟩
            · cases read
            · cases failed
              cases notEnded
      · have slice := readSlice_extend ended more
        have charges := chargeChunk_extend limits
          { reader with input := (readSlice reader.input).rest } line
          (readSlice reader.input).chunk more
        simp only [Reader.extend] at charges
        simp only [readLineLoop, Reader.extend, slice, charges]
        cases charged : chargeChunk limits { reader with input := (readSlice reader.input).rest }
            line (readSlice reader.input).chunk with
        | error cause =>
            refine ⟨fun result final read => ?_,
              fun _ _ _ => ⟨cause, rfl, chargeChunk_error charged⟩⟩
            cases read
        | ok after =>
            simp only [Except.map]
            cases status : (readSlice reader.input).status with
            | endOfInput => exact absurd status ended
            | delimiter =>
                cases stripped : stripCrlf (line ++ (readSlice reader.input).chunk) with
                | error cause =>
                    rw [stripCrlf_error stripped]
                    refine ⟨fun result final read => ?_, fun _ _ _ => ⟨_, rfl, rfl⟩⟩
                    cases read
                | ok text =>
                    refine ⟨fun result final read => ?_, fun cause failed => ?_⟩
                    · cases read
                      rfl
                    · cases failed
            | bufferFull =>
                have same := chargeChunk_input charged
                have shorter := readSlice_rest_length ended
                refine inductionHypothesis ?_ ?_
                · rw [same]
                  dsimp only
                  omega
                · simp only [Reader.extend, List.length_append, same] at enoughMore ⊢
                  omega

theorem readLine_steady : SteadyRead (readLine limits) where
  ok more read := (readLineLoop_extend (Nat.lt_succ_self _) more (Nat.lt_succ_self _)).1 _ _ read
  error more failed notEnded :=
    (readLineLoop_extend (Nat.lt_succ_self _) more (Nat.lt_succ_self _)).2 _ failed notEnded

/-! ## Values -/

theorem readFull_steady (size : Nat) : SteadyRead fun reader => readFull reader size where
  ok {reader after payload} more read := by
    unfold readFull at read ⊢
    split at read
    next fits =>
      cases read
      have longer : size ≤ (reader.input ++ more).length := by
        rw [List.length_append]
        omega
      simp only [Reader.extend, if_pos longer, List.take_append_of_le_length fits,
        List.drop_append_of_le_length fits]
    next =>
      split at read <;> cases read
  error {reader cause} more failed notEnded := by
    unfold readFull at failed
    split at failed
    next => cases failed
    next =>
      split at failed <;> cases failed <;> cases notEnded

theorem expectCrlf_steady : SteadyRead (expectCrlf limits) := by
  refine readByte_steady.bind fun cr => readByte_steady.bind fun lf => ?_
  exact .ite (fun _ => .fail rfl) fun _ => .done ()

theorem decodeSimpleString_steady : SteadyRead (decodeSimpleString limits) :=
  readLine_steady.bind fun line => .done (Value.simpleString line)

theorem decodeError_steady : SteadyRead (decodeError limits) :=
  readLine_steady.bind fun line => .done (Value.error line)

theorem decodeInteger_steady : SteadyRead (decodeInteger limits) := by
  refine readLine_steady.bind fun line => ?_
  dsimp only
  cases Decimal.parseInt line with
  | error cause => exact .fail rfl
  | ok value => exact .done _

theorem decodeBulkString_steady : SteadyRead (decodeBulkString limits) := by
  refine readLine_steady.bind fun line => ?_
  dsimp only
  cases Decimal.parseSigned limits.width line with
  | error cause => exact .fail rfl
  | ok length =>
      refine .ite (fun _ => .done _) fun _ => .ite (fun _ => .fail rfl) fun _ =>
        .ite (fun _ => .fail rfl) fun _ => ?_
      refine SteadyRead.consume _ ((readFull_steady _).bind fun payload => ?_)
      dsimp only
      exact expectCrlf_steady.bind fun _ => .done (Value.bulkString payload)

theorem decodeMany_steady {decodeOne : Reader → Except DecodeError (Value × Reader)}
    (steady : SteadyRead decodeOne) (count : Nat) : SteadyRead (decodeMany decodeOne count) := by
  induction count with
  | zero => exact .done []
  | succ count inductionHypothesis =>
      exact steady.bind fun value => inductionHypothesis.bind fun values => .done (value :: values)

theorem decodeArray_steady {decodeOne : Reader → Except DecodeError (Value × Reader)}
    (steady : SteadyRead decodeOne) : SteadyRead (decodeArray limits decodeOne) := by
  refine readLine_steady.bind fun line => ?_
  dsimp only
  cases Decimal.parseSigned limits.width line with
  | error cause => exact .fail rfl
  | ok count =>
      refine .ite (fun _ => .done _) fun _ => .ite (fun _ => .fail rfl) fun _ =>
        .ite (fun _ => .fail rfl) fun _ => ?_
      exact (decodeMany_steady steady _).bind fun values => .done (Value.array values)

theorem decodeInline_steady : SteadyRead (decodeInline limits) where
  ok {reader after value} more read := by
    unfold decodeInline at read ⊢
    cases line : readLine limits reader with
    | error cause =>
        rw [line] at read
        cases read
    | ok pair =>
        rw [line] at read
        rw [readLine_steady.ok more line]
        dsimp only at read ⊢
        split at read
        next => cases read
        next nonempty =>
          cases read
          rw [if_neg nonempty]
  error {reader cause} more failed notEnded := by
    unfold decodeInline at failed ⊢
    cases line : readLine limits reader with
    | error early =>
        rw [line] at failed
        cases failed
        obtain ⟨later, fails, final⟩ := readLine_steady.error more line notEnded
        rw [fails]
        exact ⟨_, rfl, final⟩
    | ok pair =>
        rw [line] at failed
        rw [readLine_steady.ok more line]
        dsimp only at failed ⊢
        split at failed
        next empty =>
          rw [if_pos empty]
          exact ⟨_, rfl, rfl⟩
        next => cases failed

theorem decodeValue_steady (depth : Nat) : SteadyRead (decodeValue limits depth) := by
  induction depth with
  | zero => exact .fail rfl
  | succ depth inductionHypothesis =>
      constructor
      · intro reader after value more read
        obtain ⟨⟨type, next⟩, byte, read⟩ := bind_eq_ok.mp read
        rw [decodeValue, readByte_steady.ok more byte]
        simp only [bind, Except.bind] at read ⊢
        split_ifs at read ⊢
        · exact decodeSimpleString_steady.ok more read
        · exact decodeError_steady.ok more read
        · exact decodeInteger_steady.ok more read
        · exact decodeBulkString_steady.ok more read
        · exact (decodeArray_steady inductionHypothesis).ok more read
        · exact decodeInline_steady.ok more read
      · intro reader cause more failed notEnded
        rw [decodeValue] at failed ⊢
        cases byte : readByte limits reader with
        | error early =>
            rw [byte] at failed
            cases failed
            obtain ⟨later, fails, final⟩ := readByte_steady.error more byte notEnded
            rw [fails]
            exact ⟨later, rfl, final⟩
        | ok pair =>
            obtain ⟨type, next⟩ := pair
            rw [byte] at failed
            rw [readByte_steady.ok more byte]
            simp only [bind, Except.bind] at failed ⊢
            split_ifs at failed ⊢
            · exact decodeSimpleString_steady.error more failed notEnded
            · exact decodeError_steady.error more failed notEnded
            · exact decodeInteger_steady.error more failed notEnded
            · exact decodeBulkString_steady.error more failed notEnded
            · exact (decodeArray_steady inductionHypothesis).error more failed notEnded
            · exact decodeInline_steady.error more failed notEnded

/-! ## Messages -/

/-- A decoder with a bound on the nesting is steady on whole messages. -/
theorem decode_steady {depth : Nat} (bounded : limits.depth = some depth) :
    Steady (fun input more => input ++ more) DecodeError.isEof (decode limits) := by
  have values : SteadyRead (decodeValue limits depth) := decodeValue_steady depth
  constructor
  · intro input rest value more read
    simp only [decode, bounded, Option.getD_some] at read ⊢
    split at read
    next => cases read
    next value reader decoded =>
      cases read
      have later := values.ok more decoded
      simp only [Reader.extend] at later
      rw [later]
  · intro input cause more failed notEnded
    simp only [decode, bounded, Option.getD_some] at failed ⊢
    split at failed
    next early decoded =>
      cases failed
      obtain ⟨later, fails, final⟩ := values.error more decoded notEnded
      simp only [Reader.extend] at fails
      rw [fails]
      exact ⟨later, rfl, final⟩
    next => cases failed

end Carrot
