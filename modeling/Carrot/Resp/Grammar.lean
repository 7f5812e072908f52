import Carrot.Resp.Bounds

/-!
# Reading without limits

Without limits on sizes, a value is read back from its encoding if none of its
lines contains a line feed.
-/

namespace Carrot

mutual

/-- No simple string and no error of the value contains a line feed. -/
def Value.Clean : Value → Prop
  | .simpleString text => 10 ∉ text
  | .error text => 10 ∉ text
  | .array items => CleanAll items
  | _ => True

def CleanAll : List Value → Prop
  | [] => True
  | value :: values => value.Clean ∧ CleanAll values

end

theorem headerWithin_unlimited (size : Nat) : HeaderWithin Limits.unlimited none size :=
  ⟨rfl, rfl, rfl⟩

mutual

theorem readable_unlimited (value : Value) (clean : value.Clean) :
    Readable Limits.unlimited value := by
  cases value with
  | simpleString text => exact ⟨clean, rfl⟩
  | error text => exact ⟨clean, rfl⟩
  | integer number => exact rfl
  | bulkString text => exact headerWithin_unlimited text.length
  | nullBulkString => exact rfl
  | array items => exact ⟨headerWithin_unlimited items.length, readableAll_unlimited items clean⟩

theorem readableAll_unlimited (values : List Value) (clean : CleanAll values) :
    ReadableAll Limits.unlimited values := by
  cases values with
  | nil => trivial
  | cons value values =>
      exact ⟨readable_unlimited value clean.1, readableAll_unlimited values clean.2⟩

end

mutual

/-- Every level of nesting takes a byte. -/
theorem nesting_le_length (value : Value) : nesting value ≤ (encode value).length := by
  cases value with
  | array items =>
      have inner := nestingAll_le_length items
      simp only [nesting, encode, List.length_cons, List.length_append]
      omega
  | _ =>
      simp only [nesting, encode, List.length_cons]
      omega

theorem nestingAll_le_length (values : List Value) :
    nestingAll values ≤ (encodeAll values).length := by
  cases values with
  | nil => exact Nat.le_refl 0
  | cons value values =>
      have head := nesting_le_length value
      have tail := nestingAll_le_length values
      simp only [nestingAll, encodeAll, List.length_append]
      omega

end

/-- A value without line feeds in its lines is read back, whatever follows it. -/
theorem decode_unlimited {value : Value} (clean : value.Clean) (rest : Bytes) :
    decode Limits.unlimited (encode value ++ rest) = .ok (value, rest) := by
  refine decode_encode rest (readable_unlimited value clean) ?_ rfl
  have depth := nesting_le_length value
  simp only [Limits.unlimited, Option.getD_none, List.length_append]
  omega

/-! ## Lines end at the first line feed -/

theorem readSlice_delimiter {input : Bytes} (ended : (readSlice input).status = .delimiter) :
    ∃ line, (readSlice input).chunk = line ++ [10] ∧ 10 ∉ line := by
  unfold readSlice at ended ⊢
  dsimp only at ended ⊢
  cases found : (input.take 4096).findIdx? (fun byte => byte = 10) with
  | none =>
      simp only [found] at ended
      split at ended <;> cases ended
  | some index =>
      obtain ⟨bound, isLineFeed, earlier⟩ := List.findIdx?_eq_some_iff_getElem.mp found
      have inside : index < input.length := by
        rw [List.length_take] at bound
        omega
      refine ⟨input.take index, ?_, ?_⟩
      · simp only [List.getElem_take, decide_eq_true_eq] at isLineFeed
        dsimp only
        rw [List.take_succ_eq_append_getElem inside, isLineFeed]
      · intro membership
        obtain ⟨position, short, isByte⟩ := List.mem_iff_getElem.mp membership
        rw [List.length_take] at short
        rw [List.getElem_take] at isByte
        have before := earlier position (by omega)
        simp only [List.getElem_take, isByte] at before
        exact before (by decide)

theorem readSlice_bufferFull {input : Bytes} (full : (readSlice input).status = .bufferFull) :
    10 ∉ (readSlice input).chunk := by
  unfold readSlice at full ⊢
  dsimp only at full ⊢
  cases found : (input.take 4096).findIdx? (fun byte => byte = 10) with
  | some index =>
      simp only [found] at full
      cases full
  | none =>
      simp only [found] at full ⊢
      split at full
      next long =>
        rw [if_pos long]
        intro membership
        have free := List.findIdx?_eq_none_iff.mp found 10 membership
        exact absurd free (by decide)
      next => cases full

theorem readLineLoop_noLineFeed {limits : Limits} {fuel : Nat} {reader after : Reader}
    {line text : Bytes} (free : 10 ∉ line)
    (read : readLineLoop limits fuel reader line = .ok (text, after)) : 10 ∉ text := by
  induction fuel generalizing reader line with
  | zero => cases read
  | succ fuel inductionHypothesis =>
      simp only [readLineLoop] at read
      split at read
      next => cases read
      next charged paid =>
        split at read
        next status =>
          obtain ⟨stripped, strippedEq, result⟩ := map_eq_ok.mp read
          cases result
          obtain ⟨head, shape, headFree⟩ := readSlice_delimiter status
          simp only [stripCrlf] at strippedEq
          split at strippedEq
          next => cases strippedEq
          next =>
            -- The text is without the last two bytes, so within what precedes the line feed.
            cases strippedEq
            rw [shape, ← List.append_assoc, List.take_append_of_le_length (by simp; omega)]
            intro membership
            rcases List.mem_append.mp (List.mem_of_mem_take membership) with inLine | inHead
            · exact free inLine
            · exact headFree inHead
        next status =>
          refine inductionHypothesis ?_ read
          intro membership
          rcases List.mem_append.mp membership with inLine | inChunk
          · exact free inLine
          · exact readSlice_bufferFull status inChunk
        next => cases read

/-- An error is read back exactly if its text holds no line feed. -/
theorem decode_unlimited_error (text : Bytes) :
    decode Limits.unlimited (encode (.error text)) = .ok (.error text, []) ↔ 10 ∉ text := by
  constructor
  · intro decoded
    simp only [decode, encode] at decoded
    split at decoded
    next => cases decoded
    next value reader read =>
      have same : value = .error text := by simp_all
      have within : exceeds Limits.unlimited.message (0 + 1) = false := rfl
      rw [same, Limits.unlimited, Option.getD_none, ← Limits.unlimited, decodeValue_type within,
        if_neg (by decide), if_pos rfl] at read
      obtain ⟨⟨line, after⟩, lineRead, result⟩ := bind_eq_ok.mp read
      cases result
      exact readLineLoop_noLineFeed List.not_mem_nil lineRead
  · intro free
    have decoded := decode_unlimited (show (Value.error text).Clean from free) []
    rwa [List.append_nil] at decoded

end Carrot
