import Carrot.Keyspace.Lists
import Carrot.Storage.List

/-!
# The buffer loops compute list functions

Each loop of the list operations is compared with the function on
mathematical lists that it implements.
-/

namespace Carrot.ListValue

theorem WellFormed.pushAll {list : ListValue} (wellFormed : list.WellFormed)
    (values : List Bytes) (left : Bool) :
    (list.pushAll values left).WellFormed ∧
      (list.pushAll values left).toList = Lists.pushAll left values list.toList := by
  induction values generalizing list with
  | nil => exact ⟨wellFormed, by cases left <;> simp [ListValue.pushAll, Lists.pushAll]⟩
  | cons value values inductionHypothesis =>
      obtain ⟨pushed, elements⟩ := wellFormed.push value left
      obtain ⟨result, resultElements⟩ := inductionHypothesis pushed
      refine ⟨result, ?_⟩
      change ((list.push value left).pushAll values left).toList = _
      rw [resultElements, elements]
      cases left <;> simp [Lists.pushAll]

theorem WellFormed.popMany {list : ListValue} (wellFormed : list.WellFormed) (left : Bool)
    {count : Nat} (bounded : count ≤ list.size) :
    (list.popMany left count).1.WellFormed ∧
      ((list.popMany left count).1.toList, (list.popMany left count).2) =
        Lists.popMany left count list.toList := by
  induction count generalizing list with
  | zero => exact ⟨wellFormed, by cases left <;> simp [ListValue.popMany, Lists.popMany]⟩
  | succ count inductionHypothesis =>
      have length := list.toRingBuffer.length_toList
      have nonempty : list.toList ≠ [] := by
        intro empty
        rw [empty] at length
        simp at length
        omega
      obtain ⟨popped, _, split⟩ := wellFormed.pop left nonempty
      have rest : (list.pop left).1.size + 1 = list.size := by
        rw [← (list.pop left).1.toRingBuffer.length_toList, ← length, split]
        cases left <;> simp
      obtain ⟨result, elements⟩ := inductionHypothesis popped (by omega)
      refine ⟨result, ?_⟩
      change ((ListValue.popMany (list.pop left).1 left count).1.toList,
        (list.pop left).2.1 :: (ListValue.popMany (list.pop left).1 left count).2) = _
      cases left with
      | false =>
          simp only [Bool.false_eq_true, if_false] at split
          simp only [Lists.popMany, Bool.false_eq_true, if_false, Prod.mk.injEq] at elements ⊢
          rw [split, elements.1, elements.2]
          simp [List.rdrop_concat_succ]
      | true =>
          simp only [if_true] at split
          simp only [Lists.popMany, if_true, Prod.mk.injEq] at elements ⊢
          rw [split, elements.1, elements.2]
          simp

/-! ## Removal -/

/-- After `removed` removals, `budget` of the next `steps` visits may remove. -/
def Budget (allowed : Int → Prop) (removed : Int) (steps budget : Nat) : Prop :=
  ∀ further : Nat, further < steps → (allowed (removed + further) ↔ further < budget)

section

variable {allowed : Int → Prop} {removed : Int} {steps budget : Nat}

theorem Budget.allowed_iff (enough : Budget allowed removed (steps + 1) budget) :
    allowed removed ↔ 0 < budget := by
  simpa using enough 0 (Nat.succ_pos steps)

theorem Budget.skip (enough : Budget allowed removed (steps + 1) budget) :
    Budget allowed removed steps budget :=
  fun further bound => enough further (by omega)

theorem Budget.spend (enough : Budget allowed removed (steps + 1) (budget + 1)) :
    Budget allowed (removed + 1) steps budget := by
  intro further bound
  have shifted := enough (further + 1) (by omega)
  rw [Nat.add_lt_add_iff_right] at shifted
  rw [← shifted]
  push_cast
  rw [show removed + 1 + (further : Int) = removed + (further + 1) by ring]

end

/-- Removing one element leaves what is before and behind it. -/
theorem WellFormed.removeAt_around {list : ListValue} (wellFormed : list.WellFormed)
    {position : Nat} (inside : position < list.size) :
    (list.removeAt position).WellFormed ∧ (list.removeAt position).size + 1 = list.size ∧
      (list.removeAt position).toList.take position = list.toList.take position ∧
      (list.removeAt position).toList.drop position = list.toList.drop (position + 1) := by
  obtain ⟨erased, elements⟩ := wellFormed.removeAt inside
  have bound : position < list.toList.length := by rwa [RingBuffer.length_toList]
  have start : (list.toList.take position).length = position := by
    rw [List.length_take, Nat.min_eq_left (Nat.le_of_lt bound)]
  refine ⟨erased, ?_, ?_, ?_⟩
  · rw [← (list.removeAt position).toRingBuffer.length_toList, elements,
      List.length_eraseIdx_of_lt bound, RingBuffer.length_toList]
    omega
  · rw [elements, List.eraseIdx_eq_take_drop_succ, List.take_left' start]
  · rw [elements, List.eraseIdx_eq_take_drop_succ, List.drop_left' start]

/-- The ascending removal loop. -/
theorem WellFormed.remForward {list : ListValue} (wellFormed : list.WellFormed)
    (value : Bytes) (count limit : Int) (remaining position : Nat) (removed : Int)
    (budget : Nat) (length : position + remaining = list.size)
    (enough : Budget (fun removed => count = 0 ∨ removed < limit) removed remaining budget) :
    (ListValue.remForward value count limit remaining position removed list).1.WellFormed ∧
      (ListValue.remForward value count limit remaining position removed list).1.toList =
        list.toList.take position ++
          Lists.removeFirst value budget (list.toList.drop position) ∧
      (ListValue.remForward value count limit remaining position removed list).2 =
        removed + list.size -
          (ListValue.remForward value count limit remaining position removed list).1.size := by
  induction remaining generalizing list position removed budget with
  | zero =>
      have whole : list.toList.length ≤ position := by
        rw [RingBuffer.length_toList]
        omega
      refine ⟨wellFormed, ?_, by simp [ListValue.remForward]⟩
      simp [ListValue.remForward, List.drop_eq_nil_of_le whole, List.take_of_length_le whole]
  | succ remaining inductionHypothesis =>
      have inside : position < list.size := by omega
      have current := list.toRingBuffer.drop_toList inside
      by_cases hit : list.atIndex position = value ∧ (count = 0 ∨ removed < limit)
      · obtain ⟨smaller, rfl⟩ : ∃ smaller, budget = smaller + 1 :=
          Nat.exists_eq_add_one.mpr (enough.allowed_iff.mp hit.2)
        obtain ⟨erased, size, before, behind⟩ := wellFormed.removeAt_around inside
        obtain ⟨result, resultElements, resultRemoved⟩ :=
          inductionHypothesis erased position (removed + 1) smaller (by omega) enough.spend
        rw [ListValue.remForward, if_pos hit]
        refine ⟨result, ?_, by omega⟩
        rw [resultElements, before, behind, current, hit.1, Lists.removeFirst_cons_self]
      · obtain ⟨result, resultElements, resultRemoved⟩ :=
          inductionHypothesis wellFormed (position + 1) removed budget (by omega) enough.skip
        rw [ListValue.remForward, if_neg hit]
        refine ⟨result, ?_, resultRemoved⟩
        rw [resultElements, current, RingBuffer.take_succ_toList _ inside, List.append_assoc,
          List.singleton_append]
        by_cases same : list.atIndex position = value
        · have exhausted : budget = 0 :=
            Nat.eq_zero_of_not_pos fun positive => hit ⟨same, enough.allowed_iff.mpr positive⟩
          simp [exhausted]
        · rw [Lists.removeFirst_cons_of_ne same]

/-- The descending removal loop. -/
theorem WellFormed.remBackward {list : ListValue} (wellFormed : list.WellFormed)
    (value : Bytes) (limit : Int) (position : Nat) (removed : Int) (budget : Nat)
    (bounded : position ≤ list.size)
    (enough : Budget (fun removed => removed < limit) removed position budget) :
    (ListValue.remBackward value limit position removed list).1.WellFormed ∧
      (ListValue.remBackward value limit position removed list).1.toList =
        Lists.removeLast value budget (list.toList.take position) ++
          list.toList.drop position ∧
      (ListValue.remBackward value limit position removed list).2 =
        removed + list.size -
          (ListValue.remBackward value limit position removed list).1.size := by
  induction position generalizing list removed budget with
  | zero => exact ⟨wellFormed, by simp [ListValue.remBackward], by simp [ListValue.remBackward]⟩
  | succ position inductionHypothesis =>
      have inside : position < list.size := by omega
      have current := list.toRingBuffer.take_succ_toList inside
      by_cases hit : list.atIndex position = value ∧ removed < limit
      · obtain ⟨smaller, rfl⟩ : ∃ smaller, budget = smaller + 1 :=
          Nat.exists_eq_add_one.mpr (enough.allowed_iff.mp hit.2)
        obtain ⟨erased, size, before, behind⟩ := wellFormed.removeAt_around inside
        obtain ⟨result, resultElements, resultRemoved⟩ :=
          inductionHypothesis erased (removed + 1) smaller (by omega) enough.spend
        rw [ListValue.remBackward, if_pos hit]
        refine ⟨result, ?_, by omega⟩
        rw [resultElements, before, behind, current, hit.1, Lists.removeLast_concat_self]
      · obtain ⟨result, resultElements, resultRemoved⟩ :=
          inductionHypothesis wellFormed removed budget (by omega) enough.skip
        rw [ListValue.remBackward, if_neg hit]
        refine ⟨result, ?_, resultRemoved⟩
        rw [resultElements, current, RingBuffer.drop_toList _ inside]
        by_cases same : list.atIndex position = value
        · have exhausted : budget = 0 :=
            Nat.eq_zero_of_not_pos fun positive => hit ⟨same, enough.allowed_iff.mpr positive⟩
          simp [exhausted]
        · rw [Lists.removeLast_concat_of_ne same, List.append_assoc, List.singleton_append]

/-! ## Search -/

/-- The pivot search from a position on. -/
theorem findPivot_eq (list : ListValue) (pivot : Bytes) (remaining position : Nat)
    (length : position + remaining = list.size) :
    list.findPivot pivot remaining position =
      ((list.toList.drop position).findIdx? fun item => item = pivot).map (position + ·) := by
  induction remaining generalizing position with
  | zero =>
      have whole : list.toList.length ≤ position := by
        rw [RingBuffer.length_toList]
        omega
      simp [findPivot, List.drop_eq_nil_of_le whole]
  | succ remaining inductionHypothesis =>
      have inside : position < list.size := by omega
      rw [findPivot, RingBuffer.drop_toList _ inside, List.findIdx?_cons]
      by_cases hit : list.atIndex position = pivot
      · simp [hit]
      · rw [if_pos hit, inductionHypothesis (position + 1) (by omega)]
        simp only [hit, decide_false, Bool.false_eq_true, if_false, Option.map_map]
        congr 1
        funext index
        simp only [Function.comp_apply]
        omega

theorem index_eq_locate (list : ListValue) (position : Int) :
    list.index position = Lists.locate list.toList position := by
  simp only [index, Lists.locate, Lists.fromEnd, RingBuffer.length_toList]
  generalize (if position < 0 then position + (list.size : Int) else position) = normalized
  by_cases inside : 0 ≤ normalized ∧ normalized < list.size
  · rw [if_pos inside, if_neg (by omega)]
  · rw [if_neg inside, if_pos (by omega)]

/-- The clamped copy is the slice; it is empty exactly when the bounds clamp
to nothing. -/
theorem clampRange_slice (list : ListValue) (start stop : Int) :
    match clampRange start stop list.size with
    | none => Lists.slice start stop list.toList = []
    | some (low, high) =>
        list.rangeCopy low high = Lists.slice start stop list.toList ∧
          Lists.slice start stop list.toList ≠ [] := by
  have normalized : ∀ position : Int,
      (if position < 0 then position + (list.size : Int) else position) =
        Lists.fromEnd list.toList position := by
    intro position
    simp [Lists.fromEnd]
  have lowClamped : ∀ low : Int, (if low < 0 then 0 else low) = max low 0 := by
    intro low
    split <;> omega
  have highClamped : ∀ high : Int, (if high ≥ (list.size : Int) then (list.size : Int) - 1
      else high) = min high (list.size - 1) := by
    intro high
    split <;> omega
  simp only [clampRange, normalized, lowClamped, highClamped]
  generalize lowEq : Lists.fromEnd list.toList start = low
  generalize highEq : Lists.fromEnd list.toList stop = high
  have sliced : Lists.slice start stop list.toList =
      (list.toList.take (high + 1).toNat).drop low.toNat := by
    simp [Lists.slice, lowEq, highEq]
  have sliceLength : (Lists.slice start stop list.toList).length =
      min (high + 1).toNat list.size - low.toNat := by
    rw [sliced]
    simp
  by_cases empty : max low 0 ≥ (list.size : Int) ∨ max low 0 > min high (list.size - 1) ∨
      (list.size : Int) = 0
  · rw [if_pos empty]
    apply List.length_eq_zero_iff.mp
    rw [sliceLength]
    omega
  · rw [if_neg empty]
    have highBound : (min high (list.size - 1) + 1).toNat ≤ list.size := by omega
    constructor
    · have lowNat : (max low 0).toNat = low.toNat := by omega
      rw [RingBuffer.rangeCopy_eq _ highBound, sliced, List.drop_take, lowNat]
      by_cases clamped : high ≥ list.size
      · rw [List.take_of_length_le (by simp; omega), List.take_of_length_le (by simp; omega)]
      · rw [min_eq_left (by omega)]
    · intro nothing
      have noLength := congrArg List.length nothing
      rw [sliceLength, List.length_nil] at noLength
      omega

/-- The indices visited from `index` on, with the elements found there. -/
def visits (list : ListValue) (step index : Int) (remaining : Nat) : List (Bytes × Int) :=
  (List.range remaining).map fun offset : Nat =>
    (list.atIndex (index + step * offset).toNat, index + step * offset)

theorem visits_succ (list : ListValue) (step index : Int) (remaining : Nat) :
    list.visits step index (remaining + 1) =
      (list.atIndex index.toNat, index) :: list.visits step (index + step) remaining := by
  simp only [visits, List.range_succ_eq_map, List.map_cons, List.map_map]
  congr 1
  · simp
  · apply List.map_congr_left
    intro offset _
    simp only [Function.comp_apply]
    have moved : index + step * ((offset.succ : Nat) : Int) = index + step + step * offset := by
      push_cast
      ring
    rw [moved]

/-- The scan loop selects from what it has not visited yet. -/
theorem scanPositions_eq (list : ListValue) (value : Bytes) (step rank count maxLen : Int)
    (remaining : Nat) (index seen examined : Int) (positions : List Int)
    (unfinished : count > 0 → (positions.length : Int) < count)
    (nonnegative : 0 ≤ examined) :
    list.scanPositions value step rank count maxLen remaining index seen examined positions =
      positions ++
        if maxLen > 0 ∧ maxLen ≤ examined then []
        else Lists.select value (rank - 1 - seen).toNat (count - positions.length)
          (maxLen - examined) (list.visits step index remaining) := by
  induction remaining generalizing index seen examined positions with
  | zero => simp [scanPositions, visits, Lists.select]
  | succ remaining inductionHypothesis =>
      rw [scanPositions, visits_succ]
      by_cases exhausted : maxLen > 0 ∧ examined ≥ maxLen
      · rw [if_pos exhausted, if_pos exhausted, List.append_nil]
      rw [if_neg exhausted, if_neg exhausted]
      -- The scan ends after this index exactly when it is the last one to examine.
      have examine : ∀ (skip : Nat) (left : Int) (visits : List (Bytes × Int)),
          (if maxLen > 0 ∧ maxLen ≤ examined + 1 then []
            else Lists.select value skip left (maxLen - (examined + 1)) visits) =
          Lists.selectNext value skip left (maxLen - examined) visits := by
        intro skip left visits
        rw [Lists.selectNext, Int.sub_sub]
        exact if_congr (by omega) rfl rfl
      by_cases different : list.atIndex index.toNat ≠ value
      · rw [if_pos different, inductionHypothesis _ _ _ _ unfinished (by omega), examine,
          Lists.select_cons_of_ne different]
      rw [if_neg different, not_not.mp different]
      by_cases early : seen + 1 < rank
      · have skip : (rank - 1 - seen).toNat = (rank - 1 - (seen + 1)).toNat + 1 := by omega
        rw [if_pos early, inductionHypothesis _ _ _ _ unfinished (by omega), examine, skip,
          Lists.select_cons_skip]
      have skip : (rank - 1 - seen).toNat = 0 := by omega
      have skipNext : (rank - 1 - (seen + 1)).toNat = 0 := by omega
      have longer : ((positions ++ [index]).length : Int) = positions.length + 1 := by simp
      rw [if_neg early, skip, longer]
      by_cases full : count > 0 ∧ (positions.length : Int) + 1 ≥ count
      · have single : count - (positions.length : Int) = 1 := by
          have room := unfinished full.1
          omega
        rw [if_pos full, single, Lists.select_cons_last]
      · have room : count > 0 → ((positions ++ [index]).length : Int) < count := by
          rw [longer]
          omega
        rw [if_neg full, inductionHypothesis _ _ _ _ room (by omega), examine, skipNext, longer,
          Lists.select_cons_keep value index (by omega), List.append_assoc,
          List.singleton_append, Int.sub_sub]

theorem visits_ascending (list : ListValue) :
    list.visits 1 0 list.size = Lists.scan false list.toList := by
  apply List.ext_getElem
  · simp [visits, Lists.scan]
  · intro index _ _
    simp [visits, Lists.scan]

theorem visits_descending (list : ListValue) :
    list.visits (-1) (list.size - 1) list.size = Lists.scan true list.toList := by
  apply List.ext_getElem
  · simp [visits, Lists.scan]
  · intro index bound _
    have inside : index < list.size := by simpa [visits] using bound
    have position :
        (list.size : Int) - 1 + -(index : Int) = ((list.size - 1 - index : Nat) : Int) := by
      omega
    simp [visits, Lists.scan, position]

/-- Both scans of `ListPosition` find the positions of the value. -/
theorem scanPositions_positions (list : ListValue) (value : Bytes) (rank count maxLen : Int) :
    (if rank < 0 then
        list.scanPositions value (-1) (-rank) count maxLen list.size (list.size - 1) 0 0 []
      else list.scanPositions value 1 rank count maxLen list.size 0 0 0 []) =
      Lists.positions value rank count maxLen list.toList := by
  have running : ¬ (maxLen > 0 ∧ maxLen ≤ 0) := by omega
  have scanned : ∀ (step magnitude first : Int), magnitude = rank.natAbs →
      list.scanPositions value step magnitude count maxLen list.size first 0 0 [] =
        Lists.select value (rank.natAbs - 1) count maxLen (list.visits step first list.size) := by
    rintro step _ first rfl
    have skip : ((rank.natAbs : Int) - 1 - 0).toNat = rank.natAbs - 1 := by omega
    rw [scanPositions_eq _ _ _ _ _ _ _ _ _ _ _ (by simp) (Int.le_refl 0), if_neg running, skip,
      List.nil_append]
    simp only [List.length_nil, Nat.cast_zero, Int.sub_zero]
  by_cases descending : rank < 0
  · rw [if_pos descending, scanned _ _ _ (by omega), visits_descending, Lists.positions,
      decide_eq_true descending]
  · rw [if_neg descending, scanned _ _ _ (by omega), visits_ascending, Lists.positions,
      decide_eq_false descending]

end Carrot.ListValue
