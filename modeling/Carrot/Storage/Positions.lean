import Carrot.Storage.Operations

/-!
# Positions in a list

`ListPosition` scans a list with an index that moves by one until it meets its
end.  The loop is stated here with this condition and with an access that is
checked, and is shown to give the positions that the arguments describe.
-/

namespace Carrot

namespace ListValue

/-- `at`, as long as the index is inside the list. -/
def checkedAt (list : ListValue) (index : Int) : Option Bytes :=
  if 0 ≤ index ∧ index < list.size then some (list.atIndex index.toNat) else none

/-- The loop of `ListPosition`.  There is no result when an index is outside the
list, or when the loop has not ended after `fuel` tests of its condition. -/
def positionLoop (list : ListValue) (value : Bytes) (stop step rank count maxLen : Int) :
    (fuel : Nat) → (index seen examined : Int) → (positions : List Int) → Option (List Int)
  | 0, _, _, _, _ => none
  | fuel + 1, index, seen, examined, positions =>
      if ¬ index ≠ stop then some positions
      else if maxLen > 0 ∧ examined ≥ maxLen then some positions
      else
        (list.checkedAt index).bind fun item =>
          if item ≠ value then
            list.positionLoop value stop step rank count maxLen fuel (index + step) seen
              (examined + 1) positions
          else if seen + 1 < rank then
            list.positionLoop value stop step rank count maxLen fuel (index + step) (seen + 1)
              (examined + 1) positions
          else if count > 0 ∧ ((positions ++ [index]).length : Int) ≥ count then
            some (positions ++ [index])
          else
            list.positionLoop value stop step rank count maxLen fuel (index + step) (seen + 1)
              (examined + 1) (positions ++ [index])

/-- The scan of `ListPosition`, with the bounds of its loop. -/
def findPositions (list : ListValue) (value : Bytes) (rank count maxLen : Int) (fuel : Nat) :
    Option (List Int) :=
  let length : Int := list.size
  if rank < 0 then
    list.positionLoop value (-1) (-1) (-rank) count maxLen fuel (length - 1) 0 0 []
  else list.positionLoop value length 1 rank count maxLen fuel 0 0 0 []

/-- The loop ends where the number of indices says, and stays inside the list. -/
theorem positionLoop_eq {list : ListValue} (value : Bytes) {stop step : Int} (moves : step ≠ 0)
    (rank count maxLen : Int) {remaining fuel : Nat} {index : Int}
    (ends : index + step * remaining = stop)
    (inside : ∀ offset : Nat, offset < remaining →
      0 ≤ index + step * offset ∧ index + step * offset < list.size)
    (enough : remaining < fuel) (seen examined : Int) (positions : List Int) :
    list.positionLoop value stop step rank count maxLen fuel index seen examined positions =
      some (list.scanPositions value step rank count maxLen remaining index seen examined
        positions) := by
  induction remaining generalizing fuel index seen examined positions with
  | zero =>
      obtain ⟨fuel, rfl⟩ := Nat.exists_eq_succ_of_ne_zero (Nat.ne_of_gt enough)
      have atEnd : ¬ index ≠ stop := by
        rw [← ends]
        simp
      rw [positionLoop, if_pos atEnd]
      rfl
  | succ remaining inductionHypothesis =>
      obtain ⟨fuel, rfl⟩ := Nat.exists_eq_succ_of_ne_zero (Nat.ne_of_gt (Nat.zero_lt_of_lt enough))
      have before : ¬ ¬ index ≠ stop := by
        rw [← ends, not_not]
        intro same
        have still : step * ((remaining + 1 : Nat) : Int) = 0 := by omega
        rcases mul_eq_zero.mp still with zero | zero
        · exact moves zero
        · omega
      have here : list.checkedAt index = some (list.atIndex index.toNat) := by
        have first := inside 0 (Nat.succ_pos remaining)
        rw [Nat.cast_zero, mul_zero, add_zero] at first
        exact if_pos first
      have nextEnds : index + step + step * remaining = stop := by
        rw [← ends]
        push_cast
        ring
      have nextInside : ∀ offset : Nat, offset < remaining →
          0 ≤ index + step + step * offset ∧ index + step + step * offset < list.size := by
        intro offset bound
        have shifted : index + step + step * (offset : Int) =
            index + step * ((offset + 1 : Nat) : Int) := by
          push_cast
          ring
        rw [shifted]
        exact inside (offset + 1) (Nat.succ_lt_succ bound)
      have rest := inductionHypothesis nextEnds nextInside (Nat.lt_of_succ_lt_succ enough)
      rw [positionLoop, scanPositions, if_neg before]
      by_cases exhausted : maxLen > 0 ∧ examined ≥ maxLen
      · rw [if_pos exhausted, if_pos exhausted]
      · rw [if_neg exhausted, if_neg exhausted, here, Option.bind_some]
        simp only [rest]
        split_ifs <;> rfl

/-- The scan ends, without an index outside the list, with the positions of the
value. -/
theorem findPositions_eq (list : ListValue) (value : Bytes) (rank count maxLen : Int) {fuel : Nat}
    (enough : list.size < fuel) :
    list.findPositions value rank count maxLen fuel =
      some (Lists.positions value rank count maxLen list.toList) := by
  rw [← scanPositions_positions, findPositions]
  by_cases descending : rank < 0
  · rw [if_pos descending, if_pos descending]
    apply positionLoop_eq value (by decide) _ _ _ _ _ enough
    · omega
    · omega
  · rw [if_neg descending, if_neg descending]
    apply positionLoop_eq value (by decide) _ _ _ _ _ enough
    · omega
    · omega

end ListValue

namespace Store

/-- A live list is stored. -/
theorem list_of_view {store : Store} {clock : Clock} {key : Key} {items : List Bytes}
    {deadline : Int} (live : store.view clock key = some ⟨.list items, deadline⟩) :
    ∃ obj, store.peek key = some obj ∧ obj.list.toList = items := by
  cases stored : store.peek key with
  | none =>
      rw [view_of_missing clock stored] at live
      cases live
  | some obj =>
      cases expired : obj.isExpired clock.now with
      | true =>
          rw [view_of_expired stored expired] at live
          cases live
      | false =>
          have entry := Option.some.inj ((view_of_peek stored expired).symm.trans live)
          rcases obj.kind_cases with string | list
          · rw [Obj.entry_of_string string] at entry
            cases entry
          · rw [Obj.entry_of_list list] at entry
            cases entry
            exact ⟨obj, rfl, rfl⟩

/-- `ListPosition` on a live list.  The indices of the value in the part of the
scan that is examined are taken in the order of the scan, without the first ones
that the rank skips, and up to the count.  The loop finds them within one test
more than the list has elements, and never leaves the list. -/
theorem listPosition_finds (history : List (Operation × Clock)) {clock : Clock} {key : Key}
    {items : List Bytes} {deadline : Int}
    (live : (Store.run history).view clock key = some ⟨.list items, deadline⟩) (value : Bytes)
    {rank : Int} (valid : rank ≠ minInt64) (count maxLen : Int) :
    let examined := Lists.atMost maxLen (Lists.scan (rank < 0) items)
    let found := (examined.filter fun visit => visit.1 = value).map Prod.snd
    let positions := Lists.atMost count (found.drop (rank.natAbs - 1))
    ((Store.run history).listPosition key value rank count maxLen clock).2 = .ok positions ∧
      (∃ obj, (Store.run history).peek key = some obj ∧ obj.list.toList = items ∧
        ∀ fuel, items.length < fuel →
          obj.list.findPositions value rank count maxLen fuel = some positions) ∧
      (∀ index ∈ positions, ∃ position : Nat, index = position ∧ items[position]? = some value) ∧
      (positions.Pairwise fun first second => if rank < 0 then second < first else first < second) ∧
      positions.Nodup := by
  have wellFormed : (Store.run history).WellFormed :=
    Store.foldl_wellFormed history Store.new_wellFormed
  intro examined found positions
  have ordered : positions.Pairwise fun first second =>
      if rank < 0 then second < first else first < second :=
    Lists.positions_pairwise value rank count maxLen items
  refine ⟨?_, ?_, fun index => Lists.getElem_positions, ordered, ?_⟩
  · rw [(wellFormed.listPosition key value rank count maxLen clock).2, live, Cell.listPosition,
      if_neg valid]
    rfl
  · obtain ⟨obj, stored, rfl⟩ := list_of_view live
    refine ⟨obj, stored, rfl, fun fuel enough => ?_⟩
    rw [RingBuffer.length_toList] at enough
    exact obj.list.findPositions_eq value rank count maxLen enough
  · apply ordered.imp
    intro first second before same
    subst second
    split at before <;> exact lt_irrefl _ before

/-- Both occurrences, from the tail. -/
theorem listPosition_finds_both :
    let history : List (Operation × Clock) :=
      [(.call (.listPush [97] [[98], [99], [98]] (by decide) false false), ⟨1, by decide⟩)]
    let clock : Clock := ⟨2, by decide⟩
    (Store.run history).view clock [97] = some ⟨.list [[98], [99], [98]], 0⟩ ∧
      ((Store.run history).listPosition [97] [98] (-1) 0 0 clock).2 = .ok [2, 0] := by
  intro history clock
  have live : (Store.run history).view clock [97] = some ⟨.list [[98], [99], [98]], 0⟩ := by
    decide +kernel
  have valid : (-1 : Int) ≠ minInt64 := by decide
  exact ⟨live, (listPosition_finds history live [98] valid 0 0).1⟩

end Store

end Carrot
