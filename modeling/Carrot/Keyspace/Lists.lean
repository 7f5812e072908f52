import Mathlib.Data.List.Basic
import Mathlib.Data.List.DropRight
import Mathlib.Tactic

/-!
# List operations on mathematical lists

What each list command means, independently of how lists are stored.
-/

universe u

namespace Carrot.Lists

variable {α : Type u}

/-- Push values one by one onto one end. -/
def pushAll (left : Bool) (values items : List α) : List α :=
  if left then values.reverse ++ items else items ++ values

/-- The rest of a list and the values popped from one end, in pop order. -/
def popMany (left : Bool) (count : Nat) (items : List α) : List α × List α :=
  if left then (items.drop count, items.take count)
  else (items.rdrop count, items.reverse.take count)

/-- An index that counts from the end when negative. -/
def fromEnd (items : List α) (position : Int) : Int :=
  if position < 0 then position + items.length else position

/-- The elements from `start` to `stop`, both included. -/
def slice (start stop : Int) (items : List α) : List α :=
  (items.take (fromEnd items stop + 1).toNat).drop (fromEnd items start).toNat

/-- The position denoted by a possibly negative index. -/
def locate (items : List α) (position : Int) : Option Nat :=
  if 0 ≤ fromEnd items position ∧ fromEnd items position < items.length then
    some (fromEnd items position).toNat
  else none

/-- The first `limit` items.  A limit that is not positive is no limit. -/
def atMost (limit : Int) (items : List α) : List α :=
  if limit > 0 then items.take limit.toNat else items

@[simp]
theorem atMost_nil (limit : Int) : atMost limit ([] : List α) = [] := by
  simp [atMost]

@[simp]
theorem atMost_one (item : α) (items : List α) : atMost 1 (item :: items) = [item] := by
  simp [atMost]

theorem atMost_cons {limit : Int} (other : limit ≠ 1) (item : α) (items : List α) :
    atMost limit (item :: items) = item :: atMost (limit - 1) items := by
  by_cases limited : limit > 0
  · obtain ⟨left, leftEq⟩ : ∃ left : Nat, limit = (left : Int) + 1 := ⟨(limit - 1).toNat, by omega⟩
    subst leftEq
    rw [atMost, atMost, if_pos limited, if_pos (by omega), Int.add_sub_cancel]
    rfl
  · rw [atMost, atMost, if_neg limited, if_neg (by omega)]

variable [DecidableEq α]

/-- Remove the first `count` occurrences of a value. -/
def removeFirst (value : α) : Nat → List α → List α
  | _, [] => []
  | 0, items => items
  | count + 1, item :: items =>
      if item = value then removeFirst value count items
      else item :: removeFirst value (count + 1) items

/-- Remove the last `count` occurrences of a value. -/
def removeLast (value : α) (count : Nat) (items : List α) : List α :=
  (removeFirst value count items.reverse).reverse

/-- Remove occurrences from the head, from the tail, or all of them. -/
def remove (count : Int) (value : α) (items : List α) : List α :=
  if count = 0 then items.filter (· ≠ value)
  else if 0 < count then removeFirst value count.toNat items
  else removeLast value count.natAbs items

/-- Insert next to the first occurrence of a pivot. -/
def insertNear (before : Bool) (pivot value : α) (items : List α) : Option (List α) :=
  (items.findIdx? fun item => item = pivot).map fun index =>
    items.insertIdx (if before then index else index + 1) value

/-- The indices of the elements in scan order. -/
def scan (fromTail : Bool) (items : List α) : List (α × Int) :=
  let indexed := items.zipIdx.map fun entry => (entry.1, (entry.2 : Int))
  if fromTail then indexed.reverse else indexed

/-- The indices selected from a scan: at most `maxLen` elements are examined,
the first `skip` matches are dropped and at most `count` are kept.  A bound
that is not positive is no bound. -/
def select (value : α) (skip : Nat) (count maxLen : Int) (visits : List (α × Int)) : List Int :=
  let examined := if maxLen > 0 then visits.take maxLen.toNat else visits
  let found := ((examined.filter fun visit => visit.1 = value).map Prod.snd).drop skip
  if count > 0 then found.take count.toNat else found

/-- The positions of a value: from the head for a positive rank, from the
tail for a negative one. -/
def positions (value : α) (rank count maxLen : Int) (items : List α) : List Int :=
  select value (rank.natAbs - 1) count maxLen (scan (rank < 0) items)

@[simp]
theorem removeFirst_nil (value : α) (count : Nat) : removeFirst value count [] = [] := by
  cases count <;> rfl

@[simp]
theorem removeFirst_zero (value : α) (items : List α) : removeFirst value 0 items = items := by
  cases items <;> rfl

theorem removeFirst_cons_self (value : α) (count : Nat) (items : List α) :
    removeFirst value (count + 1) (value :: items) = removeFirst value count items := by
  simp [removeFirst]

theorem removeFirst_cons_of_ne {value item : α} (different : item ≠ value) (count : Nat)
    (items : List α) :
    removeFirst value count (item :: items) = item :: removeFirst value count items := by
  cases count with
  | zero => simp
  | succ count => simp [removeFirst, different]

/-- A budget that covers every occurrence removes them all. -/
theorem removeFirst_eq_filter (value : α) (count : Nat) (items : List α)
    (enough : items.length ≤ count) :
    removeFirst value count items = items.filter (· ≠ value) := by
  induction items generalizing count with
  | nil => simp
  | cons item items inductionHypothesis =>
      by_cases same : item = value
      · subst item
        cases count with
        | zero => simp at enough
        | succ count =>
            rw [removeFirst_cons_self, inductionHypothesis count (by simpa using enough)]
            simp
      · rw [removeFirst_cons_of_ne same,
          inductionHypothesis count (by simp at enough; omega)]
        simp [same]

theorem removeLast_concat_self (value : α) (count : Nat) (items : List α) :
    removeLast value (count + 1) (items ++ [value]) = removeLast value count items := by
  simp [removeLast, removeFirst]

theorem removeLast_concat_of_ne {value item : α} (different : item ≠ value) (count : Nat)
    (items : List α) :
    removeLast value count (items ++ [item]) = removeLast value count items ++ [item] := by
  simp [removeLast, removeFirst_cons_of_ne different]

@[simp]
theorem removeLast_zero (value : α) (items : List α) : removeLast value 0 items = items := by
  simp [removeLast]

@[simp]
theorem removeLast_nil (value : α) (count : Nat) : removeLast value count [] = [] := by
  simp [removeLast]

/-! ## Selecting step by step -/

theorem select_eq_atMost (value : α) (skip : Nat) (count maxLen : Int)
    (visits : List (α × Int)) :
    select value skip count maxLen visits = atMost count
      ((((atMost maxLen visits).filter fun visit => visit.1 = value).map Prod.snd).drop skip) :=
  rfl

/-- What is selected after one more element has been examined. -/
def selectNext (value : α) (skip : Nat) (count maxLen : Int) (visits : List (α × Int)) :
    List Int :=
  if maxLen = 1 then [] else select value skip count (maxLen - 1) visits

theorem select_cons_of_ne {value item : α} (different : item ≠ value) (index : Int) (skip : Nat)
    (count maxLen : Int) (visits : List (α × Int)) :
    select value skip count maxLen ((item, index) :: visits) =
      selectNext value skip count maxLen visits := by
  by_cases last : maxLen = 1
  · simp [select_eq_atMost, selectNext, last, different]
  · simp [select_eq_atMost, selectNext, last, atMost_cons last, different]

theorem select_cons_skip (value : α) (index : Int) (skip : Nat) (count maxLen : Int)
    (visits : List (α × Int)) :
    select value (skip + 1) count maxLen ((value, index) :: visits) =
      selectNext value skip count maxLen visits := by
  by_cases last : maxLen = 1
  · simp [select_eq_atMost, selectNext, last]
  · simp [select_eq_atMost, selectNext, last, atMost_cons last]

theorem select_cons_last (value : α) (index maxLen : Int) (visits : List (α × Int)) :
    select value 0 1 maxLen ((value, index) :: visits) = [index] := by
  by_cases last : maxLen = 1
  · simp [select_eq_atMost, last]
  · simp [select_eq_atMost, atMost_cons last]

theorem select_cons_keep (value : α) (index : Int) {count : Int} (more : count ≠ 1)
    (maxLen : Int) (visits : List (α × Int)) :
    select value 0 count maxLen ((value, index) :: visits) =
      index :: selectNext value 0 (count - 1) maxLen visits := by
  by_cases last : maxLen = 1
  · simp [select_eq_atMost, selectNext, last, atMost_cons more]
  · simp [select_eq_atMost, selectNext, last, atMost_cons last, atMost_cons more]

/-! ## What is selected -/

omit [DecidableEq α] in
theorem atMost_sublist (limit : Int) (items : List α) : (atMost limit items).Sublist items := by
  unfold atMost
  split
  next => exact List.take_sublist _ _
  next => exact List.Sublist.refl items

/-- Only indices of the value are selected, in the order of the scan. -/
theorem select_sublist (value : α) (skip : Nat) (count maxLen : Int) (visits : List (α × Int)) :
    (select value skip count maxLen visits).Sublist
      ((visits.filter fun visit => visit.1 = value).map Prod.snd) := by
  rw [select_eq_atMost]
  apply (atMost_sublist _ _).trans
  apply (List.drop_sublist _ _).trans
  exact ((atMost_sublist maxLen visits).filter _).map Prod.snd

omit [DecidableEq α] in
theorem mem_scan {fromTail : Bool} {items : List α} {item : α} {index : Int}
    (visited : (item, index) ∈ scan fromTail items) :
    ∃ position : Nat, index = position ∧ items[position]? = some item := by
  have indexed : (item, index) ∈ items.zipIdx.map fun entry => (entry.1, (entry.2 : Int)) := by
    unfold scan at visited
    dsimp only at visited
    split at visited
    next => exact List.mem_reverse.mp visited
    next => exact visited
  obtain ⟨⟨found, position⟩, membership, same⟩ := List.mem_map.mp indexed
  cases same
  exact ⟨position, rfl, List.mem_zipIdx_iff_getElem?.mp membership⟩

omit [DecidableEq α] in
/-- A scan visits the indices in its direction. -/
theorem scan_pairwise (fromTail : Bool) (items : List α) :
    ((scan fromTail items).map Prod.snd).Pairwise fun first second : Int =>
      if fromTail then second < first else first < second := by
  have indices : (items.zipIdx.map fun entry => (entry.1, (entry.2 : Int))).map Prod.snd =
      (List.range items.length).map fun index : Nat => (index : Int) := by
    rw [List.map_map, List.range_eq_range', ← List.zipIdx_map_snd, List.map_map]
    rfl
  have ascending : ((List.range items.length).map fun index : Nat => (index : Int)).Pairwise
      (· < ·) := by
    rw [List.pairwise_map]
    exact List.pairwise_lt_range.imp fun less => Int.ofNat_lt.mpr less
  cases fromTail with
  | false =>
      change List.Pairwise _ (List.map Prod.snd (List.map _ items.zipIdx))
      rw [indices]
      exact ascending
  | true =>
      change List.Pairwise _ (List.map Prod.snd (List.map _ items.zipIdx).reverse)
      rw [List.map_reverse, indices, List.pairwise_reverse]
      exact ascending

/-- The value stands at every selected index. -/
theorem getElem_positions {value : α} {rank count maxLen : Int} {items : List α} {index : Int}
    (selected : index ∈ positions value rank count maxLen items) :
    ∃ position : Nat, index = position ∧ items[position]? = some value := by
  have found := (select_sublist value _ count maxLen _).mem selected
  obtain ⟨⟨item, visited⟩, membership, same⟩ := List.mem_map.mp found
  cases same
  obtain ⟨inScan, isValue⟩ := List.mem_filter.mp membership
  cases of_decide_eq_true isValue
  exact mem_scan inScan

/-- The selected indices are in the direction of the scan. -/
theorem positions_pairwise (value : α) (rank count maxLen : Int) (items : List α) :
    (positions value rank count maxLen items).Pairwise fun first second =>
      if rank < 0 then second < first else first < second := by
  have ordered := (scan_pairwise (decide (rank < 0)) items).sublist
    ((List.filter_sublist (p := fun visit => visit.1 = value)).map Prod.snd)
  have selected := ordered.sublist (select_sublist value (rank.natAbs - 1) count maxLen _)
  simp only [decide_eq_true_eq] at selected
  exact selected

end Carrot.Lists
