import Carrot.Storage.Call

/-!
# Calls replayed at a restart

Replay makes the recorded calls with the clock of the restart.  A key whose
deadline passes between a call and the restart is alive when the call is made
and absent when it is replayed.  Some calls do not notice; the others make the
recovered keyspace differ from the one that was running.
-/

namespace Carrot

/-! ## One key -/

namespace Cell

/-- The entry does not outlive the restart. -/
def Doomed (cell : Cell) (restart : Clock) : Prop := cell ≠ none ∧ cell.live restart.now = none

instance (cell : Cell) (restart : Clock) : Decidable (cell.Doomed restart) :=
  inferInstanceAs (Decidable (_ ∧ _))

def holdsList : Cell → Bool
  | some ⟨.list _, _⟩ => true
  | _ => false

def holdsString : Cell → Bool
  | some ⟨.string _, _⟩ => true
  | _ => false

theorem live_eq_self_of_not_doomed {cell : Cell} {restart : Clock} (safe : ¬ cell.Doomed restart) :
    cell.live restart.now = cell := by
  cases cell with
  | none => rfl
  | some entry =>
      have survives : live (some entry) restart.now ≠ none := fun gone => safe ⟨by simp, gone⟩
      rw [live_some] at survives ⊢
      cases dead : entry.expired restart.now with
      | false => rfl
      | true => simp [dead] at survives

/-- Only the deadline decides whether an entry is alive. -/
theorem live_same_deadline {content other : Content} {deadline now : Int}
    (gone : live (some ⟨content, deadline⟩) now = none) :
    live (some ⟨other, deadline⟩) now = none := by
  rw [live_some] at gone ⊢
  change (if (Entry.mk content deadline).expired now then _ else _) = none at gone
  change (if (Entry.mk content deadline).expired now then _ else _) = none
  cases dead : (Entry.mk content deadline).expired now <;> simp_all

theorem live_ofList_of_gone {content : Content} {deadline now : Int} (items : List Bytes)
    (gone : live (some ⟨content, deadline⟩) now = none) :
    live (ofList items deadline) now = none := by
  unfold ofList
  split
  next => rfl
  next => exact live_same_deadline gone

theorem live_ofList_zero {items : List Bytes} (nonempty : items ≠ []) (now : Int) :
    live (ofList items 0) now = some ⟨.list items, 0⟩ := by
  rw [ofList, if_neg nonempty, live_some]
  rfl

/-- A change of the list in a cell keeps its deadline, so that it does not
matter whether the cell expires before or after it. -/
theorem live_withList {Result : Type} (missing : Except StorageError Result)
    (change : List Bytes → List Bytes × Except StorageError Result) (cell : Cell)
    (restart : Clock) :
    live (withList missing change cell).1 restart.now =
      live (withList missing change (cell.live restart.now)).1 restart.now := by
  by_cases doomed : cell.Doomed restart
  · obtain ⟨present, gone⟩ := doomed
    rw [gone]
    rcases cell with _ | ⟨_ | items, deadline⟩
    · exact absurd rfl present
    · exact gone
    · exact live_ofList_of_gone _ gone
  · rw [live_eq_self_of_not_doomed doomed]

theorem live_setAt (value : Bytes) (deadline : Int) {clock restart : Clock}
    (ordered : clock ≤ restart) :
    live (setAt value deadline clock.now) restart.now =
      live (setAt value deadline restart.now) restart.now := by
  have order := Clock.now_le_now ordered
  have positive := clock.now_pos
  unfold setAt
  by_cases future : restart.now < deadline
  · rw [if_pos future, if_pos (by omega)]
  · rw [if_neg future]
    split
    next =>
      rw [live_some]
      simp only [Entry.expired, future]
      simp
      omega
    next => rfl

/-- A deadline past the restart keeps an entry that was about to expire. -/
theorem live_expireAt_iff (deadline : Int) {clock restart : Clock} (ordered : clock ≤ restart)
    (cell : Cell) :
    live (expireAt deadline clock.now cell).1 restart.now =
        live (expireAt deadline restart.now (cell.live restart.now)).1 restart.now ↔
      ¬ (cell.Doomed restart ∧ restart.now < deadline) := by
  have order := Clock.now_le_now ordered
  have positive := clock.now_pos
  have dead : ∀ content : Content, ¬ restart.now < deadline → clock.now < deadline →
      live (some ⟨content, deadline⟩) restart.now = none := by
    intro content past future
    rw [live_some, if_pos]
    simp only [Entry.expired, past, decide_false, Bool.not_false, Bool.and_true, ne_eq,
      decide_not, Bool.not_eq_true', decide_eq_false_iff_not]
    omega
  have alive : ∀ content : Content, restart.now < deadline →
      live (some ⟨content, deadline⟩) restart.now = some ⟨content, deadline⟩ := by
    intro content future
    rw [live_some, if_neg]
    simp [Entry.expired, future]
  cases cell with
  | none => simp [expireAt, Doomed]
  | some entry =>
      by_cases doomed : Doomed (some entry) restart
      · rw [doomed.2]
        simp only [doomed, true_and, expireAt, live_none]
        by_cases future : restart.now < deadline
        · rw [if_pos (by omega), alive _ future]
          simp [future]
        · simp only [future, not_false_iff, iff_true]
          split
          next later => exact dead _ future later
          next => rfl
      · rw [live_eq_self_of_not_doomed doomed]
        simp only [doomed, false_and, not_false_iff, iff_true, expireAt]
        by_cases future : restart.now < deadline
        · rw [if_pos future, if_pos (by omega)]
        · rw [if_neg future]
          split
          next later => exact dead _ future later
          next => rfl

/-- A push onto an entry that is about to expire is lost, and makes a fresh
list when the entry is already gone. -/
theorem live_listPush_iff {values : List Bytes} (nonempty : values ≠ []) (left onlyExisting : Bool)
    (restart : Clock) (cell : Cell) :
    live (listPush values left onlyExisting cell).1 restart.now =
        live (listPush values left onlyExisting (cell.live restart.now)).1 restart.now ↔
      ¬ (cell.Doomed restart ∧ onlyExisting = false) := by
  by_cases doomed : cell.Doomed restart
  · have lost : live (listPush values left onlyExisting cell).1 restart.now = none := by
      obtain ⟨present, gone⟩ := doomed
      rcases cell with _ | ⟨_ | items, deadline⟩
      · exact absurd rfl present
      · exact gone
      · exact live_ofList_of_gone _ gone
    rw [lost, doomed.2]
    cases onlyExisting with
    | true => simp [listPush]
    | false =>
        have pushed : Lists.pushAll left values [] ≠ [] := by
          cases left <;> simp [Lists.pushAll, nonempty]
        simp [listPush, live_ofList_zero pushed, doomed]
  · simp [doomed, live_eq_self_of_not_doomed doomed]

end Cell

/-! ## One call -/

namespace StoreCall

/-- The call does not measure an expiration from the clock. -/
def Absolute {Result : Type} : StoreCall Result → Prop
  | .set _ _ duration => duration ≤ 0
  | .expire _ _ => False
  | _ => True

/-- The call treats a key that does not outlive the restart in a way that
shows after the restart. -/
def Clashes {Result : Type} (restart : Clock) (keyspace : Keyspace) : StoreCall Result → Prop
  | .expireAt key deadline => (keyspace key).Doomed restart ∧ restart.now < deadline
  | .listPush key _ _ _ onlyExisting => (keyspace key).Doomed restart ∧ onlyExisting = false
  | .listMove src dst _ _ =>
      src ≠ dst ∧ (keyspace src).holdsList = true ∧
        if (keyspace src).Doomed restart then
          ¬ (keyspace dst).Doomed restart ∧ (keyspace dst).holdsString = false
        else (keyspace dst).Doomed restart
  | _ => False

end StoreCall

namespace Keyspace

/-- After an operation on one key only that key can make a difference. -/
theorem onKey_agrees_iff {Result : Type} {keyspace recovered : Keyspace} {clock restart : Clock}
    (ordered : clock ≤ restart) (agree : keyspace.live restart = recovered.live restart) (key : Key)
    (change replayed : Cell → Cell × Result) :
    (keyspace.onKey key clock change).1.live restart =
        (recovered.onKey key restart replayed).1.live restart ↔
      Cell.live (change (keyspace.live clock key)).1 restart.now =
        Cell.live (replayed (Cell.live (keyspace.live clock key) restart.now)).1 restart.now := by
  have cell : recovered.live restart key = Cell.live (keyspace.live clock key) restart.now := by
    rw [← agree, ← keyspace.live_live ordered]
    rfl
  simp only [onKey, live_update, cell, agree]
  constructor
  · intro same
    simpa using congrFun same key
  · intro same
    rw [same]

/-- What is alive at the restart after an element moved between two lists,
given what the two keys held when it moved. -/
def afterMove (survivors : Keyspace) (src dst : Key) (fromLeft toLeft : Bool) (restart : Clock)
    (source target : Cell) : Keyspace :=
  match source with
  | some ⟨.list items, deadline⟩ =>
      let (rest, popped) := Lists.popMany fromLeft 1 items
      let value := popped.headD []
      let taken := Function.update survivors src (Cell.live (Cell.ofList rest deadline) restart.now)
      match target with
      | some ⟨.string _, _⟩ => survivors
      | none => Function.update taken dst (Cell.live (Cell.ofList [value] 0) restart.now)
      | some ⟨.list items, deadline⟩ =>
          Function.update taken dst
            (Cell.live (Cell.ofList (Lists.pushAll toLeft [value] items) deadline) restart.now)
  | _ => survivors

theorem live_listMove (keyspace : Keyspace) {src dst : Key} (distinct : src ≠ dst)
    (fromLeft toLeft : Bool) (clock restart : Clock) :
    (keyspace.listMove src dst fromLeft toLeft clock).1.live restart =
      afterMove (keyspace.live restart) src dst fromLeft toLeft restart
        (keyspace.live clock src) (keyspace.live clock dst) := by
  rcases source : keyspace.live clock src with _ | ⟨_ | items, deadline⟩
  · simp only [listMove, source, afterMove]
  · simp only [listMove, source, afterMove]
  · rcases target : keyspace.live clock dst with _ | ⟨_ | others, later⟩ <;>
      simp only [listMove, source, target, if_neg distinct, afterMove, live_update]

/-- Taking from a list that is about to expire does not show at the restart. -/
theorem update_gone {survivors : Keyspace} {src : Key} {content : Content} {deadline : Int}
    {restart : Clock} (same : survivors src = Cell.live (some ⟨content, deadline⟩) restart.now)
    (gone : Cell.live (some ⟨content, deadline⟩) restart.now = none) (items : List Bytes) :
    Function.update survivors src (Cell.live (Cell.ofList items deadline) restart.now) =
      survivors := by
  rw [Cell.live_ofList_of_gone items gone, ← gone, ← same, Function.update_eq_self]

/-- A push onto a list shows at the restart unless the list is gone by then. -/
theorem live_pushed_eq_iff (left : Bool) (value : Bytes) (items : List Bytes) (deadline : Int)
    (restart : Clock) :
    Cell.live (Cell.ofList (Lists.pushAll left [value] items) deadline) restart.now =
        Cell.live (some ⟨.list items, deadline⟩) restart.now ↔
      Cell.Doomed (some ⟨.list items, deadline⟩) restart := by
  constructor
  · intro same
    by_contra survives
    rw [Cell.live_eq_self_of_not_doomed survives, Cell.live_eq_some] at same
    have lengths : (Lists.pushAll left [value] items).length = items.length := by
      have stored := same.1
      unfold Cell.ofList at stored
      split at stored
      next => cases stored
      next =>
        simp only [Option.some.injEq, Entry.mk.injEq, Content.list.injEq, and_true] at stored
        exact congrArg List.length stored
    cases left <;> simp [Lists.pushAll] at lengths
  · intro doomed
    rw [doomed.2, Cell.live_ofList_of_gone _ doomed.2]

/-- From a list that does not outlive the restart an element moves visibly to
a fresh list and to one that does. -/
theorem afterMove_of_doomed_iff {survivors : Keyspace} {src dst : Key}
    (fromLeft toLeft : Bool) {restart : Clock} {items : List Bytes} {deadline : Int} {target : Cell}
    (sourceSurvives : survivors src = Cell.live (some ⟨.list items, deadline⟩) restart.now)
    (targetSurvives : survivors dst = target.live restart.now)
    (doomed : Cell.Doomed (some ⟨.list items, deadline⟩) restart) :
    afterMove survivors src dst fromLeft toLeft restart (some ⟨.list items, deadline⟩) target =
        survivors ↔
      ¬ (¬ target.Doomed restart ∧ target.holdsString = false) := by
  have kept := update_gone sourceSurvives doomed.2
  rcases target with _ | ⟨_ | others, later⟩
  · simp only [afterMove, kept, Cell.live_ofList_zero (List.cons_ne_nil _ _), Cell.Doomed, ne_eq,
      not_true_eq_false, false_and, not_false_iff, true_and, Cell.holdsString, iff_false]
    intro same
    have shown := congrFun same dst
    rw [Function.update_self, targetSurvives] at shown
    cases shown
  · simp [afterMove, Cell.holdsString]
  · simp only [afterMove, kept, Cell.holdsString, and_true, not_not]
    rw [Function.update_eq_iff, targetSurvives, live_pushed_eq_iff]
    simp

/-- An element of a list that outlives the restart moves visibly when its
destination does not. -/
theorem afterMove_of_surviving_iff {survivors : Keyspace} {src dst : Key}
    (fromLeft toLeft : Bool) {restart : Clock} {items : List Bytes} {deadline : Int} {target : Cell}
    (targetSurvives : survivors dst = target.live restart.now) :
    afterMove survivors src dst fromLeft toLeft restart (some ⟨.list items, deadline⟩) target =
        afterMove survivors src dst fromLeft toLeft restart (some ⟨.list items, deadline⟩)
          (target.live restart.now) ↔
      ¬ target.Doomed restart := by
  by_cases doomed : target.Doomed restart
  · simp only [doomed, not_true_eq_false, iff_false]
    intro same
    have shown := congrFun same dst
    rw [doomed.2] at shown targetSurvives
    rcases target with _ | ⟨_ | others, later⟩
    · exact absurd rfl doomed.1
    · simp [afterMove, targetSurvives, Cell.live_ofList_zero] at shown
    · simp [afterMove, Cell.live_ofList_zero, Cell.live_ofList_of_gone _ doomed.2] at shown
  · simp [doomed, Cell.live_eq_self_of_not_doomed doomed]

/-- A list that is rotated keeps its deadline. -/
theorem live_rotate (keyspace recovered : Keyspace) {key : Key} (fromLeft toLeft : Bool)
    {clock restart : Clock} (agree : keyspace.live restart = recovered.live restart)
    (cell : recovered.live restart key = Cell.live (keyspace.live clock key) restart.now) :
    (keyspace.listMove key key fromLeft toLeft clock).1.live restart =
      (recovered.listMove key key fromLeft toLeft restart).1.live restart := by
  by_cases doomed : Cell.Doomed (keyspace.live clock key) restart
  · rw [doomed.2] at cell
    have unchanged : (recovered.listMove key key fromLeft toLeft restart).1 = recovered := by
      simp only [listMove, cell]
    have survives := congrFun agree key
    rw [unchanged]
    rcases stored : keyspace.live clock key with _ | ⟨_ | items, deadline⟩
    · simpa only [listMove, stored] using agree
    · simpa only [listMove, stored] using agree
    · rw [stored] at doomed
      simp only [listMove, stored, if_true, live_update]
      rw [update_gone (survives.trans (cell.trans doomed.2.symm)) doomed.2, agree]
  · rw [Cell.live_eq_self_of_not_doomed doomed] at cell
    rcases stored : keyspace.live clock key with _ | ⟨_ | items, deadline⟩ <;>
      rw [stored] at cell <;>
      simp only [listMove, stored, cell, if_true, live_update, agree]

theorem listMove_agrees_iff {keyspace recovered : Keyspace} {clock restart : Clock}
    (ordered : clock ≤ restart) (agree : keyspace.live restart = recovered.live restart)
    (src dst : Key) (fromLeft toLeft : Bool) :
    (keyspace.listMove src dst fromLeft toLeft clock).1.live restart =
        (recovered.listMove src dst fromLeft toLeft restart).1.live restart ↔
      ¬ StoreCall.Clashes restart (keyspace.live clock)
        (.listMove src dst fromLeft toLeft) := by
  have cell : ∀ key, recovered.live restart key =
      Cell.live (keyspace.live clock key) restart.now := by
    intro key
    rw [← agree, ← keyspace.live_live ordered]
    rfl
  by_cases distinct : src = dst
  · subst distinct
    simp [StoreCall.Clashes, live_rotate keyspace recovered fromLeft toLeft agree (cell src)]
  · rw [live_listMove _ distinct, live_listMove _ distinct, agree, cell src, cell dst]
    simp only [StoreCall.Clashes, ne_eq, distinct, not_false_iff, true_and]
    have sourceSurvives := cell src
    rcases source : keyspace.live clock src with _ | ⟨_ | items, deadline⟩
    · simp [afterMove, Cell.holdsList]
    · rw [Cell.live_some]
      split <;> simp [afterMove, Cell.holdsList]
    · rw [source] at sourceSurvives
      by_cases doomed : Cell.Doomed (some ⟨.list items, deadline⟩) restart
      · simpa [doomed, doomed.2, afterMove, Cell.holdsList] using
          afterMove_of_doomed_iff fromLeft toLeft sourceSurvives (cell dst) doomed
      · simpa [doomed, Cell.live_eq_self_of_not_doomed doomed, Cell.holdsList] using
          afterMove_of_surviving_iff fromLeft toLeft (cell dst)

/-- The database recovered at the restart stays the one that was running, as
far as it shows at the restart, exactly if the call does not clash. -/
theorem perform_agrees_iff {keyspace recovered : Keyspace} {clock restart : Clock}
    (ordered : clock ≤ restart) (agree : keyspace.live restart = recovered.live restart)
    {Result : Type} (call : StoreCall Result) (absolute : call.Absolute) :
    (keyspace.perform clock call).1.live restart =
        (recovered.perform restart call).1.live restart ↔
      ¬ call.Clashes restart (keyspace.live clock) := by
  cases call with
  | set key value duration =>
      have none : ¬ duration > 0 := Int.not_lt.mpr absolute
      simp [perform, onKey_agrees_iff ordered agree, StoreCall.Clashes, none]
  | setAt key value expiresAt =>
      simp [perform, onKey_agrees_iff ordered agree, StoreCall.Clashes,
        Cell.live_setAt value expiresAt ordered]
  | expire key seconds => exact absolute.elim
  | expireAt key expiresAt =>
      simp only [perform, onKey_agrees_iff ordered agree, StoreCall.Clashes]
      exact Cell.live_expireAt_iff expiresAt ordered _
  | listPush key values nonempty left onlyExisting =>
      simp only [perform, onKey_agrees_iff ordered agree, StoreCall.Clashes]
      exact Cell.live_listPush_iff nonempty left onlyExisting restart _
  | listMove src dst fromLeft toLeft =>
      exact listMove_agrees_iff ordered agree src dst fromLeft toLeft
  | getString key => simp [perform, onKey_agrees_iff ordered agree, StoreCall.Clashes]
  | ttl key => simp [perform, onKey_agrees_iff ordered agree, StoreCall.Clashes]
  | del key => simp [perform, onKey_agrees_iff ordered agree, StoreCall.Clashes]
  | listPosition key value rank count maxLen =>
      simp only [perform, onKey_agrees_iff ordered agree, StoreCall.Clashes, not_false_iff,
        iff_true, Cell.listPosition]
      split
      next => simp
      next => exact Cell.live_withList _ _ _ restart
  | _ =>
      simp only [perform, onKey_agrees_iff ordered agree, StoreCall.Clashes, not_false_iff,
        iff_true]
      exact Cell.live_withList _ _ _ restart

end Keyspace

end Carrot
