import Carrot.Storage.Locality

/-!
# The words of a database

Every word in a database, key or value, was once given to it.  So a property
that all given words have is one of all stored words.
-/

namespace Carrot

variable {allowed : Bytes → Prop}

def Content.words : Content → List Bytes
  | .string value => [value]
  | .list items => items

namespace Lists

variable {items values : List Bytes}

theorem pushAll_allowed (left : Bool) (newer : ∀ word ∈ values, allowed word)
    (older : ∀ word ∈ items, allowed word) : ∀ word ∈ pushAll left values items, allowed word := by
  intro word membership
  have source : word ∈ values ∨ word ∈ items := by
    cases left with
    | true => simpa [pushAll] using membership
    | false => simpa [pushAll, or_comm] using membership
  exact source.elim (newer word) (older word)

theorem popMany_subset (left : Bool) (count : Nat) (items : List Bytes) :
    (popMany left count items).1 ⊆ items ∧ (popMany left count items).2 ⊆ items := by
  cases left with
  | true => exact ⟨List.drop_subset _ _, List.take_subset _ _⟩
  | false =>
      refine ⟨List.take_subset _ _, fun word membership => ?_⟩
      exact List.mem_reverse.mp (List.take_subset _ _ membership)

theorem slice_subset (start stop : Int) (items : List Bytes) : slice start stop items ⊆ items :=
  fun _ membership => List.take_subset _ _ (List.drop_subset _ _ membership)

theorem removeFirst_subset (value : Bytes) (count : Nat) (items : List Bytes) :
    removeFirst value count items ⊆ items := by
  induction items generalizing count with
  | nil =>
      rw [removeFirst_nil]
      exact List.Subset.refl _
  | cons item items inductionHypothesis =>
      cases count with
      | zero =>
          rw [removeFirst_zero]
          exact List.Subset.refl _
      | succ count =>
          by_cases same : item = value
          · subst same
            rw [removeFirst_cons_self]
            exact fun word inside => List.mem_cons_of_mem _ (inductionHypothesis count inside)
          · rw [removeFirst_cons_of_ne same]
            exact List.cons_subset_cons _ (inductionHypothesis (count + 1))

theorem remove_subset (count : Int) (value : Bytes) (items : List Bytes) :
    remove count value items ⊆ items := by
  unfold remove
  split
  · exact List.filter_subset_self _
  · split
    · exact removeFirst_subset _ _ _
    · intro word membership
      have inside := removeFirst_subset _ _ _ (List.mem_reverse.mp membership)
      exact List.mem_reverse.mp inside

theorem insertNear_allowed {before : Bool} {pivot value : Bytes} {inserted : List Bytes}
    (found : insertNear before pivot value items = some inserted) (newer : allowed value)
    (older : ∀ word ∈ items, allowed word) : ∀ word ∈ inserted, allowed word := by
  obtain ⟨index, -, rfl⟩ := Option.map_eq_some_iff.mp found
  intro word membership
  rcases List.eq_or_mem_of_mem_insertIdx membership with rfl | inside
  · exact newer
  · exact older word inside

end Lists

namespace Cell

/-- All words in a cell are allowed. -/
def Within (allowed : Bytes → Prop) (cell : Cell) : Prop :=
  ∀ entry ∈ cell, ∀ word ∈ entry.content.words, allowed word

theorem within_none : Within allowed none := by
  intro entry present
  cases present

theorem within_string {value : Bytes} (newer : allowed value) (deadline : Int) :
    Within allowed (some ⟨.string value, deadline⟩) := by
  rintro _ ⟨⟩ word membership
  rw [List.mem_singleton.mp membership]
  exact newer

theorem within_ofList {items : List Bytes} (each : ∀ word ∈ items, allowed word)
    (deadline : Int) : (ofList items deadline).Within allowed := by
  unfold ofList
  split
  · exact within_none
  · rintro _ ⟨⟩
    exact each

theorem Within.live {cell : Cell} (within : cell.Within allowed) (now : Int) :
    (cell.live now).Within allowed :=
  fun entry present => within entry (live_eq_some.mp present).1

theorem Within.expireAt {cell : Cell} (within : cell.Within allowed) (deadline now : Int) :
    (Cell.expireAt deadline now cell).1.Within allowed := by
  cases cell with
  | none => exact within_none
  | some entry =>
      simp only [Cell.expireAt]
      split
      · rintro _ ⟨⟩
        exact within entry rfl
      · exact within_none

theorem Within.withList {Result : Type} {cell : Cell} (within : cell.Within allowed)
    (missing : Except StorageError Result)
    {change : List Bytes → List Bytes × Except StorageError Result}
    (changed : ∀ items : List Bytes, (∀ word ∈ items, allowed word) →
      ∀ word ∈ (change items).1, allowed word) :
    (Cell.withList missing change cell).1.Within allowed := by
  rcases cell with _ | ⟨_ | items, deadline⟩
  · exact within_none
  · exact within
  · exact within_ofList (changed items (within _ rfl)) deadline

/-- A list operation that only takes elements away. -/
theorem Within.withList_subset {Result : Type} {cell : Cell} (within : cell.Within allowed)
    (missing : Except StorageError Result)
    {change : List Bytes → List Bytes × Except StorageError Result}
    (fewer : ∀ items : List Bytes, (change items).1 ⊆ items) :
    (Cell.withList missing change cell).1.Within allowed :=
  within.withList missing fun items each word membership => each word (fewer items membership)

theorem Within.listPush {cell : Cell} (within : cell.Within allowed) {values : List Bytes}
    (newer : ∀ word ∈ values, allowed word) (left onlyExisting : Bool) :
    (Cell.listPush values left onlyExisting cell).1.Within allowed := by
  cases cell with
  | none =>
      simp only [Cell.listPush]
      split
      · exact within_none
      · exact within_ofList (Lists.pushAll_allowed left newer (by simp)) 0
  | some entry =>
      exact within.withList _ fun items older => Lists.pushAll_allowed left newer older

theorem Within.listSet {cell : Cell} (within : cell.Within allowed) (position : Int)
    {value : Bytes} (newer : allowed value) :
    (Cell.listSet position value cell).1.Within allowed := by
  refine within.withList _ fun items older word membership => ?_
  split at membership
  next => exact older word membership
  next index _ =>
    rcases List.mem_or_eq_of_mem_set membership with inside | rfl
    · exact older word inside
    · exact newer

theorem Within.listInsert {cell : Cell} (within : cell.Within allowed) (pivot : Bytes)
    {value : Bytes} (newer : allowed value) (before : Bool) :
    (Cell.listInsert pivot value before cell).1.Within allowed := by
  refine within.withList _ fun items older word membership => ?_
  split at membership
  next => exact older word membership
  next inserted found => exact Lists.insertNear_allowed found newer older word membership

theorem Within.listPosition {cell : Cell} (within : cell.Within allowed) (value : Bytes)
    (rank count maxLen : Int) :
    (Cell.listPosition value rank count maxLen cell).1.Within allowed := by
  simp only [Cell.listPosition]
  split
  · exact within
  · exact within.withList_subset _ fun _ => List.Subset.refl _

end Cell

/-- All words that a call brings are allowed. -/
structure StoreCall.Brings (allowed : Bytes → Prop) {Result : Type} (call : StoreCall Result) :
    Prop where
  keys : ∀ key ∈ call.keys, allowed key
  values : ∀ value ∈ call.values, allowed value

namespace Keyspace

/-- All values in a keyspace are allowed. -/
def Within (allowed : Bytes → Prop) (keyspace : Keyspace) : Prop :=
  ∀ key, (keyspace key).Within allowed

variable {keyspace : Keyspace}

theorem Within.live (within : keyspace.Within allowed) (clock : Clock) :
    (keyspace.live clock).Within allowed :=
  fun key => (within key).live clock.now

theorem Within.update (within : keyspace.Within allowed) (key : Key) {cell : Cell}
    (cellWithin : cell.Within allowed) : Within allowed (Function.update keyspace key cell) := by
  intro other
  by_cases same : other = key
  · subst other
    simpa using cellWithin
  · simpa [same] using within other

theorem Within.onKey {Result : Type} (within : keyspace.Within allowed) (key : Key)
    (clock : Clock) {change : Cell → Cell × Result}
    (preserved : ∀ cell : Cell, cell.Within allowed → (change cell).1.Within allowed) :
    (keyspace.onKey key clock change).1.Within allowed :=
  within.update key (preserved _ (within.live clock key))

/-- The element that moves was in the source. -/
theorem Within.listMove (within : keyspace.Within allowed) (empty : allowed []) (src dst : Key)
    (fromLeft toLeft : Bool) (clock : Clock) :
    (keyspace.listMove src dst fromLeft toLeft clock).1.Within allowed := by
  have source := within.live clock src
  have target := within.live clock dst
  unfold Keyspace.listMove
  split
  next => exact within
  next => exact within
  next items deadline stored =>
    have each : ∀ word ∈ items, allowed word := source _ stored
    obtain ⟨fewer, taken⟩ := Lists.popMany_subset fromLeft 1 items
    have rest : ∀ word ∈ (Lists.popMany fromLeft 1 items).1, allowed word :=
      fun word membership => each word (fewer membership)
    have moved : ∀ word ∈ [(Lists.popMany fromLeft 1 items).2.headD []], allowed word := by
      intro word membership
      rw [List.mem_singleton.mp membership]
      cases popped : (Lists.popMany fromLeft 1 items).2 with
      | nil => exact empty
      | cons value others =>
          rw [popped] at taken
          exact each value (taken List.mem_cons_self)
    dsimp only
    split
    next =>
      exact within.update src
        (Cell.within_ofList (Lists.pushAll_allowed toLeft moved rest) deadline)
    next =>
      have taken := within.update src (Cell.within_ofList rest deadline)
      split
      next => exact within
      next => exact taken.update dst (Cell.within_ofList moved 0)
      next others later found =>
        exact taken.update dst
          (Cell.within_ofList (Lists.pushAll_allowed toLeft moved (target _ found)) later)

/-- A call stores no words but those that it brings and those that were there. -/
theorem Within.perform (within : keyspace.Within allowed) (empty : allowed []) (clock : Clock)
    {Result : Type} {call : StoreCall Result} (brings : call.Brings allowed) :
    (keyspace.perform clock call).1.Within allowed := by
  have newer := brings.values
  cases call with
  | set key value duration =>
      exact within.onKey key clock fun _ _ =>
        Cell.within_string (newer value (List.mem_singleton.mpr rfl)) _
  | setAt key value expiresAt =>
      refine within.onKey key clock fun _ _ => ?_
      simp only [Cell.setAt]
      split
      · exact Cell.within_string (newer value (List.mem_singleton.mpr rfl)) _
      · exact Cell.within_none
  | getString key | ttl key => exact within.onKey key clock fun _ kept => kept
  | del key => exact within.onKey key clock fun _ _ => Cell.within_none
  | expire key seconds | expireAt key expiresAt =>
      exact within.onKey key clock fun _ kept => kept.expireAt _ _
  | listPush key values nonempty left onlyExisting =>
      exact within.onKey key clock fun _ kept => kept.listPush newer left onlyExisting
  | listPop key left count nonnegative =>
      exact within.onKey key clock fun _ kept =>
        kept.withList_subset _ fun items => (Lists.popMany_subset left _ items).1
  | listLen key | listRange key start stop | listIndex key position =>
      exact within.onKey key clock fun _ kept =>
        kept.withList_subset _ fun _ => List.Subset.refl _
  | listSet key position value =>
      exact within.onKey key clock fun _ kept =>
        kept.listSet position (newer value (List.mem_singleton.mpr rfl))
  | listTrim key start stop =>
      exact within.onKey key clock fun _ kept =>
        kept.withList_subset _ fun items => Lists.slice_subset start stop items
  | listRem key count value =>
      exact within.onKey key clock fun _ kept =>
        kept.withList_subset _ fun items => Lists.remove_subset _ value items
  | listInsert key pivot value before =>
      exact within.onKey key clock fun _ kept =>
        kept.listInsert pivot (newer value (List.mem_singleton.mpr rfl)) before
  | listPosition key value rank count maxLen =>
      exact within.onKey key clock fun _ kept => kept.listPosition value rank count maxLen
  | listMove src dst fromLeft toLeft =>
      exact within.listMove empty src dst fromLeft toLeft clock

end Keyspace

/-! ## Stores -/

namespace Store

/-- All words in a store are allowed.  The values of a key that is expired do
not matter, but its name may still be written to the log. -/
structure Within (allowed : Bytes → Prop) (clock : Clock) (store : Store) : Prop where
  keys : ∀ key, store.peek key ≠ none → allowed key
  values : (store.view clock).Within allowed

variable {store : Store} {clock : Clock}

theorem within_new (allowed : Bytes → Prop) (clock : Clock) : Store.new.Within allowed clock where
  keys _ present := absurd rfl present
  values _ := Cell.within_none

theorem Within.later (within : store.Within allowed clock) {later : Clock}
    (ordered : clock ≤ later) : store.Within allowed later where
  keys := within.keys
  values := by
    rw [store.view_later ordered]
    exact within.values.live later

theorem Within.perform (within : store.Within allowed clock) (wellFormed : store.WellFormed)
    (empty : allowed []) {Result : Type} {call : StoreCall Result}
    (brings : call.Brings allowed) : (store.perform clock call).1.Within allowed clock where
  keys key present := by
    by_cases named : key ∈ call.keys
    · exact brings.keys key named
    · rw [wellFormed.perform_frame clock call named] at present
      exact within.keys key present
  values := by
    rw [((wellFormed.represents clock).perform call).1.view]
    exact (within.values.perform empty clock brings).live clock

end Store

end Carrot
