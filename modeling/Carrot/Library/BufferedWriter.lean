import Mathlib.Tactic

/-!
# Buffered writers

A writer collects bytes in a buffer of fixed size and passes them on to a sink
when the buffer is full; a write that finds the buffer empty and does not fit
goes to the sink directly.  A sink may refuse what it is given.
-/

universe u v

/-- A sink and the bytes that have not been passed to it yet. -/
structure BufferedWriter (Sink : Type u) where
  sink : Sink
  buffered : List UInt8

namespace BufferedWriter

variable {Sink : Type u} {Error : Type v}

section

variable (accept : Sink → List UInt8 → Sink × Option Error)

/-- Pass bytes to the sink and leave the buffer empty. -/
def pass (writer : BufferedWriter Sink) (data : List UInt8) : BufferedWriter Sink × Option Error :=
  let (sink, error) := accept writer.sink data
  (⟨sink, []⟩, error)

def flush (writer : BufferedWriter Sink) : BufferedWriter Sink × Option Error :=
  if writer.buffered = [] then (writer, none) else pass accept writer writer.buffered

/-- Write one piece.  The loop of the original fills the buffer and flushes it
once at most, and then the buffer is empty. -/
def write (size : Nat) (writer : BufferedWriter Sink) (data : List UInt8) :
    BufferedWriter Sink × Option Error :=
  let available := size - writer.buffered.length
  if data.length ≤ available then ({ writer with buffered := writer.buffered ++ data }, none)
  else if writer.buffered = [] then pass accept writer data
  else
    match pass accept writer (writer.buffered ++ data.take available) with
    | (writer, some error) => (writer, some error)
    | (writer, none) =>
        let rest := data.drop available
        if rest.length ≤ size then ({ writer with buffered := rest }, none)
        else pass accept writer rest

/-- Write several pieces, up to the first error. -/
def writeAll (size : Nat) : BufferedWriter Sink → List (List UInt8) →
    BufferedWriter Sink × Option Error
  | writer, [] => (writer, none)
  | writer, data :: pieces =>
      match write accept size writer data with
      | (writer, some error) => (writer, some error)
      | (writer, none) => writeAll size writer pieces

/-- Where the delivery of some pieces failed. -/
inductive Stage where
  | writing
  | flushing
  deriving DecidableEq

/-- Write pieces through a fresh buffer and flush it. -/
def deliver (size : Nat) (sink : Sink) (pieces : List (List UInt8)) : Except (Stage × Error) Sink :=
  match writeAll accept size ⟨sink, []⟩ pieces with
  | (_, some error) => .error (.writing, error)
  | (writer, none) =>
      match flush accept writer with
      | (_, some error) => .error (.flushing, error)
      | (writer, none) => .ok writer.sink

end

/-! ## The writes that reach the sink

How pieces are divided into writes does not depend on the sink. -/

/-- The writes that reach the sink when one piece is written, and what stays in
the buffer. -/
def writePasses (size : Nat) (buffered data : List UInt8) : List (List UInt8) × List UInt8 :=
  let available := size - buffered.length
  if data.length ≤ available then ([], buffered ++ data)
  else if buffered = [] then ([data], [])
  else if (data.drop available).length ≤ size then
    ([buffered ++ data.take available], data.drop available)
  else ([buffered ++ data.take available, data.drop available], [])

/-- The writes that reach the sink when pieces are written and flushed. -/
def passes (size : Nat) : List UInt8 → List (List UInt8) → List (List UInt8)
  | buffered, [] => if buffered = [] then [] else [buffered]
  | buffered, data :: pieces =>
      (writePasses size buffered data).1 ++ passes size (writePasses size buffered data).2 pieces

/-- Give a sink several writes, up to the first error. -/
def passAll (accept : Sink → List UInt8 → Sink × Option Error) :
    Sink → List (List UInt8) → Sink × Option Error
  | sink, [] => (sink, none)
  | sink, data :: writes =>
      match accept sink data with
      | (sink, some error) => (sink, some error)
      | (sink, none) => passAll accept sink writes

variable {accept : Sink → List UInt8 → Sink × Option Error}

theorem passAll_append (sink : Sink) (first second : List (List UInt8)) :
    passAll accept sink (first ++ second) =
      match passAll accept sink first with
      | (sink, some error) => (sink, some error)
      | (sink, none) => passAll accept sink second := by
  induction first generalizing sink with
  | nil => rfl
  | cons data first inductionHypothesis =>
      simp only [List.cons_append, passAll]
      split
      next => rfl
      next => exact inductionHypothesis _

/-- A write gives the sink its writes, and keeps the rest if they are accepted. -/
theorem write_eq_passAll (size : Nat) (writer : BufferedWriter Sink) (data : List UInt8) :
    write accept size writer data =
      match passAll accept writer.sink (writePasses size writer.buffered data).1 with
      | (sink, some error) => (⟨sink, []⟩, some error)
      | (sink, none) => (⟨sink, (writePasses size writer.buffered data).2⟩, none) := by
  by_cases fits : data.length ≤ size - writer.buffered.length
  · simp only [write, writePasses, if_pos fits, passAll]
  · by_cases empty : writer.buffered = []
    · rcases outcome : accept writer.sink data with ⟨sink, _ | error⟩ <;>
        simp only [write, writePasses, if_neg fits, if_pos empty, pass, passAll, outcome]
    · rcases outcome : accept writer.sink
          (writer.buffered ++ data.take (size - writer.buffered.length)) with ⟨sink, _ | error⟩
      · by_cases small : (data.drop (size - writer.buffered.length)).length ≤ size
        · simp only [write, writePasses, if_neg fits, if_neg empty, if_pos small, pass, passAll,
            outcome]
        · rcases last : accept sink (data.drop (size - writer.buffered.length)) with
            ⟨final, _ | error⟩ <;>
            simp only [write, writePasses, if_neg fits, if_neg empty, if_neg small, pass, passAll,
              outcome, last]
      · by_cases small : (data.drop (size - writer.buffered.length)).length ≤ size
        · simp only [write, writePasses, if_neg fits, if_neg empty, if_pos small, pass, passAll,
            outcome]
        · simp only [write, writePasses, if_neg fits, if_neg empty, if_neg small, pass, passAll,
            outcome]

theorem flatten_writePasses (size : Nat) (buffered data : List UInt8) :
    (writePasses size buffered data).1.flatten ++ (writePasses size buffered data).2 =
      buffered ++ data := by
  simp only [writePasses]
  split_ifs with fits empty small
  · rfl
  · simp [empty]
  · simp
  · simp

/-! ## Sinks -/

/-- A sink that keeps what it accepts: `contents` is what it has kept. -/
def Keeps (accept : Sink → List UInt8 → Sink × Option Error) (contents : Sink → List UInt8) :
    Prop :=
  ∀ sink data, (accept sink data).2 = none → contents (accept sink data).1 = contents sink ++ data

/-- All the bytes written so far. -/
def written (contents : Sink → List UInt8) (writer : BufferedWriter Sink) : List UInt8 :=
  contents writer.sink ++ writer.buffered

variable {contents : Sink → List UInt8}

theorem Keeps.passAll (keeps : Keeps accept contents) {sink : Sink} {writes : List (List UInt8)}
    (accepted : (passAll accept sink writes).2 = none) :
    contents (BufferedWriter.passAll accept sink writes).1 = contents sink ++ writes.flatten := by
  induction writes generalizing sink with
  | nil => simp [BufferedWriter.passAll]
  | cons data writes inductionHypothesis =>
      simp only [BufferedWriter.passAll] at accepted ⊢
      split at accepted
      next => cases accepted
      next between first =>
        have kept : contents between = contents sink ++ data := by
          have once := keeps sink data (congrArg Prod.snd first)
          rwa [first] at once
        rw [inductionHypothesis accepted, kept, List.flatten_cons, List.append_assoc]

theorem Keeps.flush (keeps : Keeps accept contents) {writer : BufferedWriter Sink}
    (accepted : (flush accept writer).2 = none) :
    contents (BufferedWriter.flush accept writer).1.sink = written contents writer ∧
      (BufferedWriter.flush accept writer).1.buffered = [] := by
  unfold BufferedWriter.flush at accepted ⊢
  split at accepted
  next empty => simp [empty, written]
  next nonempty =>
    rw [if_neg nonempty]
    exact ⟨keeps writer.sink writer.buffered accepted, rfl⟩

theorem Keeps.write (keeps : Keeps accept contents) {size : Nat} {writer : BufferedWriter Sink}
    {data : List UInt8} (accepted : (write accept size writer data).2 = none) :
    written contents (BufferedWriter.write accept size writer data).1 =
      written contents writer ++ data := by
  rw [write_eq_passAll] at accepted ⊢
  split at accepted
  next => cases accepted
  next sink passed =>
    have kept := keeps.passAll (congrArg Prod.snd passed)
    rw [passed] at kept
    simp only [written]
    rw [kept, List.append_assoc, flatten_writePasses, List.append_assoc]

/-- What holds of a sink however much of its input it accepts. -/
def Stable (accept : Sink → List UInt8 → Sink × Option Error) (property : Sink → Prop) : Prop :=
  ∀ sink data, property sink → property (accept sink data).1

variable {property : Sink → Prop}

theorem Stable.flush (stable : Stable accept property) {writer : BufferedWriter Sink}
    (holds : property writer.sink) : property (flush accept writer).1.sink := by
  unfold BufferedWriter.flush
  split
  next => exact holds
  next => exact stable _ _ holds

theorem Stable.passAll (stable : Stable accept property) {sink : Sink}
    (writes : List (List UInt8)) (holds : property sink) :
    property (passAll accept sink writes).1 := by
  induction writes generalizing sink with
  | nil => exact holds
  | cons data writes inductionHypothesis =>
      have once := stable sink data holds
      simp only [BufferedWriter.passAll]
      split
      next first =>
        rw [first] at once
        exact once
      next first =>
        rw [first] at once
        exact inductionHypothesis once

theorem Stable.write (stable : Stable accept property) (size : Nat)
    {writer : BufferedWriter Sink} (data : List UInt8) (holds : property writer.sink) :
    property (write accept size writer data).1.sink := by
  have all := stable.passAll (writePasses size writer.buffered data).1 holds
  rw [write_eq_passAll]
  split
  next passed =>
    rw [passed] at all
    exact all
  next passed =>
    rw [passed] at all
    exact all

theorem Stable.passAll_accepted (stable : Stable accept property)
    (accepting : ∀ sink data, property sink → (accept sink data).2 = none) {sink : Sink}
    (writes : List (List UInt8)) (holds : property sink) :
    (BufferedWriter.passAll accept sink writes).2 = none := by
  induction writes generalizing sink with
  | nil => rfl
  | cons data writes inductionHypothesis =>
      have once := stable sink data holds
      have accepted := accepting sink data holds
      simp only [BufferedWriter.passAll]
      split
      next refused =>
        rw [refused] at accepted
        cases accepted
      next first =>
        rw [first] at once
        exact inductionHypothesis once

/-- A write succeeds on a sink that refuses nothing. -/
theorem Stable.write_accepted (stable : Stable accept property)
    (accepting : ∀ sink data, property sink → (accept sink data).2 = none) (size : Nat)
    {writer : BufferedWriter Sink} (data : List UInt8) (holds : property writer.sink) :
    (BufferedWriter.write accept size writer data).2 = none := by
  have accepted := stable.passAll_accepted accepting
    (writePasses size writer.buffered data).1 holds
  rw [write_eq_passAll]
  split
  next refused =>
    rw [refused] at accepted
    cases accepted
  next => rfl

/-- A sink that takes a beginning of what it refuses. -/
def Bounded (accept : Sink → List UInt8 → Sink × Option Error) (contents : Sink → List UInt8) :
    Prop :=
  ∀ sink data, contents (accept sink data).1 <+: contents sink ++ data

theorem Bounded.passAll (bounded : Bounded accept contents) (keeps : Keeps accept contents)
    (sink : Sink) (writes : List (List UInt8)) :
    contents (BufferedWriter.passAll accept sink writes).1 <+: contents sink ++ writes.flatten := by
  induction writes generalizing sink with
  | nil => simp [BufferedWriter.passAll]
  | cons data writes inductionHypothesis =>
      have once := bounded sink data
      simp only [BufferedWriter.passAll, List.flatten_cons, ← List.append_assoc]
      split
      next refused =>
        rw [refused] at once
        exact once.trans (List.prefix_append _ _)
      next between accepted =>
        have kept := keeps sink data (congrArg Prod.snd accepted)
        rw [accepted] at kept
        rw [← kept]
        exact inductionHypothesis between

theorem Bounded.flush (bounded : Bounded accept contents) (writer : BufferedWriter Sink) :
    written contents (flush accept writer).1 <+: written contents writer := by
  unfold BufferedWriter.flush
  split
  next => exact List.prefix_refl _
  next =>
    have once := bounded writer.sink writer.buffered
    simpa only [BufferedWriter.pass, written, List.append_nil] using once

theorem Bounded.write (bounded : Bounded accept contents) (keeps : Keeps accept contents)
    (size : Nat) (writer : BufferedWriter Sink) (data : List UInt8) :
    written contents (write accept size writer data).1 <+: written contents writer ++ data := by
  have all := bounded.passAll keeps writer.sink (writePasses size writer.buffered data).1
  have total := flatten_writePasses size writer.buffered data
  rw [write_eq_passAll]
  split
  next refused =>
    rw [refused] at all
    simp only [written, List.append_nil, List.append_assoc]
    rw [← total, ← List.append_assoc]
    exact all.trans (List.prefix_append _ _)
  next sink accepted =>
    have kept := keeps.passAll (congrArg Prod.snd accepted)
    rw [accepted] at kept
    simp only [written, List.append_assoc]
    rw [← total, kept, List.append_assoc]

/-! ## Delivering -/

/-- Pieces are delivered exactly if the sink accepts all their writes. -/
theorem deliver_eq_ok {size : Nat} {sink delivered : Sink} {pieces : List (List UInt8)} :
    deliver accept size sink pieces = .ok delivered ↔
      passAll accept sink (passes size [] pieces) = (delivered, none) := by
  suffices general : ∀ writer : BufferedWriter Sink,
      (match writeAll accept size writer pieces with
        | (_, some error) => (.error (.writing, error) : Except (Stage × Error) Sink)
        | (writer, none) =>
            match flush accept writer with
            | (_, some error) => .error (.flushing, error)
            | (writer, none) => .ok writer.sink) = .ok delivered ↔
        passAll accept writer.sink (passes size writer.buffered pieces) = (delivered, none) from
    general ⟨sink, []⟩
  induction pieces with
  | nil =>
      intro writer
      by_cases empty : writer.buffered = []
      · simp [writeAll, flush, passes, passAll, empty]
      · rcases outcome : accept writer.sink writer.buffered with ⟨sink, _ | error⟩ <;>
          simp [writeAll, flush, passes, passAll, pass, empty, outcome]
  | cons data pieces inductionHypothesis =>
      intro writer
      simp only [writeAll, write_eq_passAll, passes, passAll_append]
      rcases passAll accept writer.sink (writePasses size writer.buffered data).1 with
        ⟨between, _ | error⟩
      · exact inductionHypothesis ⟨between, (writePasses size writer.buffered data).2⟩
      · simp

/-- The writes are the pieces, divided in another way. -/
theorem flatten_passes (size : Nat) (buffered : List UInt8) (pieces : List (List UInt8)) :
    (passes size buffered pieces).flatten = buffered ++ pieces.flatten := by
  induction pieces generalizing buffered with
  | nil =>
      unfold passes
      split
      next empty => simp [empty]
      next => simp
  | cons data pieces inductionHypothesis =>
      rw [passes, List.flatten_append, inductionHypothesis, ← List.append_assoc,
        flatten_writePasses, List.flatten_cons, List.append_assoc]

theorem writePasses_short {size : Nat} {buffered data : List UInt8}
    (room : buffered.length ≤ size) (short : data.length ≤ size) :
    (∀ write ∈ (writePasses size buffered data).1, write.length ≤ size) ∧
      (writePasses size buffered data).2.length ≤ size := by
  simp only [writePasses]
  split_ifs with fits empty small
  · simp only [List.length_append, List.not_mem_nil, false_imp_iff, implies_true, true_and]
    omega
  · simp [short]
  · simp only [List.mem_singleton, forall_eq, List.length_append, List.length_take]
    exact ⟨by omega, small⟩
  · rw [List.length_drop] at small
    omega

/-- Pieces that fit in the buffer reach the sink in writes that do. -/
theorem passes_short {size : Nat} {buffered : List UInt8} {pieces : List (List UInt8)}
    (room : buffered.length ≤ size) (short : ∀ data ∈ pieces, data.length ≤ size) :
    ∀ write ∈ passes size buffered pieces, write.length ≤ size := by
  induction pieces generalizing buffered with
  | nil =>
      unfold passes
      split
      next => nofun
      next => simpa using room
  | cons data pieces inductionHypothesis =>
      rw [List.forall_mem_cons] at short
      have first := writePasses_short room short.1
      intro write membership
      rw [passes, List.mem_append] at membership
      rcases membership with direct | later
      · exact first.1 write direct
      · exact inductionHypothesis first.2 short.2 write later

/-! ## Sinks of limited size -/

/-- Keep bytes up to a limit on their number, and refuse a piece that exceeds it. -/
def limited (limit : Nat) (error : Error) (kept data : List UInt8) : List UInt8 × Option Error :=
  if data.length ≤ limit - kept.length then (kept ++ data, none) else (kept, some error)

/-- Refuse a piece that exceeds the limit by itself, however much is kept. -/
def piecewiseLimited (limit : Int) (error : Error) (kept data : List UInt8) :
    List UInt8 × Option Error :=
  if limit < data.length then (kept, some error) else (kept ++ data, none)

theorem passAll_limited {limit : Nat} {error : Error} {kept result : List UInt8}
    {writes : List (List UInt8)} (bounded : kept.length ≤ limit) :
    passAll (limited limit error) kept writes = (result, none) ↔
      result = kept ++ writes.flatten ∧ kept.length + writes.flatten.length ≤ limit := by
  induction writes generalizing kept with
  | nil => simp [passAll, bounded, eq_comm]
  | cons data writes inductionHypothesis =>
      rw [List.flatten_cons, List.length_append]
      by_cases fits : data.length ≤ limit - kept.length
      · have accepted : limited limit error kept data = (kept ++ data, none) := if_pos fits
        have still : (kept ++ data).length ≤ limit := by
          rw [List.length_append]
          omega
        rw [passAll, accepted]
        simp only
        rw [inductionHypothesis still, List.append_assoc, List.length_append, Nat.add_assoc]
      · have refused : limited limit error kept data = (kept, some error) := if_neg fits
        rw [passAll, refused]
        constructor
        · intro success
          cases success
        · rintro ⟨-, within⟩
          omega

theorem passAll_piecewiseLimited {limit : Int} {error : Error} {kept result : List UInt8}
    {writes : List (List UInt8)} :
    passAll (piecewiseLimited limit error) kept writes = (result, none) ↔
      result = kept ++ writes.flatten ∧ ∀ data ∈ writes, (data.length : Int) ≤ limit := by
  induction writes generalizing kept with
  | nil => simp [passAll, eq_comm]
  | cons data writes inductionHypothesis =>
      by_cases long : limit < data.length
      · have refused : piecewiseLimited limit error kept data = (kept, some error) := if_pos long
        rw [passAll, refused]
        constructor
        · intro success
          cases success
        · rintro ⟨-, short⟩
          exact absurd long (Int.not_lt.mpr (short data List.mem_cons_self))
      · have accepted : piecewiseLimited limit error kept data = (kept ++ data, none) :=
          if_neg long
        rw [passAll, accepted]
        simp only
        rw [inductionHypothesis, List.flatten_cons, List.append_assoc, List.forall_mem_cons,
          and_iff_right (Int.not_lt.mp long)]

/-- Pieces are delivered exactly if together they are within the limit. -/
theorem deliver_limited_iff {limit : Nat} {error : Error} {size : Nat}
    {pieces : List (List UInt8)} {data : List UInt8} :
    deliver (limited limit error) size [] pieces = .ok data ↔
      data = pieces.flatten ∧ pieces.flatten.length ≤ limit := by
  rw [deliver_eq_ok, passAll_limited (Nat.zero_le limit), flatten_passes, List.nil_append,
    List.nil_append, List.length_nil, Nat.zero_add]

/-- Pieces are delivered exactly if every write that reaches the sink is within
the limit. -/
theorem deliver_piecewiseLimited_iff {limit : Int} {error : Error} {size : Nat}
    {pieces : List (List UInt8)} {data : List UInt8} :
    deliver (piecewiseLimited limit error) size [] pieces = .ok data ↔
      data = pieces.flatten ∧
        ∀ write ∈ passes size [] pieces, (write.length : Int) ≤ limit := by
  rw [deliver_eq_ok, passAll_piecewiseLimited, flatten_passes, List.nil_append, List.nil_append]

end BufferedWriter
