import Carrot.Aof.Log
import Carrot.Aof.ReadBack
import Carrot.Resp.Frames

/-!
# Recovery

At a start the records of the file are executed in order.  A record that is
incomplete at the end of the file is cut off; anything else that is not the
record of a mutation stops the recovery and leaves the file alone.
-/

namespace Carrot

/-- What the operating system does with the calls of a recovery. -/
structure ReplayDisk where
  seek : Option Bytes
  truncate : Option Bytes

/-- What a recovery leaves. -/
structure Replayed where
  file : Bytes
  store : Store
  error : Option Bytes

/-- An error at a position in the file. -/
def atByte (operation : Bytes) (offset : Nat) (cause : Bytes) : Bytes :=
  operation ++ bytes " at byte " ++ Decimal.formatNat offset ++ cause

/-! ## Positions in the file -/

/-- A file behind a `bufio.Reader` whose source is a `countingReader`.  `taken` is
not in the code: it is what was handed to the decoder. -/
structure FileReader where
  taken : Bytes
  buffered : Bytes
  unfetched : Bytes
  read : Nat

/-- What the calls of the decoder make a reader do. -/
inductive ReaderMove where
  /-- One read of the file, of at most so many bytes, into the buffer. -/
  | fill (amount : Nat)
  | take (amount : Nat)
  /-- A read of the file past an empty buffer. -/
  | direct (amount : Nat)
  | unreadByte

namespace FileReader

def start (file : Bytes) : FileReader := ⟨[], [], file, 0⟩

def move (reader : FileReader) : ReaderMove → FileReader
  | .fill amount =>
      let data := reader.unfetched.take amount
      { reader with
        buffered := reader.buffered ++ data
        unfetched := reader.unfetched.drop amount
        read := reader.read + data.length }
  | .take amount =>
      { reader with
        taken := reader.taken ++ reader.buffered.take amount
        buffered := reader.buffered.drop amount }
  | .direct amount =>
      if reader.buffered = [] then
        let data := reader.unfetched.take amount
        { reader with
          taken := reader.taken ++ data
          unfetched := reader.unfetched.drop amount
          read := reader.read + data.length }
      else reader
  | .unreadByte =>
      match reader.taken.getLast? with
      | none => reader
      | some byte =>
          { reader with taken := reader.taken.dropLast, buffered := byte :: reader.buffered }

/-- `source.read - int64(reader.Buffered())`. -/
def offset (reader : FileReader) : Int := reader.read - reader.buffered.length

/-- Nothing of the file is lost, and what was fetched is counted. -/
structure Counts (file : Bytes) (reader : FileReader) : Prop where
  whole : reader.taken ++ (reader.buffered ++ reader.unfetched) = file
  counted : reader.read = reader.taken.length + reader.buffered.length

theorem Counts.move {file : Bytes} {reader : FileReader} (counts : Counts file reader)
    (next : ReaderMove) : Counts file (reader.move next) := by
  obtain ⟨whole, counted⟩ := counts
  cases next with
  | fill amount =>
      refine ⟨?_, ?_⟩
      · simpa [FileReader.move] using whole
      · simp only [FileReader.move, List.length_append, counted, Nat.add_assoc]
  | take amount =>
      refine ⟨?_, ?_⟩
      · simp only [FileReader.move]
        rw [List.append_assoc, ← List.append_assoc (reader.buffered.take amount),
          List.take_append_drop, whole]
      · simp only [FileReader.move, List.length_append, List.length_take, List.length_drop, counted]
        omega
  | direct amount =>
      simp only [FileReader.move]
      split
      next empty =>
        refine ⟨?_, ?_⟩
        · simpa [empty] using whole
        · simp only [counted, empty, List.length_append, List.length_nil, Nat.add_zero]
      next => exact ⟨whole, counted⟩
  | unreadByte =>
      simp only [FileReader.move]
      split
      next => exact ⟨whole, counted⟩
      next byte last =>
        have split := List.dropLast_append_getLast? byte last
        refine ⟨?_, ?_⟩
        · rw [← whole, ← split]
          simp
        · have length := congrArg List.length split
          simp only [List.length_append, List.length_singleton] at length
          simp only [counted, List.length_cons]
          omega

/-- What has been fetched less what is still buffered is the length of the file
less that of the unread input, however the reads of the file are divided. -/
theorem offset_eq (file : Bytes) (moves : List ReaderMove) :
    let reader := moves.foldl FileReader.move (start file)
    reader.offset = file.length - (reader.buffered ++ reader.unfetched).length := by
  have counts : Counts file (moves.foldl FileReader.move (start file)) :=
    moves.foldlRecOn _ ⟨rfl, rfl⟩ fun _ counts next _ => counts.move next
  have total := congrArg List.length counts.whole
  have counted := counts.counted
  simp only [List.length_append] at total
  simp only [offset, List.length_append]
  omega

end FileReader

/-! ## The loop -/

section

variable [GoTables]

/-- The loop of `replay` over the unread input.  Each command reads the clock
for itself.  By `FileReader.offset_eq` the position is the length of the file less
that of the unread input.  When decoding ends because the input does, nothing is
unread. -/
def replayLoop (disk : ReplayDisk) (readings : Nat → Clock) (file : Bytes) :
    (fuel index : Nat) → (input : Bytes) → (goodOffset : Nat) → Store → Replayed
  | 0, _, _, _, store => ⟨file, store, none⟩
  | fuel + 1, index, input, goodOffset, store =>
      match decode recordLimits input with
      | .error cause =>
          if cause.isEof then
            if file.length = goodOffset then ⟨file, store, none⟩
            else
              match disk.truncate with
              | some error =>
                  ⟨file, store, some (wrapError "truncate incomplete AOF tail: " error)⟩
              | none => ⟨file.take goodOffset, store, none⟩
          else
            ⟨file, store,
              some (atByte (bytes "decode command") goodOffset (bytes ": " ++ cause.text))⟩
      | .ok (value, rest) =>
          let offset := file.length - rest.length
          if offset ≤ goodOffset then
            ⟨file, store, some (atByte (bytes "decoder made no progress") goodOffset [])⟩
          else
            match parse value with
            | .error error =>
                ⟨file, store,
                  some (atByte (bytes "parse command") goodOffset (bytes ": " ++ error.text))⟩
            | .ok command =>
                if ¬ isMutation command.name then
                  ⟨file, store,
                    some (atByte (bytes "unexpected non-mutation " ++ GoTables.quote command.name ++
                      bytes " in AOF") goodOffset [])⟩
                else
                  replayLoop disk readings file fuel (index + 1) rest offset
                    (store.execute (readings index) command).1

/-- Execute the records of a file. -/
def replay (disk : ReplayDisk) (readings : Nat → Clock) (file : Bytes) (store : Store) : Replayed :=
  match disk.seek with
  | some error => ⟨file, store, some (wrapError "seek AOF to start: " error)⟩
  | none => replayLoop disk readings file (file.length + 1) 0 file 0 store

/-! ## Whole records -/

/-- Bytes that the decoder of a recovery accepts as the record of a mutation. -/
def MutationRecord (data : Bytes) (command : Command) : Prop :=
  ∃ value, decode recordLimits data = .ok (value, []) ∧ parse value = .ok command ∧
    isMutation command.name = true

/-- Commands with the readings of the clock from some index on. -/
def stepsAt (readings : Nat → Clock) : Nat → List Command → List Step
  | _, [] => []
  | index, command :: commands => ⟨readings index, command⟩ :: stepsAt readings (index + 1) commands

variable {disk : ReplayDisk} {readings : Nat → Clock}

omit [GoTables] in
theorem recordLimits_steady :
    Steady (fun input more => input ++ more) DecodeError.isEof (decode recordLimits) :=
  decode_steady rfl

/-- One record is executed and the position moves behind it. -/
theorem replayLoop_record {file data rest : Bytes} {command : Command}
    (valid : MutationRecord data command) {goodOffset : Nat}
    (position : goodOffset + (data ++ rest).length = file.length) (fuel index : Nat)
    (store : Store) :
    replayLoop disk readings file (fuel + 1) index (data ++ rest) goodOffset store =
      replayLoop disk readings file fuel (index + 1) rest (goodOffset + data.length)
        (store.execute (readings index) command).1 := by
  obtain ⟨value, decoded, parsed, mutation⟩ := valid
  have nonempty : 0 < data.length := decode_shortens decoded
  have offset : file.length - rest.length = goodOffset + data.length := by
    rw [List.length_append] at position
    omega
  have progress : ¬ goodOffset + data.length ≤ goodOffset := by omega
  have next : decode recordLimits (data ++ rest) = .ok (value, rest) :=
    recordLimits_steady.ok rest decoded
  simp only [replayLoop, next, offset, if_neg progress, parsed, mutation, not_true_eq_false,
    if_false]

variable (disk readings) in
theorem replayLoop_records {file rest : Bytes} {records : List (Bytes × Command)}
    (valid : ∀ record ∈ records, MutationRecord record.1 record.2) {goodOffset : Nat}
    (position : goodOffset + ((records.map Prod.fst).flatten ++ rest).length = file.length)
    (fuel index : Nat) (store : Store) :
    replayLoop disk readings file (fuel + records.length) index
        ((records.map Prod.fst).flatten ++ rest) goodOffset store =
      replayLoop disk readings file fuel (index + records.length) rest
        (goodOffset + (records.map Prod.fst).flatten.length)
        (store.executeAll (stepsAt readings index (records.map Prod.snd))) := by
  induction records generalizing index goodOffset store with
  | nil => rfl
  | cons record records inductionHypothesis =>
      simp only [List.map_cons, List.flatten_cons, List.append_assoc] at position ⊢
      have later : goodOffset + record.1.length +
          ((records.map Prod.fst).flatten ++ rest).length = file.length := by
        rw [List.length_append] at position
        omega
      rw [List.length_cons, ← Nat.add_assoc,
        replayLoop_record (valid record List.mem_cons_self) position,
        inductionHypothesis
          (fun other membership => valid other (List.mem_cons_of_mem _ membership))
          later, List.length_append, Nat.add_assoc goodOffset, Nat.add_assoc index,
        Nat.add_comm 1]
      rfl

omit [GoTables] in
theorem length_le_flatten {records : List (Bytes × Command)}
    (nonempty : ∀ record ∈ records, 0 < record.1.length) :
    records.length ≤ (records.map Prod.fst).flatten.length := by
  induction records with
  | nil => exact Nat.le_refl _
  | cons record records inductionHypothesis =>
      have first := nonempty record List.mem_cons_self
      have others := inductionHypothesis fun other membership =>
        nonempty other (List.mem_cons_of_mem _ membership)
      simp only [List.map_cons, List.flatten_cons, List.length_append, List.length_cons]
      omega

variable (readings) in
/-- A recovery executes the records at the beginning of a file and comes to
what follows them. -/
theorem replay_records (seeks : disk.seek = none) {records : List (Bytes × Command)}
    (valid : ∀ record ∈ records, MutationRecord record.1 record.2) (rest : Bytes) (store : Store) :
    ∃ fuel, replay disk readings ((records.map Prod.fst).flatten ++ rest) store =
      replayLoop disk readings ((records.map Prod.fst).flatten ++ rest) (fuel + 1) records.length
        rest (records.map Prod.fst).flatten.length
        (store.executeAll (stepsAt readings 0 (records.map Prod.snd))) := by
  have nonempty : ∀ record ∈ records, 0 < record.1.length := fun record membership => by
    obtain ⟨value, decoded, -⟩ := valid record membership
    exact decode_shortens decoded
  have enough : records.length ≤ ((records.map Prod.fst).flatten ++ rest).length := by
    rw [List.length_append]
    exact Nat.le_add_right_of_le (length_le_flatten nonempty)
  obtain ⟨fuel, total⟩ := Nat.exists_eq_add_of_le' enough
  refine ⟨fuel, ?_⟩
  have whole := replayLoop_records disk readings valid
    (Nat.zero_add ((records.map Prod.fst).flatten ++ rest).length) (fuel + 1) 0 store
  rw [Nat.zero_add, Nat.zero_add] at whole
  simp only [replay, seeks]
  rw [← whole, total, Nat.add_right_comm]

variable (readings) in
/-- What follows the last record is nothing, or the beginning of a record. -/
theorem replay_torn (seeks : disk.seek = none) {records : List (Bytes × Command)}
    (valid : ∀ record ∈ records, MutationRecord record.1 record.2) {torn : Bytes}
    (pending : Pending recordLimits torn) (cuts : torn ≠ [] → disk.truncate = none)
    (store : Store) :
    replay disk readings ((records.map Prod.fst).flatten ++ torn) store =
      ⟨(records.map Prod.fst).flatten,
        store.executeAll (stepsAt readings 0 (records.map Prod.snd)), none⟩ := by
  obtain ⟨cause, failed, ended⟩ := pending
  obtain ⟨fuel, reached⟩ := replay_records readings seeks valid torn store
  rw [reached]
  simp only [replayLoop, failed, ended, if_true]
  by_cases empty : torn = []
  · subst empty
    simp only [List.append_nil, if_true]
  · have incomplete : ((records.map Prod.fst).flatten ++ torn).length ≠
        (records.map Prod.fst).flatten.length := by
      have positive := List.length_pos_iff.mpr empty
      rw [List.length_append]
      omega
    simp only [if_neg incomplete, cuts empty, List.take_left']

/-- What follows the last record can not become a record. -/
theorem replay_corrupt (seeks : disk.seek = none) {records : List (Bytes × Command)}
    (valid : ∀ record ∈ records, MutationRecord record.1 record.2) {rest : Bytes}
    (corrupt : Rejected recordLimits rest) (store : Store) :
    ∃ error, replay disk readings ((records.map Prod.fst).flatten ++ rest) store =
      ⟨(records.map Prod.fst).flatten ++ rest,
        store.executeAll (stepsAt readings 0 (records.map Prod.snd)), some error⟩ := by
  obtain ⟨cause, failed, notEnded⟩ := corrupt
  obtain ⟨fuel, reached⟩ := replay_records readings seeks valid rest store
  rw [reached]
  simp only [replayLoop, failed, notEnded, Bool.false_eq_true, if_false]
  exact ⟨_, rfl⟩

/-- What follows the last record is complete, but not the record of a mutation. -/
theorem replay_foreign (seeks : disk.seek = none) {records : List (Bytes × Command)}
    (valid : ∀ record ∈ records, MutationRecord record.1 record.2) {rest tail : Bytes}
    {value : Value} (decoded : decode recordLimits rest = .ok (value, tail))
    (foreign : ∀ command, parse value = .ok command → isMutation command.name = false)
    (store : Store) :
    ∃ error, replay disk readings ((records.map Prod.fst).flatten ++ rest) store =
      ⟨(records.map Prod.fst).flatten ++ rest,
        store.executeAll (stepsAt readings 0 (records.map Prod.snd)), some error⟩ := by
  obtain ⟨fuel, reached⟩ := replay_records readings seeks valid rest store
  have shorter := decode_shortens decoded
  have progress : ¬ ((records.map Prod.fst).flatten ++ rest).length - tail.length ≤
      (records.map Prod.fst).flatten.length := by
    rw [List.length_append]
    omega
  rw [reached]
  simp only [replayLoop, decoded, if_neg progress]
  split
  next => exact ⟨_, rfl⟩
  next command parsed =>
    simp only [foreign command parsed, Bool.false_eq_true, not_false_eq_true, if_true]
    exact ⟨_, rfl⟩

/-- What a recovery does with a file that begins with some records. -/
structure RecoversExactly (disk : ReplayDisk) (readings : Nat → Clock) (store : Store)
    (records : List (Bytes × Command)) : Prop where
  /-- An incomplete record at the end is cut off. -/
  torn : ∀ torn missing command, MutationRecord (torn ++ missing) command → missing ≠ [] →
    (torn ≠ [] → disk.truncate = none) →
    replay disk readings ((records.map Prod.fst).flatten ++ torn) store =
      ⟨(records.map Prod.fst).flatten,
        store.executeAll (stepsAt readings 0 (records.map Prod.snd)), none⟩
  /-- The file that is left is recovered as it is. -/
  again : ∀ disk : ReplayDisk, disk.seek = none →
    replay disk readings (records.map Prod.fst).flatten store =
      ⟨(records.map Prod.fst).flatten,
        store.executeAll (stepsAt readings 0 (records.map Prod.snd)), none⟩
  /-- Other errors of the decoder leave the file alone. -/
  corrupt : ∀ rest cause, decode recordLimits rest = .error cause → cause.isEof = false →
    ∃ error, replay disk readings ((records.map Prod.fst).flatten ++ rest) store =
      ⟨(records.map Prod.fst).flatten ++ rest,
        store.executeAll (stepsAt readings 0 (records.map Prod.snd)), some error⟩
  /-- So does a value that is not the record of a mutation. -/
  foreign : ∀ rest value tail, decode recordLimits rest = .ok (value, tail) →
    (∀ command, parse value = .ok command → isMutation command.name = false) →
    ∃ error, replay disk readings ((records.map Prod.fst).flatten ++ rest) store =
      ⟨(records.map Prod.fst).flatten ++ rest,
        store.executeAll (stepsAt readings 0 (records.map Prod.snd)), some error⟩

/-- A recovery executes the complete records and cuts an incomplete one off,
after which it finds the file as it is; on any other file it fails and leaves
the file alone. -/
theorem replay_exact (disk : ReplayDisk) (seeks : disk.seek = none) (readings : Nat → Clock)
    (store : Store) (records : List (Bytes × Command))
    (valid : ∀ record ∈ records, MutationRecord record.1 record.2) :
    RecoversExactly disk readings store records where
  torn torn missing command record partly cuts := by
    obtain ⟨value, accepted, -⟩ := record
    exact replay_torn readings seeks valid (pending_of_accepted rfl accepted partly) cuts store
  again disk seeks := by
    have whole := replay_torn readings seeks valid (pending_nil rfl) (absurd rfl) store
    rwa [List.append_nil] at whole
  corrupt rest cause failed notEnded :=
    replay_corrupt seeks valid ⟨cause, failed, notEnded⟩ store
  foreign rest value tail decoded foreign := replay_foreign seeks valid decoded foreign store

end

section

attribute [local instance] GoTables.ascii

/-- A file with the record of one deletion. -/
theorem replay_exact_del :
    RecoversExactly ⟨none, none⟩ (fun _ => ⟨0, by decide⟩) Store.new
      [(bytes "*2\r\n$3\r\nDEL\r\n$1\r\nk\r\n", ⟨bytes "DEL", [bytes "k"]⟩)] := by
  refine replay_exact _ rfl _ _ _ ?_
  simp only [List.mem_singleton, forall_eq]
  exact ⟨.array [.bulkString (bytes "DEL"), .bulkString (bytes "k")], by rfl, by rfl,
    by decide +kernel⟩

end

end Carrot
