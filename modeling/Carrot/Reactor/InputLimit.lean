import Carrot.Reactor.Framing

/-!
# The limit on the input

`OnRead` compares what arrives with the space that an incomplete message leaves.
What arrives may end this message and begin others, so that the limit is not
one on a message: a connection is closed exactly if a read brings more than
there is space for, whatever the read consists of.
-/

namespace Carrot.Reactor

/-- Every read has space beside what is kept of the earlier ones. -/
def HasRoom (config : ServerConfig) : Bytes → List Bytes → Prop
  | _, [] => True
  | kept, piece :: pieces =>
      kept.length + piece.length ≤ config.maxRequestBytes ∧
        HasRoom config (cut config.limits (kept ++ piece)).2 pieces

instance hasRoomDecidable (config : ServerConfig) :
    (kept : Bytes) → (pieces : List Bytes) → Decidable (HasRoom config kept pieces)
  | _, [] => .isTrue trivial
  | kept, piece :: pieces =>
      @instDecidableAnd _ _ (Nat.decLe _ _)
        (hasRoomDecidable config (cut config.limits (kept ++ piece)).2 pieces)

theorem hasRoom_event {config : ServerConfig} {kept : Bytes} {event : Event} {pieces : List Bytes} :
    HasRoom config kept (event.pieces ++ pieces) ↔
      (∀ piece ∈ event.pieces, kept.length + piece.length ≤ config.maxRequestBytes) ∧
        HasRoom config (received config.limits kept event.pieces).2 pieces := by
  cases event with
  | read data socket => simp only [Event.pieces, List.singleton_append, HasRoom, received,
      List.mem_singleton, forall_eq]
  | _ => simp only [Event.pieces, List.nil_append, received, List.not_mem_nil, false_implies,
      implies_true, true_and]

/-! ## Runs with and without space -/

namespace Connection

variable {State : Type} {config : ServerConfig} [GoTables] {service : Service State}

/-- One event: only a read without space fails with the limit. -/
theorem step_inputLimit {connection : Connection State} (opened : connection.closed = none)
    {event : Event}
    (failed : (connection.step service config event).closed = some .inputLimit) :
    ∃ piece ∈ event.pieces, config.maxRequestBytes < connection.inBuf.length + piece.length := by
  rw [step_of_open _ _ opened] at failed
  cases event with
  | read data socket =>
      simp only at failed
      split at failed
      next => cases failed
      next =>
        split at failed
        next large =>
          refine ⟨data, List.mem_cons_self, ?_⟩
          omega
        next =>
          have output := processCommands_fails service config socket
            { connection with inBuf := connection.inBuf ++ data }
          exact (failed ▸ output : OutputFails (some .inputLimit)).elim
  | drained socket =>
      have output := processCommands_fails service config socket connection
      exact (failed ▸ output : OutputFails (some .inputLimit)).elim
  | readFailed error => cases failed
  | writable socket =>
      have output := flush_fails socket connection
      exact (failed ▸ output : OutputFails (some .inputLimit)).elim
  | dropped => cases failed

/-- An event that leaves the connection open. -/
theorem step_keeps {connection : Connection State} (opened : connection.closed = none)
    (settled : Pending config.limits connection.inBuf) {event : Event}
    (stays : (connection.step service config event).closed = none) :
    Pending config.limits (connection.step service config event).inBuf ∧
      (connection.step service config event).inBuf =
        (received config.limits connection.inBuf event.pieces).2 := by
  obtain ⟨⟨answered, serves⟩, kept⟩ := step_serves service opened settled event
  exact ⟨kept stays, (serves.finished stays).2⟩

/-- A run does not fail with the limit if every read has space. -/
theorem run_not_inputLimit {connection : Connection State} (opened : connection.closed = none)
    (settled : Pending config.limits connection.inBuf) {events : List Event}
    (room : HasRoom config connection.inBuf (piecesOf events)) :
    (connection.run service config events).closed ≠ some .inputLimit := by
  induction events generalizing connection with
  | nil =>
      change connection.closed ≠ _
      rw [opened]
      simp
  | cons event events inductionHypothesis =>
      obtain ⟨space, later⟩ := hasRoom_event.mp room
      cases outcome : (connection.step service config event).closed with
      | none =>
          obtain ⟨pending, kept⟩ := step_keeps opened settled outcome
          rw [← kept] at later
          exact inductionHypothesis outcome pending later
      | some failure =>
          have unchanged : connection.run service config (event :: events) =
              connection.step service config event :=
            run_of_closed service config (by rw [outcome]; rfl) events
          rw [unchanged]
          intro failed
          obtain ⟨piece, membership, large⟩ := step_inputLimit opened failed
          exact absurd (space piece membership) (not_le.mpr large)

/-- A read without space fails with the limit. -/
theorem step_of_large {connection : Connection State} (opened : connection.closed = none)
    {event : Event} (works : event.Works) {piece : Bytes} (membership : piece ∈ event.pieces)
    (large : config.maxRequestBytes < connection.inBuf.length + piece.length) :
    (connection.step service config event).closed = some .inputLimit := by
  cases event with
  | read data socket =>
      obtain rfl := List.mem_singleton.mp membership
      have exceeds : piece.length > config.maxRequestBytes - connection.inBuf.length := by
        have nonempty := List.length_pos_of_ne_nil works.1
        omega
      simp only [step_of_open _ _ opened, if_neg works.1, if_pos exceeds]
  | _ => cases membership

/-- Every read has space if a run fails neither with the limit nor for another
reason. -/
theorem hasRoom_of_run {connection : Connection State} (opened : connection.closed = none)
    (settled : Pending config.limits connection.inBuf) {events : List Event}
    (works : ∀ event ∈ events, event.Works)
    (fits : ∀ offer ∈ (connection.run service config events).offered, offer.Fits config)
    (within : (connection.run service config events).closed ≠ some .inputLimit) :
    HasRoom config connection.inBuf (piecesOf events) := by
  induction events generalizing connection with
  | nil => exact trivial
  | cons event events inductionHypothesis =>
      rw [List.forall_mem_cons] at works
      have space : ∀ piece ∈ event.pieces,
          connection.inBuf.length + piece.length ≤ config.maxRequestBytes := by
        intro piece membership
        by_contra large
        have failed : (connection.step service config event).closed = some .inputLimit :=
          step_of_large opened works.1 membership (not_le.mp large)
        have unchanged : connection.run service config (event :: events) =
            connection.step service config event :=
          run_of_closed service config (by rw [failed]; rfl) events
        rw [unchanged] at within
        exact within failed
      have recorded := offered_prefix_of_moves (run_moves service config
        (connection.step service config event) events)
      have stays : (connection.step service config event).closed = none :=
        step_stays_open opened works.1 space fun offer membership =>
          fits offer (recorded.subset membership)
      obtain ⟨pending, kept⟩ := step_keeps opened settled stays
      have later := inductionHypothesis stays pending works.2 fits within
      rw [kept] at later
      exact hasRoom_event.mpr ⟨space, later⟩

end Connection

/-! ## Streams of accepted frames -/

/-- Reads of a bounded size have space if the frames are that much shorter than
the limit. -/
theorem hasRoom_of_short {config : ServerConfig} {frames : List (Bytes × Value)}
    (accepted : ∀ frame ∈ frames, decode config.limits frame.1 = .ok (frame.2, []))
    {size : Nat} (short : ∀ frame ∈ frames, frame.1.length + size ≤ config.maxRequestBytes + 1)
    {arrived : Bytes} {pieces : List Bytes}
    (stream : arrived ++ pieces.flatten = (frames.map Prod.fst).flatten)
    (small : ∀ piece ∈ pieces, piece.length ≤ size) :
    HasRoom config (cut config.limits arrived).2 pieces := by
  induction pieces generalizing arrived with
  | nil => exact trivial
  | cons piece pieces inductionHypothesis =>
      rw [List.forall_mem_cons] at small
      rw [List.flatten_cons, ← List.append_assoc] at stream
      have earlier : arrived ++ (piece ++ pieces.flatten) = (frames.map Prod.fst).flatten := by
        rw [← List.append_assoc]
        exact stream
      obtain ⟨⟨served, -, requests⟩, kept⟩ := cut_of_accepted rfl accepted earlier
      have fine : ∀ cause, .malformed cause ∉ (cut config.limits arrived).1 := by
        rw [requests]
        exact not_malformed served
      constructor
      · have bound := small.1
        rcases kept with empty | ⟨frame, membership, shorter⟩
        · rw [empty, List.length_nil, Nat.zero_add]
          cases frames with
          | nil =>
              rw [(List.append_eq_nil_iff.mp (List.append_eq_nil_iff.mp stream).1).2]
              exact Nat.zero_le _
          | cons frame frames =>
              have nonempty : 0 < frame.1.length :=
                decode_shortens (accepted frame List.mem_cons_self)
              have room := short frame List.mem_cons_self
              omega
        · have room := short frame membership
          omega
      · rw [kept_append rfl fine]
        exact inductionHypothesis stream small.2

namespace Connection

/-- The size of the buffer into which `OnRead` reads. -/
def readSize : Nat := 4096

variable [GoTables] {State : Type}

/-- The limit on the input, for a stream of accepted frames.  If every read has
space beside the incomplete frame that is kept, the connection does not fail with
the limit, whatever the kernel and the commands do.  If nothing else closes the
connection, it fails with the limit exactly if some read has no space.  Frames
that leave space for a read never fail with it. -/
theorem inputLimit_iff (service : Service State) (config : ServerConfig) (state : State)
    {frames : List (Bytes × Value)}
    (accepted : ∀ frame ∈ frames, decode config.limits frame.1 = .ok (frame.2, []))
    {events : List Event} (stream : (piecesOf events).flatten = (frames.map Prod.fst).flatten)
    (reads : ∀ piece ∈ piecesOf events, piece.length ≤ readSize) :
    (HasRoom config [] (piecesOf events) →
        ((new state).run service config events).closed ≠ some .inputLimit) ∧
      ((∀ event ∈ events, event.Works) →
        (∀ offer ∈ ((new state).run service config events).offered, offer.Fits config) →
          (((new state).run service config events).closed = some .inputLimit ↔
            ¬ HasRoom config [] (piecesOf events))) ∧
      ((∀ frame ∈ frames, frame.1.length + readSize ≤ config.maxRequestBytes + 1) →
        ((new state).run service config events).closed ≠ some .inputLimit) := by
  have opened : (new state).closed = none := rfl
  have settled : Pending config.limits (new state).inBuf := pending_nil rfl
  refine ⟨run_not_inputLimit opened settled, ?_, ?_⟩
  · intro works fits
    constructor
    · intro failed room
      exact run_not_inputLimit opened settled room failed
    · intro full
      by_contra within
      exact full (hasRoom_of_run opened settled works fits within)
  · intro short
    apply run_not_inputLimit opened settled
    have empty : (cut config.limits []).2 = [] := by
      rw [cut_of_pending rfl (pending_nil rfl)]
    have room : HasRoom config (cut config.limits []).2 (piecesOf events) :=
      hasRoom_of_short accepted short stream reads
    rw [empty] at room
    exact room

end Connection

section

attribute [local instance] GoTables.ascii

/-- Two requests, each read by itself. -/
theorem Connection.inputLimit_iff_separate :
    let service := Executor.service (World.still ⟨0, by decide⟩) false fun _ => .alone
    let socket : Socket := ⟨[.took 7], none⟩
    let ping := bytes "*1\r\n$4\r\nPING\r\n"
    ((Connection.new (Executor.new .always 0 false, 0)).run service ⟨16, 1000⟩
      [.read ping socket, .read ping socket, .drained socket]).closed ≠ some .inputLimit := by
  intro service socket ping
  have accepted : ∀ frame ∈ [(ping, Value.array [.bulkString (bytes "PING")]),
      (ping, Value.array [.bulkString (bytes "PING")])],
      decode (ServerConfig.limits ⟨16, 1000⟩) frame.1 = .ok (frame.2, []) := by
    simp only [List.forall_mem_cons]
    exact ⟨rfl, rfl, List.forall_mem_nil _⟩
  exact (inputLimit_iff service ⟨16, 1000⟩ _ accepted rfl (by decide)).1 (by decide +kernel)

/-- Two requests that the decoder accepts arrive in one read.  The connection is
closed, and the server with a goroutine for each client answers both. -/
theorem Connection.pipelined_requests_refused :
    let service := Executor.service (World.still ⟨0, by decide⟩) false fun _ => .alone
    let socket : Socket := ⟨[.took 7], none⟩
    let ping := bytes "*1\r\n$4\r\nPING\r\n"
    let config : ServerConfig := ⟨16, 1000⟩
    let state := (Executor.new .always 0 false, 0)
    decode config.limits ping = .ok (.array [.bulkString (bytes "PING")], []) ∧
      (ping ++ ping).length ≤ readSize ∧
      ((Connection.new state).run service config [.read (ping ++ ping) socket]).closed =
        some .inputLimit ∧
      encodeAll
        (Server.handleClient service config (fun _ => .working) state (ping ++ ping)).replies =
          bytes "+PONG\r\n+PONG\r\n" :=
  ⟨rfl, by decide, rfl, by decide +kernel⟩

end

end Carrot.Reactor
