import Carrot.Reactor.InputLimit

/-!
# What is left to write

How much of its queue a connection has written follows from the replies that were
queued and from the answers of the socket: a `Flush` leaves what the socket has
not taken when it would block.  So whether a connection stays open, and whether
it has something left to write, can be told from the requests that arrive and
from what the kernel answers.
-/

namespace Carrot.Reactor

/-- What a `Flush` leaves of a queue, in bytes. -/
def leftBy : List SocketWrite → Nat → Nat
  | [], queued => queued
  | write :: writes, queued =>
      if queued = 0 then 0
      else
        match write with
        | .took 0 => queued
        | .took (count + 1) => leftBy writes (queued - (count + 1))
        | .wouldBlock => queued
        | .interrupted => leftBy writes queued
        | .failed _ => queued

/-- A `Flush` of a queue ends because the socket would block. -/
def blockedBy : List SocketWrite → Nat → Bool
  | [], queued => queued ≠ 0
  | write :: writes, queued =>
      if queued = 0 then false
      else
        match write with
        | .took 0 => false
        | .took (count + 1) => blockedBy writes (queued - (count + 1))
        | .wouldBlock => true
        | .interrupted => blockedBy writes queued
        | .failed _ => false

/-- The answers of the socket to the `Flush` of an event. -/
def Event.writes : Event → List SocketWrite
  | .read _ socket | .drained socket | .writable socket => socket.writes
  | .readFailed _ | .dropped => [.wouldBlock]

/-- The end of the input: nothing is read, or `epoll` reports only that the client
has gone. -/
def Event.isEnd : Event → Bool
  | .read data _ => data = []
  | .dropped => true
  | .drained _ | .readFailed _ | .writable _ => false

theorem length_encode_le_of_mem {value : Value} {values : List Value}
    (membership : value ∈ values) : (encode value).length ≤ (encodeAll values).length := by
  induction values with
  | nil => cases membership
  | cons first values inductionHypothesis =>
      rw [encodeAll, List.length_append]
      rcases List.mem_cons.mp membership with rfl | later
      · omega
      · have shorter := inductionHypothesis later
        omega

section

variable [GoTables] {State : Type} (service : Service State)

/-- The replies to what an event completes. -/
def answersTo (limits : Limits) (session : Session State) (kept : Bytes) (event : Event) :
    Session State × List Value :=
  converse (answerRequest service) session (received limits kept event.pieces).1

/-- The replies fit beside what the socket has not taken of the earlier ones. -/
def RepliesFit (config : ServerConfig) : Session State → Bytes → Nat → List Event → Prop
  | _, _, _, [] => True
  | session, kept, queued, event :: events =>
      let (after, replies) := answersTo service config.limits session kept event
      let total := queued + (encodeAll replies).length
      total ≤ config.maxResponseBytes ∧
        RepliesFit config after (received config.limits kept event.pieces).2
          (leftBy event.writes total) events

instance repliesFitDecidable (config : ServerConfig) :
    (session : Session State) → (kept : Bytes) → (queued : Nat) → (events : List Event) →
      Decidable (RepliesFit service config session kept queued events)
  | _, _, _, [] => .isTrue trivial
  | session, kept, queued, event :: events =>
      @instDecidableAnd _ _ (Nat.decLe _ _)
        (repliesFitDecidable config (answersTo service config.limits session kept event).1
          (received config.limits kept event.pieces).2
          (leftBy event.writes
            (queued + (encodeAll (answersTo service config.limits session kept event).2).length))
          events)

/-- The end of the input is handled while the last `Flush` has been blocked.
`blocked` says whether the one before the events was. -/
def endsBlocked (limits : Limits) : Bool → Session State → Bytes → Nat → List Event → Bool
  | _, _, _, _, [] => false
  | blocked, session, kept, queued, event :: events =>
      if event.isEnd then blocked
      else
        let (after, replies) := answersTo service limits session kept event
        let total := queued + (encodeAll replies).length
        endsBlocked limits (blockedBy event.writes total) after
          (received limits kept event.pieces).2 (leftBy event.writes total) events

/-- Each of the replies is within the limit. -/
theorem RepliesFit.within {config : ServerConfig} {session : Session State} {kept : Bytes}
    {queued : Nat} {events : List Event}
    (fits : RepliesFit service config session kept queued events) :
    ∀ reply ∈ (converse (answerRequest service) session
      (received config.limits kept (piecesOf events)).1).2,
      (encode reply).length ≤ config.maxResponseBytes := by
  induction events generalizing session kept queued with
  | nil => exact List.forall_mem_nil _
  | cons event events inductionHypothesis =>
      obtain ⟨first, later⟩ := fits
      rw [piecesOf, List.flatMap_cons, received_append, converse_append]
      intro reply membership
      rcases List.mem_append.mp membership with early | late
      · have short : (encode reply).length ≤ _ := length_encode_le_of_mem early
        exact short.trans ((Nat.le_add_left _ _).trans first)
      · exact inductionHypothesis later reply late

end

namespace Connection

variable {State : Type}

theorem flush_length (socket : Socket) (connection : Connection State) :
    (connection.flush socket).1.outBuf.length = leftBy socket.writes connection.outBuf.length := by
  rcases socket with ⟨writes, modify⟩
  simp only [flush, Holder.flush]
  induction writes generalizing connection with
  | nil =>
      rw [flushLoop_nil]
      rfl
  | cons write writes inductionHypothesis =>
      rw [flushLoop_cons, leftBy.eq_def]
      simp only
      split
      next empty => simp [empty]
      next queued =>
        have nonempty : ¬ connection.outBuf.length = 0 := by simpa using queued
        rw [if_neg nonempty]
        split
        next => rfl
        next count =>
          rw [inductionHypothesis]
          simp [take]
        next => rfl
        next => exact inductionHypothesis connection
        next => rfl

/-- A `Flush` that does not fail leaves something exactly if it was blocked. -/
theorem blockedBy_iff {socket : Socket} {connection after : Connection State}
    (flushed : connection.flush socket = (after, none)) :
    blockedBy socket.writes connection.outBuf.length = true ↔ after.outBuf ≠ [] := by
  rcases socket with ⟨writes, modify⟩
  simp only [flush, Holder.flush] at flushed ⊢
  induction writes generalizing connection with
  | nil =>
      rw [flushLoop_nil] at flushed
      obtain ⟨rfl, -⟩ := Prod.mk.inj flushed
      simp [blockedBy]
  | cons write writes inductionHypothesis =>
      rw [flushLoop_cons] at flushed
      rw [blockedBy.eq_def]
      simp only
      split at flushed
      next empty =>
        obtain ⟨rfl, -⟩ := Prod.mk.inj flushed
        simp [empty]
      next queued =>
        have nonempty : ¬ connection.outBuf.length = 0 := by simpa using queued
        rw [if_neg nonempty]
        split at flushed
        next => cases flushed
        next count =>
          have later := inductionHypothesis flushed
          simpa [take] using later
        next =>
          obtain ⟨rfl, -⟩ := Prod.mk.inj flushed
          simpa using queued
        next => exact inductionHypothesis flushed
        next => cases flushed

variable [GoTables] {service : Service State} {config : ServerConfig}

/-- The loop queues the replies to the requests in the input. -/
theorem Processed.outBuf {connection : Connection State}
    {outcome : Connection State × Option Failure}
    (processed : Processed service config connection outcome) (finished : outcome.2 = none) :
    outcome.1.outBuf = connection.outBuf ++ encodeAll
      (converse (answerRequest service) connection.session
        (cut config.limits connection.inBuf).1).2 := by
  induction processed with
  | waiting pending =>
      rw [cut_of_pending rfl pending]
      simp [converse, encodeAll]
  | rejected decoded final offered =>
      rw [cut_of_malformed rfl decoded final, writeResponse_ok offered]
      simp [converse, answerRequest, encodeAll]
  | rejectedUnheard => cases finished
  | answered decoded responded _ inductionHypothesis =>
      obtain ⟨unread, session, queued⟩ := respond_ok service config responded
      rw [inductionHypothesis finished, cut_ok rfl decoded, unread, session, queued,
        List.append_assoc]
      rfl
  | answeredUnheard => cases finished

/-- The loop does not fail if the replies fit. -/
theorem Processed.finishes_of_total {connection : Connection State}
    {outcome : Connection State × Option Failure}
    (processed : Processed service config connection outcome)
    (fits : connection.outBuf.length + (encodeAll (converse (answerRequest service)
      connection.session (cut config.limits connection.inBuf).1).2).length ≤
        config.maxResponseBytes) : outcome.2 = none := by
  induction processed with
  | waiting => rfl
  | rejected => rfl
  | rejectedUnheard decoded final offered =>
      rw [cut_of_malformed rfl decoded final] at fits
      simp only [converse, answerRequest, encodeAll, List.append_nil] at fits
      have accepted : (writeResponse config _ _).2 = none := writeResponse_of_fits fits
      cases accepted.symm.trans (congrArg Prod.snd offered)
  | answered decoded responded _ inductionHypothesis =>
      obtain ⟨unread, session, queued⟩ := respond_ok service config responded
      apply inductionHypothesis
      rw [cut_ok rfl decoded] at fits
      simp only [converse, answerRequest, encodeAll, List.length_append] at fits
      rw [unread, session, queued, List.length_append]
      omega
  | @answeredUnheard connection after value rest failure decoded responded =>
      rw [cut_ok rfl decoded] at fits
      simp only [converse, answerRequest, encodeAll, List.length_append] at fits
      have accepted : ({ connection with inBuf := rest }.respond service config value).2 = none :=
        writeResponse_of_fits (show connection.outBuf.length +
          (encode (connection.session.answer service value).2).length ≤ _ by omega)
      rw [responded] at accepted
      cases accepted

/-- A connection that is open was open before. -/
theorem closed_of_run_append {connection : Connection State} {first second : List Event}
    (stays : (connection.run service config (first ++ second)).closed = none) :
    (connection.run service config first).closed = none := by
  by_contra closed
  rw [run_append, run_of_closed service config (Option.isSome_iff_ne_none.mpr closed)] at stays
  exact closed stays

/-- What a `Flush` that does not fail has left of a queue. -/
structure Flushed (writes : List SocketWrite) (total : Nat) (outBuf : Bytes) : Prop where
  left : outBuf.length = leftBy writes total
  blocked : blockedBy writes total = true ↔ outBuf ≠ []

omit [GoTables] in
theorem flush_flushed {socket : Socket} {connection after : Connection State}
    (flushed : connection.flush socket = (after, none)) :
    Flushed socket.writes connection.outBuf.length after.outBuf := by
  refine ⟨?_, blockedBy_iff flushed⟩
  rw [← flush_length, flushed]

theorem processCommands_flushed {socket : Socket} {connection after : Connection State}
    (succeeded : connection.processCommands service config socket = (after, none)) :
    Flushed socket.writes (connection.outBuf.length + (encodeAll (converse (answerRequest service)
      connection.session (cut config.limits connection.inBuf).1).2).length) after.outBuf := by
  rcases processCommands_cases service config socket connection with
    ⟨between, failure, -, same⟩ | ⟨between, processed, same⟩
  · rw [same] at succeeded
    cases succeeded
  · rw [same] at succeeded
    rw [← List.length_append, ← processed.outBuf rfl]
    exact flush_flushed succeeded

variable (service config) in
/-- What an event leaves of the queue of a connection that stays open. -/
theorem step_flushed {connection : Connection State} (opened : connection.closed = none)
    (settled : Pending config.limits connection.inBuf) {event : Event}
    (stays : (connection.step service config event).closed = none) :
    Flushed event.writes (connection.outBuf.length +
      (encodeAll (answersTo service config.limits connection.session connection.inBuf
        event).2).length) (connection.step service config event).outBuf := by
  rw [step_of_open _ _ opened] at stays ⊢
  cases event with
  | read data socket =>
      simp only at stays ⊢
      split at stays
      next => cases stays
      next nonempty =>
        rw [if_neg nonempty]
        split at stays
        next => cases stays
        next within =>
          rw [if_neg within]
          simp only [answersTo, Event.pieces, received, List.append_nil]
          exact processCommands_flushed (Prod.ext rfl stays)
  | drained socket =>
      have flushed := processCommands_flushed (Prod.ext rfl stays :
        connection.processCommands service config socket = (_, none))
      rw [cut_of_pending rfl settled] at flushed
      exact flushed
  | readFailed error => cases stays
  | writable socket =>
      have flushed := flush_flushed (Prod.ext rfl stays : connection.flush socket = (_, none))
      exact flushed
  | dropped => cases stays

variable (service) in
/-- An event that leaves a connection open, and what is known of the connection
then. -/
theorem step_account {connection : Connection State} (opened : connection.closed = none)
    (settled : Pending config.limits connection.inBuf) {event : Event}
    (stays : (connection.step service config event).closed = none) :
    let replies := answersTo service config.limits connection.session connection.inBuf event
    (connection.step service config event).session = replies.1 ∧
      Pending config.limits (connection.step service config event).inBuf ∧
      (connection.step service config event).inBuf =
        (received config.limits connection.inBuf event.pieces).2 := by
  obtain ⟨⟨answered, serves⟩, kept⟩ := step_serves service opened settled event
  obtain ⟨all, unread⟩ := serves.finished stays
  refine ⟨?_, kept stays, unread⟩
  rw [serves.session, all]
  rfl

/-- What a connection that stays open keeps is an incomplete message. -/
theorem run_pending {connection : Connection State} (opened : connection.closed = none)
    (settled : Pending config.limits connection.inBuf) {events : List Event}
    (stays : (connection.run service config events).closed = none) :
    Pending config.limits (connection.run service config events).inBuf := by
  induction events generalizing connection with
  | nil => exact settled
  | cons event events inductionHypothesis =>
      have first : (connection.step service config event).closed = none :=
        closed_of_run_append (show (connection.run service config ([event] ++ events)).closed = none
          from stays)
      exact inductionHypothesis first (step_keeps opened settled first).1 stays

/-! ## Runs that nothing disturbs -/

variable (service config) in
/-- Neither the kernel nor a limit gives a reason to close a connection. -/
structure Undisturbed (connection : Connection State) (events : List Event) : Prop where
  works : ∀ event ∈ events, event.Works
  room : HasRoom config connection.inBuf (piecesOf events)
  replies : RepliesFit service config connection.session connection.inBuf
    connection.outBuf.length events

theorem processCommands_succeeds {socket : Socket} (works : socket.Works)
    {connection : Connection State}
    (fits : connection.outBuf.length + (encodeAll (converse (answerRequest service)
      connection.session (cut config.limits connection.inBuf).1).2).length ≤
        config.maxResponseBytes) :
    (connection.processCommands service config socket).2 = none := by
  rcases processCommands_cases service config socket connection with
    ⟨after, failure, processed, same⟩ | ⟨after, -, same⟩
  · cases processed.finishes_of_total fits
  · rw [same]
    exact flush_works works after

theorem step_undisturbed {connection : Connection State} (opened : connection.closed = none)
    (settled : Pending config.limits connection.inBuf) {event : Event} (works : event.Works)
    (space : ∀ piece ∈ event.pieces,
      connection.inBuf.length + piece.length ≤ config.maxRequestBytes)
    (fits : connection.outBuf.length + (encodeAll (answersTo service config.limits
      connection.session connection.inBuf event).2).length ≤ config.maxResponseBytes) :
    (connection.step service config event).closed = none := by
  rcases step_of_works service opened works space with
    ⟨data, socket, rfl, socketWorks, same⟩ | ⟨socket, rfl, socketWorks, same⟩ |
      ⟨socket, -, socketWorks, same⟩
  · rw [same]
    simp only [answersTo, Event.pieces, received, List.append_nil] at fits
    exact processCommands_succeeds socketWorks fits
  · rw [same]
    apply processCommands_succeeds socketWorks
    rw [cut_of_pending rfl settled]
    exact fits
  · rw [same]
    exact flush_works socketWorks connection

/-- A connection that nothing disturbs stays open. -/
theorem run_undisturbed {connection : Connection State} (opened : connection.closed = none)
    (settled : Pending config.limits connection.inBuf) {events : List Event}
    (undisturbed : connection.Undisturbed service config events) :
    (connection.run service config events).closed = none := by
  induction events generalizing connection with
  | nil => exact opened
  | cons event events inductionHypothesis =>
      obtain ⟨works, room, fits, laterFits⟩ := undisturbed
      rw [List.forall_mem_cons] at works
      obtain ⟨space, laterRoom⟩ := hasRoom_event.mp room
      have stays := step_undisturbed opened settled works.1 space fits
      obtain ⟨session, pending, kept⟩ := step_account service opened settled stays
      have left := (step_flushed service config opened settled stays).left
      apply inductionHypothesis stays pending
      refine ⟨works.2, ?_, ?_⟩
      · rw [kept]
        exact laterRoom
      · rw [session, kept, left]
        exact laterFits

end Connection

end Carrot.Reactor
