import Carrot.Reactor.Requests
import Carrot.Reactor.Response

/-!
# Requests do not depend on the division into reads

A connection answers the requests in its input in order, up to the request with
which it fails.  If nothing fails and nothing is malformed, it does what the
server with a goroutine for each client does with the same input.
-/

namespace Carrot.Reactor

/-! ## Calls of the kernel that succeed -/

def SocketWrite.Works : SocketWrite → Prop
  | .took count => 0 < count
  | .failed _ => False
  | .wouldBlock | .interrupted => True

structure Socket.Works (socket : Socket) : Prop where
  writes : ∀ write ∈ socket.writes, write.Works
  modify : socket.modify = none

/-- Nothing but the connection itself is a reason to close it. -/
def Event.Works : Event → Prop
  | .read data socket => data ≠ [] ∧ socket.Works
  | .drained socket => socket.Works
  | .writable socket => socket.Works
  | .readFailed _ | .dropped => False

/-- What the socket delivers with an event. -/
def Event.pieces : Event → List Bytes
  | .read data _ => [data]
  | _ => []

def piecesOf (events : List Event) : List Bytes := events.flatMap Event.pieces

namespace Connection

variable {State : Type}

theorem flush_fields (socket : Socket) (connection : Connection State) :
    ∃ sent outBuf, (connection.flush socket).1 = { connection with sent, outBuf } ∧
      sent ++ outBuf = connection.sent ++ connection.outBuf := by
  rcases socket with ⟨writes, modify⟩
  simp only [flush, Holder.flush]
  induction writes generalizing connection with
  | nil =>
      rw [flushLoop_nil]
      exact ⟨_, _, rfl, rfl⟩
  | cons write writes inductionHypothesis =>
      rw [flushLoop_cons]
      split
      next => exact ⟨_, _, rfl, rfl⟩
      next =>
        split
        next => exact ⟨_, _, rfl, rfl⟩
        next count =>
          obtain ⟨sent, outBuf, same, whole⟩ := inductionHypothesis (connection.take (count + 1))
          refine ⟨sent, outBuf, same, ?_⟩
          rw [whole, take, List.append_assoc, List.take_append_drop]
        next => exact ⟨_, _, rfl, rfl⟩
        next => exact inductionHypothesis connection
        next => exact ⟨_, _, rfl, rfl⟩

theorem flush_works {socket : Socket} (works : socket.Works) (connection : Connection State) :
    (connection.flush socket).2 = none := by
  rcases socket with ⟨writes, modify⟩
  obtain ⟨writesWork, modified⟩ := works
  simp only at writesWork modified
  subst modified
  simp only [flush, Holder.flush]
  induction writes generalizing connection with
  | nil => rw [flushLoop_nil, Option.map_none]
  | cons write writes inductionHypothesis =>
      rw [List.forall_mem_cons] at writesWork
      rw [flushLoop_cons]
      split
      next => rfl
      next =>
        split
        next => exact absurd writesWork.1 (Nat.lt_irrefl 0)
        next => exact inductionHypothesis _ writesWork.2
        next => rfl
        next => exact inductionHypothesis _ writesWork.2
        next => exact writesWork.1.elim

end Connection

/-! ## Answering requests -/

section

variable [GoTables] {State : Type} (service : Service State)

def answerRequest (session : Session State) : Request → Session State × Value
  | .message value => session.answer service value
  | .malformed cause => (session, Connection.protocolError cause)

theorem converse_messages (session : Session State) (values : List Value) :
    converse (answerRequest service) session (values.map .message) =
      session.answerAll service values := by
  induction values generalizing session with
  | nil => rfl
  | cons value values inductionHypothesis =>
      simp only [List.map_cons, Session.answerAll, converse, inductionHypothesis, answerRequest]

/-- The commands among the messages are executed, and nothing else. -/
theorem converse_executed (session : Session State) (requests : List Request) :
    (converse (answerRequest service) session requests).1.executed =
      session.executed ++ commandsOf (messagesOf requests) := by
  induction requests generalizing session with
  | nil => simp [converse, messagesOf, commandsOf]
  | cons request requests inductionHypothesis =>
      rw [converse]
      simp only
      rw [inductionHypothesis]
      cases request with
      | message value =>
          rw [answerRequest, Session.answer_executed, List.append_assoc, ← commandsOf_append]
          rfl
      | malformed cause => rfl

/-- A connection has answered requests of its input: all of them unless it has
failed. -/
structure Serves (before after : Connection State) (failure : Option Failure)
    (input : List Request × Bytes) (answered : List Request) : Prop where
  started : answered <+: input.1
  session : after.session = (converse (answerRequest service) before.session answered).1
  offered : after.offered.map Offer.response = before.offered.map Offer.response ++
    (converse (answerRequest service) before.session answered).2
  finished : failure = none → answered = input.1 ∧ after.inBuf = input.2
  written : failure = none → after.sent ++ after.outBuf = before.sent ++ before.outBuf ++
    encodeAll (converse (answerRequest service) before.session answered).2

namespace Serves

variable {service} {before between after : Connection State} {failure : Option Failure}

/-- A connection that has no request to answer. -/
theorem idle (same : after.session = before.session) (sameOffers : after.offered = before.offered)
    (sameBytes : after.sent ++ after.outBuf = before.sent ++ before.outBuf)
    (failure : Option Failure) : Serves service before after failure ([], after.inBuf) [] where
  started := List.prefix_rfl
  session := same
  offered := by
    rw [sameOffers]
    exact (List.append_nil _).symm
  finished _ := ⟨rfl, rfl⟩
  written _ := sameBytes.trans (List.append_nil _).symm

/-- A connection that fails before it answers anything. -/
theorem stopped (before : Connection State) (cause : Failure) (input : List Request × Bytes) :
    Serves service before { before with closed := some cause } (some cause) input [] where
  started := List.nil_prefix
  session := rfl
  offered := (List.append_nil _).symm
  finished failed := by cases failed
  written failed := by cases failed

/-- One request is answered. -/
theorem single {config : ServerConfig} (before : Connection State) (request : Request)
    {inBuf : Bytes}
    (offered : { before with
      inBuf, session := (answerRequest service before.session request).1 }.writeResponse config
        (answerRequest service before.session request).2 = (after, failure)) (kept : Bytes) :
    Serves service before { after with inBuf := kept } failure ([request], kept) [request] := by
  cases failure with
  | none =>
      rw [Connection.writeResponse_ok offered]
      exact ⟨List.prefix_rfl, rfl, List.map_append, fun _ => ⟨rfl, rfl⟩, fun _ => by
        simp [Connection.offer, converse, encodeAll]⟩
  | some failure =>
      rw [Connection.writeResponse_failed offered]
      refine ⟨List.prefix_rfl, rfl, List.map_append, fun finished => ?_, fun finished => ?_⟩
      · cases finished
      · cases finished

theorem trans {first second : List Request × Bytes} {answered more : List Request}
    (start : Serves service before between none first answered)
    (next : Serves service between after failure second more) :
    Serves service before after failure (first.1 ++ second.1, second.2) (answered ++ more) where
  started := by
    rw [(start.finished rfl).1]
    exact (List.prefix_append_right_inj _).mpr next.started
  session := by rw [next.session, start.session, converse_append]
  offered := by
    rw [next.offered, start.offered, start.session, converse_append, List.append_assoc]
  finished succeeded :=
    ⟨by rw [(start.finished rfl).1, (next.finished succeeded).1], (next.finished succeeded).2⟩
  written succeeded := by
    rw [next.written succeeded, start.written rfl, start.session, converse_append,
      encodeAll_append, List.append_assoc]

/-- What follows the request with which a connection fails is not answered. -/
theorem extend {cause : Failure} {input longer : List Request × Bytes} {answered : List Request}
    (start : Serves service before after (some cause) input answered)
    (prefixed : input.1 <+: longer.1) :
    Serves service before after (some cause) longer answered where
  started := start.started.trans prefixed
  session := start.session
  offered := start.offered
  finished failed := by cases failed
  written failed := by cases failed

/-- What the socket takes does not matter. -/
theorem flush {input : List Request × Bytes} {answered : List Request}
    (start : Serves service before between none input answered) (socket : Socket) :
    Serves service before (between.flush socket).1 (between.flush socket).2 input answered := by
  obtain ⟨sent, outBuf, same, whole⟩ := between.flush_fields socket
  rw [same]
  exact ⟨start.started, start.session, start.offered, fun _ => start.finished rfl,
    fun _ => whole.trans (start.written rfl)⟩

theorem settle {outcome : Connection State × Option Failure} {input : List Request × Bytes}
    {answered : List Request}
    (start : Serves service before outcome.1 outcome.2 input answered) :
    Serves service before (Connection.settle outcome) (Connection.settle outcome).closed input
      answered :=
  ⟨start.started, start.session, start.offered, start.finished, start.written⟩

end Serves

namespace Connection

variable {service} {config : ServerConfig}

theorem Processed.serves {connection : Connection State}
    {outcome : Connection State × Option Failure}
    (processed : Processed service config connection outcome) :
    ∃ answered,
      Serves service connection outcome.1 outcome.2 (cut config.limits connection.inBuf)
        answered := by
  induction processed with
  | waiting pending =>
      rw [cut_of_pending rfl pending]
      exact ⟨[], .idle rfl rfl rfl none⟩
  | @rejected connection _ cause decoded final offered =>
      rw [cut_of_malformed rfl decoded final]
      exact ⟨[.malformed cause], .single connection (.malformed cause) offered []⟩
  | @rejectedUnheard connection after cause _ decoded final offered =>
      rw [cut_of_malformed rfl decoded final]
      exact ⟨[.malformed cause],
        (Serves.single connection (.malformed cause) offered after.inBuf).extend
        List.prefix_rfl⟩
  | @answered connection after value rest _ decoded responded _ inductionHypothesis =>
      obtain ⟨answered, later⟩ := inductionHypothesis
      have first := Serves.single connection (.message value) responded after.inBuf
      rw [cut_ok rfl decoded, ← (respond_ok service config responded).1]
      exact ⟨.message value :: answered, first.trans later⟩
  | @answeredUnheard connection after value rest _ decoded responded =>
      have first := Serves.single connection (.message value) responded after.inBuf
      rw [cut_ok rfl decoded]
      exact ⟨[.message value], first.extend (List.prefix_append [Request.message value] _)⟩

/-- What the loop keeps is an incomplete message. -/
theorem Processed.settled {connection : Connection State}
    {outcome : Connection State × Option Failure}
    (processed : Processed service config connection outcome) (finished : outcome.2 = none) :
    Pending config.limits outcome.1.inBuf := by
  induction processed with
  | waiting pending => exact pending
  | rejected => exact pending_nil rfl
  | rejectedUnheard => cases finished
  | answered _ _ _ inductionHypothesis => exact inductionHypothesis finished
  | answeredUnheard => cases finished

variable (service config) in
theorem processCommands_serves (socket : Socket) (connection : Connection State) :
    (∃ answered,
      Serves service connection (connection.processCommands service config socket).1
        (connection.processCommands service config socket).2 (cut config.limits connection.inBuf)
        answered) ∧
      ((connection.processCommands service config socket).2 = none →
        Pending config.limits (connection.processCommands service config socket).1.inBuf) := by
  rcases processCommands_cases service config socket connection with
    ⟨after, failure, processed, same⟩ | ⟨after, processed, same⟩
  · obtain ⟨answered, serves⟩ := processed.serves
    rw [same]
    exact ⟨⟨answered, serves⟩, fun finished => by cases finished⟩
  · obtain ⟨answered, serves⟩ := processed.serves
    rw [same]
    refine ⟨⟨answered, serves.flush socket⟩, fun _ => ?_⟩
    obtain ⟨sent, outBuf, written, -⟩ := after.flush_fields socket
    rw [written]
    exact processed.settled rfl

variable (service) in
/-- One event: the requests that it completes are answered, up to a failure. -/
theorem step_serves {connection : Connection State} (opened : connection.closed = none)
    (settled : Pending config.limits connection.inBuf) (event : Event) :
    (∃ answered,
      Serves service connection (connection.step service config event)
        (connection.step service config event).closed
        (received config.limits connection.inBuf event.pieces) answered) ∧
      ((connection.step service config event).closed = none →
        Pending config.limits (connection.step service config event).inBuf) := by
  rw [step_of_open _ _ opened]
  cases event with
  | read data socket =>
      simp only [Event.pieces, received, List.append_nil]
      split
      next => exact ⟨⟨[], .stopped connection .eof _⟩, fun opened => by cases opened⟩
      next =>
        split
        next => exact ⟨⟨[], .stopped connection .inputLimit _⟩, fun opened => by cases opened⟩
        next =>
          obtain ⟨⟨answered, serves⟩, kept⟩ := processCommands_serves service config socket
            { connection with inBuf := connection.inBuf ++ data }
          exact ⟨⟨answered, ⟨serves.started, serves.session, serves.offered, serves.finished,
            serves.written⟩⟩, kept⟩
  | drained socket =>
      obtain ⟨⟨answered, serves⟩, kept⟩ := processCommands_serves service config socket connection
      rw [cut_of_pending rfl settled] at serves
      exact ⟨⟨answered, serves.settle⟩, kept⟩
  | readFailed error =>
      exact ⟨⟨[], .stopped connection (.read error) _⟩, fun opened => by cases opened⟩
  | writable socket =>
      have quiet : Serves service connection connection none ([], connection.inBuf) [] :=
        .idle rfl rfl rfl none
      refine ⟨⟨[], (quiet.flush socket).settle⟩, fun _ => ?_⟩
      obtain ⟨sent, outBuf, same, _⟩ := connection.flush_fields socket
      simp only [Connection.settle, same]
      exact settled
  | dropped => exact ⟨⟨[], .stopped connection .dropped _⟩, fun opened => by cases opened⟩

variable (service) in
/-- A run: the requests in the input are answered, up to a failure. -/
theorem run_serves {connection : Connection State} (opened : connection.closed = none)
    (settled : Pending config.limits connection.inBuf) (events : List Event) :
    ∃ answered,
      Serves service connection (connection.run service config events)
        (connection.run service config events).closed
        (received config.limits connection.inBuf (piecesOf events)) answered := by
  induction events generalizing connection with
  | nil =>
      refine ⟨[], ?_⟩
      have quiet : Serves service connection connection connection.closed
        ([], connection.inBuf) [] := .idle rfl rfl rfl _
      exact quiet
  | cons event events inductionHypothesis =>
      obtain ⟨⟨answered, first⟩, kept⟩ := step_serves service opened settled event
      rw [piecesOf, List.flatMap_cons, received_append]
      cases outcome : (connection.step service config event).closed with
      | none =>
          obtain ⟨more, later⟩ := inductionHypothesis outcome (kept outcome)
          rw [outcome] at first
          rw [(first.finished rfl).2] at later
          exact ⟨answered ++ more, first.trans later⟩
      | some failure =>
          have unchanged : connection.run service config (event :: events) =
              connection.step service config event :=
            run_of_closed service config (by rw [outcome]; rfl) events
          rw [unchanged, outcome]
          rw [outcome] at first
          exact ⟨answered, first.extend (List.prefix_append _ _)⟩

/-! ## Runs without a failure -/

omit [GoTables] in
theorem not_fits_of_failed {connection after : Connection State} {value : Value}
    {failure : Failure}
    (failed : connection.writeResponse config value = (after, some failure))
    (fits : ∀ offer ∈ after.offered, offer.Fits config) : False := by
  rw [writeResponse_failed failed] at fits
  have accepted := writeResponse_of_fits (fits _ (List.mem_append_right _ List.mem_cons_self))
  rw [failed] at accepted
  cases accepted

theorem Processed.finishes {connection : Connection State}
    {outcome : Connection State × Option Failure}
    (processed : Processed service config connection outcome)
    (fits : ∀ offer ∈ outcome.1.offered, offer.Fits config) : outcome.2 = none := by
  induction processed with
  | waiting => rfl
  | rejected => rfl
  | rejectedUnheard _ _ offered => exact (not_fits_of_failed offered fits).elim
  | answered _ _ _ inductionHypothesis => exact inductionHypothesis fits
  | answeredUnheard _ responded => exact (not_fits_of_failed responded fits).elim

theorem processCommands_finishes {socket : Socket} (works : socket.Works)
    {connection : Connection State}
    (fits : ∀ offer ∈ (connection.processCommands service config socket).1.offered,
      offer.Fits config) :
    (connection.processCommands service config socket).2 = none := by
  rcases processCommands_cases service config socket connection with
    ⟨after, failure, processed, same⟩ | ⟨after, -, same⟩
  · rw [same] at fits ⊢
    exact processed.finishes fits
  · rw [same]
    exact flush_works works after

variable (service config) in
/-- No read brings more than there is space for. -/
def InputFits (connection : Connection State) (events : List Event) : Prop :=
  ∀ before data socket after, events = before ++ .read data socket :: after →
    (connection.run service config before).inBuf.length + data.length ≤ config.maxRequestBytes

theorem inputFits_nil (connection : Connection State) : connection.InputFits service config [] := by
  intro before data socket after impossible
  simp at impossible

theorem inputFits_cons {connection : Connection State} {event : Event} {events : List Event} :
    connection.InputFits service config (event :: events) ↔
      (∀ piece ∈ event.pieces, connection.inBuf.length + piece.length ≤ config.maxRequestBytes) ∧
        (connection.step service config event).InputFits service config events := by
  constructor
  · intro inputFits
    constructor
    · intro piece membership
      cases event with
      | read data socket =>
          rw [List.mem_singleton.mp membership]
          exact inputFits [] data socket events rfl
      | _ => cases membership
    · intro before data socket after same
      exact inputFits (event :: before) data socket after (congrArg (event :: ·) same)
  · rintro ⟨first, later⟩ before data socket after same
    cases before with
    | nil =>
        cases same
        exact first data List.mem_cons_self
    | cons earlier before =>
        cases same
        exact later before data socket after rfl

variable (service) in
/-- What an event does when the kernel works and there is space for its data. -/
theorem step_of_works {connection : Connection State} (opened : connection.closed = none)
    {event : Event} (works : event.Works)
    (space : ∀ piece ∈ event.pieces,
      connection.inBuf.length + piece.length ≤ config.maxRequestBytes) :
    (∃ data socket, event = .read data socket ∧ socket.Works ∧
      connection.step service config event = settle
        ({ connection with inBuf := connection.inBuf ++ data }.processCommands service config
          socket)) ∨
    (∃ socket, event = .drained socket ∧ socket.Works ∧
      connection.step service config event =
        settle (connection.processCommands service config socket)) ∨
    ∃ socket, event = .writable socket ∧ socket.Works ∧
      connection.step service config event = settle (connection.flush socket) := by
  rw [step_of_open _ _ opened]
  cases event with
  | read data socket =>
      obtain ⟨nonempty, socketWorks⟩ := works
      have within : ¬ data.length > config.maxRequestBytes - connection.inBuf.length := by
        have sum := space data List.mem_cons_self
        omega
      refine .inl ⟨data, socket, rfl, socketWorks, ?_⟩
      simp only [if_neg nonempty, if_neg within]
  | drained socket => exact .inr (.inl ⟨socket, rfl, works, rfl⟩)
  | writable socket => exact .inr (.inr ⟨socket, rfl, works, rfl⟩)
  | readFailed error => exact works.elim
  | dropped => exact works.elim

theorem step_stays_open {connection : Connection State} (opened : connection.closed = none)
    {event : Event} (works : event.Works)
    (space : ∀ piece ∈ event.pieces,
      connection.inBuf.length + piece.length ≤ config.maxRequestBytes)
    (fits : ∀ offer ∈ (connection.step service config event).offered, offer.Fits config) :
    (connection.step service config event).closed = none := by
  rcases step_of_works service opened works space with
    ⟨data, socket, -, socketWorks, same⟩ | ⟨socket, -, socketWorks, same⟩ |
      ⟨socket, -, socketWorks, same⟩
  · rw [same] at fits ⊢
    exact processCommands_finishes socketWorks fits
  · rw [same] at fits ⊢
    exact processCommands_finishes socketWorks fits
  · rw [same]
    exact flush_works socketWorks connection

theorem run_stays_open {connection : Connection State} (opened : connection.closed = none)
    {events : List Event} (works : ∀ event ∈ events, event.Works)
    (inputFits : connection.InputFits service config events)
    (fits : ∀ offer ∈ (connection.run service config events).offered, offer.Fits config) :
    (connection.run service config events).closed = none := by
  induction events generalizing connection with
  | nil => exact opened
  | cons event events inductionHypothesis =>
      rw [List.forall_mem_cons] at works
      have recorded := offered_prefix_of_moves (run_moves service config
        (connection.step service config event) events)
      obtain ⟨space, later⟩ := inputFits_cons.mp inputFits
      refine inductionHypothesis ?_ works.2 later fits
      exact step_stays_open opened works.1 space fun offer membership =>
        fits offer (recorded.subset membership)

/-! ## The same conversation as on the other server -/

variable (service config) in
/-- What a connection has done with a stream of complete messages and the
beginning of one more. -/
structure Framed (state : State) (events : List Event) (values : List Value) (unread : Bytes) :
    Prop where
  opened : ((new state).run service config events).closed = none
  executed : ((new state).run service config events).session.executed = commandsOf values
  replies : ((new state).run service config events).offered.map Offer.response =
    (Session.answerAll service ⟨state, []⟩ values).2
  queued : ((new state).run service config events).sent ++
      ((new state).run service config events).outBuf =
    encodeAll (Session.answerAll service ⟨state, []⟩ values).2
  unread : ((new state).run service config events).inBuf = unread
  sameSession : ((new state).run service config events).session =
    (Server.handleClient service config (fun _ => .working) state (piecesOf events).flatten).session
  sameReplies : ((new state).run service config events).offered.map Offer.response =
    (Server.handleClient service config (fun _ => .working) state (piecesOf events).flatten).replies

/-- A stream of messages that the decoder accepts, and the beginning of one more,
is answered message by message however it is divided into reads. -/
theorem run_independent_of_reads (service : Service State) (config : ServerConfig) (state : State)
    {pieces : List (Bytes × Value)}
    (accepted : ∀ piece ∈ pieces, decode config.limits piece.1 = .ok (piece.2, []))
    {arrived missing : Bytes} {next : Value}
    (incomplete : decode config.limits (arrived ++ missing) = .ok (next, []))
    (partly : missing ≠ []) {events : List Event}
    (stream : (piecesOf events).flatten = (pieces.map Prod.fst).flatten ++ arrived)
    (works : ∀ event ∈ events, event.Works)
    (inputFits : (new state).InputFits service config events)
    (fits : ∀ offer ∈ ((new state).run service config events).offered, offer.Fits config) :
    Framed service config state events (pieces.map Prod.snd) arrived := by
  have opened := run_stays_open rfl works inputFits fits
  have frames : Frames config.limits (piecesOf events).flatten (pieces.map Prod.snd) arrived := by
    rw [stream]
    exact .of_accepted rfl accepted arrived
  have pending : Pending config.limits arrived := pending_of_accepted rfl incomplete partly
  have whole : received config.limits [] (piecesOf events) =
      ((pieces.map Prod.snd).map .message, arrived) := by
    have once : cut config.limits ([] ++ (piecesOf events).flatten) =
        ((pieces.map Prod.snd).map .message, arrived) := by
      rw [List.nil_append, cut_of_frames rfl frames, cut_of_pending rfl pending, List.append_nil]
    rw [received_eq_cut rfl (pending_nil rfl), once]
    intro cause membership
    rw [once] at membership
    simp at membership
  obtain ⟨answered, serves⟩ := run_serves service (show (new state).closed = none from rfl)
    (pending_nil rfl : Pending config.limits (new state).inBuf) events
  obtain ⟨all, kept⟩ := serves.finished opened
  have session := serves.session
  have replies := serves.offered
  have queued := serves.written opened
  rw [all, show received config.limits (new state).inBuf (piecesOf events) = _ from whole,
    converse_messages] at session replies queued
  have within : ∀ reply ∈ (Session.answerAll service ⟨state, []⟩ (pieces.map Prod.snd)).2,
      (encode reply).length ≤ config.maxResponseBytes := by
    intro reply membership
    have written : reply ∈ ((new state).run service config events).offered.map Offer.response := by
      rw [replies]
      exact membership
    obtain ⟨offer, recorded, rfl⟩ := List.mem_map.mp written
    exact (Nat.le_add_left _ _).trans (fits offer recorded)
  obtain ⟨cause, ends, -⟩ := pending
  have served := Server.handleClient_frames service frames ends state within
  exact {
    opened := opened
    executed := by
      rw [session, Session.answerAll_executed]
      rfl
    replies := replies
    queued := queued
    unread := by
      rw [kept]
      exact congrArg Prod.snd whole
    sameSession := by
      rw [session, served]
      rfl
    sameReplies := by
      rw [replies, served]
      rfl }

end Connection

end

section

attribute [local instance] GoTables.ascii

/-- One request in two reads, and the beginning of another one. -/
theorem Connection.run_independent_of_reads_ping :
    let service := Executor.service (World.still ⟨0, by decide⟩) false fun _ => .alone
    let socket : Socket := ⟨[.took 3, .wouldBlock], none⟩
    Framed service ⟨1000, 1000⟩ (Executor.new .always 0 false, 0)
      [.read (bytes "*1\r\n$4\r\nPI") socket, .read (bytes "NG\r\n*1\r\n") socket, .drained socket]
      [.array [.bulkString (bytes "PING")]] (bytes "*1\r\n") := by
  intro service socket
  have accepted : ∀ piece ∈
      [(bytes "*1\r\n$4\r\nPING\r\n", Value.array [.bulkString (bytes "PING")])],
      decode (ServerConfig.limits ⟨1000, 1000⟩) piece.1 = .ok (piece.2, []) := by
    simp only [List.mem_singleton, forall_eq]
    rfl
  have incomplete : decode (ServerConfig.limits ⟨1000, 1000⟩)
      (bytes "*1\r\n" ++ bytes "$4\r\nPING\r\n") =
        .ok (.array [.bulkString (bytes "PING")], []) := rfl
  have works : socket.Works := ⟨by simp [socket, SocketWrite.Works], rfl⟩
  refine run_independent_of_reads service ⟨1000, 1000⟩ _ accepted incomplete (by decide) rfl ?_ ?_
    (by decide +kernel)
  · simp only [List.forall_mem_cons, Event.Works, works, and_true]
    exact ⟨by decide, by decide, trivial, List.forall_mem_nil _⟩
  · rw [inputFits_cons, inputFits_cons, inputFits_cons]
    exact ⟨by decide +kernel, by decide +kernel, List.forall_mem_nil _, inputFits_nil _⟩

end

end Carrot.Reactor
