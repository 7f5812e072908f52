import Carrot.Reactor.Framing

/-!
# The event loop and one of its clients

`handleClientEvent` calls the methods of a connection for the bits that `epoll`
reports.  A client is a connection together with the events of interest of its
socket: `Flush` asks for writability when the socket is full, and gives it up
when everything is written.  Seen without the events of interest, handling an
event is a run of the connection.
-/

namespace Carrot.Reactor

/-- A connection and whether `EPOLLOUT` is among the events of interest. -/
structure Client (State : Type) where
  connection : Connection State
  armed : Bool

namespace Client

variable {State : Type}

/-- An accepted client, registered for the default events. -/
def new (state : State) : Client State := ⟨.new state, false⟩

def holder : Holder State (Client State) where
  connection := connection
  setConnection client connection := { client with connection }
  active := id
  startWrite := id
  endWrite := id
  arm armed client := { client with armed }

/-- A client without the events of interest is a connection. -/
theorem view : holder.View Connection.holder (connection : Client State → Connection State) where
  connection _ := rfl
  setConnection _ _ := rfl
  active _ := rfl
  startWrite _ := rfl
  endWrite _ := rfl
  arm _ _ := rfl

def flush (socket : Socket) (client : Client State) : Client State × Option Failure :=
  holder.flush socket client

/-- `closeClient`.  Nothing happens to the socket any more. -/
def close (failure : Failure) (client : Client State) : Client State :=
  { client with connection := { client.connection with closed := some failure } }

/-- The event loop closes a client whose method fails. -/
def settle (result : Client State × Option Failure) : Client State :=
  match result with
  | (client, some failure) => client.close failure
  | (client, none) => client

section

variable [GoTables] (service : Service State) (config : ServerConfig)

def processCommands (socket : Socket) (client : Client State) : Client State × Option Failure :=
  holder.processCommands service config socket client

def onRead (drained : Socket) (reads : List SocketRead) (client : Client State) :
    Client State × Option Failure :=
  holder.readLoop service config drained reads client

def handleClientEvent (client : Client State) (ready : Ready) : Client State :=
  if client.connection.closed.isSome then client
  else settle (ready.handle (onRead service config) flush .dropped client)

/-- The events of one client, as they are reported one after the other. -/
def run (client : Client State) (history : List Ready) : Client State :=
  history.foldl (handleClientEvent service config) client

end

end Client

/-! ## The connection of a client -/

/-- What happens to a connection during `OnRead`. -/
def readEvents (drained : Socket) : List SocketRead → List Event
  | [] => [.drained drained]
  | .took data socket :: reads => .read data socket :: readEvents drained reads
  | .wouldBlock :: _ => [.drained drained]
  | .interrupted :: reads => readEvents drained reads
  | .failed error :: _ => [.readFailed error]

/-- What happens to a connection when the bits are handled. -/
def Ready.events (ready : Ready) : List Event :=
  (if ready.epollIn then readEvents ready.drained ready.reads else []) ++
    if (ready.epollErr ∨ ready.epollHup ∨ ready.epollRdHup) ∧ ¬ ready.epollIn then [.dropped]
    else if ready.epollOut then [.writable ready.flushed]
    else []

namespace Connection

variable {State : Type} [GoTables] {service : Service State} {config : ServerConfig}

omit [GoTables] in
theorem writeResponse_closed {connection after : Connection State} {value : Value}
    {failure : Option Failure}
    (offered : connection.writeResponse config value = (after, failure)) :
    after.closed = connection.closed := by
  cases failure with
  | none =>
      rw [writeResponse_ok offered]
      rfl
  | some failure =>
      rw [writeResponse_failed offered]
      rfl

theorem respond_closed {connection after : Connection State} {value : Value} {rest : Bytes}
    {failure : Option Failure}
    (responded : { connection with inBuf := rest }.respond service config value =
      (after, failure)) : after.closed = connection.closed := by
  let session := connection.session.answer service value
  have queued : { connection with inBuf := rest, session := session.1 }.writeResponse config
      session.2 = (after, failure) := responded
  have kept := writeResponse_closed queued
  exact kept

theorem Processed.closed {connection : Connection State}
    {outcome : Connection State × Option Failure}
    (processed : Processed service config connection outcome) :
    outcome.1.closed = connection.closed := by
  induction processed with
  | waiting => rfl
  | @rejected _ after _ _ _ offered =>
      change after.closed = _
      exact writeResponse_closed offered
  | rejectedUnheard _ _ offered => exact writeResponse_closed offered
  | answered _ responded _ inductionHypothesis =>
      exact inductionHypothesis.trans (respond_closed responded)
  | answeredUnheard _ responded => exact respond_closed responded

omit [GoTables] in
theorem flush_closed (socket : Socket) (connection : Connection State) :
    (connection.flush socket).1.closed = connection.closed := by
  obtain ⟨sent, outBuf, same, -⟩ := connection.flush_fields socket
  rw [same]

variable (service config) in
theorem processCommands_closed (socket : Socket) (connection : Connection State) :
    (connection.processCommands service config socket).1.closed = connection.closed := by
  rcases processCommands_cases service config socket connection with
    ⟨after, failure, processed, same⟩ | ⟨after, processed, same⟩
  · rw [same]
    exact processed.closed
  · rw [same]
    exact (flush_closed socket after).trans processed.closed

variable (service config) in
theorem receive_closed (data : Bytes) (socket : Socket) (connection : Connection State) :
    (connection.receive service config data socket).1.closed = connection.closed := by
  rw [receive, Holder.receive]
  split
  next => rfl
  next =>
    split
    next => rfl
    next => exact processCommands_closed service config socket _

variable (service config) in
/-- `OnRead` leaves closing to the event loop. -/
theorem readLoop_closed (drained : Socket) (reads : List SocketRead)
    (connection : Connection State) :
    (holder.readLoop service config drained reads connection).1.closed = connection.closed := by
  induction reads generalizing connection with
  | nil => exact processCommands_closed service config drained connection
  | cons read reads inductionHypothesis =>
      cases read with
      | took data socket =>
          have kept := receive_closed service config data socket connection
          rw [Holder.readLoop]
          change (andThen (connection.receive service config data socket) _).1.closed = _
          generalize connection.receive service config data socket = result at kept ⊢
          rcases result with ⟨after, _ | failure⟩
          · exact (inductionHypothesis after).trans kept
          · exact kept
      | wouldBlock => exact processCommands_closed service config drained connection
      | interrupted => exact inductionHypothesis connection
      | failed error => rfl

omit [GoTables] in
/-- Nothing is left to close after a method that did not fail. -/
theorem settle_none {connection : Connection State} (opened : connection.closed = none) :
    settle (connection, none) = connection := by
  rw [settle, ← opened]

/-- `OnRead` is a run of the connection. -/
theorem readLoop_run {connection : Connection State} (opened : connection.closed = none)
    (drained : Socket) (reads : List SocketRead) :
    settle (holder.readLoop service config drained reads connection) =
      connection.run service config (readEvents drained reads) := by
  have ends (after : Connection State) (afterOpen : after.closed = none) :
      settle (after.processCommands service config drained) =
        after.step service config (.drained drained) :=
    (step_of_open service config afterOpen (.drained drained)).symm
  induction reads generalizing connection with
  | nil => exact ends connection opened
  | cons read reads inductionHypothesis =>
      cases read with
      | took data socket =>
          have first : connection.step service config (.read data socket) =
              settle (connection.receive service config data socket) := by
            rw [step, if_neg (by simp [opened])]
          have kept := receive_closed service config data socket connection
          rw [readEvents, run, List.foldl_cons, first, ← run, Holder.readLoop]
          change settle (andThen (connection.receive service config data socket) _) = _
          generalize connection.receive service config data socket = result at kept ⊢
          rcases result with ⟨after, _ | failure⟩
          · have afterOpen : after.closed = none := kept.trans opened
            rw [settle_none afterOpen]
            exact inductionHypothesis afterOpen
          · rw [run_of_closed service config rfl]
            rfl
      | wouldBlock => exact ends connection opened
      | interrupted => exact inductionHypothesis opened
      | failed error => exact (step_of_open service config opened (.readFailed error)).symm

variable (service config) in
/-- Handling the bits of an event is a run of the connection. -/
theorem handle_run {connection : Connection State} (opened : connection.closed = none)
    (ready : Ready) :
    settle (ready.handle (holder.readLoop service config) flush .dropped connection) =
      connection.run service config ready.events := by
  have first :
      let result := if ready.epollIn then
          holder.readLoop service config ready.drained ready.reads connection
        else (connection, none)
      settle result = connection.run service config
          (if ready.epollIn then readEvents ready.drained ready.reads else []) ∧
        result.1.closed = none := by
    dsimp only
    split
    next =>
      exact ⟨readLoop_run opened _ _,
        (readLoop_closed service config _ _ connection).trans opened⟩
    next => exact ⟨settle_none opened, opened⟩
  obtain ⟨same, stays⟩ := first
  rw [Ready.events, run_append, ← same, Ready.handle]
  generalize (if ready.epollIn then
    holder.readLoop service config ready.drained ready.reads connection
    else (connection, none)) = result at stays ⊢
  rcases result with ⟨after, _ | failure⟩
  · replace stays : after.closed = none := stays
    rw [settle_none stays, andThen]
    split
    next => exact (step_of_open service config stays .dropped).symm
    next =>
      split
      next => exact (step_of_open service config stays (.writable ready.flushed)).symm
      next => exact settle_none stays
  · rw [run_of_closed service config rfl]
    rfl

variable (service config) in
theorem handle_closed (ready : Ready) (connection : Connection State) :
    (ready.handle (holder.readLoop service config) flush .dropped connection).1.closed =
      connection.closed := by
  have first : (if ready.epollIn then
      holder.readLoop service config ready.drained ready.reads connection
      else (connection, none)).1.closed = connection.closed := by
    split
    next => exact readLoop_closed service config _ _ connection
    next => rfl
  rw [Ready.handle]
  generalize (if ready.epollIn then
    holder.readLoop service config ready.drained ready.reads connection
    else (connection, none)) = result at first ⊢
  rcases result with ⟨after, _ | failure⟩
  · rw [andThen]
    split
    next => exact first
    next =>
      split
      next => exact (flush_closed ready.flushed after).trans first
      next => exact first
  · exact first

end Connection

/-- Handling the bits commutes with a view of what handles them. -/
theorem Ready.map_handle {Upper Lower Cause : Type} {view : Upper → Lower} (ready : Ready)
    {onRead : Socket → List SocketRead → Upper → Upper × Option Cause}
    {onReadSeen : Socket → List SocketRead → Lower → Lower × Option Cause}
    {onWrite : Socket → Upper → Upper × Option Cause}
    {onWriteSeen : Socket → Lower → Lower × Option Cause} (dropped : Cause)
    (reads : ∀ drained reads held,
      Prod.map view id (onRead drained reads held) = onReadSeen drained reads (view held))
    (writes : ∀ socket held,
      Prod.map view id (onWrite socket held) = onWriteSeen socket (view held))
    (held : Upper) :
    Prod.map view id (ready.handle onRead onWrite dropped held) =
      ready.handle onReadSeen onWriteSeen dropped (view held) := by
  rw [handle, handle, map_andThen]
  · rw [← reads, apply_ite (Prod.map view id)]
    rfl
  · intro after
    rw [← writes, apply_ite (Prod.map view id), apply_ite (Prod.map view id)]
    rfl

namespace Client

variable {State : Type}

/-- The connection of a client and the failure of the method that was called. -/
def outcome (result : Client State × Option Failure) : Connection State × Option Failure :=
  Prod.map connection id result

theorem flush_outcome (socket : Socket) (client : Client State) :
    outcome (client.flush socket) = client.connection.flush socket :=
  view.flush socket client

variable [GoTables] {service : Service State} {config : ServerConfig}

variable (service config) in
theorem processCommands_outcome (socket : Socket) (client : Client State) :
    outcome (client.processCommands service config socket) =
      client.connection.processCommands service config socket :=
  view.processCommands service config socket client

variable (service config) in
theorem onRead_outcome (drained : Socket) (reads : List SocketRead) (client : Client State) :
    outcome (client.onRead service config drained reads) =
      Connection.holder.readLoop service config drained reads client.connection :=
  view.readLoop service config drained reads client

variable (service config) in
theorem handle_outcome (client : Client State) (ready : Ready) :
    outcome (ready.handle (onRead service config) flush .dropped client) =
      ready.handle (Connection.holder.readLoop service config) Connection.flush .dropped
        client.connection :=
  ready.map_handle Failure.dropped (onRead_outcome service config) flush_outcome client

omit [GoTables] in
/-- Closing a client is closing its connection. -/
theorem settle_connection {result : Client State × Option Failure}
    (opened : result.1.connection.closed = none) :
    (settle result).connection = Connection.settle (outcome result) := by
  rcases result with ⟨after, _ | failure⟩
  · exact (Connection.settle_none opened).symm
  · rfl

/-- Handling the bits of an event is a run of the connection. -/
theorem handleClientEvent_connection (client : Client State) (ready : Ready) :
    (client.handleClientEvent service config ready).connection =
      client.connection.run service config ready.events := by
  by_cases closed : client.connection.closed.isSome
  · rw [handleClientEvent, if_pos closed, Connection.run_of_closed service config closed]
  have opened : client.connection.closed = none := by simpa using closed
  have same := client.handle_outcome service config ready
  have stays := Connection.handle_closed service config ready client.connection
  rw [← same] at stays
  rw [handleClientEvent, if_neg closed, settle_connection, same,
    Connection.handle_run service config opened]
  exact stays.trans opened

theorem run_connection (client : Client State) (history : List Ready) :
    (client.run service config history).connection =
      client.connection.run service config (history.flatMap Ready.events) := by
  induction history generalizing client with
  | nil => rfl
  | cons ready history inductionHypothesis =>
      rw [List.flatMap_cons, Connection.run_append, ← handleClientEvent_connection]
      exact inductionHypothesis _

/-! ## The events of interest -/

/-- Writability is of interest exactly if there is something to write. -/
def Alert (client : Client State) : Prop :=
  client.armed = true ↔ client.connection.outBuf ≠ []

omit [GoTables] in
theorem new_alert (state : State) : (new state).Alert :=
  ⟨nofun, fun queued => absurd rfl queued⟩

omit [GoTables] in
theorem modify_alert {error : Option Bytes} {armed : Bool} {client after : Client State}
    (modified : holder.modify error armed client = (after, none))
    (right : armed = true ↔ client.connection.outBuf ≠ []) : after.Alert := by
  cases error with
  | some error => cases modified
  | none =>
      cases modified
      exact right

omit [GoTables] in
/-- `Flush` asks for writability exactly if it leaves something to write. -/
theorem flush_alert {socket : Socket} {client after : Client State}
    (flushed : client.flush socket = (after, none)) : after.Alert := by
  rcases socket with ⟨writes, error⟩
  simp only [flush, Holder.flush] at flushed
  induction writes generalizing client with
  | nil =>
      rw [Holder.flushLoop] at flushed
      split at flushed
      next empty =>
        exact modify_alert flushed
          ⟨fun armed => absurd armed Bool.false_ne_true, fun queued => absurd empty queued⟩
      next queued => exact modify_alert flushed ⟨fun _ => queued, fun _ => rfl⟩
  | cons write writes inductionHypothesis =>
      rw [Holder.flushLoop.eq_def] at flushed
      simp only at flushed
      split at flushed
      next empty =>
        exact modify_alert flushed
          ⟨fun armed => absurd armed Bool.false_ne_true, fun queued => absurd empty queued⟩
      next queued =>
        split at flushed
        next => cases flushed
        next => exact inductionHypothesis flushed
        next => exact modify_alert flushed ⟨fun _ => queued, fun _ => rfl⟩
        next => exact inductionHypothesis flushed
        next => cases flushed

theorem processCommands_alert {socket : Socket} {client after : Client State}
    (processed : client.processCommands service config socket = (after, none)) :
    after.Alert := by
  rw [processCommands, Holder.processCommands] at processed
  generalize holder.processLoop service config (holder.connection client).inBuf.length client =
    result at processed
  rcases result with ⟨between, _ | failure⟩
  · exact flush_alert processed
  · cases processed

/-- Nothing but the end of the input has closed a connection. -/
def Orderly : Option Failure → Prop
  | none | some .eof | some .dropped => True
  | _ => False

omit [GoTables] in
theorem not_orderly_of_output {failure : Failure}
    (output : Connection.OutputFails (some failure)) : ¬ Orderly (some failure) := by
  cases failure with
  | inputLimit | eof | read | dropped => exact output.elim
  | _ => exact id

omit [GoTables] in
theorem flush_orderly {socket : Socket} {client after : Client State} {failure : Option Failure}
    (flushed : client.flush socket = (after, failure)) (orderly : Orderly failure) :
    failure = none ∧ after.Alert := by
  cases failure with
  | none => exact ⟨rfl, flush_alert flushed⟩
  | some failure =>
      have output := Connection.flush_fails socket client.connection
      rw [← flush_outcome, flushed] at output
      exact (not_orderly_of_output output orderly).elim

theorem processCommands_orderly {socket : Socket} {client after : Client State}
    {failure : Option Failure}
    (processed : client.processCommands service config socket = (after, failure))
    (orderly : Orderly failure) : failure = none ∧ after.Alert := by
  cases failure with
  | none => exact ⟨rfl, processCommands_alert processed⟩
  | some failure =>
      have output := Connection.processCommands_fails service config socket client.connection
      rw [← processCommands_outcome, processed] at output
      exact (not_orderly_of_output output orderly).elim

theorem receive_alert {data : Bytes} {socket : Socket} {client after : Client State}
    {failure : Option Failure} (alert : client.Alert)
    (result : holder.receive service config data socket client = (after, failure))
    (orderly : Orderly failure) : after.Alert := by
  rw [Holder.receive] at result
  split at result
  next =>
    cases result
    exact alert
  next =>
    split at result
    next =>
      cases result
      exact orderly.elim
    next => exact (processCommands_orderly result orderly).2

theorem onRead_alert {drained : Socket} {reads : List SocketRead} {client after : Client State}
    {failure : Option Failure} (alert : client.Alert)
    (result : client.onRead service config drained reads = (after, failure))
    (orderly : Orderly failure) : after.Alert := by
  induction reads generalizing client with
  | nil => exact (processCommands_orderly result orderly).2
  | cons read reads inductionHypothesis =>
      cases read with
      | took data socket =>
          rw [onRead, Holder.readLoop] at result
          rcases received : holder.receive service config data socket client with
            ⟨between, _ | cause⟩
          · rw [received] at result
            exact inductionHypothesis (receive_alert alert received trivial) result
          · rw [received] at result
            cases result
            exact receive_alert alert received orderly
      | wouldBlock => exact (processCommands_orderly result orderly).2
      | interrupted => exact inductionHypothesis alert result
      | failed error =>
          cases result
          exact orderly.elim

theorem handle_alert {client after : Client State} (alert : client.Alert) {ready : Ready}
    {failure : Option Failure}
    (result : ready.handle (onRead service config) flush .dropped client = (after, failure))
    (orderly : Orderly failure) : after.Alert := by
  have first : ∀ between cause,
      (if ready.epollIn then client.onRead service config ready.drained ready.reads
        else (client, none)) = (between, cause) → Orderly cause → between.Alert := by
    intro between cause reads finished
    split at reads
    next => exact onRead_alert alert reads finished
    next =>
      cases reads
      exact alert
  rw [Ready.handle] at result
  generalize (if ready.epollIn then client.onRead service config ready.drained ready.reads
    else (client, none)) = reads at first result
  rcases reads with ⟨between, _ | cause⟩
  · have ready := first between none rfl trivial
    simp only [andThen] at result
    split at result
    next =>
      cases result
      exact ready
    next =>
      split at result
      next => exact (flush_orderly result orderly).2
      next =>
        cases result
        exact ready
  · cases result
    exact first _ _ rfl orderly

theorem handleClientEvent_alert {client : Client State} (alert : client.Alert) {ready : Ready}
    (orderly : Orderly (client.handleClientEvent service config ready).connection.closed) :
    (client.handleClientEvent service config ready).Alert := by
  unfold handleClientEvent at orderly ⊢
  split
  next => exact alert
  next closed =>
    rw [if_neg closed] at orderly
    rcases result : ready.handle (onRead service config) flush .dropped client with
      ⟨after, _ | failure⟩
    · exact handle_alert alert result trivial
    · rw [result] at orderly
      have stays : after.Alert := handle_alert alert result orderly
      exact stays

theorem run_append (client : Client State) (first second : List Ready) :
    client.run service config (first ++ second) =
      (client.run service config first).run service config second :=
  List.foldl_append

theorem run_of_closed {client : Client State} (closed : client.connection.closed.isSome)
    (history : List Ready) : client.run service config history = client := by
  induction history with
  | nil => rfl
  | cons ready history inductionHypothesis =>
      rw [run, List.foldl_cons, handleClientEvent, if_pos closed]
      exact inductionHypothesis

/-- In a run that only the end of the input has closed, no event has closed the
connection in another way. -/
theorem orderly_of_run {client : Client State} {ready : Ready} {later : List Ready}
    (orderly : Orderly (client.run service config (ready :: later)).connection.closed) :
    Orderly (client.handleClientEvent service config ready).connection.closed := by
  by_cases closed : (client.handleClientEvent service config ready).connection.closed.isSome
  · have ends : client.run service config (ready :: later) =
        client.handleClientEvent service config ready := run_of_closed closed later
    rwa [ends] at orderly
  · have opened : (client.handleClientEvent service config ready).connection.closed = none := by
      simpa using closed
    rw [opened]
    exact trivial

/-- The events of interest are right as long as nothing but the end of the input
closes the connection. -/
theorem run_alert {client : Client State} (alert : client.Alert) {history : List Ready}
    (orderly : Orderly (client.run service config history).connection.closed) :
    (client.run service config history).Alert := by
  induction history generalizing client with
  | nil => exact alert
  | cons ready history inductionHypothesis =>
      exact inductionHypothesis (handleClientEvent_alert alert (orderly_of_run orderly)) orderly

end Client

end Carrot.Reactor
