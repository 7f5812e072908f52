import Carrot.Reactor.EventLoop

/-!
# A connection and its timeouts

A connection remembers when bytes moved over its socket for the last time, and
since when its queue has not been empty.  The event loop looks at both to find
the connections that it should give up.  Apart from the times, a member of the
event loop is a client.
-/

namespace Carrot.Reactor

/-- The limits and timeouts of a connection. -/
structure MemberConfig where
  server : ServerConfig
  idleTimeout : Int
  writeTimeout : Int

/-- Why the event loop closes a connection. -/
inductive Cause where
  | connectionClosed
  | idleTimeout
  | failed (failure : Failure)

/-- The text of the error that `OnRead` or `OnWrite` returns. -/
def Cause.text (fd : Nat) : Cause → Bytes
  | .connectionClosed => bytes "connection closed"
  | .idleTimeout => bytes "idle timeout"
  | .failed failure => failure.text fd

/-- What a connection sees of its cause. -/
def Cause.failure : Cause → Failure
  | .connectionClosed | .idleTimeout => .dropped
  | .failed failure => failure

/-- A client with its times.  `tick` is the number of readings of the clock. -/
structure Member (State : Type) where
  client : Client State
  lastActivity : Int
  writeStarted : Int
  tick : Nat

namespace Member

variable {State : Type}

def connection (member : Member State) : Connection State := member.client.connection

def setConnection (member : Member State) (connection : Connection State) : Member State :=
  { member with client := { member.client with connection } }

/-- `c.isClosed`. -/
def isClosed (member : Member State) : Bool := member.connection.closed.isSome

section

variable (clock : Nat → Clock)

/-- `time.Now()`. -/
def now (member : Member State) : Int := (clock member.tick).now

/-- Bytes have moved over the socket. -/
def active (member : Member State) : Member State :=
  { member with lastActivity := member.now clock, tick := member.tick + 1 }

/-- `NewConnectionWithLimits`, and the registration for the default events. -/
def new (state : State) (tick : Nat) : Member State :=
  ⟨.new state, (clock tick).now, 0, tick + 1⟩

def expired (config : MemberConfig) (now : Int) (member : Member State) : Bool :=
  now - member.lastActivity ≥ config.idleTimeout ∨
    member.connection.outBuf ≠ [] ∧ now - member.writeStarted ≥ config.writeTimeout

/-- A member looks at the clock when bytes move, and when it has something to write
again. -/
def holder : Holder State (Member State) where
  connection := connection
  setConnection := setConnection
  active := active clock
  startWrite member := { member with writeStarted := member.now clock, tick := member.tick + 1 }
  endWrite member := { member with writeStarted := 0 }
  arm armed member := { member with client := { member.client with armed } }

/-- A member without its times is a client. -/
theorem view : (holder clock).View Client.holder (client : Member State → Client State) where
  connection _ := rfl
  setConnection _ _ := rfl
  active _ := rfl
  startWrite _ := rfl
  endWrite _ := rfl
  arm _ _ := rfl

def flush (socket : Socket) (member : Member State) : Member State × Option Failure :=
  (holder clock).flush socket member

section

variable [GoTables] (service : Service State) (config : MemberConfig)

/-- `OnRead` starts with a look at the clock. -/
def idle (member : Member State) : Bool :=
  member.now clock - member.lastActivity ≥ config.idleTimeout

def onRead (drained : Socket) (reads : List SocketRead) (member : Member State) :
    Member State × Option Cause :=
  if member.isClosed then (member, some .connectionClosed)
  else
    let looked := { member with tick := member.tick + 1 }
    if member.idle clock config then (looked, some .idleTimeout)
    else
      let (member, failure) :=
        (holder clock).readLoop service config.server drained reads looked
      (member, failure.map .failed)

def onWrite (socket : Socket) (member : Member State) : Member State × Option Cause :=
  if member.isClosed then (member, some .connectionClosed)
  else
    let (member, failure) := member.flush clock socket
    (member, failure.map .failed)

/-- `handleClientEvent` for a connection that the event loop has found.  With a
cause, the event loop closes the connection. -/
def handleClientEvent (ready : Ready) (member : Member State) : Member State × Option Cause :=
  ready.handle (onRead clock service config) (onWrite clock) (.failed .dropped) member

end

/-! ## A member without its times -/

/-- The client and the failure of the method that was called. -/
def outcome (result : Member State × Option Failure) : Client State × Option Failure :=
  Prod.map client id result

theorem flush_outcome (socket : Socket) (member : Member State) :
    outcome (member.flush clock socket) = member.client.flush socket :=
  (view clock).flush socket member

variable [GoTables] (service : Service State) (config : MemberConfig)

theorem readLoop_outcome (drained : Socket) (reads : List SocketRead) (member : Member State) :
    outcome ((holder clock).readLoop service config.server drained reads member) =
      member.client.onRead service config.server drained reads :=
  (view clock).readLoop service config.server drained reads member

/-- What happens to the connection of a member when the bits of an event are
handled. -/
def events (ready : Ready) (member : Member State) : List Event :=
  if ready.epollIn ∧ member.idle clock config then [.dropped] else ready.events

/-- The event loop closes a member with a cause. -/
def settle (result : Member State × Option Cause) : Client State :=
  match result with
  | (member, some cause) => member.client.close cause.failure
  | (member, none) => member.client

omit [GoTables] in
theorem settle_onWrite {member : Member State} (opened : member.connection.closed = none)
    (socket : Socket) :
    settle (member.onWrite clock socket) = Client.settle (member.client.flush socket) := by
  have isOpen : ¬ member.isClosed = true := by simp [isClosed, opened]
  rw [onWrite, if_neg isOpen, ← member.flush_outcome clock socket]
  generalize member.flush clock socket = result
  rcases result with ⟨after, _ | failure⟩ <;> rfl

/-- The reading part of an event, for an open member that is not idle. -/
theorem onRead_outcome {member : Member State} (opened : member.connection.closed = none)
    {ready : Ready} (busy : ready.epollIn → member.idle clock config = false) :
    ∃ result : Member State × Option Failure,
      (if ready.epollIn then member.onRead clock service config ready.drained ready.reads
        else (member, none)) = (result.1, result.2.map .failed) ∧
      outcome result =
        (if ready.epollIn then
          member.client.onRead service config.server ready.drained ready.reads
        else (member.client, none)) ∧
      result.1.connection.closed = none := by
  have isOpen : ¬ member.isClosed = true := by simp [isClosed, opened]
  split
  next reads =>
    have notIdle : ¬ member.idle clock config = true := by simp [busy reads]
    have same := readLoop_outcome clock service config ready.drained ready.reads
      { member with tick := member.tick + 1 }
    refine ⟨_, ?_, same, ?_⟩
    · rw [onRead, if_neg isOpen]
      simp only
      rw [if_neg notIdle]
    · have kept := Connection.readLoop_closed service config.server ready.drained ready.reads
        member.connection
      rw [connection, ← Client.onRead_outcome service config.server, ← same] at kept
      exact kept.trans opened
  next => exact ⟨(member, none), rfl, rfl, opened⟩

/-- Unless it is idle, an open member handles an event as a client. -/
theorem settle_handleClientEvent {member : Member State} (opened : member.connection.closed = none)
    {ready : Ready} (busy : ready.epollIn → member.idle clock config = false) :
    settle (member.handleClientEvent clock service config ready) =
      member.client.handleClientEvent service config.server ready := by
  have isOpen : ¬ member.client.connection.closed.isSome = true := by
    simpa [connection] using opened
  obtain ⟨⟨after, failure⟩, read, same, stays⟩ :=
    onRead_outcome clock service config opened busy
  rw [handleClientEvent, Client.handleClientEvent, if_neg isOpen, Ready.handle, Ready.handle, read,
    ← same]
  cases failure with
  | some failure => rfl
  | none =>
      simp only [outcome, Prod.map, Option.map_none, id, andThen]
      split
      next => rfl
      next =>
        split
        next => exact settle_onWrite clock stays ready.flushed
        next => rfl

/-- An open member that has been idle for too long does not read. -/
theorem handleClientEvent_idle {member : Member State} (opened : member.connection.closed = none)
    {ready : Ready} (refused : ready.epollIn ∧ member.idle clock config) :
    member.handleClientEvent clock service config ready =
      ({ member with tick := member.tick + 1 }, some .idleTimeout) := by
  have isOpen : ¬ member.isClosed = true := by simp [isClosed, opened]
  rw [handleClientEvent, Ready.handle, if_pos refused.1, onRead, if_neg isOpen]
  simp only [if_pos refused.2, andThen]

/-- Handling an event is a run of the connection. -/
theorem settle_connection {member : Member State} (opened : member.connection.closed = none)
    (ready : Ready) :
    (settle (member.handleClientEvent clock service config ready)).connection =
      member.connection.run service config.server (member.events clock config ready) := by
  by_cases refused : ready.epollIn ∧ member.idle clock config
  · rw [events, if_pos refused, handleClientEvent_idle clock service config opened refused]
    exact (Connection.step_of_open service config.server opened .dropped).symm
  · have busy : ready.epollIn → member.idle clock config = false := by
      intro reads
      simpa [reads] using refused
    rw [events, if_neg refused, settle_handleClientEvent clock service config opened busy]
    exact Client.handleClientEvent_connection member.client ready

/-- Handling an event leaves closing to the event loop. -/
theorem handleClientEvent_closed {member : Member State}
    (opened : member.connection.closed = none) (ready : Ready) :
    (member.handleClientEvent clock service config ready).1.connection.closed = none := by
  by_cases refused : ready.epollIn ∧ member.idle clock config
  · rw [handleClientEvent_idle clock service config opened refused]
    exact opened
  have busy : ready.epollIn → member.idle clock config = false := by
    intro reads
    simpa [reads] using refused
  obtain ⟨⟨after, failure⟩, read, -, stays⟩ := onRead_outcome clock service config opened busy
  rw [handleClientEvent, Ready.handle, read]
  cases failure with
  | some failure => exact stays
  | none =>
      simp only [Option.map_none, andThen]
      split
      next => exact stays
      next =>
        split
        next =>
          have flushed := Connection.flush_closed ready.flushed after.connection
          rw [connection, ← Client.flush_outcome, ← after.flush_outcome clock] at flushed
          rw [onWrite, if_neg (by simp [isClosed, stays])]
          exact flushed.trans stays
        next => exact stays

/-- A member that the event loop keeps has handled the event as a client. -/
theorem client_of_kept {member after : Member State} (opened : member.connection.closed = none)
    {ready : Ready}
    (kept : member.handleClientEvent clock service config ready = (after, none)) :
    after.client = member.client.handleClientEvent service config.server ready := by
  have busy : ready.epollIn → member.idle clock config = false := by
    intro reads
    by_contra idle
    have refused : ready.epollIn ∧ member.idle clock config := ⟨reads, by simpa using idle⟩
    rw [handleClientEvent_idle clock service config opened refused] at kept
    cases congrArg Prod.snd kept
  rw [← settle_handleClientEvent clock service config opened busy, kept]
  rfl

end

end Member

end Carrot.Reactor
