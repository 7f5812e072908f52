import Carrot.Server.Server

/-!
# The methods of a connection

The event loop owns a connection and calls it when its socket is ready.  What
arrives is collected in `inBuf`, complete requests are taken from there and
answered into `outBuf`, and `outBuf` is written to the socket as far as the
socket takes it.  A method that fails makes the event loop close the connection.

What the kernel answers is a parameter of each method.

The methods are written once, over whatever holds a connection.  A holder may
have a state of its own, and it is told when the code changes that: the times of
a connection and the events of interest of its socket.  Leaving some of this out
is a view of one holder as another one, and every method commutes with it.
-/

namespace Carrot.Reactor

/-- What a call of `write` on the socket does. -/
inductive SocketWrite where
  | took (count : Nat)
  | wouldBlock
  | interrupted
  | failed (error : Bytes)

/-- What the kernel answers during one `Flush`: the calls of `write`, and the
change of the events of interest at the end.  A socket would block when its
answers are used up. -/
structure Socket where
  writes : List SocketWrite
  modify : Option Bytes

/-- What a call of `read` on the socket does.  No data means that the client has
closed its side.  Data comes with the answers of the socket while it is
processed. -/
inductive SocketRead where
  | took (data : Bytes) (socket : Socket)
  | wouldBlock
  | interrupted
  | failed (error : Bytes)

/-- The bits that `epoll` reports for a socket, and what the kernel answers while
they are handled.  `drained` is for the `Flush` at the end of `OnRead` and
`flushed` for the one of `OnWrite`.  A socket has nothing more to read when the
answers are used up. -/
structure Ready where
  epollIn : Bool
  epollErr : Bool
  epollHup : Bool
  epollRdHup : Bool
  epollOut : Bool
  reads : List SocketRead
  drained : Socket
  flushed : Socket

/-- Why the event loop closes a connection. -/
inductive Failure where
  | inputLimit
  | eof
  | read (error : Bytes)
  | encodeResponse (error : Bytes)
  | responseLimit (error : Bytes)
  | noProgress
  | write (error : Bytes)
  | modify (error : Bytes)
  | dropped

/-- The text of the error that a method returns; a connection that is dropped
is closed without one. -/
def Failure.text (fd : Nat) : Failure → Bytes
  | .inputLimit => bytes "input buffer limit exceeded on fd " ++ Decimal.formatNat fd
  | .eof => bytes "EOF"
  | .read error => bytes "read error on fd " ++ Decimal.formatNat fd ++ bytes ": " ++ error
  | .encodeResponse error => bytes "encode response: " ++ error
  | .responseLimit error => bytes "response buffer limit exceeded: " ++ error
  | .noProgress => bytes "write made no progress on fd " ++ Decimal.formatNat fd
  | .write error => bytes "write error on fd " ++ Decimal.formatNat fd ++ bytes ": " ++ error
  | .modify error => bytes "failed to modify fd " ++ Decimal.formatNat fd ++ bytes ": " ++ error
  | .dropped => []

/-- A call of `writeResponse`, with the length of `outBuf` before it. -/
structure Offer where
  queued : Nat
  response : Value

/-- The buffers of a connection and the session on it.  `sent` and `offered` are
not in the code.  They record the bytes that the socket has taken and the calls of
`writeResponse`. -/
structure Connection (State : Type) where
  inBuf : Bytes
  outBuf : Bytes
  session : Session State
  closed : Option Failure
  sent : Bytes
  offered : List Offer

namespace Connection

variable {State : Type}

/-- An accepted connection. -/
def new (state : State) : Connection State := ⟨[], [], ⟨state, []⟩, none, [], []⟩

/-- The socket takes bytes from the queue. -/
def take (connection : Connection State) (count : Nat) : Connection State :=
  { connection with
    outBuf := connection.outBuf.drop count
    sent := connection.sent ++ connection.outBuf.take count }

/-- Record a call of `writeResponse`. -/
def offer (connection : Connection State) (value : Value) : Connection State :=
  { connection with offered := connection.offered ++ [⟨connection.outBuf.length, value⟩] }

/-- The reply to input that can not be decoded. -/
def protocolError [GoTables] (cause : DecodeError) : Value :=
  .error (bytes "ERR protocol error: " ++ cause.text)

end Connection

/-- Go on unless a method has failed. -/
def andThen {Held Cause : Type} (result : Held × Option Cause)
    (next : Held → Held × Option Cause) : Held × Option Cause :=
  match result with
  | (held, some cause) => (held, some cause)
  | (held, none) => next held

theorem map_andThen {Upper Lower Cause : Type} {view : Upper → Lower}
    {result : Upper × Option Cause} {next : Upper → Upper × Option Cause}
    {nextSeen : Lower → Lower × Option Cause}
    (same : ∀ held, Prod.map view id (next held) = nextSeen (view held)) :
    Prod.map view id (andThen result next) = andThen (Prod.map view id result) nextSeen := by
  rcases result with ⟨after, _ | cause⟩
  · exact same after
  · rfl

/-- What holds a connection.  `active` and `startWrite` look at the clock for
`lastActivity` and `writeStarted`, `endWrite` clears `writeStarted`, and `arm`
is for `EPOLLOUT` among the events of interest. -/
structure Holder (State Held : Type) where
  connection : Held → Connection State
  setConnection : Held → Connection State → Held
  active : Held → Held
  startWrite : Held → Held
  endWrite : Held → Held
  arm : Bool → Held → Held

namespace Holder

variable {State Held : Type} (holder : Holder State Held)

/-- `Modify` of the poller. -/
def modify (error : Option Bytes) (armed : Bool) (held : Held) : Held × Option Failure :=
  match error with
  | some error => (held, some (.modify error))
  | none => (holder.arm armed held, none)

def flushLoop (error : Option Bytes) : List SocketWrite → Held → Held × Option Failure
  | [], held =>
      if (holder.connection held).outBuf = [] then
        holder.modify error false (holder.endWrite held)
      else holder.modify error true held
  | write :: writes, held =>
      if (holder.connection held).outBuf = [] then
        holder.modify error false (holder.endWrite held)
      else
        match write with
        | .took 0 => (held, some .noProgress)
        | .took (count + 1) =>
            flushLoop error writes
              (holder.setConnection (holder.active held)
                ((holder.connection held).take (count + 1)))
        | .wouldBlock => holder.modify error true held
        | .interrupted => flushLoop error writes held
        | .failed error => (held, some (.write error))

def flush (socket : Socket) (held : Held) : Held × Option Failure :=
  holder.flushLoop socket.modify socket.writes held

/-- Encode a response within the space that is left, and queue it.  The writer
below the encoder compares each of its writes with that space.  The first
response in the queue starts the write timeout. -/
def writeResponse (config : ServerConfig) (held : Held) (value : Value) :
    Held × Option Failure :=
  let connection := holder.connection held
  let limit : Int := config.maxResponseBytes - connection.outBuf.length
  let offered := connection.offer value
  match BufferedWriter.deliver (BufferedWriter.piecewiseLimited limit outputLimitError) 4096 []
      (encodeWrites value) with
  | .error (.writing, error) => (holder.setConnection held offered, some (.encodeResponse error))
  | .error (.flushing, error) => (holder.setConnection held offered, some (.responseLimit error))
  | .ok data =>
      let held := if connection.outBuf = [] then holder.startWrite held else held
      (holder.setConnection held { offered with outBuf := offered.outBuf ++ data }, none)

section

variable [GoTables] (service : Service State) (config : ServerConfig)

/-- Parse a request, execute it and queue the reply. -/
def respond (held : Held) (value : Value) : Held × Option Failure :=
  let connection := holder.connection held
  let (session, reply) := connection.session.answer service value
  holder.writeResponse config (holder.setConnection held { connection with session }) reply

/-- Replace what has arrived and has not been consumed. -/
def setInBuf (held : Held) (inBuf : Bytes) : Held :=
  holder.setConnection held { holder.connection held with inBuf }

/-- The loop of `processCommands`.  What has been consumed is taken from `inBuf`
at once. -/
def processLoop : Nat → Held → Held × Option Failure
  | 0, held => (held, none)
  | fuel + 1, held =>
      if (holder.connection held).inBuf = [] then (held, none)
      else
        match decode config.limits (holder.connection held).inBuf with
        | .error cause =>
            if cause.isEof then (held, none)
            else
              andThen (holder.writeResponse config held (Connection.protocolError cause))
                fun held => (holder.setInBuf held [], none)
        | .ok (value, rest) =>
            andThen (holder.respond service config (holder.setInBuf held rest) value)
              (processLoop fuel)

def processCommands (socket : Socket) (held : Held) : Held × Option Failure :=
  andThen (holder.processLoop service config (holder.connection held).inBuf.length held)
    (holder.flush socket)

/-- A call of `read` returns.  No data is the end of the input. -/
def receive (data : Bytes) (socket : Socket) (held : Held) : Held × Option Failure :=
  if data = [] then (held, some .eof)
  else if data.length > config.maxRequestBytes - (holder.connection held).inBuf.length then
    (held, some .inputLimit)
  else
    holder.processCommands service config socket
      (holder.setInBuf (holder.active held) ((holder.connection held).inBuf ++ data))

/-- The loop of `OnRead`. -/
def readLoop (drained : Socket) : List SocketRead → Held → Held × Option Failure
  | [], held => holder.processCommands service config drained held
  | .took data socket :: reads, held =>
      andThen (holder.receive service config data socket held) (readLoop drained reads)
  | .wouldBlock :: _, held => holder.processCommands service config drained held
  | .interrupted :: reads, held => readLoop drained reads held
  | .failed error :: _, held => (held, some (.read error))

end

end Holder

/-- `handleClientEvent`: the methods that are called for the bits, in order.  With
a cause, the event loop closes the connection. -/
def Ready.handle {Held Cause : Type} (ready : Ready)
    (onRead : Socket → List SocketRead → Held → Held × Option Cause)
    (onWrite : Socket → Held → Held × Option Cause) (dropped : Cause) (held : Held) :
    Held × Option Cause :=
  andThen (if ready.epollIn then onRead ready.drained ready.reads held else (held, none))
    fun held =>
      if (ready.epollErr ∨ ready.epollHup ∨ ready.epollRdHup) ∧ ¬ ready.epollIn then
        (held, some dropped)
      else if ready.epollOut then onWrite ready.flushed held
      else (held, none)

/-! ## Views -/

/-- A holder seen as another one, which leaves out a part of its state. -/
structure Holder.View {State Upper Lower : Type} (upper : Holder State Upper)
    (lower : Holder State Lower) (view : Upper → Lower) : Prop where
  connection (held : Upper) : lower.connection (view held) = upper.connection held
  setConnection (held : Upper) (connection : Connection State) :
    view (upper.setConnection held connection) = lower.setConnection (view held) connection
  active (held : Upper) : view (upper.active held) = lower.active (view held)
  startWrite (held : Upper) : view (upper.startWrite held) = lower.startWrite (view held)
  endWrite (held : Upper) : view (upper.endWrite held) = lower.endWrite (view held)
  arm (armed : Bool) (held : Upper) : view (upper.arm armed held) = lower.arm armed (view held)

namespace Holder.View

variable {State Upper Lower : Type} {upper : Holder State Upper} {lower : Holder State Lower}
  {view : Upper → Lower} (sees : View upper lower view)

include sees

theorem modify (error : Option Bytes) (armed : Bool) (held : Upper) :
    Prod.map view id (upper.modify error armed held) = lower.modify error armed (view held) := by
  cases error with
  | some error => rfl
  | none => exact Prod.ext (sees.arm armed held) rfl

theorem flush (socket : Socket) (held : Upper) :
    Prod.map view id (upper.flush socket held) = lower.flush socket (view held) := by
  rcases socket with ⟨writes, error⟩
  simp only [Holder.flush]
  induction writes generalizing held with
  | nil =>
      rw [flushLoop, flushLoop, sees.connection, ← sees.endWrite]
      split <;> exact sees.modify error _ _
  | cons write writes inductionHypothesis =>
      rw [flushLoop.eq_def, flushLoop.eq_def]
      simp only [sees.connection, ← sees.endWrite]
      split
      next => exact sees.modify error false _
      next =>
        cases write with
        | took count =>
            cases count with
            | zero => rfl
            | succ count =>
                simp only [← sees.active, ← sees.setConnection]
                exact inductionHypothesis _
        | wouldBlock => exact sees.modify error true held
        | interrupted => exact inductionHypothesis held
        | failed error => rfl

theorem writeResponse (config : ServerConfig) (held : Upper) (value : Value) :
    Prod.map view id (upper.writeResponse config held value) =
      lower.writeResponse config (view held) value := by
  simp only [Holder.writeResponse, sees.connection, ← sees.startWrite, ← sees.setConnection,
    ← apply_ite view]
  split <;> rfl

theorem setInBuf (held : Upper) (inBuf : Bytes) :
    view (upper.setInBuf held inBuf) = lower.setInBuf (view held) inBuf := by
  rw [Holder.setInBuf, Holder.setInBuf, sees.setConnection, sees.connection]

variable [GoTables] (service : Service State) (config : ServerConfig)

theorem respond (held : Upper) (value : Value) :
    Prod.map view id (upper.respond service config held value) =
      lower.respond service config (view held) value := by
  simp only [Holder.respond, sees.connection, ← sees.setConnection]
  exact sees.writeResponse config _ _

theorem processLoop (fuel : Nat) (held : Upper) :
    Prod.map view id (upper.processLoop service config fuel held) =
      lower.processLoop service config fuel (view held) := by
  induction fuel generalizing held with
  | zero => rfl
  | succ fuel inductionHypothesis =>
      rw [Holder.processLoop, Holder.processLoop, sees.connection]
      split
      next => rfl
      next =>
        rcases decode config.limits (upper.connection held).inBuf with cause | ⟨value, rest⟩
        · simp only
          split
          next => rfl
          next =>
            rw [← sees.writeResponse config held]
            exact map_andThen fun after => Prod.ext (sees.setInBuf after []) rfl
        · simp only
          rw [← sees.setInBuf, ← sees.respond]
          exact map_andThen inductionHypothesis

theorem processCommands (socket : Socket) (held : Upper) :
    Prod.map view id (upper.processCommands service config socket held) =
      lower.processCommands service config socket (view held) := by
  rw [Holder.processCommands, Holder.processCommands, sees.connection, ← sees.processLoop]
  exact map_andThen (sees.flush socket)

theorem receive (data : Bytes) (socket : Socket) (held : Upper) :
    Prod.map view id (upper.receive service config data socket held) =
      lower.receive service config data socket (view held) := by
  rw [Holder.receive, Holder.receive, sees.connection, ← sees.active, ← sees.setInBuf,
    ← sees.processCommands]
  simp only [apply_ite (Prod.map view id)]
  rfl

theorem readLoop (drained : Socket) (reads : List SocketRead) (held : Upper) :
    Prod.map view id (upper.readLoop service config drained reads held) =
      lower.readLoop service config drained reads (view held) := by
  induction reads generalizing held with
  | nil => exact sees.processCommands service config drained held
  | cons read reads inductionHypothesis =>
      cases read with
      | took data socket =>
          rw [Holder.readLoop, Holder.readLoop, ← sees.receive]
          exact map_andThen inductionHypothesis
      | wouldBlock => exact sees.processCommands service config drained held
      | interrupted => exact inductionHypothesis held
      | failed error => rfl

end Holder.View

end Carrot.Reactor
