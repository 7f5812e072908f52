import Carrot.Reactor.Member
import Mathlib.Data.List.AList

/-!
# The event loop

One thread accepts connections, handles what `epoll` reports for them, removes
expired keys and gives up connections on which nothing moves.  All connections
share what executes their commands.

The kernel decides which descriptors it hands out, what it reports and how its
calls end.  `descriptors` and `interest` are its own: the descriptors of the
event loop that are open, and those that are registered with `epoll`.

`number`, `heard`, `accepted`, `opened` and `gone` are not in the code.  They
number the connections in the order in which they were accepted, and record what
was read from them, the calls of `accept4` that returned a descriptor, and the
connections that were closed.
-/

namespace Carrot.Reactor

/-- What executes the commands of all connections. -/
structure Engine (State : Type) extends Service State where
  activeExpire : State → State

/-- The kernel hands out descriptors that are not in use. -/
structure Allocator where
  choose : Nat → Finset Nat → Nat
  fresh : ∀ count used, choose count used ∉ used

structure LoopConfig extends MemberConfig where
  maxConnections : Nat

/-- A connection in the registry, with what was read from it. -/
structure Slot (State : Type) where
  number : Nat
  member : Member State
  heard : List Bytes

namespace Slot

variable {State : Type}

def connection (slot : Slot State) : Connection State := slot.member.connection

/-- The connection has the shared state and the clock while it is handled. -/
def enter (slot : Slot State) (state : State) (tick : Nat) : Member State :=
  let session := { slot.connection.session with state }
  { slot.member with tick }.setConnection { slot.connection with session }

/-- `isClosed` is set. -/
def close (failure : Failure) (slot : Slot State) : Slot State :=
  { slot with member := { slot.member with client := slot.member.client.close failure } }

end Slot

structure EventLoop (State : Type) where
  listenerFD : Nat
  epfd : Nat
  conns : AList fun _ : Nat => Slot State
  state : State
  tick : Nat
  descriptors : Finset Nat
  interest : Finset Nat
  accepted : Nat
  opened : Nat
  gone : List (Slot State)

/-- What a call of `accept4` does.  A new descriptor comes with the answer to its
registration. -/
inductive Accept where
  | took (register : Option Bytes)
  | wouldBlock
  | interrupted
  | failed (error : Bytes)

/-- What `epoll` reports: a descriptor, and what the kernel answers while it is
handled. -/
structure PollEvent where
  fd : Nat
  accepts : List Accept
  ready : Ready

/-- One round of `Run`: whether `stopChan` is closed when the loop looks at it,
at the beginning and before each event, and what `Wait` returns. -/
structure Round where
  stop : Bool
  wait : Except Bytes (List (Bool × PollEvent))

namespace EventLoop

variable {State : Type}

/-- The event loop with a listener and a poller. -/
def new (listenerFD epfd : Nat) (state : State) : EventLoop State where
  listenerFD
  epfd
  conns := ∅
  state
  tick := 0
  descriptors := {listenerFD, epfd}
  interest := {listenerFD}
  accepted := 0
  opened := 0
  gone := []

/-- `Close` of a connection: it is unregistered and its descriptor is closed. -/
def closeConnection (fd : Nat) (slot : Slot State) (loop : EventLoop State) : EventLoop State :=
  if slot.member.isClosed then loop
  else
    { loop with
      interest := loop.interest.erase fd
      descriptors := loop.descriptors.erase fd }

def closeClient (failure : Failure) (fd : Nat) (loop : EventLoop State) : EventLoop State :=
  match loop.conns.lookup fd with
  | none => loop
  | some slot =>
      let loop := loop.closeConnection fd slot
      { loop with conns := loop.conns.erase fd, gone := loop.gone ++ [slot.close failure] }

/-- The kernel has opened a descriptor for a connection. -/
def accept4 (fd : Nat) (loop : EventLoop State) : EventLoop State :=
  { loop with descriptors := insert fd loop.descriptors, opened := loop.opened + 1 }

section

variable (clock : Nat → Clock) (config : LoopConfig)

/-- A connection is put into the registry. -/
def enroll (fd : Nat) (loop : EventLoop State) : EventLoop State :=
  let member := Member.new clock loop.state loop.tick
  { loop with
    conns := loop.conns.insert fd ⟨loop.accepted, member, []⟩
    tick := member.tick
    accepted := loop.accepted + 1 }

/-- A connection is put into the registry, and registered with `epoll`. -/
def adopt (fd : Nat) (register : Option Bytes) (loop : EventLoop State) : EventLoop State :=
  let loop := loop.enroll clock fd
  match register with
  | some _ => loop.closeClient .dropped fd
  | none => { loop with interest := insert fd loop.interest }

/-- A connection has been accepted. -/
def acceptClient (fd : Nat) (register : Option Bytes) (loop : EventLoop State) :
    EventLoop State :=
  let loop := loop.accept4 fd
  if loop.conns.keys.length ≥ config.maxConnections then
    { loop with descriptors := loop.descriptors.erase fd }
  else loop.adopt clock fd register

def handleAccept (allocator : Allocator) : List Accept → EventLoop State → EventLoop State
  | [], loop => loop
  | .took register :: accepts, loop =>
      handleAccept allocator accepts
        (loop.acceptClient clock config (allocator.choose loop.opened loop.descriptors) register)
  | .wouldBlock :: _, loop => loop
  | .interrupted :: accepts, loop => handleAccept allocator accepts loop
  | .failed _ :: _, loop => loop

/-- A connection that is expired is closed. -/
def expireConnection (now : Int) (loop : EventLoop State) (fd : Nat) : EventLoop State :=
  match loop.conns.lookup fd with
  | none => loop
  | some slot =>
      if slot.member.expired config.toMemberConfig now then loop.closeClient .dropped fd else loop

def expireConnections (loop : EventLoop State) : EventLoop State :=
  loop.conns.keys.foldl (expireConnection config (clock loop.tick).now)
    { loop with tick := loop.tick + 1 }

/-- Everything is closed when `Run` returns. -/
def cleanup (loop : EventLoop State) : EventLoop State :=
  let loop := loop.conns.keys.foldl (fun loop fd => loop.closeClient .dropped fd) loop
  { loop with
    descriptors := (loop.descriptors.erase loop.listenerFD).erase loop.epfd
    interest := ∅ }

variable [GoTables] (engine : Engine State)

/-- The registry and the shared state after a connection has been handled. -/
def leave (fd : Nat) (slot : Slot State) (member : Member State) (pieces : List Bytes)
    (loop : EventLoop State) : EventLoop State :=
  { loop with
    conns := loop.conns.insert fd { slot with member, heard := slot.heard ++ pieces }
    state := member.connection.session.state
    tick := member.tick }

def handleClientEvent (fd : Nat) (ready : Ready) (loop : EventLoop State) : EventLoop State :=
  match loop.conns.lookup fd with
  | none => loop
  | some slot =>
      let member := slot.enter loop.state loop.tick
      let pieces := piecesOf (member.events clock config.toMemberConfig ready)
      match member.handleClientEvent clock engine.toService config.toMemberConfig ready with
      | (member, some cause) => (loop.leave fd slot member pieces).closeClient cause.failure fd
      | (member, none) => loop.leave fd slot member pieces

variable (allocator : Allocator)

def dispatch (loop : EventLoop State) (event : PollEvent) : EventLoop State :=
  if event.fd = loop.listenerFD then loop.handleAccept clock config allocator event.accepts
  else loop.handleClientEvent clock config engine event.fd event.ready

/-- Dispatch the events of a round, and whether `stopChan` was closed. -/
def dispatchAll : List (Bool × PollEvent) → EventLoop State → EventLoop State × Bool
  | [], loop => (loop, false)
  | (true, _) :: _, loop => (loop, true)
  | (false, event) :: events, loop =>
      dispatchAll events (loop.dispatch clock config engine allocator event)

/-- One round, and what `Run` returns if it is the last one. -/
def round (loop : EventLoop State) (round : Round) : EventLoop State × Option (Option Bytes) :=
  if round.stop then (loop, some none)
  else
    match round.wait with
    | .error error =>
        (loop, some (some (bytes "event loop poller wait error: epoll_wait failed: " ++ error)))
    | .ok events =>
        match loop.dispatchAll clock config engine allocator events with
        | (loop, true) => (loop, some none)
        | (loop, false) =>
            ({ loop with state := engine.activeExpire loop.state }.expireConnections clock config,
              none)

/-- The rounds of `Run`, up to the one in which it returns. -/
def rounds : List Round → EventLoop State → EventLoop State × Option (Option Bytes)
  | [], loop => (loop, none)
  | first :: rest, loop =>
      match loop.round clock config engine allocator first with
      | (loop, some result) => (loop, some result)
      | (loop, none) => rounds rest loop

/-- `Run`, with what it returns if it does. -/
def run (history : List Round) (loop : EventLoop State) :
    EventLoop State × Option (Option Bytes) :=
  match loop.rounds clock config engine allocator history with
  | (loop, some result) => (loop.cleanup, some result)
  | (loop, none) => (loop, none)

end

end EventLoop

end Carrot.Reactor
