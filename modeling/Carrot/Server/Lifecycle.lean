import Carrot.Server.Connections

/-!
# The life of the server

The goroutines that start, serve and stop the server with one goroutine for each
client: the owner, which calls `Start` or, when the server is embedded, `Serve`;
any number of calls of `Shutdown`; a handler for each connection; and the loop of
active expiry.

A section under `mu` or `aofMu` is one step.  `executed` is not in the code: for
each command and each pass of active expiry it records whether the journal was
installed.
-/

namespace Carrot

structure LifecycleConfig where
  maxConnections : Nat
  aofEnabled : Bool
  /-- The owner calls `Serve` and not `Start`. -/
  embedded : Bool

/-! ## States -/

inductive ListenerState where
  | absent
  | opened
  | closed
  deriving DecidableEq

/-- What the environment answers to the owner. -/
inductive OwnerAnswer where
  | ok
  | temporary
  | failed
  deriving DecidableEq

/-- Why `Accept` failed. -/
inductive AcceptFailure where
  | closed
  | temporary
  | other
  deriving DecidableEq

/-- Where the owner is, in the order of `Start`, with `Serve` in its middle. -/
inductive OwnerPhase where
  | checking
  | opening
  | listening
  | rechecking
  /-- `Serve` begins. -/
  | reopening
  | entering
  | spawning
  | accepting
  | accepted
  | failing (cause : AcceptFailure)
  | givingUp
  | unwinding
  | announcing
  /-- `Serve` has returned to `Start`. -/
  | served
  | waiting
  /-- `closePersistence` begins. -/
  | awaitingExpiry
  | closingPersistence
  | returned
  deriving DecidableEq

/-- Where a call of `Shutdown` is.  From `closePersistence` on it is known whether
it found the server started. -/
inductive ShutdownPhase where
  | called
  | closingListener
  | awaitingServe
  | awaitingClients
  | closingClients
  | awaitingDone
  | awaitingExpiry (started : Bool)
  | closingPersistence (started : Bool)
  | returned (started : Bool)
  deriving DecidableEq

structure Lifecycle where
  owner : OwnerPhase
  /-- The calls of `Shutdown`, in their order. -/
  shutdowns : List ShutdownPhase
  closing : Bool
  started : Bool
  shutdownRequested : Bool
  /-- `stopChan` is closed. -/
  stopped : Bool
  /-- `serveDone` is closed. -/
  serveDone : Bool
  listener : ListenerState
  /-- There is a log, and it is installed as the journal. -/
  aof : Bool
  conns : Connections
  expireWg : Nat
  /-- The loop of active expiry is running. -/
  expiring : Bool
  executed : List Bool

/-- What happens next. -/
inductive LifecycleAction where
  | owner (answer : OwnerAnswer)
  | call
  | shutdown (number : Nat)
  | contextDone (number : Nat)
  | execute (conn : Nat)
  | finish (conn : Nat)
  | leave (conn : Nat)
  | done (conn : Nat)
  | activeExpire
  | stopExpiry
  deriving DecidableEq

namespace Lifecycle

def new (config : LifecycleConfig) : Lifecycle where
  owner := if config.embedded then .reopening else .checking
  shutdowns := []
  closing := false
  started := false
  shutdownRequested := false
  stopped := false
  serveDone := false
  listener := if config.embedded then .opened else .absent
  aof := false
  conns := .empty
  expireWg := 0
  expiring := false
  executed := []

/-! ## The owner -/

/-- `openPersistence`, which may fail. -/
def openPersistence (config : LifecycleConfig) (answer : OwnerAnswer) (state : Lifecycle) :
    Option Lifecycle :=
  if !config.aofEnabled then some state
  else if state.aof then some state
  else if answer = .ok then some { state with aof := true }
  else none

/-- Where the owner goes when `Serve` returns. -/
def afterServe (config : LifecycleConfig) : OwnerPhase :=
  if config.embedded then .returned else .served

/-- The section of `Serve` that decides whether the server starts. -/
def enter (config : LifecycleConfig) (state : Lifecycle) : Lifecycle :=
  if state.started || state.closing then
    { state with listener := .closed, owner := afterServe config }
  else { state with started := true, owner := .spawning }

/-- `Accept`. -/
def accept (answer : OwnerAnswer) (state : Lifecycle) : Lifecycle :=
  if state.listener = .closed then { state with owner := .failing .closed }
  else
    match answer with
    | .ok => { state with owner := .accepted }
    | .temporary => { state with owner := .failing .temporary }
    | .failed => { state with owner := .failing .other }

/-- The section that registers a connection, or closes it. -/
def register (config : LifecycleConfig) (state : Lifecycle) : Lifecycle :=
  if state.closing then { state with conns := state.conns.turnAway, owner := .unwinding }
  else if state.conns.active.card ≥ config.maxConnections then
    { state with conns := state.conns.turnAway, owner := .accepting }
  else { state with conns := state.conns.register, owner := .accepting }

/-- A failure of `Accept` ends the loop, or not. -/
def fail (cause : AcceptFailure) (state : Lifecycle) : Lifecycle :=
  if state.closing || cause = .closed then { state with owner := .unwinding }
  else if cause = .temporary then { state with owner := .accepting }
  else { state with owner := .givingUp }

/-- The section of `closePersistence`. -/
def closePersistence (state : Lifecycle) : Lifecycle := { state with aof := false }

/-- The next step of the owner, if it is not blocked. -/
def ownerStep (config : LifecycleConfig) (answer : OwnerAnswer) (state : Lifecycle) :
    Option Lifecycle :=
  match state.owner with
  | .checking => some { state with owner := if state.closing then .returned else .opening }
  | .opening =>
      match state.openPersistence config answer with
      | some state => some { state with owner := .listening }
      | none => some { state with owner := .returned }
  | .listening =>
      if answer = .ok then some { state with listener := .opened, owner := .rechecking }
      else some { state with owner := .awaitingExpiry }
  | .rechecking =>
      if state.closing then some { state with listener := .closed, owner := .awaitingExpiry }
      else some { state with owner := .reopening }
  | .reopening =>
      match state.openPersistence config answer with
      | some state => some { state with owner := .entering }
      | none => some { state with owner := afterServe config }
  | .entering => some (state.enter config)
  | .spawning =>
      some { state with
        expireWg := state.expireWg + 1
        expiring := true
        owner := .accepting }
  | .accepting => some (state.accept answer)
  | .accepted => some (state.register config)
  | .failing cause => some (state.fail cause)
  | .givingUp =>
      some { state with closing := true, conns := state.conns.closeActive, owner := .unwinding }
  | .unwinding =>
      some { state with listener := .closed, stopped := true, owner := .announcing }
  | .announcing => some { state with serveDone := true, owner := afterServe config }
  | .served =>
      if state.shutdownRequested then some { state with owner := .returned }
      else some { state with conns := state.conns.closeActive, owner := .waiting }
  | .waiting =>
      if state.conns.clientsWg = 0 then some { state with owner := .awaitingExpiry } else none
  | .awaitingExpiry =>
      if state.expireWg = 0 then some { state with owner := .closingPersistence } else none
  | .closingPersistence => some { state.closePersistence with owner := .returned }
  | .returned => none

/-! ## Shutdown -/

def setShutdown (state : Lifecycle) (number : Nat) (phase : ShutdownPhase) : Lifecycle :=
  { state with shutdowns := state.shutdowns.set number phase }

/-- The first section of `Shutdown`. -/
def request (state : Lifecycle) : Lifecycle :=
  { state with shutdownRequested := true, closing := true, stopped := true }

/-- The next step of a call of `Shutdown`, which leaves it in a new phase, if it is
not blocked. -/
def shutdownMove (state : Lifecycle) : ShutdownPhase → Option (Lifecycle × ShutdownPhase)
  | .called =>
      some (state.request, if state.started then .closingListener else .awaitingExpiry false)
  | .closingListener => some ({ state with listener := .closed }, .awaitingServe)
  | .awaitingServe => if state.serveDone then some (state, .awaitingClients) else none
  | .awaitingClients =>
      if state.conns.clientsWg = 0 then some (state, .awaitingExpiry true) else none
  | .closingClients => some ({ state with conns := state.conns.closeActive }, .awaitingDone)
  | .awaitingDone =>
      if state.conns.clientsWg = 0 then some (state, .awaitingExpiry true) else none
  | .awaitingExpiry started =>
      if state.expireWg = 0 then some (state, .closingPersistence started) else none
  | .closingPersistence started => some (state.closePersistence, .returned started)
  | .returned _ => none

def shutdownStep (number : Nat) (state : Lifecycle) : Option Lifecycle := do
  let phase ← state.shutdowns[number]?
  let (state, phase) ← state.shutdownMove phase
  return state.setShutdown number phase

/-! ## All goroutines -/

/-- A handler in some place does something to the connections. -/
def handlerStep (state : Lifecycle) (place : Finset Nat) (conn : Nat) (conns : Connections) :
    Option Lifecycle :=
  if conn ∈ place then some { state with conns } else none

def step (config : LifecycleConfig) (state : Lifecycle) : LifecycleAction → Option Lifecycle
  | .owner answer => state.ownerStep config answer
  | .call => some { state with shutdowns := state.shutdowns ++ [.called] }
  | .shutdown number => state.shutdownStep number
  | .contextDone number =>
      if state.shutdowns[number]? = some .awaitingClients then
        some (state.setShutdown number .closingClients)
      else none
  | .execute conn =>
      if conn ∈ state.conns.serving then
        some { state with executed := state.executed ++ [state.aof] }
      else none
  | .finish conn => state.handlerStep state.conns.serving conn (state.conns.finish conn)
  | .leave conn => state.handlerStep state.conns.leaving conn (state.conns.leave conn)
  | .done conn => state.handlerStep state.conns.left conn (state.conns.done conn)
  | .activeExpire =>
      if state.expiring then some { state with executed := state.executed ++ [state.aof] } else none
  | .stopExpiry =>
      if state.expiring && state.stopped then
        some { state with expireWg := state.expireWg - 1, expiring := false }
      else none

/-- The state after actions that are all possible. -/
def follow (config : LifecycleConfig) (state : Lifecycle) :
    List LifecycleAction → Option Lifecycle
  | [] => some state
  | action :: actions => (state.step config action).bind fun next => next.follow config actions

end Lifecycle

end Carrot
