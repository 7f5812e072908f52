import Carrot.Executor.Executor

/-!
# The write dispatcher

Clients put requests into a bounded queue while they hold a lock; a write loop,
started when there is none, takes requests out, collects mutations into batches
and commits them.  The loop stops when it has been idle for a second.

The steps are those at which goroutines can be interleaved.  What runs under
the mutation lock, a commit or the start of a rewrite, is one step of a
`Backend`.

`sent`, `calls` and `answered` are not in the code.  They record the requests in
the order of the queue, the calls of the backend and the answers.
-/

universe u

namespace Carrot

/-- What a client asks the executor for. -/
inductive Call where
  | submitMutation (command : Command)
  | enqueueAOFRewrite
  | startAOFRewrite
  deriving DecidableEq

/-- Whether the client waits for the answer. -/
def Call.waits : Call → Bool
  | .enqueueAOFRewrite => false
  | _ => true

structure Request where
  id : Nat
  client : Nat
  call : Call
  deriving DecidableEq

namespace Request

/-- `request.rewriteStart != nil`. -/
def isRewrite (request : Request) : Bool :=
  match request.call with
  | .submitMutation _ => false
  | _ => true

/-- `request.cmd`, which is zero for a rewrite. -/
def cmd (request : Request) : Command :=
  match request.call with
  | .submitMutation command => command
  | _ => ⟨[], []⟩

end Request

inductive Answer where
  | result (result : Except Bytes Value)
  | rewriteStart (error : Option Bytes)

/-- What the dispatcher uses of the executor: a commit of a batch, which has a
result for each command, the start of a rewrite, and whether the journal has a
positive `GroupCommitDelay`. -/
structure Backend (Core : Type u) where
  commit : Core → List Command → Core × List (Except Bytes Value)
  commit_length : ∀ core batch, (commit core batch).2.length = batch.length
  startRewrite : Core → Core × Option Bytes
  delayed : Bool

/-- A call of the backend, with the requests it is made for. -/
inductive BackendCall where
  | commit (batch : List Request)
  | startRewrite (request : Request)

namespace BackendCall

def requests : BackendCall → List Request
  | .commit batch => batch
  | .startRewrite request => [request]

def perform {Core : Type u} (backend : Backend Core) (core : Core) : BackendCall → Core
  | .commit batch => (backend.commit core (batch.map Request.cmd)).1
  | .startRewrite _ => (backend.startRewrite core).1

end BackendCall

/-! ## States -/

/-- Where a client is. -/
inductive Client where
  | idle
  /-- It waits for the lock. -/
  | locking (request : Request)
  /-- It has the lock and looks whether a loop is running. -/
  | starting (request : Request)
  /-- It has the lock and sends. -/
  | sending (request : Request)
  /-- It has sent and is about to give the lock back. -/
  | unlocking (request : Request)
  /-- It waits for the answer. -/
  | waiting (request : Request)
  deriving DecidableEq

/-- Where a client goes after it has given the lock back. -/
def Client.afterwards (request : Request) : Client :=
  if request.call.waits then waiting request else idle

/-- Where a write loop is. -/
inductive LoopPhase where
  /-- At the beginning of a round, with a rewrite that was put aside. -/
  | top (pending : Option Request)
  | idleLocking
  | idleLocked
  | handling (request : Request)
  | collecting (batch : List Request)
  | committing (batch : List Request) (pending : Option Request)
  | answering (answers : List (Request × Answer)) (pending : Option Request)

/-- A write loop, and whether its idle timer has expired. -/
structure WriteLoop where
  phase : LoopPhase
  expired : Bool

inductive Owner where
  | client (number : Nat)
  | loop (number : Nat)
  deriving DecidableEq

structure Dispatcher (Core : Type u) where
  core : Core
  /-- `dispatchMu`. -/
  lock : Option Owner
  dispatching : Bool
  writeQueue : List Request
  clients : Nat → Client
  /-- The loops that are running, by the order in which they were started. -/
  loops : Nat → Option WriteLoop
  started : Nat
  issued : Nat
  sent : List Request
  calls : List BackendCall
  answered : List (Request × Answer)

/-- The capacity of `writeQueue`. -/
def queueCapacity : Nat := 1024

/-- The most mutations in one batch. -/
def maxBatch : Nat := 64

namespace Dispatcher

variable {Core : Type u}

def new (core : Core) : Dispatcher Core where
  core
  lock := none
  dispatching := false
  writeQueue := []
  clients _ := .idle
  loops _ := none
  started := 0
  issued := 0
  sent := []
  calls := []
  answered := []

def setClient (state : Dispatcher Core) (number : Nat) (client : Client) : Dispatcher Core :=
  { state with clients := Function.update state.clients number client }

def setLoop (state : Dispatcher Core) (number : Nat) (loop : WriteLoop) : Dispatcher Core :=
  { state with loops := Function.update state.loops number (some loop) }

/-- Take the first request out of the queue. -/
def dequeued (state : Dispatcher Core) : Dispatcher Core :=
  { state with writeQueue := state.writeQueue.tail }

end Dispatcher

/-- Who makes a step. -/
inductive Label where
  | call (client : Nat) (call : Call)
  | client (number : Nat)
  | timer (loop : Nat)
  | loop (number : Nat)

/-! ## Steps -/

section

open Dispatcher Client LoopPhase

variable {Core : Type u}

/-- The steps of clients, in `submitMutation`, `startAOFRewrite`,
`enqueueAOFRewrite` and `enqueue`. -/
inductive ClientStep : Dispatcher Core → Nat → Dispatcher Core → Prop where
  | lock {state : Dispatcher Core} {number : Nat} {request : Request} :
      state.clients number = locking request → state.lock = none →
      ClientStep state number
        ({ state with lock := some (.client number) }.setClient number (starting request))
  | start {state : Dispatcher Core} {number : Nat} {request : Request} :
      state.clients number = starting request → state.dispatching = false →
      ClientStep state number
        (({ state with dispatching := true, started := state.started + 1 }.setLoop state.started
          ⟨top none, false⟩).setClient number (sending request))
  | join {state : Dispatcher Core} {number : Nat} {request : Request} :
      state.clients number = starting request → state.dispatching = true →
      ClientStep state number (state.setClient number (sending request))
  | send {state : Dispatcher Core} {number : Nat} {request : Request} :
      state.clients number = sending request → state.writeQueue.length < queueCapacity →
      ClientStep state number
        ({ state with
          writeQueue := state.writeQueue ++ [request]
          sent := state.sent ++ [request] }.setClient number (unlocking request))
  | unlock {state : Dispatcher Core} {number : Nat} {request : Request} :
      state.clients number = unlocking request →
      ClientStep state number
        ({ state with lock := none }.setClient number (afterwards request))
  | receive {state : Dispatcher Core} {number : Nat} {request : Request} {answer : Answer} :
      state.clients number = waiting request → (request, answer) ∈ state.answered →
      ClientStep state number (state.setClient number idle)

/-- The steps of a write loop. -/
inductive LoopStep (backend : Backend Core) : Dispatcher Core → Nat → Dispatcher Core → Prop where
  | takePending {state : Dispatcher Core} {number : Nat} {request : Request} {expired : Bool} :
      state.loops number = some ⟨top (some request), expired⟩ →
      LoopStep backend state number (state.setLoop number ⟨handling request, expired⟩)
  | takeQueued {state : Dispatcher Core} {number : Nat} {request : Request} {rest : List Request}
      {expired : Bool} :
      state.loops number = some ⟨top none, expired⟩ → state.writeQueue = request :: rest →
      LoopStep backend state number (state.dequeued.setLoop number ⟨handling request, false⟩)
  | idle {state : Dispatcher Core} {number : Nat} :
      state.loops number = some ⟨top none, true⟩ →
      LoopStep backend state number (state.setLoop number ⟨idleLocking, false⟩)
  | lock {state : Dispatcher Core} {number : Nat} {expired : Bool} :
      state.loops number = some ⟨idleLocking, expired⟩ → state.lock = none →
      LoopStep backend state number
        ({ state with lock := some (.loop number) }.setLoop number ⟨idleLocked, expired⟩)
  | exit {state : Dispatcher Core} {number : Nat} {expired : Bool} :
      state.loops number = some ⟨idleLocked, expired⟩ → state.writeQueue = [] →
      LoopStep backend state number
        { state with
          lock := none
          dispatching := false
          loops := Function.update state.loops number none }
  | stay {state : Dispatcher Core} {number : Nat} {expired : Bool} :
      state.loops number = some ⟨idleLocked, expired⟩ → state.writeQueue ≠ [] →
      LoopStep backend state number ({ state with lock := none }.setLoop number ⟨top none, false⟩)
  | startRewrite {state : Dispatcher Core} {number : Nat} {request : Request} {expired : Bool} :
      state.loops number = some ⟨handling request, expired⟩ → request.isRewrite = true →
      LoopStep backend state number
        ({ state with
          core := (backend.startRewrite state.core).1
          calls := state.calls ++ [BackendCall.startRewrite request] }.setLoop number
            ⟨answering [(request, .rewriteStart (backend.startRewrite state.core).2)] none,
              expired⟩)
  | openBatch {state : Dispatcher Core} {number : Nat} {request : Request} {expired : Bool} :
      state.loops number = some ⟨handling request, expired⟩ → request.isRewrite = false →
      LoopStep backend state number (state.setLoop number ⟨collecting [request], expired⟩)
  | collect {state : Dispatcher Core} {number : Nat} {request : Request} {batch rest : List Request}
      {expired : Bool} :
      state.loops number = some ⟨collecting batch, expired⟩ → batch.length < maxBatch →
      state.writeQueue = request :: rest → request.isRewrite = false →
      LoopStep backend state number
        (state.dequeued.setLoop number ⟨collecting (batch ++ [request]), expired⟩)
  | putAside {state : Dispatcher Core} {number : Nat} {request : Request}
      {batch rest : List Request} {expired : Bool} :
      state.loops number = some ⟨collecting batch, expired⟩ → batch.length < maxBatch →
      state.writeQueue = request :: rest → request.isRewrite = true →
      LoopStep backend state number
        (state.dequeued.setLoop number ⟨committing batch (some request), expired⟩)
  /-- The batch is full, the timer of the batch has expired or, without such a
  timer, the queue is empty. -/
  | closeBatch {state : Dispatcher Core} {number : Nat} {batch : List Request} {expired : Bool} :
      state.loops number = some ⟨collecting batch, expired⟩ →
      (¬ batch.length < maxBatch ∨ backend.delayed = true ∨ state.writeQueue = []) →
      LoopStep backend state number (state.setLoop number ⟨committing batch none, expired⟩)
  | commit {state : Dispatcher Core} {number : Nat} {batch : List Request}
      {pending : Option Request} {expired : Bool} :
      state.loops number = some ⟨committing batch pending, expired⟩ →
      LoopStep backend state number
        ({ state with
          core := (backend.commit state.core (batch.map Request.cmd)).1
          calls := state.calls ++ [BackendCall.commit batch] }.setLoop number
            ⟨answering (batch.zip ((backend.commit state.core (batch.map Request.cmd)).2.map
              .result)) pending, expired⟩)
  | answer {state : Dispatcher Core} {number : Nat} {request : Request} {answer : Answer}
      {answers : List (Request × Answer)} {pending : Option Request} {expired : Bool} :
      state.loops number = some ⟨answering ((request, answer) :: answers) pending, expired⟩ →
      LoopStep backend state number
        ({ state with answered := state.answered ++ [(request, answer)] }.setLoop number
          ⟨answering answers pending, expired⟩)
  | finish {state : Dispatcher Core} {number : Nat} {pending : Option Request} {expired : Bool} :
      state.loops number = some ⟨answering [] pending, expired⟩ →
      LoopStep backend state number (state.setLoop number ⟨top pending, expired⟩)

/-- The steps of the whole system. -/
inductive DispatchStep (backend : Backend Core) :
    Dispatcher Core → Label → Dispatcher Core → Prop where
  | call {state : Dispatcher Core} {number : Nat} (call : Call) :
      state.clients number = idle →
      DispatchStep backend state (.call number call)
        ({ state with issued := state.issued + 1 }.setClient number
          (locking ⟨state.issued, number, call⟩))
  | client {state after : Dispatcher Core} {number : Nat} :
      ClientStep state number after → DispatchStep backend state (.client number) after
  | timer {state : Dispatcher Core} {number : Nat} {loop : WriteLoop} :
      state.loops number = some loop →
      DispatchStep backend state (.timer number)
        (state.setLoop number { loop with expired := true })
  | loop {state after : Dispatcher Core} {number : Nat} :
      LoopStep backend state number after → DispatchStep backend state (.loop number) after

/-- The states reached by steps with allowed labels. -/
inductive Reached (backend : Backend Core) (allowed : Label → Prop) (core : Core) :
    Dispatcher Core → Prop where
  | new : Reached backend allowed core (Dispatcher.new core)
  | step {state after : Dispatcher Core} {label : Label} :
      Reached backend allowed core state → allowed label → DispatchStep backend state label after →
      Reached backend allowed core after

end

end Carrot
