import Carrot.Reactor.Holder
import Mathlib.Logic.Relation

/-!
# A connection of the reactor

A connection by itself, without its times and the events of interest of its
socket.  Everything that happens to it is a sequence of events, and what the
kernel answers is a parameter of each event.  Deadlines are not modelled here:
the event loop may close a connection at any time.
-/

namespace Carrot.Reactor

/-- What happens to a connection. -/
inductive Event where
  | read (data : Bytes) (socket : Socket)
  | drained (socket : Socket)
  | readFailed (error : Bytes)
  | writable (socket : Socket)
  | dropped

namespace Connection

variable {State : Type}

/-- A connection that nothing else belongs to. -/
def holder : Holder State (Connection State) where
  connection connection := connection
  setConnection _ connection := connection
  active := id
  startWrite := id
  endWrite := id
  arm _ := id

def flush (socket : Socket) (connection : Connection State) :
    Connection State × Option Failure :=
  holder.flush socket connection

def writeResponse (config : ServerConfig) (connection : Connection State) (value : Value) :
    Connection State × Option Failure :=
  holder.writeResponse config connection value

theorem writeResponse_eq (config : ServerConfig) (connection : Connection State) (value : Value) :
    connection.writeResponse config value =
      match BufferedWriter.deliver (BufferedWriter.piecewiseLimited
          (config.maxResponseBytes - connection.outBuf.length) outputLimitError) 4096 []
          (encodeWrites value) with
      | .error (.writing, error) => (connection.offer value, some (.encodeResponse error))
      | .error (.flushing, error) => (connection.offer value, some (.responseLimit error))
      | .ok data =>
          ({ connection.offer value with outBuf := connection.outBuf ++ data }, none) := rfl

theorem holder_modify (error : Option Bytes) (armed : Bool) (connection : Connection State) :
    holder.modify error armed connection = (connection, error.map .modify) := by
  cases error <;> rfl

theorem flushLoop_nil (error : Option Bytes) (connection : Connection State) :
    holder.flushLoop error [] connection = (connection, error.map .modify) := by
  rw [Holder.flushLoop]
  split <;> exact holder_modify error _ connection

theorem flushLoop_cons (error : Option Bytes) (write : SocketWrite) (writes : List SocketWrite)
    (connection : Connection State) :
    holder.flushLoop error (write :: writes) connection =
      if connection.outBuf = [] then (connection, error.map .modify)
      else
        match write with
        | .took 0 => (connection, some .noProgress)
        | .took (count + 1) => holder.flushLoop error writes (connection.take (count + 1))
        | .wouldBlock => (connection, error.map .modify)
        | .interrupted => holder.flushLoop error writes connection
        | .failed error => (connection, some (.write error)) := by
  cases error <;> rfl

section

variable [GoTables] (service : Service State) (config : ServerConfig)

def respond (connection : Connection State) (value : Value) :
    Connection State × Option Failure :=
  holder.respond service config connection value

def processLoop (fuel : Nat) (connection : Connection State) :
    Connection State × Option Failure :=
  holder.processLoop service config fuel connection

def processCommands (socket : Socket) (connection : Connection State) :
    Connection State × Option Failure :=
  holder.processCommands service config socket connection

def receive (data : Bytes) (socket : Socket) (connection : Connection State) :
    Connection State × Option Failure :=
  holder.receive service config data socket connection

theorem processLoop_succ (fuel : Nat) (connection : Connection State) :
    connection.processLoop service config (fuel + 1) =
      if connection.inBuf = [] then (connection, none)
      else
        match decode config.limits connection.inBuf with
        | .error cause =>
            if cause.isEof then (connection, none)
            else
              andThen (connection.writeResponse config (protocolError cause))
                fun connection => ({ connection with inBuf := [] }, none)
        | .ok (value, rest) =>
            andThen ({ connection with inBuf := rest }.respond service config value)
              (processLoop service config fuel) := rfl

theorem processCommands_eq (socket : Socket) (connection : Connection State) :
    connection.processCommands service config socket =
      andThen (connection.processLoop service config connection.inBuf.length) (flush socket) := rfl

/-- The event loop closes a connection whose method fails. -/
def settle (outcome : Connection State × Option Failure) : Connection State :=
  { outcome.1 with closed := outcome.2 }

/-- `OnRead` is a `read` for each piece of input and a `drained` or
`readFailed` at the end, or an empty `read` if the client has closed its side;
`OnWrite` is a `writable`. -/
def step (connection : Connection State) (event : Event) : Connection State :=
  if connection.closed.isSome then connection
  else
    match event with
    | .read data socket => settle (connection.receive service config data socket)
    | .drained socket => settle (connection.processCommands service config socket)
    | .readFailed error => { connection with closed := some (.read error) }
    | .writable socket => settle (connection.flush socket)
    | .dropped => { connection with closed := some .dropped }

theorem step_of_open {connection : Connection State} (opened : connection.closed = none)
    (event : Event) :
    connection.step service config event =
      match event with
      | .read data socket =>
          if data = [] then { connection with closed := some .eof }
          else if data.length > config.maxRequestBytes - connection.inBuf.length then
            { connection with closed := some .inputLimit }
          else
            settle ({ connection with inBuf := connection.inBuf ++ data }.processCommands
              service config socket)
      | .drained socket => settle (connection.processCommands service config socket)
      | .readFailed error => { connection with closed := some (.read error) }
      | .writable socket => settle (connection.flush socket)
      | .dropped => { connection with closed := some .dropped } := by
  have isOpen : ¬ connection.closed.isSome := by simp [opened]
  rw [step.eq_def, if_neg isOpen]
  cases event with
  | read data socket =>
      simp only [receive, Holder.receive]
      rw [apply_ite settle, apply_ite settle]
      rfl
  | _ => rfl

def run (connection : Connection State) (events : List Event) : Connection State :=
  events.foldl (step service config) connection

theorem run_append (connection : Connection State) (first second : List Event) :
    connection.run service config (first ++ second) =
      (connection.run service config first).run service config second :=
  List.foldl_append

theorem run_of_closed {connection : Connection State} (closed : connection.closed.isSome)
    (events : List Event) : connection.run service config events = connection := by
  induction events with
  | nil => rfl
  | cons event events inductionHypothesis =>
      rw [run, List.foldl_cons, step.eq_def, if_pos closed]
      exact inductionHypothesis

end

/-! ## Queueing a response -/

theorem writeResponse_ok {config : ServerConfig} {connection after : Connection State}
    {value : Value} (success : connection.writeResponse config value = (after, none)) :
    after = { connection.offer value with outBuf := connection.outBuf ++ encode value } := by
  rw [writeResponse_eq] at success
  split at success
  next => cases success
  next => cases success
  next data delivered =>
    cases success
    rw [(BufferedWriter.deliver_piecewiseLimited_iff.mp delivered).1, flatten_encodeWrites]

theorem writeResponse_failed {config : ServerConfig} {connection after : Connection State}
    {value : Value} {failure : Failure}
    (failed : connection.writeResponse config value = (after, some failure)) :
    after = connection.offer value := by
  rw [writeResponse_eq] at failed
  split at failed
  next => cases failed; rfl
  next => cases failed; rfl
  next => cases failed

section

variable [GoTables] (service : Service State) (config : ServerConfig)

/-- The reply to a request that was answered is queued. -/
theorem respond_ok {connection after : Connection State} {value : Value} {rest : Bytes}
    (responded : { connection with inBuf := rest }.respond service config value = (after, none)) :
    after.inBuf = rest ∧ after.session = (connection.session.answer service value).1 ∧
      after.outBuf = connection.outBuf ++ encode (connection.session.answer service value).2 := by
  rw [writeResponse_ok responded]
  exact ⟨rfl, rfl, rfl⟩

/-- The loop of `processCommands` as a relation between a connection and what
the loop leaves. -/
inductive Processed : Connection State → Connection State × Option Failure → Prop where
  | waiting {connection : Connection State} :
      Pending config.limits connection.inBuf → Processed connection (connection, none)
  | rejected {connection after : Connection State} {cause : DecodeError} :
      decode config.limits connection.inBuf = .error cause → cause.isEof = false →
      connection.writeResponse config (protocolError cause) = (after, none) →
      Processed connection ({ after with inBuf := [] }, none)
  | rejectedUnheard {connection after : Connection State} {cause : DecodeError}
      {failure : Failure} :
      decode config.limits connection.inBuf = .error cause → cause.isEof = false →
      connection.writeResponse config (protocolError cause) = (after, some failure) →
      Processed connection (after, some failure)
  | answered {connection after : Connection State} {value : Value} {rest : Bytes}
      {outcome : Connection State × Option Failure} :
      decode config.limits connection.inBuf = .ok (value, rest) →
      { connection with inBuf := rest }.respond service config value = (after, none) →
      Processed after outcome → Processed connection outcome
  | answeredUnheard {connection after : Connection State} {value : Value} {rest : Bytes}
      {failure : Failure} :
      decode config.limits connection.inBuf = .ok (value, rest) →
      { connection with inBuf := rest }.respond service config value = (after, some failure) →
      Processed connection (after, some failure)

theorem processLoop_processed {fuel : Nat} {connection : Connection State}
    (enough : connection.inBuf.length ≤ fuel) :
    Processed service config connection (connection.processLoop service config fuel) := by
  induction fuel generalizing connection with
  | zero =>
      refine .waiting ?_
      rw [List.eq_nil_of_length_eq_zero (Nat.le_zero.mp enough)]
      exact pending_nil rfl
  | succ fuel inductionHypothesis =>
      rw [processLoop_succ]
      split
      next empty =>
        refine .waiting ?_
        rw [empty]
        exact pending_nil rfl
      next =>
        split
        next cause decoded =>
          split
          next ended => exact .waiting ⟨cause, decoded, ended⟩
          next final =>
            have notEnded : cause.isEof = false := Bool.not_eq_true _ ▸ final
            rcases offered : connection.writeResponse config (protocolError cause) with
              ⟨after, _ | failure⟩
            · exact .rejected decoded notEnded offered
            · exact .rejectedUnheard decoded notEnded offered
        next value rest decoded =>
          generalize responded : { connection with inBuf := rest }.respond service config value =
            outcome
          rcases outcome with ⟨after, _ | failure⟩
          · refine .answered decoded responded (inductionHypothesis ?_)
            have shorter := decode_shortens decoded
            rw [(respond_ok service config responded).1]
            omega
          · exact .answeredUnheard decoded responded

/-- The loop fails, or the queue is written after it. -/
theorem processCommands_cases (socket : Socket) (connection : Connection State) :
    (∃ after failure, Processed service config connection (after, some failure) ∧
        connection.processCommands service config socket = (after, some failure)) ∨
      ∃ after, Processed service config connection (after, none) ∧
        connection.processCommands service config socket = after.flush socket := by
  have processed := processLoop_processed service config (Nat.le_refl connection.inBuf.length)
  rw [processCommands_eq]
  generalize connection.processLoop service config connection.inBuf.length = outcome at processed ⊢
  rcases outcome with ⟨after, _ | failure⟩
  · exact .inr ⟨after, processed, rfl⟩
  · exact .inl ⟨after, failure, processed, rfl⟩

end

/-! ## How processing fails -/

/-- A response can not be queued, or the queue can not be written. -/
def OutputFails : Option Failure → Prop
  | none | some (.encodeResponse _) | some (.responseLimit _) | some .noProgress
  | some (.write _) | some (.modify _) => True
  | some .inputLimit | some .eof | some (.read _) | some .dropped => False

theorem writeResponse_fails (config : ServerConfig) (connection : Connection State)
    (value : Value) : OutputFails (connection.writeResponse config value).2 := by
  rw [writeResponse_eq]
  split <;> trivial

theorem flush_fails (socket : Socket) (connection : Connection State) :
    OutputFails (connection.flush socket).2 := by
  rcases socket with ⟨writes, modify⟩
  have modified : OutputFails (modify.map .modify) := by
    cases modify <;> trivial
  simp only [flush, Holder.flush]
  induction writes generalizing connection with
  | nil =>
      rw [flushLoop_nil]
      exact modified
  | cons write writes inductionHypothesis =>
      rw [flushLoop_cons]
      split
      next => exact modified
      next =>
        split
        next => trivial
        next => exact inductionHypothesis _
        next => exact modified
        next => exact inductionHypothesis _
        next => trivial

section

variable [GoTables] {service : Service State} {config : ServerConfig}

theorem Processed.fails {connection : Connection State}
    {outcome : Connection State × Option Failure}
    (processed : Processed service config connection outcome) : OutputFails outcome.2 := by
  induction processed with
  | waiting => trivial
  | rejected => trivial
  | @rejectedUnheard connection _ cause _ _ _ offered =>
      have failed := writeResponse_fails config connection (protocolError cause)
      rwa [offered] at failed
  | answered _ _ _ inductionHypothesis => exact inductionHypothesis
  | @answeredUnheard connection after value rest failure _ responded =>
      have failed :
          OutputFails ({ connection with inBuf := rest }.respond service config value).2 :=
        writeResponse_fails config _ _
      rwa [responded] at failed

variable (service config) in
theorem processCommands_fails (socket : Socket) (connection : Connection State) :
    OutputFails (connection.processCommands service config socket).2 := by
  rcases processCommands_cases service config socket connection with
    ⟨after, failure, processed, same⟩ | ⟨after, -, same⟩
  · rw [same]
    exact processed.fails
  · rw [same]
    exact flush_fails socket after

end

/-! ## What happens to the queue

Everything that happens to a connection is made of a few moves. -/

/-- One move: a response is queued or refused, the socket takes bytes, or
something else than the queue changes. -/
inductive Move (config : ServerConfig) : Connection State → Connection State → Prop where
  | queue (connection : Connection State) (value : Value) :
      (connection.writeResponse config value).2 = none →
      Move config connection
        { connection.offer value with outBuf := connection.outBuf ++ encode value }
  | refuse (connection : Connection State) (value : Value) :
      Move config connection (connection.offer value)
  | take (connection : Connection State) (count : Nat) :
      Move config connection (connection.take count)
  | other (connection : Connection State) (inBuf : Bytes) (session : Session State)
      (closed : Option Failure) :
      Move config connection { connection with inBuf, session, closed }

theorem move_of_writeResponse {config : ServerConfig} {connection after : Connection State}
    {value : Value} {failure : Option Failure}
    (offered : connection.writeResponse config value = (after, failure)) :
    Move config connection after := by
  cases failure with
  | none =>
      rw [writeResponse_ok offered]
      exact .queue connection value (congrArg Prod.snd offered)
  | some failure =>
      rw [writeResponse_failed offered]
      exact .refuse connection value

open Relation

theorem settle_moves {config : ServerConfig} {connection : Connection State}
    {outcome : Connection State × Option Failure}
    (moves : ReflTransGen (Move config) connection outcome.1) :
    ReflTransGen (Move config) connection (settle outcome) :=
  moves.tail (.other outcome.1 outcome.1.inBuf outcome.1.session outcome.2)

theorem flush_moves (config : ServerConfig) (socket : Socket) (connection : Connection State) :
    ReflTransGen (Move config) connection (connection.flush socket).1 := by
  rcases socket with ⟨writes, modify⟩
  simp only [flush, Holder.flush]
  induction writes generalizing connection with
  | nil =>
      rw [flushLoop_nil]
  | cons write writes inductionHypothesis =>
      rw [flushLoop_cons]
      split
      next => exact .refl
      next =>
        split
        next => exact .refl
        next => exact .head (.take connection _) (inductionHypothesis _)
        next => exact .refl
        next => exact inductionHypothesis connection
        next => exact .refl

section

variable [GoTables] {service : Service State} {config : ServerConfig}

theorem respond_moves {connection after : Connection State} {value : Value} {rest : Bytes}
    {failure : Option Failure}
    (responded : { connection with inBuf := rest }.respond service config value =
      (after, failure)) :
    ReflTransGen (Move config) connection after :=
  .head (.other connection rest (connection.session.answer service value).1 connection.closed)
    (.single (move_of_writeResponse responded))

theorem Processed.moves {connection : Connection State}
    {outcome : Connection State × Option Failure}
    (processed : Processed service config connection outcome) :
    ReflTransGen (Move config) connection outcome.1 := by
  induction processed with
  | waiting => exact .refl
  | @rejected connection after _ _ _ offered =>
      exact .head (move_of_writeResponse offered)
        (.single (.other after [] after.session after.closed))
  | rejectedUnheard _ _ offered => exact .single (move_of_writeResponse offered)
  | answered _ responded _ inductionHypothesis =>
      exact (respond_moves responded).trans inductionHypothesis
  | answeredUnheard _ responded => exact respond_moves responded

theorem processCommands_moves (socket : Socket) (connection : Connection State) :
    ReflTransGen (Move config) connection
      (connection.processCommands service config socket).1 := by
  rcases processCommands_cases service config socket connection with
    ⟨after, failure, processed, same⟩ | ⟨after, processed, same⟩
  · rw [same]
    exact processed.moves
  · rw [same]
    exact processed.moves.trans (flush_moves config socket after)

theorem step_moves (connection : Connection State) (event : Event) :
    ReflTransGen (Move config) connection (connection.step service config event) := by
  by_cases closed : connection.closed.isSome
  · rw [step.eq_def, if_pos closed]
  · rw [step_of_open _ _ (by simpa using closed)]
    cases event with
    | read data socket =>
        simp only
        split
        next =>
          exact .single (.other connection connection.inBuf connection.session (some .eof))
        next =>
          split
          next =>
            exact .single
              (.other connection connection.inBuf connection.session (some .inputLimit))
          next =>
            exact .head
              (.other connection (connection.inBuf ++ data) connection.session connection.closed)
              (settle_moves (processCommands_moves socket _))
    | drained socket => exact settle_moves (processCommands_moves socket connection)
    | readFailed error =>
        exact .single (.other connection connection.inBuf connection.session (some (.read error)))
    | writable socket => exact settle_moves (flush_moves config socket connection)
    | dropped =>
        exact .single (.other connection connection.inBuf connection.session (some .dropped))

variable (service config) in
theorem run_moves (connection : Connection State) (events : List Event) :
    ReflTransGen (Move config) connection (connection.run service config events) := by
  induction events generalizing connection with
  | nil => exact .refl
  | cons event events inductionHypothesis =>
      exact (step_moves connection event).trans (inductionHypothesis _)

end

/-- What has been offered stays in the record. -/
theorem offered_prefix_of_moves {config : ServerConfig} {connection after : Connection State}
    (moves : ReflTransGen (Move config) connection after) :
    connection.offered <+: after.offered := by
  induction moves with
  | refl => exact List.prefix_rfl
  | tail _ move inductionHypothesis =>
      refine inductionHypothesis.trans ?_
      cases move with
      | queue value accepted => exact List.prefix_append _ _
      | refuse value => exact List.prefix_append _ _
      | take count => exact List.prefix_rfl
      | other inBuf session closed => exact List.prefix_rfl

end Connection

end Carrot.Reactor
