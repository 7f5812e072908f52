import Carrot.Executor.Execute
import Carrot.Resp.Frames

/-!
# The server with a goroutine for each client

A client sends requests one after the other.  Each is decoded, parsed and
executed, and its reply is written before the next one is decoded.  Parsing and
executing a request is the same in both servers; what executes the commands is
a parameter here.
-/

namespace Carrot

/-- The limits that both servers take from their configuration. -/
structure ServerConfig where
  maxRequestBytes : Nat
  maxResponseBytes : Nat

/-- The limits of the decoder of a connection. -/
def ServerConfig.limits (config : ServerConfig) : Limits :=
  Limits.withMessage config.maxRequestBytes

/-- What executes the commands of a connection. -/
structure Service (State : Type) where
  execute : State → Command → State × Except Bytes Value

/-- The executor as a service.  The state counts the commands, since each may be
committed in a different company. -/
def Executor.service [GoTables] (world : World) (journaled : Bool) (company : Nat → Company) :
    Service (Executor × Nat) where
  execute := fun (executor, count) command =>
    let (executor, result) := executor.execute world journaled (company count) command
    ((executor, count + 1), result)

/-- Answer requests one after the other. -/
def converse {Conversation Request Reply : Type}
    (answer : Conversation → Request → Conversation × Reply) :
    Conversation → List Request → Conversation × List Reply
  | conversation, [] => (conversation, [])
  | conversation, request :: requests =>
      let (conversation, reply) := answer conversation request
      let (conversation, replies) := converse answer conversation requests
      (conversation, reply :: replies)

theorem converse_append {Conversation Request Reply : Type}
    {answer : Conversation → Request → Conversation × Reply} (conversation : Conversation)
    (first second : List Request) :
    converse answer conversation (first ++ second) =
      ((converse answer (converse answer conversation first).1 second).1,
        (converse answer conversation first).2 ++
          (converse answer (converse answer conversation first).1 second).2) := by
  induction first generalizing conversation with
  | nil => rfl
  | cons request first inductionHypothesis =>
      simp only [List.cons_append, converse, inductionHypothesis]

/-- The service and the commands that one connection has passed to it. -/
structure Session (State : Type) where
  state : State
  executed : List Command

section

variable [GoTables]

/-- The commands among the messages of a client. -/
def commandsOf (values : List Value) : List Command :=
  values.filterMap fun value => (parse value).toOption

theorem commandsOf_append (first second : List Value) :
    commandsOf (first ++ second) = commandsOf first ++ commandsOf second :=
  List.filterMap_append

variable {State : Type} (service : Service State)

/-- Parse a message and execute it, and what is sent in reply. -/
def Session.answer (session : Session State) (value : Value) : Session State × Value :=
  match parse value with
  | .error error => (session, .error error.text)
  | .ok command =>
      let (state, result) := service.execute session.state command
      (⟨state, session.executed ++ [command]⟩, sentValue result)

theorem Session.answer_executed (session : Session State) (value : Value) :
    (session.answer service value).1.executed = session.executed ++ commandsOf [value] := by
  cases parsed : parse value with
  | error error => simp [answer, commandsOf, parsed, Except.toOption]
  | ok command => simp [answer, commandsOf, parsed, Except.toOption]

/-- Answer messages in order, and the replies to them. -/
def Session.answerAll (session : Session State) (values : List Value) :
    Session State × List Value :=
  converse (answer service) session values

/-- The messages that are commands are executed, each once and in order. -/
theorem Session.answerAll_executed (session : Session State) (values : List Value) :
    (session.answerAll service values).1.executed = session.executed ++ commandsOf values := by
  induction values generalizing session with
  | nil => simp [answerAll, converse, commandsOf]
  | cons value values inductionHypothesis =>
      rw [answerAll, converse]
      simp only
      rw [← answerAll, inductionHypothesis, answer_executed, List.append_assoc,
        ← commandsOf_append]
      rfl

end

/-! ## Replies -/

def outputLimitError : Bytes := bytes "output limit exceeded"

/-- The errors of the calls on the network connection around one request. -/
structure Network where
  readDeadline : Option Bytes
  writeDeadline : Option Bytes
  write : Option Bytes

/-- No call on the network connection fails. -/
def Network.working : Network := ⟨none, none, none⟩

namespace Server

/-- Encode a reply within the limit and send it. -/
def writeResponse (config : ServerConfig) (network : Network) (value : Value) :
    Except Bytes Bytes :=
  match BufferedWriter.deliver (BufferedWriter.limited config.maxResponseBytes outputLimitError)
      4096 [] (encodeWrites value) with
  | .error (.writing, error) => .error (bytes "encode response: " ++ error)
  | .error (.flushing, error) =>
      .error (bytes "response exceeds " ++ Decimal.formatNat config.maxResponseBytes ++
        bytes " bytes: " ++ error)
  | .ok output =>
      match network.writeDeadline with
      | some error => .error (bytes "set write deadline: " ++ error)
      | none =>
          match network.write with
          | some error => .error (bytes "write response: " ++ error)
          | none => .ok output

/-- A reply is sent over a working connection exactly if it is within the limit. -/
theorem writeResponse_eq_ok {config : ServerConfig} {value : Value} {output : Bytes} :
    writeResponse config .working value = .ok output ↔
      output = encode value ∧ (encode value).length ≤ config.maxResponseBytes := by
  rw [← flatten_encodeWrites]
  unfold writeResponse
  constructor
  · intro success
    split at success
    next => cases success
    next => cases success
    next delivered =>
      cases success
      exact BufferedWriter.deliver_limited_iff.mp delivered
  · intro fits
    rw [BufferedWriter.deliver_limited_iff.mpr fits]
    rfl

end Server

/-! ## Requests -/

/-- What the server has done for a client: the session, and the replies that it
has tried to write. -/
structure Served (State : Type) where
  session : Session State
  replies : List Value

namespace Server

section

variable [GoTables] {State : Type} (service : Service State) (config : ServerConfig)
  (network : Nat → Network)

/-- The loop of `handleClient` over what the client sends from here on.  An
error of any kind ends it. -/
def handleLoop : (fuel : Nat) → Bytes → Served State → Served State
  | 0, _, served => served
  | fuel + 1, input, served =>
      let network := network served.replies.length
      if network.readDeadline.isSome then served
      else
        match decode config.limits input with
        | .error _ => served
        | .ok (value, rest) =>
            let (session, reply) := served.session.answer service value
            let served := ⟨session, served.replies ++ [reply]⟩
            match writeResponse config network reply with
            | .error _ => served
            | .ok _ => handleLoop fuel rest served

/-- Serve a client from a state of the service on. -/
def handleClient (state : State) (input : Bytes) : Served State :=
  handleLoop service config network (input.length + 1) input ⟨⟨state, []⟩, []⟩

variable {config}

theorem handleLoop_frames {input rest : Bytes} {values : List Value}
    (frames : Frames config.limits input values rest) {cause : DecodeError}
    (ends : decode config.limits rest = .error cause) {fuel : Nat} (enough : values.length < fuel)
    (served : Served State)
    (within : ∀ reply ∈ (served.session.answerAll service values).2,
      (encode reply).length ≤ config.maxResponseBytes) :
    handleLoop service config (fun _ => .working) fuel input served =
      ⟨(served.session.answerAll service values).1,
        served.replies ++ (served.session.answerAll service values).2⟩ := by
  induction frames generalizing fuel served with
  | nil input =>
      cases fuel with
      | zero => cases enough
      | succ fuel => simp [handleLoop, Network.working, ends, Session.answerAll, converse]
  | @cons _ _ _ value _ decoded _ inductionHypothesis =>
      cases fuel with
      | zero => cases enough
      | succ fuel =>
          simp only [Session.answerAll, converse, List.forall_mem_cons] at within
          have sent := writeResponse_eq_ok.mpr ⟨rfl, within.1⟩
          have later := inductionHypothesis ends (Nat.lt_of_succ_lt_succ enough)
            ⟨_, served.replies ++ [(served.session.answer service value).2]⟩ within.2
          simp only [handleLoop, decoded, sent, later, Session.answerAll, converse,
            List.append_assoc, List.singleton_append]
          rfl

/-- A stream of frames is answered up to what the decoder does not accept. -/
theorem handleClient_frames {input rest : Bytes} {values : List Value}
    (frames : Frames config.limits input values rest) {cause : DecodeError}
    (ends : decode config.limits rest = .error cause) (state : State)
    (within : ∀ reply ∈ (Session.answerAll service ⟨state, []⟩ values).2,
      (encode reply).length ≤ config.maxResponseBytes) :
    handleClient service config (fun _ => .working) state input =
      ⟨(Session.answerAll service ⟨state, []⟩ values).1,
        (Session.answerAll service ⟨state, []⟩ values).2⟩ := by
  have enough : values.length < input.length + 1 := by
    have count := frames.length_le
    omega
  exact handleLoop_frames service frames ends enough ⟨⟨state, []⟩, []⟩ within

end

end Server

end Carrot
