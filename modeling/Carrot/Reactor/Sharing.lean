import Carrot.Reactor.Descriptors

/-!
# Connections that share an executor

The event loop handles one event after the other, so the commands of all
connections are executed one after the other.  There is one order of all
requests such that the shared state and every reply are those of answering the
requests in this order, and such that the requests of a connection are those in
its own input, in its own order.
-/

namespace Carrot.Reactor

/-! ## What a connection sends -/

theorem encodeAll_mono {first second : List Value} (begins : first <+: second) :
    encodeAll first <+: encodeAll second := by
  obtain ⟨rest, rfl⟩ := begins
  rw [encodeAll_append]
  exact List.prefix_append _ _

/-- What one connection has offered and queued since an earlier moment: the
replies that it has queued are the first of those that it has offered, and all
of them unless it has failed. -/
structure Sends {State : Type} (before after : Connection State) (failure : Option Failure)
    (replies queued : List Value) : Prop where
  offered : after.offered.map Offer.response = before.offered.map Offer.response ++ replies
  begins : queued <+: replies
  bytes : after.sent ++ after.outBuf = before.sent ++ before.outBuf ++ encodeAll queued
  whole : failure = none → queued = replies

namespace Sends

variable {State : Type} {before between after : Connection State} {failure : Option Failure}
  {replies queued more moreQueued : List Value}

/-- Nothing is offered, whatever the socket takes. -/
theorem quiet (offers : after.offered = before.offered)
    (same : after.sent ++ after.outBuf = before.sent ++ before.outBuf)
    (failure : Option Failure) : Sends before after failure [] [] where
  offered := by
    rw [offers]
    exact (List.append_nil _).symm
  begins := List.prefix_rfl
  bytes := same.trans (List.append_nil _).symm
  whole _ := rfl

theorem trans (first : Sends before between none replies queued)
    (second : Sends between after failure more moreQueued) :
    Sends before after failure (replies ++ more) (queued ++ moreQueued) where
  offered := by rw [second.offered, first.offered, List.append_assoc]
  begins := by
    rw [first.whole rfl]
    exact (List.prefix_append_right_inj _).mpr second.begins
  bytes := by rw [second.bytes, first.bytes, encodeAll_append, List.append_assoc]
  whole finished := by rw [first.whole rfl, second.whole finished]

/-- A connection that fails before it offers anything. -/
theorem stopped (before : Connection State) (failure : Failure) :
    Sends before { before with closed := some failure } (some failure) [] [] where
  offered := (List.append_nil _).symm
  begins := List.prefix_rfl
  bytes := (List.append_nil _).symm
  whole _ := rfl

/-- One response is queued or refused. -/
theorem writeResponse (before : Connection State) (inBuf : Bytes) (session : Session State)
    {config : ServerConfig} {value : Value}
    (offered : { before with inBuf, session }.writeResponse config value = (after, failure)) :
    ∃ queued, Sends before after failure [value] queued := by
  cases failure with
  | none =>
      rw [Connection.writeResponse_ok offered]
      refine ⟨[value], ⟨?_, List.prefix_rfl, ?_, fun _ => rfl⟩⟩
      · simp [Connection.offer]
      · simp [Connection.offer, encodeAll]
  | some failure =>
      rw [Connection.writeResponse_failed offered]
      refine ⟨[], ⟨?_, List.nil_prefix, ?_, fun finished => ?_⟩⟩
      · simp [Connection.offer]
      · simp [Connection.offer, encodeAll]
      · cases finished

theorem flush (first : Sends before between none replies queued) (socket : Socket) :
    Sends before (between.flush socket).1 (between.flush socket).2 replies queued := by
  obtain ⟨sent, outBuf, same, whole⟩ := between.flush_fields socket
  rw [same]
  exact ⟨first.offered, first.begins, whole.trans first.bytes, fun _ => first.whole rfl⟩

end Sends

namespace Connection

variable {State : Type} [GoTables] {service : Service State} {config : ServerConfig}

theorem Processed.sends {connection : Connection State}
    {outcome : Connection State × Option Failure}
    (processed : Processed service config connection outcome) :
    ∃ replies queued, Sends connection outcome.1 outcome.2 replies queued := by
  induction processed with
  | waiting => exact ⟨[], [], .quiet rfl rfl none⟩
  | @rejected connection _ _ _ _ offered =>
      obtain ⟨queued, sends⟩ := Sends.writeResponse connection _ _ offered
      exact ⟨_, queued, ⟨sends.offered, sends.begins, sends.bytes, sends.whole⟩⟩
  | @rejectedUnheard connection _ _ _ _ _ offered =>
      obtain ⟨queued, sends⟩ := Sends.writeResponse connection _ _ offered
      exact ⟨_, queued, sends⟩
  | @answered connection _ _ _ _ _ responded _ inductionHypothesis =>
      obtain ⟨queued, sends⟩ := Sends.writeResponse connection _ _ responded
      obtain ⟨more, moreQueued, later⟩ := inductionHypothesis
      exact ⟨_, _, sends.trans later⟩
  | @answeredUnheard connection _ _ _ _ _ responded =>
      obtain ⟨queued, sends⟩ := Sends.writeResponse connection _ _ responded
      exact ⟨_, queued, sends⟩

variable (service config) in
theorem processCommands_sends (socket : Socket) (connection : Connection State) :
    ∃ replies queued, Sends connection (connection.processCommands service config socket).1
      (connection.processCommands service config socket).2 replies queued := by
  rcases processCommands_cases service config socket connection with
    ⟨after, failure, processed, same⟩ | ⟨after, processed, same⟩
  · obtain ⟨replies, queued, sends⟩ := processed.sends
    rw [same]
    exact ⟨replies, queued, sends⟩
  · obtain ⟨replies, queued, sends⟩ := processed.sends
    rw [same]
    exact ⟨replies, queued, sends.flush socket⟩

theorem step_sends {connection : Connection State} (opened : connection.closed = none)
    (event : Event) :
    ∃ replies queued, Sends connection (connection.step service config event)
      (connection.step service config event).closed replies queued := by
  have settled : ∀ {outcome : Connection State × Option Failure} {replies queued : List Value},
      Sends connection outcome.1 outcome.2 replies queued →
      Sends connection (settle outcome) (settle outcome).closed replies queued :=
    fun sends => ⟨sends.offered, sends.begins, sends.bytes, sends.whole⟩
  rw [step_of_open _ _ opened]
  cases event with
  | read data socket =>
      simp only
      split
      next => exact ⟨[], [], .stopped connection .eof⟩
      next =>
        split
        next => exact ⟨[], [], .stopped connection .inputLimit⟩
        next =>
          obtain ⟨replies, queued, sends⟩ := processCommands_sends service config socket
            { connection with inBuf := connection.inBuf ++ data }
          exact ⟨replies, queued, settled ⟨sends.offered, sends.begins, sends.bytes, sends.whole⟩⟩
  | drained socket =>
      obtain ⟨replies, queued, sends⟩ := processCommands_sends service config socket connection
      exact ⟨replies, queued, settled sends⟩
  | readFailed error => exact ⟨[], [], .stopped connection (.read error)⟩
  | writable socket =>
      have quiet : Sends connection connection none [] [] := .quiet rfl rfl none
      exact ⟨[], [], settled (quiet.flush socket)⟩
  | dropped => exact ⟨[], [], .stopped connection .dropped⟩

variable (service config) in
theorem run_sends {connection : Connection State} (opened : connection.closed = none)
    (events : List Event) :
    ∃ replies queued, Sends connection (connection.run service config events)
      (connection.run service config events).closed replies queued := by
  induction events generalizing connection with
  | nil => exact ⟨[], [], .quiet rfl rfl _⟩
  | cons event events inductionHypothesis =>
      obtain ⟨replies, queued, first⟩ := step_sends opened event
      cases outcome : (connection.step service config event).closed with
      | none =>
          obtain ⟨more, moreQueued, later⟩ := inductionHypothesis outcome
          rw [outcome] at first
          exact ⟨_, _, first.trans later⟩
      | some failure =>
          have unchanged : connection.run service config (event :: events) =
              connection.step service config event :=
            run_of_closed service config (by rw [outcome]; rfl) events
          rw [unchanged]
          exact ⟨replies, queued, first⟩

variable (service) in
/-- What an open connection keeps is an incomplete message. -/
theorem run_settled {connection : Connection State} (opened : connection.closed = none)
    (settled : Pending config.limits connection.inBuf) (events : List Event)
    (stays : (connection.run service config events).closed = none) :
    Pending config.limits (connection.run service config events).inBuf := by
  induction events generalizing connection with
  | nil => exact settled
  | cons event events inductionHypothesis =>
      cases outcome : (connection.step service config event).closed with
      | none =>
          have kept := (step_serves service opened settled event).2 outcome
          exact inductionHypothesis outcome kept stays
      | some failure =>
          have unchanged : connection.run service config (event :: events) =
              connection.step service config event :=
            run_of_closed service config (by rw [outcome]; rfl) events
          rw [unchanged, outcome] at stays
          cases stays

end Connection

/-! ## One order of all requests -/

/-- What changes the shared state: a request of a connection, or active expiry. -/
inductive Turn where
  | request (number : Nat) (request : Request)
  | expire

/-- The requests of one connection. -/
def requestsOf (number : Nat) (history : List Turn) : List Request :=
  history.filterMap fun
    | .request other request => if other = number then some request else none
    | .expire => none

/-- The replies to one connection. -/
def repliesTo (number : Nat) (replies : List (Nat × Value)) : List Value :=
  replies.filterMap fun reply => if reply.1 = number then some reply.2 else none

theorem requestsOf_append (number : Nat) (first second : List Turn) :
    requestsOf number (first ++ second) = requestsOf number first ++ requestsOf number second :=
  List.filterMap_append

theorem repliesTo_append (number : Nat) (first second : List (Nat × Value)) :
    repliesTo number (first ++ second) = repliesTo number first ++ repliesTo number second :=
  List.filterMap_append

theorem requestsOf_own (number : Nat) (requests : List Request) :
    requestsOf number (requests.map (.request number)) = requests := by
  simp [requestsOf, List.filterMap_map]

theorem requestsOf_other {number other : Nat} (different : other ≠ number)
    (requests : List Request) : requestsOf number (requests.map (.request other)) = [] := by
  simp [requestsOf, List.filterMap_map, different]

theorem repliesTo_own (number : Nat) (values : List Value) :
    repliesTo number (values.map (number, ·)) = values := by
  simp [repliesTo, List.filterMap_map]

theorem repliesTo_other {number other : Nat} (different : other ≠ number) (values : List Value) :
    repliesTo number (values.map (other, ·)) = [] := by
  simp [repliesTo, List.filterMap_map, different]

section

variable [GoTables] {State : Type} (engine : Engine State)

/-- Answer the requests of all connections one after the other. -/
def serve : State → List Turn → State × List (Nat × Value)
  | state, [] => (state, [])
  | state, .request number request :: history =>
      let (session, reply) := answerRequest engine.toService ⟨state, []⟩ request
      let (state, replies) := serve session.state history
      (state, (number, reply) :: replies)
  | state, .expire :: history => serve (engine.activeExpire state) history

theorem serve_append (state : State) (first second : List Turn) :
    serve engine state (first ++ second) =
      ((serve engine (serve engine state first).1 second).1,
        (serve engine state first).2 ++ (serve engine (serve engine state first).1 second).2) := by
  induction first generalizing state with
  | nil => rfl
  | cons turn first inductionHypothesis =>
      cases turn with
      | request number request => simp only [List.cons_append, serve, inductionHypothesis]
      | expire => exact inductionHypothesis _

/-- A reply does not depend on what the connection has executed before. -/
theorem answerRequest_state (service : Service State) (session : Session State)
    (request : Request) :
    (answerRequest service ⟨session.state, []⟩ request).1.state =
        (answerRequest service session request).1.state ∧
      (answerRequest service ⟨session.state, []⟩ request).2 =
        (answerRequest service session request).2 := by
  cases request with
  | malformed cause => exact ⟨rfl, rfl⟩
  | message value =>
      simp only [answerRequest, Session.answer]
      split
      next => exact ⟨rfl, rfl⟩
      next => exact ⟨rfl, rfl⟩

theorem serve_requests (number : Nat) (session : Session State) (requests : List Request) :
    serve engine session.state (requests.map (.request number)) =
      ((converse (answerRequest engine.toService) session requests).1.state,
        (converse (answerRequest engine.toService) session requests).2.map (number, ·)) := by
  induction requests generalizing session with
  | nil => rfl
  | cons request requests inductionHypothesis =>
      obtain ⟨sameState, sameReply⟩ := answerRequest_state engine.toService session request
      simp only [List.map_cons, serve, converse, sameState, sameReply, inductionHypothesis]

/-! ## Accounts -/

/-- How one connection appears in the order of all requests.  Its requests are
the first ones in its input, and all of them as long as it is open; what it has
sent and queued is the beginning of the replies to them. -/
structure Accounted (limits : Limits) (history : List Turn) (replies : List (Nat × Value))
    (slot : Slot State) : Prop where
  requests : requestsOf slot.number history <+: (received limits [] slot.heard).1
  executed : slot.connection.session.executed =
    commandsOf (messagesOf (requestsOf slot.number history))
  offered : slot.connection.offered.map Offer.response = repliesTo slot.number replies
  bytes : slot.connection.sent ++ slot.connection.outBuf <+:
    encodeAll (repliesTo slot.number replies)
  caughtUp : slot.connection.closed = none →
    requestsOf slot.number history = (received limits [] slot.heard).1 ∧
      slot.connection.inBuf = (received limits [] slot.heard).2
  queued : slot.connection.closed = none →
    slot.connection.sent ++ slot.connection.outBuf = encodeAll (repliesTo slot.number replies)
  settled : slot.connection.closed = none → Pending limits slot.connection.inBuf

variable {engine} {limits : Limits} {history : List Turn} {replies : List (Nat × Value)}
  {slot : Slot State}

theorem Accounted.close (accounted : Accounted limits history replies slot) (failure : Failure) :
    Accounted limits history replies (slot.close failure) where
  requests := accounted.requests
  executed := accounted.executed
  offered := accounted.offered
  bytes := accounted.bytes
  caughtUp closed := by cases closed
  queued closed := by cases closed
  settled closed := by cases closed

/-- The turns of another connection do not matter. -/
theorem Accounted.other (accounted : Accounted limits history replies slot) {number : Nat}
    (different : number ≠ slot.number) (requests : List Request) (values : List Value) :
    Accounted limits (history ++ requests.map (.request number))
      (replies ++ values.map (number, ·)) slot := by
  have sameRequests : requestsOf slot.number (history ++ requests.map (.request number)) =
      requestsOf slot.number history := by
    rw [requestsOf_append, requestsOf_other different, List.append_nil]
  have sameReplies : repliesTo slot.number (replies ++ values.map (number, ·)) =
      repliesTo slot.number replies := by
    rw [repliesTo_append, repliesTo_other different, List.append_nil]
  refine ⟨?_, ?_, ?_, ?_, ?_, ?_, accounted.settled⟩
  · rw [sameRequests]
    exact accounted.requests
  · rw [sameRequests]
    exact accounted.executed
  · rw [sameReplies]
    exact accounted.offered
  · rw [sameReplies]
    exact accounted.bytes
  · rw [sameRequests]
    exact accounted.caughtUp
  · rw [sameReplies]
    exact accounted.queued

/-- What happens to a connection while it is handled adds its requests to the
order. -/
theorem Accounted.handle {config : ServerConfig} {state : State} {tick : Nat}
    {events : List Event} (accounted : Accounted config.limits history replies slot)
    (engine : Engine State) (after : Slot State)
    (opened : slot.connection.closed = none) (number : after.number = slot.number)
    (heard : after.heard = slot.heard ++ piecesOf events)
    (same : after.connection =
      (slot.enter state tick).connection.run engine.toService config events) :
    ∃ answered : List Request,
      after.connection.session.state =
        (serve engine state (answered.map (.request slot.number))).1 ∧
      Accounted config.limits (history ++ answered.map (.request slot.number))
        (replies ++ (serve engine state (answered.map (.request slot.number))).2) after := by
  have entered : (slot.enter state tick).connection.closed = none := opened
  have pending := accounted.settled opened
  have caughtUp := accounted.caughtUp opened
  have queued := accounted.queued opened
  obtain ⟨answered, serves⟩ := Connection.run_serves engine.toService entered pending events
  obtain ⟨newReplies, newQueued, sends⟩ := Connection.run_sends engine.toService config entered
    events
  have settled := Connection.run_settled engine.toService entered pending events
  rw [← same] at serves sends settled
  have served := serve_requests engine slot.number (slot.enter state tick).connection.session
    answered
  change serve engine state _ = _ at served
  have sameReplies : newReplies = (converse (answerRequest engine.toService)
      (slot.enter state tick).connection.session answered).2 :=
    List.append_cancel_left (sends.offered.symm.trans serves.offered)
  have ownRequests : requestsOf after.number (history ++ answered.map (.request slot.number)) =
      requestsOf slot.number history ++ answered := by
    rw [number, requestsOf_append, requestsOf_own]
  have ownReplies : repliesTo after.number
      (replies ++ (serve engine state (answered.map (.request slot.number))).2) =
        repliesTo slot.number replies ++ newReplies := by
    rw [number, served, repliesTo_append, repliesTo_own, sameReplies]
  have input : received config.limits [] after.heard =
      ((received config.limits [] slot.heard).1 ++
          (received config.limits slot.connection.inBuf (piecesOf events)).1,
        (received config.limits slot.connection.inBuf (piecesOf events)).2) := by
    rw [heard, received_append, caughtUp.2]
  refine ⟨answered, ?_, ?_, ?_, ?_, ?_, ?_, ?_, settled⟩
  · rw [served, serves.session]
  · rw [ownRequests, input, caughtUp.1]
    exact (List.prefix_append_right_inj _).mpr serves.started
  · rw [ownRequests, serves.session, converse_executed, messagesOf_append, commandsOf_append]
    exact congrArg (· ++ _) accounted.executed
  · rw [ownReplies, sends.offered]
    exact congrArg (· ++ _) accounted.offered
  · rw [ownReplies, sends.bytes, encodeAll_append, ← queued]
    exact (List.prefix_append_right_inj _).mpr (encodeAll_mono sends.begins)
  · intro stays
    obtain ⟨all, kept⟩ := serves.finished stays
    rw [ownRequests, input, caughtUp.1]
    exact ⟨congrArg (_ ++ ·) all, kept⟩
  · intro stays
    rw [ownReplies, sends.bytes, encodeAll_append, ← queued, sends.whole stays]
    rfl

end

/-! ## Runs of the event loop -/

namespace EventLoop

variable {State : Type}

/-- All connections that were put into the registry, open and closed ones. -/
def slots (loop : EventLoop State) : List (Slot State) :=
  loop.conns.entries.map Sigma.snd ++ loop.gone

theorem slots_of_lookup {loop : EventLoop State} {fd : Nat} {slot : Slot State}
    (found : loop.conns.lookup fd = some slot) :
    loop.slots.Perm (slot :: ((loop.conns.erase fd).entries.map Sigma.snd ++ loop.gone)) := by
  have entries := (AList.perm_of_lookup found).map Sigma.snd
  exact entries.append_right loop.gone

theorem erase_insert (conns : AList fun _ : Nat => Slot State) (fd : Nat) (slot : Slot State) :
    (conns.insert fd slot).erase fd = conns.erase fd := by
  apply AList.ext
  change List.kerase fd (⟨fd, slot⟩ :: List.kerase fd conns.entries) = List.kerase fd conns.entries
  exact @List.kerase_cons_eq Nat (fun _ => Slot State) _ fd ⟨fd, slot⟩ _ rfl

section

variable [GoTables]

/-- An order of all requests that explains a state of the event loop. -/
structure Shares (config : LoopConfig) (engine : Engine State) (start : State)
    (history : List Turn) (loop : EventLoop State) : Prop where
  state : loop.state = (serve engine start history).1
  numbers : (loop.slots.map Slot.number).Perm (List.range loop.accepted)
  known : ∀ number request, .request number request ∈ history → number < loop.accepted
  accounted : ∀ slot ∈ loop.slots,
    Accounted config.server.limits history (serve engine start history).2 slot

variable {clock : Nat → Clock} {config : LoopConfig} {engine : Engine State} {start : State}
  {history : List Turn} {loop after : EventLoop State}

theorem shares_new (config : LoopConfig) (engine : Engine State) (listenerFD epfd : Nat)
    (state : State) : Shares config engine state [] (new listenerFD epfd state) where
  state := rfl
  numbers := .nil
  known number request impossible := by cases impossible
  accounted slot impossible := by cases impossible

/-- One connection moves, and its requests are added to the order. -/
theorem Shares.move (shares : Shares config engine start history loop)
    {slot : Slot State} (moved : Slot State) {rest : List (Slot State)} (answered : List Request)
    (before : loop.slots.Perm (slot :: rest)) (afterwards : after.slots.Perm (moved :: rest))
    (number : moved.number = slot.number) (accepted : after.accepted = loop.accepted)
    (state : after.state = (serve engine loop.state (answered.map (.request slot.number))).1)
    (accounted : Accounted config.server.limits
      (history ++ answered.map (.request slot.number))
      ((serve engine start history).2 ++
        (serve engine loop.state (answered.map (.request slot.number))).2) moved) :
    Shares config engine start (history ++ answered.map (.request slot.number)) after := by
  have numbers : (slot.number :: rest.map Slot.number).Perm (List.range loop.accepted) :=
    (before.map Slot.number).symm.trans shares.numbers
  have distinct : slot.number ∉ rest.map Slot.number :=
    (List.nodup_cons.mp (numbers.nodup_iff.mpr List.nodup_range)).1
  have served : serve engine start (history ++ answered.map (.request slot.number)) =
      ((serve engine loop.state (answered.map (.request slot.number))).1,
        (serve engine start history).2 ++
          (serve engine loop.state (answered.map (.request slot.number))).2) := by
    rw [serve_append, ← shares.state]
  refine ⟨?_, ?_, ?_, ?_⟩
  · rw [state, served]
  · rw [accepted]
    refine (afterwards.map Slot.number).trans ?_
    rw [List.map_cons, number]
    exact numbers
  · intro other request membership
    rw [accepted]
    rcases List.mem_append.mp membership with earlier | later
    · exact shares.known other request earlier
    · obtain ⟨_, _, same⟩ := List.mem_map.mp later
      cases same
      exact List.mem_range.mp (numbers.subset List.mem_cons_self)
  · intro other membership
    rw [served]
    rcases List.mem_cons.mp (afterwards.subset membership) with rfl | inRest
    · exact accounted
    · have different : slot.number ≠ other.number := by
        intro same
        exact distinct (same ▸ List.mem_map_of_mem inRest)
      have own := shares.accounted other (before.symm.subset (List.mem_cons_of_mem _ inRest))
      have replies := serve_requests engine slot.number ⟨loop.state, []⟩ answered
      rw [replies]
      exact own.other different answered _

/-- Nothing happens to the connections. -/
theorem Shares.same (shares : Shares config engine start history loop)
    (state : after.state = loop.state) (slots : after.slots = loop.slots)
    (accepted : after.accepted = loop.accepted) :
    Shares config engine start history after := by
  refine ⟨?_, ?_, ?_, ?_⟩
  · rw [state]
    exact shares.state
  · rw [slots, accepted]
    exact shares.numbers
  · rw [accepted]
    exact shares.known
  · rw [slots]
    exact shares.accounted

theorem Shares.expire (shares : Shares config engine start history loop) :
    Shares config engine start (history ++ [.expire])
      { loop with state := engine.activeExpire loop.state } := by
  have served : serve engine start (history ++ [.expire]) =
      (engine.activeExpire loop.state, (serve engine start history).2) := by
    rw [serve_append, ← shares.state]
    simp only [serve, List.append_nil]
  have same : ∀ number, requestsOf number (history ++ [.expire]) = requestsOf number history := by
    intro number
    rw [requestsOf_append]
    exact List.append_nil _
  refine ⟨?_, shares.numbers, ?_, ?_⟩
  · rw [served]
  · intro number request membership
    rcases List.mem_append.mp membership with earlier | later
    · exact shares.known number request earlier
    · cases List.mem_singleton.mp later
  · intro slot membership
    have own := shares.accounted slot membership
    rw [served]
    refine ⟨?_, ?_, own.offered, own.bytes, ?_, own.queued, own.settled⟩
    · rw [same]
      exact own.requests
    · rw [same]
      exact own.executed
    · rw [same]
      exact own.caughtUp

omit [GoTables] in
/-- The connections after one of them has been closed. -/
theorem slots_closed (fd : Nat) (slot : Slot State) (loop : EventLoop State) :
    List.Perm ((loop.conns.erase fd).entries.map Sigma.snd ++ (loop.gone ++ [slot]))
      (slot :: ((loop.conns.erase fd).entries.map Sigma.snd ++ loop.gone)) := by
  rw [← List.append_assoc]
  exact List.perm_append_singleton _ _

theorem Shares.closeClient (shares : Shares config engine start history loop)
    (failure : Failure) {fd : Nat}
    (opened : ∀ slot, loop.conns.lookup fd = some slot → slot.connection.closed = none) :
    Shares config engine start history (loop.closeClient failure fd) := by
  cases found : loop.conns.lookup fd with
  | none =>
      rw [EventLoop.closeClient, found]
      exact shares
  | some slot =>
      have before := slots_of_lookup found
      have own := shares.accounted slot (before.symm.subset List.mem_cons_self)
      rw [closeClient_eq found (opened slot found)]
      have closed : Shares config engine start (history ++ ([] : List Request).map
          (.request slot.number)) { loop with
            conns := loop.conns.erase fd
            interest := loop.interest.erase fd
            descriptors := loop.descriptors.erase fd
            gone := loop.gone ++ [slot.close failure] } := by
        apply shares.move (slot.close failure) [] before ?_ rfl ?_ ?_
        · simp only [List.map_nil, serve, List.append_nil]
          exact own.close failure
        · exact slots_closed fd (slot.close failure) loop
        · rfl
        · rfl
      rwa [List.map_nil, List.append_nil] at closed

theorem accounted_new (limits : Limits) (history : List Turn) (replies : List (Nat × Value))
    {number : Nat} (noRequests : requestsOf number history = [])
    (noReplies : repliesTo number replies = []) (member : Member State)
    (fresh : ∃ state, member.connection = .new state)
    (bounded : Pending limits []) :
    Accounted limits history replies ⟨number, member, []⟩ := by
  obtain ⟨state, same⟩ := fresh
  have connection : (⟨number, member, []⟩ : Slot State).connection = .new state := same
  refine ⟨?_, ?_, ?_, ?_, ?_, ?_, ?_⟩
  · rw [noRequests]
    exact List.nil_prefix
  · rw [noRequests, connection]
    rfl
  · rw [noReplies, connection]
    rfl
  · rw [noReplies, connection]
    exact List.nil_prefix
  · rw [noRequests, connection]
    exact fun _ => ⟨rfl, rfl⟩
  · rw [noReplies, connection]
    exact fun _ => rfl
  · rw [connection]
    exact fun _ => bounded

/-- Replies go to those who have sent requests. -/
theorem repliesTo_serve (engine : Engine State) (state : State) (number : Nat)
    (history : List Turn) (silent : requestsOf number history = []) :
    repliesTo number (serve engine state history).2 = [] := by
  induction history generalizing state with
  | nil => rfl
  | cons turn history inductionHypothesis =>
      cases turn with
      | expire => exact inductionHypothesis _ silent
      | request other request =>
          by_cases same : other = number
          · simp [requestsOf, same] at silent
          · have later : requestsOf number history = [] := by
              simpa [requestsOf, same] using silent
            have others := inductionHypothesis
              (answerRequest engine.toService ⟨state, []⟩ request).1.state later
            simpa [serve, repliesTo, same] using others

/-- A connection is put into the registry. -/
theorem Shares.enroll (shares : Shares config engine start history loop) {fd : Nat}
    (absent : fd ∉ loop.conns) :
    Shares config engine start history (loop.enroll clock fd) := by
  let slot : Slot State := ⟨loop.accepted, .new clock loop.state loop.tick, []⟩
  have unknown : requestsOf loop.accepted history = [] := by
    apply List.filterMap_eq_nil_iff.mpr
    intro turn membership
    cases turn with
    | expire => rfl
    | request number request =>
        have earlier := shares.known number request membership
        exact if_neg (Nat.ne_of_lt earlier)
  have slots : (loop.enroll clock fd).slots = slot :: loop.slots := by
    simp only [EventLoop.slots, EventLoop.enroll, AList.entries_insert_of_notMem absent]
    rfl
  refine ⟨shares.state, ?_, ?_, ?_⟩
  · rw [slots, List.map_cons]
    change List.Perm (loop.accepted :: _) (List.range (loop.accepted + 1))
    rw [List.range_succ]
    exact (shares.numbers.cons _).trans (List.perm_append_singleton _ _).symm
  · intro number request membership
    exact Nat.lt_succ_of_lt (shares.known number request membership)
  · intro other membership
    rw [slots] at membership
    rcases List.mem_cons.mp membership with rfl | earlier
    · exact accounted_new _ _ _ unknown (repliesTo_serve engine start _ _ unknown) _
        ⟨loop.state, rfl⟩ (pending_nil rfl)
    · exact shares.accounted other earlier

theorem Shares.adopt (shares : Shares config engine start history loop) (sound : Sound config loop)
    {fd : Nat} (register : Option Bytes) (fresh : fd ∉ loop.descriptors) :
    Shares config engine start history ((loop.accept4 fd).adopt clock fd register) := by
  have accepted : Shares config engine start history (loop.accept4 fd) :=
    ⟨shares.state, shares.numbers, shares.known, shares.accounted⟩
  have enrolled : Shares config engine start history ((loop.accept4 fd).enroll clock fd) :=
    accepted.enroll (sound.fresh fresh).2.2
  cases register with
  | none => exact ⟨enrolled.state, enrolled.numbers, enrolled.known, enrolled.accounted⟩
  | some error =>
      apply enrolled.closeClient
      intro slot found
      cases (AList.lookup_insert _).symm.trans found
      rfl

/-- A connection is handled. -/
theorem Shares.handle (shares : Shares config engine start history loop)
    (sound : Sound config loop) {fd : Nat} {slot : Slot State} {ready : Ready}
    {member : Member State} (found : loop.conns.lookup fd = some slot)
    (handled : (slot.enter loop.state loop.tick).handleClientEvent clock engine.toService
      config.toMemberConfig ready = (member, none)) :
    ∃ more, Shares config engine start (history ++ more) (loop.leave fd slot member
      (piecesOf ((slot.enter loop.state loop.tick).events clock config.toMemberConfig ready))) := by
  have opened := sound.opened fd slot found
  have before := slots_of_lookup found
  have own := shares.accounted slot (before.symm.subset List.mem_cons_self)
  have same := Member.settle_connection clock engine.toService config.toMemberConfig
    ((enter_closed slot loop.state loop.tick).trans opened) ready
  rw [handled] at same
  let pieces :=
    piecesOf ((slot.enter loop.state loop.tick).events clock config.toMemberConfig ready)
  let moved : Slot State := { slot with member, heard := slot.heard ++ pieces }
  obtain ⟨answered, state, accounted⟩ := own.handle engine moved opened rfl rfl same
  refine ⟨_, shares.move moved answered before ?_ rfl rfl state accounted⟩
  apply List.Perm.of_eq
  simp only [slots, leave, AList.entries_insert, List.map_cons, List.cons_append]
  rfl

/-- A connection is handled and closed. -/
theorem Shares.finish (shares : Shares config engine start history loop)
    (sound : Sound config loop) {fd : Nat} {slot : Slot State} {ready : Ready}
    {member : Member State} {cause : Cause} (found : loop.conns.lookup fd = some slot)
    (handled : (slot.enter loop.state loop.tick).handleClientEvent clock engine.toService
      config.toMemberConfig ready = (member, some cause)) :
    ∃ more, Shares config engine start (history ++ more) ((loop.leave fd slot member
      (piecesOf ((slot.enter loop.state loop.tick).events clock config.toMemberConfig
        ready))).closeClient cause.failure fd) := by
  have opened := sound.opened fd slot found
  have entered := (enter_closed slot loop.state loop.tick).trans opened
  have before := slots_of_lookup found
  have own := shares.accounted slot (before.symm.subset List.mem_cons_self)
  have same := Member.settle_connection clock engine.toService config.toMemberConfig entered ready
  have stays := Member.handleClientEvent_closed clock engine.toService config.toMemberConfig
    entered ready
  rw [handled] at same stays
  let pieces :=
    piecesOf ((slot.enter loop.state loop.tick).events clock config.toMemberConfig ready)
  let moved : Slot State := { slot with member, heard := slot.heard ++ pieces }
  have stored : (loop.leave fd slot member pieces).conns.lookup fd = some moved :=
    AList.lookup_insert _
  obtain ⟨answered, state, accounted⟩ :=
    own.handle engine (moved.close cause.failure) opened rfl rfl same
  rw [closeClient_eq stored stays]
  refine ⟨_, shares.move (moved.close cause.failure) answered before ?_ rfl rfl state accounted⟩
  have closed := slots_closed fd (moved.close cause.failure) (loop.leave fd slot member pieces)
  have rest : (loop.leave fd slot member pieces).conns.erase fd = loop.conns.erase fd :=
    erase_insert loop.conns fd moved
  rw [rest] at closed
  simp only [slots, rest]
  exact closed

theorem Shares.act (shares : Shares config engine start history loop) (sound : Sound config loop)
    (act : Act clock config engine loop after) :
    ∃ more, Shares config engine start (history ++ more) after := by
  cases act with
  | refuse => exact ⟨[], by rw [List.append_nil]; exact shares.same rfl rfl rfl⟩
  | adopt register fresh =>
      refine ⟨[], ?_⟩
      rw [List.append_nil]
      exact shares.adopt sound register fresh
  | handle found handled => exact shares.handle sound found handled
  | finish found handled => exact shares.finish sound found handled
  | drop fd =>
      refine ⟨[], ?_⟩
      rw [List.append_nil]
      exact shares.closeClient .dropped (sound.opened fd)
  | expire => exact ⟨_, shares.expire⟩
  | look => exact ⟨[], by rw [List.append_nil]; exact shares.same rfl rfl rfl⟩

theorem Shares.acts (shares : Shares config engine start history loop) (sound : Sound config loop)
    (acts : Acts clock config engine loop after) :
    ∃ more, Shares config engine start (history ++ more) after := by
  induction acts with
  | refl => exact ⟨[], by rw [List.append_nil]; exact shares⟩
  | tail acts act inductionHypothesis =>
      obtain ⟨earlier, between⟩ := inductionHypothesis
      obtain ⟨later, final⟩ := between.act (sound.acts acts) act
      rw [List.append_assoc] at final
      exact ⟨_, final⟩

/-- However the events of many connections are interleaved, there is one order of
all their requests such that the shared state and all replies are those of
answering the requests in this order, and such that each connection, whether it
is still open or not, appears with the requests of its own input, in their
order. -/
theorem connections_served_in_one_order (clock : Nat → Clock) (config : LoopConfig)
    (engine : Engine State) (allocator : Allocator) (listenerFD epfd : Nat) (state : State)
    (rounds : List Round) (events : List (Bool × PollEvent)) :
    let start := new listenerFD epfd state
    let loop := (start.rounds clock config engine allocator rounds).1
    let now := (loop.dispatchAll clock config engine allocator events).1
    ∃ history : List Turn,
      now.state = (serve engine state history).1 ∧
      (now.slots.map Slot.number).Perm (List.range now.accepted) ∧
      ∀ slot ∈ now.slots,
        Accounted config.server.limits history (serve engine state history).2 slot := by
  intro start loop now
  have acts : Acts clock config engine start now :=
    (acts_rounds clock config engine allocator rounds start).trans
      (acts_dispatchAll clock config engine allocator events loop)
  obtain ⟨history, shares⟩ := (shares_new config engine listenerFD epfd state).acts
    (sound_new config listenerFD epfd state) acts
  exact ⟨_, shares.state, shares.numbers, shares.accounted⟩

end

end EventLoop

end Carrot.Reactor
