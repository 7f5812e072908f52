import Carrot.Reactor.EventLoop
import Carrot.Reactor.Queue

/-!
# Clients that close their side

A client may send its requests, close its side and wait for the replies.  The
event loop closes the connection when it sees the end of the input.  Up to then
everything that was answered has been written or is queued, but nothing makes
the event loop wait for the queue.
-/

namespace Carrot.Reactor

namespace Connection

variable [GoTables] {State : Type} {service : Service State} {config : ServerConfig}

variable (service config) in
/-- The end of the input closes a connection and does nothing else. -/
theorem step_of_isEnd {connection : Connection State} (opened : connection.closed = none)
    {event : Event} (ended : event.isEnd = true) :
    ∃ failure,
      connection.step service config event = { connection with closed := some failure } := by
  rw [step_of_open _ _ opened]
  cases event with
  | read data socket => exact ⟨.eof, if_pos (of_decide_eq_true ended)⟩
  | dropped => exact ⟨.dropped, rfl⟩
  | drained | readFailed | writable => cases ended

/-- Only the end of the input closes a connection in an orderly way. -/
theorem isEnd_of_orderly {connection : Connection State} (opened : connection.closed = none)
    {event : Event} {failure : Failure}
    (closes : (connection.step service config event).closed = some failure)
    (orderly : Client.Orderly (some failure)) : event.isEnd = true := by
  have processing : ∀ (socket : Socket) (holding : Connection State),
      (holding.processCommands service config socket).2 ≠ some failure := by
    intro socket holding failed
    have output := processCommands_fails service config socket holding
    rw [failed] at output
    exact Client.not_orderly_of_output output orderly
  rw [step_of_open _ _ opened] at closes
  cases event with
  | read data socket =>
      dsimp only at closes
      by_cases ended : data = []
      · exact decide_eq_true ended
      · rw [if_neg ended] at closes
        split at closes
        next =>
          cases closes
          exact orderly.elim
        next => exact (processing socket _ closes).elim
  | drained socket => exact (processing socket _ closes).elim
  | readFailed error =>
      cases closes
      exact orderly.elim
  | writable socket =>
      have output := flush_fails socket connection
      rw [show (connection.flush socket).2 = some failure from closes] at output
      exact (Client.not_orderly_of_output output orderly).elim
  | dropped => rfl

/-- A run that only the end of the input has closed does what it did before. -/
theorem run_of_end {connection : Connection State} (opened : connection.closed = none)
    {events : List Event}
    (orderly : Client.Orderly (connection.run service config events).closed) :
    ∃ earlier, earlier <+: events ∧ (connection.run service config earlier).closed = none ∧
      connection.run service config events =
        { connection.run service config earlier with
          closed := (connection.run service config events).closed } := by
  induction events generalizing connection with
  | nil => exact ⟨[], List.prefix_rfl, opened, rfl⟩
  | cons event events inductionHypothesis =>
      cases outcome : (connection.step service config event).closed with
      | none =>
          obtain ⟨earlier, isPrefix, stays, same⟩ := inductionHypothesis outcome orderly
          exact ⟨event :: earlier, (List.prefix_cons_inj _).mpr isPrefix, stays, same⟩
      | some failure =>
          have ends : connection.run service config (event :: events) =
              connection.step service config event :=
            run_of_closed service config (by rw [outcome]; rfl) events
          rw [ends, outcome] at orderly ⊢
          obtain ⟨cause, same⟩ := step_of_isEnd service config opened
            (isEnd_of_orderly opened outcome orderly)
          refine ⟨[], List.nil_prefix, opened, ?_⟩
          rw [← outcome, same]
          rfl

/-- A connection that only the end of the input has closed has something left to
write exactly if it was blocked then. -/
theorem endsBlocked_iff {connection : Connection State} (opened : connection.closed = none)
    (settled : Pending config.limits connection.inBuf) {blocked : Bool}
    (right : blocked = true ↔ connection.outBuf ≠ []) {events : List Event}
    (orderly : Client.Orderly (connection.run service config events).closed) :
    endsBlocked service config.limits blocked connection.session connection.inBuf
        connection.outBuf.length events = true ↔
      (connection.run service config events).closed.isSome ∧
        (connection.run service config events).outBuf ≠ [] := by
  induction events generalizing connection blocked with
  | nil =>
      rw [show connection.run service config [] = connection from rfl, opened]
      simp [endsBlocked]
  | cons event events inductionHypothesis =>
      rw [endsBlocked]
      by_cases ended : event.isEnd = true
      · obtain ⟨failure, closes⟩ := step_of_isEnd service config opened ended
        have ends : connection.run service config (event :: events) =
            { connection with closed := some failure } := by
          rw [run, List.foldl_cons, closes]
          exact run_of_closed service config rfl events
        rw [if_pos ended, ends]
        simpa using right
      · rw [if_neg ended]
        cases outcome : (connection.step service config event).closed with
        | none =>
            have flushed := step_flushed service config opened settled outcome
            obtain ⟨session, pending, kept⟩ := step_account service opened settled outcome
            have later := inductionHypothesis outcome pending flushed.blocked orderly
            rw [session, kept, flushed.left] at later
            exact later
        | some failure =>
            have ends : connection.run service config (event :: events) =
                connection.step service config event :=
              run_of_closed service config (by rw [outcome]; rfl) events
            rw [ends, outcome] at orderly
            exact (ended (isEnd_of_orderly opened outcome orderly)).elim

/-- What a connection has done with the beginning of a stream of accepted frames. -/
theorem run_accepted {state : State} {frames : List (Bytes × Value)}
    (accepted : ∀ frame ∈ frames, decode config.limits frame.1 = .ok (frame.2, []))
    {events : List Event} {missing : Bytes}
    (stream : (piecesOf events).flatten ++ missing = (frames.map Prod.fst).flatten)
    (opened : ((new state).run service config events).closed = none) :
    ∃ served, served <+: frames.map Prod.snd ∧ (missing = [] → served = frames.map Prod.snd) ∧
      ((new state).run service config events).session =
        (Session.answerAll service ⟨state, []⟩ served).1 ∧
      ((new state).run service config events).sent ++
          ((new state).run service config events).outBuf =
        encodeAll (Session.answerAll service ⟨state, []⟩ served).2 := by
  obtain ⟨⟨served, isPrefix, requests⟩, -⟩ := cut_of_accepted rfl accepted stream
  have whole : (received config.limits [] (piecesOf events)).1 = served.map .message := by
    rw [received_eq_cut rfl (pending_nil rfl)]
    · exact requests
    · rw [List.nil_append, requests]
      exact not_malformed served
  obtain ⟨answered, serves⟩ := run_serves service (show (new state).closed = none from rfl)
    (pending_nil rfl : Pending config.limits (new state).inBuf) events
  have all := (serves.finished opened).1
  have session := serves.session
  have written := serves.written opened
  rw [all, show (received config.limits (new state).inBuf (piecesOf events)).1 = _ from whole,
    converse_messages] at session written
  refine ⟨served, isPrefix, fun arrived => ?_, session, written⟩
  have frame := Frames.of_accepted rfl accepted []
  rw [List.append_nil, ← stream, arrived, List.append_nil] at frame
  rw [cut_of_frames rfl frame, cut_of_pending rfl (pending_nil rfl), List.append_nil] at requests
  exact (List.map_injective_iff.mpr (fun _ _ => Request.message.inj) requests).symm

end Connection

/-- Replies to the first requests come first. -/
theorem encodeAll_answerAll_mono [GoTables] {State : Type} (service : Service State)
    (session : Session State) {served values : List Value} (isPrefix : served <+: values) :
    encodeAll (session.answerAll service served).2 <+:
      encodeAll (session.answerAll service values).2 := by
  obtain ⟨rest, rfl⟩ := isPrefix
  rw [Session.answerAll, Session.answerAll, converse_append, encodeAll_append]
  exact List.prefix_append _ _

namespace Client

variable [GoTables] {State : Type}

/-- The end of the input is handled while `EPOLLOUT` is armed or, if something
arrives before it in the same call of `OnRead`, after a `Flush` that was blocked. -/
def endsBlocked (service : Service State) (config : ServerConfig) (client : Client State)
    (ready : Ready) : Bool :=
  Reactor.endsBlocked service config.limits client.armed client.connection.session
    client.connection.inBuf client.connection.outBuf.length ready.events

/-- A client that was closed was closed by one of its events. -/
theorem exists_closing {service : Service State} {config : ServerConfig} {client : Client State}
    (opened : client.connection.closed = none) {history : List Ready}
    (closed : (client.run service config history).connection.closed.isSome) :
    ∃ earlier ready later, history = earlier ++ ready :: later ∧
      (client.run service config earlier).connection.closed = none ∧
      client.run service config history =
        (client.run service config earlier).handleClientEvent service config ready := by
  induction history generalizing client with
  | nil =>
      rw [show client.run service config [] = client from rfl, opened] at closed
      cases closed
  | cons ready history inductionHypothesis =>
      by_cases ends : (client.handleClientEvent service config ready).connection.closed.isSome
      · exact ⟨[], ready, history, rfl, opened, run_of_closed ends history⟩
      · have stays : (client.handleClientEvent service config ready).connection.closed = none := by
          simpa using ends
        obtain ⟨earlier, last, later, same, before, result⟩ := inductionHypothesis stays closed
        exact ⟨ready :: earlier, last, later, congrArg (ready :: ·) same, before, result⟩

section

variable {service : Service State} {config : ServerConfig} {state : State}

/-- An open client has something left to write after an event that closes it
exactly if the end of the input was handled while it was blocked. -/
theorem endsBlocked_iff {earlier : List Ready} {ready : Ready}
    (opened : ((new state).run service config earlier).connection.closed = none)
    (orderly : Orderly (((new state).run service config earlier).handleClientEvent service config
      ready).connection.closed) :
    let before := (new state).run service config earlier
    before.endsBlocked service config ready = true ↔
      (before.handleClientEvent service config ready).connection.closed.isSome ∧
        (before.handleClientEvent service config ready).connection.outBuf ≠ [] := by
  intro before
  have alert : before.Alert := run_alert (new_alert state) (opened ▸ trivial)
  have settled : Pending config.limits before.connection.inBuf := by
    rw [run_connection] at opened
    rw [show before.connection = _ from run_connection (new state) earlier]
    exact Connection.run_pending rfl (pending_nil rfl) opened
  rw [handleClientEvent_connection] at orderly ⊢
  exact Connection.endsBlocked_iff opened settled alert orderly

/-- The queue is empty when a client is closed exactly if the end of the input was
not handled while the client was blocked. -/
theorem delivered_iff {history : List Ready}
    (orderly : Orderly ((new state).run service config history).connection.closed) :
    (((new state).run service config history).connection.closed.isSome →
        ((new state).run service config history).connection.outBuf = []) ↔
      ∀ earlier ready later, history = earlier ++ ready :: later →
        ((new state).run service config earlier).connection.closed = none →
          ((new state).run service config earlier).endsBlocked service config ready = false := by
  constructor
  · rintro delivered earlier ready later rfl opened
    rw [run_append] at delivered orderly
    by_contra unblocked
    have blocked := Bool.not_eq_false _ ▸ unblocked
    obtain ⟨closed, queued⟩ := (endsBlocked_iff opened (orderly_of_run orderly)).mp blocked
    -- the event closes the client, and the run ends with it
    have ends : ((new state).run service config earlier).run service config (ready :: later) =
        ((new state).run service config earlier).handleClientEvent service config ready :=
      run_of_closed closed later
    rw [ends] at delivered
    exact queued (delivered closed)
  · intro unblocked closed
    obtain ⟨earlier, ready, later, same, opened, result⟩ := exists_closing rfl closed
    by_contra queued
    rw [result] at orderly closed queued
    have blocked := (endsBlocked_iff opened orderly).mpr ⟨closed, queued⟩
    rw [unblocked earlier ready later same opened] at blocked
    cases blocked

end

/-- A client that sends accepted frames and closes its side, while nothing else
closes the connection.  What was written and what is queued are together the
replies to the requests that were executed, and `EPOLLOUT` is armed exactly if
something is queued.  The queue is empty when the connection is closed exactly if
the end of the input was not handled while `EPOLLOUT` was armed, nor after a
`Flush` of the same event that was blocked. -/
theorem halfClose_delivers_iff (service : Service State) (config : ServerConfig) (state : State)
    {frames : List (Bytes × Value)}
    (accepted : ∀ frame ∈ frames, decode config.limits frame.1 = .ok (frame.2, []))
    {history : List Ready} {missing : Bytes}
    (stream : (piecesOf (history.flatMap Ready.events)).flatten ++ missing =
      (frames.map Prod.fst).flatten)
    (orderly : Orderly ((Client.new state).run service config history).connection.closed) :
    let client := (Client.new state).run service config history
    (∃ served, served <+: frames.map Prod.snd ∧
        client.connection.session = (Session.answerAll service ⟨state, []⟩ served).1 ∧
        client.connection.sent ++ client.connection.outBuf =
          encodeAll (Session.answerAll service ⟨state, []⟩ served).2) ∧
      client.connection.sent <+:
        encodeAll (Session.answerAll service ⟨state, []⟩ (frames.map Prod.snd)).2 ∧
      (client.connection.closed = none → missing = [] →
        client.connection.sent ++ client.connection.outBuf =
          encodeAll (Session.answerAll service ⟨state, []⟩ (frames.map Prod.snd)).2) ∧
      (∀ (before after : Client State) (socket : Socket), before.flush socket = (after, none) →
        (after.armed = true ↔ after.connection.outBuf ≠ [])) ∧
      (client.armed = true ↔ client.connection.outBuf ≠ []) ∧
      ((client.connection.closed.isSome → client.connection.outBuf = []) ↔
        ∀ earlier ready later, history = earlier ++ ready :: later →
          ((Client.new state).run service config earlier).connection.closed = none →
            ((Client.new state).run service config earlier).endsBlocked service config ready =
              false) := by
  intro client
  have alert : client.Alert := run_alert (new_alert state) orderly
  have delivered := delivered_iff orderly
  have connection : client.connection =
      (Connection.new state).run service config (history.flatMap Ready.events) :=
    run_connection (Client.new state) history
  rw [show ((Client.new state).run service config history).connection = _ from connection]
    at orderly
  obtain ⟨earlier, ⟨later, whole⟩, opened, same⟩ :=
    Connection.run_of_end (show (Connection.new state).closed = none from rfl) orderly
  have beginning : (piecesOf earlier).flatten ++ ((piecesOf later).flatten ++ missing) =
      (frames.map Prod.fst).flatten := by
    rw [← stream, ← whole, piecesOf, piecesOf, piecesOf, List.flatMap_append, List.flatten_append,
      List.append_assoc]
  obtain ⟨served, isPrefix, -, session, written⟩ :=
    Connection.run_accepted accepted beginning opened
  have replies : client.connection.sent ++ client.connection.outBuf =
      encodeAll (Session.answerAll service ⟨state, []⟩ served).2 := by
    rw [connection, same]
    exact written
  refine ⟨⟨served, isPrefix, ?_, replies⟩, ?_, ?_, fun _ _ _ => flush_alert, alert, delivered⟩
  · rw [connection, same]
    exact session
  · have sentFirst :
        client.connection.sent <+: client.connection.sent ++ client.connection.outBuf :=
      List.prefix_append _ _
    rw [replies] at sentFirst
    exact sentFirst.trans (encodeAll_answerAll_mono service _ isPrefix)
  · intro stillOpen arrived
    rw [connection] at stillOpen ⊢
    obtain ⟨all, -, complete, -, everything⟩ :=
      Connection.run_accepted accepted stream stillOpen
    rw [everything, complete arrived]

end Client

section

attribute [local instance] GoTables.ascii

/-- The bits of a client that sends something, or closes its side. -/
def readable (closing : Bool) (reads : List SocketRead) (drained : Socket) : Ready where
  epollIn := true
  epollErr := false
  epollHup := false
  epollRdHup := closing
  epollOut := false
  reads := reads
  drained := drained
  flushed := ⟨[], none⟩

/-- A reply that the socket takes in two parts before the client closes its side. -/
theorem Client.halfClose_delivers_iff_ping :
    let service := Executor.service (World.still ⟨0, by decide⟩) false fun _ => .alone
    let ping := bytes "*1\r\n$4\r\nPING\r\n"
    let sends := readable false [.took ping ⟨[.took 3, .wouldBlock], none⟩] ⟨[.took 4], none⟩
    let closes := readable true [.took [] ⟨[], none⟩] ⟨[], none⟩
    let client := Client.new (Executor.new .always 0 false, 0)
    (client.run service ⟨1000, 1000⟩ [sends, closes]).connection.closed.isSome = true ∧
      (client.run service ⟨1000, 1000⟩ [sends, closes]).connection.outBuf = [] ∧
      (client.run service ⟨1000, 1000⟩ [sends]).endsBlocked service ⟨1000, 1000⟩ closes =
        false := by
  intro service ping sends closes client
  have accepted : ∀ frame ∈ [(ping, Value.array [.bulkString (bytes "PING")])],
      decode (ServerConfig.limits ⟨1000, 1000⟩) frame.1 = .ok (frame.2, []) := by
    simp only [List.mem_singleton, forall_eq]
    rfl
  have written : (client.run service ⟨1000, 1000⟩ [sends, closes]).connection.outBuf = [] := by
    decide +kernel
  have results := halfClose_delivers_iff service ⟨1000, 1000⟩ (Executor.new .always 0 false, 0)
    accepted (show (piecesOf ([sends, closes].flatMap Ready.events)).flatten ++ [] = _ from rfl)
    trivial
  exact ⟨by decide +kernel, written,
    results.2.2.2.2.2.mp (fun _ => written) [sends] closes [] rfl rfl⟩

/-- The socket takes a part of a reply and would block then.  The client closes its
side, and the rest of the reply is lost. -/
theorem Client.reply_lost_on_halfClose :
    let service := Executor.service (World.still ⟨0, by decide⟩) false fun _ => .alone
    let ping := bytes "*1\r\n$4\r\nPING\r\n"
    let history : List Ready :=
      [readable false [.took ping ⟨[.took 3, .wouldBlock], none⟩] ⟨[.wouldBlock], none⟩,
        readable true [.took [] ⟨[], none⟩] ⟨[], none⟩]
    let client := (Client.new (Executor.new .always 0 false, 0)).run service ⟨1000, 1000⟩ history
    decode (ServerConfig.limits ⟨1000, 1000⟩) ping =
        .ok (.array [.bulkString (bytes "PING")], []) ∧
      client.connection.closed = some .eof ∧ client.armed = true ∧
      client.connection.sent = bytes "+PO" ∧ client.connection.outBuf = bytes "NG\r\n" :=
  ⟨rfl, rfl, by decide +kernel, by decide +kernel, by decide +kernel⟩

end

end Carrot.Reactor
