import Carrot.Reactor.Queue

/-!
# Input after something malformed

The server with a goroutine for each client closes the connection when it can
not decode its input.  The reactor replies with an error, forgets what it has
collected, and takes the next read for the beginning of a message.  So whether
more commands are executed depends on where the read ends that the malformed
input is found in.
-/

namespace Carrot.Reactor

def Request.isMalformed : Request → Bool
  | .message _ => false
  | .malformed _ => true

/-- The events up to the read in which something malformed is found, and the
events after it. -/
def splitAtRejection (limits : Limits) : Bytes → List Event → List Event × List Event
  | _, [] => ([], [])
  | kept, event :: events =>
      let (requests, kept) := received limits kept event.pieces
      if requests.any Request.isMalformed then ([event], events)
      else
        let (first, later) := splitAtRejection limits kept events
        (event :: first, later)

theorem splitAtRejection_append (limits : Limits) (kept : Bytes) (events : List Event) :
    (splitAtRejection limits kept events).1 ++ (splitAtRejection limits kept events).2 =
      events := by
  induction events generalizing kept with
  | nil => rfl
  | cons event events inductionHypothesis =>
      rw [splitAtRejection]
      simp only
      split
      next => rfl
      next => exact congrArg (event :: ·) (inductionHypothesis _)

theorem any_isMalformed_messages (values : List Value) :
    (values.map Request.message).any Request.isMalformed = false := by
  simp [Request.isMalformed]

/-- The requests up to the read in which something malformed is found. -/
theorem received_until_rejection {limits : Limits} {depth : Nat}
    (bounded : limits.depth = some (depth + 1)) {kept rest : Bytes} {events : List Event}
    {values : List Value} (settled : Pending limits kept)
    (frames : Frames limits (kept ++ (piecesOf events).flatten) values rest)
    (rejected : Rejected limits rest) :
    ∃ cause, received limits kept (piecesOf (splitAtRejection limits kept events).1) =
      (values.map .message ++ [.malformed cause], []) := by
  obtain ⟨cause, decoded, final⟩ := rejected
  induction events generalizing kept values with
  | nil =>
      -- what is kept is incomplete, and so it has not been rejected
      obtain ⟨waiting, undecided, ended⟩ := settled
      rw [piecesOf, List.flatMap_nil, List.flatten_nil, List.append_nil] at frames
      rw [(frames.of_error undecided).2, undecided] at decoded
      cases decoded
      rw [ended] at final
      cases final
  | cons event events inductionHypothesis =>
      rw [splitAtRejection]
      cases event with
      | read data socket =>
          rw [piecesOf, List.flatMap_cons, Event.pieces, List.singleton_append, List.flatten_cons,
            ← List.append_assoc] at frames
          simp only [Event.pieces, received, List.append_nil]
          rcases frames_cases limits (kept ++ data) with
            ⟨first, between, start, pending⟩ | ⟨first, between, failure, start, failed, failedFinal⟩
          · obtain ⟨more, rfl, later⟩ := (start.append bounded _).remaining frames decoded
            obtain ⟨found, rejectedLater⟩ := inductionHypothesis pending later
            refine ⟨found, ?_⟩
            rw [cut_of_frames bounded start, cut_of_pending bounded pending, List.append_nil,
              any_isMalformed_messages]
            simp only [Bool.false_eq_true, if_false]
            rw [piecesOf, List.flatMap_cons, Event.pieces, List.singleton_append, received,
              cut_of_frames bounded start, cut_of_pending bounded pending]
            simp only [List.append_nil]
            rw [← piecesOf, rejectedLater]
            simp
          · obtain ⟨later, still, -⟩ := (decode_steady bounded).error (piecesOf events).flatten
              failed failedFinal
            obtain ⟨more, rfl, after⟩ := (start.append bounded _).remaining frames decoded
            rw [(after.of_error still).1, List.append_nil]
            refine ⟨failure, ?_⟩
            have once : cut limits (kept ++ data) =
                (first.map .message ++ [.malformed failure], []) := by
              rw [cut_of_frames bounded start, cut_of_malformed bounded failed failedFinal]
            rw [once]
            simp [Request.isMalformed, piecesOf, Event.pieces, received, once]
      | _ =>
          obtain ⟨found, later⟩ := inductionHypothesis settled frames
          exact ⟨found, later⟩

section

variable [GoTables] {State : Type}

/-- After a rejected message a connection executes commands of what it reads
then, and all of them if it stays open. -/
theorem executed_after_rejection (service : Service State) {config : ServerConfig} (state : State)
    {first : List Event} {values : List Value}
    (untilRejection : ∃ cause, received config.limits [] (piecesOf first) =
      (values.map .message ++ [.malformed cause], []))
    (survived : ((Connection.new state).run service config first).closed = none)
    (later : List Event) :
    ∃ more, more <+: (received config.limits [] (piecesOf later)).1 ∧
      ((Connection.new state).run service config (first ++ later)).session.executed =
        commandsOf values ++ commandsOf (messagesOf more) ∧
      (((Connection.new state).run service config (first ++ later)).closed = none →
        more = (received config.limits [] (piecesOf later)).1) := by
  obtain ⟨cause, untilRejection⟩ := untilRejection
  obtain ⟨answered, start⟩ := Connection.run_serves service
    (show (Connection.new state).closed = none from rfl)
    (pending_nil rfl : Pending config.limits (Connection.new state).inBuf) first
  obtain ⟨all, kept⟩ := start.finished survived
  rw [show received config.limits (Connection.new state).inBuf (piecesOf first) = _ from
    untilRejection] at all kept
  have before : ((Connection.new state).run service config first).session.executed =
      commandsOf values := by
    rw [start.session, converse_executed, all, messagesOf_append, messagesOf_map_message]
    simp [messagesOf, Connection.new]
  obtain ⟨more, next⟩ := Connection.run_serves service survived (by
    rw [kept]
    exact pending_nil rfl) later
  rw [kept, ← Connection.run_append] at next
  refine ⟨more, next.started, ?_, fun opened => (next.finished opened).1⟩
  rw [next.session, converse_executed, before]

/-- The commands before the rejected message are executed and no other ones, as
they are on the other server. -/
structure Connection.StopsAtRejection (service : Service State) (config : ServerConfig)
    (state : State) (events : List Event) (values : List Value) : Prop where
  executed : ((Connection.new state).run service config events).session.executed =
    commandsOf values
  sameCommands : ((Connection.new state).run service config events).session.executed =
    (Server.handleClient service config (fun _ => .working) state
      (piecesOf events).flatten).session.executed

/-- The commands in what is read after a rejected message. -/
def commandsIn (limits : Limits) (events : List Event) : List Command :=
  commandsOf (messagesOf (received limits [] (piecesOf events)).1)

/-- What a connection has executed stays executed. -/
theorem executed_mono (service : Service State) {config : ServerConfig}
    {connection : Connection State} (opened : connection.closed = none)
    (settled : Pending config.limits connection.inBuf) (events : List Event) :
    connection.session.executed <+:
      (connection.run service config events).session.executed := by
  obtain ⟨answered, serves⟩ := Connection.run_serves service opened settled events
  rw [serves.session, converse_executed]
  exact List.prefix_append _ _

/-- A rejected message, on a connection that nothing disturbs up to the read in
which it is rejected.  If there are no commands in the reads after that one,
exactly the commands before the message are executed.  As long as nothing disturbs
the connection afterwards either, the commands in those reads are executed too. -/
theorem Connection.stopsAtRejection_iff (service : Service State) (config : ServerConfig)
    (state : State) {events : List Event} {values : List Value} {rest : Bytes}
    (frames : Frames config.limits (piecesOf events).flatten values rest)
    (rejected : Rejected config.limits rest) :
    let divided := splitAtRejection config.limits [] events
    ((new state).Undisturbed service config divided.1 → commandsIn config.limits divided.2 = [] →
        StopsAtRejection service config state events values) ∧
      ∀ beginning, beginning <+: divided.2 →
        (new state).Undisturbed service config (divided.1 ++ beginning) →
          StopsAtRejection service config state events values →
            commandsIn config.limits beginning = [] := by
  intro divided
  have whole : divided.1 ++ divided.2 = events := splitAtRejection_append config.limits [] events
  have opened : (new state).closed = none := rfl
  have settled : Pending config.limits (new state).inBuf := pending_nil rfl
  have untilRejection : ∃ cause, received config.limits [] (piecesOf divided.1) =
      (values.map .message ++ [.malformed cause], []) :=
    received_until_rejection rfl (pending_nil rfl)
      (show Frames config.limits ([] ++ (piecesOf events).flatten) values rest from frames) rejected
  constructor
  · intro undisturbed quiet
    have survived := run_undisturbed opened settled undisturbed
    obtain ⟨more, started, executed, -⟩ :=
      executed_after_rejection service state untilRejection survived divided.2
    have nothing : commandsOf (messagesOf more) = [] := by
      obtain ⟨unanswered, same⟩ := started
      rw [commandsIn, ← same, messagesOf_append, commandsOf_append] at quiet
      exact (List.append_eq_nil_iff.mp quiet).1
    have within : ∀ reply ∈ (Session.answerAll service ⟨state, []⟩ values).2,
        (encode reply).length ≤ config.maxResponseBytes := by
      obtain ⟨cause, requests⟩ := untilRejection
      have short := undisturbed.replies.within
      rw [show (new state).inBuf = [] from rfl, requests, converse_append,
        converse_messages] at short
      exact fun reply membership => short reply (List.mem_append_left _ membership)
    have served : (Server.handleClient service config (fun _ => .working) state
        (piecesOf events).flatten).session.executed = commandsOf values := by
      obtain ⟨cause, ends, -⟩ := rejected
      rw [Server.handleClient_frames service frames ends state within, Session.answerAll_executed]
      rfl
    rw [whole, nothing, List.append_nil] at executed
    exact ⟨executed, executed.trans served.symm⟩
  · rintro beginning ⟨ending, rest⟩ undisturbed stops
    have stays := run_undisturbed opened settled undisturbed
    have survived : ((new state).run service config divided.1).closed = none :=
      closed_of_run_append stays
    obtain ⟨more, -, executed, complete⟩ :=
      executed_after_rejection service state untilRejection survived beginning
    obtain ⟨unexecuted, later⟩ :=
      executed_mono service stays (run_pending opened settled stays) ending
    rw [← run_append, List.append_assoc divided.1, rest, whole, stops.executed, executed,
      complete stays, List.append_assoc] at later
    exact (List.append_eq_nil_iff.mp (List.self_eq_append_right.mp later.symm)).1

end

section

attribute [local instance] GoTables.ascii

/-- A request and the length of a string that is too long, in one read. -/
theorem Connection.stopsAtRejection_ping :
    StopsAtRejection (Executor.service (World.still ⟨0, by decide⟩) false fun _ => .alone)
      ⟨2097152, 4194304⟩ (Executor.new .always 0 false, 0)
      [.read (bytes "*1\r\n$4\r\nPING\r\n$2000000\r\n") ⟨[.took 100], none⟩]
      [.array [.bulkString (bytes "PING")]] := by
  have works : Socket.Works ⟨[.took 100], none⟩ := ⟨by simp [SocketWrite.Works], rfl⟩
  refine (stopsAtRejection_iff _ _ _ (.cons rfl (.nil (bytes "$2000000\r\n")))
    ⟨.bulkTooLong 2000000, rfl, rfl⟩).1 ⟨?_, by decide +kernel, by decide +kernel⟩
    (by decide +kernel)
  exact List.forall_mem_singleton.mpr ⟨by decide, works⟩

/-- The length of a string that is too long, and in the next read what might be
the string: it is executed as a command. -/
theorem Connection.executes_after_rejection :
    let service := Executor.service (World.still ⟨0, by decide⟩) false fun _ => .alone
    let config : ServerConfig := ⟨2097152, 4194304⟩
    let state := (Executor.new .always 0 false, 0)
    let socket : Socket := ⟨[.took 100], none⟩
    let length := bytes "$2000000\r\n"
    let payload := bytes "SET k v\r\n"
    Rejected config.limits (length ++ payload) ∧
      ((new state).run service config
        [.read length socket, .read payload socket]).session.executed =
          [⟨bytes "SET", [bytes "k", bytes "v"]⟩] ∧
      ((new state).run service config [.read (length ++ payload) socket]).session.executed = [] ∧
      (Server.handleClient service config (fun _ => .working) state
        (length ++ payload)).session.executed = [] :=
  ⟨⟨.bulkTooLong 2000000, rfl, rfl⟩, by decide +kernel, by decide +kernel, by decide +kernel⟩

end

end Carrot.Reactor
