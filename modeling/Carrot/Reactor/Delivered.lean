import Carrot.Executor.Persistent
import Carrot.Reactor.Rounds
import Carrot.Reactor.Sharing

/-!
# What a reply on the wire is worth

The event loop over an executor whose log is on a disk.  A connection reads the
replies to its own requests in their order; a reply to a mutation that is not an
error stands for a mutation that no crash takes back, if every append is synced.
-/

namespace Carrot.Reactor

section

variable [GoTables]

/-- The executor of the event loop. -/
def persistingEngine (world : World) (surroundings : Surroundings) : Engine Persisting where
  execute := Persisting.execute world surroundings
  activeExpire := Persisting.activeExpire world surroundings

/-- What a reply to a request promises. -/
def Promises (applied : List Step) (request : Request) (reply : Value) : Prop :=
  ∀ value command, request = .message value → parse value = .ok command →
    Kept applied command (.ok reply)

theorem Promises.mono {applied more : List Step} {request : Request} {reply : Value}
    (promises : Promises applied request reply) (longer : applied <+: more) :
    Promises more request reply :=
  fun value command same parsed => (promises value command same parsed).mono longer.subset

section

variable {world : World} {base : List Step} {start : Executor} {surroundings : Surroundings}

open Persisting (Leads)

variable (surroundings) in
theorem leads_answerRequest (repositions : world.Repositions) (state : Persisting)
    (request : Request) :
    Leads world base start state (answerRequest (persistingEngine world surroundings).toService
      ⟨state, []⟩ request).1.state := by
  cases request with
  | malformed cause => exact .refl state
  | message value =>
      simp only [answerRequest, Session.answer]
      split
      next => exact .refl state
      next command _ => exact Persisting.leads_execute repositions surroundings state command

theorem promises_answerRequest (state : Persisting) (request : Request) :
    Promises
      (answerRequest (persistingEngine world surroundings).toService
        ⟨state, []⟩ request).1.state.executor.applied
      request
      (answerRequest (persistingEngine world surroundings).toService ⟨state, []⟩ request).2 := by
  rintro value command rfl parsed reply same mutation fine
  simp only [answerRequest, Session.answer, parsed] at same ⊢
  have kept := Persisting.kept_execute world surroundings state command
  rcases result : (state.execute world surroundings command).2 with error | answer
  · have failed : reply = .error error := by
      rw [← Except.ok.inj same]
      exact congrArg sentValue result
    rw [failed] at fine
    cases fine
  · have answered : reply = answer := by
      rw [← Except.ok.inj same]
      exact congrArg sentValue result
    rw [answered] at fine
    exact kept answer result mutation fine

variable (surroundings) in
theorem leads_serve (repositions : world.Repositions) (state : Persisting) (order : List Turn) :
    Leads world base start state (serve (persistingEngine world surroundings) state order).1 := by
  induction order generalizing state with
  | nil => exact .refl state
  | cons turn order inductionHypothesis =>
      cases turn with
      | request number request =>
          exact (leads_answerRequest surroundings repositions state request).trans
            (inductionHypothesis _)
      | expire =>
          exact (Persisting.leads_activeExpire repositions surroundings state).trans
            (inductionHypothesis _)

/-- Each connection gets a reply to each of its requests, and the replies promise
what is so. -/
theorem promises_serve (repositions : world.Repositions) {state : Persisting}
    (sound : state.Sound world base start) (order : List Turn) (number : Nat) :
    List.Forall₂
      (Promises (serve (persistingEngine world surroundings) state order).1.executor.applied)
      (requestsOf number order)
      (repliesTo number (serve (persistingEngine world surroundings) state order).2) := by
  induction order generalizing state with
  | nil => exact .nil
  | cons turn order inductionHypothesis =>
      cases turn with
      | request other request =>
          obtain ⟨next, -⟩ := leads_answerRequest surroundings repositions state request sound
          have rest := inductionHypothesis next
          by_cases own : other = number
          · obtain ⟨-, longer⟩ := leads_serve surroundings repositions _ order next
            have promises := (promises_answerRequest state request).mono longer
            simp only [requestsOf, repliesTo, serve, List.filterMap_cons, own, if_true]
            exact .cons promises rest
          · simp only [requestsOf, repliesTo, serve, List.filterMap_cons, if_neg own]
            exact rest
      | expire =>
          obtain ⟨next, -⟩ := Persisting.leads_activeExpire repositions surroundings state sound
          exact inductionHypothesis next

theorem Persisting.sound_new (faithful : Executor.Faithful world base start) :
    (Persisting.mk start [] 0).Sound world base start :=
  fun _ _ => faithful.safe

end

/-- If every append is synced and the seek of a rollback never fails, what
connections have read survives a crash.  There is an order of all requests such
that each connection, open or closed, was sent the beginning of the replies to its
own requests.  Whatever is executed after that, and wherever the crash comes, every
mutation among the requests whose reply is not an error has been applied, and what
is found begins with a history that, executed at the clocks at which its commands
were applied, brings back the store to which it was applied. -/
theorem EventLoop.replies_survive_crash (clock : Nat → Clock) (config : LoopConfig)
    (allocator : Allocator) (listenerFD epfd : Nat) (world : World)
    (repositions : world.Repositions) (surroundings : Surroundings) {start : Executor}
    {base : List Step} (faithful : Executor.Faithful world base start)
    (always : start.log.policy = .always) (rounds : List Round)
    (events : List (Bool × PollEvent)) :
    let engine := persistingEngine world surroundings
    let first : Persisting := ⟨start, [], 0⟩
    let loop := ((new listenerFD epfd first).rounds clock config engine allocator rounds).1
    let now := (loop.dispatchAll clock config engine allocator events).1
    ∃ order : List Turn,
      now.state = (serve engine first order).1 ∧
      (∀ slot ∈ now.slots,
        Accounted config.server.limits order (serve engine first order).2 slot) ∧
      ∀ (more : List Turn) (event : Carrot.Event) (calls : List LogCall) (contents : Bytes),
        let final := (serve engine first (order ++ more)).1
        calls <+: final.executor.stepCalls world event →
        (start.onDisk.run (final.logCalls ++ calls)).disk.Survives contents →
        (∀ slot ∈ now.slots, List.Forall₂ (Promises final.executor.applied)
          (requestsOf slot.number order) (repliesTo slot.number (serve engine first order).2)) ∧
        ∃ history extra torn,
          contents = recordBytes (history.map Step.command ++ extra) ++ torn ∧
          (Store.new.executeAll history).view (final.executor.now world) =
            final.executor.store.view (final.executor.now world) ∧
          (∀ command ∈ extra, ∃ batch,
            Submits (final.logCalls ++ calls) batch ∧ command ∈ batch) ∧
          (torn ≠ [] → Executor.TornRecord torn) := by
  intro engine first loop now
  have acts : Acts clock config engine (new listenerFD epfd first) now :=
    (acts_rounds clock config engine allocator rounds _).trans
      (acts_dispatchAll clock config engine allocator events loop)
  obtain ⟨order, shares⟩ := (shares_new config engine listenerFD epfd first).acts
    (sound_new config listenerFD epfd first) acts
  rw [List.nil_append] at shares
  refine ⟨order, shares.state, shares.accounted, ?_⟩
  intro more event calls contents final inFlight survives
  obtain ⟨soundNow, -⟩ :=
    leads_serve surroundings repositions first order (Persisting.sound_new faithful)
  obtain ⟨soundLater, longer⟩ := leads_serve surroundings repositions _ more soundNow
  have reached : final = (serve engine (serve engine first order).1 more).1 := by
    rw [← congrArg Prod.fst (serve_append engine first order more)]
  rw [← reached] at soundLater longer
  have safe : Executor.Safe world base (fun _ => True) 0 True (Submits (final.logCalls ++ calls))
      final.executor (start.onDisk.run final.logCalls) := by
    apply soundLater
    rintro commands ⟨disk, batch, membership, same⟩
    exact ⟨disk, batch, List.mem_append_left _ membership, same⟩
  have stays : final.executor.log.policy = .always := by
    rw [← safe.log, DurableLog.run_log, Log.performs_policy]
    exact always
  rw [DurableLog.run_append] at survives
  obtain ⟨history, extra, torn, same, view, -, added, isTorn, -⟩ :=
    safe.crash repositions stays inFlight
      (fun commands ⟨disk, batch, membership, same⟩ =>
        ⟨disk, batch, List.mem_append_right _ membership, same⟩) survives
  refine ⟨fun slot _ => ?_, history, extra, torn, same, view, added, isTorn⟩
  apply (promises_serve repositions (Persisting.sound_new faithful) order slot.number).imp
  exact fun request reply promises => promises.mono longer

end

section

attribute [local instance] GoTables.ascii

/-- A connection sets a key and reads the reply. -/
theorem EventLoop.replies_survive_crash_set :
    let world := World.still ⟨0, by decide⟩
    let surroundings : Surroundings := ⟨fun _ => [], world.clock, fun _ _ =>
      ⟨world.clock 0, world.clock 0, world.draws 0, world.clock 0⟩⟩
    let config : LoopConfig := ⟨⟨⟨100, 100⟩, 1, 1⟩, 2⟩
    let engine := persistingEngine world surroundings
    let first : Persisting := ⟨.new .always 0 false, [], 0⟩
    let set : Command := ⟨bytes "SET", [bytes "k", bytes "v"]⟩
    let rounds : List Round := [⟨false, .ok [(false, ⟨0, [.took none], .nothing⟩)]⟩]
    let reads : Bool × PollEvent := (false, ⟨2, [], { Ready.nothing with
      epollIn := true, reads := [.took set.record ⟨[.took 5], none⟩] }⟩)
    let loop := ((new 0 1 first).rounds world.clock config engine .next rounds).1
    let now := (loop.dispatchAll world.clock config engine .next [reads]).1
    now.slots.map (fun slot => slot.connection.sent) = [bytes "+OK\r\n"] ∧
      ∃ (history : List Step) (extra : List Command) (torn : Bytes),
        set.record = recordBytes (history.map Step.command ++ extra) ++ torn ∧
        (Store.new.executeAll history).view (now.state.executor.now world) =
          now.state.executor.store.view (now.state.executor.now world) := by
  intro world surroundings config engine first set rounds reads loop now
  have certain : (first.executor.onDisk.run now.state.logCalls).disk.active.certain =
      set.record := by decide +kernel
  have written : (first.executor.onDisk.run now.state.logCalls).disk.active.current =
      set.record := by decide +kernel
  have survives : (first.executor.onDisk.run (now.state.logCalls ++ [])).disk.Survives
      set.record := by
    rw [List.append_nil, ← written]
    apply CrashDisk.survives_current
    rw [certain, written]
  obtain ⟨order, state, -, crash⟩ := replies_survive_crash world.clock config .next 0 1 world
    (fun _ => rfl) surroundings (Executor.faithful_new _ .always 0 false) rfl rounds [reads]
  have same : (serve engine first (order ++ [])).1 = now.state := by
    rw [List.append_nil, state]
  obtain ⟨-, history, extra, torn, contents_eq, view, -⟩ :=
    crash [] (.write (.commit [])) [] set.record List.nil_prefix (by rw [same]; exact survives)
  rw [same] at view
  exact ⟨by decide +kernel, history, extra, torn, contents_eq, view⟩

end

end Carrot.Reactor
