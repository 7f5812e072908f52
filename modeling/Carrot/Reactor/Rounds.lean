import Carrot.Reactor.Descriptors

/-!
# The events of one round

The kernel hands out a descriptor again as soon as it is closed, while the
events of a round were reported before any of them is handled.  An event is
still handled by the connection for which it was reported, since nothing but its
own event closes a connection before the end of the round.
-/

namespace Carrot.Reactor

namespace EventLoop

variable {State : Type} {clock : Nat → Clock} {config : LoopConfig} {loop : EventLoop State}

theorem lookup_closeClient {fd other : Nat} (different : fd ≠ other) (failure : Failure)
    (loop : EventLoop State) :
    (loop.closeClient failure other).conns.lookup fd = loop.conns.lookup fd := by
  rw [conns_closeClient, AList.lookup_erase_ne different]

theorem lookup_adopt {fd other : Nat} (different : fd ≠ other) (register : Option Bytes)
    (loop : EventLoop State) :
    (loop.adopt clock other register).conns.lookup fd = loop.conns.lookup fd := by
  have enrolled : (loop.enroll clock other).conns.lookup fd = loop.conns.lookup fd :=
    AList.lookup_insert_ne different
  cases register with
  | none => exact enrolled
  | some error => exact (lookup_closeClient different .dropped _).trans enrolled

variable (clock config) in
theorem lookup_acceptClient {fd other : Nat} (different : fd ≠ other) (register : Option Bytes)
    (loop : EventLoop State) :
    (loop.acceptClient clock config other register).conns.lookup fd = loop.conns.lookup fd := by
  unfold acceptClient
  simp only
  split
  next => rfl
  next => exact lookup_adopt different register _

variable [GoTables] {engine : Engine State}

/-- Accepting connections leaves the others alone, since they are in use. -/
theorem Sound.lookup_handleAccept (sound : Sound config loop) (engine : Engine State)
    (allocator : Allocator) (accepts : List Accept) {fd : Nat} (membership : fd ∈ loop.conns) :
    (loop.handleAccept clock config allocator accepts).conns.lookup fd =
      loop.conns.lookup fd := by
  induction accepts generalizing loop with
  | nil => rfl
  | cons accept accepts inductionHypothesis =>
      cases accept with
      | took register =>
          have fresh := allocator.fresh loop.opened loop.descriptors
          have different : fd ≠ allocator.choose loop.opened loop.descriptors := by
            rintro rfl
            exact fresh ((sound.descriptors _).mpr (.inr (.inr membership)))
          have same := lookup_acceptClient clock config different register loop
          have stays : fd ∈ (loop.acceptClient clock config
              (allocator.choose loop.opened loop.descriptors) register).conns := by
            rw [← AList.lookup_isSome, same, AList.lookup_isSome]
            exact membership
          have next := sound.acts (acts_acceptClient clock config engine register fresh)
          exact (inductionHypothesis next stays).trans same
      | wouldBlock => rfl
      | interrupted => exact inductionHypothesis sound membership
      | failed error => rfl

theorem lookup_handleClientEvent {fd other : Nat} (different : fd ≠ other) (ready : Ready)
    (loop : EventLoop State) :
    (loop.handleClientEvent clock config engine other ready).conns.lookup fd =
      loop.conns.lookup fd := by
  unfold handleClientEvent
  split
  next => rfl
  next slot _ =>
    simp only
    split
    next =>
      rw [lookup_closeClient different]
      exact AList.lookup_insert_ne different
    next => exact AList.lookup_insert_ne different

variable (clock engine) in
/-- An event leaves the connections of other descriptors alone. -/
theorem Sound.lookup_dispatch (sound : Sound config loop) (allocator : Allocator)
    {event : PollEvent} {fd : Nat} (different : fd ≠ event.fd) (membership : fd ∈ loop.conns) :
    (loop.dispatch clock config engine allocator event).conns.lookup fd = loop.conns.lookup fd := by
  unfold dispatch
  split
  next => exact sound.lookup_handleAccept engine allocator event.accepts membership
  next => exact lookup_handleClientEvent different event.ready loop

theorem Sound.lookup_dispatchAll (sound : Sound config loop) (allocator : Allocator)
    {events : List (Bool × PollEvent)} {fd : Nat}
    (different : ∀ event ∈ events, fd ≠ event.2.fd) (membership : fd ∈ loop.conns) :
    (loop.dispatchAll clock config engine allocator events).1.conns.lookup fd =
      loop.conns.lookup fd := by
  induction events generalizing loop with
  | nil => rfl
  | cons event events inductionHypothesis =>
      rcases event with ⟨_ | _, event⟩
      · rw [List.forall_mem_cons] at different
        have same := sound.lookup_dispatch clock engine allocator different.1 membership
        have stays : fd ∈ (loop.dispatch clock config engine allocator event).conns := by
          rw [← AList.lookup_isSome, same, AList.lookup_isSome]
          exact membership
        have next := sound.acts (acts_dispatch clock config engine allocator loop event)
        exact (inductionHypothesis next different.2 stays).trans same
      · rfl

/-- The kernel reports a descriptor at most once in a round, and only those that
are registered.  When an event is handled, its descriptor has the connection that
it had when the event was reported, in the same condition. -/
theorem events_reach_their_connection (clock : Nat → Clock) (config : LoopConfig)
    (engine : Engine State) (allocator : Allocator) (listenerFD epfd : Nat) (state : State)
    (history : List Round) {before after : List (Bool × PollEvent)} {event : Bool × PollEvent}
    (once : ((before ++ event :: after).map fun event => event.2.fd).Nodup) :
    let loop := ((new listenerFD epfd state).rounds clock config engine allocator history).1
    (event.2.fd ∈ loop.interest) → event.2.fd ≠ loop.listenerFD →
      ∃ slot, loop.conns.lookup event.2.fd = some slot ∧
        (loop.dispatchAll clock config engine allocator before).1.conns.lookup event.2.fd =
          some slot := by
  intro loop reported notListener
  have sound : Sound config loop := (sound_new config listenerFD epfd state).acts
    (acts_rounds clock config engine allocator history _)
  have membership : event.2.fd ∈ loop.conns :=
    ((sound.interest _).mp reported).resolve_left notListener
  obtain ⟨slot, found⟩ := mem_conns_iff.mp membership
  refine ⟨slot, found, ?_⟩
  rw [← found]
  apply sound.lookup_dispatchAll allocator ?_ membership
  intro other earlier same
  rw [List.map_append, List.map_cons] at once
  have disjoint := List.disjoint_of_nodup_append once
  exact disjoint (List.mem_map_of_mem earlier) (same ▸ List.mem_cons_self)

end EventLoop

/-- The kernel hands out descriptors in increasing order. -/
def Allocator.next : Allocator where
  choose _ used := used.sup id + 1
  fresh _ used membership := by
    have bound := Finset.le_sup (f := id) membership
    exact Nat.not_succ_le_self _ bound

/-- Nothing is reported. -/
def Ready.nothing : Ready := ⟨false, false, false, false, false, [], ⟨[], none⟩, ⟨[], none⟩⟩

section

attribute [local instance] GoTables.ascii

/-- Of two connections, the first one hangs up. -/
theorem EventLoop.events_reach_their_connection_second :
    let clock : Nat → Clock := fun _ => ⟨0, by decide⟩
    let config : LoopConfig := ⟨⟨⟨100, 100⟩, 1, 1⟩, 2⟩
    let engine : Engine Unit := ⟨⟨fun state _ => (state, .ok (.simpleString []))⟩, id⟩
    let history : List Round := [⟨false, .ok [(false, ⟨0, [.took none, .took none], .nothing⟩)]⟩]
    let hangUp : Bool × PollEvent := (false, ⟨2, [], { Ready.nothing with epollHup := true }⟩)
    let event : Bool × PollEvent := (false, ⟨3, [], .nothing⟩)
    let loop := ((new 0 1 ()).rounds clock config engine .next history).1
    event.2.fd ∈ loop.interest ∧ ∃ slot, loop.conns.lookup event.2.fd = some slot ∧
      (loop.dispatchAll clock config engine .next [hangUp]).1.conns.lookup event.2.fd =
        some slot := by
  intro clock config engine history hangUp event loop
  have once : (([hangUp] ++ event :: []).map fun event => event.2.fd).Nodup := by decide
  have reaches := events_reach_their_connection clock config engine .next 0 1 () history once
  exact ⟨by decide +kernel, reaches (by decide +kernel) (by decide +kernel)⟩

end

end Carrot.Reactor
