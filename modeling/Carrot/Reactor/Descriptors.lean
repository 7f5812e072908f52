import Carrot.Reactor.Loop

/-!
# The descriptors of the event loop

Whatever the kernel answers, the open descriptors of the event loop are those of
the listener, the poller and the registry, and those of interest are those of
the listener and the registry.  When `Run` returns, nothing is open.

Everything that happens in a round is made of a few acts.
-/

namespace Carrot.Reactor

namespace EventLoop

variable {State : Type}

/-! ## Acts -/

section

variable [GoTables] (clock : Nat → Clock) (config : LoopConfig) (engine : Engine State)

/-- What the event loop can do at once. -/
inductive Act : EventLoop State → EventLoop State → Prop where
  /-- A connection is accepted and closed, since there are too many. -/
  | refuse {loop : EventLoop State} {fd : Nat} :
      fd ∉ loop.descriptors →
      Act loop { loop.accept4 fd with descriptors := (loop.accept4 fd).descriptors.erase fd }
  | adopt {loop : EventLoop State} {fd : Nat} (register : Option Bytes) :
      fd ∉ loop.descriptors → loop.conns.keys.length < config.maxConnections →
      Act loop ((loop.accept4 fd).adopt clock fd register)
  | handle {loop : EventLoop State} {fd : Nat} {slot : Slot State} {ready : Ready}
      {member : Member State} :
      loop.conns.lookup fd = some slot →
      (slot.enter loop.state loop.tick).handleClientEvent clock engine.toService
        config.toMemberConfig ready = (member, none) →
      Act loop (loop.leave fd slot member
        (piecesOf ((slot.enter loop.state loop.tick).events clock config.toMemberConfig ready)))
  | finish {loop : EventLoop State} {fd : Nat} {slot : Slot State} {ready : Ready}
      {member : Member State} {cause : Cause} :
      loop.conns.lookup fd = some slot →
      (slot.enter loop.state loop.tick).handleClientEvent clock engine.toService
        config.toMemberConfig ready = (member, some cause) →
      Act loop ((loop.leave fd slot member
        (piecesOf ((slot.enter loop.state loop.tick).events clock config.toMemberConfig
          ready))).closeClient cause.failure fd)
  | drop (loop : EventLoop State) (fd : Nat) : Act loop (loop.closeClient .dropped fd)
  | expire (loop : EventLoop State) : Act loop { loop with state := engine.activeExpire loop.state }
  | look (loop : EventLoop State) : Act loop { loop with tick := loop.tick + 1 }

open Relation

abbrev Acts (loop after : EventLoop State) : Prop :=
  ReflTransGen (Act clock config engine) loop after

theorem acts_acceptClient {fd : Nat} (register : Option Bytes) {loop : EventLoop State}
    (fresh : fd ∉ loop.descriptors) :
    Acts clock config engine loop (loop.acceptClient clock config fd register) := by
  unfold acceptClient
  simp only
  split
  next => exact .single (.refuse fresh)
  next room => exact .single (.adopt register fresh (Nat.lt_of_not_le room))

theorem acts_handleAccept (allocator : Allocator) (accepts : List Accept)
    (loop : EventLoop State) :
    Acts clock config engine loop (loop.handleAccept clock config allocator accepts) := by
  induction accepts generalizing loop with
  | nil => exact .refl
  | cons accept accepts inductionHypothesis =>
      cases accept with
      | took register =>
          have fresh := allocator.fresh loop.opened loop.descriptors
          exact (acts_acceptClient clock config engine register fresh).trans (inductionHypothesis _)
      | wouldBlock => exact .refl
      | interrupted => exact inductionHypothesis loop
      | failed error => exact .refl

theorem acts_handleClientEvent (fd : Nat) (ready : Ready) (loop : EventLoop State) :
    Acts clock config engine loop (loop.handleClientEvent clock config engine fd ready) := by
  unfold handleClientEvent
  split
  next => exact .refl
  next slot found =>
    simp only
    split
    next member cause handled => exact .single (.finish found handled)
    next member handled => exact .single (.handle found handled)

theorem acts_dispatch (allocator : Allocator) (loop : EventLoop State) (event : PollEvent) :
    Acts clock config engine loop (loop.dispatch clock config engine allocator event) := by
  unfold dispatch
  split
  next => exact acts_handleAccept clock config engine allocator event.accepts loop
  next => exact acts_handleClientEvent clock config engine event.fd event.ready loop

theorem acts_dispatchAll (allocator : Allocator) (events : List (Bool × PollEvent))
    (loop : EventLoop State) :
    Acts clock config engine loop
      (loop.dispatchAll clock config engine allocator events).1 := by
  induction events generalizing loop with
  | nil => exact .refl
  | cons event events inductionHypothesis =>
      rcases event with ⟨_ | _, event⟩
      · exact (acts_dispatch clock config engine allocator loop event).trans (inductionHypothesis _)
      · exact .refl

theorem acts_expireConnections (loop : EventLoop State) :
    Acts clock config engine loop (loop.expireConnections clock config) := by
  unfold expireConnections
  generalize loop.conns.keys = fds
  have start : Acts clock config engine loop { loop with tick := loop.tick + 1 } :=
    .single (.look loop)
  generalize { loop with tick := loop.tick + 1 } = started at start ⊢
  induction fds generalizing started with
  | nil => exact start
  | cons fd fds inductionHypothesis =>
      apply inductionHypothesis
      unfold expireConnection
      split
      next => exact start
      next =>
        split
        next => exact start.tail (.drop started fd)
        next => exact start

theorem acts_round (allocator : Allocator) (loop : EventLoop State) (round : Round) :
    Acts clock config engine loop (loop.round clock config engine allocator round).1 := by
  unfold EventLoop.round
  split
  next => exact .refl
  next =>
    split
    next => exact .refl
    next events _ =>
      have acts := acts_dispatchAll clock config engine allocator events loop
      split
      next stopped =>
        rw [stopped] at acts
        exact acts
      next after finished =>
        rw [finished] at acts
        exact (acts.tail (.expire after)).trans (acts_expireConnections clock config engine _)

theorem acts_rounds (allocator : Allocator) (history : List Round) (loop : EventLoop State) :
    Acts clock config engine loop (loop.rounds clock config engine allocator history).1 := by
  induction history generalizing loop with
  | nil => exact .refl
  | cons round history inductionHypothesis =>
      have first := acts_round clock config engine allocator loop round
      rw [rounds]
      split
      next after result returned =>
        rw [returned] at first
        exact first
      next after goesOn =>
        rw [goesOn] at first
        exact first.trans (inductionHypothesis after)

end

/-! ## What is open -/

/-- What is open and what is registered agree with the registry, which is within
its limit.  Writability is of interest exactly for the connections with
something to write. -/
structure Sound (config : LoopConfig) (loop : EventLoop State) : Prop where
  descriptors : ∀ fd, fd ∈ loop.descriptors ↔
    fd = loop.listenerFD ∨ fd = loop.epfd ∨ fd ∈ loop.conns
  interest : ∀ fd, fd ∈ loop.interest ↔ fd = loop.listenerFD ∨ fd ∈ loop.conns
  listener : loop.listenerFD ∉ loop.conns
  poller : loop.epfd ∉ loop.conns
  limit : loop.conns.keys.length ≤ config.maxConnections
  opened : ∀ fd slot, loop.conns.lookup fd = some slot → slot.connection.closed = none
  alert : ∀ fd slot, loop.conns.lookup fd = some slot → slot.member.client.Alert

variable {config : LoopConfig} {loop after : EventLoop State}

theorem sound_new (config : LoopConfig) (listenerFD epfd : Nat) (state : State) :
    Sound config (new listenerFD epfd state) where
  descriptors fd := by simp [new]
  interest fd := by simp [new]
  listener := AList.notMem_empty _
  poller := AList.notMem_empty _
  limit := Nat.zero_le _
  opened fd slot found := by cases found
  alert fd slot found := by cases found

theorem mem_conns_iff {fd : Nat} : fd ∈ loop.conns ↔ ∃ slot, loop.conns.lookup fd = some slot := by
  rw [← AList.lookup_isSome, Option.isSome_iff_exists]

theorem mem_conns {fd : Nat} {slot : Slot State} (found : loop.conns.lookup fd = some slot) :
    fd ∈ loop.conns :=
  mem_conns_iff.mpr ⟨slot, found⟩

/-- A connection in the registry has descriptors of its own. -/
theorem Sound.ne_of_mem (sound : Sound config loop) {fd : Nat} (membership : fd ∈ loop.conns) :
    fd ≠ loop.listenerFD ∧ fd ≠ loop.epfd :=
  ⟨fun same => sound.listener (same ▸ membership), fun same => sound.poller (same ▸ membership)⟩

/-- A connection is taken out of the registry and closed. -/
theorem Sound.remove (sound : Sound config loop) {fd : Nat} (membership : fd ∈ loop.conns)
    (listener : after.listenerFD = loop.listenerFD) (poller : after.epfd = loop.epfd)
    (descriptors : after.descriptors = loop.descriptors.erase fd)
    (interest : after.interest = loop.interest.erase fd)
    (removed : ∀ other, other ∈ after.conns ↔ other ≠ fd ∧ other ∈ loop.conns)
    (others : ∀ other ≠ fd, after.conns.lookup other = loop.conns.lookup other) :
    Sound config after := by
  obtain ⟨notListener, notPoller⟩ := sound.ne_of_mem membership
  have found : ∀ other slot, after.conns.lookup other = some slot →
      loop.conns.lookup other = some slot := by
    intro other slot stays
    rw [← others other ((removed other).mp (mem_conns stays)).1]
    exact stays
  refine ⟨fun other => ?_, fun other => ?_, ?_, ?_, ?_, ?_, ?_⟩
  · rw [descriptors, Finset.mem_erase, sound.descriptors, removed, listener, poller]
    constructor
    · rintro ⟨different, isListener | isPoller | isMember⟩
      · exact .inl isListener
      · exact .inr (.inl isPoller)
      · exact .inr (.inr ⟨different, isMember⟩)
    · rintro (rfl | rfl | ⟨different, isMember⟩)
      · exact ⟨Ne.symm notListener, .inl rfl⟩
      · exact ⟨Ne.symm notPoller, .inr (.inl rfl)⟩
      · exact ⟨different, .inr (.inr isMember)⟩
  · rw [interest, Finset.mem_erase, sound.interest, removed, listener]
    constructor
    · rintro ⟨different, isListener | isMember⟩
      · exact .inl isListener
      · exact .inr ⟨different, isMember⟩
    · rintro (rfl | ⟨different, isMember⟩)
      · exact ⟨Ne.symm notListener, .inl rfl⟩
      · exact ⟨different, .inr isMember⟩
  · rw [removed, listener]
    exact fun member => sound.listener member.2
  · rw [removed, poller]
    exact fun member => sound.poller member.2
  · refine le_trans ?_ sound.limit
    apply List.Subperm.length_le
    apply List.Nodup.subperm after.conns.keys_nodup
    intro other member
    exact ((removed other).mp member).2
  · exact fun other slot stays => sound.opened other slot (found other slot stays)
  · exact fun other slot stays => sound.alert other slot (found other slot stays)

/-- A connection that is open is put into the registry, or put back. -/
theorem Sound.put (sound : Sound config loop) {fd : Nat} (slot : Slot State)
    (notListener : fd ≠ loop.listenerFD) (notPoller : fd ≠ loop.epfd)
    (listener : after.listenerFD = loop.listenerFD) (poller : after.epfd = loop.epfd)
    (descriptors : after.descriptors = insert fd loop.descriptors)
    (interest : after.interest = insert fd loop.interest)
    (conns : after.conns = loop.conns.insert fd slot)
    (limit : (loop.conns.insert fd slot).keys.length ≤ config.maxConnections)
    (opened : slot.connection.closed = none) (alert : slot.member.client.Alert) :
    Sound config after := by
  have found : ∀ other stored, after.conns.lookup other = some stored →
      stored = slot ∨ loop.conns.lookup other = some stored := by
    intro other stored stays
    rw [conns] at stays
    by_cases same : other = fd
    · subst same
      rw [AList.lookup_insert] at stays
      exact .inl (Option.some.inj stays).symm
    · rw [AList.lookup_insert_ne same] at stays
      exact .inr stays
  refine ⟨fun other => ?_, fun other => ?_, ?_, ?_, ?_, ?_, ?_⟩
  · rw [descriptors, Finset.mem_insert, sound.descriptors, conns, AList.mem_insert, listener,
      poller]
    tauto
  · rw [interest, Finset.mem_insert, sound.interest, conns, AList.mem_insert, listener]
    tauto
  · rw [conns, listener, AList.mem_insert, not_or]
    exact ⟨Ne.symm notListener, sound.listener⟩
  · rw [conns, poller, AList.mem_insert, not_or]
    exact ⟨Ne.symm notPoller, sound.poller⟩
  · rw [conns]
    exact limit
  · intro other stored stays
    rcases found other stored stays with rfl | before
    · exact opened
    · exact sound.opened other stored before
  · intro other stored stays
    rcases found other stored stays with rfl | before
    · exact alert
    · exact sound.alert other stored before

theorem isClosed_eq_false {slot : Slot State} (opened : slot.connection.closed = none) :
    ¬ slot.member.isClosed = true := by
  rw [Member.isClosed]
  change ¬ slot.connection.closed.isSome = true
  rw [opened]
  exact Bool.false_ne_true

theorem closeClient_eq {fd : Nat} {slot : Slot State} (found : loop.conns.lookup fd = some slot)
    (opened : slot.connection.closed = none) (failure : Failure) :
    loop.closeClient failure fd =
      { loop with
        conns := loop.conns.erase fd
        interest := loop.interest.erase fd
        descriptors := loop.descriptors.erase fd
        gone := loop.gone ++ [slot.close failure] } := by
  rw [closeClient, found]
  simp only
  rw [closeConnection, if_neg (isClosed_eq_false opened)]

theorem Sound.closeClient (sound : Sound config loop) (failure : Failure) (fd : Nat) :
    Sound config (loop.closeClient failure fd) := by
  cases found : loop.conns.lookup fd with
  | none =>
      rw [EventLoop.closeClient, found]
      exact sound
  | some slot =>
      rw [closeClient_eq found (sound.opened fd slot found)]
      apply sound.remove (mem_conns found) ?_ ?_ ?_ ?_ (fun _ => AList.mem_erase)
        fun _ different => AList.lookup_erase_ne different
      · rfl
      · rfl
      · rfl
      · rfl

theorem Sound.fresh (sound : Sound config loop) {fd : Nat} (fresh : fd ∉ loop.descriptors) :
    fd ≠ loop.listenerFD ∧ fd ≠ loop.epfd ∧ fd ∉ loop.conns := by
  rw [sound.descriptors, not_or, not_or] at fresh
  exact fresh

variable [GoTables] {clock : Nat → Clock} {engine : Engine State}

omit [GoTables] in
theorem Sound.adopt (sound : Sound config loop) {fd : Nat} (register : Option Bytes)
    (fresh : fd ∉ loop.descriptors) (room : loop.conns.keys.length < config.maxConnections) :
    Sound config ((loop.accept4 fd).adopt clock fd register) := by
  obtain ⟨notListener, notPoller, notMember⟩ := sound.fresh fresh
  have limit : ∀ slot : Slot State,
      (loop.conns.insert fd slot).keys.length ≤ config.maxConnections := by
    intro slot
    rw [AList.keys_insert, List.erase_of_not_mem notMember, List.length_cons]
    exact room
  let slot : Slot State := ⟨loop.accepted, Member.new clock loop.state loop.tick, []⟩
  have adopted : Sound config ((loop.accept4 fd).adopt clock fd none) := by
    apply sound.put slot notListener notPoller ?_ ?_ ?_ ?_ ?_ (limit slot) rfl
    · simp [slot, Client.Alert, Member.new, Client.new, Connection.new]
    · rfl
    · rfl
    · rfl
    · rfl
    · rfl
  cases register with
  | none => exact adopted
  | some error =>
      -- Without its registration, closing the connection has the same effect.
      have stored : ((loop.accept4 fd).enroll clock fd).conns.lookup fd = some slot :=
        AList.lookup_insert _
      change Sound config (((loop.accept4 fd).enroll clock fd).closeClient .dropped fd)
      rw [closeClient_eq stored rfl]
      apply adopted.remove (mem_conns (AList.lookup_insert _)) ?_ ?_ ?_ ?_
        (fun _ => AList.mem_erase) fun _ different => AList.lookup_erase_ne different
      · rfl
      · rfl
      · rfl
      · exact (Finset.erase_insert_eq_erase _ _).symm

omit [GoTables] in
theorem enter_closed (slot : Slot State) (state : State) (tick : Nat) :
    (slot.enter state tick).connection.closed = slot.connection.closed := rfl

theorem Sound.handle (sound : Sound config loop) {fd : Nat} {slot : Slot State} {ready : Ready}
    {member : Member State} (found : loop.conns.lookup fd = some slot)
    (handled : (slot.enter loop.state loop.tick).handleClientEvent clock engine.toService
      config.toMemberConfig ready = (member, none)) (pieces : List Bytes) :
    Sound config (loop.leave fd slot member pieces) := by
  have membership := mem_conns found
  have opened := sound.opened fd slot found
  obtain ⟨notListener, notPoller⟩ := sound.ne_of_mem membership
  have stays := Member.handleClientEvent_closed clock engine.toService config.toMemberConfig
    ((enter_closed slot loop.state loop.tick).trans opened) ready
  rw [handled] at stays
  have client := Member.client_of_kept clock engine.toService config.toMemberConfig
    ((enter_closed slot loop.state loop.tick).trans opened) handled
  apply sound.put { slot with member, heard := slot.heard ++ pieces } notListener notPoller
    ?_ ?_ ?_ ?_ ?_ ?_ ?_ ?_
  · rfl
  · rfl
  · exact (Finset.insert_eq_self.mpr ((sound.descriptors fd).mpr (.inr (.inr membership)))).symm
  · exact (Finset.insert_eq_self.mpr ((sound.interest fd).mpr (.inr membership))).symm
  · rfl
  · rw [AList.keys_insert, List.length_cons, List.length_erase_of_mem membership]
    have positive := List.length_pos_of_mem membership
    have limit := sound.limit
    omega
  · exact stays
  · change member.client.Alert
    have entered : (slot.enter loop.state loop.tick).client.Alert := sound.alert fd slot found
    rw [client]
    apply Client.handleClientEvent_alert entered
    rw [← client]
    change Client.Orderly member.connection.closed
    rw [stays]
    trivial

theorem Sound.finish (sound : Sound config loop) {fd : Nat} {slot : Slot State} {ready : Ready}
    {member : Member State} {cause : Cause} (found : loop.conns.lookup fd = some slot)
    (handled : (slot.enter loop.state loop.tick).handleClientEvent clock engine.toService
      config.toMemberConfig ready = (member, some cause)) (pieces : List Bytes) :
    Sound config ((loop.leave fd slot member pieces).closeClient cause.failure fd) := by
  have stays := Member.handleClientEvent_closed clock engine.toService config.toMemberConfig
    ((enter_closed slot loop.state loop.tick).trans (sound.opened fd slot found)) ready
  rw [handled] at stays
  have stored : (loop.leave fd slot member pieces).conns.lookup fd =
    some { slot with member, heard := slot.heard ++ pieces } := AList.lookup_insert _
  rw [closeClient_eq stored stays]
  apply sound.remove (mem_conns found) ?_ ?_ ?_ ?_ ?_ ?_
  · rfl
  · rfl
  · rfl
  · rfl
  · intro other
    rw [AList.mem_erase, EventLoop.leave, AList.mem_insert]
    tauto
  · intro other different
    exact (AList.lookup_erase_ne different).trans (AList.lookup_insert_ne different)

/-- Whatever the event loop does keeps its descriptors in order. -/
theorem Sound.act (sound : Sound config loop) (act : Act clock config engine loop after) :
    Sound config after := by
  cases act with
  | refuse fresh =>
      have unchanged : (loop.accept4 _).descriptors.erase _ = loop.descriptors :=
        Finset.erase_insert fresh
      rw [unchanged]
      exact ⟨sound.descriptors, sound.interest, sound.listener, sound.poller, sound.limit,
        sound.opened, sound.alert⟩
  | adopt register fresh room => exact sound.adopt register fresh room
  | handle found handled => exact sound.handle found handled _
  | finish found handled => exact sound.finish found handled _
  | drop fd => exact sound.closeClient .dropped fd
  | expire =>
      exact ⟨sound.descriptors, sound.interest, sound.listener, sound.poller, sound.limit,
        sound.opened, sound.alert⟩
  | look =>
      exact ⟨sound.descriptors, sound.interest, sound.listener, sound.poller, sound.limit,
        sound.opened, sound.alert⟩

theorem Sound.acts (sound : Sound config loop) (acts : Acts clock config engine loop after) :
    Sound config after := by
  induction acts with
  | refl => exact sound
  | tail _ act inductionHypothesis => exact inductionHypothesis.act act

/-! ## The end of `Run` -/

omit [GoTables] in
theorem conns_closeClient (failure : Failure) (fd : Nat) (loop : EventLoop State) :
    (loop.closeClient failure fd).conns = loop.conns.erase fd := by
  unfold EventLoop.closeClient closeConnection
  split
  next absent =>
    apply AList.ext
    exact (List.kerase_of_notMem_keys (AList.lookup_eq_none.mp absent)).symm
  next =>
    simp only
    split <;> rfl

omit [GoTables] in
/-- All connections are closed, one after the other. -/
theorem Sound.closeAll (sound : Sound config loop) (fds : List Nat) :
    Sound config (fds.foldl (fun loop fd => loop.closeClient .dropped fd) loop) ∧
      ∀ fd, fd ∈ (fds.foldl (fun loop fd => loop.closeClient .dropped fd) loop).conns ↔
        fd ∈ loop.conns ∧ fd ∉ fds := by
  induction fds generalizing loop with
  | nil => exact ⟨sound, fun fd => by simp⟩
  | cons first fds inductionHypothesis =>
      obtain ⟨closed, left⟩ := inductionHypothesis (sound.closeClient .dropped first)
      refine ⟨closed, fun fd => ?_⟩
      rw [List.foldl_cons, left, conns_closeClient, AList.mem_erase, List.mem_cons, not_or]
      tauto

omit [GoTables] in
theorem Sound.cleanup (sound : Sound config loop) :
    loop.cleanup.descriptors = ∅ ∧ loop.cleanup.interest = ∅ ∧ loop.cleanup.conns.keys = [] := by
  obtain ⟨closed, left⟩ := sound.closeAll loop.conns.keys
  have nothing : ∀ fd, fd ∉ loop.cleanup.conns := by
    intro fd stays
    obtain ⟨member, notMember⟩ := (left fd).mp stays
    exact notMember member
  refine ⟨?_, rfl, ?_⟩
  · apply Finset.eq_empty_of_forall_notMem
    intro fd isOpen
    simp only [EventLoop.cleanup, Finset.mem_erase] at isOpen
    obtain ⟨notPoller, notListener, stays⟩ := isOpen
    rcases (closed.descriptors fd).mp stays with isListener | isPoller | isMember
    · exact notListener isListener
    · exact notPoller isPoller
    · exact nothing fd isMember
  · apply List.eq_nil_iff_forall_not_mem.mpr
    exact nothing

/-- Between any two events, the descriptors that are open and registered are
those of the listener, the poller and at most `maxConnections` connections, and
writability is of interest for those with something to write; when `Run` returns,
for whatever reason, every descriptor is closed. -/
theorem run_keeps_descriptors (clock : Nat → Clock) (config : LoopConfig) (engine : Engine State)
    (allocator : Allocator) (listenerFD epfd : Nat) (state : State) (history : List Round)
    (events : List (Bool × PollEvent)) :
    let start := new listenerFD epfd state
    let loop := (start.rounds clock config engine allocator history).1
    Sound config (loop.dispatchAll clock config engine allocator events).1 ∧
      ∀ result, (start.run clock config engine allocator history).2 = some result →
        let final := (start.run clock config engine allocator history).1
        final.descriptors = ∅ ∧ final.interest = ∅ ∧ final.conns.keys = [] := by
  intro start loop
  have sound : Sound config loop := (sound_new config listenerFD epfd state).acts
    (acts_rounds clock config engine allocator history start)
  refine ⟨sound.acts (acts_dispatchAll clock config engine allocator events loop), ?_⟩
  intro result returned
  unfold EventLoop.run at returned ⊢
  rcases outcome : start.rounds clock config engine allocator history with ⟨after, _ | returns⟩
  · rw [outcome] at returned
    cases returned
  · have last : loop = after := congrArg Prod.fst outcome
    rw [last] at sound
    exact sound.cleanup

end EventLoop

end Carrot.Reactor
