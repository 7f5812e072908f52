import Carrot.Dispatcher.Order

/-!
# When the dispatcher can deadlock

A client sends into the queue while it holds the lock, and the loop takes the
lock when it has been idle.  If the queue is full at that moment, both wait for
each other.  Every queued mutation belongs to a client of its own that waits for
the answer, so this takes more clients than the queue has places.
-/

universe u

namespace Carrot

/-- Some number of clients submit mutations; everything else is unrestricted. -/
def MutationsBy (clients : Nat) : Label → Prop
  | .call client (.submitMutation _) => client < clients
  | .call _ _ => False
  | _ => True

/-- The request a client is busy with. -/
def Client.request : Client → Option Request
  | .idle => none
  | .locking request | .starting request | .sending request | .unlocking request
  | .waiting request => some request

namespace Dispatcher

variable {Core : Type u} {backend : Backend Core} {core : Core} {state after : Dispatcher Core}
  {clients : Nat}

/-- A client is kept from going on in `enqueue`. -/
def Blocked (state : Dispatcher Core) (number : Nat) : Prop :=
  (∃ request, state.clients number = .locking request ∧ state.lock ≠ none) ∨
    ∃ request, state.clients number = .sending request ∧
      ¬ state.writeQueue.length < queueCapacity

/-- A loop waits for the lock, whose holder waits for room in the queue. -/
def CyclicWait (state : Dispatcher Core) : Prop :=
  ∃ number expired client, state.loops number = some ⟨.idleLocking, expired⟩ ∧
    state.lock = some (.client client) ∧ ∃ request, state.clients client = .sending request ∧
      ¬ state.writeQueue.length < queueCapacity

/-- A loop or the holder of the lock can go on. -/
def Progress (backend : Backend Core) (state : Dispatcher Core) : Prop :=
  (∃ number after, LoopStep backend state number after) ∨
    ∃ number after, state.lock = some (.client number) ∧ ClientStep state number after

/-! ## Queued mutations have clients of their own -/

structure Owned (clients : Nat) (state : Dispatcher Core) : Prop where
  outside : ∀ number, clients ≤ number → state.clients number = .idle
  waits : ∀ number request, (state.clients number).request = some request →
    request.call.waits = true
  queued : ∀ request ∈ state.writeQueue, state.clients request.client = .unlocking request ∨
    state.clients request.client = .waiting request

theorem owned_new (core : Core) : (new core).Owned clients where
  outside _ _ := rfl
  waits := nofun
  queued := nofun

theorem Owned.inside (owned : state.Owned clients) {number : Nat}
    (busy : state.clients number ≠ .idle) : number < clients :=
  Nat.lt_of_not_le fun beyond => busy (owned.outside number beyond)

/-- A client moves on.  The requests in the queue that it has sent are those it
is busy with afterwards. -/
theorem Owned.clientMoves (owned : state.Owned clients) {number : Nat} {client : Client}
    (inside : number < clients)
    (moved : after.clients = Function.update state.clients number client)
    (waits : ∀ request, client.request = some request → request.call.waits = true)
    (queued : ∀ request ∈ after.writeQueue, request ∈ state.writeQueue ∧
        request.client ≠ number ∨
      request.client = number ∧ (client = .unlocking request ∨ client = .waiting request)) :
    after.Owned clients where
  outside other beyond := by
    have different : other ≠ number := by omega
    rw [moved, Function.update_of_ne different]
    exact owned.outside other beyond
  waits other request busy := by
    rw [moved] at busy
    by_cases same : other = number
    · rw [same, Function.update_self] at busy
      exact waits request busy
    · rw [Function.update_of_ne same] at busy
      exact owned.waits other request busy
  queued request membership := by
    rw [moved]
    rcases queued request membership with ⟨before, different⟩ | ⟨same, place⟩
    · rw [Function.update_of_ne different]
      exact owned.queued request before
    · rw [same, Function.update_self]
      exact place

/-- A client that has nothing in the queue. -/
theorem Owned.other (owned : state.Owned clients) {number : Nat}
    (unlocked : ∀ request, state.clients number ≠ .unlocking request)
    (served : ∀ request, state.clients number ≠ .waiting request) {request : Request}
    (membership : request ∈ state.writeQueue) : request.client ≠ number := by
  rintro rfl
  rcases owned.queued request membership with place | place
  · exact unlocked request place
  · exact served request place

theorem Owned.client_step {number : Nat} (owned : state.Owned clients) (fresh : state.Fresh)
    (ordered : state.Ordered backend core) (step : ClientStep state number after) :
    after.Owned clients := by
  cases step with
  | lock place | start place | join place =>
      have busy := owned.waits number
      rw [place] at busy
      exact owned.clientMoves (owned.inside (by simp [place])) rfl busy fun request membership =>
        .inl ⟨membership, owned.other (by simp [place]) (by simp [place]) membership⟩
  | @send request place room =>
      have busy := owned.waits number
      rw [place] at busy
      have isClient := (fresh.unsent number request (by rw [place]; rfl)).1
      refine owned.clientMoves (owned.inside (by simp [place])) rfl busy fun other membership => ?_
      rcases List.mem_append.mp membership with inside | same
      · exact .inl ⟨inside, owned.other (by simp [place]) (by simp [place]) inside⟩
      · rw [List.mem_singleton.mp same]
        exact .inr ⟨isClient, .inl rfl⟩
  | @unlock request place =>
      have waits := owned.waits number request (by rw [place]; rfl)
      have goes : Client.afterwards request = .waiting request := if_pos waits
      refine owned.clientMoves (owned.inside (by simp [place])) rfl ?_ fun other membership => ?_
      · rw [goes]
        rintro _ ⟨⟩
        exact waits
      · by_cases same : other.client = number
        · refine .inr ⟨same, .inr ?_⟩
          have busy := owned.queued other membership
          rw [same, place] at busy
          rcases busy with is | is
          · rw [goes, Client.unlocking.inj is]
          · cases is
        · exact .inl ⟨membership, same⟩
  | @receive request answer place answered =>
      refine owned.clientMoves (owned.inside (by simp [place])) rfl nofun fun other membership =>
        .inl ⟨membership, ?_⟩
      intro same
      have busy := owned.queued other membership
      rw [same, place] at busy
      rcases busy with is | is
      · cases is
      · rw [← Client.waiting.inj is] at membership
        exact ordered.not_queued fresh answered membership

/-- A loop only takes requests out of the queue. -/
theorem LoopStep.frame {number : Nat} (step : LoopStep backend state number after) :
    after.clients = state.clients ∧ after.writeQueue ⊆ state.writeQueue := by
  cases step <;> first
    | exact ⟨rfl, fun _ membership => membership⟩
    | exact ⟨rfl, fun _ membership => List.mem_of_mem_tail membership⟩

theorem Owned.step {label : Label} (allowed : MutationsBy clients label)
    (owned : state.Owned clients) (fresh : state.Fresh) (ordered : state.Ordered backend core)
    (step : DispatchStep backend state label after) : after.Owned clients := by
  cases step with
  | @call number call place =>
      cases call with
      | submitMutation command =>
          refine owned.clientMoves allowed rfl ?_ fun request membership =>
            .inl ⟨membership, owned.other (by simp [place]) (by simp [place]) membership⟩
          rintro _ ⟨⟩
          rfl
      | enqueueAOFRewrite | startAOFRewrite => exact allowed.elim
  | client step => exact owned.client_step fresh ordered step
  | timer place => exact ⟨owned.outside, owned.waits, owned.queued⟩
  | loop step =>
      obtain ⟨same, fewer⟩ := LoopStep.frame step
      constructor
      · rw [same]
        exact owned.outside
      · rw [same]
        exact owned.waits
      · rw [same]
        exact fun request membership => owned.queued request (fewer membership)

theorem Reached.owned (reached : Reached backend (MutationsBy clients) core state) :
    state.Owned clients := by
  induction reached with
  | new => exact owned_new core
  | step before allowed step inductionHypothesis =>
      obtain ⟨_, ordered, fresh⟩ := Reached.invariant before
      exact inductionHypothesis.step allowed fresh ordered step

/-- While a client sends, the queue holds fewer requests than there are clients. -/
theorem Owned.queue_lt (owned : state.Owned clients) (distinct : state.writeQueue.Nodup)
    {number : Nat} {request : Request} (place : state.clients number = .sending request) :
    state.writeQueue.length < clients := by
  have senders : (state.writeQueue.map Request.client).Nodup := by
    refine List.Nodup.map_on ?_ distinct
    intro first firstQueued second secondQueued same
    have placed := owned.queued first firstQueued
    have placedToo := owned.queued second secondQueued
    rw [← same] at placedToo
    rcases placed with is | is <;> rcases placedToo with isToo | isToo <;>
      rw [is] at isToo <;> cases isToo <;> rfl
  have others : (state.writeQueue.map Request.client).toFinset ⊆
      (Finset.range clients).erase number := by
    intro client membership
    obtain ⟨queued, inside, rfl⟩ := List.mem_map.mp (List.mem_toFinset.mp membership)
    have different : queued.client ≠ number :=
      owned.other (by simp [place]) (by simp [place]) inside
    refine Finset.mem_erase.mpr ⟨different, Finset.mem_range.mpr (owned.inside ?_)⟩
    rcases owned.queued queued inside with is | is <;> simp [is]
  have inside : number < clients := owned.inside (by simp [place])
  have count := Finset.card_le_card others
  rw [List.toFinset_card_of_nodup senders, List.length_map,
    Finset.card_erase_of_mem (Finset.mem_range.mpr inside), Finset.card_range] at count
  omega

/-! ## Progress -/

/-- A loop can go on unless it waits for the lock or for a request. -/
theorem loop_enabled {number : Nat} {loop : WriteLoop} (present : state.loops number = some loop)
    (free : loop.phase = .idleLocking → state.lock = none)
    (work : loop.phase = .top none → state.writeQueue ≠ []) :
    ∃ after, LoopStep backend state number after := by
  obtain ⟨phase, expired⟩ := loop
  cases phase with
  | top pending =>
      cases pending with
      | some request => exact ⟨_, .takePending present⟩
      | none =>
          obtain ⟨request, rest, queue⟩ := List.exists_cons_of_ne_nil (work rfl)
          exact ⟨_, .takeQueued present queue⟩
  | idleLocking => exact ⟨_, .lock present (free rfl)⟩
  | idleLocked =>
      by_cases empty : state.writeQueue = []
      · exact ⟨_, .exit present empty⟩
      · exact ⟨_, .stay present empty⟩
  | handling request =>
      cases kind : request.isRewrite with
      | true => exact ⟨_, .startRewrite present kind⟩
      | false => exact ⟨_, .openBatch present kind⟩
  | collecting batch =>
      by_cases room : batch.length < maxBatch
      · cases queue : state.writeQueue with
        | nil => exact ⟨_, .closeBatch present (.inr (.inr queue))⟩
        | cons request rest =>
            cases kind : request.isRewrite with
            | true => exact ⟨_, .putAside present room queue kind⟩
            | false => exact ⟨_, .collect present room queue kind⟩
      · exact ⟨_, .closeBatch present (.inl room)⟩
  | committing batch pending => exact ⟨_, .commit present⟩
  | answering answers pending =>
      cases answers with
      | nil => exact ⟨_, .finish present⟩
      | cons answer answers => exact ⟨_, .answer present⟩

/-- The client that has the lock can go on if there is room. -/
theorem holder_enabled {number : Nat} (holds : (state.clients number).holdsLock = true)
    (room : ∀ request, state.clients number = .sending request →
      state.writeQueue.length < queueCapacity) :
    ∃ after, ClientStep state number after := by
  cases place : state.clients number with
  | idle | locking | waiting =>
      rw [place] at holds
      cases holds
  | starting request =>
      cases running : state.dispatching with
      | false => exact ⟨_, .start place running⟩
      | true => exact ⟨_, .join place running⟩
  | sending request => exact ⟨_, .send place (room request place)⟩
  | unlocking request => exact ⟨_, .unlock place⟩

theorem Locked.progress (locked : state.Locked)
    (room : ∀ number request, state.clients number = .sending request →
      state.writeQueue.length < queueCapacity)
    (stuck : state.writeQueue ≠ [] ∨ ∃ number, Blocked state number) :
    Progress backend state := by
  cases owner : state.lock with
  | none =>
      -- Nobody is blocked, so something is queued and a loop is running.
      have nonempty : state.writeQueue ≠ [] := by
        refine stuck.resolve_right ?_
        rintro ⟨number, ⟨_, _, taken⟩ | ⟨request, place, full⟩⟩
        · exact taken owner
        · exact full (room number request place)
      obtain ⟨number, loop, present⟩ := locked.running.mp (locked.queued nonempty)
      exact .inl ⟨number, loop_enabled present (fun _ => owner) fun _ => nonempty⟩
  | some holder =>
      cases holder with
      | client number =>
          obtain ⟨after, step⟩ := holder_enabled ((locked.client number).mp owner) (room number)
          exact .inr ⟨number, after, owner, step⟩
      | loop number =>
          obtain ⟨expired, present⟩ := (locked.loop number).mp owner
          exact .inl ⟨number, loop_enabled present nofun nofun⟩

/-- With no more clients than places in the queue, who sends finds room. -/
theorem Reached.room (reached : Reached backend (MutationsBy clients) core state)
    (few : clients ≤ queueCapacity) {number : Nat} {request : Request}
    (place : state.clients number = .sending request) :
    state.writeQueue.length < queueCapacity := by
  obtain ⟨_, ordered, fresh⟩ := Reached.invariant reached
  have distinct := fresh.nodup
  rw [ordered.held, ← List.append_assoc, ← List.append_assoc] at distinct
  exact ((Reached.owned reached).queue_lt (List.nodup_append.mp distinct).2.1 place).trans_le few

/-- Once they wait for each other, neither the loop nor the client goes on. -/
theorem CyclicWait.not_progress (locked : state.Locked) (cyclic : CyclicWait state) :
    ¬ Progress backend state := by
  obtain ⟨number, expired, client, present, owner, request, place, full⟩ := cyclic
  rintro (⟨other, after, step⟩ | ⟨other, after, holder, step⟩)
  · have same : other = number := by
      have last := locked.single number _ present
      have running : ∃ loop, state.loops other = some loop := by
        cases step <;> exact ⟨_, by assumption⟩
      obtain ⟨loop, running⟩ := running
      have lastToo := locked.single other loop running
      omega
    rw [same] at step
    cases step <;> simp_all
  · rw [owner] at holder
    cases holder
    cases step <;> simp_all

/-! ## A deadlock -/

/-- The loop commits the request of client 0 and its idle timer has expired,
while other clients fill the queue. -/
structure Backlog (first : Request) (count : Nat) (state : Dispatcher Core) : Prop where
  loop : state.loops 0 = some ⟨.committing [first] none, true⟩
  first : state.clients 0 = .waiting first
  idle : ∀ number, count < number → state.clients number = .idle
  lock : state.lock = none
  dispatching : state.dispatching = true
  length : state.writeQueue.length = count

/-- What a client does until its request is in the queue, when a loop is running. -/
theorem Reached.enqueue (reached : Reached backend (MutationsBy clients) core state)
    (command : Command) {number : Nat} (inside : number < clients)
    (idle : state.clients number = .idle) (free : state.lock = none)
    (running : state.dispatching = true) :
    Reached backend (MutationsBy clients) core
      { state with
        issued := state.issued + 1
        lock := some (.client number)
        clients := Function.update state.clients number
          (.sending ⟨state.issued, number, .submitMutation command⟩) } := by
  have called := reached.step
    (show MutationsBy clients (.call number (.submitMutation command)) from inside)
    (.call (.submitMutation command) idle)
  have locked := called.step (show MutationsBy clients (.client number) from trivial)
    (.client (.lock (Function.update_self _ _ _) free))
  have joined := locked.step (show MutationsBy clients (.client number) from trivial)
    (.client (.join (Function.update_self _ _ _) running))
  simpa only [setClient, Function.update_idem] using joined

/-- One more client puts a request into the queue. -/
theorem Backlog.enqueue {first : Request} {count : Nat} (backlog : state.Backlog first count)
    (reached : Reached backend (MutationsBy clients) core state) (command : Command)
    (more : count + 1 < clients) (room : count < queueCapacity) :
    ∃ after, Reached backend (MutationsBy clients) core after ∧
      after.Backlog first (count + 1) := by
  have sending := Reached.enqueue reached command more
    (backlog.idle (count + 1) (Nat.lt_succ_self count)) backlog.lock backlog.dispatching
  have sent := sending.step (show MutationsBy clients (.client (count + 1)) from trivial)
    (.client (.send (Function.update_self _ _ _) (backlog.length ▸ room)))
  have unlocked := sent.step (show MutationsBy clients (.client (count + 1)) from trivial)
    (.client (.unlock (Function.update_self _ _ _)))
  refine ⟨_, unlocked, ?_⟩
  constructor
  · exact backlog.loop
  · simp [setClient, backlog.first]
  · intro number beyond
    have different : number ≠ count + 1 := by omega
    simp [setClient, different, backlog.idle number (by omega)]
  · rfl
  · exact backlog.dispatching
  · simp [setClient, backlog.length]

theorem exists_backlog (backend : Backend Core) (core : Core) (command : Command)
    (inside : 0 < clients) :
    ∃ state first, Reached backend (MutationsBy clients) core state ∧ Backlog first 0 state := by
  have called := (Reached.new : Reached backend (MutationsBy clients) core _).step
    (show MutationsBy clients (.call 0 (.submitMutation command)) from inside)
    (.call (.submitMutation command) rfl)
  have locked := called.step (show MutationsBy clients (.client 0) from trivial)
    (.client (.lock rfl rfl))
  have started := locked.step (show MutationsBy clients (.client 0) from trivial)
    (.client (.start rfl rfl))
  have sent := started.step (show MutationsBy clients (.client 0) from trivial)
    (.client (.send rfl (show 0 < queueCapacity by decide)))
  have unlocked := sent.step (show MutationsBy clients (.client 0) from trivial)
    (.client (.unlock rfl))
  have taken := unlocked.step (show MutationsBy clients (.loop 0) from trivial)
    (.loop (.takeQueued rfl rfl))
  have opened := taken.step (show MutationsBy clients (.loop 0) from trivial)
    (.loop (.openBatch rfl rfl))
  have closed := opened.step (show MutationsBy clients (.loop 0) from trivial)
    (.loop (.closeBatch rfl (.inr (.inr rfl))))
  have expired := closed.step (show MutationsBy clients (.timer 0) from trivial) (.timer rfl)
  refine ⟨_, ⟨0, 0, .submitMutation command⟩, expired, ?_⟩
  constructor
  · rfl
  · rfl
  · intro number beyond
    have different : number ≠ 0 := by omega
    simp [setClient, setLoop, dequeued, new, different]
  · rfl
  · rfl
  · rfl

theorem exists_backlog_count (backend : Backend Core) (core : Core) (command : Command)
    (count : Nat) (room : count ≤ queueCapacity) (more : count < clients) :
    ∃ state first, Reached backend (MutationsBy clients) core state ∧
      Backlog first count state := by
  induction count with
  | zero => exact exists_backlog backend core command more
  | succ count inductionHypothesis =>
      obtain ⟨state, first, reached, backlog⟩ :=
        inductionHypothesis (by omega) (by omega)
      obtain ⟨after, reachedAfter, backlogAfter⟩ := backlog.enqueue reached command more room
      exact ⟨after, first, reachedAfter, backlogAfter⟩

/-- The queue is full when the first client is answered.  It takes the lock for
its next request, and the loop, whose timer has expired during the commit, waits
for the lock instead of reading from the queue. -/
theorem Backlog.deadlock {first : Request} (backlog : state.Backlog first queueCapacity)
    (reached : Reached backend (MutationsBy clients) core state) (command : Command)
    (inside : 0 < clients) :
    ∃ after, Reached backend (MutationsBy clients) core after ∧ CyclicWait after := by
  obtain ⟨result, only⟩ := List.length_eq_one_iff.mp
    (backend.commit_length state.core [first.cmd])
  have committed := reached.step (show MutationsBy clients (.loop 0) from trivial)
    (.loop (.commit backlog.loop))
  simp only [only, List.map_cons, List.map_nil, List.zip_cons_cons, List.zip_nil_left] at committed
  have answered := committed.step (show MutationsBy clients (.loop 0) from trivial)
    (.loop (.answer rfl))
  have finished := answered.step (show MutationsBy clients (.loop 0) from trivial)
    (.loop (.finish rfl))
  have received := finished.step (show MutationsBy clients (.client 0) from trivial)
    (.client (.receive backlog.first (List.mem_append_right _ (List.mem_singleton_self _))))
  have sending := Reached.enqueue received command inside rfl
    backlog.lock backlog.dispatching
  have idle := sending.step (show MutationsBy clients (.loop 0) from trivial)
    (.loop (.idle rfl))
  refine ⟨_, idle, 0, false, 0, rfl, rfl, _, rfl, ?_⟩
  exact (backlog.length ▸ Nat.lt_irrefl _ : ¬ state.writeQueue.length < queueCapacity)

/-- With more clients than places in the queue the dispatcher can deadlock. -/
theorem exists_cyclicWait (backend : Backend Core) (core : Core) (command : Command)
    (many : queueCapacity < clients) :
    ∃ state, Reached backend (MutationsBy clients) core state ∧ CyclicWait state := by
  obtain ⟨state, first, reached, backlog⟩ :=
    exists_backlog_count backend core command queueCapacity le_rfl many
  exact backlog.deadlock reached command (Nat.zero_lt_of_lt many)

/-- While clients submit mutations and no rewrite is queued, the dispatcher cannot
deadlock exactly if there are no more clients than places in the queue. -/
theorem progress_iff_clients_le (backend : Backend Core) (core : Core) (clients : Nat) :
    (∀ state, Reached backend (MutationsBy clients) core state →
      ¬ CyclicWait state ∧
        (state.writeQueue ≠ [] ∨ (∃ number, Blocked state number) → Progress backend state)) ↔
    clients ≤ queueCapacity := by
  constructor
  · intro lively
    by_contra many
    obtain ⟨state, reached, cyclic⟩ :=
      exists_cyclicWait backend core ⟨[], []⟩ (Nat.lt_of_not_le many)
    exact (lively state reached).1 cyclic
  · intro few state reached
    refine ⟨?_, (Reached.invariant reached).1.progress fun _ _ => Reached.room reached few⟩
    rintro ⟨_, _, _, _, _, _, place, full⟩
    exact full (Reached.room reached few place)

end Dispatcher

section

attribute [local instance] GoTables.ascii

/-- With 1025 clients a state is reached in which the loop waits for the lock,
its holder waits for room in the queue, and neither goes on. -/
theorem Dispatcher.deadlock_with_1025_clients :
    ∃ state : Dispatcher Executor,
      Reached (Executor.backend (World.still ⟨0, by decide⟩) .always (fun _ => none) fun _ => id)
        (MutationsBy 1025) (Executor.new .always 0 false) state ∧
      CyclicWait state ∧ state.writeQueue ≠ [] ∧
      ¬ Progress (Executor.backend (World.still ⟨0, by decide⟩) .always (fun _ => none)
        fun _ => id) state := by
  obtain ⟨state, reached, cyclic⟩ := exists_cyclicWait
    (Executor.backend (World.still ⟨0, by decide⟩) .always (fun _ => none) fun _ => id)
    (Executor.new .always 0 false) ⟨bytes "DEL", [bytes "k"]⟩ (show queueCapacity < 1025 by decide)
  refine ⟨state, reached, cyclic, ?_, cyclic.not_progress (Reached.invariant reached).1⟩
  obtain ⟨_, _, _, _, _, _, _, full⟩ := cyclic
  intro empty
  rw [empty] at full
  exact full (by decide)

end

end Carrot
