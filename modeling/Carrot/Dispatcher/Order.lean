import Carrot.Dispatcher.Backend

/-!
# Requests are neither lost, duplicated nor reordered

Three invariants carry the argument.  `Locked` says who holds the lock and that
the loop started last is the only one that can be running.  `Ordered` says that
the requests that were sent are, in this order, those that were answered, those
in the hands of the loop and those in the queue.  `Fresh` says that no request
is sent twice.
-/

universe u

namespace Carrot

/-! ## Locks and loops -/

namespace Client

def holdsLock : Client → Bool
  | starting _ | sending _ | unlocking _ => true
  | _ => false

/-- It has made sure that a loop is running, and still holds the lock. -/
def hasStarted : Client → Bool
  | sending _ | unlocking _ => true
  | _ => false

/-- A request that it has not sent yet. -/
def unsent : Client → Option Request
  | locking request | starting request | sending request => some request
  | _ => none

theorem holdsLock_afterwards (request : Request) : (afterwards request).holdsLock = false := by
  unfold afterwards
  split <;> rfl

theorem hasStarted_afterwards (request : Request) : (afterwards request).hasStarted = false := by
  unfold afterwards
  split <;> rfl

theorem unsent_afterwards (request : Request) : (afterwards request).unsent = none := by
  unfold afterwards
  split <;> rfl

end Client

namespace Dispatcher

variable {Core : Type u} {backend : Backend Core} {state after : Dispatcher Core}

structure Locked (state : Dispatcher Core) : Prop where
  client : ∀ number, state.lock = some (.client number) ↔
    (state.clients number).holdsLock = true
  loop : ∀ number, state.lock = some (.loop number) ↔
    ∃ expired, state.loops number = some ⟨.idleLocked, expired⟩
  single : ∀ number loop, state.loops number = some loop → number + 1 = state.started
  running : state.dispatching = true ↔ ∃ number loop, state.loops number = some loop
  started : ∀ number, (state.clients number).hasStarted = true → state.dispatching = true
  queued : state.writeQueue ≠ [] → state.dispatching = true

theorem locked_new (core : Core) : (new core).Locked := by
  constructor <;> simp [new, Client.holdsLock, Client.hasStarted]

/-- A client moves on, and takes or gives back the lock as its new place asks. -/
theorem Locked.clientMoves (locked : state.Locked) {number : Nat} {client : Client}
    (clients : after.clients = Function.update state.clients number client)
    (loops : after.loops = state.loops) (count : after.started = state.started)
    (dispatching : after.dispatching = state.dispatching)
    (owner : after.lock = some (.client number) ↔ client.holdsLock = true)
    (others : ∀ other, other ≠ .client number →
      (after.lock = some other ↔ state.lock = some other))
    (started : client.hasStarted = true → state.dispatching = true)
    (queued : after.writeQueue ≠ [] → state.dispatching = true) : after.Locked where
  client other := by
    rw [clients]
    by_cases same : other = number
    · subst other
      rw [Function.update_self]
      exact owner
    · rw [Function.update_of_ne same, others _ (by simpa using same)]
      exact locked.client other
  loop other := by
    rw [loops, others _ (by simp)]
    exact locked.loop other
  single := by
    rw [loops, count]
    exact locked.single
  running := by
    rw [loops, dispatching]
    exact locked.running
  started other := by
    rw [clients, dispatching]
    by_cases same : other = number
    · subst other
      rw [Function.update_self]
      exact started
    · rw [Function.update_of_ne same]
      exact locked.started other
  queued := by
    rw [dispatching]
    exact queued

/-- A loop moves on, and takes or gives back the lock as its new place asks. -/
theorem Locked.loopMoves (locked : state.Locked) {number : Nat} {before loop : WriteLoop}
    (present : state.loops number = some before)
    (loops : after.loops = Function.update state.loops number (some loop))
    (clients : after.clients = state.clients) (count : after.started = state.started)
    (dispatching : after.dispatching = state.dispatching)
    (owner : after.lock = some (.loop number) ↔ loop.phase = .idleLocked)
    (others : ∀ other, other ≠ .loop number →
      (after.lock = some other ↔ state.lock = some other)) : after.Locked := by
  have active : after.dispatching = true := by
    rw [dispatching]
    exact locked.running.mpr ⟨number, before, present⟩
  constructor
  · intro other
    rw [clients, others _ (by simp)]
    exact locked.client other
  · intro other
    rw [loops]
    by_cases same : other = number
    · subst other
      rw [Function.update_self, owner]
      exact ⟨fun phase => ⟨loop.expired, by rw [← phase]⟩, fun ⟨expired, is⟩ => by
        rw [Option.some.inj is]⟩
    · rw [Function.update_of_ne same, others _ (by simpa using same)]
      exact locked.loop other
  · intro other _ running
    rw [count]
    rw [loops] at running
    by_cases same : other = number
    · rw [same]
      exact locked.single number before present
    · rw [Function.update_of_ne same] at running
      exact locked.single other _ running
  · exact ⟨fun _ => ⟨number, loop, by rw [loops, Function.update_self]⟩, fun _ => active⟩
  · exact fun _ _ => active
  · exact fun _ => active

theorem Locked.noLoop (locked : state.Locked) (none : state.dispatching = false) (number : Nat) :
    state.loops number = .none := by
  cases running : state.loops number with
  | none => rfl
  | some loop =>
      rw [locked.running.mpr ⟨number, loop, running⟩] at none
      cases none

/-- A loop is started when none is running. -/
theorem Locked.startLoop (locked : state.Locked) (none : state.dispatching = false) :
    ({ state with dispatching := true, started := state.started + 1 }.setLoop state.started
      ⟨.top .none, false⟩).Locked := by
  have absent : ∀ number loop, state.loops number ≠ some loop := fun number loop running => by
    rw [locked.noLoop none number] at running
    cases running
  have only : ∀ number loop, Function.update state.loops state.started
      (some ⟨.top .none, false⟩) number = some loop →
      number = state.started ∧ loop = ⟨.top .none, false⟩ := by
    intro number loop running
    by_cases same : number = state.started
    · subst same
      rw [Function.update_self] at running
      exact ⟨rfl, (Option.some.inj running).symm⟩
    · rw [Function.update_of_ne same] at running
      exact absurd running (absent number loop)
  constructor
  · exact locked.client
  · intro number
    constructor
    · intro owned
      obtain ⟨expired, running⟩ := (locked.loop number).mp owned
      exact absurd running (absent number _)
    · rintro ⟨expired, running⟩
      cases (only number _ running).2
  · intro number loop running
    rw [(only number loop running).1]
    rfl
  · exact ⟨fun _ => ⟨state.started, _, Function.update_self _ _ _⟩, fun _ => rfl⟩
  · exact fun _ _ => rfl
  · exact fun _ => rfl

/-- A loop that holds the lock and finds the queue empty goes away. -/
theorem Locked.exitLoop (locked : state.Locked) {number : Nat} {expired : Bool}
    (present : state.loops number = some ⟨.idleLocked, expired⟩) (empty : state.writeQueue = []) :
    ({ state with
      lock := none
      dispatching := false
      loops := Function.update state.loops number none } : Dispatcher Core).Locked := by
  have owned : state.lock = some (.loop number) := (locked.loop number).mpr ⟨expired, present⟩
  have gone : ∀ other loop, Function.update state.loops number none other ≠ some loop := by
    intro other loop running
    by_cases same : other = number
    · rw [same, Function.update_self] at running
      cases running
    · rw [Function.update_of_ne same] at running
      have first := locked.single other loop running
      have second := locked.single number _ present
      omega
  have unlocked : ∀ other, (state.clients other).holdsLock = false := by
    intro other
    rw [← Bool.not_eq_true, ← locked.client other, owned]
    simp
  constructor
  · intro other
    simp [unlocked other]
  · intro other
    refine ⟨nofun, ?_⟩
    rintro ⟨_, running⟩
    exact absurd running (gone other _)
  · exact fun other loop running => absurd running (gone other loop)
  · refine ⟨nofun, ?_⟩
    rintro ⟨other, loop, running⟩
    exact absurd running (gone other loop)
  · intro other started
    have holds := unlocked other
    cases at_ : state.clients other <;> simp_all [Client.hasStarted, Client.holdsLock]
  · exact fun nonempty => absurd empty nonempty

theorem Locked.client_step {number : Nat} (locked : state.Locked)
    (step : ClientStep state number after) : after.Locked := by
  cases step with
  | lock place free =>
      exact locked.clientMoves rfl rfl rfl rfl (by simp [setClient, Client.holdsLock])
        (by simp [setClient, free, eq_comm]) (by simp [Client.hasStarted]) locked.queued
  | start place none =>
      have owned : state.lock = some (.client number) :=
        (locked.client number).mpr (by rw [place]; rfl)
      exact (locked.startLoop none).clientMoves rfl rfl rfl rfl
        (by simp [setClient, setLoop, Client.holdsLock, owned]) (by simp [setClient, setLoop])
        (fun _ => rfl) (fun _ => rfl)
  | join place running =>
      have owned : state.lock = some (.client number) :=
        (locked.client number).mpr (by rw [place]; rfl)
      exact locked.clientMoves rfl rfl rfl rfl (by simp [setClient, Client.holdsLock, owned])
        (by simp [setClient]) (fun _ => running) locked.queued
  | send place room =>
      have owned : state.lock = some (.client number) :=
        (locked.client number).mpr (by rw [place]; rfl)
      have running := locked.started number (by rw [place]; rfl)
      exact locked.clientMoves rfl rfl rfl rfl (by simp [setClient, Client.holdsLock, owned])
        (by simp [setClient]) (fun _ => running) (fun _ => running)
  | unlock place =>
      have owned : state.lock = some (.client number) :=
        (locked.client number).mpr (by rw [place]; rfl)
      exact locked.clientMoves rfl rfl rfl rfl (by simp [setClient, Client.holdsLock_afterwards])
        (by simp [setClient, owned, eq_comm]) (by simp [Client.hasStarted_afterwards]) locked.queued
  | receive place answered =>
      have unowned : state.lock ≠ some (.client number) := by
        rw [Ne, locked.client number, place]
        simp [Client.holdsLock]
      exact locked.clientMoves rfl rfl rfl rfl (by simp [setClient, Client.holdsLock, unowned])
        (by simp [setClient]) (by simp [Client.hasStarted]) locked.queued

/-- A loop that moves on without touching the lock. -/
theorem Locked.loopGoesOn (locked : state.Locked) {number : Nat} {before loop : WriteLoop}
    (present : state.loops number = some before) (unlocked : before.phase ≠ .idleLocked)
    (loops : after.loops = Function.update state.loops number (some loop))
    (clients : after.clients = state.clients) (count : after.started = state.started)
    (dispatching : after.dispatching = state.dispatching) (lock : after.lock = state.lock)
    (stays : loop.phase ≠ .idleLocked) : after.Locked := by
  refine locked.loopMoves present loops clients count dispatching ?_ fun other _ => by rw [lock]
  refine iff_of_false ?_ stays
  rw [lock, locked.loop number, present]
  rintro ⟨expired, same⟩
  exact unlocked (by rw [Option.some.inj same])

theorem Locked.loop_step {number : Nat} (locked : state.Locked)
    (step : LoopStep backend state number after) : after.Locked := by
  cases step with
  | lock place free =>
      exact locked.loopMoves place rfl rfl rfl rfl (by simp [setLoop])
        (by simp [setLoop, free, eq_comm])
  | exit place empty => exact locked.exitLoop place empty
  | stay place nonempty =>
      have owned : state.lock = some (.loop number) := (locked.loop number).mpr ⟨_, place⟩
      exact locked.loopMoves place rfl rfl rfl rfl (by simp [setLoop])
        (by simp [setLoop, owned, eq_comm])
  | takePending place | takeQueued place _ | idle place | startRewrite place _ | openBatch place _
  | collect place _ _ _ | putAside place _ _ _ | closeBatch place _ | commit place | answer place
  | finish place => exact locked.loopGoesOn place nofun rfl rfl rfl rfl rfl nofun

theorem Locked.step {label : Label} (locked : state.Locked)
    (step : DispatchStep backend state label after) : after.Locked := by
  cases step with
  | @call number call place =>
      have unowned : state.lock ≠ some (.client number) := by
        rw [Ne, locked.client number, place]
        simp [Client.holdsLock]
      exact locked.clientMoves rfl rfl rfl rfl (by simp [setClient, Client.holdsLock, unowned])
        (by simp [setClient]) (by simp [Client.hasStarted]) locked.queued
  | client step => exact locked.client_step step
  | @timer number loop place =>
      refine locked.loopMoves place rfl rfl rfl rfl ?_ (by simp [setLoop])
      refine (locked.loop number).trans ?_
      rw [place]
      exact ⟨fun ⟨_, same⟩ => by rw [Option.some.inj same], fun phase => ⟨loop.expired, by
        rw [← phase]⟩⟩
  | loop step => exact locked.loop_step step

end Dispatcher

/-! ## Order -/

namespace LoopPhase

/-- The mutations in hand, or the request being looked at, up to the answers. -/
def batch : LoopPhase → List Request
  | handling request => [request]
  | collecting batch => batch
  | committing batch _ => batch
  | answering answers _ => answers.map Prod.fst
  | _ => []

/-- The rewrite that was put aside. -/
def pending : LoopPhase → List Request
  | top pending => pending.toList
  | committing _ pending => pending.toList
  | answering _ pending => pending.toList
  | _ => []

/-- The requests in hand for which the backend has not been called yet. -/
def todo : LoopPhase → List Request
  | handling request => [request]
  | collecting batch => batch
  | committing batch pending => batch ++ pending.toList
  | answering _ pending => pending.toList
  | top pending => pending.toList
  | _ => []

end LoopPhase

namespace Dispatcher

variable {Core : Type u} {backend : Backend Core} {core : Core} {state after : Dispatcher Core}

/-- Something about the loop that was started last, if it is running. -/
def ofLoop (state : Dispatcher Core) (part : LoopPhase → List Request) : List Request :=
  match state.loops (state.started - 1) with
  | some loop => part loop.phase
  | none => []

def batch (state : Dispatcher Core) : List Request := state.ofLoop LoopPhase.batch

def pending (state : Dispatcher Core) : List Request := state.ofLoop LoopPhase.pending

def todo (state : Dispatcher Core) : List Request := state.ofLoop LoopPhase.todo

structure Ordered (backend : Backend Core) (core : Core) (state : Dispatcher Core) : Prop where
  held : state.sent =
    state.answered.map Prod.fst ++ (state.batch ++ (state.pending ++ state.writeQueue))
  called : state.sent =
    state.calls.flatMap BackendCall.requests ++ (state.todo ++ state.writeQueue)
  core_eq : state.core = state.calls.foldl (BackendCall.perform backend) core

theorem ordered_new (backend : Backend Core) (core : Core) : (new core).Ordered backend core :=
  ⟨rfl, rfl, rfl⟩

theorem Locked.ofLoop (locked : state.Locked) {number : Nat} {loop : WriteLoop}
    (present : state.loops number = some loop) (part : LoopPhase → List Request) :
    state.ofLoop part = part loop.phase := by
  have last := locked.single number loop present
  rw [Dispatcher.ofLoop, show state.started - 1 = number by omega, present]

/-- A loop takes requests from the queue, calls the backend and answers, and
all requests stay in order. -/
theorem Ordered.loopMoves (ordered : state.Ordered backend core) (locked : state.Locked)
    {number : Nat} {before loop : WriteLoop} (present : state.loops number = some before)
    (loops : after.loops = Function.update state.loops number (some loop))
    (count : after.started = state.started) (sent : after.sent = state.sent)
    (held : state.answered.map Prod.fst ++
        (before.phase.batch ++ (before.phase.pending ++ state.writeQueue)) =
      after.answered.map Prod.fst ++
        (loop.phase.batch ++ (loop.phase.pending ++ after.writeQueue)))
    (called : state.calls.flatMap BackendCall.requests ++
        (before.phase.todo ++ state.writeQueue) =
      after.calls.flatMap BackendCall.requests ++ (loop.phase.todo ++ after.writeQueue))
    (core_eq : after.core = after.calls.foldl (BackendCall.perform backend) core) :
    after.Ordered backend core := by
  have last := locked.single number before present
  have now : ∀ part, after.ofLoop part = part loop.phase := by
    intro part
    rw [Dispatcher.ofLoop, count, loops, show state.started - 1 = number by omega,
      Function.update_self]
  have earlier : ∀ part, state.ofLoop part = part before.phase := locked.ofLoop present
  constructor
  · rw [sent, ordered.held, batch, pending, batch, pending, now, now, earlier, earlier, held]
  · rw [sent, ordered.called, todo, todo, now, earlier, called]
  · exact core_eq

/-- Nothing is in the hands of a loop that goes away. -/
theorem Ordered.exitLoop (ordered : state.Ordered backend core) (locked : state.Locked)
    {number : Nat} {expired : Bool}
    (present : state.loops number = some ⟨.idleLocked, expired⟩) :
    ({ state with
      lock := none
      dispatching := false
      loops := Function.update state.loops number none } : Dispatcher Core).Ordered
        backend core := by
  have last := locked.single number _ present
  have held := ordered.held
  have called := ordered.called
  simp only [batch, pending, todo, locked.ofLoop present] at held called
  constructor
  · simpa [batch, pending, Dispatcher.ofLoop, show state.started - 1 = number by omega,
      LoopPhase.batch, LoopPhase.pending] using held
  · simpa [todo, Dispatcher.ofLoop, show state.started - 1 = number by omega, LoopPhase.todo] using
      called
  · exact ordered.core_eq

theorem Ordered.loop_step {number : Nat} (ordered : state.Ordered backend core)
    (locked : state.Locked) (step : LoopStep backend state number after) :
    after.Ordered backend core := by
  cases step with
  | takePending place =>
      exact ordered.loopMoves locked place rfl rfl rfl rfl rfl ordered.core_eq
  | takeQueued place queue =>
      refine ordered.loopMoves locked place rfl rfl rfl ?_ ?_ ordered.core_eq <;>
        simp [setLoop, dequeued, queue, LoopPhase.batch, LoopPhase.pending, LoopPhase.todo]
  | idle place => exact ordered.loopMoves locked place rfl rfl rfl rfl rfl ordered.core_eq
  | lock place free => exact ordered.loopMoves locked place rfl rfl rfl rfl rfl ordered.core_eq
  | exit place empty => exact ordered.exitLoop locked place
  | stay place nonempty => exact ordered.loopMoves locked place rfl rfl rfl rfl rfl ordered.core_eq
  | startRewrite place rewrite =>
      refine ordered.loopMoves locked place rfl rfl rfl rfl ?_ ?_
      · simp [setLoop, LoopPhase.todo, BackendCall.requests]
      · simp [setLoop, BackendCall.perform, ordered.core_eq]
  | openBatch place mutation =>
      exact ordered.loopMoves locked place rfl rfl rfl rfl rfl ordered.core_eq
  | collect place room queue mutation =>
      refine ordered.loopMoves locked place rfl rfl rfl ?_ ?_ ordered.core_eq <;>
        simp [setLoop, dequeued, queue, LoopPhase.batch, LoopPhase.pending, LoopPhase.todo]
  | putAside place room queue rewrite =>
      refine ordered.loopMoves locked place rfl rfl rfl ?_ ?_ ordered.core_eq <;>
        simp [setLoop, dequeued, queue, LoopPhase.batch, LoopPhase.pending, LoopPhase.todo]
  | closeBatch place closed =>
      refine ordered.loopMoves locked place rfl rfl rfl ?_ ?_ ordered.core_eq <;>
        simp [setLoop, LoopPhase.batch, LoopPhase.pending, LoopPhase.todo]
  | @commit batch pending expired place =>
      have all : (batch.zip ((backend.commit state.core (batch.map Request.cmd)).2.map
          Answer.result)).map Prod.fst = batch := by
        refine List.map_fst_zip ?_
        rw [List.length_map, backend.commit_length, List.length_map]
      refine ordered.loopMoves locked place rfl rfl rfl ?_ ?_ ?_
      · simp only [setLoop, LoopPhase.batch, LoopPhase.pending, all]
      · simp [setLoop, LoopPhase.todo, BackendCall.requests]
      · simp [setLoop, BackendCall.perform, ordered.core_eq]
  | answer place =>
      refine ordered.loopMoves locked place rfl rfl rfl ?_ rfl ordered.core_eq
      simp [setLoop, LoopPhase.batch, LoopPhase.pending]
  | finish place => exact ordered.loopMoves locked place rfl rfl rfl rfl rfl ordered.core_eq

/-- What a step that leaves the loops alone does to the order. -/
theorem Ordered.of_sent (ordered : state.Ordered backend core) {requests : List Request}
    (held : ∀ part : LoopPhase → List Request, part (.top none) = [] →
      after.ofLoop part = state.ofLoop part)
    (sent : after.sent = state.sent ++ requests)
    (queue : after.writeQueue = state.writeQueue ++ requests)
    (answered : after.answered = state.answered) (calls : after.calls = state.calls)
    (same : after.core = state.core) : after.Ordered backend core where
  held := by
    rw [sent, queue, answered, ordered.held, batch, batch, pending, pending, held _ rfl, held _ rfl]
    simp only [List.append_assoc]
  called := by
    rw [sent, queue, calls, ordered.called, todo, todo, held _ rfl]
    simp only [List.append_assoc]
  core_eq := by rw [same, calls, ordered.core_eq]

theorem Ordered.client_step {number : Nat} (ordered : state.Ordered backend core)
    (locked : state.Locked) (step : ClientStep state number after) :
    after.Ordered backend core := by
  have nothing : ∀ queue : List Request, queue = queue ++ [] := fun queue =>
    (List.append_nil queue).symm
  cases step with
  | lock | join | unlock | receive =>
      exact ordered.of_sent (fun _ _ => rfl) (nothing _) (nothing _) rfl rfl rfl
  | send place room => exact ordered.of_sent (fun _ _ => rfl) rfl rfl rfl rfl rfl
  | start place none =>
      refine ordered.of_sent ?_ (nothing _) (nothing _) rfl rfl rfl
      intro part empty
      have absent := locked.noLoop none (state.started - 1)
      simp [Dispatcher.ofLoop, setClient, setLoop, absent, empty]

theorem Ordered.step {label : Label} (ordered : state.Ordered backend core)
    (locked : state.Locked) (step : DispatchStep backend state label after) :
    after.Ordered backend core := by
  have nothing : ∀ queue : List Request, queue = queue ++ [] := fun queue =>
    (List.append_nil queue).symm
  cases step with
  | call call place =>
      exact ordered.of_sent (fun _ _ => rfl) (nothing _) (nothing _) rfl rfl rfl
  | client step => exact ordered.client_step locked step
  | timer place => exact ordered.loopMoves locked place rfl rfl rfl rfl rfl ordered.core_eq
  | loop step => exact ordered.loop_step locked step

/-! ## Requests are sent once -/

structure Fresh (state : Dispatcher Core) : Prop where
  issued : ∀ request ∈ state.sent, request.id < state.issued
  unsent : ∀ number request, (state.clients number).unsent = some request →
    request.client = number ∧ request.id < state.issued ∧ request ∉ state.sent
  nodup : state.sent.Nodup

theorem fresh_new (core : Core) : (new core).Fresh where
  issued := nofun
  unsent := nofun
  nodup := List.nodup_nil

/-- A client moves on with the request it had, or without one. -/
theorem Fresh.clientMoves (fresh : state.Fresh) {number : Nat} {client : Client}
    (clients : after.clients = Function.update state.clients number client)
    (issued : after.issued = state.issued) (sent : after.sent = state.sent)
    (kept : ∀ request, client.unsent = some request →
      (state.clients number).unsent = some request) : after.Fresh where
  issued := by
    rw [issued, sent]
    exact fresh.issued
  unsent other request unsent := by
    rw [clients] at unsent
    rw [issued, sent]
    by_cases same : other = number
    · rw [same, Function.update_self] at unsent
      rw [same]
      exact fresh.unsent number request (kept request unsent)
    · rw [Function.update_of_ne same] at unsent
      exact fresh.unsent other request unsent
  nodup := by
    rw [sent]
    exact fresh.nodup

theorem Fresh.send (fresh : state.Fresh) {number : Nat} {request : Request}
    (place : state.clients number = .sending request) :
    ({ state with
      writeQueue := state.writeQueue ++ [request]
      sent := state.sent ++ [request] }.setClient number (.unlocking request)).Fresh := by
  obtain ⟨isClient, old, new⟩ := fresh.unsent number request (by rw [place]; rfl)
  constructor
  · intro other membership
    rcases List.mem_append.mp membership with inside | same
    · exact fresh.issued other inside
    · rw [List.mem_singleton.mp same]
      exact old
  · intro other unsentRequest unsent
    simp only [setClient] at unsent ⊢
    by_cases same : other = number
    · rw [same, Function.update_self] at unsent
      cases unsent
    · rw [Function.update_of_ne same] at unsent
      obtain ⟨isOther, oldToo, newToo⟩ := fresh.unsent other unsentRequest unsent
      refine ⟨isOther, oldToo, ?_⟩
      rw [List.mem_append, List.mem_singleton, not_or]
      exact ⟨newToo, fun equal => same (by rw [← isOther, equal, isClient])⟩
  · refine List.nodup_append.mpr ⟨fresh.nodup, List.nodup_singleton _, ?_⟩
    intro first inside second single
    rw [List.mem_singleton.mp single]
    exact fun equal => new (equal ▸ inside)

theorem Fresh.call (fresh : state.Fresh) (number : Nat) (call : Call) :
    ({ state with issued := state.issued + 1 }.setClient number
      (.locking ⟨state.issued, number, call⟩)).Fresh := by
  constructor
  · intro request membership
    exact Nat.lt_succ_of_lt (fresh.issued request membership)
  · intro other request unsent
    simp only [setClient] at unsent ⊢
    by_cases same : other = number
    · rw [same, Function.update_self] at unsent
      cases unsent
      refine ⟨same.symm, Nat.lt_succ_self _, fun membership => ?_⟩
      exact absurd (fresh.issued _ membership) (Nat.lt_irrefl _)
    · rw [Function.update_of_ne same] at unsent
      obtain ⟨isOther, old, new⟩ := fresh.unsent other request unsent
      exact ⟨isOther, Nat.lt_succ_of_lt old, new⟩
  · exact fresh.nodup

theorem Fresh.step {label : Label} (fresh : state.Fresh)
    (step : DispatchStep backend state label after) : after.Fresh := by
  cases step with
  | call call place => exact fresh.call _ call
  | client step =>
      cases step with
      | lock place | start place | join place =>
          refine fresh.clientMoves rfl rfl rfl ?_
          rw [place]
          exact fun _ unsent => unsent
      | send place room => exact fresh.send place
      | @unlock request place =>
          refine fresh.clientMoves rfl rfl rfl ?_
          rw [Client.unsent_afterwards]
          nofun
      | receive => exact fresh.clientMoves rfl rfl rfl nofun
  | timer place => exact ⟨fresh.issued, fresh.unsent, fresh.nodup⟩
  | loop step => cases step <;> exact ⟨fresh.issued, fresh.unsent, fresh.nodup⟩

/-- What was answered is no longer in the queue. -/
theorem Ordered.not_queued (ordered : state.Ordered backend core) (fresh : state.Fresh)
    {request : Request} {answer : Answer} (answered : (request, answer) ∈ state.answered) :
    request ∉ state.writeQueue := by
  have nodup := fresh.nodup
  rw [ordered.held] at nodup
  intro queued
  refine (List.nodup_append.mp nodup).2.2 request (List.mem_map_of_mem answered) request ?_ rfl
  exact List.mem_append_right _ (List.mem_append_right _ queued)

/-! ## Reached states -/

/-- All three invariants hold in every state that is reached. -/
theorem Reached.invariant {allowed : Label → Prop} (reached : Reached backend allowed core state) :
    state.Locked ∧ state.Ordered backend core ∧ state.Fresh := by
  induction reached with
  | new => exact ⟨locked_new core, ordered_new backend core, fresh_new core⟩
  | step _ _ step inductionHypothesis =>
      obtain ⟨locked, ordered, fresh⟩ := inductionHypothesis
      exact ⟨locked.step step, ordered.step locked step, fresh.step step⟩

end Dispatcher

section

variable [GoTables]

/-- In every interleaving there is at most one write loop, and one if the queue
is not empty.  A request that was sent is in exactly one place, and in the order
of the queue: answered, in the batch, put aside or in the queue.  The executor is
called for requests in the order in which they were sent, so that a rewrite
copies the store between the mutations sent before it and those sent after it.
Each call hands a part of its batch to the log.  All that the log was made to do
in the run is to append these parts, call by call, with records of evicted keys,
starts of rewrites and the work of other goroutines in between; and what was
applied are mutations of some of them, in the order in which they were sent. -/
theorem Dispatcher.requests_kept_in_order (world : World) (policy : SyncPolicy)
    (prepare : Nat → Option Bytes) (arrange : Nat → List Key → List Key) (executor : Executor)
    {state : Dispatcher Executor}
    (reached : Reached (Executor.backend world policy prepare arrange) (fun _ => True)
      executor state) :
    (∀ first second, (state.loops first).isSome → (state.loops second).isSome →
      first = second) ∧
    (state.writeQueue ≠ [] → state.dispatching = true ∧ ∃ number, (state.loops number).isSome) ∧
    (∀ request ∈ state.sent, (state.answered.map Prod.fst ++
      (state.batch ++ (state.pending ++ state.writeQueue))).count request = 1) ∧
    state.sent =
      state.answered.map Prod.fst ++ (state.batch ++ (state.pending ++ state.writeQueue)) ∧
    state.calls.flatMap BackendCall.requests <+: state.sent ∧
    state.core = state.calls.foldl
      (BackendCall.perform (Executor.backend world policy prepare arrange)) executor ∧
    ∃ (passed : List (List Request)) (served : List Request),
      List.Forall₂ (fun part call => part.Sublist (BackendCall.requests call))
        passed state.calls ∧
      served.Sublist passed.flatten ∧ passed.flatten.Sublist state.sent ∧
      executor.Commits world (passed.flatten.map Request.cmd) (served.map Request.cmd)
        state.core := by
  obtain ⟨locked, ordered, fresh⟩ := Reached.invariant reached
  have called : state.calls.flatMap BackendCall.requests <+: state.sent := by
    rw [ordered.called]
    exact List.prefix_append _ _
  refine ⟨?_, ?_, ?_, ordered.held, called, ordered.core_eq, ?_⟩
  · intro first second firstRuns secondRuns
    obtain ⟨loop, running⟩ := Option.isSome_iff_exists.mp firstRuns
    obtain ⟨other, runningToo⟩ := Option.isSome_iff_exists.mp secondRuns
    have last := locked.single first loop running
    have lastToo := locked.single second other runningToo
    omega
  · intro nonempty
    have active := locked.queued nonempty
    obtain ⟨number, loop, running⟩ := locked.running.mp active
    exact ⟨active, number, Option.isSome_iff_exists.mpr ⟨loop, running⟩⟩
  · intro request membership
    rw [← ordered.held]
    exact List.count_eq_one_of_mem fresh.nodup membership
  · obtain ⟨passed, served, parts, sublist, commits⟩ :=
      Executor.commits_calls world policy prepare arrange executor state.calls
    rw [ordered.core_eq]
    exact ⟨passed, served, parts, sublist,
      (BackendCall.flatten_sublist parts).trans called.sublist, commits⟩

end

section

attribute [local instance] GoTables.ascii

/-- A client has sent a mutation; the loop it started has not looked yet. -/
theorem Dispatcher.requests_kept_in_order_sent :
    ∃ state : Dispatcher Executor, state.writeQueue.length = 1 ∧ state.dispatching = true ∧
      state.sent = state.answered.map Prod.fst ++
        (state.batch ++ (state.pending ++ state.writeQueue)) := by
  let world := World.still ⟨0, by decide⟩
  let backend := Executor.backend world .always (fun _ => none) fun _ => id
  let mutation := Call.submitMutation ⟨bytes "DEL", [bytes "k"]⟩
  have called : Reached backend (fun _ => True) (Executor.new .always 0 false) _ :=
    .step .new trivial (show DispatchStep backend _ (.call 7 mutation) _ from .call mutation rfl)
  have locked := called.step trivial
    (show DispatchStep backend _ (.client 7) _ from .client (.lock rfl rfl))
  have started := locked.step trivial
    (show DispatchStep backend _ (.client 7) _ from .client (.start rfl rfl))
  have sent := started.step trivial
    (show DispatchStep backend _ (.client 7) _ from .client (.send rfl (by decide)))
  exact ⟨_, rfl, rfl, (requests_kept_in_order world _ _ _ _ sent).2.2.2.1⟩

end

end Carrot
